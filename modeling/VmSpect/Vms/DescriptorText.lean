import VmSpect.Vms.DescriptorLines

/-!
# Printed descriptors

What `parse_descriptor` reads from a descriptor that was printed. A text is read as the items on its
lines, whatever the order of the items and the ends of the lines, and the items of a descriptor give
it back. `Descriptor.print` is one way to print a descriptor.
-/

namespace VmSpect.Vmdk

open Text

/-! ## Texts -/

/-- How a line ends: with a line feed, possibly after a carriage return. -/
inductive LineEnd where
  | lf
  | crlf

/-- The characters of a line end. -/
def LineEnd.chars : LineEnd → List Char
  | lf => ['\n']
  | crlf => ['\r', '\n']

/-- Items that are the lines of a text, the last of them followed by any number of NUL bytes. -/
inductive Item.Lines : List Item → List Char → Prop
  | last {item : Item} {line : List Char} (hline : item.OnLine line) (nuls : ℕ) :
      Lines [item] (line ++ List.replicate nuls '\x00')
  | line {item : Item} {line : List Char} {items : List Item} {text : List Char}
      (hline : item.OnLine line) (lineEnd : LineEnd) (hrest : Lines items text) :
      Lines (item :: items) (line ++ (lineEnd.chars ++ text))

/-- The first line of a text is read without its end. -/
theorem foldl_parseLine_line (d : Descriptor) {item : Item} {line : List Char}
    (hline : item.OnLine line) (hp : item.Printable) (lineEnd : LineEnd) (text : List Char) :
    (lines (line ++ (lineEnd.chars ++ text))).foldl parseLine d =
      (lines text).foldl parseLine (item.apply d) := by
  have hfeed : '\n' ∉ line := by
    obtain ⟨-, -, -, hfeed⟩ := hline
    exact hfeed
  -- Both line ends are a line feed after characters that are trimmed.
  obtain ⟨padding, hchars, hpadding⟩ : ∃ padding, lineEnd.chars = padding ++ ['\n'] ∧
      ∀ c ∈ padding, c = '\r' := by
    cases lineEnd with
    | lf => exact ⟨[], rfl, fun c hc => absurd hc List.not_mem_nil⟩
    | crlf => exact ⟨['\r'], rfl, fun c hc => List.mem_singleton.mp hc⟩
  have hnone : '\n' ∉ line ++ padding := by
    intro hmem
    rcases List.mem_append.mp hmem with hmem | hmem
    · exact hfeed hmem
    · exact absurd (hpadding _ hmem) (by decide)
  have htext : line ++ (lineEnd.chars ++ text) = (line ++ padding) ++ '\n' :: text := by
    rw [hchars]
    simp only [List.append_assoc, List.singleton_append]
  have hpads : Padding padding := fun c hc => by rw [hpadding c hc]; rfl
  obtain ⟨dropped, hdropped, hstrip⟩ := stripCr_append (line ++ padding)
  have hdroppedPads : Padding dropped := fun c hc => by rw [hdropped c hc]; rfl
  have hstripped : parseLine d (stripCr (line ++ padding)) = item.apply d := by
    have hpadded := parseLine_padded d (fun c hc => absurd hc List.not_mem_nil) hdroppedPads
      (stripCr (line ++ padding))
    rw [List.nil_append, ← hstrip] at hpadded
    rw [← hpadded, hline.parseLine_eq d hp hpads]
  rw [htext, lines_line hnone, List.foldl_cons, hstripped]

/-- A text is read as the items on its lines. -/
theorem Item.Lines.foldl_parseLine {items : List Item} {text : List Char} (h : Lines items text)
    (hp : ∀ item ∈ items, item.Printable) (d : Descriptor) :
    (lines text).foldl parseLine d = items.foldl Item.apply d := by
  induction h generalizing d with
  | @last item line hline nuls =>
    have hitem := hp item List.mem_cons_self
    have hpads : Padding (List.replicate nuls '\x00') := by
      intro c hc
      rw [List.eq_of_mem_replicate hc]
      rfl
    have hnone : '\n' ∉ line ++ List.replicate nuls '\x00' := by
      obtain ⟨-, -, -, hfeed⟩ := hline
      intro hmem
      rcases List.mem_append.mp hmem with hmem | hmem
      · exact hfeed hmem
      · exact absurd (List.eq_of_mem_replicate hmem) (by decide)
    have hread := hline.parseLine_eq d hitem hpads
    rw [lines_last hnone, List.foldl_cons, List.foldl_nil, ← hread]
    split
    · rename_i hnil
      rw [hnil]
      rfl
    · rfl
  | line hline lineEnd hrest ih =>
    rw [foldl_parseLine_line d hline (hp _ List.mem_cons_self), List.foldl_cons,
      ih fun item hmem => hp item (List.mem_cons_of_mem _ hmem)]

/-! ## Descriptors -/

/-- The type of disk that an item gives. -/
def Item.createType? : Item → Option (List Char)
  | createType value => some value
  | _ => none

/-- The identifier of the parent that an item gives. -/
def Item.parentCid? : Item → Option ℕ
  | parentCid cid => some cid
  | _ => none

/-- The name of the parent that an item gives. -/
def Item.parentFileNameHint? : Item → Option (List Char)
  | parentFileNameHint value => some value
  | _ => none

/-- The extent that an item gives. -/
def Item.extent? : Item → Option ExtentDescriptor
  | extent e => some e
  | _ => none

/-- The items of a descriptor, in any order that keeps the order of the extents: a field that has a
value is given once, and a type of disk that is empty may be left out. -/
structure Descriptor.Items (d : Descriptor) (items : List Item) : Prop where
  createType : items.filterMap Item.createType? = [d.createType] ∨
    d.createType = [] ∧ items.filterMap Item.createType? = []
  parentCid : items.filterMap Item.parentCid? = d.parentCid.toList
  parentFileNameHint : items.filterMap Item.parentFileNameHint? = d.parentFileNameHint.toList
  extents : items.filterMap Item.extent? = d.extents

/-- A text that is a rendering of a descriptor. -/
def Descriptor.Renders (d : Descriptor) (text : List Char) : Prop :=
  ∃ items, Item.Lines items text ∧ d.Items items

/-- A descriptor that can be printed. -/
structure Descriptor.Printable (d : Descriptor) : Prop where
  createType : Quotable d.createType
  parentCid : ∀ cid ∈ d.parentCid, cid < 2^32
  parentFileNameHint : ∀ hint ∈ d.parentFileNameHint, Quotable hint
  extents : ∀ e ∈ d.extents, e.Printable

/-- The descriptor with the types of its extents in upper case. -/
def Descriptor.upperKinds (d : Descriptor) : Descriptor :=
  { d with extents := d.extents.map ExtentDescriptor.upper }

/-- The fields of a descriptor after items: the last item that gives a field counts, and every
extent is added. -/
theorem foldl_apply (items : List Item) (d : Descriptor) :
    items.foldl Item.apply d =
      { createType := (items.filterMap Item.createType?).foldl (fun _ value => value) d.createType
        parentCid := (items.filterMap Item.parentCid?).foldl (fun _ cid => some cid) d.parentCid
        parentFileNameHint := (items.filterMap Item.parentFileNameHint?).foldl
          (fun _ hint => some hint) d.parentFileNameHint
        extents := d.extents ++ (items.filterMap Item.extent?).map ExtentDescriptor.upper } := by
  induction items generalizing d with
  | nil => simp
  | cons item rest ih =>
    rw [List.foldl_cons, ih]
    cases item <;>
      simp [Item.apply, List.filterMap_cons, Item.createType?, Item.parentCid?,
        Item.parentFileNameHint?, Item.extent?]

/-- The items of a descriptor give it back, the types of its extents in upper case. -/
theorem Descriptor.Items.foldl_apply_eq {d : Descriptor} {items : List Item} (h : d.Items items) :
    items.foldl Item.apply {} = d.upperKinds := by
  have htype : (items.filterMap Item.createType?).foldl (fun _ value => value) [] =
      d.createType := by
    rcases h.createType with heq | ⟨hnil, heq⟩
    · rw [heq]
      rfl
    · rw [heq, hnil]
      rfl
  have hfield : ∀ {α : Type} (field : Option α),
      field.toList.foldl (fun _ value => some value) none = field := by
    intro α field
    cases field <;> rfl
  rw [foldl_apply, htype, h.parentCid, h.parentFileNameHint, h.extents, hfield, hfield]
  rfl

/-- The items of a descriptor that can be printed can be printed. -/
theorem Descriptor.Items.printable {d : Descriptor} {items : List Item} (h : d.Items items)
    (hp : d.Printable) : ∀ item ∈ items, item.Printable := by
  intro item hmem
  cases item with
  | nothing => trivial
  | createType value =>
    have hvalue : value ∈ items.filterMap Item.createType? :=
      List.mem_filterMap.mpr ⟨_, hmem, rfl⟩
    rcases h.createType with heq | ⟨-, heq⟩
    · rw [heq, List.mem_singleton] at hvalue
      exact hvalue ▸ hp.createType
    · rw [heq] at hvalue
      exact absurd hvalue List.not_mem_nil
  | parentCid cid =>
    have hcid : cid ∈ items.filterMap Item.parentCid? := List.mem_filterMap.mpr ⟨_, hmem, rfl⟩
    rw [h.parentCid, Option.mem_toList] at hcid
    exact hp.parentCid cid hcid
  | parentFileNameHint value =>
    have hvalue : value ∈ items.filterMap Item.parentFileNameHint? :=
      List.mem_filterMap.mpr ⟨_, hmem, rfl⟩
    rw [h.parentFileNameHint, Option.mem_toList] at hvalue
    exact hp.parentFileNameHint value hvalue
  | extent e =>
    have hextent : e ∈ items.filterMap Item.extent? := List.mem_filterMap.mpr ⟨_, hmem, rfl⟩
    rw [h.extents] at hextent
    exact hp.extents e hextent

/-! ## Printing -/

/-- An extent as it is printed. -/
def ExtentDescriptor.print (e : ExtentDescriptor) : List Char :=
  e.access ++ ' ' :: (Nat.toDigits 10 e.sectors ++ ' ' :: (e.kind ++
    match e.file with
    | none => []
    | some file => ' ' :: ('"' :: (file ++ ['"']) ++ ' ' :: Nat.toDigits 10 e.offsetSectors)))

/-- A line of a descriptor as it is printed. -/
def Item.print : Item → List Char
  | nothing => "# Disk DescriptorFile".toList
  | createType value => "createType".toList ++ '=' :: '"' :: (value ++ ['"'])
  | parentCid cid => "parentCID".toList ++ '=' :: Nat.toDigits 16 cid
  | parentFileNameHint value => "parentFileNameHint".toList ++ '=' :: '"' :: (value ++ ['"'])
  | extent e => e.print

/-- The lines of a descriptor, in the order in which they are printed. -/
def Descriptor.items (d : Descriptor) : List Item :=
  [.nothing, .createType d.createType] ++ d.parentCid.toList.map .parentCid ++
    d.parentFileNameHint.toList.map .parentFileNameHint ++ d.extents.map .extent

/-- A descriptor as it is printed. -/
def Descriptor.print (d : Descriptor) : List Char :=
  d.items.flatMap fun item => item.print ++ ['\n']

/-- The access and the type of an extent are words of the format. -/
structure ExtentDescriptor.Keywords (e : ExtentDescriptor) : Prop where
  access : e.access ∈ accessWords
  kind : Word e.kind
  kind_line : '\n' ∉ e.kind

/-- What is written on a line of its own is on it. -/
theorem Item.Written.onLine {item : Item} {core : List Char} (h : item.Written core)
    (hline : '\n' ∉ core) : item.OnLine core := by
  have hnone : Padding [] := fun c hc => absurd hc List.not_mem_nil
  have honLine : item.OnLine ([] ++ core ++ []) := .intro hnone h hnone (by simpa using hline)
  simpa using honLine

/-- A letter or a digit does not end a line. -/
theorem not_mem_of_bounds {text : List Char}
    (h : ∀ c ∈ text, 0x30 ≤ c.toNat ∧ c.toNat ≤ 0x39 ∨ IsLetter c) : '\n' ∉ text :=
  fun hmem => absurd (plain_of_bounds (h _ hmem)).1 (by decide)

/-- The digits of a number do not end a line. -/
theorem not_mem_toDigits {base : ℕ} (hone : 1 < base) (hbase : base ≤ 16) (n : ℕ) :
    '\n' ∉ Nat.toDigits base n :=
  not_mem_of_bounds ((NumberText.of_toDigits hone hbase n).bounds hone hbase)

/-- A field that is printed without blanks is written as one. -/
theorem fieldText_print {key spelled value text : List Char} (hkey : toAsciiLowercase spelled = key)
    (htext : ValueText value text) : FieldText key value (spelled ++ '=' :: text) := by
  have hnone : Blanks [] := fun c hc => absurd hc List.not_mem_nil
  exact FieldText.intro hkey hnone hnone htext

/-- The digits of a number need no quotes. -/
theorem valueText_toDigits (n : ℕ) : ValueText (Nat.toDigits 16 n) (Nat.toDigits 16 n) := by
  have hnumber : NumberText 16 n (Nat.toDigits 16 n) :=
    NumberText.of_toDigits (by norm_num) (by norm_num) n
  refine Or.inr ⟨rfl, hnumber.ne_nil, Trimmed.of_forall fun c hc => ?_⟩
  obtain ⟨hspace, hnul, hquote, -⟩ :=
    plain_of_bounds (hnumber.bounds (by norm_num) (by norm_num) c hc)
  simp [hspace, hnul, hquote]

/-- A printed extent is written as one. -/
theorem ExtentDescriptor.print_extentText {e : ExtentDescriptor} (hk : e.Keywords) :
    ExtentText e e.print := by
  have hspace : Separator [' '] :=
    ⟨List.cons_ne_nil _ _, fun c hc => Or.inl (List.mem_singleton.mp hc)⟩
  have hnumber : ∀ n, NumberText 10 n (Nat.toDigits 10 n) :=
    NumberText.of_toDigits (by norm_num) (by norm_num)
  have hupper : toAsciiUppercase e.access = e.access := by
    have hwords : ∀ word ∈ accessWords, toAsciiUppercase word = word := by decide
    exact hwords _ hk.access
  unfold ExtentDescriptor.print
  refine ExtentText.intro hupper hk.access hspace (hnumber _) hspace hk.kind rfl ?_
  cases hfile : e.file with
  | none => exact FileText.absent hfile
  | some file => exact FileText.withOffset hfile hspace hspace (hnumber _)

/-- A printed extent has one line. -/
theorem ExtentDescriptor.not_mem_print {e : ExtentDescriptor} (hp : e.Printable)
    (hk : e.Keywords) : '\n' ∉ e.print := by
  have haccess : '\n' ∉ e.access :=
    not_mem_of_bounds fun c hc => Or.inr ((accessWords_letters _ hk.access).2.2 c hc)
  have hdigits : ∀ n, '\n' ∉ Nat.toDigits 10 n := not_mem_toDigits (by norm_num) (by norm_num)
  unfold ExtentDescriptor.print
  cases hfile : e.file with
  | none => simp [haccess, hdigits, hk.kind_line]
  | some file =>
    have hname : '\n' ∉ file := (hp.file_quotable file hfile).2
    simp [haccess, hdigits, hk.kind_line, hname]

/-- A printed item is on its line. -/
theorem Item.print_onLine {item : Item} (hp : item.Printable)
    (hk : ∀ e, item = .extent e → e.Keywords) : item.OnLine item.print := by
  cases item with
  | nothing => exact (Item.Written.comment _).onLine (by decide)
  | createType value =>
    have hkey : toAsciiLowercase "createType".toList = "createtype".toList := by decide
    refine (Item.Written.createType (fieldText_print hkey (Or.inl rfl))).onLine ?_
    simp [hp.2]
  | parentCid cid =>
    have hdigits : NumberText 16 cid (Nat.toDigits 16 cid) :=
      NumberText.of_toDigits (by norm_num) (by norm_num) cid
    have hkey : toAsciiLowercase "parentCID".toList = "parentcid".toList := by decide
    have hfield := fieldText_print hkey (valueText_toDigits cid)
    refine (Item.Written.parentCid hdigits hfield).onLine ?_
    simp [not_mem_toDigits]
  | parentFileNameHint value =>
    have hkey : toAsciiLowercase "parentFileNameHint".toList = "parentfilenamehint".toList := by
      decide
    refine (Item.Written.parentFileNameHint (fieldText_print hkey (Or.inl rfl))).onLine ?_
    simp [hp.2]
  | extent e =>
    exact (Item.Written.extent (e.print_extentText (hk e rfl))).onLine
      (e.not_mem_print hp (hk e rfl))

/-- Printed items are the lines of the text, and an empty line behind the last line feed. -/
theorem Item.lines_print {items : List Item}
    (h : ∀ item ∈ items, item.OnLine item.print) :
    Item.Lines (items ++ [.nothing]) (items.flatMap fun item => item.print ++ ['\n']) := by
  induction items with
  | nil =>
    exact Item.Lines.last (Item.Written.blank.onLine List.not_mem_nil) 0
  | cons item rest ih =>
    have hrest := ih fun item' hmem => h item' (List.mem_cons_of_mem _ hmem)
    have hline := Item.Lines.line (h item List.mem_cons_self) .lf hrest
    rw [List.flatMap_cons, List.append_assoc]
    exact hline

/-- The printed items are those of the descriptor. -/
theorem Descriptor.items_spec (d : Descriptor) : d.Items (d.items ++ [.nothing]) where
  createType := Or.inl (by
    simp [Descriptor.items, List.filterMap_append, List.filterMap_map, Function.comp_def,
      Item.createType?, List.filterMap_cons])
  parentCid := by
    simp [Descriptor.items, List.filterMap_append, List.filterMap_map, Function.comp_def,
      Item.parentCid?, List.filterMap_cons]
  parentFileNameHint := by
    simp [Descriptor.items, List.filterMap_append, List.filterMap_map, Function.comp_def,
      Item.parentFileNameHint?, List.filterMap_cons]
  extents := by
    simp [Descriptor.items, List.filterMap_append, List.filterMap_map, Function.comp_def,
      Item.extent?, List.filterMap_cons]

/-- A descriptor that can be printed has its print as a rendering. -/
theorem Descriptor.print_renders {d : Descriptor} (hp : d.Printable)
    (hk : ∀ e ∈ d.extents, e.Keywords) : d.Renders d.print := by
  refine ⟨d.items ++ [.nothing], Item.lines_print fun item hmem => ?_, d.items_spec⟩
  have hitems := d.items_spec
  have hprintable := hitems.printable hp item (List.mem_append_left _ hmem)
  refine Item.print_onLine hprintable fun e heq => hk e ?_
  have hextent : e ∈ (d.items ++ [Item.nothing]).filterMap Item.extent? :=
    List.mem_filterMap.mpr ⟨item, List.mem_append_left _ hmem, by rw [heq]; rfl⟩
  rwa [hitems.extents] at hextent

/-! ## Reading back -/

/-- Every rendering of a descriptor is read back as it, with the types of its extents in upper case;
it has a parent exactly if its hint is not blank or it names another identifier than the one for
no parent. -/
theorem parseDescriptor_renders {d : Descriptor} {text : List Char} (hp : d.Printable)
    (h : d.Renders text) :
    parseDescriptor text = d.upperKinds ∧
      ((parseDescriptor text).hasParent = true ↔
        (∃ hint ∈ d.parentFileNameHint, ∃ c ∈ hint, Text.isWhitespace c = false) ∨
          ∃ cid ∈ d.parentCid, cid ≠ 0xFFFFFFFF) := by
  obtain ⟨items, hlines, hitems⟩ := h
  have hparse : parseDescriptor text = d.upperKinds := by
    unfold parseDescriptor
    rw [hlines.foldl_parseLine (hitems.printable hp), hitems.foldl_apply_eq]
  refine ⟨hparse, ?_⟩
  have hname : d.upperKinds.parentName.isSome = true ↔
      ∃ hint ∈ d.parentFileNameHint, ∃ c ∈ hint, Text.isWhitespace c = false := by
    simp [Descriptor.parentName, Descriptor.upperKinds, Option.isSome_filter, Option.any_eq_true,
      trim_ne_nil_iff]
  have hcid : d.upperKinds.parentCid.any (· ≠ 0xFFFFFFFF) = true ↔
      ∃ cid ∈ d.parentCid, cid ≠ 0xFFFFFFFF := by
    simp [Descriptor.upperKinds, Option.any_eq_true]
  rw [hparse, Descriptor.hasParent, Bool.or_eq_true, hname, hcid]

/-- A descriptor with a parent and two extents. -/
def sampleDescriptor : Descriptor where
  createType := "custom".toList
  parentCid := some 0xFFFFFFFF
  parentFileNameHint := some "base disk.vmdk".toList
  extents := [⟨"RW".toList, 4194304, "flat".toList, some "a=1 b.vmdk".toList, 63⟩,
    ⟨"RDONLY".toList, 100, "ZERO".toList, none, 0⟩]

/-- A rendering of it, with a comment and an entry that is not kept. -/
def sampleRendering : List Char :=
  "# Extents".toList ++ (LineEnd.crlf.chars ++
  ("version=1".toList ++ (LineEnd.lf.chars ++
  ("RW 4194304 flat \"a=1 b.vmdk\" 63".toList ++ (LineEnd.lf.chars ++
  ("PARENTCID = FFFFFFFF".toList ++ (LineEnd.crlf.chars ++
  ("\trdonly 0100\tZero ".toList ++ (LineEnd.lf.chars ++
  ("parentFileNameHint=\"base disk.vmdk\"".toList ++ (LineEnd.lf.chars ++
  ("createType=\"custom\"".toList ++ List.replicate 3 '\x00'))))))))))))

/-- A blank is a separator. -/
theorem separator_singleton {c : Char} (h : c = ' ' ∨ c = '\t') : Separator [c] :=
  ⟨List.cons_ne_nil _ _, fun _ hc => (List.mem_singleton.mp hc) ▸ h⟩

/-- The access and the types of its extents are words. -/
theorem sampleDescriptor_keywords : ∀ e ∈ sampleDescriptor.extents, e.Keywords := by
  intro e he
  rcases List.mem_cons.mp he with rfl | he
  · exact ⟨by decide, Word.of_all (by decide) (by decide), by decide⟩
  · obtain rfl := List.mem_singleton.mp he
    exact ⟨by decide, Word.of_all (by decide) (by decide), by decide⟩

/-- The items on the lines of the rendering. -/
theorem sampleDescriptor_lines : Item.Lines
    [.nothing, .nothing, .extent sampleDescriptor.extents[0], .parentCid 0xFFFFFFFF,
      .extent sampleDescriptor.extents[1], .parentFileNameHint "base disk.vmdk".toList,
      .createType "custom".toList] sampleRendering := by
  have hnone : Padding [] := fun c hc => absurd hc List.not_mem_nil
  have hspace : Separator [' '] := separator_singleton (Or.inl rfl)
  have htab : Separator ['\t'] := separator_singleton (Or.inr rfl)
  have hcomment : Item.OnLine .nothing "# Extents".toList :=
    (Item.Written.comment " Extents".toList).onLine (by decide)
  have hversion : Item.OnLine .nothing "version=1".toList := by
    have htrimmed : Trimmed isPad ("version".toList ++ '=' :: "1".toList) :=
      Trimmed.of_all (by decide)
    exact (Item.Written.unknown (by decide) (by decide) htrimmed (by decide)).onLine (by decide)
  have hflat : Item.OnLine (.extent sampleDescriptor.extents[0])
      "RW 4194304 flat \"a=1 b.vmdk\" 63".toList :=
    Item.Written.onLine (.extent (ExtentDescriptor.print_extentText
      (sampleDescriptor_keywords _ (by decide)))) (by decide)
  have hcid : Item.OnLine (.parentCid 0xFFFFFFFF) "PARENTCID = FFFFFFFF".toList := by
    have hkey : toAsciiLowercase "PARENTCID".toList = "parentcid".toList := by decide
    have hdigits : NumberText 16 0xFFFFFFFF "FFFFFFFF".toList := ⟨0, by decide⟩
    have hvalue : ValueText "FFFFFFFF".toList "FFFFFFFF".toList :=
      Or.inr ⟨rfl, by decide, Trimmed.of_all (by decide)⟩
    exact (Item.Written.parentCid hdigits
      (FieldText.intro hkey hspace.2 hspace.2 hvalue)).onLine (by decide)
  have hzero : Item.OnLine (.extent sampleDescriptor.extents[1]) "\trdonly 0100\tZero ".toList := by
    have hsectors : NumberText 10 100 "0100".toList := ⟨1, by decide⟩
    have hwritten : ExtentText sampleDescriptor.extents[1]
        ("rdonly".toList ++ ([' '] ++ ("0100".toList ++ (['\t'] ++ ("Zero".toList ++ []))))) :=
      .intro (by decide) (by decide) hspace hsectors htab (Word.of_all (by decide) (by decide))
        (by decide) (.absent rfl)
    exact Item.OnLine.intro htab.2.padding (.extent hwritten) hspace.2.padding (by decide)
  have hhint : Item.OnLine (.parentFileNameHint "base disk.vmdk".toList)
      "parentFileNameHint=\"base disk.vmdk\"".toList :=
    Item.print_onLine ⟨by decide, by decide⟩ fun _ heq => nomatch heq
  have htype : Item.OnLine (.createType "custom".toList) "createType=\"custom\"".toList :=
    Item.print_onLine ⟨by decide, by decide⟩ fun _ heq => nomatch heq
  exact .line hcomment .crlf (.line hversion .lf (.line hflat .lf (.line hcid .crlf
    (.line hzero .lf (.line hhint .lf (.last htype 3))))))

/-- The descriptor can be printed. -/
theorem sampleDescriptor_printable : sampleDescriptor.Printable where
  createType := ⟨by decide, by decide⟩
  parentCid := by decide
  parentFileNameHint := by
    rintro hint ⟨⟩
    exact ⟨by decide, by decide⟩
  extents := by
    intro e he
    rcases List.mem_cons.mp he with rfl | he
    · refine ⟨by decide, by decide, by decide, ?_, fun hfile => nomatch hfile⟩
      rintro file ⟨⟩
      exact ⟨by decide, by decide⟩
    · obtain rfl := List.mem_singleton.mp he
      refine ⟨by decide, by decide, by decide, ?_, fun _ => rfl⟩
      rintro file ⟨⟩

/-- The rendering is read back, and the descriptor has a parent by its hint. So is what is printed. -/
theorem sampleRendering_read : sampleDescriptor.Renders sampleRendering ∧
    parseDescriptor sampleRendering = sampleDescriptor.upperKinds ∧
    (parseDescriptor sampleRendering).hasParent = true ∧
    parseDescriptor sampleDescriptor.print = sampleDescriptor.upperKinds := by
  have hrenders : sampleDescriptor.Renders sampleRendering :=
    ⟨_, sampleDescriptor_lines, ⟨Or.inl rfl, rfl, rfl, rfl⟩⟩
  obtain ⟨hread, hparent⟩ := parseDescriptor_renders sampleDescriptor_printable hrenders
  have hprint := parseDescriptor_renders sampleDescriptor_printable
    (Descriptor.print_renders sampleDescriptor_printable sampleDescriptor_keywords)
  refine ⟨hrenders, hread, hparent.mpr (Or.inl ⟨_, rfl, 'b', ?_, ?_⟩), hprint.1⟩
  · decide
  · decide

end VmSpect.Vmdk
