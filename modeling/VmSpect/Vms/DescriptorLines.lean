import VmSpect.Lib.Printing
import VmSpect.Vms.Vmdk

/-!
# The lines of a printed descriptor

What `parse_descriptor` reads from one line of a descriptor that was printed. A line stands for an
item: a field, an extent, or nothing the parser keeps. `Item.OnLine` says how an item is written,
with letters in any case and blanks in any number, and `Item.OnLine.parseLine_eq` that the line
changes the descriptor as its item does.
-/

namespace VmSpect.Vmdk

open Text

/-! ## Characters -/

/-- The characters that `parse_descriptor` trims from a line. -/
def isPad (c : Char) : Bool := c = '\x00' ∨ c = ' ' ∨ c = '\t' ∨ c = '\r'

/-- Text that is trimmed from a line. -/
def Padding (text : List Char) : Prop := ∀ c ∈ text, isPad c = true

/-- Spaces and tabs. -/
def Blanks (text : List Char) : Prop := ∀ c ∈ text, c = ' ' ∨ c = '\t'

/-- A word: no character of it is trimmed, separates tokens or opens a quote. -/
def Word (text : List Char) : Prop := text ≠ [] ∧ ∀ c ∈ text, isPad c = false ∧ c ≠ '"'

/-- Blanks are trimmed from a line. -/
theorem Blanks.padding {text : List Char} (h : Blanks text) : Padding text := by
  intro c hc
  rcases h c hc with rfl | rfl <;> rfl

/-- Blanks are white space. -/
theorem Blanks.isWhitespace {text : List Char} (h : Blanks text) :
    ∀ c ∈ text, isWhitespace c = true := by
  intro c hc
  rcases h c hc with rfl | rfl <;> rfl

/-- What is trimmed from a line is white space or NUL. -/
theorem isPad_of_not_isWhitespace {c : Char} (h : Text.isWhitespace c = false) (hnul : c ≠ '\x00') :
    isPad c = false := by
  unfold isPad
  refine decide_eq_false ?_
  rintro (rfl | rfl | rfl | rfl)
  · exact hnul rfl
  all_goals exact absurd h (by decide)

/-- A letter or a digit separates nothing. -/
theorem plain_of_bounds {c : Char} (h : 0x30 ≤ c.toNat ∧ c.toNat ≤ 0x39 ∨ IsLetter c) :
    Text.isWhitespace c = false ∧ c ≠ '\x00' ∧ c ≠ '"' ∧ c ≠ '=' := by
  have hbounds : 0x30 ≤ c.toNat ∧ c.toNat ≤ 0x39 ∨ 65 ≤ c.toNat ∧ c.toNat ≤ 122 := by
    unfold IsLetter at h
    omega
  have hne : ∀ d : Char, ¬ (0x30 ≤ d.toNat ∧ d.toNat ≤ 0x39 ∨ 65 ≤ d.toNat ∧ d.toNat ≤ 122) →
      c ≠ d := fun d hd heq => hd (heq ▸ hbounds)
  refine ⟨?_, hne _ (by decide), hne _ (by decide), hne _ (by decide)⟩
  unfold Text.isWhitespace
  simp only [Bool.or_eq_false_iff, Bool.and_eq_false_iff, decide_eq_false_iff_not]
  omega

/-- Letters and digits make a word. -/
theorem Word.of_bounds {text : List Char} (hne : text ≠ [])
    (h : ∀ c ∈ text, 0x30 ≤ c.toNat ∧ c.toNat ≤ 0x39 ∨ IsLetter c) : Word text := by
  refine ⟨hne, fun c hc => ?_⟩
  obtain ⟨hspace, hnul, hquote, -⟩ := plain_of_bounds (h c hc)
  exact ⟨isPad_of_not_isWhitespace hspace hnul, hquote⟩

/-- A text can be checked to be a word. -/
theorem Word.of_all {text : List Char} (hne : text ≠ [])
    (h : text.all (fun c => !isPad c && c != '"') = true) : Word text := by
  refine ⟨hne, fun c hc => ?_⟩
  simpa using List.all_eq_true.mp h c hc

/-- The text of a number is a word. -/
theorem Word.of_numberText {n : ℕ} {text : List Char} (h : NumberText 10 n text) : Word text :=
  Word.of_bounds h.ne_nil (h.bounds (by norm_num) (by norm_num))

/-- A word ends at neither side with a character that is trimmed. -/
theorem Word.trimmed {text : List Char} (h : Word text) : Trimmed isPad text :=
  Trimmed.of_forall fun c hc => (h.2 c hc).1

/-! ## Tokens -/

/-- The characters of a word are added to the current token. -/
theorem foldl_next_word {text : List Char} (h : ∀ c ∈ text, isPad c = false ∧ c ≠ '"')
    (tokens : List (List Char)) (current : List Char) :
    text.foldl Tokens.next ⟨tokens, current, false⟩ = ⟨tokens, current ++ text, false⟩ := by
  induction text generalizing current with
  | nil => rw [List.append_nil, List.foldl_nil]
  | cons c rest ih =>
    obtain ⟨hpad, hquote⟩ := h c List.mem_cons_self
    have hblank : ¬ (c = ' ' ∨ c = '\t') := by
      rintro (rfl | rfl) <;> exact absurd hpad (by decide)
    have hnext : Tokens.next ⟨tokens, current, false⟩ c = ⟨tokens, current ++ [c], false⟩ := by
      simp [Tokens.next, hquote, hblank]
    rw [List.foldl_cons, hnext, ih fun c' hc' => h c' (List.mem_cons_of_mem _ hc'),
      List.append_assoc, List.singleton_append]

/-- Between quotes, every character is added to the current token. -/
theorem foldl_next_inQuotes {text : List Char} (h : '"' ∉ text) (tokens : List (List Char))
    (current : List Char) :
    text.foldl Tokens.next ⟨tokens, current, true⟩ = ⟨tokens, current ++ text, true⟩ := by
  induction text generalizing current with
  | nil => rw [List.append_nil, List.foldl_nil]
  | cons c rest ih =>
    have hquote : c ≠ '"' := fun heq => h (heq ▸ List.mem_cons_self)
    have hnext : Tokens.next ⟨tokens, current, true⟩ c = ⟨tokens, current ++ [c], true⟩ := by
      simp [Tokens.next, hquote]
    rw [List.foldl_cons, hnext, ih fun hc => h (List.mem_cons_of_mem _ hc),
      List.append_assoc, List.singleton_append]

/-- How a token is written: as a word, or between quotes. -/
def TokenText (token text : List Char) : Prop :=
  token ≠ [] ∧ (text = token ∧ Word token ∨ text = '"' :: (token ++ ['"']) ∧ '"' ∉ token)

/-- A written token becomes the current one. -/
theorem TokenText.foldl_next {token text : List Char} (h : TokenText token text)
    (tokens : List (List Char)) :
    text.foldl Tokens.next ⟨tokens, [], false⟩ = ⟨tokens, token, false⟩ := by
  obtain ⟨-, ⟨rfl, hword⟩ | ⟨rfl, hquote⟩⟩ := h
  · rw [foldl_next_word hword.2, List.nil_append]
  · have hopen : Tokens.next ⟨tokens, [], false⟩ '"' = ⟨tokens, [], true⟩ := rfl
    have hclose : Tokens.next ⟨tokens, token, true⟩ '"' = ⟨tokens, token, false⟩ := rfl
    rw [List.foldl_cons, hopen, List.foldl_append, foldl_next_inQuotes hquote, List.nil_append,
      List.foldl_cons, hclose, List.foldl_nil]

/-- Blanks between tokens are passed over. -/
theorem foldl_next_blanks {text : List Char} (h : Blanks text) (tokens : List (List Char)) :
    text.foldl Tokens.next ⟨tokens, [], false⟩ = ⟨tokens, [], false⟩ := by
  induction text with
  | nil => rfl
  | cons c rest ih =>
    have hnext : Tokens.next ⟨tokens, [], false⟩ c = ⟨tokens, [], false⟩ := by
      rcases h c List.mem_cons_self with rfl | rfl <;> rfl
    rw [List.foldl_cons, hnext, ih fun c' hc' => h c' (List.mem_cons_of_mem _ hc')]

/-- Blanks finish the current token. -/
theorem foldl_next_separator {text : List Char} (hne : text ≠ []) (h : Blanks text)
    (tokens : List (List Char)) {current : List Char} (hcurrent : current ≠ []) :
    text.foldl Tokens.next ⟨tokens, current, false⟩ = ⟨tokens ++ [current], [], false⟩ := by
  obtain ⟨c, rest, rfl⟩ := List.exists_cons_of_ne_nil hne
  have hnext : Tokens.next ⟨tokens, current, false⟩ c = ⟨tokens ++ [current], [], false⟩ := by
    rcases h c List.mem_cons_self with rfl | rfl <;> simp [Tokens.next, Tokens.push, hcurrent]
  rw [List.foldl_cons, hnext, foldl_next_blanks fun c' hc' => h c' (List.mem_cons_of_mem _ hc')]

/-- What a character does: it opens or closes a quote, finishes the token, or extends it. -/
theorem next_cases (current : List Char) (inQuotes : Bool) (c : Char) :
    (∀ tokens, Tokens.next ⟨tokens, current, inQuotes⟩ c = ⟨tokens, current, !inQuotes⟩) ∨
    (∀ tokens, Tokens.next ⟨tokens, current, inQuotes⟩ c =
      ⟨Tokens.push ⟨tokens, current, inQuotes⟩, [], inQuotes⟩) ∨
    ∀ tokens, Tokens.next ⟨tokens, current, inQuotes⟩ c = ⟨tokens, current ++ [c], inQuotes⟩ := by
  by_cases hquote : c = '"'
  · exact Or.inl fun _ => if_pos hquote
  · by_cases hblank : (c = ' ' ∨ c = '\t') ∧ inQuotes = false
    · exact Or.inr (Or.inl fun _ => (if_neg hquote).trans (if_pos hblank))
    · exact Or.inr (Or.inr fun _ => (if_neg hquote).trans (if_neg hblank))

/-- A finished token stands behind those finished before. -/
theorem push_eq (tokens : List (List Char)) (current : List Char) (inQuotes : Bool) :
    Tokens.push ⟨tokens, current, inQuotes⟩ = tokens ++ Tokens.push ⟨[], current, inQuotes⟩ := by
  unfold Tokens.push
  dsimp only
  by_cases hnil : current = []
  · rw [if_pos hnil, if_pos hnil, List.append_nil]
  · rw [if_neg hnil, if_neg hnil, List.nil_append]

/-- The tokens that are finished stay in front of those to come. -/
theorem push_foldl_next (text : List Char) (tokens : List (List Char)) (current : List Char)
    (inQuotes : Bool) :
    (text.foldl Tokens.next ⟨tokens, current, inQuotes⟩).push =
      tokens ++ (text.foldl Tokens.next ⟨[], current, inQuotes⟩).push := by
  induction text generalizing tokens current inQuotes with
  | nil => exact push_eq tokens current inQuotes
  | cons c rest ih =>
    rw [List.foldl_cons, List.foldl_cons]
    obtain hnext | hnext | hnext := next_cases current inQuotes c
    · rw [hnext, hnext, ih tokens]
    · rw [hnext, hnext, push_eq tokens, ih, ih (Tokens.push ⟨[], current, inQuotes⟩),
        List.append_assoc]
    · rw [hnext, hnext, ih tokens]

/-- The first token of a text that starts with one. -/
theorem tokenize_token {token text separator : List Char} (h : TokenText token text)
    (hne : separator ≠ []) (hblanks : Blanks separator) (rest : List Char) :
    tokenize (text ++ (separator ++ rest)) = token :: tokenize rest := by
  unfold tokenize
  rw [List.foldl_append, h.foldl_next, List.foldl_append,
    foldl_next_separator hne hblanks [] h.1, push_foldl_next]
  rfl

/-- The last token. -/
theorem tokenize_last {token text : List Char} (h : TokenText token text) :
    tokenize text = [token] := by
  unfold tokenize
  rw [h.foldl_next]
  exact if_neg h.1

/-- A token that was begun is the start of the first one. -/
theorem push_foldl_next_current (text : List Char) {current : List Char} (hcurrent : current ≠ [])
    (inQuotes : Bool) :
    ∃ more tokens, (text.foldl Tokens.next ⟨[], current, inQuotes⟩).push =
      (current ++ more) :: tokens := by
  induction text generalizing current inQuotes with
  | nil =>
    refine ⟨[], [], ?_⟩
    rw [List.append_nil]
    exact if_neg hcurrent
  | cons c rest ih =>
    rw [List.foldl_cons]
    obtain hnext | hnext | hnext := next_cases current inQuotes c
    · rw [hnext]
      exact ih hcurrent _
    · have hpush : Tokens.push ⟨[], current, inQuotes⟩ = [current] := if_neg hcurrent
      rw [hnext, hpush, push_foldl_next]
      exact ⟨[], _, by rw [List.append_nil]; rfl⟩
    · obtain ⟨more, tokens, heq⟩ := ih (List.append_ne_nil_of_right_ne_nil current
        (List.cons_ne_nil c [])) inQuotes
      exact ⟨c :: more, tokens, by rw [hnext, heq, List.append_assoc, List.singleton_append]⟩

/-- A line that starts with a word has it at the start of its first token. -/
theorem tokenize_word {text : List Char} (h : Word text) (rest : List Char) :
    ∃ more tokens, tokenize (text ++ rest) = (text ++ more) :: tokens := by
  unfold tokenize
  rw [List.foldl_append, foldl_next_word h.2, List.nil_append]
  exact push_foldl_next_current rest h.1 false

/-! ## Lines -/

/-- Blanks that separate two tokens. -/
def Separator (text : List Char) : Prop := text ≠ [] ∧ Blanks text

/-- How the value of a field is written: between quotes, or bare when nothing is trimmed from it. -/
def ValueText (value text : List Char) : Prop :=
  text = '"' :: (value ++ ['"']) ∨
    text = value ∧ value ≠ [] ∧ Trimmed (fun c => isWhitespace c || c = '\x00' || c = '"') value

/-- How a field is written: its key in any case, and its value. -/
inductive FieldText (key value : List Char) : List Char → Prop
  | intro {spelled before after text : List Char} (hkey : toAsciiLowercase spelled = key)
      (hbefore : Blanks before) (hafter : Blanks after) (htext : ValueText value text) :
      FieldText key value (spelled ++ (before ++ '=' :: (after ++ text)))

/-- How the file of an extent is written: not at all, alone when its offset is zero, or with its
offset. -/
inductive FileText (e : ExtentDescriptor) : List Char → Prop
  | absent (hfile : e.file = none) : FileText e []
  | alone {file separator : List Char} (hfile : e.file = some file) (hoffset : e.offsetSectors = 0)
      (hsep : Separator separator) : FileText e (separator ++ '"' :: (file ++ ['"']))
  | withOffset {file separator separator' offset : List Char} (hfile : e.file = some file)
      (hsep : Separator separator) (hsep' : Separator separator')
      (hoffset : NumberText 10 e.offsetSectors offset) :
      FileText e (separator ++ ('"' :: (file ++ ['"']) ++ (separator' ++ offset)))

/-- How an extent is written: its access and its type in any case. -/
inductive ExtentText (e : ExtentDescriptor) : List Char → Prop
  | intro {access sectors kind separator separator' file : List Char}
      (haccess : toAsciiUppercase access = e.access) (hmem : e.access ∈ accessWords)
      (hsep : Separator separator) (hsectors : NumberText 10 e.sectors sectors)
      (hsep' : Separator separator') (hword : Word kind)
      (hkind : toAsciiUppercase kind = toAsciiUppercase e.kind) (hfile : FileText e file) :
      ExtentText e (access ++ (separator ++ (sectors ++ (separator' ++ (kind ++ file)))))

/-- The keys that `parse_descriptor` keeps. -/
def fieldKeys : List (List Char) :=
  ["createtype".toList, "parentcid".toList, "parentfilenamehint".toList]

/-- What a line of a descriptor stands for. -/
inductive Item where
  | nothing
  | createType (value : List Char)
  | parentCid (cid : ℕ)
  | parentFileNameHint (value : List Char)
  | extent (e : ExtentDescriptor)

/-- How an item is written, the blanks around it apart: nothing as an empty line, a comment or an
entry with another key. -/
inductive Item.Written : Item → List Char → Prop
  | blank : Written nothing []
  | comment (rest : List Char) : Written nothing ('#' :: rest)
  | unknown {key value : List Char} (hkey : '=' ∉ key)
      (hother : toAsciiLowercase (trim key) ∉ fieldKeys)
      (htrimmed : Trimmed isPad (key ++ '=' :: value))
      (htoken : ∀ token ∈ (tokenize (key ++ '=' :: value)).head?,
        toAsciiUppercase token ∉ accessWords) : Written nothing (key ++ '=' :: value)
  | createType {value core : List Char} (h : FieldText "createtype".toList value core) :
      Written (createType value) core
  | parentCid {cid : ℕ} {digits core : List Char} (hdigits : NumberText 16 cid digits)
      (h : FieldText "parentcid".toList digits core) : Written (parentCid cid) core
  | parentFileNameHint {value core : List Char}
      (h : FieldText "parentfilenamehint".toList value core) :
      Written (parentFileNameHint value) core
  | extent {e : ExtentDescriptor} {core : List Char} (h : ExtentText e core) :
      Written (extent e) core

/-- A line with an item on it, between blanks or other characters that are trimmed. -/
inductive Item.OnLine (item : Item) : List Char → Prop
  | intro {before core after : List Char} (hbefore : Padding before) (hcore : item.Written core)
      (hafter : Padding after) (hline : '\n' ∉ before ++ core ++ after) :
      OnLine item (before ++ core ++ after)

/-- An extent whose type is in upper case. -/
def ExtentDescriptor.upper (e : ExtentDescriptor) : ExtentDescriptor :=
  { e with kind := toAsciiUppercase e.kind }

/-- What an item changes. -/
def Item.apply (d : Descriptor) : Item → Descriptor
  | nothing => d
  | createType value => { d with createType := value }
  | parentCid cid => { d with parentCid := some cid }
  | parentFileNameHint value => { d with parentFileNameHint := some value }
  | extent e => { d with extents := d.extents ++ [e.upper] }

/-- A text that can stand between quotes on a line. -/
def Quotable (text : List Char) : Prop := '"' ∉ text ∧ '\n' ∉ text

/-- An extent that can be printed: its numbers fit their types, its file has a name that can be
quoted, and it has an offset only with a file. -/
structure ExtentDescriptor.Printable (e : ExtentDescriptor) : Prop where
  sectors_lt : e.sectors < 2^64
  offsetSectors_lt : e.offsetSectors < 2^64
  file_ne_nil : ∀ file ∈ e.file, file ≠ []
  file_quotable : ∀ file ∈ e.file, Quotable file
  offset_of_absent : e.file = none → e.offsetSectors = 0

/-- An item of a descriptor that can be printed. -/
def Item.Printable : Item → Prop
  | nothing => True
  | createType value => Quotable value
  | parentCid cid => cid < 2^32
  | parentFileNameHint value => Quotable value
  | extent e => e.Printable

/-! ## Reading a line -/

/-- What is trimmed from a line around its text does not change how it is read. -/
theorem parseLine_padded (d : Descriptor) {before after : List Char} (hbefore : Padding before)
    (hafter : Padding after) (core : List Char) :
    parseLine d (before ++ core ++ after) = parseLine d core := by
  have htrim : trimMatches isPad (before ++ core ++ after) = trimMatches isPad core := by
    rw [trimMatches_append hafter, trimMatches_prepend hbefore]
  have hpad : (fun c : Char => decide (c = '\x00' ∨ c = ' ' ∨ c = '\t' ∨ c = '\r')) = isPad := rfl
  unfold parseLine
  rw [hpad, htrim]

/-- An empty line changes nothing. -/
theorem parseLine_nil (d : Descriptor) : parseLine d [] = d := rfl

/-- A comment changes nothing. -/
theorem parseLine_comment (d : Descriptor) (rest : List Char) : parseLine d ('#' :: rest) = d := by
  obtain ⟨more, hmore⟩ := trimMatches_cons
    (p := fun c : Char => decide (c = '\x00' ∨ c = ' ' ∨ c = '\t' ∨ c = '\r'))
    (c := '#') (by decide) rest
  unfold parseLine
  rw [hmore]
  exact if_pos (Or.inr rfl)

/-- How a trimmed line is read that does not start with an access word. -/
theorem parseLine_entry (d : Descriptor) {core : List Char} (htrimmed : Trimmed isPad core)
    (htoken : ∀ token ∈ (tokenize core).head?, toAsciiUppercase token ∉ accessWords) :
    parseLine d core =
      if core = [] ∨ core.head? = some '#' ∨ tokenize core = [] then d else parseEntry d core := by
  have hcore := htrimmed.trimMatches_eq
  have hpad : (fun c : Char => decide (c = '\x00' ∨ c = ' ' ∨ c = '\t' ∨ c = '\r')) = isPad := rfl
  unfold parseLine
  rw [hpad, hcore]
  by_cases hskip : core = [] ∨ core.head? = some '#'
  · rw [if_pos hskip, if_pos (hskip.imp_right Or.inl)]
  · rw [if_neg hskip]
    cases htokens : tokenize core with
    | nil => rw [if_pos rfl, if_pos (Or.inr (Or.inr rfl))]
    | cons token tokens =>
      have haccess : toAsciiUppercase token ∉ accessWords := htoken token (by rw [htokens]; rfl)
      have hne : ¬ (core = [] ∨ core.head? = some '#' ∨ token :: tokens = []) := by
        rw [← or_assoc]
        exact not_or.mpr ⟨hskip, List.cons_ne_nil _ _⟩
      rw [if_neg (List.cons_ne_nil _ _), if_neg (fun h => haccess h.1), if_neg hne]

/-- How a trimmed line is read that starts with an access word and has two more tokens. -/
theorem parseLine_extent (d : Descriptor) {core access sectors kind : List Char}
    {tokens : List (List Char)} (htrimmed : Trimmed isPad core)
    (hhead : ¬ (core = [] ∨ core.head? = some '#'))
    (htokens : tokenize core = access :: sectors :: kind :: tokens)
    (haccess : toAsciiUppercase access ∈ accessWords) :
    parseLine d core =
      { d with extents := d.extents ++ [parseExtent (access :: sectors :: kind :: tokens)] } := by
  have hcore := htrimmed.trimMatches_eq
  have hpad : (fun c : Char => decide (c = '\x00' ∨ c = ' ' ∨ c = '\t' ∨ c = '\r')) = isPad := rfl
  have hlength : 3 ≤ (access :: sectors :: kind :: tokens).length := by
    simp only [List.length_cons]
    omega
  unfold parseLine
  rw [hpad, hcore]
  dsimp only
  rw [if_neg hhead, htokens, if_neg (List.cons_ne_nil _ _), if_pos ⟨haccess, hlength⟩]

/-- An entry with another key changes nothing. -/
theorem parseEntry_other (d : Descriptor) {key : List Char} (hkey : '=' ∉ key)
    (hother : toAsciiLowercase (trim key) ∉ fieldKeys) (value : List Char) :
    parseEntry d (key ++ '=' :: value) = d := by
  have hne : ∀ field ∈ fieldKeys, toAsciiLowercase (trim key) ≠ field :=
    fun field hmem heq => hother (heq ▸ hmem)
  unfold parseEntry
  rw [splitOnce_append hkey]
  dsimp only
  rw [if_neg (hne _ (by decide)), if_neg (hne _ (by decide)), if_neg (hne _ (by decide))]

/-- The keys of the fields are long and made of letters. -/
theorem fieldKeys_letters : ∀ key ∈ fieldKeys, 9 ≤ key.length ∧ ∀ c ∈ key, IsLetter c := by
  have hall : fieldKeys.all (fun key => decide (9 ≤ key.length) &&
      key.all fun c => decide (IsLetter c)) = true := by decide
  intro key hkey
  have hletters := List.all_eq_true.mp hall key hkey
  rw [Bool.and_eq_true, decide_eq_true_eq, List.all_eq_true] at hletters
  exact ⟨hletters.1, fun c hc => of_decide_eq_true (hletters.2 c hc)⟩

/-- The access words are shorter, and made of letters. -/
theorem accessWords_letters : ∀ word ∈ accessWords, word.length < 9 ∧ word ≠ [] ∧
    ∀ c ∈ word, IsLetter c := by
  have hall : accessWords.all (fun word => decide (word.length < 9) && !word.isEmpty &&
      word.all fun c => decide (IsLetter c)) = true := by decide
  intro word hword
  have hletters := List.all_eq_true.mp hall word hword
  rw [Bool.and_eq_true, Bool.and_eq_true, decide_eq_true_eq, List.all_eq_true] at hletters
  obtain ⟨⟨hlength, hne⟩, hletters⟩ := hletters
  refine ⟨hlength, fun hnil => ?_, fun c hc => of_decide_eq_true (hletters c hc)⟩
  rw [hnil] at hne
  exact absurd hne (by decide)

/-- A written value is what is left of it without white space and quotes. -/
theorem ValueText.spec {value text : List Char} (h : ValueText value text) (hquote : '"' ∉ value) :
    text ≠ [] ∧ Trimmed Text.isWhitespace text ∧ (∀ c ∈ text.getLast?, isPad c = false) ∧
      trimMatches (fun c => decide (c = '"')) text = value := by
  rcases h with rfl | ⟨rfl, hne, htrimmed⟩
  · have hlast : ('"' :: (value ++ ['"'])).getLast? = some '"' := by
      rw [← List.cons_append, List.getLast?_append_of_ne_nil _ (List.cons_ne_nil _ _)]
      rfl
    have hinner : Trimmed (fun c => decide (c = '"')) value :=
      Trimmed.of_forall fun c hc => decide_eq_false fun heq => hquote (heq ▸ hc)
    refine ⟨List.cons_ne_nil _ _, ⟨?_, ?_⟩, ?_, ?_⟩
    · rintro c ⟨⟩
      rfl
    · rw [hlast]
      rintro c ⟨⟩
      rfl
    · rw [hlast]
      rintro c ⟨⟩
      rfl
    · have hquotes : ∀ c ∈ ['"'], decide (c = '"') = true :=
        fun c hc => decide_eq_true (List.mem_singleton.mp hc)
      exact hinner.trimMatches_padded hquotes hquotes
  · have hends : ∀ c, (Text.isWhitespace c || decide (c = '\x00') || decide (c = '"')) = false →
        Text.isWhitespace c = false ∧ c ≠ '\x00' ∧ c ≠ '"' := by
      intro c hc
      simpa [and_assoc] using hc
    refine ⟨hne, ⟨?_, ?_⟩, ?_, ?_⟩
    · exact fun c hc => (hends c (htrimmed.1 c hc)).1
    · exact fun c hc => (hends c (htrimmed.2 c hc)).1
    · intro c hc
      obtain ⟨hspace, hnul, -⟩ := hends c (htrimmed.2 c hc)
      exact isPad_of_not_isWhitespace hspace hnul
    · have hbare : Trimmed (fun c => decide (c = '"')) text :=
        Trimmed.of_forall fun c hc => decide_eq_false fun heq => hquote (heq ▸ hc)
      exact hbare.trimMatches_eq

section Field

variable {key value core : List Char}

/-- The characters of a written key are letters. -/
theorem letters_of_spelled {spelled : List Char} (hkey : toAsciiLowercase spelled ∈ fieldKeys) :
    9 ≤ spelled.length ∧ ∀ c ∈ spelled, IsLetter c := by
  obtain ⟨hlength, hletters⟩ := fieldKeys_letters _ hkey
  refine ⟨?_, IsLetter.of_toAsciiLowercase hletters⟩
  rwa [toAsciiLowercase, List.length_map] at hlength

/-- The key and the value of a written field are found. -/
theorem FieldText.parseEntry_eq (d : Descriptor) (h : FieldText key value core)
    (hkey : key ∈ fieldKeys) (hquote : '"' ∉ value) :
    parseEntry d core =
      if key = "createtype".toList then { d with createType := value }
      else if key = "parentcid".toList then { d with parentCid := parseUnsigned 16 (2^32) value }
      else if key = "parentfilenamehint".toList then { d with parentFileNameHint := some value }
      else d := by
  obtain @⟨spelled, before, after, text, hspelled, hbefore, hafter, htext⟩ := h
  obtain ⟨-, hspace, -, hvalue⟩ := htext.spec hquote
  obtain ⟨-, hletters⟩ := letters_of_spelled (hspelled ▸ hkey)
  -- The first `=` is the one behind the key, which has letters only.
  have hsep : '=' ∉ spelled ++ before := by
    intro hmem
    rcases List.mem_append.mp hmem with hmem | hmem
    · exact (plain_of_bounds (Or.inr (hletters _ hmem))).2.2.2 rfl
    · rcases hbefore _ hmem with heq | heq <;> exact absurd heq (by decide)
  have hplain : Trimmed Text.isWhitespace spelled :=
    Trimmed.of_forall fun c hc => (plain_of_bounds (Or.inr (hletters c hc))).1
  have hkeyTrim : trim (spelled ++ before) = spelled := by
    unfold trim
    rw [trimMatches_append hbefore.isWhitespace, hplain.trimMatches_eq]
  have hvalueTrim : trim (after ++ text) = text := by
    unfold trim
    rw [trimMatches_prepend hafter.isWhitespace, hspace.trimMatches_eq]
  unfold parseEntry
  rw [← List.append_assoc, splitOnce_append hsep]
  dsimp only
  rw [hkeyTrim, hspelled, hvalueTrim, hvalue]

/-- A written field is read as an entry. -/
theorem FieldText.parseLine_eq (d : Descriptor) (h : FieldText key value core)
    (hkey : key ∈ fieldKeys) (hquote : '"' ∉ value) : parseLine d core = parseEntry d core := by
  obtain @⟨spelled, before, after, text, hspelled, hbefore, hafter, htext⟩ := h
  obtain ⟨htextNe, -, hlast, -⟩ := htext.spec hquote
  obtain ⟨hlength, hletters⟩ := letters_of_spelled (hspelled ▸ hkey)
  have hne : spelled ≠ [] := by
    rintro rfl
    exact absurd hlength (by decide)
  have hword : Word spelled := Word.of_bounds hne fun c hc => Or.inr (hletters c hc)
  have htrimmed : Trimmed isPad (spelled ++ (before ++ '=' :: (after ++ text))) := by
    have heq : before ++ '=' :: (after ++ text) = (before ++ '=' :: after) ++ text := by
      rw [List.append_assoc, List.cons_append]
    rw [heq]
    exact Trimmed.of_ends hne htextNe hword.trimmed.1 hlast _
  -- The first token starts with the key, and is longer than an access word.
  obtain ⟨more, tokens, htokens⟩ := tokenize_word hword (before ++ '=' :: (after ++ text))
  have htoken : ∀ token ∈ (tokenize (spelled ++ (before ++ '=' :: (after ++ text)))).head?,
      toAsciiUppercase token ∉ accessWords := by
    intro token hmem haccess
    rw [htokens, List.head?_cons, Option.mem_some_iff] at hmem
    have hshort := (accessWords_letters _ haccess).1
    rw [← hmem, toAsciiUppercase, List.length_map, List.length_append] at hshort
    omega
  have hhead : (spelled ++ (before ++ '=' :: (after ++ text))).head? ≠ some '#' := by
    rw [List.head?_append_of_ne_nil _ hne]
    intro hmem
    exact absurd (hletters _ (List.mem_of_mem_head? hmem)) (by decide)
  rw [parseLine_entry d htrimmed htoken, if_neg]
  rw [htokens]
  exact not_or.mpr ⟨List.append_ne_nil_of_left_ne_nil hne _,
    not_or.mpr ⟨hhead, List.cons_ne_nil _ _⟩⟩

end Field

section Extent

variable {e : ExtentDescriptor}

/-- The file and the offset of a written extent are the tokens behind its type. -/
theorem FileText.tokenize_eq {kind file : List Char} (h : FileText e file) (hp : e.Printable)
    (hword : Word kind) :
    ∃ tokens, tokenize (kind ++ file) = kind :: tokens ∧ tokens[0]? = e.file ∧
      ((tokens[1]?).bind (parseUnsigned 10 (2^64))).getD 0 = e.offsetSectors := by
  have hkind : TokenText kind kind := ⟨hword.1, Or.inl ⟨rfl, hword⟩⟩
  have hquoted : ∀ {name : List Char}, e.file = some name →
      TokenText name ('"' :: (name ++ ['"'])) :=
    fun hfile => ⟨hp.file_ne_nil _ hfile, Or.inr ⟨rfl, (hp.file_quotable _ hfile).1⟩⟩
  cases h with
  | absent hfile =>
    refine ⟨[], ?_, ?_, ?_⟩
    · rw [List.append_nil, tokenize_last hkind]
    · rw [hfile]
      rfl
    · rw [hp.offset_of_absent hfile]
      rfl
  | @alone name separator hfile hoffset hsep =>
    refine ⟨[name], ?_, ?_, ?_⟩
    · rw [tokenize_token hkind hsep.1 hsep.2, tokenize_last (hquoted hfile)]
    · rw [hfile]
      rfl
    · rw [hoffset]
      rfl
  | @withOffset name separator separator' offset hfile hsep hsep' hoffset =>
    have hnumber : TokenText offset offset :=
      ⟨hoffset.ne_nil, Or.inl ⟨rfl, Word.of_numberText hoffset⟩⟩
    refine ⟨[name, offset], ?_, ?_, ?_⟩
    · rw [tokenize_token hkind hsep.1 hsep.2, tokenize_token (hquoted hfile) hsep'.1 hsep'.2,
        tokenize_last hnumber]
    · rw [hfile]
      rfl
    · have hparse := hoffset.parseUnsigned_eq (by norm_num) (by norm_num) hp.offsetSectors_lt
      simp only [List.getElem?_cons_succ, List.getElem?_cons_zero, Option.bind_some, hparse,
        Option.getD_some]

/-- A written extent ends with a character that is not trimmed. -/
theorem FileText.getLast_not_pad {kind file : List Char} (h : FileText e file)
    (hword : Word kind) : ∀ c ∈ (kind ++ file).getLast?, isPad c = false := by
  cases h with
  | absent =>
    rw [List.append_nil]
    exact hword.trimmed.2
  | @alone name separator =>
    have hlast : (kind ++ (separator ++ '"' :: (name ++ ['"']))).getLast? = some '"' := by
      rw [← List.cons_append, ← List.append_assoc, ← List.append_assoc,
        List.getLast?_append_of_ne_nil _ (List.cons_ne_nil _ _)]
      rfl
    rw [hlast]
    rintro c ⟨⟩
    rfl
  | @withOffset name separator separator' offset _ _ _ hoffset =>
    rw [← List.append_assoc, ← List.append_assoc, ← List.append_assoc,
      List.getLast?_append_of_ne_nil _ hoffset.ne_nil]
    exact (Word.of_numberText hoffset).trimmed.2

/-- A written extent is read back, its type in upper case. -/
theorem ExtentText.parseLine_eq (d : Descriptor) {core : List Char} (h : ExtentText e core)
    (hp : e.Printable) : parseLine d core = { d with extents := d.extents ++ [e.upper] } := by
  obtain @⟨access, sectors, kind, separator, separator', file, haccess, hmem, hsep, hsectors, hsep',
    hword, hkind, hfile⟩ := h
  obtain ⟨-, hne, hletters⟩ := accessWords_letters _ hmem
  have haccessNe : access ≠ [] := by
    rintro rfl
    exact hne haccess.symm
  have haccessLetters : ∀ c ∈ access, IsLetter c :=
    IsLetter.of_toAsciiUppercase (haccess.symm ▸ hletters)
  have haccessWord : Word access :=
    Word.of_bounds haccessNe fun c hc => Or.inr (haccessLetters c hc)
  have hsectorsWord := Word.of_numberText hsectors
  obtain ⟨tokens, htail, hfileToken, hoffsetToken⟩ := hfile.tokenize_eq hp hword
  have htokens : tokenize (access ++ (separator ++ (sectors ++ (separator' ++ (kind ++ file))))) =
      access :: sectors :: kind :: tokens := by
    rw [tokenize_token ⟨haccessNe, Or.inl ⟨rfl, haccessWord⟩⟩ hsep.1 hsep.2,
      tokenize_token ⟨hsectors.ne_nil, Or.inl ⟨rfl, hsectorsWord⟩⟩ hsep'.1 hsep'.2, htail]
  have htrimmed : Trimmed isPad
      (access ++ (separator ++ (sectors ++ (separator' ++ (kind ++ file))))) := by
    have hassoc : separator ++ (sectors ++ (separator' ++ (kind ++ file))) =
        (separator ++ sectors ++ separator') ++ (kind ++ file) := by
      simp only [List.append_assoc]
    rw [hassoc]
    exact Trimmed.of_ends haccessNe (List.append_ne_nil_of_left_ne_nil hword.1 _)
      haccessWord.trimmed.1 (hfile.getLast_not_pad hword) _
  have hhead : ¬ ((access ++ (separator ++ (sectors ++ (separator' ++ (kind ++ file))))) = [] ∨
      (access ++ (separator ++ (sectors ++ (separator' ++ (kind ++ file))))).head? = some '#') := by
    refine not_or.mpr ⟨List.append_ne_nil_of_left_ne_nil haccessNe _, ?_⟩
    rw [List.head?_append_of_ne_nil _ haccessNe]
    intro hmark
    exact absurd (haccessLetters _ (List.mem_of_mem_head? hmark)) (by decide)
  have hsectorsParse := hsectors.parseUnsigned_eq (by norm_num) (by norm_num) hp.sectors_lt
  have hextent : parseExtent (access :: sectors :: kind :: tokens) = e.upper := by
    unfold parseExtent ExtentDescriptor.upper
    simp only [List.getD_cons_zero, List.getD_cons_succ, List.getElem?_cons_succ, hsectorsParse,
      Option.getD_some, haccess, hkind, hfileToken, hoffsetToken]
  rw [parseLine_extent d htrimmed hhead htokens (haccess.symm ▸ hmem), hextent]

end Extent

/-- A line with an item on it changes what its item changes. -/
theorem Item.Written.parseLine_eq (d : Descriptor) {item : Item} {core : List Char}
    (h : item.Written core) (hp : item.Printable) : parseLine d core = item.apply d := by
  cases h with
  | blank => exact parseLine_nil d
  | comment rest => exact parseLine_comment d rest
  | @unknown key value hkey hother htrimmed htoken =>
    rw [parseLine_entry d htrimmed htoken, parseEntry_other d hkey hother, ite_self]
    rfl
  | createType h =>
    rw [h.parseLine_eq d (by decide) hp.1, h.parseEntry_eq d (by decide) hp.1]
    exact if_pos rfl
  | @parentCid cid digits core hdigits h =>
    have hquote : '"' ∉ digits := by
      intro hmem
      have hbounds := hdigits.bounds (by norm_num) (by norm_num) _ hmem
      exact (plain_of_bounds hbounds).2.2.1 rfl
    rw [h.parseLine_eq d (by decide) hquote, h.parseEntry_eq d (by decide) hquote,
      hdigits.parseUnsigned_eq (by norm_num) (by norm_num) hp]
    exact (if_neg (by decide)).trans (if_pos rfl)
  | parentFileNameHint h =>
    rw [h.parseLine_eq d (by decide) hp.1, h.parseEntry_eq d (by decide) hp.1]
    exact (if_neg (by decide)).trans ((if_neg (by decide)).trans (if_pos rfl))
  | extent h => exact h.parseLine_eq d hp

/-- Whatever is trimmed behind a line with an item on it changes nothing more. -/
theorem Item.OnLine.parseLine_eq (d : Descriptor) {item : Item} {line : List Char}
    (h : item.OnLine line) (hp : item.Printable) {padding : List Char}
    (hpadding : Padding padding) :
    parseLine d (line ++ padding) = item.apply d := by
  obtain @⟨before, core, after, hbefore, hcore, hafter, -⟩ := h
  have hrest : Padding (after ++ padding) := by
    intro c hc
    rcases List.mem_append.mp hc with hc | hc
    · exact hafter c hc
    · exact hpadding c hc
  rw [List.append_assoc, parseLine_padded d hbefore hrest, hcore.parseLine_eq d hp]

end VmSpect.Vmdk
