import Mathlib.Tactic

/-!
# Parts of byte strings

A part of a finite string is a `slice`, which is cut off where the string ends. A part of an
unbounded content, a function of the position, is a `window`. `zeroExtended` reads a finite string
as an unbounded content that is zero from its end on. Both kinds of parts split at any point
(`slice_add`, `window_add`), which is what a loop that copies piece by piece needs.
-/

namespace Bytes

variable {α : Type*}

/-! ## Slices of finite strings -/

/-- The part of `xs` from `offset` on, at most `len` long. -/
def slice (xs : List α) (offset len : ℕ) : List α := (xs.drop offset).take len

theorem length_slice (xs : List α) (offset len : ℕ) :
    (slice xs offset len).length = min len (xs.length - offset) := by
  simp [slice]

/-- A slice is the slice of its first part followed by that of its second part. -/
theorem slice_add (xs : List α) (offset a b : ℕ) :
    slice xs offset (a + b) = slice xs offset a ++ slice xs (offset + a) b := by
  rw [slice, List.take_add, List.drop_drop]
  rfl

/-- A slice of a slice, when it lies in it. -/
theorem slice_slice {xs : List α} {offset len i n : ℕ} (h : i + n ≤ len) :
    slice (slice xs offset len) i n = slice xs (offset + i) n := by
  rw [slice, slice, List.drop_take, List.take_take, List.drop_drop, Nat.min_eq_left (by omega)]
  rfl

/-- A slice that reaches past the end is cut off there. -/
theorem slice_min_length (xs : List α) (offset len : ℕ) :
    slice xs offset (min len (xs.length - offset)) = slice xs offset len := by
  rcases le_total len (xs.length - offset) with h | h
  · rw [Nat.min_eq_left h]
  · rw [Nat.min_eq_right h, slice, slice, List.take_of_length_le (by simp),
      List.take_of_length_le (by simpa using h)]

/-- A field between two other parts. -/
theorem slice_field (pre post : List α) {field : List α} {i n : ℕ} (hi : pre.length = i)
    (hn : field.length = n) : slice (pre ++ (field ++ post)) i n = field := by
  rw [slice, List.drop_left' hi, List.take_left' hn]

/-! ## Records of one length -/

section Records

variable {β : Type} {f : β → List α} {w : ℕ}

theorem length_flatMap_const (hf : ∀ b, (f b).length = w) (xs : List β) :
    (xs.flatMap f).length = xs.length * w := by
  induction xs with
  | nil => rw [List.flatMap_nil, List.length_nil, List.length_nil, Nat.zero_mul]
  | cons x rest ih =>
    rw [List.flatMap_cons, List.length_append, hf, ih, List.length_cons, Nat.succ_mul, Nat.add_comm]

/-- Records, cut at one of them. -/
theorem flatMap_cut {xs : List β} {i : ℕ} {x : β} (h : xs[i]? = some x) :
    xs.flatMap f = (xs.take i).flatMap f ++ (f x ++ (xs.drop (i + 1)).flatMap f) := by
  obtain ⟨hi, rfl⟩ := List.getElem?_eq_some_iff.mp h
  rw [← List.flatMap_cons, ← List.drop_eq_getElem_cons hi, ← List.flatMap_append,
    List.take_append_drop]

/-- What comes before it. -/
theorem length_flatMap_take (hf : ∀ b, (f b).length = w) {xs : List β} {i : ℕ} (hi : i ≤ xs.length) :
    ((xs.take i).flatMap f).length = i * w := by
  rw [length_flatMap_const hf, List.length_take, Nat.min_eq_left hi]

/-- One of the records. -/
theorem slice_flatMap (hf : ∀ b, (f b).length = w) {xs : List β} {i : ℕ} {x : β}
    (h : xs[i]? = some x) : slice (xs.flatMap f) (i * w) w = f x := by
  have hi := (List.getElem?_eq_some_iff.mp h).1
  rw [flatMap_cut h]
  exact slice_field _ _ (length_flatMap_take hf hi.le) (hf x)

end Records

/-! ## Writing into a buffer -/

/-- The buffer with `data` copied over the part that starts at `offset`. -/
def writeAt (buf : List α) (offset : ℕ) (data : List α) : List α :=
  buf.take offset ++ data ++ buf.drop (offset + data.length)

/-- Copying right after a part that is already written. -/
theorem writeAt_append (got rest data : List α) :
    writeAt (got ++ rest) got.length data = (got ++ data) ++ rest.drop data.length := by
  rw [writeAt, List.take_left' rfl, List.drop_length_add_append]

/-- Copying into a buffer does not change its length. -/
theorem length_writeAt {buf data : List α} {offset : ℕ} (h : offset + data.length ≤ buf.length) :
    (writeAt buf offset data).length = buf.length := by
  rw [writeAt, List.length_append, List.length_append, List.length_take, List.length_drop]
  omega

/-! ## Windows of unbounded contents -/

/-- The `len` values of `f` from `offset` on. -/
def window (f : ℕ → α) (offset len : ℕ) : List α := (List.range len).map fun i => f (offset + i)

@[simp] theorem length_window (f : ℕ → α) (offset len : ℕ) : (window f offset len).length = len := by
  simp [window]

@[simp] theorem window_zero (f : ℕ → α) (offset : ℕ) : window f offset 0 = [] := rfl

/-- A window is the window of its first part followed by that of its second part. -/
theorem window_add (f : ℕ → α) (offset a b : ℕ) :
    window f offset (a + b) = window f offset a ++ window f (offset + a) b := by
  rw [window, List.range_add, List.map_append, List.map_map]
  simp only [window, Function.comp_def, Nat.add_assoc]

/-- A window on one value. -/
theorem window_eq_replicate {f : ℕ → α} {i n : ℕ} {a : α} (h : ∀ k < n, f (i + k) = a) :
    window f i n = List.replicate n a := by
  rw [window, List.map_congr_left fun k hk => h k (List.mem_range.mp hk), List.map_const',
    List.length_range]

/-- Windows of contents that agree are equal. -/
theorem window_congr {f g : ℕ → α} {i j len : ℕ} (h : ∀ k < len, f (i + k) = g (j + k)) :
    window f i len = window g j len :=
  List.map_congr_left fun k hk => h k (List.mem_range.mp hk)

/-- A part of a window is a window. -/
theorem slice_window (f : ℕ → α) {offset len i n : ℕ} (h : i + n ≤ len) :
    slice (window f offset len) i n = window f (offset + i) n := by
  obtain ⟨rest, rfl⟩ : ∃ rest, len = i + (n + rest) := ⟨len - i - n, by omega⟩
  rw [window_add, window_add]
  exact slice_field _ _ (length_window _ _ _) (length_window _ _ _)

/-- A value inside of a window. -/
theorem getElem?_window (f : ℕ → α) {offset len i : ℕ} (h : i < len) :
    (window f offset len)[i]? = some (f (offset + i)) := by
  rw [window, List.getElem?_map, List.getElem?_range h, Option.map_some]

end Bytes
