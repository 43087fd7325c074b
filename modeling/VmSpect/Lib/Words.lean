import Mathlib.Tactic

/-!
# Machine words

Unsigned words are natural numbers below a power of two. Arithmetic that wraps is `addw` and `mulw`,
which agree with the sum and the product as long as these stay below `2^64` (`addw_of_lt`,
`mulw_of_lt`). Words are stored as bytes, least significant first (`ofLe`) or last (`ofBe`).
-/

namespace Words

/-- Addition on 64-bit words. -/
def addw (a b : ℕ) : ℕ := (a + b) % 2^64

/-- Multiplication on 64-bit words. -/
def mulw (a b : ℕ) : ℕ := (a * b) % 2^64

/-- A sum that fits a word is not reduced. -/
theorem addw_of_lt {a b : ℕ} (h : a + b < 2^64) : addw a b = a + b := Nat.mod_eq_of_lt h

/-- A product that fits a word is not reduced. -/
theorem mulw_of_lt {a b : ℕ} (h : a * b < 2^64) : mulw a b = a * b := Nat.mod_eq_of_lt h

/-- A sum of words is a word. -/
theorem addw_lt (a b : ℕ) : addw a b < 2^64 := Nat.mod_lt _ (by norm_num)

/-- The smallest power of two that is not below `n`, as a 64-bit word: zero when it does not fit. -/
def nextPowerOfTwo (n : ℕ) : ℕ := 2^(Nat.clog 2 n) % 2^64

/-- The next power of two, up to `2^63`. -/
theorem nextPowerOfTwo_eq {n : ℕ} (h : n ≤ 2^63) : nextPowerOfTwo n = 2^(Nat.clog 2 n) := by
  have hlog : Nat.clog 2 n ≤ 63 := Nat.clog_le_of_le_pow h
  have hpow : 2^(Nat.clog 2 n) ≤ 2^63 := Nat.pow_le_pow_right (by norm_num) hlog
  exact Nat.mod_eq_of_lt (by omega)

/-- Up to `2^63` the next power of two fits, and is positive. -/
theorem nextPowerOfTwo_pos {n : ℕ} (h : n ≤ 2^63) : 0 < nextPowerOfTwo n := by
  rw [nextPowerOfTwo_eq h]
  exact Nat.pow_pos (by norm_num)

/-- Beyond `2^63` the next power of two does not fit a word. -/
theorem nextPowerOfTwo_eq_zero {n : ℕ} (h : 2^63 < n) : nextPowerOfTwo n = 0 := by
  have hlog : 63 < Nat.clog 2 n := (Nat.lt_clog_iff_pow_lt (by norm_num)).mpr h
  exact Nat.mod_eq_zero_of_dvd (Nat.pow_dvd_pow 2 hlog)

/-- The next power of two lies between the same powers of two as the number. -/
theorem nextPowerOfTwo_bounds {n lo hi : ℕ} (hlo : 2^lo < n) (hhi : n ≤ 2^hi) (h : hi ≤ 63) :
    2^(lo + 1) ≤ nextPowerOfTwo n ∧ nextPowerOfTwo n ≤ 2^hi := by
  have hlog : lo < Nat.clog 2 n := (Nat.lt_clog_iff_pow_lt (by norm_num)).mpr hlo
  have hle : Nat.clog 2 n ≤ hi := Nat.clog_le_of_le_pow hhi
  rw [nextPowerOfTwo_eq (hhi.trans (Nat.pow_le_pow_right (by norm_num) h))]
  exact ⟨Nat.pow_le_pow_right (by norm_num) hlog, Nat.pow_le_pow_right (by norm_num) hle⟩

/-! ## Bytes of a word -/

/-- The number with the given bytes, least significant first. -/
def ofLe : List UInt8 → ℕ
  | [] => 0
  | b :: bs => b.toNat + 2^8 * ofLe bs

/-- The number with the given bytes, most significant first. -/
def ofBe (bytes : List UInt8) : ℕ := ofLe bytes.reverse

/-- The lowest `w` bytes of `n`, least significant first. -/
def toLe : ℕ → ℕ → List UInt8
  | 0, _ => []
  | w + 1, n => UInt8.ofNat (n % 2^8) :: toLe w (n / 2^8)

/-- The lowest `w` bytes of `n`, most significant first. -/
def toBe (w n : ℕ) : List UInt8 := (toLe w n).reverse

/-- `w` bytes hold a number below `2^(8w)`. -/
theorem ofLe_lt (bytes : List UInt8) : ofLe bytes < 2^(8 * bytes.length) := by
  induction bytes with
  | nil => simp [ofLe]
  | cons b bs ih =>
    have hb : b.toNat < 2^8 := b.toNat_lt
    have hpow : 2^(8 * (bs.length + 1)) = 2^8 * 2^(8 * bs.length) := by ring
    rw [ofLe, List.length_cons, hpow]
    omega

@[simp] theorem length_toLe (w n : ℕ) : (toLe w n).length = w := by
  induction w generalizing n with
  | zero => rfl
  | succ w ih => rw [toLe, List.length_cons, ih]

@[simp] theorem length_toBe (w n : ℕ) : (toBe w n).length = w := by
  rw [toBe, List.length_reverse, length_toLe]

/-- The bytes of a number hold it, reduced to their width. -/
theorem ofLe_toLe (w n : ℕ) : ofLe (toLe w n) = n % 2^(8 * w) := by
  induction w generalizing n with
  | zero => simp [toLe, ofLe, Nat.mod_one]
  | succ w ih =>
    have hbyte : (UInt8.ofNat (n % 2^8)).toNat = n % 2^8 := by simp
    have hpow : 2^(8 * (w + 1)) = 2^8 * 2^(8 * w) := by ring
    rw [toLe, ofLe, ih, hbyte, hpow, Nat.mod_mul]

/-- The bytes of a number hold it, reduced to their width. -/
theorem ofBe_toBe_mod (w n : ℕ) : ofBe (toBe w n) = n % 2^(8 * w) := by
  rw [ofBe, toBe, List.reverse_reverse, ofLe_toLe]

/-- The bytes of a number that fits their width hold it. -/
theorem ofBe_toBe {w n : ℕ} (h : n < 2^(8 * w)) : ofBe (toBe w n) = n := by
  rw [ofBe_toBe_mod, Nat.mod_eq_of_lt h]

/-- A number fits the bytes that hold it, and these are its bytes. -/
theorem toLe_ofLe (bytes : List UInt8) : toLe bytes.length (ofLe bytes) = bytes := by
  induction bytes with
  | nil => rfl
  | cons b bs ih =>
    have hb : b.toNat < 2^8 := b.toNat_lt
    have hmod : (b.toNat + 2^8 * ofLe bs) % 2^8 = b.toNat := by omega
    have hdiv : (b.toNat + 2^8 * ofLe bs) / 2^8 = ofLe bs := by omega
    rw [List.length_cons, toLe, ofLe, hmod, hdiv, ih, UInt8.ofNat_toNat]

/-- Bytes are the bytes of the number that they hold. -/
theorem toBe_ofBe {w : ℕ} {bytes : List UInt8} (h : bytes.length = w) :
    toBe w (ofBe bytes) = bytes := by
  subst h
  have hle := toLe_ofLe bytes.reverse
  rw [List.length_reverse] at hle
  rw [toBe, ofBe, hle, List.reverse_reverse]

/-- `w` bytes hold a number below `2^(8w)`. -/
theorem ofBe_lt {w : ℕ} {bytes : List UInt8} (h : bytes.length ≤ w) : ofBe bytes < 2^(8 * w) := by
  refine (ofLe_lt bytes.reverse).trans_le (Nat.pow_le_pow_right (by norm_num) ?_)
  rw [List.length_reverse]
  omega

end Words
