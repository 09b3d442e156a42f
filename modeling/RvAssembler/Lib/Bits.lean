import Mathlib.Data.Nat.Bitwise
import Mathlib.Tactic.Positivity
import Mathlib.Tactic.Ring

namespace RvAssembler.Bits

variable {w : ℕ}

/-- Bits `lo, …, lo + len - 1` of a word, as a number. -/
def field (x : BitVec w) (lo len : ℕ) : ℕ := (x.toNat >>> lo) % 2 ^ len

/-- `x & (2 ^ k - 1)`: the word cut to its low `k` bits. -/
def low (k : ℕ) (x : BitVec w) : BitVec w := x &&& BitVec.ofNat w (2 ^ k - 1)

theorem testBit_field (x : BitVec w) (lo len i : ℕ) :
    (field x lo len).testBit i = (decide (i < len) && x.getLsbD (lo + i)) := by
  simp [field, Nat.testBit_mod_two_pow, Nat.testBit_shiftRight, BitVec.getLsbD]

theorem getLsbD_low (k : ℕ) (x : BitVec w) (i : ℕ) :
    (low k x).getLsbD i = (decide (i < k) && x.getLsbD i) := by
  by_cases hi : i < w
  · rw [low, BitVec.getLsbD_and, BitVec.getLsbD_ofNat, Nat.testBit_two_pow_sub_one]
    simp only [hi, decide_true, Bool.true_and, Bool.and_comm]
  · simp [BitVec.getLsbD_of_ge _ _ (Nat.le_of_not_lt hi)]

theorem field_lt (x : BitVec w) (lo len : ℕ) : field x lo len < 2 ^ len :=
  Nat.mod_lt _ (by positivity)

theorem field_or (x y : BitVec w) (lo len : ℕ) :
    field (x ||| y) lo len = field x lo len ||| field y lo len := by
  apply Nat.eq_of_testBit_eq
  intro i
  simp [testBit_field, Bool.and_or_distrib_left]

/-- A field at or above the shift distance is a field of the shifted word. -/
theorem field_shl {k lo len : ℕ} (x : BitVec w) (hk : k ≤ lo) (hw : lo + len ≤ w) :
    field (x <<< k) lo len = field x (lo - k) len := by
  apply Nat.eq_of_testBit_eq
  intro i
  by_cases hi : i < len
  · have h1 : lo + i < w := by omega
    have h2 : ¬ lo + i < k := by omega
    have h3 : lo + i - k = lo - k + i := by omega
    rw [testBit_field, testBit_field, BitVec.getLsbD_shiftLeft, h3]
    simp only [h1, h2, decide_true, decide_false, Bool.not_false, Bool.true_and]
  · simp [testBit_field, hi]

/-- A field below the shift distance reads the zeros shifted in. -/
theorem field_shl_zero {k lo len : ℕ} (x : BitVec w) (hk : lo + len ≤ k) :
    field (x <<< k) lo len = 0 := by
  apply Nat.eq_of_testBit_eq
  intro i
  by_cases hi : i < len
  · have h1 : lo + i < k := by omega
    simp [testBit_field, h1]
  · simp [testBit_field, hi]

theorem field_ushiftRight (k lo len : ℕ) (x : BitVec w) :
    field (x >>> k) lo len = field x (lo + k) len := by
  simp only [field, BitVec.toNat_ushiftRight, ← Nat.shiftRight_add, Nat.add_comm]

theorem field_low {k lo len : ℕ} (x : BitVec w) (hk : lo + len ≤ k) :
    field (low k x) lo len = field x lo len := by
  apply Nat.eq_of_testBit_eq
  intro i
  by_cases hi : i < len
  · have h1 : lo + i < k := by omega
    simp [testBit_field, getLsbD_low, h1]
  · simp [testBit_field, hi]

theorem field_low_zero {k lo len : ℕ} (x : BitVec w) (hk : k ≤ lo) :
    field (low k x) lo len = 0 := by
  apply Nat.eq_of_testBit_eq
  intro i
  have h1 : ¬ lo + i < k := by omega
  simp [testBit_field, getLsbD_low, h1]

theorem field_low_shl {k lo a len : ℕ} (x : BitVec w) (h1 : lo ≤ a) (h2 : a + len ≤ lo + k)
    (h3 : a + len ≤ w) : field (low k x <<< lo) a len = field x (a - lo) len := by
  rw [field_shl _ h1 h3, field_low _ (by omega)]

theorem field_low_shl_above {k lo a len : ℕ} (x : BitVec w) (h1 : lo + k ≤ a)
    (h2 : a + len ≤ w) : field (low k x <<< lo) a len = 0 := by
  rw [field_shl _ (by omega) h2, field_low_zero _ (by omega)]

theorem field_ofNat (n lo len : ℕ) :
    field (BitVec.ofNat w n) lo len = (n % 2 ^ w) >>> lo % 2 ^ len := by
  simp [field]

theorem field_setWidth {v lo len : ℕ} (x : BitVec w) (hv : lo + len ≤ v) :
    field (x.setWidth v) lo len = field x lo len := by
  apply Nat.eq_of_testBit_eq
  intro i
  by_cases hi : i < len
  · have h1 : lo + i < v := by omega
    simp [testBit_field, h1]
  · simp [testBit_field, hi]

/-- Two adjacent fields read as one. -/
theorem field_add (x : BitVec w) (lo a b : ℕ) :
    field x lo (a + b) = field x lo a + 2 ^ a * field x (lo + a) b := by
  simp only [field, Nat.shiftRight_eq_div_pow, pow_add]
  rw [Nat.mod_mul, Nat.div_div_eq_div_mul]

theorem field_of_low_field (x : BitVec w) {k lo len : ℕ} (h : lo + len ≤ k) :
    field x lo len = field x 0 k / 2 ^ lo % 2 ^ len := by
  apply Nat.eq_of_testBit_eq
  intro i
  rw [← Nat.shiftRight_eq_div_pow, Nat.testBit_mod_two_pow, Nat.testBit_shiftRight, testBit_field,
    testBit_field]
  by_cases hi : i < len
  · simp [hi, show lo + i < k by omega]
  · simp [hi]

theorem and_compl_low {x v k : ℕ} (hx : x < 2 ^ v) (hk : k ≤ v) :
    x &&& (2 ^ v - 1 - (2 ^ k - 1)) = x / 2 ^ k * 2 ^ k := by
  have hle : 2 ^ k ≤ 2 ^ v := Nat.pow_le_pow_right (by decide) hk
  have hpos : 0 < 2 ^ k := by positivity
  have hmask : 2 ^ v - 1 - (2 ^ k - 1) = 2 ^ v - (2 ^ k - 1 + 1) := by omega
  rw [hmask, ← Nat.shiftRight_eq_div_pow, ← Nat.shiftLeft_eq]
  apply Nat.eq_of_testBit_eq
  intro i
  rw [Nat.testBit_and, Nat.testBit_two_pow_sub_succ (by omega), Nat.testBit_two_pow_sub_one,
    Nat.testBit_shiftLeft, Nat.testBit_shiftRight]
  by_cases hi : k ≤ i
  · by_cases hv : i < v
    · simp [hi, hv, show ¬ i < k by omega, show k + (i - k) = i by omega]
    · have hx0 : x.testBit i = false :=
        Nat.testBit_lt_two_pow (hx.trans_le (Nat.pow_le_pow_right (by decide) (by omega)))
      simp [hi, hx0, show k + (i - k) = i by omega]
  · simp [hi, show i < k by omega]

theorem emod_mul_ediv (x : ℤ) {a : ℤ} (ha : 0 < a) (m : ℤ) : x % (a * m) / a = x / a % m := by
  rw [Int.emod_def, Int.emod_def, Int.ediv_ediv_of_nonneg ha.le, Int.mul_assoc, Int.sub_eq_add_neg,
    ← Int.mul_neg, Int.add_mul_ediv_left _ _ ha.ne', Int.sub_eq_add_neg]

theorem field_ofInt {lo len : ℕ} (x : ℤ) (hw : lo + len ≤ w) :
    (field (BitVec.ofInt w x) lo len : ℤ) = x / 2 ^ lo % 2 ^ len := by
  have hpos : (0 : ℤ) < 2 ^ w := by positivity
  have hn : (((x % 2 ^ w).toNat : ℕ) : ℤ) = x % 2 ^ w :=
    Int.toNat_of_nonneg (Int.emod_nonneg _ hpos.ne')
  have hsplit : (2 : ℤ) ^ w = 2 ^ lo * (2 ^ len * 2 ^ (w - lo - len)) := by
    rw [← pow_add, ← pow_add]
    congr 1
    omega
  simp only [field, BitVec.toNat_ofInt, Nat.shiftRight_eq_div_pow, Int.natCast_emod,
    Int.natCast_ediv, Nat.cast_pow, Nat.cast_ofNat, hn]
  rw [hsplit, emod_mul_ediv x (by positivity)]
  exact Int.emod_emod_of_dvd _ (Dvd.intro _ rfl)

/-- Signed wrap-around to `k + 1` bits, in the form linear arithmetic reads. -/
theorem bmod_two_pow (x : ℤ) (k : ℕ) :
    Int.bmod x (2 ^ (k + 1)) = (x + 2 ^ k) % 2 ^ (k + 1) - 2 ^ k := by
  have hp : (0 : ℤ) < 2 ^ k := by positivity
  have h2 : (2 : ℤ) ^ (k + 1) = 2 * 2 ^ k := by ring
  rw [Int.bmod_def]
  push_cast
  rw [h2]
  generalize (2 : ℤ) ^ k = m at hp
  have hr : (x + m) % (2 * m) = (x % (2 * m) + m) % (2 * m) := (Int.emod_add_emod _ _ _).symm
  have h0 := Int.emod_nonneg x (show 2 * m ≠ 0 by omega)
  have h1 := Int.emod_lt_of_pos x (show 0 < 2 * m by omega)
  rw [hr]
  generalize x % (2 * m) = r at h0 h1
  split_ifs with h
  · rw [Int.emod_eq_of_lt (by omega) (by omega)]
    omega
  · have hm : r + m = r - m + 2 * m := by ring
    rw [hm, Int.add_emod_right, Int.emod_eq_of_lt (by omega) (by omega)]
    omega

end RvAssembler.Bits
