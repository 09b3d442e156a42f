import RvAssembler.CEncoding
import RvAssembler.CDecode
import RvAssembler.EncodingExact

namespace RvAssembler

open Bits

theorem getLsbD_put {w : BitVec 16} {hi lo : ℕ} {v : BitVec 32} {i : ℕ} (hlo : lo ≤ hi)
    (hhi : hi ≤ 15) (hi16 : i < 16) : (put w hi lo v).getLsbD i =
      if lo ≤ i ∧ i ≤ hi then v.getLsbD (i - lo) else w.getLsbD i := by
  have hmask : (BitVec.ofNat 32 (2 ^ (hi - lo + 1) - 1) <<< lo).getLsbD i =
      decide (lo ≤ i ∧ i ≤ hi) := by
    rw [BitVec.getLsbD_shiftLeft, BitVec.getLsbD_ofNat, Nat.testBit_two_pow_sub_one]
    by_cases h : lo ≤ i ∧ i ≤ hi
    · simp only [h, and_self, decide_true, show i < 32 by omega, show ¬ i < lo by omega,
        show i - lo < 32 by omega, show i - lo < hi - lo + 1 by omega]
      rfl
    · by_cases hl : i < lo
      · simp [hl, h]
      · simp only [show ¬ i - lo < hi - lo + 1 by omega, h, decide_false, Bool.and_false]
  have hv : (low (hi - lo + 1) v <<< lo).getLsbD i =
      (decide (lo ≤ i ∧ i ≤ hi) && v.getLsbD (i - lo)) := by
    rw [BitVec.getLsbD_shiftLeft, getLsbD_low]
    by_cases h : lo ≤ i ∧ i ≤ hi
    · simp [h, show i < 32 by omega, show i - lo < hi - lo + 1 by omega, show ¬ i < lo by omega]
    · by_cases hl : i < lo
      · simp [hl, h]
      · simp [show ¬ i - lo < hi - lo + 1 by omega, h]
  rw [put, if_neg (by omega)]
  simp only [BitVec.getLsbD_setWidth, BitVec.getLsbD_or, BitVec.getLsbD_and, BitVec.getLsbD_not,
    hmask, hv, hi16, show i < 32 by omega, decide_true, Bool.true_and]
  by_cases h : lo ≤ i ∧ i ≤ hi <;> simp [h]

theorem field_put {w : BitVec 16} {hi lo a len : ℕ} {v : BitVec 32} (hlo : lo ≤ a)
    (hlen : a + len ≤ hi + 1) (hhi : hi ≤ 15) (h : lo ≤ hi) :
    field (put w hi lo v) a len = field v (a - lo) len := by
  apply Nat.eq_of_testBit_eq
  intro i
  by_cases hi' : i < len
  · rw [testBit_field, testBit_field, getLsbD_put h hhi (by omega), if_pos (by omega),
      show a + i - lo = a - lo + i by omega]
  · simp [testBit_field, hi']

theorem field_put_of_disjoint {w : BitVec 16} {hi lo a len : ℕ} {v : BitVec 32}
    (hd : a + len ≤ lo ∨ hi < a) (hlen : a + len ≤ 16) (hhi : hi ≤ 15) (h : lo ≤ hi) :
    field (put w hi lo v) a len = field w a len := by
  apply Nat.eq_of_testBit_eq
  intro i
  by_cases hi' : i < len
  · rw [testBit_field, testBit_field, getLsbD_put h hhi (by omega), if_neg (by omega)]
  · simp [testBit_field, hi']

theorem field_low_ushiftRight {k j lo len : ℕ} (u : BitVec 32) (h : lo + len ≤ k) :
    field (low k (u >>> j)) lo len = field u (lo + j) len := by
  rw [field_low _ h, field_ushiftRight, Nat.add_comm]

theorem field_toU32 {lo len : ℕ} (x : ℤ) (h : lo + len ≤ 32) :
    (field (toU32 x) lo len : ℤ) = x / 2 ^ lo % 2 ^ len := field_ofInt x h

theorem field_half_offset {lo len : ℕ} (x : ℤ) (h : lo + len + 1 ≤ 32) :
    field ((BitVec.ofInt 32 x).sshiftRight 1) lo len = field (toU32 x) (lo + 1) len := by
  apply Nat.eq_of_testBit_eq
  intro i
  by_cases hi : i < len
  · rw [testBit_field, testBit_field, BitVec.getLsbD_sshiftRight, toU32,
      show 1 + (lo + i) = lo + 1 + i by omega]
    simp [show ¬ 32 ≤ lo + i by omega, show lo + 1 + i < 32 by omega]
  · simp [testBit_field, hi]

def IsPrime (r : ℤ) : Prop := 8 ≤ r ∧ r ≤ 15

instance (r : ℤ) : Decidable (IsPrime r) := inferInstanceAs (Decidable (_ ∧ _))

theorem cRegp_of_isPrime {r : ℤ} (h : IsPrime r) : cRegp r = r - 8 := by
  obtain ⟨h1, h2⟩ := h
  rw [cRegp, if_neg (by omega)]

theorem cRegp_neg {r : ℤ} : cRegp r < 0 ↔ ¬ IsPrime r := by
  simp only [cRegp, IsPrime]
  split_ifs <;> omega

theorem field_cRegp {r : ℤ} (h : IsPrime r) : (8 + field (low 3 (toU32 (cRegp r))) 0 3 : ℤ) = r := by
  obtain ⟨h1, h2⟩ := h
  rw [field_low _ (by decide), field_toU32 _ (by decide), cRegp_of_isPrime ⟨h1, h2⟩]
  omega

theorem field_low_reg {r : ℤ} (h : IsReg r) : (field (low 5 (toU32 r)) 0 5 : ℤ) = r := by
  obtain ⟨h1, h2⟩ := h
  rw [field_low _ (by decide), field_toU32 _ (by decide)]
  omega

/-- A property of every accepted word, when acceptance and the property have closed forms. -/
theorem forall_ok_iff {α : Type} {enc : Except String α} {D : α → Prop} {legal exact : Prop}
    (hacc : (∃ w, enc = .ok w) ↔ legal) (hread : ∀ w, enc = .ok w → (D w ↔ exact)) :
    (∀ w, enc = .ok w → D w) ↔ (legal → exact) := by
  constructor
  · intro h hl
    obtain ⟨w, hw⟩ := hacc.mpr hl
    exact (hread w hw).mp (h w hw)
  · intro h w hw
    exact (hread w hw).mpr (h (hacc.mp ⟨w, hw⟩))

theorem cBuildTags_quadrant (op : Opcode) :
    field (cBuildTags (cEncodingTable op)) 0 2 = (cEncodingTable op).quadrant := by
  cases op <;> rfl

theorem cBuildTags_funct3 (op : Opcode) :
    field (cBuildTags (cEncodingTable op)) 13 3 = (cEncodingTable op).funct3 := by
  cases op <;> rfl

/-- The C extension is enabled and the target's width has the instruction. -/
def CAvailable (cfg : Config) (op : Opcode) : Prop :=
  cfg.extC = true ∧ (cEncodingTable op).needsC = true ∧
    (if cfg.xlen = 64 then (cEncodingTable op).rv64 else (cEncodingTable op).rv32) = true

instance (cfg : Config) (op : Opcode) : Decidable (CAvailable cfg op) :=
  inferInstanceAs (Decidable (_ ∧ _))

theorem CAvailable.xlen_eq_64 {cfg : Config} {op : Opcode} (h : CAvailable cfg op)
    (h32 : (cEncodingTable op).rv32 = false) : cfg.xlen = 64 := by
  by_contra hx
  simpa [hx, h32] using h.2.2

theorem CAvailable.xlen_ne_64 {cfg : Config} {op : Opcode} (h : CAvailable cfg op)
    (h64 : (cEncodingTable op).rv64 = false) : cfg.xlen ≠ 64 := by
  intro hx
  simpa [hx, h64] using h.2.2

theorem requireCForOp_ok {cfg : Config} {op : Opcode} {line : ℤ} :
    requireCForOp cfg op line = .ok () ↔ CAvailable cfg op := by
  rw [requireCForOp, requireC, CAvailable]
  cases hC : cfg.extC
  · simp [bind, Except.bind]
  · cases hn : (cEncodingTable op).needsC
    · simp [bind, Except.bind, hn]
    · cases h : (if cfg.xlen = 64 then (cEncodingTable op).rv64 else (cEncodingTable op).rv32) <;>
        simp [bind, Except.bind, hn, h]

theorem ite_error_eq_ok {α : Type} {c : Prop} [Decidable c] {e : String} {f : Except String α}
    {w : α} : (if c then .error e else f) = .ok w ↔ ¬ c ∧ f = .ok w := by
  by_cases h : c <;> simp [h]

theorem requireCForOp_bind {α : Type} {cfg : Config} {op : Opcode} {line : ℤ}
    {f : Unit → Except String α} {w : α} :
    (requireCForOp cfg op line >>= f) = .ok w ↔ CAvailable cfg op ∧ f () = .ok w := by
  rw [← @requireCForOp_ok cfg op line]
  cases requireCForOp cfg op line <;> simp [bind, Except.bind]

end RvAssembler
