import RvAssembler.CFields

namespace RvAssembler

open Bits

/-- A scaled offset up to `top`, as far as its low 32 bits show. -/
def WrappedOffset (scale top imm : ℤ) : Prop :=
  0 ≤ imm ∧ imm % 2 ^ 32 % scale = 0 ∧ imm % 2 ^ 32 ≤ top

def CMemLegal (cfg : Config) (op : Opcode) (rd rs1 rs2 imm : ℤ) : Prop :=
  CAvailable cfg op ∧
    match op with
    | .cLw => (IsPrime rd ∧ IsPrime rs1) ∧ WrappedOffset 4 124 imm
    | .cLd => (IsPrime rd ∧ IsPrime rs1) ∧ WrappedOffset 8 248 imm
    | .cSw => (IsPrime rs1 ∧ IsPrime rs2) ∧ WrappedOffset 4 124 imm
    | .cSd => (IsPrime rs1 ∧ IsPrime rs2) ∧ WrappedOffset 8 248 imm
    | .cLwsp => rs1 = 2 ∧ rd ≠ 0 ∧ 0 ≤ imm ∧ imm % 4 = 0 ∧ imm ≤ 252
    | .cLdsp => rs1 = 2 ∧ rd ≠ 0 ∧ 0 ≤ imm ∧ imm % 8 = 0 ∧ imm ≤ 504
    | .cSwsp => rs1 = 2 ∧ WrappedOffset 4 252 imm
    | .cSdsp => rs1 = 2 ∧ WrappedOffset 8 504 imm
    | _ => False

/-- When an accepted load or store reads back as itself. -/
def CMemExact (op : Opcode) (rs2 imm : ℤ) : Prop :=
  match op with
  | .cLw | .cLd | .cSw | .cSd => imm < 2 ^ 32
  | .cLwsp => True
  | .cSwsp => imm < 2 ^ 32 ∧ imm % 84 = 0 ∧ rs2 = imm / 4 % 32
  | .cSdsp => imm < 2 ^ 32 ∧ imm % 72 = 0 ∧ rs2 = imm / 8 % 32
  | _ => False

theorem toNat_toU32 (imm : ℤ) : ((toU32 imm).toNat : ℤ) = imm % 2 ^ 32 := by
  rw [toU32, BitVec.toNat_ofInt]
  exact Int.toNat_of_nonneg (Int.emod_nonneg _ (by decide))

theorem field_eq_toNat (x : BitVec 32) (lo len : ℕ) :
    field x lo len = x.toNat / 2 ^ lo % 2 ^ len := by
  rw [field, Nat.shiftRight_eq_div_pow]

theorem not_offset_error (scale top : ℕ) (imm : ℤ) :
    ¬ (imm < 0 ∨ (toU32 imm).toNat % scale ≠ 0 ∨ (toU32 imm).toNat > top) ↔
      WrappedOffset scale top imm := by
  rw [WrappedOffset, ← toNat_toU32]
  norm_cast
  simp only [gt_iff_lt, not_or, not_not, not_lt]

theorem not_not_prime (a b : ℤ) : ¬ (¬ IsPrime a ∨ ¬ IsPrime b) ↔ IsPrime a ∧ IsPrime b := by
  rw [not_or, not_not, not_not]

theorem word_offset_bits {u : BitVec 32} (h4 : u.toNat % 4 = 0) (h : u.toNat ≤ 124) :
    field u 3 3 * 2 ^ 3 + field u 2 1 * 2 ^ 2 + field u 6 1 * 2 ^ 6 = u.toNat := by
  simp only [field_eq_toNat]
  omega

theorem doubleword_offset_bits {u : BitVec 32} (h8 : u.toNat % 8 = 0) (h : u.toNat ≤ 248) :
    field u 3 3 * 2 ^ 3 + field u 6 2 * 2 ^ 6 = u.toNat := by
  simp only [field_eq_toNat]
  omega

theorem encodeCltype_accepts {cfg : Config} {op : Opcode} {rd rs1 imm line : ℤ}
    (hop : op = .cLw ∨ op = .cLd) (rs2 : ℤ) :
    (∃ w, encodeCltype cfg op rd rs1 imm line = .ok w) ↔ CMemLegal cfg op rd rs1 rs2 imm := by
  rcases hop with rfl | rfl <;>
    simp only [encodeCltype, requireCForOp_bind, ite_error_eq_ok, cRegp_neg, not_not_prime,
      reduceCtorEq, ↓reduceIte, not_offset_error, exists_and_left, Except.ok.injEq, exists_eq',
      and_true, CMemLegal] <;> rfl

theorem encodeCltype_reads {cfg : Config} {op : Opcode} {rd rs1 imm line : ℤ} {w : BitVec 16}
    (hop : op = .cLw ∨ op = .cLd) (h : encodeCltype cfg op rd rs1 imm line = .ok w) :
    decodeC cfg.xlen w = some (op, .load rd rs1 (imm % 2 ^ 32)) := by
  rcases hop with rfl | rfl <;>
    simp only [encodeCltype, requireCForOp_bind, ite_error_eq_ok, cRegp_neg, not_not_prime,
      reduceCtorEq, ↓reduceIte, Except.ok.injEq] at h <;>
    obtain ⟨hav, ⟨hd, h1⟩, hr, rfl⟩ := h <;>
    have hd := field_cRegp hd <;> have h1 := field_cRegp h1
  · simp (disch := omega) only [decodeC, crs1', crs2', uimmW, putImmW, field_put,
      field_put_of_disjoint, field_low_ushiftRight, Nat.sub_self, cBuildTags_quadrant,
      cBuildTags_funct3]
    rw [Nat.zero_add, Nat.zero_add, Nat.zero_add, word_offset_bits (by omega) (by omega)]
    simp only [cEncodingTable, cRvAny, hd, h1, toNat_toU32]
  · have h64 := hav.xlen_eq_64 rfl
    simp (disch := omega) only [decodeC, crs1', crs2', uimmD, putImmD, field_put,
      field_put_of_disjoint, field_low_ushiftRight, Nat.sub_self, cBuildTags_quadrant,
      cBuildTags_funct3]
    rw [Nat.zero_add, Nat.zero_add, doubleword_offset_bits (by omega) (by omega)]
    simp only [cEncodingTable, cRv64, hd, h1, h64, toNat_toU32, ↓reduceIte]

theorem encodeCstype_accepts {cfg : Config} {op : Opcode} {rs1 rs2 imm line : ℤ}
    (hop : op = .cSw ∨ op = .cSd) (rd : ℤ) :
    (∃ w, encodeCstype cfg op rs1 rs2 imm line = .ok w) ↔ CMemLegal cfg op rd rs1 rs2 imm := by
  rcases hop with rfl | rfl <;>
    simp only [encodeCstype, requireCForOp_bind, ite_error_eq_ok, cRegp_neg, not_not_prime,
      reduceCtorEq, ↓reduceIte, not_offset_error, exists_and_left, Except.ok.injEq, exists_eq',
      and_true, CMemLegal] <;> rfl

theorem encodeCstype_reads {cfg : Config} {op : Opcode} {rs1 rs2 imm line : ℤ} {w : BitVec 16}
    (hop : op = .cSw ∨ op = .cSd) (h : encodeCstype cfg op rs1 rs2 imm line = .ok w) :
    decodeC cfg.xlen w = some (op, .store rs1 rs2 (imm % 2 ^ 32)) := by
  rcases hop with rfl | rfl <;>
    simp only [encodeCstype, requireCForOp_bind, ite_error_eq_ok, cRegp_neg, not_not_prime,
      reduceCtorEq, ↓reduceIte, Except.ok.injEq] at h <;>
    obtain ⟨hav, ⟨h1, h2⟩, hr, rfl⟩ := h <;>
    have h1 := field_cRegp h1 <;> have h2 := field_cRegp h2
  · simp (disch := omega) only [decodeC, crs1', crs2', uimmW, putImmW, field_put,
      field_put_of_disjoint, field_low_ushiftRight, Nat.sub_self, cBuildTags_quadrant,
      cBuildTags_funct3]
    rw [Nat.zero_add, Nat.zero_add, Nat.zero_add, word_offset_bits (by omega) (by omega)]
    simp only [cEncodingTable, cRvAny, h1, h2, toNat_toU32]
  · have h64 := hav.xlen_eq_64 rfl
    simp (disch := omega) only [decodeC, crs1', crs2', uimmD, putImmD, field_put,
      field_put_of_disjoint, field_low_ushiftRight, Nat.sub_self, cBuildTags_quadrant,
      cBuildTags_funct3]
    rw [Nat.zero_add, Nat.zero_add, doubleword_offset_bits (by omega) (by omega)]
    simp only [cEncodingTable, cRv64, h1, h2, h64, toNat_toU32, ↓reduceIte]

theorem encodeCitype_load_accepts {cfg : Config} {op : Opcode} {rd rs1 imm line : ℤ}
    (hop : op = .cLwsp ∨ op = .cLdsp) (rs2 : ℤ) :
    (∃ w, encodeCitype cfg op rd rs1 imm line = .ok w) ↔ CMemLegal cfg op rd rs1 rs2 imm := by
  rcases hop with rfl | rfl
  · simp only [encodeCitype, requireCForOp_bind, ite_error_eq_ok, exists_and_left, Except.ok.injEq,
      exists_eq', and_true, CMemLegal, not_not, ne_eq, not_or, not_lt, gt_iff_lt]
  · simp only [encodeCitype, requireCForOp_bind, ite_error_eq_ok, exists_and_left, Except.ok.injEq,
      exists_eq', and_true, CMemLegal, not_not, ne_eq, not_or, not_lt, gt_iff_lt]
    exact and_congr_right fun hav => and_iff_right (hav.xlen_eq_64 rfl)

theorem encodeCitype_lwsp_reads {cfg : Config} {rd rs1 imm line : ℤ} {w : BitVec 16}
    (hd : IsReg rd) (h : encodeCitype cfg .cLwsp rd rs1 imm line = .ok w) :
    decodeC cfg.xlen w = some (.cLwsp, .load rd rs1 imm) := by
  simp only [encodeCitype, requireCForOp_bind, ite_error_eq_ok, Except.ok.injEq, not_or, not_not,
    not_lt, gt_iff_lt, ne_eq] at h
  obtain ⟨-, h1, h0, ⟨hlo, h4, hhi⟩, rfl⟩ := h
  have hu := toNat_toU32 imm
  have hbits : field (toU32 imm) 5 1 * 2 ^ 5 + field (toU32 imm) 2 3 * 2 ^ 2 +
      field (toU32 imm) 6 2 * 2 ^ 6 = (toU32 imm).toNat := by
    simp only [field_eq_toNat]
    omega
  have himm : ((toU32 imm).toNat : ℤ) = imm := by omega
  simp (disch := omega) only [decodeC, crd, uimmLwsp, field_put, field_put_of_disjoint,
    field_low_ushiftRight, Nat.sub_self, cBuildTags_quadrant, cBuildTags_funct3]
  rw [Nat.zero_add, Nat.zero_add, Nat.zero_add, hbits, himm]
  simp only [cEncodingTable, cRvAny, field_low_reg hd, if_neg h0, h1]

/-- `c.ldsp` leaves the destination field zero, which is reserved. -/
theorem encodeCitype_ldsp_reads {cfg : Config} {rd rs1 imm line : ℤ} {w : BitVec 16}
    (h : encodeCitype cfg .cLdsp rd rs1 imm line = .ok w) : decodeC cfg.xlen w = none := by
  simp only [encodeCitype, requireCForOp_bind, ite_error_eq_ok, Except.ok.injEq, not_not] at h
  obtain ⟨-, h64, -, -, -, rfl⟩ := h
  have hrd : field (cBuildTags (cEncodingTable .cLdsp)) 7 5 = 0 := rfl
  simp (disch := omega) only [decodeC, crd, field_put_of_disjoint, cBuildTags_quadrant,
    cBuildTags_funct3, hrd]
  simp only [cEncodingTable, cRv64, h64, Nat.cast_zero, ↓reduceIte]

theorem encodeCsstype_accepts {cfg : Config} {op : Opcode} {rs1 rs2 imm line : ℤ}
    (hop : op = .cSwsp ∨ op = .cSdsp) (rd : ℤ) :
    (∃ w, encodeCsstype cfg op rs1 rs2 imm line = .ok w) ↔ CMemLegal cfg op rd rs1 rs2 imm := by
  rcases hop with rfl | rfl <;>
    simp only [encodeCsstype, requireCForOp_bind, ite_error_eq_ok, reduceCtorEq, ↓reduceIte,
      not_offset_error, exists_and_left, Except.ok.injEq, exists_eq', and_true, not_not, ne_eq,
      CMemLegal] <;> rfl

theorem stackStore_split (w : BitVec 16) {k : ℕ} (hk : k ≤ 5) :
    field w (7 + k) (6 - k) * 2 ^ k =
      (field w (7 + k) (5 - k) + 2 ^ (5 - k) * field w 12 1) * 2 ^ k := by
  rw [show 6 - k = 5 - k + 1 by omega, field_add, show 7 + k + (5 - k) = 12 by omega]

/-- The stack stores, with the logarithms of their scales. -/
def StackStore (op : Opcode) (k : ℕ) : Prop := op = .cSwsp ∧ k = 2 ∨ op = .cSdsp ∧ k = 3

def storedAt (k : ℕ) (rs2 imm : ℤ) : ℕ :=
  (field (toU32 rs2) k (5 - k) + 2 ^ (5 - k) * field (toU32 imm) (5 + k) 1) * 2 ^ k +
    field (toU32 rs2) 0 k * 2 ^ 6

theorem encodeCsstype_reads {cfg : Config} {op : Opcode} {k : ℕ} {rs1 rs2 imm line : ℤ}
    {w : BitVec 16} (hop : StackStore op k)
    (h : encodeCsstype cfg op rs1 rs2 imm line = .ok w) :
    decodeC cfg.xlen w =
      some (op, .store 2 (field (toU32 imm) k 5 : ℕ) (storedAt k rs2 imm : ℕ)) := by
  obtain ⟨rfl, rfl⟩ | ⟨rfl, rfl⟩ := hop <;>
    simp only [encodeCsstype, requireCForOp_bind, ite_error_eq_ok, reduceCtorEq, ↓reduceIte,
      Except.ok.injEq] at h <;>
    obtain ⟨hav, -, -, rfl⟩ := h
  · have hsplit := stackStore_split (k := 2)
    simp only [Nat.reduceAdd, Nat.reduceSub] at hsplit
    simp (disch := omega) only [decodeC, crs2, uimmSwsp, hsplit, field_put, field_put_of_disjoint,
      field_low, field_ushiftRight, Nat.sub_self, Nat.reduceSub, cBuildTags_quadrant,
      cBuildTags_funct3]
    rfl
  · have h64 := hav.xlen_eq_64 rfl
    have hsplit := stackStore_split (k := 3)
    simp only [Nat.reduceAdd, Nat.reduceSub] at hsplit
    simp (disch := omega) only [decodeC, crs2, uimmSdsp, hsplit, field_put, field_put_of_disjoint,
      field_low, field_ushiftRight, Nat.sub_self, Nat.reduceSub, cBuildTags_quadrant,
      cBuildTags_funct3]
    simp only [cEncodingTable, cRv64, h64, ↓reduceIte]
    rfl

/-- Offset and register in each other's place are what they were if the six bits of the scaled
offset repeat with period `k`. -/
theorem stackStore_swap {k : ℕ} (hk : k = 2 ∨ k = 3) : ∀ r < 32, ∀ v < 64,
    (2 ^ k * v / 2 ^ k % 32 = r ∧
      (r / 2 ^ k % 2 ^ (5 - k) + 2 ^ (5 - k) * (2 ^ k * v / 2 ^ (5 + k) % 2)) * 2 ^ k +
        r % 2 ^ k * 64 = 2 ^ k * v) ↔
      2 ^ k * v % (2 ^ k * (63 / (2 ^ k - 1))) = 0 ∧ r = 2 ^ k * v / 2 ^ k % 32 := by
  obtain rfl | rfl := hk <;> decide +kernel

theorem stackStore_exact_iff {op : Opcode} {k : ℕ} (hop : StackStore op k) {rs2 imm : ℤ}
    (h2 : IsReg rs2) (hoff : WrappedOffset (2 ^ k) (2 ^ k * 63) imm) :
    ((field (toU32 imm) k 5 : ℕ) = rs2 ∧ (storedAt k rs2 imm : ℤ) = imm) ↔
      CMemExact op rs2 imm := by
  have hk : k = 2 ∨ k = 3 := by
    obtain ⟨-, rfl⟩ | ⟨-, rfl⟩ := hop
    · exact .inl rfl
    · exact .inr rfl
  have hexact : CMemExact op rs2 imm ↔
      imm < 2 ^ 32 ∧ imm % (2 ^ k * (63 / (2 ^ k - 1)) : ℕ) = 0 ∧ rs2 = imm / 2 ^ k % 32 := by
    obtain ⟨rfl, rfl⟩ | ⟨rfl, rfl⟩ := hop <;> rfl
  obtain ⟨hr0, hr⟩ := h2
  obtain ⟨h0, hmod, htop⟩ := hoff
  have hu := toNat_toU32 imm
  have hR := toNat_toU32 rs2
  rw [hexact]
  simp only [storedAt, field_eq_toNat]
  generalize (toU32 imm).toNat = u at hu
  generalize (toU32 rs2).toNat = r at hR
  obtain ⟨v, hv, rfl⟩ : ∃ v, v < 64 ∧ u = 2 ^ k * v := by
    refine ⟨u / 2 ^ k, ?_, ?_⟩ <;> obtain rfl | rfl := hk <;> omega
  have hswap := stackStore_swap hk r (by omega) v hv
  by_cases hlt : imm < 2 ^ 32
  · have himm : imm = (2 ^ k * v : ℕ) := by omega
    have hrs2 : rs2 = (r : ℕ) := by omega
    simp only [hlt, true_and]
    simp only [himm, hrs2]
    norm_cast
    simpa only [pow_zero, Nat.div_one, Nat.reducePow, pow_one] using hswap
  · simp only [hlt, false_and, iff_false]
    obtain rfl | rfl := hk <;> omega

def isCMem (op : Opcode) : Bool :=
  op = .cLw || op = .cLd || op = .cSw || op = .cSd || op = .cLwsp || op = .cLdsp || op = .cSwsp ||
    op = .cSdsp

theorem CMemLegal.nonneg {cfg : Config} {op : Opcode} {rd rs1 rs2 imm : ℤ}
    (h : CMemLegal cfg op rd rs1 rs2 imm) : 0 ≤ imm := by
  obtain ⟨-, h⟩ := h
  split at h
  case h_1 | h_2 | h_3 | h_4 => exact h.2.1
  case h_5 | h_6 => exact h.2.2.1
  case h_7 | h_8 => exact h.2.1
  case h_9 => exact h.elim

theorem emod_eq_self_iff {imm : ℤ} (h0 : 0 ≤ imm) : imm % 2 ^ 32 = imm ↔ imm < 2 ^ 32 := by
  omega

theorem encodeCltype_exact_iff (cfg : Config) {op : Opcode} (rd rs1 rs2 imm line : ℤ)
    (hop : op = .cLw ∨ op = .cLd) :
    (∀ w, encodeCltype cfg op rd rs1 imm line = .ok w →
        decodeC cfg.xlen w = some (op, .load rd rs1 imm)) ↔
      (CMemLegal cfg op rd rs1 rs2 imm → imm < 2 ^ 32) := by
  have hacc : (∃ w, encodeCltype cfg op rd rs1 imm line = .ok w) ↔ CMemLegal cfg op rd rs1 rs2 imm :=
    encodeCltype_accepts hop rs2
  refine forall_ok_iff hacc fun w hw => ?_
  have hlegal := hacc.mp ⟨w, hw⟩
  rw [encodeCltype_reads hop hw, ← emod_eq_self_iff hlegal.nonneg]
  simp only [Option.some.injEq, Prod.mk.injEq, COperands.load.injEq, true_and]

theorem encodeCstype_exact_iff (cfg : Config) {op : Opcode} (rd rs1 rs2 imm line : ℤ)
    (hop : op = .cSw ∨ op = .cSd) :
    (∀ w, encodeCstype cfg op rs1 rs2 imm line = .ok w →
        decodeC cfg.xlen w = some (op, .store rs1 rs2 imm)) ↔
      (CMemLegal cfg op rd rs1 rs2 imm → imm < 2 ^ 32) := by
  have hacc : (∃ w, encodeCstype cfg op rs1 rs2 imm line = .ok w) ↔ CMemLegal cfg op rd rs1 rs2 imm :=
    encodeCstype_accepts hop rd
  refine forall_ok_iff hacc fun w hw => ?_
  have hlegal := hacc.mp ⟨w, hw⟩
  rw [encodeCstype_reads hop hw, ← emod_eq_self_iff hlegal.nonneg]
  simp only [Option.some.injEq, Prod.mk.injEq, COperands.store.injEq, true_and]

theorem encodeCsstype_exact_iff (cfg : Config) {op : Opcode} (rd rs1 rs2 imm line : ℤ)
    (hop : op = .cSwsp ∨ op = .cSdsp) (h2 : IsReg rs2) :
    (∀ w, encodeCsstype cfg op rs1 rs2 imm line = .ok w →
        decodeC cfg.xlen w = some (op, .store rs1 rs2 imm)) ↔
      (CMemLegal cfg op rd rs1 rs2 imm → CMemExact op rs2 imm) := by
  have hacc : (∃ w, encodeCsstype cfg op rs1 rs2 imm line = .ok w) ↔ CMemLegal cfg op rd rs1 rs2 imm :=
    encodeCsstype_accepts hop rd
  refine forall_ok_iff hacc fun w hw => ?_
  have hlegal := (hacc.mp ⟨w, hw⟩).2
  obtain ⟨k, hk, hsp, hoff⟩ : ∃ k, StackStore op k ∧ rs1 = 2 ∧
      WrappedOffset (2 ^ k) (2 ^ k * 63) imm := by
    rcases hop with rfl | rfl
    · exact ⟨2, .inl ⟨rfl, rfl⟩, hlegal⟩
    · exact ⟨3, .inr ⟨rfl, rfl⟩, hlegal⟩
  rw [encodeCsstype_reads hk hw, ← stackStore_exact_iff hk h2 hoff, hsp]
  simp only [Option.some.injEq, Prod.mk.injEq, COperands.store.injEq, true_and]

theorem encodeCitype_load_exact_iff (cfg : Config) {op : Opcode} (rd rs1 rs2 imm line : ℤ)
    (hop : op = .cLwsp ∨ op = .cLdsp) (hd : IsReg rd) :
    (∀ w, encodeCitype cfg op rd rs1 imm line = .ok w →
        decodeC cfg.xlen w = some (op, .load rd rs1 imm)) ↔
      (CMemLegal cfg op rd rs1 rs2 imm → CMemExact op rs2 imm) := by
  have hacc : (∃ w, encodeCitype cfg op rd rs1 imm line = .ok w) ↔ CMemLegal cfg op rd rs1 rs2 imm :=
    encodeCitype_load_accepts hop rs2
  refine forall_ok_iff hacc fun w hw => ?_
  rcases hop with rfl | rfl
  · exact iff_of_true (encodeCitype_lwsp_reads hd hw) trivial
  · rw [encodeCitype_ldsp_reads hw]
    exact iff_of_false (by simp) id

/-- An accepted load or store reads back as itself exactly under `CMemExact`. -/
theorem c_mem_roundtrip_iff (cfg : Config) (op : Opcode) (rd rs1 rs2 imm line : ℤ)
    (hop : isCMem op) (hd : IsReg rd) (h2 : IsReg rs2) :
    (∀ w, cEncodeInstruction cfg op (cEncodingTable op).fmt rd rs1 rs2 imm line = .ok w →
        decodeC cfg.xlen w = some (op, cOperandsOf op rd rs1 rs2 imm)) ↔
      (CMemLegal cfg op rd rs1 rs2 imm → CMemExact op rs2 imm) := by
  simp only [isCMem, Bool.or_eq_true, decide_eq_true_eq] at hop
  obtain ((((((rfl | rfl) | rfl) | rfl) | rfl) | rfl) | rfl) | rfl := hop
  · exact encodeCltype_exact_iff cfg rd rs1 rs2 imm line (.inl rfl)
  · exact encodeCltype_exact_iff cfg rd rs1 rs2 imm line (.inr rfl)
  · exact encodeCstype_exact_iff cfg rd rs1 rs2 imm line (.inl rfl)
  · exact encodeCstype_exact_iff cfg rd rs1 rs2 imm line (.inr rfl)
  · exact encodeCitype_load_exact_iff cfg rd rs1 rs2 imm line (.inl rfl) hd
  · exact encodeCitype_load_exact_iff cfg rd rs1 rs2 imm line (.inr rfl) hd
  · exact encodeCsstype_exact_iff cfg rd rs1 rs2 imm line (.inl rfl) h2
  · exact encodeCsstype_exact_iff cfg rd rs1 rs2 imm line (.inr rfl) h2

theorem c_mem_roundtrip_iff_swsp :
    (∀ w, cEncodeInstruction (passSetArch 32 false true false) .cSwsp .css 0 2 21 84 1 = .ok w →
        decodeC 32 w = some (.cSwsp, .store 2 21 84)) ↔
      (CMemLegal (passSetArch 32 false true false) .cSwsp 0 2 21 84 → CMemExact .cSwsp 21 84) :=
  c_mem_roundtrip_iff (passSetArch 32 false true false) .cSwsp 0 2 21 84 1 rfl (by decide)
    (by decide)

/-- `c.swsp x1, 4(sp)` reads back as a store of `x1` at 64. -/
theorem c_swsp_4_misread :
    ¬ ∀ w, cEncodeInstruction (passSetArch 32 false true false) .cSwsp .css 0 2 1 4 1 = .ok w →
      decodeC 32 w = some (.cSwsp, .store 2 1 4) := by
  intro h
  have h64 : decodeC 32 0xC086 = some (.cSwsp, .store 2 1 64) := by decide
  exact absurd (h64.symm.trans (h 0xC086 rfl)) (by decide)

end RvAssembler
