import RvAssembler.CFields

namespace RvAssembler

open Bits

def isCAlu : Opcode → Bool
  | .cMv | .cAdd | .cJr | .cJalr | .cEbreak | .cSub | .cXor | .cOr | .cAnd | .cSubw | .cAddw
  | .cAddi | .cAddiw | .cLi | .cLui | .cSlli | .cSrli | .cSrai | .cAndi => true
  | _ => false

def IsImm6 (imm : ℤ) : Prop := -32 ≤ imm ∧ imm ≤ 31

def CAluLegal (cfg : Config) (op : Opcode) (rd rs1 rs2 imm : ℤ) : Prop :=
  CAvailable cfg op ∧
    match op with
    | .cMv => rd ≠ 0 ∧ rs2 ≠ 0 ∧ rs1 = 0
    | .cAdd => rd ≠ 0 ∧ rs2 ≠ 0 ∧ rs1 = rd
    | .cJr | .cJalr => rs1 ≠ 0 ∧ rs2 = 0
    | .cEbreak => rd = 0 ∧ rs1 = 0 ∧ rs2 = 0
    | .cSub | .cXor | .cOr | .cAnd | .cSubw | .cAddw => IsPrime rd ∧ IsPrime rs2 ∧ rs1 = rd
    | .cAddi => (rd = 0 ∧ imm = 0) ∨ (rd ≠ 0 ∧ IsImm6 imm)
    | .cAddiw => rd ≠ 0 ∧ IsImm6 imm
    | .cLi => rd ≠ 0 ∧ IsImm6 imm ∧ imm ≠ 0
    | .cLui => rd ≠ 0 ∧ rd ≠ 2 ∧ IsImm6 imm ∧ imm ≠ 0
    | .cSlli => rd ≠ 0 ∧ 0 ≤ imm ∧ imm ≤ ciMaxSh cfg
    | .cSrli | .cSrai => IsPrime rd ∧ 0 ≤ imm ∧ imm ≤ ciMaxSh cfg
    | .cAndi => IsPrime rd ∧ IsImm6 imm
    | _ => False

def ciHalf (op : Opcode) (rd imm : ℤ) : BitVec 16 :=
  putImm5_0Ci (put (cBuildTags (cEncodingTable op)) 11 7 (low 5 (toU32 rd))) (low 6 (toU32 imm))

def ciHalf' (op : Opcode) (rd imm : ℤ) : BitVec 16 :=
  putImm5_0Ci (put (cBuildTags (cEncodingTable op)) 9 7 (low 3 (toU32 (cRegp rd))))
    (low 6 (toU32 imm))

theorem ci_uimm (x : BitVec 32) : field x 5 1 * 2 ^ 5 + field x 0 5 = field x 0 6 := by
  have h := field_add x 0 5 1
  simp only [Nat.zero_add, Nat.reduceAdd] at h
  omega

theorem ciHalf_fields (op : Opcode) {rd : ℤ} (hd : IsReg rd) (imm : ℤ) :
    (field (ciHalf op rd imm) 0 2 = (cEncodingTable op).quadrant ∧
      field (ciHalf op rd imm) 13 3 = (cEncodingTable op).funct3) ∧
      crd (ciHalf op rd imm) = rd ∧ uimmCI (ciHalf op rd imm) = field (toU32 imm) 0 6 ∧
      field (ciHalf op rd imm) 12 1 = field (toU32 imm) 5 1 := by
  have hrd := field_low_reg hd
  rw [← ci_uimm]
  simp (disch := omega) only [ciHalf, putImm5_0Ci, crd, uimmCI, field_put, field_put_of_disjoint,
    field_low, field_ushiftRight, Nat.sub_self, cBuildTags_quadrant, cBuildTags_funct3] at hrd ⊢
  simp only [hrd, and_self]

theorem ciHalf'_fields (op : Opcode) {rd : ℤ} (hd : IsPrime rd) (imm : ℤ) :
    (field (ciHalf' op rd imm) 0 2 = (cEncodingTable op).quadrant ∧
      field (ciHalf' op rd imm) 13 3 = (cEncodingTable op).funct3 ∧
      field (ciHalf' op rd imm) 10 2 = field (cBuildTags (cEncodingTable op)) 10 2) ∧
      crs1' (ciHalf' op rd imm) = rd ∧ uimmCI (ciHalf' op rd imm) = field (toU32 imm) 0 6 ∧
      field (ciHalf' op rd imm) 12 1 = field (toU32 imm) 5 1 := by
  have hrd := field_cRegp hd
  rw [← ci_uimm]
  simp (disch := omega) only [ciHalf', putImm5_0Ci, crs1', uimmCI, field_put,
    field_put_of_disjoint, field_low, field_ushiftRight, Nat.sub_self, cBuildTags_quadrant,
    cBuildTags_funct3] at hrd ⊢
  simp only [hrd, and_self]

theorem uimm6_eq {imm : ℤ} (h0 : 0 ≤ imm) (h : imm < 64) : (field (toU32 imm) 0 6 : ℤ) = imm := by
  rw [field_toU32 _ (by decide)]
  omega

theorem imm6_eq {imm : ℤ} (h : IsImm6 imm) : signed 6 (field (toU32 imm) 0 6) = imm := by
  obtain ⟨hlo, hhi⟩ := h
  refine signed_of_emod ?_ (by omega) (by omega)
  rw [field_toU32 _ (by decide)]
  omega

def crHalf (op : Opcode) (rd rs2 : ℤ) : BitVec 16 :=
  let info := cEncodingTable op
  tag16 3 13 info.funct3 ||| tag16 1 12 info.op12.val ||| reg16 5 rd 7 ||| reg16 5 rs2 2 |||
    tag16 2 0 info.quadrant

def caHalf (op : Opcode) (rd rs2 : ℤ) : BitVec 16 :=
  let info := cEncodingTable op
  tag16 3 13 info.funct3 ||| tag16 1 12 info.op12.val ||| tag16 2 10 info.op11_10.val |||
    reg16 3 (cRegp rd) 7 ||| tag16 2 5 info.op6_5.val ||| reg16 3 (cRegp rs2) 2 |||
    tag16 2 0 info.quadrant

theorem field_reg16 (k lo : ℕ) {r : ℤ} (h0 : 0 ≤ r) (h : r < 2 ^ k) (hlo : lo + k ≤ 16) :
    (field (reg16 k r lo) lo k : ℤ) = r := by
  rw [reg16, field_low_shl _ le_rfl le_rfl hlo, Nat.sub_self, field_ofInt r (by omega), pow_zero,
    Int.ediv_one, Int.emod_eq_of_lt h0 h]

theorem field_tag16 (k lo n : ℕ) (hlo : lo + k ≤ 16) :
    field (tag16 k lo n) lo k = n % 2 ^ 16 % 2 ^ k := by
  rw [tag16, field_low_shl _ le_rfl le_rfl hlo, Nat.sub_self, field_ofNat, Nat.shiftRight_zero]

theorem crHalf_fields (op : Opcode) {rd rs2 : ℤ} (hd : IsReg rd) (h2 : IsReg rs2) :
    crd (crHalf op rd rs2) = rd ∧ crs2 (crHalf op rd rs2) = rs2 ∧
      field (crHalf op rd rs2) 0 2 = (cEncodingTable op).quadrant % 2 ^ 16 % 2 ^ 2 ∧
      field (crHalf op rd rs2) 13 3 = (cEncodingTable op).funct3 % 2 ^ 16 % 2 ^ 3 ∧
      field (crHalf op rd rs2) 12 1 = (cEncodingTable op).op12.val % 2 ^ 16 % 2 ^ 1 := by
  have hrd := field_reg16 5 7 hd.1 hd.2 (by decide)
  have hrs2 := field_reg16 5 2 h2.1 h2.2 (by decide)
  have hq := field_tag16 2 0 (cEncodingTable op).quadrant (by decide)
  have h3 := field_tag16 3 13 (cEncodingTable op).funct3 (by decide)
  have h12 := field_tag16 1 12 (cEncodingTable op).op12.val (by decide)
  simp only [reg16, tag16] at hrd hrs2 hq h3 h12
  simp (disch := omega) only [crHalf, crd, crs2, tag16, reg16, field_or, field_shl_zero,
    field_low_shl_above, Nat.zero_or, Nat.or_zero, hrd, hrs2, hq, h3, h12, and_self]

theorem caHalf_fields (op : Opcode) {rd rs2 : ℤ} (hd : IsPrime rd) (h2 : IsPrime rs2) :
    crs1' (caHalf op rd rs2) = rd ∧ crs2' (caHalf op rd rs2) = rs2 ∧
      field (caHalf op rd rs2) 0 2 = (cEncodingTable op).quadrant % 2 ^ 16 % 2 ^ 2 ∧
      field (caHalf op rd rs2) 13 3 = (cEncodingTable op).funct3 % 2 ^ 16 % 2 ^ 3 ∧
      field (caHalf op rd rs2) 12 1 = (cEncodingTable op).op12.val % 2 ^ 16 % 2 ^ 1 ∧
      field (caHalf op rd rs2) 10 2 = (cEncodingTable op).op11_10.val % 2 ^ 16 % 2 ^ 2 ∧
      field (caHalf op rd rs2) 5 2 = (cEncodingTable op).op6_5.val % 2 ^ 16 % 2 ^ 2 := by
  have hd' := cRegp_of_isPrime hd
  have h2' := cRegp_of_isPrime h2
  obtain ⟨hd1, hd2⟩ := hd
  obtain ⟨h21, h22⟩ := h2
  have hrd := field_reg16 3 7 (r := cRegp rd) (by omega) (by omega) (by decide)
  have hrs2 := field_reg16 3 2 (r := cRegp rs2) (by omega) (by omega) (by decide)
  have hq := field_tag16 2 0 (cEncodingTable op).quadrant (by decide)
  have h3 := field_tag16 3 13 (cEncodingTable op).funct3 (by decide)
  have h12 := field_tag16 1 12 (cEncodingTable op).op12.val (by decide)
  have h10 := field_tag16 2 10 (cEncodingTable op).op11_10.val (by decide)
  have h5 := field_tag16 2 5 (cEncodingTable op).op6_5.val (by decide)
  simp only [reg16, tag16] at hrd hrs2 hq h3 h12 h10 h5
  simp (disch := omega) only [caHalf, crs1', crs2', tag16, reg16, field_or, field_shl_zero,
    field_low_shl_above, Nat.zero_or, Nat.or_zero, hrd, hrs2, hq, h3, h12, h10, h5, and_true]
  omega

def cAluHalf (op : Opcode) (rd rs1 rs2 imm : ℤ) : BitVec 16 :=
  match op with
  | .cJr | .cJalr => crHalf op rs1 rs2
  | .cMv | .cAdd | .cEbreak => crHalf op rd rs2
  | .cSub | .cXor | .cOr | .cAnd | .cSubw | .cAddw => caHalf op rd rs2
  | .cSrli | .cSrai | .cAndi => ciHalf' op rd imm
  | _ => ciHalf op rd imm

theorem encodeCrtype_ok {cfg : Config} {op : Opcode} {rd rs1 rs2 imm line : ℤ} {w : BitVec 16}
    (hfmt : (cEncodingTable op).fmt = .cr) : encodeCrtype cfg op rd rs1 rs2 line = .ok w ↔
      CAluLegal cfg op rd rs1 rs2 imm ∧ cAluHalf op rd rs1 rs2 imm = w := by
  cases op <;> simp [cEncodingTable, cRvAny, cRv64, cRv32] at hfmt <;>
    simp [encodeCrtype, requireCForOp_bind, ite_error_eq_ok, CAluLegal, cAluHalf, crHalf,
      and_assoc]

theorem cRegp_checks {rd rs1 rs2 : ℤ} :
    ¬ (cRegp rd = -1 ∨ cRegp rs1 = -1 ∨ cRegp rs2 = -1 ∨ cRegp rd ≠ cRegp rs1) ↔
      IsPrime rd ∧ IsPrime rs2 ∧ rs1 = rd := by
  simp only [cRegp, IsPrime]
  split_ifs <;> omega

theorem encodeCatype_ok {cfg : Config} {op : Opcode} {rd rs1 rs2 imm line : ℤ} {w : BitVec 16}
    (hfmt : (cEncodingTable op).fmt = .ca) : encodeCatype cfg op rd rs1 rs2 line = .ok w ↔
      CAluLegal cfg op rd rs1 rs2 imm ∧ cAluHalf op rd rs1 rs2 imm = w := by
  simp only [encodeCatype, requireCForOp_bind, ite_error_eq_ok, cRegp_checks, Except.ok.injEq]
  cases op <;> simp only [cEncodingTable, cRvAny, cRv64, cRv32, reduceCtorEq] at hfmt <;>
    simp only [CAluLegal, cAluHalf, caHalf, and_assoc]

theorem imm6_check {imm : ℤ} : ¬ (imm < -32 ∨ imm > 31) ↔ IsImm6 imm := by
  rw [IsImm6]
  omega

theorem li_check {imm : ℤ} :
    ¬ (imm < -32 ∨ imm > 31 ∨ imm = 0) ↔ IsImm6 imm ∧ imm ≠ 0 := by
  rw [IsImm6]
  omega

theorem lui_check {imm : ℤ} :
    ¬ (imm = 0 ∨ imm < -32 ∨ imm > 31) ↔ IsImm6 imm ∧ imm ≠ 0 := by
  rw [IsImm6]
  omega

theorem lui_rd_check {rd : ℤ} : ¬ (rd = 0 ∨ rd = 2) ↔ rd ≠ 0 ∧ rd ≠ 2 := not_or

theorem shamt_check {cfg : Config} {imm : ℤ} :
    ¬ (imm < 0 ∨ imm > ciMaxSh cfg) ↔ 0 ≤ imm ∧ imm ≤ ciMaxSh cfg := by
  omega

theorem encodeCitype_ok {cfg : Config} {op : Opcode} {rd rs1 rs2 imm line : ℤ} {w : BitVec 16}
    (hfmt : (cEncodingTable op).fmt = .ci) (halu : isCAlu op) :
    encodeCitype cfg op rd rs1 imm line = .ok w ↔
      CAluLegal cfg op rd rs1 rs2 imm ∧ cAluHalf op rd rs1 rs2 imm = w := by
  cases op <;> simp only [cEncodingTable, cRvAny, cRv64, cRv32, reduceCtorEq] at hfmt <;>
    simp only [isCAlu, Bool.false_eq_true] at halu <;>
    simp only [encodeCitype, requireCForOp_bind, ite_error_eq_ok, CAluLegal, cAluHalf, cRegp_neg,
      Except.ok.injEq, and_assoc, imm6_check, li_check, lui_check, lui_rd_check, shamt_check,
      not_not, ciHalf, ciHalf', ne_eq] <;> clear hfmt halu
  case cAddi =>
    refine and_congr_right fun _ => ?_
    by_cases hnop : rd = 0 ∧ imm = 0
    · obtain ⟨rfl, rfl⟩ := hnop
      simp only [and_self, ↓reduceIte, true_or, true_and, Except.ok.injEq]
      rfl
    · simp only [hnop, ↓reduceIte, ite_error_eq_ok, imm6_check, false_or, and_assoc,
        Except.ok.injEq]
  case cAddiw => exact and_congr_right fun hav => and_iff_right (hav.xlen_eq_64 rfl)

theorem cEncodeAlu_ok {cfg : Config} {op : Opcode} {rd rs1 rs2 imm line : ℤ} {w : BitVec 16}
    (halu : isCAlu op) :
    cEncodeInstruction cfg op (cEncodingTable op).fmt rd rs1 rs2 imm line = .ok w ↔
      CAluLegal cfg op rd rs1 rs2 imm ∧ cAluHalf op rd rs1 rs2 imm = w := by
  have hfmt : (cEncodingTable op).fmt = .cr ∨ (cEncodingTable op).fmt = .ca ∨
      (cEncodingTable op).fmt = .ci := by
    revert halu
    cases op <;> decide
  rcases hfmt with h | h | h <;> rw [h]
  · exact encodeCrtype_ok h
  · exact encodeCatype_ok h
  · exact encodeCitype_ok h halu

theorem decodeC_crHalf {cfg : Config} {op : Opcode} {rd rs1 rs2 imm : ℤ}
    (hfmt : (cEncodingTable op).fmt = .cr) (hd : IsReg rd) (h1 : IsReg rs1) (h2 : IsReg rs2)
    (hl : CAluLegal cfg op rd rs1 rs2 imm) :
    decodeC cfg.xlen (cAluHalf op rd rs1 rs2 imm) = some (op, cOperandsOf op rd rs1 rs2 imm) := by
  obtain ⟨-, hl⟩ := hl
  have hw := crHalf_fields op hd h2
  have hw1 := crHalf_fields op h1 h2
  cases op <;> simp only [cEncodingTable, cRvAny, cRv64, cRv32, reduceCtorEq] at hfmt <;>
    simp only [cEncodingTable, cRvAny, CTag.val, Option.getD_some, Nat.reduceMod, Nat.reducePow]
      at hw hw1 <;>
    simp_all [decodeC, decodeCReg, cAluHalf, cOperandsOf]

theorem shamt_lt {cfg : Config} {imm : ℤ} (h : imm ≤ ciMaxSh cfg) : imm < 64 := by
  rw [ciMaxSh] at h
  split_ifs at h <;> omega

theorem shamt_bit {cfg : Config} {imm : ℤ} (h0 : 0 ≤ imm) (h : imm ≤ ciMaxSh cfg) :
    cfg.xlen = 64 ∨ field (toU32 imm) 5 1 = 0 := by
  refine or_iff_not_imp_left.mpr fun hx => ?_
  have hf : (field (toU32 imm) 5 1 : ℤ) = imm / 2 ^ 5 % 2 ^ 1 := field_toU32 imm (by decide)
  rw [ciMaxSh, if_neg hx] at h
  omega

theorem decodeC_ciHalf' {cfg : Config} {op : Opcode} {rd rs1 rs2 imm : ℤ}
    (hop : op = .cSrli ∨ op = .cSrai ∨ op = .cAndi) (hl : CAluLegal cfg op rd rs1 rs2 imm) :
    decodeC cfg.xlen (ciHalf' op rd imm) = some (op, .imm rd imm) := by
  obtain ⟨-, hl⟩ := hl
  have hd : IsPrime rd := by rcases hop with rfl | rfl | rfl <;> exact hl.1
  obtain ⟨⟨hq, h3, h10⟩, hrd, hu, h12⟩ := ciHalf'_fields op hd imm
  rcases hop with rfl | rfl | rfl
  · have hbit := shamt_bit hl.2.1 hl.2.2
    have h10 : field (ciHalf' .cSrli rd imm) 10 2 = 0 := h10
    simp only [decodeC, hq, h3, cEncodingTable, cRvAny, decodeCAlu, h10, h12, hrd, hu,
      decide_eq_true_eq, if_pos hbit, uimm6_eq hl.2.1 (shamt_lt hl.2.2)]
  · have hbit := shamt_bit hl.2.1 hl.2.2
    have h10 : field (ciHalf' .cSrai rd imm) 10 2 = 1 := h10
    simp only [decodeC, hq, h3, cEncodingTable, cRvAny, decodeCAlu, h10, h12, hrd, hu,
      decide_eq_true_eq, if_pos hbit, uimm6_eq hl.2.1 (shamt_lt hl.2.2)]
  · have himm : immCI (ciHalf' .cAndi rd imm) = imm := by rw [immCI, hu, imm6_eq hl.2]
    have h10 : field (ciHalf' .cAndi rd imm) 10 2 = 2 := h10
    simp only [decodeC, hq, h3, cEncodingTable, cRvAny, decodeCAlu, h10, hrd, himm]

theorem decodeC_ciHalf {cfg : Config} {op : Opcode} {rd rs1 rs2 imm : ℤ}
    (hfmt : (cEncodingTable op).fmt = .ci) (halu : isCAlu op) (hd : IsReg rd)
    (hl : CAluLegal cfg op rd rs1 rs2 imm) :
    decodeC cfg.xlen (cAluHalf op rd rs1 rs2 imm) = some (op, cOperandsOf op rd rs1 rs2 imm) := by
  have ⟨hav, hops⟩ := hl
  obtain ⟨⟨hq, h3⟩, hrd, hu, h12⟩ := ciHalf_fields op hd imm
  cases op <;> simp only [cEncodingTable, cRvAny, cRv64, cRv32, reduceCtorEq] at hfmt <;>
    simp only [isCAlu, Bool.false_eq_true] at halu <;>
    simp only [cEncodingTable, cRvAny, cRv64] at hq h3 <;>
    simp only [cAluHalf, cOperandsOf]
  case cAddi =>
    have himm : immCI (ciHalf .cAddi rd imm) = imm := by
      rw [immCI, hu, imm6_eq]
      rcases hops with ⟨-, rfl⟩ | ⟨-, h⟩
      · exact ⟨by decide, by decide⟩
      · exact h
    -- `c.nop` is the only one with `x0`
    have hnop : ¬ (rd = 0 ∧ imm ≠ 0) := by
      rintro ⟨h0, hne⟩
      rcases hops with ⟨-, h⟩ | ⟨h, -⟩ <;> contradiction
    simp only [decodeC, hq, h3, hrd, himm, if_neg hnop]
  case cAddiw =>
    have himm : immCI (ciHalf .cAddiw rd imm) = imm := by rw [immCI, hu, imm6_eq hops.2]
    simp only [decodeC, hq, h3, hrd, himm, if_neg hops.1, hav.xlen_eq_64 rfl, ↓reduceIte]
  case cLi =>
    have himm : immCI (ciHalf .cLi rd imm) = imm := by rw [immCI, hu, imm6_eq hops.2.1]
    simp only [decodeC, hq, h3, hrd, himm, if_neg hops.1]
  case cLui =>
    have himm : immCI (ciHalf .cLui rd imm) = imm := by rw [immCI, hu, imm6_eq hops.2.2.1]
    simp only [decodeC, hq, h3, hrd, himm, hops.1, hops.2.1, hops.2.2.2, or_self, ↓reduceIte]
  case cSlli =>
    have hbit : ¬ (rd = 0 ∨ (¬ cfg.xlen = 64 ∧ field (toU32 imm) 5 1 = 1)) := by
      rcases shamt_bit hops.2.1 hops.2.2 with h | h <;> simp [hops.1, h]
    simp only [decodeC, hq, h3, hrd, h12, hu, uimm6_eq hops.2.1 (shamt_lt hops.2.2)]
    rw [if_neg hbit]
  case cSrli => exact decodeC_ciHalf' (.inl rfl) hl
  case cSrai => exact decodeC_ciHalf' (.inr (.inl rfl)) hl
  case cAndi => exact decodeC_ciHalf' (.inr (.inr rfl)) hl

def IsCaWord (op : Opcode) : Prop := op = .cSubw ∨ op = .cAddw

theorem CAluLegal.ca {cfg : Config} {op : Opcode} {rd rs1 rs2 imm : ℤ}
    (hl : CAluLegal cfg op rd rs1 rs2 imm) (hfmt : (cEncodingTable op).fmt = .ca) :
    (IsPrime rd ∧ IsPrime rs2) ∧ cAluHalf op rd rs1 rs2 imm = caHalf op rd rs2 := by
  obtain ⟨-, hops⟩ := hl
  cases op <;> simp only [cEncodingTable, cRvAny, cRv64, cRv32, reduceCtorEq] at hfmt <;>
    exact ⟨⟨hops.1, hops.2.1⟩, rfl⟩

/-- `c.sub`, `c.xor`, `c.or` and `c.and` set bit 12, which makes them something else. -/
theorem decodeC_caHalf_ne {cfg : Config} {op : Opcode} {rd rs1 rs2 imm : ℤ}
    (hfmt : (cEncodingTable op).fmt = .ca) (hl : CAluLegal cfg op rd rs1 rs2 imm)
    (args : COperands) : decodeC cfg.xlen (cAluHalf op rd rs1 rs2 imm) ≠ some (op, args) := by
  obtain ⟨⟨hd, h2⟩, hw⟩ := hl.ca hfmt
  obtain ⟨-, -, hq, h3, h12, h10, h5⟩ := caHalf_fields op hd h2
  simp only [hw, decodeC, decodeCAlu, hq, h3, h12, h10, h5]
  cases op <;> simp [cEncodingTable, cRvAny, cRv64, cRv32, CTag.val] at hfmt ⊢

/-- `c.subw` and `c.addw` clear bit 11, which makes them `c.srai` by 32 to 47. -/
theorem decodeC_caHalf_word {cfg : Config} {op : Opcode} {rd rs1 rs2 imm : ℤ}
    (hword : IsCaWord op) (hl : CAluLegal cfg op rd rs1 rs2 imm) :
    ∃ k : ℤ, 32 ≤ k ∧ k < 48 ∧
      decodeC cfg.xlen (cAluHalf op rd rs1 rs2 imm) = some (.cSrai, .imm rd k) := by
  have hfmt : (cEncodingTable op).fmt = .ca := by rcases hword with rfl | rfl <;> rfl
  have h64 : cfg.xlen = 64 := by rcases hword with rfl | rfl <;> exact hl.1.xlen_eq_64 rfl
  obtain ⟨⟨hd, h2⟩, hw⟩ := hl.ca hfmt
  obtain ⟨hrd, -, hq, h3, h12, h10, h5⟩ := caHalf_fields op hd h2
  have hsplit : field (caHalf op rd rs2) 2 5 = field (caHalf op rd rs2) 2 3 +
      2 ^ 3 * field (caHalf op rd rs2) 5 2 := field_add _ 2 3 2
  have hlt := field_lt (caHalf op rd rs2) 2 3
  refine ⟨uimmCI (caHalf op rd rs2), ?_, ?_, ?_⟩
  · rw [uimmCI, h12]
    rcases hword with rfl | rfl <;> simp [cEncodingTable, cRv64, CTag.val]
  · rw [uimmCI, h12, hsplit, h5]
    rcases hword with rfl | rfl <;> simp only [cEncodingTable, cRv64, CTag.val, Option.getD_some] <;>
      omega
  · simp only [hw, decodeC, decodeCAlu, hq, h3, h12, h10, h64, hrd]
    rcases hword with rfl | rfl <;> rfl

/-- Reads a halfword by the encoder's own tags, under which bits 11:10 mark the CA
instructions whatever bit 12 says. -/
def decodeOwn (xlen : ℕ) (w : BitVec 16) : Option (Opcode × COperands) :=
  if field w 0 2 = 1 ∧ field w 13 3 = 4 ∧ field w 10 2 = 3 then
    match field w 5 2 with
    | 0 => some (.cSub, .regs (crs1' w) (crs2' w))
    | 1 => some (.cXor, .regs (crs1' w) (crs2' w))
    | 2 => some (.cOr, .regs (crs1' w) (crs2' w))
    | _ => some (.cAnd, .regs (crs1' w) (crs2' w))
  else decodeC xlen w

theorem decodeCAlu_ca {w : BitVec 16} {rv64 : Bool} {op : Opcode} {args : COperands}
    (h10 : field w 10 2 = 3) (h : decodeCAlu w rv64 = some (op, args)) :
    (cEncodingTable op).fmt = .ca := by
  simp only [decodeCAlu, h10] at h
  split at h <;> (try split_ifs at h) <;> (try cases h) <;> rfl

theorem decodeOwn_of_decodeC {xlen : ℕ} {w : BitVec 16} {op : Opcode} {args : COperands}
    (h : decodeC xlen w = some (op, args)) (hfmt : (cEncodingTable op).fmt ≠ .ca) :
    decodeOwn xlen w = some (op, args) := by
  rw [decodeOwn]
  split_ifs with hca
  · obtain ⟨hq, h3, h10⟩ := hca
    simp only [decodeC, hq, h3] at h
    exact absurd (decodeCAlu_ca h10 h) hfmt
  · exact h

theorem decodeOwn_caHalf {xlen : ℕ} {op : Opcode} {rd rs2 : ℤ}
    (hfmt : (cEncodingTable op).fmt = .ca) (hword : ¬ IsCaWord op) (hd : IsPrime rd)
    (h2 : IsPrime rs2) : decodeOwn xlen (caHalf op rd rs2) = some (op, .regs rd rs2) := by
  obtain ⟨hrd, hrs2, hq, h3, h12, h10, h5⟩ := caHalf_fields op hd h2
  simp only [decodeOwn, hq, h3, h10, h5, hrd, hrs2]
  rw [IsCaWord] at hword
  cases op <;> simp [cEncodingTable, cRvAny, cRv64, cRv32, CTag.val] at hfmt hword ⊢

theorem decodeC_cAluHalf {cfg : Config} {op : Opcode} {rd rs1 rs2 imm : ℤ} (halu : isCAlu op)
    (hfmt : (cEncodingTable op).fmt ≠ .ca) (hd : IsReg rd) (h1 : IsReg rs1) (h2 : IsReg rs2)
    (hl : CAluLegal cfg op rd rs1 rs2 imm) :
    decodeC cfg.xlen (cAluHalf op rd rs1 rs2 imm) = some (op, cOperandsOf op rd rs1 rs2 imm) := by
  have h : (cEncodingTable op).fmt = .cr ∨ (cEncodingTable op).fmt = .ci := by
    revert halu hfmt
    cases op <;> decide
  rcases h with h | h
  · exact decodeC_crHalf h hd h1 h2 hl
  · exact decodeC_ciHalf h halu hd hl

theorem decodeOwn_cAluHalf {cfg : Config} {op : Opcode} {rd rs1 rs2 imm : ℤ} (halu : isCAlu op)
    (hword : ¬ IsCaWord op) (hd : IsReg rd) (h1 : IsReg rs1) (h2 : IsReg rs2)
    (hl : CAluLegal cfg op rd rs1 rs2 imm) :
    decodeOwn cfg.xlen (cAluHalf op rd rs1 rs2 imm) = some (op, cOperandsOf op rd rs1 rs2 imm) := by
  by_cases hfmt : (cEncodingTable op).fmt = .ca
  · obtain ⟨⟨hd', h2'⟩, hw⟩ := hl.ca hfmt
    have hargs : cOperandsOf op rd rs1 rs2 imm = .regs rd rs2 := by
      revert hfmt
      cases op <;> simp [cEncodingTable, cRvAny, cRv64, cRv32, cOperandsOf]
    rw [hw, decodeOwn_caHalf hfmt hword hd' h2', hargs]
  · exact decodeOwn_of_decodeC (decodeC_cAluHalf halu hfmt hd h1 h2 hl) hfmt

theorem srai_half_eq : ∀ r < 8, ∀ k < 16, ciHalf' .cSrai (8 + (r : ℕ)) (32 + (k : ℕ)) =
    caHalf (if k < 8 then .cSubw else .cAddw) (8 + (r : ℕ)) (8 + (k % 8 : ℕ)) := by
  decide +kernel

theorem exists_ca_word_half {cfg : Config} {rd rs1 rs2 imm : ℤ} (line : ℤ)
    (hl : CAluLegal cfg .cSrai rd rs1 rs2 imm) (hlo : 32 ≤ imm) (hhi : imm < 48) :
    ∃ op rs2', IsCaWord op ∧ IsReg rs2' ∧ cEncodeInstruction cfg op (cEncodingTable op).fmt rd rd
      rs2' 0 line = .ok (cAluHalf .cSrai rd rs1 rs2 imm) := by
  obtain ⟨hav, hd, -, hmax⟩ := hl
  have h64 : cfg.xlen = 64 := by
    by_contra hx
    rw [ciMaxSh, if_neg hx] at hmax
    omega
  obtain ⟨r, hr, rfl⟩ : ∃ r : ℕ, r < 8 ∧ rd = 8 + (r : ℕ) :=
    ⟨(rd - 8).toNat, by have := hd.1; have := hd.2; omega, by have := hd.1; omega⟩
  obtain ⟨k, hk, rfl⟩ : ∃ k : ℕ, k < 16 ∧ imm = 32 + (k : ℕ) :=
    ⟨(imm - 32).toNat, by omega, by omega⟩
  have hp : IsPrime (8 + (k % 8 : ℕ)) := ⟨by omega, by omega⟩
  refine ⟨if k < 8 then .cSubw else .cAddw, 8 + (k % 8 : ℕ), ?_, ⟨by omega, by omega⟩, ?_⟩
  · split_ifs
    · exact .inl rfl
    · exact .inr rfl
  · have hw : cAluHalf .cSrai (8 + (r : ℕ)) rs1 rs2 (32 + (k : ℕ)) = _ := srai_half_eq r hr k hk
    rw [hw]
    split_ifs
    · exact (cEncodeAlu_ok rfl).mpr ⟨⟨⟨hav.1, rfl, by simp [h64, cEncodingTable, cRv64]⟩,
        hd, hp, rfl⟩, rfl⟩
    · exact (cEncodeAlu_ok rfl).mpr ⟨⟨⟨hav.1, rfl, by simp [h64, cEncodingTable, cRv64]⟩,
        hd, hp, rfl⟩, rfl⟩

/-- When an accepted instruction reads back as itself and shares its halfword with no other:
it is not of the CA format, nor one of the shifts the CA instructions on words collide with. -/
def CAluExact (op : Opcode) (imm : ℤ) : Prop :=
  (cEncodingTable op).fmt ≠ .ca ∧ ¬ (op = .cSrai ∧ 32 ≤ imm ∧ imm < 48)

/-- An accepted instruction reads back as itself, and no other shares its halfword, exactly
under `CAluExact`. -/
theorem c_alu_roundtrip_iff (cfg : Config) (op : Opcode) (rd rs1 rs2 imm line : ℤ)
    (halu : isCAlu op) (hd : IsReg rd) (h1 : IsReg rs1) (h2 : IsReg rs2) :
    (∀ w, cEncodeInstruction cfg op (cEncodingTable op).fmt rd rs1 rs2 imm line = .ok w →
        decodeC cfg.xlen w = some (op, cOperandsOf op rd rs1 rs2 imm) ∧
        ∀ op' rd' rs1' rs2' imm' line', isCAlu op' → IsReg rd' → IsReg rs1' → IsReg rs2' →
          cEncodeInstruction cfg op' (cEncodingTable op').fmt rd' rs1' rs2' imm' line' = .ok w →
          op' = op ∧ cOperandsOf op' rd' rs1' rs2' imm' = cOperandsOf op rd rs1 rs2 imm) ↔
      (CAluLegal cfg op rd rs1 rs2 imm → CAluExact op imm) := by
  have hacc : (∃ w, cEncodeInstruction cfg op (cEncodingTable op).fmt rd rs1 rs2 imm line = .ok w) ↔
      CAluLegal cfg op rd rs1 rs2 imm := by
    simp only [cEncodeAlu_ok halu, exists_and_left, exists_eq', and_true]
  refine forall_ok_iff hacc fun w hw => ?_
  obtain ⟨hl, rfl⟩ := (cEncodeAlu_ok halu).mp hw
  constructor
  · rintro ⟨hread, huniq⟩
    refine ⟨fun hca => decodeC_caHalf_ne hca hl _ hread, ?_⟩
    -- such a `c.srai` shares its halfword with a CA instruction on words
    rintro ⟨rfl, hlo, hhi⟩
    obtain ⟨op', rs2', hword, hreg, hw'⟩ := exists_ca_word_half line hl hlo hhi
    have halu' : isCAlu op' := by rcases hword with rfl | rfl <;> rfl
    have heq := (huniq op' rd rd rs2' 0 line halu' hd hd hreg hw').1
    rcases hword with rfl | rfl <;> cases heq
  · rintro ⟨hfmt, hsrai⟩
    have hword : ¬ IsCaWord op := by
      rintro (rfl | rfl) <;> exact hfmt rfl
    refine ⟨decodeC_cAluHalf halu hfmt hd h1 h2 hl, ?_⟩
    intro op' rd' rs1' rs2' imm' line' halu' hd' h1' h2' hw'
    obtain ⟨hl', hsame⟩ := (cEncodeAlu_ok halu').mp hw'
    have hread := decodeOwn_cAluHalf halu hword hd h1 h2 hl
    by_cases hword' : IsCaWord op'
    · obtain ⟨k, hlo, hhi, hk⟩ := decodeC_caHalf_word hword' hl'
      rw [hsame, decodeC_cAluHalf halu hfmt hd h1 h2 hl] at hk
      simp only [Option.some.injEq, Prod.mk.injEq] at hk
      obtain ⟨rfl, hargs⟩ := hk
      obtain ⟨-, rfl⟩ : rd = rd' ∧ imm = k := by simpa [cOperandsOf] using hargs
      exact absurd ⟨rfl, hlo, hhi⟩ hsrai
    · have hread' := decodeOwn_cAluHalf halu' hword' hd' h1' h2' hl'
      rw [hsame, hread] at hread'
      simp only [Option.some.injEq, Prod.mk.injEq] at hread'
      exact ⟨hread'.1.symm, hread'.2.symm⟩

theorem c_alu_roundtrip_iff_addi :
    (∀ w, cEncodeInstruction (passSetArch 32 false true false) .cAddi .ci 5 5 0 (-3) 1 = .ok w →
        decodeC 32 w = some (.cAddi, .imm 5 (-3)) ∧
        ∀ op' rd' rs1' rs2' imm' line', isCAlu op' → IsReg rd' → IsReg rs1' → IsReg rs2' →
          cEncodeInstruction (passSetArch 32 false true false) op' (cEncodingTable op').fmt rd' rs1'
            rs2' imm' line' = .ok w →
          op' = .cAddi ∧ cOperandsOf op' rd' rs1' rs2' imm' = .imm 5 (-3)) ↔
      (CAluLegal (passSetArch 32 false true false) .cAddi 5 5 0 (-3) → CAluExact .cAddi (-3)) :=
  c_alu_roundtrip_iff (passSetArch 32 false true false) .cAddi 5 5 0 (-3) 1 rfl (by decide)
    (by decide) (by decide)

/-- `c.sub x8, x9` reads back as `c.subw x8, x9` on RV64. -/
theorem c_sub_misread :
    ¬ ∀ w, cEncodeInstruction (passSetArch 64 false true false) .cSub .ca 8 8 9 0 1 = .ok w →
      decodeC 64 w = some (.cSub, .regs 8 9) := by
  intro h
  have hsubw : decodeC 64 0x9C05 = some (.cSubw, .regs 8 9) := by decide
  exact absurd (hsubw.symm.trans (h 0x9C05 rfl)) (by decide)

end RvAssembler
