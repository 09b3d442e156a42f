import RvAssembler.Built
import RvAssembler.CAluEncoding
import RvAssembler.CJumpEncoding
import RvAssembler.CMemEncoding
import RvAssembler.SettledLayout

namespace RvAssembler

def CAccepted (cfg : Config) (op : Opcode) (rd rs1 rs2 imm : ℤ) : Prop :=
  if isCAlu op then CAluLegal cfg op rd rs1 rs2 imm
  else if isCMem op then CMemLegal cfg op rd rs1 rs2 imm
  else if op = .cBeqz ∨ op = .cBnez then CBLegal cfg op rs1 imm
  else (op = .cJ ∨ op = .cJal) ∧ CJLegal cfg op imm

theorem cEncodeAlu_accepts {cfg : Config} {op : Opcode} {rd rs1 rs2 imm line : ℤ}
    (halu : isCAlu op) :
    (∃ w, cEncodeInstruction cfg op (cEncodingTable op).fmt rd rs1 rs2 imm line = .ok w) ↔
      CAluLegal cfg op rd rs1 rs2 imm := by
  simp only [cEncodeAlu_ok halu, exists_and_left, exists_eq', and_true]

theorem cEncodeMem_accepts {cfg : Config} {op : Opcode} {rd rs1 rs2 imm line : ℤ}
    (hmem : isCMem op) :
    (∃ w, cEncodeInstruction cfg op (cEncodingTable op).fmt rd rs1 rs2 imm line = .ok w) ↔
      CMemLegal cfg op rd rs1 rs2 imm := by
  simp only [isCMem, Bool.or_eq_true, decide_eq_true_eq] at hmem
  obtain ((((((rfl | rfl) | rfl) | rfl) | rfl) | rfl) | rfl) | rfl := hmem
  · exact encodeCltype_accepts (.inl rfl) rs2
  · exact encodeCltype_accepts (.inr rfl) rs2
  · exact encodeCstype_accepts (.inl rfl) rd
  · exact encodeCstype_accepts (.inr rfl) rd
  · exact encodeCitype_load_accepts (.inl rfl) rs2
  · exact encodeCitype_load_accepts (.inr rfl) rs2
  · exact encodeCsstype_accepts (.inl rfl) rd
  · exact encodeCsstype_accepts (.inr rfl) rd

theorem cEncodeInstruction_accepts {cfg : Config} {op : Opcode} {rd rs1 rs2 imm line : ℤ}
    (hop : (cEncodingTable op).needsC = true) :
    (∃ w, cEncodeInstruction cfg op (cEncodingTable op).fmt rd rs1 rs2 imm line = .ok w) ↔
      CAccepted cfg op rd rs1 rs2 imm := by
  rw [CAccepted]
  split_ifs with halu hmem hb
  · exact cEncodeAlu_accepts halu
  · exact cEncodeMem_accepts hmem
  · obtain rfl | rfl := hb <;> exact encodeCbtype_accepts
  · have hj : op = .cJ ∨ op = .cJal := by
      cases op <;> simp_all [isCAlu, isCMem, cEncodingTable]
    rw [and_iff_right hj]
    obtain rfl | rfl := hj <;> exact encodeCjtype_accepts

def ScaledOffset (scale top imm : ℤ) : Prop := 0 ≤ imm ∧ imm % scale = 0 ∧ imm ≤ top

/-- The operands that are legal in the C extension, hints included. -/
def CLegal (xlen : ℕ) (op : Opcode) (rd rs1 rs2 imm : ℤ) : Prop :=
  match op with
  | .cAddi => (rd ≠ 0 ∧ IsImm6 imm) ∨ (rd = 0 ∧ imm = 0)
  | .cAddiw => rd ≠ 0 ∧ IsImm6 imm ∧ xlen = 64
  | .cLi => rd ≠ 0 ∧ IsImm6 imm
  | .cLui => rd ≠ 0 ∧ rd ≠ 2 ∧ imm ≠ 0 ∧ IsImm6 imm
  | .cSlli => rd ≠ 0 ∧ 0 ≤ imm ∧ imm < xlen
  | .cSrli | .cSrai => IsPrime rd ∧ 0 ≤ imm ∧ imm < xlen
  | .cAndi => IsPrime rd ∧ IsImm6 imm
  | .cLw => (IsPrime rd ∧ IsPrime rs1) ∧ ScaledOffset 4 124 imm
  | .cSw => (IsPrime rs1 ∧ IsPrime rs2) ∧ ScaledOffset 4 124 imm
  | .cLd => ((IsPrime rd ∧ IsPrime rs1) ∧ xlen = 64) ∧ ScaledOffset 8 248 imm
  | .cSd => ((IsPrime rs1 ∧ IsPrime rs2) ∧ xlen = 64) ∧ ScaledOffset 8 248 imm
  | .cLwsp => rd ≠ 0 ∧ ScaledOffset 4 252 imm
  | .cSwsp => ScaledOffset 4 252 imm
  | .cLdsp => (rd ≠ 0 ∧ xlen = 64) ∧ ScaledOffset 8 504 imm
  | .cSdsp => xlen = 64 ∧ ScaledOffset 8 504 imm
  | .cBeqz | .cBnez => IsPrime rs1 ∧ imm % 2 = 0 ∧ -256 ≤ imm ∧ imm ≤ 254
  | .cJ => imm % 2 = 0 ∧ -2048 ≤ imm ∧ imm ≤ 2046
  | .cJal => (imm % 2 = 0 ∧ -2048 ≤ imm ∧ imm ≤ 2046) ∧ xlen = 32
  | .cMv | .cAdd => rd ≠ 0 ∧ rs2 ≠ 0
  | .cJr | .cJalr => rs1 ≠ 0
  | .cEbreak => True
  | .cSub | .cXor | .cOr | .cAnd => IsPrime rd ∧ IsPrime rs2
  | .cSubw | .cAddw => (IsPrime rd ∧ IsPrime rs2) ∧ xlen = 64
  | _ => False

/-- The operands the grammar repeats or fixes, by the opcode. -/
def InstrArgs.CShape (a : InstrArgs) : Prop :=
  match a.op with
  | .cMv => a.rs1 = 0
  | .cAdd | .cSub | .cXor | .cOr | .cAnd | .cSubw | .cAddw => a.rs1 = a.rd
  | .cJr | .cJalr => a.rs2 = 0
  | .cEbreak => a.rd = 0 ∧ a.rs1 = 0 ∧ a.rs2 = 0
  | .cLwsp | .cLdsp | .cSwsp | .cSdsp => a.rs1 = 2
  | _ => True

theorem Instruction.cShape_emits (i : Instruction) : ∀ a ∈ i.emits, a.CShape := by
  cases i <;>
    simp only [Instruction.emits, List.forall_mem_cons, List.not_mem_nil, IsEmpty.forall_iff,
      implies_true, and_true, InstrArgs.CShape, regArgs, immArgs, srcArgs, labelArgs] <;>
    decide

theorem cAvailable_iff {cfg : Config} (hC : cfg.extC = true) {op : Opcode}
    (hop : (cEncodingTable op).needsC = true) :
    CAvailable cfg op ↔ ((cEncodingTable op).rv32 = false → cfg.xlen = 64) ∧
      ((cEncodingTable op).rv64 = false → cfg.xlen = 32) := by
  rw [CAvailable, and_iff_right hC, and_iff_right hop]
  have hboth : (cEncodingTable op).rv32 = true ∨ (cEncodingTable op).rv64 = true := by
    revert hop
    cases op <;> decide
  rcases cfg.xlenOk with h | h <;> cases h32 : (cEncodingTable op).rv32 <;>
    cases h64 : (cEncodingTable op).rv64 <;> simp_all

theorem le_ciMaxSh_iff (cfg : Config) (imm : ℤ) : imm ≤ ciMaxSh cfg ↔ imm < cfg.xlen := by
  rw [ciMaxSh]
  rcases cfg.xlenOk with h | h <;> simp [h] <;> omega

/-- Of the arithmetic instructions only `c.li` with zero is turned down although it is legal. -/
theorem cAluLegal_iff {cfg : Config} (hC : cfg.extC = true) {a : InstrArgs} (halu : isCAlu a.op)
    (hshape : a.CShape) (imm : ℤ) :
    CAluLegal cfg a.op a.rd a.rs1 a.rs2 imm ↔
      CLegal cfg.xlen a.op a.rd a.rs1 a.rs2 imm ∧ ¬ (a.op = .cLi ∧ imm = 0) := by
  have hop : (cEncodingTable a.op).needsC = true := by
    revert halu
    cases a.op <;> decide
  have hav := cAvailable_iff hC hop
  obtain ⟨op, fmt, rd, rs1, rs2, imm', label, reloc⟩ := a
  cases op <;> simp only [isCAlu, Bool.false_eq_true] at halu <;>
    simp only [InstrArgs.CShape] at hshape <;>
    simp only [cEncodingTable, cRvAny, cRv64] at hav <;>
    simp only [CAluLegal, hav, CLegal, le_ciMaxSh_iff, hshape, reduceCtorEq, Bool.true_eq_false,
      false_imp_iff, true_imp_iff, and_true, true_and, false_and, not_false_eq_true, ne_eq] <;>
    tauto

theorem wrappedOffset_iff {scale top imm : ℤ} :
    WrappedOffset scale top imm ↔ 0 ≤ imm ∧ ScaledOffset scale top (imm % 2 ^ 32) := by
  rw [WrappedOffset, ScaledOffset, and_iff_right (Int.emod_nonneg imm (by decide))]

/-- The loads and stores whose offset is cut to 32 bits before it is checked. -/
def cutsOffset (op : Opcode) : Bool :=
  op = .cLw || op = .cLd || op = .cSw || op = .cSd || op = .cSwsp || op = .cSdsp

theorem cMemLegal_iff {cfg : Config} (hC : cfg.extC = true) {a : InstrArgs} (hmem : isCMem a.op)
    (hshape : a.CShape) (imm : ℤ) :
    CMemLegal cfg a.op a.rd a.rs1 a.rs2 imm ↔
      if cutsOffset a.op then
        0 ≤ imm ∧ CLegal cfg.xlen a.op a.rd a.rs1 a.rs2 (imm % 2 ^ 32)
      else CLegal cfg.xlen a.op a.rd a.rs1 a.rs2 imm := by
  have hop : (cEncodingTable a.op).needsC = true := by
    revert hmem
    cases a.op <;> decide
  have hav := cAvailable_iff hC hop
  obtain ⟨op, fmt, rd, rs1, rs2, imm', label, reloc⟩ := a
  simp only [isCMem, Bool.or_eq_true, decide_eq_true_eq] at hmem
  obtain ((((((rfl | rfl) | rfl) | rfl) | rfl) | rfl) | rfl) | rfl := hmem <;>
    simp only [InstrArgs.CShape] at hshape <;>
    simp only [cEncodingTable, cRvAny, cRv64] at hav <;>
    simp only [CMemLegal, hav, CLegal, cutsOffset, wrappedOffset_iff, hshape,
      reduceCtorEq, decide_true, decide_false, Bool.or_true, Bool.or_false, Bool.false_eq_true,
      ↓reduceIte, Bool.true_eq_false, false_imp_iff, true_imp_iff, and_true, true_and, ne_eq,
      ScaledOffset] <;>
    tauto

theorem CLegal.offset_lt {xlen : ℕ} {op : Opcode} (hcut : cutsOffset op = true)
    {rd rs1 rs2 imm : ℤ} (h : CLegal xlen op rd rs1 rs2 imm) : 0 ≤ imm ∧ imm < 2 ^ 32 := by
  simp only [cutsOffset, Bool.or_eq_true, decide_eq_true_eq] at hcut
  obtain ((((rfl | rfl) | rfl) | rfl) | rfl) | rfl := hcut <;>
    simp only [CLegal, ScaledOffset] at h <;> omega

theorem cJumpLegal_iff {cfg : Config} (hC : cfg.extC = true) {op : Opcode}
    (hpc : isPcRel op = true) (rd rs1 rs2 imm : ℤ) :
    CAccepted cfg op rd rs1 rs2 imm ↔ CLegal cfg.xlen op rd rs1 rs2 imm := by
  have hop : (cEncodingTable op).needsC = true := by
    revert hpc
    cases op <;> decide
  simp only [isPcRel, Bool.or_eq_true, decide_eq_true_eq] at hpc
  obtain ((rfl | rfl) | rfl) | rfl := hpc <;>
    simp only [CAccepted, isCAlu, isCMem, CBLegal, CJLegal, CLegal, cAvailable_iff hC hop,
      cEncodingTable, cRvAny, cRv32, reduceCtorEq, decide_false, Bool.or_false, Bool.false_eq_true,
      ↓reduceIte, or_true, true_or, or_self, Bool.true_eq_false, false_imp_iff, true_imp_iff,
      and_true, true_and]
  exact and_comm

/-- Legal operands that are turned down: `c.li` with zero. -/
def RefusesLi (op : Opcode) (rd imm : ℤ) : Prop := op = .cLi ∧ rd ≠ 0 ∧ imm = 0

/-- Operands that are accepted though they are not legal: an offset of 33 bits or more whose
low 32 bits are a legal one. -/
def CutToLegal (xlen : ℕ) (op : Opcode) (rd rs1 rs2 imm : ℤ) : Prop :=
  cutsOffset op = true ∧ 2 ^ 32 ≤ imm ∧ CLegal xlen op rd rs1 rs2 (imm % 2 ^ 32)

theorem cAccepted_iff_cLegal {cfg : Config} (hC : cfg.extC = true) {a : InstrArgs}
    (hop : (cEncodingTable a.op).needsC = true) (hshape : a.CShape) (imm : ℤ) :
    (CAccepted cfg a.op a.rd a.rs1 a.rs2 imm ↔ CLegal cfg.xlen a.op a.rd a.rs1 a.rs2 imm) ↔
      ¬ RefusesLi a.op a.rd imm ∧ ¬ CutToLegal cfg.xlen a.op a.rd a.rs1 a.rs2 imm := by
  rw [RefusesLi, CutToLegal]
  by_cases halu : isCAlu a.op = true
  · have hcut : cutsOffset a.op = false := by
      revert halu
      cases a.op <;> decide
    rw [CAccepted, if_pos halu, cAluLegal_iff hC halu hshape, hcut]
    -- `c.li` of zero is legal and the only one refused
    by_cases hli : a.op = .cLi ∧ imm = 0
    · have hlegal : CLegal cfg.xlen a.op a.rd a.rs1 a.rs2 imm ↔ a.rd ≠ 0 := by
        rw [hli.1, hli.2]
        exact and_iff_left ⟨by decide, by decide⟩
      rw [hlegal]
      tauto
    · tauto
  by_cases hmem : isCMem a.op = true
  · have hli : a.op ≠ .cLi := by
      rintro heq
      rw [heq] at halu
      exact halu rfl
    rw [CAccepted, if_neg halu, if_pos hmem, cMemLegal_iff hC hmem hshape]
    cases hcut : cutsOffset a.op with
    | false => simp [hli]
    | true =>
      simp only [↓reduceIte, true_and, hli, false_and, not_false_eq_true, not_and]
      have hsmall : CLegal cfg.xlen a.op a.rd a.rs1 a.rs2 imm → 0 ≤ imm ∧ imm < 2 ^ 32 :=
        CLegal.offset_lt hcut
      by_cases hrange : 0 ≤ imm ∧ imm < 2 ^ 32
      · rw [Int.emod_eq_of_lt hrange.1 hrange.2]
        exact iff_of_true (and_iff_right hrange.1) fun hge => absurd hge (by omega)
      · -- out of range nothing is legal, and what is accepted is at least `2 ^ 32`
        rw [iff_false_right fun hlegal => hrange (hsmall hlegal)]
        constructor
        · exact fun h hge hlegal => h ⟨by omega, hlegal⟩
        · exact fun h ⟨h0, hlegal⟩ => h (by omega) hlegal
  -- what is left are the branches and jumps
  · have hpc : isPcRel a.op = true := by
      revert hop halu hmem
      cases a.op <;> decide
    have hli : a.op ≠ .cLi ∧ cutsOffset a.op = false := by
      revert hpc
      cases a.op <;> decide
    rw [cJumpLegal_iff hC hpc]
    simp [hli]

/-- What is asked of `c_encode_instruction`: that it accepts exactly the operands that are
legal, and that after a rejection `had_error` is set and nothing has been written. -/
structure CEncodes (cfg : Config) (a : InstrArgs) (imm line : ℤ) (legal : Prop) : Prop where
  accepts : (∃ w, cEncodeInstruction cfg a.op a.fmt a.rd a.rs1 a.rs2 imm line = .ok w) ↔ legal
  rejects : ∀ m, cEncodeInstruction cfg a.op a.fmt a.rd a.rs1 a.rs2 imm line = .error m →
    ∀ t ops (st : Pass2) addr, st.hadError = false → st.outfile = true →
      requireCForOp cfg a.op line = .ok () → encoderImm t a addr line = .ok imm →
      pass2EmitInstr cfg t ops st a addr line =
        ({ st with hadError := true, stderr := st.stderr ++ [m] }, false)

theorem pass2EmitInstr_of_rejected {cfg : Config} {t : SymTab} {ops : FileOps} {st : Pass2}
    {a : InstrArgs} {addr : ℕ} {imm line : ℤ} {m : String} (hfmt : isCFmt a.fmt = true)
    (herr : st.hadError = false) (hout : st.outfile = true)
    (hav : requireCForOp cfg a.op line = .ok ()) (himm : encoderImm t a addr line = .ok imm)
    (hm : cEncodeInstruction cfg a.op a.fmt a.rd a.rs1 a.rs2 imm line = .error m) :
    pass2EmitInstr cfg t ops st a addr line =
      ({ st with hadError := true, stderr := st.stderr ++ [m] }, false) := by
  have hcall : instrCall cfg t a addr line = .error ⟨m, true⟩ := by
    rw [instrCall, if_pos hfmt, hav, himm]
    simp only [bind, Except.bind, Except.mapError, sticky, hm]
  simp only [pass2EmitInstr, herr, hout, hcall, Pass2.fail, Bool.or_true, Bool.not_true,
    Bool.false_eq_true, ↓reduceIte]

theorem cEncodes_accepted {cfg : Config} {i : Instruction} {a : InstrArgs} (ha : a ∈ i.emits)
    (hfmt : isCFmt a.fmt = true) (imm line : ℤ) :
    CEncodes cfg a imm line (CAccepted cfg a.op a.rd a.rs1 a.rs2 imm) := by
  have hfmtOk := i.fmtOk_emits a ha
  rw [InstrArgs.FmtOk, if_pos hfmt] at hfmtOk
  refine ⟨?_, fun m hm t ops st addr herr hout hav himm => ?_⟩
  · rw [← hfmtOk.2]
    exact cEncodeInstruction_accepts hfmtOk.1
  · exact pass2EmitInstr_of_rejected hfmt herr hout hav himm hm

/-- Where no offset of 33 bits or more is cut, `c_encode_instruction` accepts exactly the legal
operands but for `c.li` with zero. -/
theorem cEncodes_legal_except_li (cfg : Config) (hC : cfg.extC = true) (i : Instruction)
    (a : InstrArgs) (ha : a ∈ i.emits) (hfmt : isCFmt a.fmt = true) (imm : Int64) (line : ℤ)
    (hcut : cutsOffset a.op = true → imm.toInt < 2 ^ 32) :
    CEncodes cfg a imm.toInt line
      (CLegal cfg.xlen a.op a.rd a.rs1 a.rs2 imm.toInt ∧ ¬ RefusesLi a.op a.rd imm.toInt) := by
  have hfmtOk := i.fmtOk_emits a ha
  rw [InstrArgs.FmtOk, if_pos hfmt] at hfmtOk
  have haccepted : CAccepted cfg a.op a.rd a.rs1 a.rs2 imm.toInt ↔
      CLegal cfg.xlen a.op a.rd a.rs1 a.rs2 imm.toInt ∧ ¬ RefusesLi a.op a.rd imm.toInt := by
    have hagree := cAccepted_iff_cLegal hC hfmtOk.1 (i.cShape_emits a ha) imm.toInt
    have hnotCut : ¬ CutToLegal cfg.xlen a.op a.rd a.rs1 a.rs2 imm.toInt := fun h =>
      absurd (hcut h.1) (by have := h.2.1; omega)
    by_cases hli : RefusesLi a.op a.rd imm.toInt
    · obtain ⟨hop, -, hzero⟩ := id hli
      have hno : ¬ CAccepted cfg a.op a.rd a.rs1 a.rs2 imm.toInt := by
        rw [hop, hzero]
        exact fun h => h.2.2.2 rfl
      exact iff_of_false hno fun h => h.2 hli
    · rw [hagree.mpr ⟨hli, hnotCut⟩]
      exact (and_iff_left hli).symm
  rw [← haccepted]
  exact cEncodes_accepted ha hfmt imm.toInt line

theorem cEncodes_legal_except_li_lw :
    CEncodes (passSetArch 32 false true false) (immArgs .cLw .cl (reg 8) (reg 9) 4) 4 1
      (CLegal 32 .cLw 8 9 0 4 ∧ ¬ RefusesLi .cLw 8 4) :=
  cEncodes_legal_except_li (passSetArch 32 false true false) rfl (.cLw (reg 8) 4 (reg 9))
    (immArgs .cLw .cl (reg 8) (reg 9) 4) (List.mem_singleton.mpr rfl) rfl 4 1 (by decide)

/-- `c.li x5, 0` is legal and turned down. -/
theorem c_li_zero_rejected :
    ¬ CEncodes (passSetArch 32 false true false) (immArgs .cLi .ci (reg 5) (reg 0) 0) 0 1
      (CLegal 32 .cLi 5 0 0 0) := by
  intro h
  obtain ⟨w, hw⟩ := h.accepts.mpr ⟨by decide, by decide, by decide⟩
  have hrejected : (cEncodeInstruction (passSetArch 32 false true false) .cLi .ci 5 0 0 0 1).isOk =
      false := by decide
  rw [show cEncodeInstruction (passSetArch 32 false true false) .cLi .ci 5 0 0 0 1 = .ok w from hw]
    at hrejected
  cases hrejected

end RvAssembler
