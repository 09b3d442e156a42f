import RvAssembler.CLegal
import RvAssembler.Relayout

namespace RvAssembler

/-- The 32-bit instruction a compressed form stands for. -/
def CChoice.expand (ch : CChoice) : Option InstrArgs :=
  let base (op : Opcode) (fmt : IrFmt) (rd rs1 rs2 imm : ℤ) : Option InstrArgs :=
    some { op, fmt, rd, rs1, rs2, imm, label := ch.label, reloc := ch.reloc }
  match ch.op with
  | .cAddi => base .addi .i ch.rd ch.rd 0 ch.imm
  | .cAddiw => base .addiw .i ch.rd ch.rd 0 ch.imm
  | .cLi => base .addi .i ch.rd 0 0 ch.imm
  | .cLui => base .lui .ui ch.rd 0 0 (ch.imm * 2 ^ 12)
  | .cSlli => base .slli .i ch.rd ch.rd 0 ch.imm
  | .cSrli => base .srli .i ch.rd ch.rd 0 ch.imm
  | .cSrai => base .srai .i ch.rd ch.rd 0 ch.imm
  | .cAndi => base .andi .i ch.rd ch.rd 0 ch.imm
  | .cMv => base .add .r ch.rd 0 ch.rs2 0
  | .cAdd => base .add .r ch.rd ch.rd ch.rs2 0
  | .cSub => base .sub .r ch.rd ch.rd ch.rs2 0
  | .cXor => base .xor .r ch.rd ch.rd ch.rs2 0
  | .cOr => base .or .r ch.rd ch.rd ch.rs2 0
  | .cAnd => base .and .r ch.rd ch.rd ch.rs2 0
  | .cSubw => base .subw .r ch.rd ch.rd ch.rs2 0
  | .cAddw => base .addw .r ch.rd ch.rd ch.rs2 0
  | .cJr => base .jalr .i 0 ch.rs1 0 0
  | .cJalr => base .jalr .i 1 ch.rs1 0 0
  | .cEbreak => base .ebreak .i 0 0 0 0
  | .cLw => base .lw .i ch.rd ch.rs1 0 ch.imm
  | .cLd => base .ld .i ch.rd ch.rs1 0 ch.imm
  | .cSw => base .sw .s 0 ch.rs1 ch.rs2 ch.imm
  | .cSd => base .sd .s 0 ch.rs1 ch.rs2 ch.imm
  | .cLwsp => base .lw .i ch.rd 2 0 ch.imm
  | .cLdsp => base .ld .i ch.rd 2 0 ch.imm
  | .cSwsp => base .sw .s 0 2 ch.rs2 ch.imm
  | .cSdsp => base .sd .s 0 2 ch.rs2 ch.imm
  | .cBeqz => base .beq .b 0 ch.rs1 0 ch.imm
  | .cBnez => base .bne .b 0 ch.rs1 0 ch.imm
  | .cJ => base .jal .j 0 0 0 ch.imm
  | .cJal => base .jal .j 1 0 0 ch.imm
  | _ => none

def InstrArgs.BaseShape (a : InstrArgs) : Prop :=
  match a.fmt with
  | .r => a.imm = 0 ∧ a.label = none ∧ a.reloc = .none
  | .i => a.rs2 = 0 ∧ (a.op = .ebreak → a.rd = 0 ∧ a.rs1 = 0 ∧ a.imm = 0) ∧
      (a.label = none ∧ a.reloc = .none ∨ a.reloc = .lo12)
  | .s => a.rd = 0 ∧ a.label = none ∧ a.reloc = .none
  | .b => a.rd = 0
  | .j => a.rs1 = 0 ∧ a.rs2 = 0
  | _ => True

theorem Instruction.baseShape_emits (i : Instruction) : ∀ a ∈ i.emits, a.BaseShape := by
  cases i <;>
    simp [Instruction.emits, InstrArgs.BaseShape, regArgs, immArgs, srcArgs, labelArgs]

/-- A 32-bit entry of the grammar that `pass2_node_can_attempt` admits. -/
structure IrEntry.Attempted (cfg : Config) (n : IrEntry) : Prop where
  base : baseFmt n.op = some n.fmt
  shape : n.args.BaseShape
  noLo12 : n.reloc ≠ .lo12
  extC : cfg.extC = true

theorem IrEntry.attempted {cfg : Config} {n : IrEntry} {i : Instruction} (hn : n.args ∈ i.emits)
    (hfmt : isCFmt n.fmt = false) (h : pass2NodeCanAttempt cfg n = true) : n.Attempted cfg := by
  have hfmtOk := i.fmtOk_emits _ hn
  rw [InstrArgs.FmtOk, if_neg (by rw [show n.args.fmt = n.fmt from rfl, hfmt]; decide)] at hfmtOk
  rw [pass2NodeCanAttempt] at h
  split_ifs at h with hC _ _ _ _ _ hreloc
  refine ⟨hfmtOk, i.baseShape_emits _ hn, fun hlo => ?_, by simpa using hC⟩
  rw [hlo] at hreloc
  exact hreloc (by decide)

theorem IrEntry.Attempted.args_r {cfg : Config} {n : IrEntry} (hn : n.Attempted cfg)
    (h : baseFmt n.op = some .r) :
    n.args = { op := n.op, fmt := .r, rd := n.rd, rs1 := n.rs1, rs2 := n.rs2 } := by
  obtain ⟨hbase, hshape, -, -⟩ := hn
  have hfmt : n.fmt = .r := Option.some.inj (hbase.symm.trans h)
  simp only [InstrArgs.BaseShape, IrEntry.args, hfmt] at hshape ⊢
  rw [hshape.1, hshape.2.1, hshape.2.2]

theorem IrEntry.Attempted.args_i {cfg : Config} {n : IrEntry} (hn : n.Attempted cfg)
    (h : baseFmt n.op = some .i) :
    n.args = { op := n.op, fmt := .i, rd := n.rd, rs1 := n.rs1, imm := n.imm } := by
  obtain ⟨hbase, hshape, hlo, -⟩ := hn
  have hfmt : n.fmt = .i := Option.some.inj (hbase.symm.trans h)
  simp only [InstrArgs.BaseShape, IrEntry.args, hfmt] at hshape ⊢
  -- the low half of `la` is the only such entry with a label, and is not attempted
  obtain ⟨hlabel, hreloc⟩ := hshape.2.2.resolve_right hlo
  rw [hshape.1, hlabel, hreloc]

theorem IrEntry.Attempted.args_s {cfg : Config} {n : IrEntry} (hn : n.Attempted cfg)
    (h : baseFmt n.op = some .s) :
    n.args = { op := n.op, fmt := .s, rs1 := n.rs1, rs2 := n.rs2, imm := n.imm } := by
  obtain ⟨hbase, hshape, -, -⟩ := hn
  have hfmt : n.fmt = .s := Option.some.inj (hbase.symm.trans h)
  simp only [InstrArgs.BaseShape, IrEntry.args, hfmt] at hshape ⊢
  rw [hshape.1, hshape.2.1, hshape.2.2]

theorem IrEntry.Attempted.args_b {cfg : Config} {n : IrEntry} (hn : n.Attempted cfg)
    (h : baseFmt n.op = some .b) :
    n.args =
      { op := n.op, fmt := .b, rs1 := n.rs1, rs2 := n.rs2, imm := n.imm,
        label := n.label, reloc := n.reloc } := by
  obtain ⟨hbase, hshape, -, -⟩ := hn
  have hfmt : n.fmt = .b := Option.some.inj (hbase.symm.trans h)
  simp only [InstrArgs.BaseShape, IrEntry.args, hfmt] at hshape ⊢
  rw [hshape]

theorem IrEntry.Attempted.args_j {cfg : Config} {n : IrEntry} (hn : n.Attempted cfg)
    (h : baseFmt n.op = some .j) :
    n.args =
      { op := n.op, fmt := .j, rd := n.rd, imm := n.imm,
        label := n.label, reloc := n.reloc } := by
  obtain ⟨hbase, hshape, -, -⟩ := hn
  have hfmt : n.fmt = .j := Option.some.inj (hbase.symm.trans h)
  simp only [InstrArgs.BaseShape, IrEntry.args, hfmt] at hshape ⊢
  rw [hshape.1, hshape.2]

theorem IrEntry.Attempted.args_ebreak {cfg : Config} {n : IrEntry} (hn : n.Attempted cfg)
    (h : n.op = .ebreak) : n.args = { op := .ebreak, fmt := .i } := by
  have hfmt : n.fmt = .i := Option.some.inj (hn.base.symm.trans (by rw [h]; rfl))
  have hshape := hn.shape
  simp only [InstrArgs.BaseShape, IrEntry.args, hfmt] at hshape
  obtain ⟨hrd, hrs1, himm⟩ := hshape.2.1 h
  rw [hn.args_i (by rw [h]; rfl), h, hrd, hrs1, himm]

/-- The rules of `c_rules.c`, each with what it asks of an entry and the form it finds. -/
inductive CRule (cfg : Config) (n : IrEntry) : CChoice → Prop
  | addi (hop : n.op = .addi) (hrd : n.rd = n.rs1) (h0 : n.rd ≠ 0) (himm : IsImm6 n.imm) :
    CRule cfg n { op := .cAddi, fmt := .ci, rd := n.rd, rs1 := n.rd, imm := n.imm }
  | li (hop : n.op = .addi) (h1 : n.rs1 = 0) (h0 : n.rd ≠ 0) (hne : n.imm ≠ 0)
      (himm : IsImm6 n.imm) :
    CRule cfg n { op := .cLi, fmt := .ci, rd := n.rd, rs1 := 0, imm := n.imm }
  | nop (hop : n.op = .addi) (h0 : n.rd = 0) (h1 : n.rs1 = 0) (himm : n.imm = 0) :
    CRule cfg n { op := .cAddi, fmt := .ci }
  | slli (hop : n.op = .slli) (hrd : n.rd = n.rs1) (h0 : n.rd ≠ 0)
      (himm : 0 ≤ n.imm ∧ n.imm ≤ maxShift cfg) :
    CRule cfg n { op := .cSlli, fmt := .ci, rd := n.rd, rs1 := n.rd, imm := n.imm }
  | srli (hop : n.op = .srli) (hrd : n.rd = n.rs1) (hp : IsPrime n.rd)
      (himm : 0 ≤ n.imm ∧ n.imm ≤ maxShift cfg) :
    CRule cfg n { op := .cSrli, fmt := .ci, rd := n.rd, rs1 := n.rd, imm := n.imm }
  | srai (hop : n.op = .srai) (hrd : n.rd = n.rs1) (hp : IsPrime n.rd)
      (himm : 0 ≤ n.imm ∧ n.imm ≤ maxShift cfg) :
    CRule cfg n { op := .cSrai, fmt := .ci, rd := n.rd, rs1 := n.rd, imm := n.imm }
  | andi (hop : n.op = .andi) (hrd : n.rd = n.rs1) (hp : IsPrime n.rd) (himm : IsImm6 n.imm) :
    CRule cfg n { op := .cAndi, fmt := .ci, rd := n.rd, rs1 := n.rd, imm := n.imm }
  | mv (hop : n.op = .add) (h0 : n.rd ≠ 0) (h2 : n.rs2 ≠ 0) (h1 : n.rs1 = 0) :
    CRule cfg n { op := .cMv, fmt := .cr, rd := n.rd, rs1 := 0, rs2 := n.rs2 }
  | add (hop : n.op = .add) (hrd : n.rd = n.rs1) (h0 : n.rd ≠ 0) (h2 : n.rs2 ≠ 0) :
    CRule cfg n { op := .cAdd, fmt := .cr, rd := n.rd, rs1 := n.rd, rs2 := n.rs2 }
  | jr (hop : n.op = .jalr) (h0 : n.rd = 0) (himm : n.imm = 0) (h1 : n.rs1 ≠ 0) :
    CRule cfg n { op := .cJr, fmt := .cr, rd := 0, rs1 := n.rs1 }
  | jalr (hop : n.op = .jalr) (h0 : n.rd = 1) (himm : n.imm = 0) (h1 : n.rs1 ≠ 0) :
    CRule cfg n { op := .cJalr, fmt := .cr, rd := 1, rs1 := n.rs1 }
  | ebreak (hop : n.op = .ebreak) : CRule cfg n { op := .cEbreak, fmt := .cr }
  | ca {cop : Opcode}
      (hop : n.op = .sub ∧ cop = .cSub ∨ n.op = .xor ∧ cop = .cXor ∨ n.op = .or ∧ cop = .cOr ∨
        n.op = .and ∧ cop = .cAnd)
      (hrd : n.rd = n.rs1) (hp : IsPrime n.rd) (hp2 : IsPrime n.rs2) :
    CRule cfg n { op := cop, fmt := .ca, rd := n.rd, rs1 := n.rd, rs2 := n.rs2 }
  | caw {cop : Opcode} (h64 : cfg.xlen = 64)
      (hop : n.op = .subw ∧ cop = .cSubw ∨ n.op = .addw ∧ cop = .cAddw)
      (hrd : n.rd = n.rs1) (hp : IsPrime n.rd) (hp2 : IsPrime n.rs2) :
    CRule cfg n { op := cop, fmt := .ca, rd := n.rd, rs1 := n.rd, rs2 := n.rs2 }
  | lw (hop : n.op = .lw) (hp : IsPrime n.rd) (hp1 : IsPrime n.rs1)
      (himm : ScaledOffset 4 124 n.imm) :
    CRule cfg n { op := .cLw, fmt := .cl, rd := n.rd, rs1 := n.rs1, imm := n.imm }
  | ld (hop : n.op = .ld) (hp : IsPrime n.rd) (hp1 : IsPrime n.rs1) (h64 : cfg.xlen = 64)
      (himm : ScaledOffset 8 248 n.imm) :
    CRule cfg n { op := .cLd, fmt := .cl, rd := n.rd, rs1 := n.rs1, imm := n.imm }
  | sw (hop : n.op = .sw) (hp2 : IsPrime n.rs2) (hp1 : IsPrime n.rs1)
      (himm : ScaledOffset 4 124 n.imm) :
    CRule cfg n { op := .cSw, fmt := .cs, rs1 := n.rs1, rs2 := n.rs2, imm := n.imm }
  | sd (hop : n.op = .sd) (hp2 : IsPrime n.rs2) (hp1 : IsPrime n.rs1)
      (himm : ScaledOffset 8 248 n.imm) :
    CRule cfg n { op := .cSd, fmt := .cs, rs1 := n.rs1, rs2 := n.rs2, imm := n.imm }
  | lwsp (hop : n.op = .lw) (h0 : n.rd ≠ 0) (h1 : n.rs1 = 2) (himm : ScaledOffset 4 252 n.imm) :
    CRule cfg n { op := .cLwsp, fmt := .ci, rd := n.rd, rs1 := 2, imm := n.imm }
  | ldsp (hop : n.op = .ld) (h0 : n.rd ≠ 0) (h1 : n.rs1 = 2) (h64 : cfg.xlen = 64)
      (himm : ScaledOffset 8 504 n.imm) :
    CRule cfg n { op := .cLdsp, fmt := .ci, rd := n.rd, rs1 := 2, imm := n.imm }
  | swsp (hop : n.op = .sw) (h1 : n.rs1 = 2) (himm : ScaledOffset 4 252 n.imm) :
    CRule cfg n { op := .cSwsp, fmt := .css, rs1 := 2, rs2 := n.rs2, imm := n.imm }
  | sdsp (hop : n.op = .sd) (h1 : n.rs1 = 2) (himm : ScaledOffset 8 504 n.imm) :
    CRule cfg n { op := .cSdsp, fmt := .css, rs1 := 2, rs2 := n.rs2, imm := n.imm }
  | branchz {cop : Opcode} (hop : n.op = .beq ∧ cop = .cBeqz ∨ n.op = .bne ∧ cop = .cBnez)
      (h2 : n.rs2 = 0) (hp : IsPrime n.rs1) (himm : CReach cop n.imm) :
    CRule cfg n
      { op := cop, fmt := .cb, rs1 := n.rs1, imm := n.imm, label := n.label, reloc := n.reloc }
  | jump {cop : Opcode} (hop : n.op = .jal)
      (hrd : n.rd = 0 ∧ cop = .cJ ∨ n.rd = 1 ∧ cop = .cJal ∧ cfg.xlen = 32)
      (himm : CReach cop n.imm) :
    CRule cfg n
      { op := cop, fmt := .cj, rd := n.rd, imm := n.imm, label := n.label, reloc := n.reloc }

theorem inPrime_iff {r : ℤ} : inPrime r = true ↔ IsPrime r := by
  simp only [inPrime, IsPrime, decide_eq_true_eq]
  omega

theorem inPrime_both {r r' : ℤ} :
    ¬ (!inPrime r || !inPrime r') = true ↔ IsPrime r ∧ IsPrime r' := by
  rw [← inPrime_iff, ← inPrime_iff]
  cases inPrime r <;> cases inPrime r' <;> decide

section

variable {cfg : Config} {n : IrEntry} {ch : CChoice}

theorem cMapAddiSelf_rule (h : cMapAddiSelf n = some ch) : CRule cfg n ch := by
  rw [cMapAddiSelf] at h
  split_ifs at h with hop hrd himm h0
  cases h
  exact .addi (not_not.mp hop) (not_not.mp hrd) h0 (by rw [IsImm6]; omega)

theorem cMapLiViaAddi_rule (h : cMapLiViaAddi n = some ch) : CRule cfg n ch := by
  rw [cMapLiViaAddi] at h
  split_ifs at h with hop hregs hne himm
  cases h
  exact .li (not_not.mp hop) (by omega) (by omega) hne (by rw [IsImm6]; omega)

theorem cMapNop_rule (h : cMapNop n = some ch) : CRule cfg n ch := by
  rw [cMapNop] at h
  split_ifs at h with hzero hop
  cases h
  exact .nop (not_not.mp hop) (by omega) (by omega) (by omega)

theorem cMapSlli_rule (h : cMapSlli cfg n = some ch) : CRule cfg n ch := by
  rw [cMapSlli] at h
  split_ifs at h with h0 hrd hop himm
  cases h
  exact .slli (not_not.mp hop) (not_not.mp hrd) h0 (by omega)

theorem cMapSrxiPrime_rule (h : cMapSrxiPrime cfg n = some ch) : CRule cfg n ch := by
  rw [cMapSrxiPrime] at h
  split_ifs at h with hrd hop hp himm hsrai <;> cases h
  all_goals
    have hp : IsPrime n.rd := inPrime_iff.mp (by simpa using hp)
  · exact .srai hsrai (not_not.mp hrd) hp (by omega)
  · exact .srli (by tauto) (not_not.mp hrd) hp (by omega)

theorem cMapAndiPrime_rule (h : cMapAndiPrime n = some ch) : CRule cfg n ch := by
  rw [cMapAndiPrime] at h
  split_ifs at h with hrd hp himm hop
  cases h
  exact .andi (not_not.mp hop) (not_not.mp hrd) (inPrime_iff.mp (by simpa using hp))
    (by rw [IsImm6]; omega)

theorem cMapMv_rule (h : cMapMv n = some ch) : CRule cfg n ch := by
  rw [cMapMv] at h
  split_ifs at h with hregs hop
  cases h
  exact .mv (not_not.mp hop) (by omega) (by omega) (by omega)

theorem cMapAddCr_rule (h : cMapAddCr n = some ch) : CRule cfg n ch := by
  rw [cMapAddCr] at h
  split_ifs at h with hop hrd hregs
  cases h
  exact .add (not_not.mp hop) (not_not.mp hrd) (by omega) (by omega)

theorem cMapJr_rule (h : cMapJr n = some ch) : CRule cfg n ch := by
  rw [cMapJr] at h
  split_ifs at h with hregs hop
  cases h
  exact .jr (not_not.mp hop) (by omega) (by omega) (by omega)

theorem cMapJalr_rule (h : cMapJalr n = some ch) : CRule cfg n ch := by
  rw [cMapJalr] at h
  split_ifs at h with hregs hop
  cases h
  exact .jalr (not_not.mp hop) (by omega) (by omega) (by omega)

theorem cMapEbreak_rule (h : cMapEbreak n = some ch) : CRule cfg n ch := by
  rw [cMapEbreak] at h
  split_ifs at h with hop
  cases h
  exact .ebreak (not_not.mp hop)

theorem cMapCaAlu_rule (h : cMapCaAlu n = some ch) : CRule cfg n ch := by
  rw [cMapCaAlu] at h
  split_ifs at h with hop hrd hp hsub hxor hor <;> cases h
  all_goals
    rw [inPrime_both] at hp
    rw [← not_not.mp hrd]
    exact .ca (by tauto) (not_not.mp hrd) hp.2 hp.1

theorem cMapCawAlu64_rule (h : cMapCawAlu64 cfg n = some ch) : CRule cfg n ch := by
  rw [cMapCawAlu64] at h
  split_ifs at h with h64 hop hrd hp hsub <;> cases h
  all_goals
    rw [inPrime_both] at hp
    exact .caw (not_not.mp h64) (by tauto) (not_not.mp hrd) hp.1 hp.2

theorem cMapClLoad_rule (h : cMapClLoad cfg n = some ch) : CRule cfg n ch := by
  rw [cMapClLoad] at h
  split_ifs at h with hop hp h0 hlw himm h64 himm <;> cases h
  all_goals
    rw [inPrime_both] at hp
  · exact .lw hlw hp.1 hp.2 (by rw [ScaledOffset]; omega)
  · exact .ld (by tauto) hp.1 hp.2 (not_not.mp h64) (by rw [ScaledOffset]; omega)

theorem cMapCsStore_rule (h : cMapCsStore n = some ch) : CRule cfg n ch := by
  rw [cMapCsStore] at h
  split_ifs at h with hop hp h0 hsw himm himm <;> cases h
  all_goals
    rw [inPrime_both] at hp
  · exact .sw hsw hp.1 hp.2 (by rw [ScaledOffset]; omega)
  · exact .sd (by tauto) hp.1 hp.2 (by rw [ScaledOffset]; omega)

theorem cMapCiSpLoad_rule (h : cMapCiSpLoad cfg n = some ch) : CRule cfg n ch := by
  rw [cMapCiSpLoad] at h
  split_ifs at h with hop hregs h0 hlw himm h64 himm <;> cases h
  · exact .lwsp hlw (by omega) (by omega) (by rw [ScaledOffset]; omega)
  · exact .ldsp (by tauto) (by omega) (by omega) (not_not.mp h64) (by rw [ScaledOffset]; omega)

theorem cMapCssSpStore_rule (h : cMapCssSpStore n = some ch) : CRule cfg n ch := by
  rw [cMapCssSpStore] at h
  split_ifs at h with hop hregs h0 hsw himm himm <;> cases h
  · exact .swsp hsw (by omega) (by rw [ScaledOffset]; omega)
  · exact .sdsp (by tauto) (by omega) (by rw [ScaledOffset]; omega)

theorem cMapCbBranchz_rule (h : cMapCbBranchz n = some ch) : CRule cfg n ch := by
  rw [cMapCbBranchz] at h
  split_ifs at h with hop h2 hp heven himm hbeq <;> cases h
  all_goals
    refine .branchz (by tauto) (not_not.mp h2) (inPrime_iff.mp (by simpa using hp)) ?_
    exact ⟨not_not.mp heven, by rw [if_neg (by decide)]; omega⟩

theorem cMapCjJump_rule (h : cMapCjJump cfg n = some ch) : CRule cfg n ch := by
  rw [cMapCjJump] at h
  split_ifs at h with hop hrd h32 heven himm h0 <;> cases h
  all_goals
    refine .jump (not_not.mp hop) ?_ ⟨not_not.mp heven, by rw [if_pos (by decide)]; omega⟩
  · exact .inl ⟨h0, rfl⟩
  · have h1 : n.rd = 1 := by omega
    exact .inr ⟨h1, rfl, by tauto⟩

theorem cTryMap_rule (h : cTryMap cfg n = some ch) : CRule cfg n ch := by
  rw [cTryMap] at h
  repeat' (replace h := orElse_eq_some h; rcases h with h | h)
  exacts [cMapAddiSelf_rule h, cMapLiViaAddi_rule h, cMapNop_rule h, cMapSlli_rule h,
    cMapSrxiPrime_rule h, cMapAndiPrime_rule h, cMapMv_rule h, cMapAddCr_rule h,
    cMapJr_rule h, cMapJalr_rule h, cMapEbreak_rule h, cMapCaAlu_rule h,
    cMapCawAlu64_rule h, cMapClLoad_rule h, cMapCsStore_rule h, cMapCiSpLoad_rule h,
    cMapCssSpStore_rule h, cMapCbBranchz_rule h, cMapCjJump_rule h]

end

/-- A form found for an entry expands to that entry. -/
theorem CRule.expand {cfg : Config} {n : IrEntry} {ch : CChoice} (h : CRule cfg n ch)
    (hn : n.Attempted cfg) : ch.expand = some n.args := by
  cases h with
  | addi hop hrd h0 himm => rw [hn.args_i (by rw [hop]; rfl), hop, ← hrd]; rfl
  | li hop h1 h0 hne himm => rw [hn.args_i (by rw [hop]; rfl), hop, h1]; rfl
  | nop hop h0 h1 himm => rw [hn.args_i (by rw [hop]; rfl), hop, h0, h1, himm]; rfl
  | slli hop hrd h0 himm => rw [hn.args_i (by rw [hop]; rfl), hop, ← hrd]; rfl
  | srli hop hrd hp himm => rw [hn.args_i (by rw [hop]; rfl), hop, ← hrd]; rfl
  | srai hop hrd hp himm => rw [hn.args_i (by rw [hop]; rfl), hop, ← hrd]; rfl
  | andi hop hrd hp himm => rw [hn.args_i (by rw [hop]; rfl), hop, ← hrd]; rfl
  | mv hop h0 h2 h1 => rw [hn.args_r (by rw [hop]; rfl), hop, h1]; rfl
  | add hop hrd h0 h2 => rw [hn.args_r (by rw [hop]; rfl), hop, ← hrd]; rfl
  | jr hop h0 himm h1 => rw [hn.args_i (by rw [hop]; rfl), hop, h0, himm]; rfl
  | jalr hop h0 himm h1 => rw [hn.args_i (by rw [hop]; rfl), hop, h0, himm]; rfl
  | ebreak hop => rw [hn.args_ebreak hop]; rfl
  | ca hop hrd hp hp2 =>
    obtain ⟨hop, rfl⟩ | ⟨hop, rfl⟩ | ⟨hop, rfl⟩ | ⟨hop, rfl⟩ := hop <;>
      rw [hn.args_r (by rw [hop]; rfl), hop, ← hrd] <;> rfl
  | caw h64 hop hrd hp hp2 =>
    obtain ⟨hop, rfl⟩ | ⟨hop, rfl⟩ := hop <;>
      rw [hn.args_r (by rw [hop]; rfl), hop, ← hrd] <;> rfl
  | lw hop hp hp1 himm => rw [hn.args_i (by rw [hop]; rfl), hop]; rfl
  | ld hop hp hp1 h64 himm => rw [hn.args_i (by rw [hop]; rfl), hop]; rfl
  | sw hop hp2 hp1 himm => rw [hn.args_s (by rw [hop]; rfl), hop]; rfl
  | sd hop hp2 hp1 himm => rw [hn.args_s (by rw [hop]; rfl), hop]; rfl
  | lwsp hop h0 h1 himm => rw [hn.args_i (by rw [hop]; rfl), hop, h1]; rfl
  | ldsp hop h0 h1 h64 himm => rw [hn.args_i (by rw [hop]; rfl), hop, h1]; rfl
  | swsp hop h1 himm => rw [hn.args_s (by rw [hop]; rfl), hop, h1]; rfl
  | sdsp hop h1 himm => rw [hn.args_s (by rw [hop]; rfl), hop, h1]; rfl
  | branchz hop h2 hp himm =>
    obtain ⟨hop, rfl⟩ | ⟨hop, rfl⟩ := hop <;> rw [hn.args_b (by rw [hop]; rfl), hop, h2] <;> rfl
  | jump hop hrd himm =>
    obtain ⟨hrd, rfl⟩ | ⟨hrd, rfl, -⟩ := hrd <;>
      rw [hn.args_j (by rw [hop]; rfl), hop, hrd] <;> rfl

theorem ScaledOffset.wrapped {scale top imm : ℤ} (htop : top < 2 ^ 32)
    (h : ScaledOffset scale top imm) : WrappedOffset scale top imm := by
  have hmod : imm % 2 ^ 32 = imm := Int.emod_eq_of_lt h.1 (lt_of_le_of_lt h.2.2 htop)
  rw [wrappedOffset_iff, hmod]
  exact ⟨h.1, h⟩

theorem maxShift_eq (cfg : Config) : maxShift cfg = ciMaxSh cfg := by
  rw [maxShift, ciMaxSh]
  split_ifs <;> rfl

theorem CRule.form {cfg : Config} {n : IrEntry} {ch : CChoice} (h : CRule cfg n ch) :
    ((cEncodingTable ch.op).needsC = true ∧ (cEncodingTable ch.op).fmt = ch.fmt) ∧
      ((cEncodingTable ch.op).rv32 = false → n.op = .sd ∨ cfg.xlen = 64) ∧
      ((cEncodingTable ch.op).rv64 = false → cfg.xlen = 32) := by
  -- where the table allows a width, the premise is `true = false`
  have hany : ∀ {P : Prop}, true = false → P := fun h => absurd h (by decide)
  cases h with
  | ca hop =>
    obtain ⟨-, rfl⟩ | ⟨-, rfl⟩ | ⟨-, rfl⟩ | ⟨-, rfl⟩ := hop <;> exact ⟨⟨rfl, rfl⟩, hany, hany⟩
  | caw h64 hop =>
    obtain ⟨-, rfl⟩ | ⟨-, rfl⟩ := hop <;> exact ⟨⟨rfl, rfl⟩, fun _ => .inr h64, hany⟩
  | ld _ _ _ h64 => exact ⟨⟨rfl, rfl⟩, fun _ => .inr h64, hany⟩
  | ldsp _ _ _ h64 => exact ⟨⟨rfl, rfl⟩, fun _ => .inr h64, hany⟩
  | sd hop => exact ⟨⟨rfl, rfl⟩, fun _ => .inl hop, hany⟩
  | sdsp hop => exact ⟨⟨rfl, rfl⟩, fun _ => .inl hop, hany⟩
  | branchz hop => obtain ⟨-, rfl⟩ | ⟨-, rfl⟩ := hop <;> exact ⟨⟨rfl, rfl⟩, hany, hany⟩
  | jump _ hrd =>
    obtain ⟨-, rfl⟩ | ⟨-, rfl, h32⟩ := hrd
    · exact ⟨⟨rfl, rfl⟩, hany, hany⟩
    · exact ⟨⟨rfl, rfl⟩, hany, fun _ => h32⟩
  | _ => exact ⟨⟨rfl, rfl⟩, hany, hany⟩

theorem CRule.available {cfg : Config} {n : IrEntry} {ch : CChoice} (h : CRule cfg n ch)
    (hC : cfg.extC = true) (hsd : n.op = .sd → cfg.xlen = 64) : CAvailable cfg ch.op := by
  obtain ⟨hform, h32, h64⟩ := h.form
  exact (cAvailable_iff hC hform.1).mpr ⟨fun hno => (h32 hno).elim hsd id, h64⟩

def CChoice.Takes (ch : CChoice) (imm : ℤ) : Prop :=
  if isPcRel ch.op then CReach ch.op imm else imm = ch.imm

theorem CRule.takes {cfg : Config} {n : IrEntry} {ch : CChoice} (h : CRule cfg n ch) :
    ch.Takes ch.imm := by
  cases h with
  | ca hop => obtain ⟨-, rfl⟩ | ⟨-, rfl⟩ | ⟨-, rfl⟩ | ⟨-, rfl⟩ := hop <;> rfl
  | caw _ hop => obtain ⟨-, rfl⟩ | ⟨-, rfl⟩ := hop <;> rfl
  | branchz hop _ _ himm => obtain ⟨-, rfl⟩ | ⟨-, rfl⟩ := hop <;> exact himm
  | jump _ hrd himm => obtain ⟨-, rfl⟩ | ⟨-, rfl, -⟩ := hrd <;> exact himm
  | _ => rfl

theorem CRule.accepted {cfg : Config} {n : IrEntry} {ch : CChoice} (h : CRule cfg n ch)
    (hav : CAvailable cfg ch.op) {imm : ℤ} (ht : ch.Takes imm) :
    CAccepted cfg ch.op ch.rd ch.rs1 ch.rs2 imm := by
  have hsh := maxShift_eq cfg
  cases h with
  | addi hop hrd h0 himm => cases ht; exact ⟨hav, .inr ⟨h0, himm⟩⟩
  | li hop h1 h0 hne himm => cases ht; exact ⟨hav, h0, himm, hne⟩
  | nop hop h0 h1 himm => cases ht; exact ⟨hav, .inl ⟨rfl, rfl⟩⟩
  | slli hop hrd h0 himm => cases ht; exact ⟨hav, h0, himm.1, hsh ▸ himm.2⟩
  | srli hop hrd hp himm => cases ht; exact ⟨hav, hp, himm.1, hsh ▸ himm.2⟩
  | srai hop hrd hp himm => cases ht; exact ⟨hav, hp, himm.1, hsh ▸ himm.2⟩
  | andi hop hrd hp himm => cases ht; exact ⟨hav, hp, himm⟩
  | mv hop h0 h2 h1 => exact ⟨hav, h0, h2, rfl⟩
  | add hop hrd h0 h2 => exact ⟨hav, h0, h2, rfl⟩
  | jr hop h0 himm h1 => exact ⟨hav, h1, rfl⟩
  | jalr hop h0 himm h1 => exact ⟨hav, h1, rfl⟩
  | ebreak hop => exact ⟨hav, rfl, rfl, rfl⟩
  | ca hop hrd hp hp2 =>
    obtain ⟨-, rfl⟩ | ⟨-, rfl⟩ | ⟨-, rfl⟩ | ⟨-, rfl⟩ := hop <;> exact ⟨hav, hp, hp2, rfl⟩
  | caw h64 hop hrd hp hp2 =>
    obtain ⟨-, rfl⟩ | ⟨-, rfl⟩ := hop <;> exact ⟨hav, hp, hp2, rfl⟩
  | lw hop hp hp1 himm => cases ht; exact ⟨hav, ⟨hp, hp1⟩, himm.wrapped (by decide)⟩
  | ld hop hp hp1 h64 himm => cases ht; exact ⟨hav, ⟨hp, hp1⟩, himm.wrapped (by decide)⟩
  | sw hop hp2 hp1 himm => cases ht; exact ⟨hav, ⟨hp1, hp2⟩, himm.wrapped (by decide)⟩
  | sd hop hp2 hp1 himm => cases ht; exact ⟨hav, ⟨hp1, hp2⟩, himm.wrapped (by decide)⟩
  | lwsp hop h0 h1 himm => cases ht; exact ⟨hav, rfl, h0, himm⟩
  | ldsp hop h0 h1 h64 himm => cases ht; exact ⟨hav, rfl, h0, himm⟩
  | swsp hop h1 himm => cases ht; exact ⟨hav, rfl, himm.wrapped (by decide)⟩
  | sdsp hop h1 himm => cases ht; exact ⟨hav, rfl, himm.wrapped (by decide)⟩
  | branchz hop h2 hp himm =>
    obtain ⟨-, rfl⟩ | ⟨-, rfl⟩ := hop <;> exact ⟨hav, hp, ht.1, ht.2⟩
  | jump hop hrd himm =>
    obtain ⟨-, rfl⟩ | ⟨-, rfl, -⟩ := hrd
    · exact ⟨.inl rfl, hav, ht.1, ht.2⟩
    · exact ⟨.inr rfl, hav, ht.1, ht.2⟩

/-- What a form has to be for the entry it stands for: the same instruction, and one its
encoder takes whenever the entry's own takes the entry. -/
structure CStandsFor (cfg : Config) (n : IrEntry) (ch : CChoice) : Prop where
  expand : ch.expand = some n.args
  accepted : ∀ line w, requireForOp cfg n.op line = .ok () →
    encodeInstruction cfg n.op n.fmt n.rd n.rs1 n.rs2 n.imm line = .ok w →
      requireCForOp cfg ch.op line = .ok () ∧
        ∃ h, cEncodeInstruction cfg ch.op ch.fmt ch.rd ch.rs1 ch.rs2 ch.imm line = .ok h
  resolved : ∀ line imm, requireForOp cfg n.op line = .ok () → isPcRel ch.op = true →
    CReach ch.op imm →
      ∃ h, cEncodeInstruction cfg ch.op ch.fmt ch.rd ch.rs1 ch.rs2 imm line = .ok h

/-- A form that `c_try_map` finds for an entry of the grammar stands for it. -/
theorem cTryMap_sound (cfg : Config) (i : Instruction) (n : IrEntry) (hn : n.args ∈ i.emits)
    (hfmt : isCFmt n.fmt = false) (hcan : pass2NodeCanAttempt cfg n = true) (ch : CChoice)
    (h : cTryMap cfg n = some ch) : CStandsFor cfg n ch := by
  have hatt := IrEntry.attempted hn hfmt hcan
  have hrule := cTryMap_rule h
  have havail : ∀ line, requireForOp cfg n.op line = .ok () → CAvailable cfg ch.op :=
    fun line hreq => hrule.available hatt.extC fun hsd => by
      rw [hsd] at hreq
      exact xlen_of_requireForOp hreq rfl
  have hencode : ∀ line imm, requireForOp cfg n.op line = .ok () → ch.Takes imm →
      ∃ w, cEncodeInstruction cfg ch.op ch.fmt ch.rd ch.rs1 ch.rs2 imm line = .ok w := by
    intro line imm hreq ht
    have hav := havail line hreq
    rw [← hrule.form.1.2]
    exact (cEncodeInstruction_accepts hav.2.1).mpr (hrule.accepted hav ht)
  exact {
    expand := hrule.expand hatt
    accepted := fun line w hreq _ =>
      ⟨requireCForOp_ok.mpr (havail line hreq), hencode line ch.imm hreq hrule.takes⟩
    resolved := fun line imm hreq hpc hreach =>
      hencode line imm hreq (by rw [CChoice.Takes, if_pos hpc]; exact hreach) }

def branchEntry : IrEntry :=
  { op := .beq, fmt := .b, rs1 := 8, label := some (letter 0).toCString, reloc := .boff, size := 4,
    canCompress := true }

theorem cTryMap_sound_branch :
    CStandsFor (passSetArch 64 false true true) branchEntry
      { op := .cBeqz, fmt := .cb, rs1 := 8, label := some (letter 0).toCString, reloc := .boff } :=
  cTryMap_sound (passSetArch 64 false true true) (.beqLabel (reg 8) (reg 0) (letter 0))
    branchEntry (List.mem_singleton.mpr rfl) rfl rfl _ rfl

end RvAssembler
