import RvAssembler.Pass

namespace RvAssembler

def inPrime (r : ℤ) : Bool := ¬ (r < 8 ∨ r > 15)

def maxShift (cfg : Config) : ℤ := if cfg.xlen = 64 then 63 else 31

def cMapAddiSelf (n : IrEntry) : Option CChoice :=
  if n.op ≠ .addi then none
  else if n.rd ≠ n.rs1 then none
  else if n.imm < -32 ∨ n.imm > 31 then none
  else if n.rd = 0 then none
  else some { fmt := .ci, rd := n.rd, rs1 := n.rd, imm := n.imm, op := .cAddi }

def cMapLiViaAddi (n : IrEntry) : Option CChoice :=
  if n.op ≠ .addi then none
  else if n.rs1 ≠ 0 ∨ n.rd = 0 then none
  else if n.imm = 0 then none
  else if n.imm < -32 ∨ n.imm > 31 then none
  else some { fmt := .ci, rd := n.rd, rs1 := 0, imm := n.imm, op := .cLi }

def cMapNop (n : IrEntry) : Option CChoice :=
  if n.rd ≠ 0 ∨ n.rs1 ≠ 0 ∨ n.imm ≠ 0 then none
  else if n.op ≠ .addi then none
  else some { fmt := .ci, op := .cAddi }

def cMapSlli (cfg : Config) (n : IrEntry) : Option CChoice :=
  if n.rd = 0 then none
  else if n.rd ≠ n.rs1 then none
  else if n.op ≠ .slli then none
  else if n.imm < 0 ∨ n.imm > maxShift cfg then none
  else some { fmt := .ci, rd := n.rd, rs1 := n.rd, imm := n.imm, op := .cSlli }

def cMapSrxiPrime (cfg : Config) (n : IrEntry) : Option CChoice :=
  if n.rd ≠ n.rs1 then none
  else if n.op ≠ .srai ∧ n.op ≠ .srli then none
  else if !inPrime n.rd then none
  else if n.imm < 0 ∨ n.imm > maxShift cfg then none
  else some
    { op := if n.op = .srai then .cSrai else .cSrli
      fmt := .ci, rd := n.rd, rs1 := n.rd, imm := n.imm }

def cMapAndiPrime (n : IrEntry) : Option CChoice :=
  if n.rd ≠ n.rs1 then none
  else if !inPrime n.rd then none
  else if n.imm < -32 ∨ n.imm > 31 then none
  else if n.op ≠ .andi then none
  else some { fmt := .ci, rd := n.rd, rs1 := n.rd, imm := n.imm, op := .cAndi }

def cMapMv (n : IrEntry) : Option CChoice :=
  if n.rd = 0 ∨ n.rs2 = 0 ∨ n.rs1 ≠ 0 then none
  else if n.op ≠ .add then none
  else some { fmt := .cr, rd := n.rd, rs1 := 0, rs2 := n.rs2, op := .cMv }

def cMapAddCr (n : IrEntry) : Option CChoice :=
  if n.op ≠ .add then none
  else if n.rd ≠ n.rs1 then none
  else if n.rd = 0 ∨ n.rs2 = 0 then none
  else some { fmt := .cr, rd := n.rd, rs1 := n.rd, rs2 := n.rs2, op := .cAdd }

def cMapJr (n : IrEntry) : Option CChoice :=
  if n.rd ≠ 0 ∨ n.imm ≠ 0 ∨ n.rs1 = 0 then none
  else if n.op ≠ .jalr then none
  else some { fmt := .cr, rd := 0, rs1 := n.rs1, op := .cJr }

def cMapJalr (n : IrEntry) : Option CChoice :=
  if n.rd ≠ 1 ∨ n.rs1 = 0 ∨ n.imm ≠ 0 then none
  else if n.op ≠ .jalr then none
  else some { fmt := .cr, rd := 1, rs1 := n.rs1, op := .cJalr }

def cMapEbreak (n : IrEntry) : Option CChoice :=
  if n.op ≠ .ebreak then none else some { fmt := .cr, op := .cEbreak }

def cMapCaAlu (n : IrEntry) : Option CChoice :=
  if n.op ≠ .sub ∧ n.op ≠ .xor ∧ n.op ≠ .or ∧ n.op ≠ .and then none
  else if n.rd ≠ n.rs1 then none
  else if !inPrime n.rs2 || !inPrime n.rd then none
  else some
    { op := if n.op = .sub then .cSub else if n.op = .xor then .cXor
        else if n.op = .or then .cOr else .cAnd
      fmt := .ca, rd := n.rd, rs1 := n.rs1, rs2 := n.rs2 }

def cMapCawAlu64 (cfg : Config) (n : IrEntry) : Option CChoice :=
  if cfg.xlen ≠ 64 then none
  else if n.op ≠ .subw ∧ n.op ≠ .addw then none
  else if n.rd ≠ n.rs1 then none
  else if !inPrime n.rd || !inPrime n.rs2 then none
  else some
    { op := if n.op = .subw then .cSubw else .cAddw
      fmt := .ca, rd := n.rd, rs1 := n.rd, rs2 := n.rs2 }

def cMapClLoad (cfg : Config) (n : IrEntry) : Option CChoice :=
  if n.op ≠ .lw ∧ n.op ≠ .ld then none
  else if !inPrime n.rd || !inPrime n.rs1 then none
  else if n.imm < 0 then none
  else if n.op = .lw then
    if n.imm % 4 ≠ 0 ∨ n.imm > 124 then none
    else some { op := .cLw, fmt := .cl, rd := n.rd, rs1 := n.rs1, imm := n.imm }
  else if cfg.xlen ≠ 64 then none
  else if n.imm % 8 ≠ 0 ∨ n.imm > 248 then none
  else some { op := .cLd, fmt := .cl, rd := n.rd, rs1 := n.rs1, imm := n.imm }

/-- `sw`/`sd rs2, u(rs1)` to `c.sw`/`c.sd`; the width of the target is not asked for. -/
def cMapCsStore (n : IrEntry) : Option CChoice :=
  if n.op ≠ .sw ∧ n.op ≠ .sd then none
  else if !inPrime n.rs2 || !inPrime n.rs1 then none
  else if n.imm < 0 then none
  else if n.op = .sw then
    if n.imm % 4 ≠ 0 ∨ n.imm > 124 then none
    else some { op := .cSw, fmt := .cs, rs1 := n.rs1, rs2 := n.rs2, imm := n.imm }
  else if n.imm % 8 ≠ 0 ∨ n.imm > 248 then none
  else some { op := .cSd, fmt := .cs, rs1 := n.rs1, rs2 := n.rs2, imm := n.imm }

def cMapCiSpLoad (cfg : Config) (n : IrEntry) : Option CChoice :=
  if n.op ≠ .lw ∧ n.op ≠ .ld then none
  else if n.rd = 0 ∨ n.rs1 ≠ 2 then none
  else if n.imm < 0 then none
  else if n.op = .lw then
    if n.imm % 4 ≠ 0 ∨ n.imm > 252 then none
    else some { op := .cLwsp, fmt := .ci, rd := n.rd, rs1 := 2, imm := n.imm }
  else if cfg.xlen ≠ 64 then none
  else if n.imm % 8 ≠ 0 ∨ n.imm > 504 then none
  else some { op := .cLdsp, fmt := .ci, rd := n.rd, rs1 := 2, imm := n.imm }

/-- `sw`/`sd rs2, u(sp)` to `c.swsp`/`c.sdsp`; the width of the target is not asked for. -/
def cMapCssSpStore (n : IrEntry) : Option CChoice :=
  if n.op ≠ .sw ∧ n.op ≠ .sd then none
  else if n.rs2 = 0 ∨ n.rs1 ≠ 2 then none
  else if n.imm < 0 then none
  else if n.op = .sw then
    if n.imm % 4 ≠ 0 ∨ n.imm > 252 then none
    else some { op := .cSwsp, fmt := .css, rs1 := 2, rs2 := n.rs2, imm := n.imm }
  else if n.imm % 8 ≠ 0 ∨ n.imm > 504 then none
  else some { op := .cSdsp, fmt := .css, rs1 := 2, rs2 := n.rs2, imm := n.imm }

/-- `beq`/`bne rs1, x0, off` to `c.beqz`/`c.bnez`; an operand that is a label goes along. -/
def cMapCbBranchz (n : IrEntry) : Option CChoice :=
  if n.op ≠ .beq ∧ n.op ≠ .bne then none
  else if n.rs2 ≠ 0 then none
  else if !inPrime n.rs1 then none
  else if n.imm % 2 ≠ 0 then none
  else if n.imm < -256 ∨ n.imm > 254 then none
  else some
    { op := if n.op = .beq then .cBeqz else .cBnez
      fmt := .cb, rs1 := n.rs1, imm := n.imm, label := n.label, reloc := n.reloc }

/-- `jal x0`/`x1, off` to `c.j`/`c.jal`; an operand that is a label goes along. -/
def cMapCjJump (cfg : Config) (n : IrEntry) : Option CChoice :=
  if n.op ≠ .jal then none
  else if n.rd ≠ 0 ∧ n.rd ≠ 1 then none
  else if n.rd = 1 ∧ cfg.xlen ≠ 32 then none
  else if n.imm % 2 ≠ 0 then none
  else if n.imm < -2048 ∨ n.imm > 2046 then none
  else some
    { op := if n.rd = 0 then .cJ else .cJal
      fmt := .cj, rd := n.rd, imm := n.imm, label := n.label, reloc := n.reloc }

/-- `c_try_map`: the first rule that applies. -/
def cTryMap (cfg : Config) (n : IrEntry) : Option CChoice :=
  cMapAddiSelf n <|> cMapLiViaAddi n <|> cMapNop n <|> cMapSlli cfg n <|> cMapSrxiPrime cfg n <|>
    cMapAndiPrime n <|> cMapMv n <|> cMapAddCr n <|> cMapJr n <|> cMapJalr n <|>
    cMapEbreak n <|> cMapCaAlu n <|> cMapCawAlu64 cfg n <|> cMapClLoad cfg n <|> cMapCsStore n <|>
    cMapCiSpLoad cfg n <|> cMapCssSpStore n <|> cMapCbBranchz n <|> cMapCjJump cfg n

def isPcRel (op : Opcode) : Bool := op = .cBeqz || op = .cBnez || op = .cJ || op = .cJal

def isBranch (op : Opcode) : Bool :=
  op = .beq || op = .bne || op = .blt || op = .bge || op = .bltu || op = .bgeu || op = .jal ||
    isPcRel op

/-- What a rule hands out for an entry: a compressed form, which keeps the operand of a branch
or jump and has no label otherwise. -/
structure CChoice.For (ch : CChoice) (n : IrEntry) : Prop where
  fmt : isCFmt ch.fmt = true
  operand : isPcRel ch.op = true → ch.imm = n.imm ∧ ch.label = n.label ∧ ch.reloc = n.reloc
  plain : isPcRel ch.op = false → ch.label = none ∧ isBranch n.op = false

theorem CChoice.For.of_op {ch : CChoice} {n : IrEntry} (hb : isBranch n.op = false)
    (hf : isCFmt ch.fmt = true) (hop : isPcRel ch.op = false) (hl : ch.label = none) :
    ch.For n :=
  ⟨hf, fun h => absurd h (by rw [hop]; decide), fun _ => ⟨hl, hb⟩⟩

theorem CChoice.For.of_operand {ch : CChoice} {n : IrEntry} (hf : isCFmt ch.fmt = true)
    (hop : isPcRel ch.op = true) (h : ch.imm = n.imm ∧ ch.label = n.label ∧ ch.reloc = n.reloc) :
    ch.For n :=
  ⟨hf, fun _ => h, fun hf => absurd hf (by rw [hop]; decide)⟩

theorem orElse_eq_some {α : Type} {o o' : Option α} {x : α} (h : (o <|> o') = some x) :
    o = some x ∨ o' = some x := by
  cases o with
  | none => exact .inr h
  | some y => exact .inl h

theorem cTryMap_for {cfg : Config} {n : IrEntry} {ch : CChoice} (h : cTryMap cfg n = some ch) :
    ch.For n := by
  rw [cTryMap] at h
  repeat' (replace h := orElse_eq_some h; rcases h with h | h)
  all_goals
    simp only [cMapAddiSelf, cMapLiViaAddi, cMapNop, cMapSlli, cMapSrxiPrime, cMapAndiPrime,
      cMapMv, cMapAddCr, cMapJr, cMapJalr, cMapEbreak, cMapCaAlu, cMapCawAlu64, cMapClLoad,
      cMapCsStore, cMapCiSpLoad, cMapCssSpStore, cMapCbBranchz, cMapCjJump] at h
    split_ifs at h
    all_goals
      cases h
      first
        | exact .of_op (by simp_all [isBranch, isPcRel]) rfl rfl rfl
        | exact .of_operand rfl rfl ⟨rfl, rfl, rfl⟩

end RvAssembler
