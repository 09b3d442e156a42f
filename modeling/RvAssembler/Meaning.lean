import RvAssembler.Hart
import RvAssembler.Stream

namespace RvAssembler

variable {w : ℕ}

/-- The effect of a statement that takes `len` bytes.  Labels stand for addresses, and so does
`la`. -/
def Instruction.meaning (p : Platform w) (target : CString → Option (BitVec w)) (len : ℕ)
    (h : Hart w) (i : Instruction) : Option (Hart w) :=
  let opR (op : Opcode) (rd rs1 rs2 : Reg) := exec p len h (op, .r rd.val rs1.val rs2.val)
  let opI (op : Opcode) (rd rs1 : Reg) (imm : Int64) :=
    exec p len h (op, .i rd.val rs1.val imm.toInt)
  let opS (op : Opcode) (rs1 rs2 : Reg) (imm : Int64) :=
    exec p len h (op, .s rs1.val rs2.val imm.toInt)
  let opB (op : Opcode) (rs1 rs2 : Reg) (imm : Int64) :=
    exec p len h (op, .b rs1.val rs2.val imm.toInt)
  let value (imm : Int64) : BitVec w := BitVec.ofInt w imm.toInt
  let even (a : BitVec w) : BitVec w := a &&& ~~~1
  let branchTo (cond : Bool) (l : Identifier) := (target l.toCString).bind (h.branch p len cond)
  let callTo (rd : Reg) (l : Identifier) := (target l.toCString).bind (h.call p len rd)
  match i with
  | .add rd rs1 rs2 => opR .add rd rs1 rs2
  | .sub rd rs1 rs2 => opR .sub rd rs1 rs2
  | .sll rd rs1 rs2 => opR .sll rd rs1 rs2
  | .slt rd rs1 rs2 => opR .slt rd rs1 rs2
  | .sltu rd rs1 rs2 => opR .sltu rd rs1 rs2
  | .xor rd rs1 rs2 => opR .xor rd rs1 rs2
  | .srl rd rs1 rs2 => opR .srl rd rs1 rs2
  | .sra rd rs1 rs2 => opR .sra rd rs1 rs2
  | .or rd rs1 rs2 => opR .or rd rs1 rs2
  | .and rd rs1 rs2 => opR .and rd rs1 rs2
  | .mul rd rs1 rs2 => opR .mul rd rs1 rs2
  | .mulh rd rs1 rs2 => opR .mulh rd rs1 rs2
  | .mulhsu rd rs1 rs2 => opR .mulhsu rd rs1 rs2
  | .mulhu rd rs1 rs2 => opR .mulhu rd rs1 rs2
  | .div rd rs1 rs2 => opR .div rd rs1 rs2
  | .divu rd rs1 rs2 => opR .divu rd rs1 rs2
  | .rem rd rs1 rs2 => opR .rem rd rs1 rs2
  | .remu rd rs1 rs2 => opR .remu rd rs1 rs2
  | .addw rd rs1 rs2 => opR .addw rd rs1 rs2
  | .subw rd rs1 rs2 => opR .subw rd rs1 rs2
  | .sllw rd rs1 rs2 => opR .sllw rd rs1 rs2
  | .srlw rd rs1 rs2 => opR .srlw rd rs1 rs2
  | .sraw rd rs1 rs2 => opR .sraw rd rs1 rs2
  | .mulw rd rs1 rs2 => opR .mulw rd rs1 rs2
  | .divw rd rs1 rs2 => opR .divw rd rs1 rs2
  | .divuw rd rs1 rs2 => opR .divuw rd rs1 rs2
  | .remw rd rs1 rs2 => opR .remw rd rs1 rs2
  | .remuw rd rs1 rs2 => opR .remuw rd rs1 rs2
  | .neg rd rs2 => some (h.write len rd (-h.get rs2))
  | .snez rd rs2 => some (h.write len rd (flag (h.get rs2 ≠ 0)))
  | .addi rd rs1 imm => opI .addi rd rs1 imm
  | .slli rd rs1 imm => opI .slli rd rs1 imm
  | .slti rd rs1 imm => opI .slti rd rs1 imm
  | .sltiu rd rs1 imm => opI .sltiu rd rs1 imm
  | .xori rd rs1 imm => opI .xori rd rs1 imm
  | .ori rd rs1 imm => opI .ori rd rs1 imm
  | .andi rd rs1 imm => opI .andi rd rs1 imm
  | .srli rd rs1 imm => opI .srli rd rs1 imm
  | .srai rd rs1 imm => opI .srai rd rs1 imm
  | .addiw rd rs1 imm => opI .addiw rd rs1 imm
  | .slliw rd rs1 imm => opI .slliw rd rs1 imm
  | .srliw rd rs1 imm => opI .srliw rd rs1 imm
  | .sraiw rd rs1 imm => opI .sraiw rd rs1 imm
  | .jalr rd imm rs1 => opI .jalr rd rs1 imm
  | .lw rd imm rs1 => opI .lw rd rs1 imm
  | .lb rd imm rs1 => opI .lb rd rs1 imm
  | .lh rd imm rs1 => opI .lh rd rs1 imm
  | .lbu rd imm rs1 => opI .lbu rd rs1 imm
  | .lhu rd imm rs1 => opI .lhu rd rs1 imm
  | .lwu rd imm rs1 => opI .lwu rd rs1 imm
  | .ld rd imm rs1 => opI .ld rd rs1 imm
  | .nop => some (h.advance len)
  | .mv rd rs1 => some (h.write len rd (h.get rs1))
  | .li rd imm => some (h.write len rd (value imm))
  | .subi rd rs1 imm => some (h.write len rd (h.get rs1 - value imm))
  | .seqz rd rs1 => some (h.write len rd (flag (h.get rs1 = 0)))
  | .jr rs1 => h.goto p (even (h.get rs1))
  | .ret => h.goto p (even (h.get (regNo 1)))
  | .ebreak => p.ebreak h
  | .ecall => p.ecall h
  | .sw rs2 imm rs1 => opS .sw rs1 rs2 imm
  | .sb rs2 imm rs1 => opS .sb rs1 rs2 imm
  | .sh rs2 imm rs1 => opS .sh rs1 rs2 imm
  | .sd rs2 imm rs1 => opS .sd rs1 rs2 imm
  | .beq rs1 rs2 imm => opB .beq rs1 rs2 imm
  | .beqLabel rs1 rs2 l => branchTo (h.get rs1 = h.get rs2) l
  | .bne rs1 rs2 imm => opB .bne rs1 rs2 imm
  | .bneLabel rs1 rs2 l => branchTo (h.get rs1 ≠ h.get rs2) l
  | .blt rs1 rs2 imm => opB .blt rs1 rs2 imm
  | .bltLabel rs1 rs2 l => branchTo ((h.get rs1).slt (h.get rs2)) l
  | .bge rs1 rs2 imm => opB .bge rs1 rs2 imm
  | .bgeLabel rs1 rs2 l => branchTo (!(h.get rs1).slt (h.get rs2)) l
  | .bltu rs1 rs2 imm => opB .bltu rs1 rs2 imm
  | .bltuLabel rs1 rs2 l => branchTo ((h.get rs1).ult (h.get rs2)) l
  | .bgeu rs1 rs2 imm => opB .bgeu rs1 rs2 imm
  | .bgeuLabel rs1 rs2 l => branchTo (!(h.get rs1).ult (h.get rs2)) l
  | .beqz rs1 imm => h.branch p len (h.get rs1 = 0) (h.pc + value imm)
  | .beqzLabel rs1 l => branchTo (h.get rs1 = 0) l
  | .bnez rs1 imm => h.branch p len (h.get rs1 ≠ 0) (h.pc + value imm)
  | .bnezLabel rs1 l => branchTo (h.get rs1 ≠ 0) l
  | .j imm => h.goto p (h.pc + value imm)
  | .jLabel l => (target l.toCString).bind (h.goto p)
  | .jal rd imm => h.call p len rd (h.pc + value imm)
  | .jalLabel rd l => callTo rd l
  | .auipc rd imm => some (h.write len rd (h.pc + value imm))
  | .lui rd imm => some (h.write len rd (value imm))
  | .la rd l => (target l.toCString).map (h.write len rd)
  | .cSub rd rs2 => opR .sub rd rd rs2
  | .cXor rd rs2 => opR .xor rd rd rs2
  | .cOr rd rs2 => opR .or rd rd rs2
  | .cAnd rd rs2 => opR .and rd rd rs2
  | .cSubw rd rs2 => opR .subw rd rd rs2
  | .cAddw rd rs2 => opR .addw rd rd rs2
  | .cAdd rd rs2 => opR .add rd rd rs2
  | .cJalr rs1 => h.call p len (regNo 1) (even (h.get rs1))
  | .cEbreak => p.ebreak h
  | .cJr rs1 => h.goto p (even (h.get rs1))
  | .cMv rd rs2 => some (h.write len rd (h.get rs2))
  | .cAddi rd imm => opI .addi rd rd imm
  | .cAddiw rd imm => opI .addiw rd rd imm
  | .cSrli rd imm => opI .srli rd rd imm
  | .cSlli rd imm => opI .slli rd rd imm
  | .cSrai rd imm => opI .srai rd rd imm
  | .cAndi rd imm => opI .andi rd rd imm
  | .cNop => some (h.advance len)
  | .cLi rd imm => some (h.write len rd (value imm))
  | .cLui rd imm => some (h.write len rd (BitVec.ofInt w (imm.toInt * 2 ^ 12)))
  | .cLwsp rd imm => opI .lw rd (regNo 2) imm
  | .cLdsp rd imm => opI .ld rd (regNo 2) imm
  | .cLw rd imm rs1 => opI .lw rd rs1 imm
  | .cLd rd imm rs1 => opI .ld rd rs1 imm
  | .cSw rs2 imm rs1 => opS .sw rs1 rs2 imm
  | .cSd rs2 imm rs1 => opS .sd rs1 rs2 imm
  | .cBeqz rs1 imm => h.branch p len (h.get rs1 = 0) (h.pc + value imm)
  | .cBeqzLabel rs1 l => branchTo (h.get rs1 = 0) l
  | .cBnez rs1 imm => h.branch p len (h.get rs1 ≠ 0) (h.pc + value imm)
  | .cBnezLabel rs1 l => branchTo (h.get rs1 ≠ 0) l
  | .cJ imm => h.goto p (h.pc + value imm)
  | .cJLabel l => (target l.toCString).bind (h.goto p)
  | .cJal imm => h.call p len (regNo 1) (h.pc + value imm)
  | .cJalLabel l => callTo (regNo 1) l
  | .cSwsp rs2 imm => opS .sw (regNo 2) rs2 imm
  | .cSdsp rs2 imm => opS .sd (regNo 2) rs2 imm

/-- The machine instruction of a call, with the given immediate. -/
def InstrArgs.machine (a : InstrArgs) (imm : ℤ) : Option (Opcode × Operands) :=
  if isCFmt a.fmt then expandC (a.op, cOperandsOf a.op a.rd a.rs1 a.rs2 imm)
  else some (a.op, operandsOf a.op a.fmt a.rd a.rs1 a.rs2 imm)

/-- The immediate that stands for the operand of a call: its own, or the distance to its
label. -/
def InstrArgs.Resolves (target : CString → Option (BitVec w)) (pc : BitVec w) (a : InstrArgs)
    (imm : ℤ) : Prop :=
  match a.label with
  | none => imm = a.imm
  | some l => target l = some (pc + BitVec.ofInt w imm)

theorem ofInt_bmod (hw : w ≤ 64) (x : ℤ) : BitVec.ofInt w (Int.bmod x (2 ^ 64)) = BitVec.ofInt w x := by
  apply BitVec.eq_of_toInt_eq
  rw [BitVec.toInt_ofInt, BitVec.toInt_ofInt]
  exact Int.bmod_bmod_of_dvd (Nat.pow_dvd_pow 2 hw)

theorem ofInt_neg_toInt (hw : w ≤ 64) (imm : Int64) :
    BitVec.ofInt w (-imm).toInt = -BitVec.ofInt w imm.toInt := by
  rw [Int64.toInt_neg, ofInt_bmod hw, BitVec.ofInt_neg]

theorem ult_one (hw : 0 < w) (x : BitVec w) : x.ult 1#w = decide (x = 0#w) := by
  have hone : (1#w).toNat = 1 := by
    rw [BitVec.toNat_ofNat]
    exact Nat.mod_eq_of_lt (Nat.one_lt_two_pow hw.ne')
  rw [BitVec.ult, decide_eq_decide, hone, Nat.lt_one_iff]
  exact BitVec.toNat_inj (y := 0#w)

theorem zero_ult (x : BitVec w) : (0#w).ult x = decide (x ≠ 0#w) := by
  rw [BitVec.ult, decide_eq_decide, BitVec.toNat_zero, Nat.pos_iff_ne_zero]
  exact not_congr (BitVec.toNat_inj (y := 0#w))

section

variable (p : Platform w) (len : ℕ) (h : Hart w)

/-- The machine instruction recorded for a statement does what the statement means. -/
theorem Instruction.meaning_eq (hw : w = 32 ∨ w = 64) {i : Instruction}
    (hla : ∀ rd l, i ≠ .la rd l) {a : InstrArgs} (ha : a ∈ i.emits)
    {target : CString → Option (BitVec w)} {imm : ℤ} (himm : a.Resolves target h.pc imm) :
    i.meaning p target len h = (a.machine imm).bind (exec p len h) := by
  have hpos : 0 < w := by omega
  have hle : w ≤ 64 := by omega
  cases i with
  | la rd l => exact absurd rfl (hla rd l)
  | beqLabel | bneLabel | bltLabel | bgeLabel | bltuLabel | bgeuLabel | beqzLabel | bnezLabel
  | jLabel | jalLabel | cBeqzLabel | cBnezLabel | cJLabel | cJalLabel =>
    obtain rfl := List.mem_singleton.mp ha
    simp only [InstrArgs.Resolves, labelArgs] at himm
    simp [Instruction.meaning, himm, InstrArgs.machine, labelArgs, isCFmt, operandsOf, exec,
      branchCond, expandC, cOperandsOf]
  | subi rd rs1 imm =>
    obtain rfl := List.mem_singleton.mp ha
    obtain rfl := himm
    change some (h.write len rd (h.get rs1 - BitVec.ofInt w imm.toInt)) =
      some (h.write len (regNo rd.val) (h.get (regNo rs1.val) + BitVec.ofInt w (-imm).toInt))
    rw [regNo_val, regNo_val, ofInt_neg_toInt hle, BitVec.sub_eq_add_neg]
  | neg | snez | nop | mv | li | seqz | jr | ret | ebreak | ecall | beqz | bnez | j | jal
  | auipc | lui | cJalr | cEbreak | cJr | cMv | cNop | cLi | cLui | cBeqz | cBnez | cJ | cJal =>
    obtain rfl := List.mem_singleton.mp ha
    obtain rfl := himm
    simp [Instruction.meaning, InstrArgs.machine, regArgs, immArgs, srcArgs, isCFmt, operandsOf,
      isSystem, exec, result, wordOp, registerOp, aluOp, loadForm, branchCond, expandC,
      cOperandsOf, ult_one hpos, zero_ult]
  | _ =>
    obtain rfl := List.mem_singleton.mp ha
    obtain rfl := himm
    rfl

end

end RvAssembler
