import RvAssembler.CDecode
import RvAssembler.Grammar
import RvAssembler.Lib.Memory

namespace RvAssembler

/-- Registers, program counter and memory. -/
structure Hart (w : ℕ) where
  regs : Reg → BitVec w
  pc : BitVec w
  mem : Mem w

/-- What a hart is surrounded by: how instructions have to be aligned, and what answers
`ecall` and `ebreak`. -/
structure Platform (w : ℕ) where
  ialign : ℕ
  ecall : Hart w → Option (Hart w)
  ebreak : Hart w → Option (Hart w)

def regNo (r : ℤ) : Reg := ⟨r.toNat % 32, Nat.mod_lt _ (by decide)⟩

@[simp] theorem regNo_val (r : Reg) : regNo (r.val : ℤ) = r := by
  apply Fin.ext
  exact Nat.mod_eq_of_lt r.isLt

@[simp] theorem regNo_zero : regNo 0 = 0 := rfl

@[simp] theorem regNo_one : regNo 1 = 1 := rfl

@[simp] theorem regNo_two : regNo 2 = 2 := rfl

namespace Hart

variable {w : ℕ} (h : Hart w)

def get (r : Reg) : BitVec w := if r.val = 0 then 0 else h.regs r

def set (r : Reg) (v : BitVec w) : Hart w :=
  if r.val = 0 then h else { h with regs := Function.update h.regs r v }

@[simp] theorem get_zero : h.get 0 = 0 := rfl

@[simp] theorem set_zero (v : BitVec w) : h.set 0 v = h := rfl

def advance (len : ℕ) : Hart w := { h with pc := h.pc + BitVec.ofNat w len }

def write (len : ℕ) (r : Reg) (v : BitVec w) : Hart w := (h.set r v).advance len

def put (len n : ℕ) (a v : BitVec w) : Hart w :=
  { h with mem := h.mem.store n a v.toNat }.advance len

def goto (p : Platform w) (a : BitVec w) : Option (Hart w) :=
  if a.toNat % p.ialign = 0 then some { h with pc := a } else none

def call (p : Platform w) (len : ℕ) (r : Reg) (a : BitVec w) : Option (Hart w) :=
  (h.set r (h.pc + BitVec.ofNat w len)).goto p a

def branch (p : Platform w) (len : ℕ) (cond : Bool) (a : BitVec w) : Option (Hart w) :=
  if cond then h.goto p a else some (h.advance len)

@[simp] theorem call_zero (p : Platform w) (len : ℕ) (a : BitVec w) :
    h.call p len 0 a = h.goto p a := rfl

@[simp] theorem write_zero (len : ℕ) (v : BitVec w) : h.write len 0 v = h.advance len := rfl

end Hart

def flag {w : ℕ} (b : Bool) : BitVec w := if b then 1 else 0

/-- The instructions on two registers; shift amounts are taken modulo the width. -/
def aluOp {w : ℕ} (op : Opcode) (x y : BitVec w) : Option (BitVec w) :=
  match op with
  | .add => some (x + y)
  | .sub => some (x - y)
  | .sll => some (x <<< (y.toNat % w))
  | .slt => some (flag (x.slt y))
  | .sltu => some (flag (x.ult y))
  | .xor => some (x ^^^ y)
  | .srl => some (x >>> (y.toNat % w))
  | .sra => some (x.sshiftRight (y.toNat % w))
  | .or => some (x ||| y)
  | .and => some (x &&& y)
  | .mul => some (x * y)
  | .mulh => some (BitVec.ofInt w (x.toInt * y.toInt / 2 ^ w))
  | .mulhsu => some (BitVec.ofInt w (x.toInt * y.toNat / 2 ^ w))
  | .mulhu => some (BitVec.ofNat w (x.toNat * y.toNat / 2 ^ w))
  | .div => some (if y = 0 then BitVec.allOnes w else x.sdiv y)
  | .divu => some (if y = 0 then BitVec.allOnes w else x / y)
  | .rem => some (if y = 0 then x else x.srem y)
  | .remu => some (if y = 0 then x else x % y)
  | _ => none

def wordOp : Opcode → Option Opcode
  | .addw | .addiw => some .add
  | .subw => some .sub
  | .sllw | .slliw => some .sll
  | .srlw | .srliw => some .srl
  | .sraw | .sraiw => some .sra
  | .mulw => some .mul
  | .divw => some .div
  | .divuw => some .divu
  | .remw => some .rem
  | .remuw => some .remu
  | _ => none

def registerOp : Opcode → Option Opcode
  | .addi => some .add
  | .slti => some .slt
  | .sltiu => some .sltu
  | .xori => some .xor
  | .ori => some .or
  | .andi => some .and
  | .slli => some .sll
  | .srli => some .srl
  | .srai => some .sra
  | _ => none

def result {w : ℕ} (op : Opcode) (x y : BitVec w) : Option (BitVec w) :=
  match wordOp op with
  | some op => (aluOp op (x.setWidth 32) (y.setWidth 32)).map (BitVec.signExtend w)
  | none => aluOp ((registerOp op).getD op) x y

/-- The bytes a load fetches, and whether it extends their sign. -/
def loadForm : Opcode → Option (ℕ × Bool)
  | .lb => some (1, true)
  | .lh => some (2, true)
  | .lw => some (4, true)
  | .ld => some (8, true)
  | .lbu => some (1, false)
  | .lhu => some (2, false)
  | .lwu => some (4, false)
  | _ => none

def storeForm : Opcode → Option ℕ
  | .sb => some 1
  | .sh => some 2
  | .sw => some 4
  | .sd => some 8
  | _ => none

def branchCond {w : ℕ} (op : Opcode) (x y : BitVec w) : Option Bool :=
  match op with
  | .beq => some (x = y)
  | .bne => some (x ≠ y)
  | .blt => some (x.slt y)
  | .bge => some (!x.slt y)
  | .bltu => some (x.ult y)
  | .bgeu => some (!x.ult y)
  | _ => none

def loaded {w : ℕ} (m : Mem w) (a : BitVec w) (form : ℕ × Bool) : BitVec w :=
  if form.2 then BitVec.ofInt w (m.loadInt form.1 a) else BitVec.ofNat w (m.load form.1 a)

def exec {w : ℕ} (p : Platform w) (len : ℕ) (h : Hart w) : Opcode × Operands → Option (Hart w)
  | (op, .r rd rs1 rs2) =>
    (result op (h.get (regNo rs1)) (h.get (regNo rs2))).map (h.write len (regNo rd))
  | (.jalr, .i rd rs1 imm) =>
    h.call p len (regNo rd) ((h.get (regNo rs1) + BitVec.ofInt w imm) &&& ~~~1)
  | (op, .i rd rs1 imm) =>
    match loadForm op with
    | some form => some (h.write len (regNo rd)
        (loaded h.mem (h.get (regNo rs1) + BitVec.ofInt w imm) form))
    | none => (result op (h.get (regNo rs1)) (BitVec.ofInt w imm)).map (h.write len (regNo rd))
  | (op, .s rs1 rs2 imm) =>
    (storeForm op).map fun n =>
      h.put len n (h.get (regNo rs1) + BitVec.ofInt w imm) (h.get (regNo rs2))
  | (op, .b rs1 rs2 imm) =>
    (branchCond op (h.get (regNo rs1)) (h.get (regNo rs2))).bind fun cond =>
      h.branch p len cond (h.pc + BitVec.ofInt w imm)
  | (.jal, .j rd imm) => h.call p len (regNo rd) (h.pc + BitVec.ofInt w imm)
  | (.lui, .u rd imm) => some (h.write len (regNo rd) (BitVec.ofInt w imm))
  | (.auipc, .u rd imm) => some (h.write len (regNo rd) (h.pc + BitVec.ofInt w imm))
  | (.ecall, .none) => p.ecall h
  | (.ebreak, .none) => p.ebreak h
  | _ => none

/-- The instruction a compressed one abbreviates. -/
def expandC : Opcode × COperands → Option (Opcode × Operands)
  | (.cAddi, .imm rd imm) => some (.addi, .i rd rd imm)
  | (.cAddiw, .imm rd imm) => some (.addiw, .i rd rd imm)
  | (.cLi, .imm rd imm) => some (.addi, .i rd 0 imm)
  | (.cLui, .imm rd imm) => some (.lui, .u rd (imm * 2 ^ 12))
  | (.cSlli, .imm rd imm) => some (.slli, .i rd rd imm)
  | (.cSrli, .imm rd imm) => some (.srli, .i rd rd imm)
  | (.cSrai, .imm rd imm) => some (.srai, .i rd rd imm)
  | (.cAndi, .imm rd imm) => some (.andi, .i rd rd imm)
  | (.cMv, .regs rd rs2) => some (.add, .r rd 0 rs2)
  | (.cAdd, .regs rd rs2) => some (.add, .r rd rd rs2)
  | (.cSub, .regs rd rs2) => some (.sub, .r rd rd rs2)
  | (.cXor, .regs rd rs2) => some (.xor, .r rd rd rs2)
  | (.cOr, .regs rd rs2) => some (.or, .r rd rd rs2)
  | (.cAnd, .regs rd rs2) => some (.and, .r rd rd rs2)
  | (.cSubw, .regs rd rs2) => some (.subw, .r rd rd rs2)
  | (.cAddw, .regs rd rs2) => some (.addw, .r rd rd rs2)
  | (.cJr, .jump rs1) => some (.jalr, .i 0 rs1 0)
  | (.cJalr, .jump rs1) => some (.jalr, .i 1 rs1 0)
  | (.cEbreak, .none) => some (.ebreak, .none)
  | (.cLw, .load rd rs1 imm) | (.cLwsp, .load rd rs1 imm) => some (.lw, .i rd rs1 imm)
  | (.cLd, .load rd rs1 imm) | (.cLdsp, .load rd rs1 imm) => some (.ld, .i rd rs1 imm)
  | (.cSw, .store rs1 rs2 imm) | (.cSwsp, .store rs1 rs2 imm) => some (.sw, .s rs1 rs2 imm)
  | (.cSd, .store rs1 rs2 imm) | (.cSdsp, .store rs1 rs2 imm) => some (.sd, .s rs1 rs2 imm)
  | (.cBeqz, .branch rs1 imm) => some (.beq, .b rs1 0 imm)
  | (.cBnez, .branch rs1 imm) => some (.bne, .b rs1 0 imm)
  | (.cJ, .offset imm) => some (.jal, .j 0 imm)
  | (.cJal, .offset imm) => some (.jal, .j 1 imm)
  | _ => none

/-- The instruction at an address, with its length.  The low bits of its first byte tell a
halfword from a word. -/
def fetch {w : ℕ} (m : Mem w) (a : BitVec w) : Option (ℕ × Opcode × Operands) :=
  if (m a).toNat % 4 = 3 then (decode w (BitVec.ofNat 32 (m.load 4 a))).map (4, ·)
  else ((decodeC w (BitVec.ofNat 16 (m.load 2 a))).bind expandC).map (2, ·)

/-- One instruction of a hart; nothing where it would trap. -/
def Hart.step {w : ℕ} (p : Platform w) (h : Hart w) : Option (Hart w) :=
  (fetch h.mem h.pc).bind fun (len, instr) => exec p len h instr

end RvAssembler
