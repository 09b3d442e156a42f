import RvAssembler.Decode

namespace RvAssembler

open Bits

inductive COperands
  | none
  | regs (rd rs2 : ℤ)
  | jump (rs1 : ℤ)
  | imm (rd imm : ℤ)
  | load (rd rs1 imm : ℤ)
  | store (rs1 rs2 imm : ℤ)
  | branch (rs1 imm : ℤ)
  | offset (imm : ℤ)
deriving DecidableEq, Repr

section

variable (w : BitVec 16)

def crd : ℤ := field w 7 5
def crs2 : ℤ := field w 2 5
def crs1' : ℤ := 8 + field w 7 3
def crs2' : ℤ := 8 + field w 2 3

/-- `imm[5]` in bit 12 and `imm[4:0]` in bits 6:2. -/
def uimmCI : ℕ := field w 12 1 * 2 ^ 5 + field w 2 5
def immCI : ℤ := signed 6 (uimmCI w)

/-- `uimm[5|4:2|7:6]` in bits 12 and 6:2. -/
def uimmLwsp : ℕ := field w 12 1 * 2 ^ 5 + field w 4 3 * 2 ^ 2 + field w 2 2 * 2 ^ 6
/-- `uimm[5|4:3|8:6]` in bits 12 and 6:2. -/
def uimmLdsp : ℕ := field w 12 1 * 2 ^ 5 + field w 5 2 * 2 ^ 3 + field w 2 3 * 2 ^ 6
/-- `uimm[5:2|7:6]` in bits 12:7. -/
def uimmSwsp : ℕ := field w 9 4 * 2 ^ 2 + field w 7 2 * 2 ^ 6
/-- `uimm[5:3|8:6]` in bits 12:7. -/
def uimmSdsp : ℕ := field w 10 3 * 2 ^ 3 + field w 7 3 * 2 ^ 6
/-- `uimm[5:3]` in bits 12:10 and `uimm[2|6]` in bits 6:5. -/
def uimmW : ℕ := field w 10 3 * 2 ^ 3 + field w 6 1 * 2 ^ 2 + field w 5 1 * 2 ^ 6
/-- `uimm[5:3]` in bits 12:10 and `uimm[7:6]` in bits 6:5. -/
def uimmD : ℕ := field w 10 3 * 2 ^ 3 + field w 5 2 * 2 ^ 6

/-- `offset[8|4:3]` in bits 12:10 and `offset[7:6|2:1|5]` in bits 6:2. -/
def immCB : ℤ :=
  signed 9 (field w 12 1 * 2 ^ 8 + field w 10 2 * 2 ^ 3 + field w 5 2 * 2 ^ 6 +
    field w 3 2 * 2 + field w 2 1 * 2 ^ 5)

/-- `offset[11|4|9:8|10|6|7|3:1|5]` in bits 12:2. -/
def immCJ : ℤ :=
  signed 12 (field w 12 1 * 2 ^ 11 + field w 11 1 * 2 ^ 4 + field w 9 2 * 2 ^ 8 +
    field w 8 1 * 2 ^ 10 + field w 7 1 * 2 ^ 6 + field w 6 1 * 2 ^ 7 + field w 3 3 * 2 +
    field w 2 1 * 2 ^ 5)

/-- Quadrant 1, `funct3` 100. -/
def decodeCAlu (rv64 : Bool) : Option (Opcode × COperands) :=
  match field w 10 2 with
  | 0 => if rv64 ∨ field w 12 1 = 0 then some (.cSrli, .imm (crs1' w) (uimmCI w)) else none
  | 1 => if rv64 ∨ field w 12 1 = 0 then some (.cSrai, .imm (crs1' w) (uimmCI w)) else none
  | 2 => some (.cAndi, .imm (crs1' w) (immCI w))
  | _ =>
    match field w 12 1, field w 5 2 with
    | 0, 0 => some (.cSub, .regs (crs1' w) (crs2' w))
    | 0, 1 => some (.cXor, .regs (crs1' w) (crs2' w))
    | 0, 2 => some (.cOr, .regs (crs1' w) (crs2' w))
    | 0, _ => some (.cAnd, .regs (crs1' w) (crs2' w))
    | _, 0 => if rv64 then some (.cSubw, .regs (crs1' w) (crs2' w)) else none
    | _, 1 => if rv64 then some (.cAddw, .regs (crs1' w) (crs2' w)) else none
    | _, _ => none

/-- Quadrant 2, `funct3` 100. -/
def decodeCReg : Option (Opcode × COperands) :=
  if field w 12 1 = 0 then
    if crs2 w = 0 then (if crd w = 0 then none else some (.cJr, .jump (crd w)))
    else if crd w = 0 then none
    else some (.cMv, .regs (crd w) (crs2 w))
  else
    if crs2 w = 0 then
      (if crd w = 0 then some (.cEbreak, .none) else some (.cJalr, .jump (crd w)))
    else if crd w = 0 then none
    else some (.cAdd, .regs (crd w) (crs2 w))

end

/-- The instruction a halfword stands for on RV32C or RV64C. -/
def decodeC (xlen : ℕ) (w : BitVec 16) : Option (Opcode × COperands) :=
  let rv64 := xlen = 64
  match field w 0 2, field w 13 3 with
  | 0, 2 => some (.cLw, .load (crs2' w) (crs1' w) (uimmW w))
  | 0, 3 => if rv64 then some (.cLd, .load (crs2' w) (crs1' w) (uimmD w)) else none
  | 0, 6 => some (.cSw, .store (crs1' w) (crs2' w) (uimmW w))
  | 0, 7 => if rv64 then some (.cSd, .store (crs1' w) (crs2' w) (uimmD w)) else none
  | 1, 0 => if crd w = 0 ∧ immCI w ≠ 0 then none else some (.cAddi, .imm (crd w) (immCI w))
  | 1, 1 =>
    if rv64 then (if crd w = 0 then none else some (.cAddiw, .imm (crd w) (immCI w)))
    else some (.cJal, .offset (immCJ w))
  | 1, 2 => if crd w = 0 then none else some (.cLi, .imm (crd w) (immCI w))
  | 1, 3 =>
    if crd w = 0 ∨ crd w = 2 ∨ immCI w = 0 then none
    else some (.cLui, .imm (crd w) (immCI w))
  | 1, 4 => decodeCAlu w rv64
  | 1, 5 => some (.cJ, .offset (immCJ w))
  | 1, 6 => some (.cBeqz, .branch (crs1' w) (immCB w))
  | 1, 7 => some (.cBnez, .branch (crs1' w) (immCB w))
  | 2, 0 =>
    if crd w = 0 ∨ (¬ rv64 ∧ field w 12 1 = 1) then none
    else some (.cSlli, .imm (crd w) (uimmCI w))
  | 2, 2 => if crd w = 0 then none else some (.cLwsp, .load (crd w) 2 (uimmLwsp w))
  | 2, 3 =>
    if rv64 then (if crd w = 0 then none else some (.cLdsp, .load (crd w) 2 (uimmLdsp w)))
    else none
  | 2, 4 => decodeCReg w
  | 2, 6 => some (.cSwsp, .store 2 (crs2 w) (uimmSwsp w))
  | 2, 7 => if rv64 then some (.cSdsp, .store 2 (crs2 w) (uimmSdsp w)) else none
  | _, _ => none

/-- The operands of a compressed instruction: those its encoding has room for. -/
def cOperandsOf (op : Opcode) (rd rs1 rs2 imm : ℤ) : COperands :=
  match op with
  | .cMv | .cAdd | .cSub | .cXor | .cOr | .cAnd | .cSubw | .cAddw => .regs rd rs2
  | .cJr | .cJalr => .jump rs1
  | .cAddi | .cAddiw | .cLi | .cLui | .cSlli | .cSrli | .cSrai | .cAndi => .imm rd imm
  | .cLw | .cLd | .cLwsp | .cLdsp => .load rd rs1 imm
  | .cSw | .cSd | .cSwsp | .cSdsp => .store rs1 rs2 imm
  | .cBeqz | .cBnez => .branch rs1 imm
  | .cJ | .cJal => .offset imm
  | _ => .none

end RvAssembler
