import RvAssembler.Ir
import RvAssembler.Lib.Bits

namespace RvAssembler

open Bits

inductive Operands
  | none
  | r (rd rs1 rs2 : ℤ)
  | i (rd rs1 imm : ℤ)
  | s (rs1 rs2 imm : ℤ)
  | b (rs1 rs2 imm : ℤ)
  | j (rd imm : ℤ)
  | u (rd imm : ℤ)
deriving DecidableEq, Repr

def signed (n : ℕ) (x : ℕ) : ℤ := if x < 2 ^ (n - 1) then x else x - 2 ^ n

def rdOf (w : BitVec 32) : ℤ := field w 7 5
def rs1Of (w : BitVec 32) : ℤ := field w 15 5
def rs2Of (w : BitVec 32) : ℤ := field w 20 5
def immI (w : BitVec 32) : ℤ := signed 12 (field w 20 12)
def immS (w : BitVec 32) : ℤ := signed 12 (field w 25 7 * 2 ^ 5 + field w 7 5)
def immB (w : BitVec 32) : ℤ :=
  signed 13 (field w 31 1 * 2 ^ 12 + field w 7 1 * 2 ^ 11 + field w 25 6 * 2 ^ 5 +
    field w 8 4 * 2)
def immU (w : BitVec 32) : ℤ := signed 32 (field w 12 20 * 2 ^ 12)
def immJ (w : BitVec 32) : ℤ :=
  signed 21 (field w 31 1 * 2 ^ 20 + field w 12 8 * 2 ^ 12 + field w 20 1 * 2 ^ 11 +
    field w 21 10 * 2)

def loadOp (rv64 : Bool) : ℕ → Option Opcode
  | 0 => some .lb
  | 1 => some .lh
  | 2 => some .lw
  | 3 => if rv64 then some .ld else none
  | 4 => some .lbu
  | 5 => some .lhu
  | 6 => if rv64 then some .lwu else none
  | _ => none

def storeOp (rv64 : Bool) : ℕ → Option Opcode
  | 0 => some .sb
  | 1 => some .sh
  | 2 => some .sw
  | 3 => if rv64 then some .sd else none
  | _ => none

def branchOp : ℕ → Option Opcode
  | 0 => some .beq
  | 1 => some .bne
  | 4 => some .blt
  | 5 => some .bge
  | 6 => some .bltu
  | 7 => some .bgeu
  | _ => none

def regOp : ℕ → ℕ → Option Opcode
  | 0x00, 0 => some .add
  | 0x20, 0 => some .sub
  | 0x00, 1 => some .sll
  | 0x00, 2 => some .slt
  | 0x00, 3 => some .sltu
  | 0x00, 4 => some .xor
  | 0x00, 5 => some .srl
  | 0x20, 5 => some .sra
  | 0x00, 6 => some .or
  | 0x00, 7 => some .and
  | 0x01, 0 => some .mul
  | 0x01, 1 => some .mulh
  | 0x01, 2 => some .mulhsu
  | 0x01, 3 => some .mulhu
  | 0x01, 4 => some .div
  | 0x01, 5 => some .divu
  | 0x01, 6 => some .rem
  | 0x01, 7 => some .remu
  | _, _ => none

def regOpW : ℕ → ℕ → Option Opcode
  | 0x00, 0 => some .addw
  | 0x20, 0 => some .subw
  | 0x00, 1 => some .sllw
  | 0x00, 5 => some .srlw
  | 0x20, 5 => some .sraw
  | 0x01, 0 => some .mulw
  | 0x01, 4 => some .divw
  | 0x01, 5 => some .divuw
  | 0x01, 6 => some .remw
  | 0x01, 7 => some .remuw
  | _, _ => none

def immOp : ℕ → Option Opcode
  | 0 => some .addi
  | 2 => some .slti
  | 3 => some .sltiu
  | 4 => some .xori
  | 6 => some .ori
  | 7 => some .andi
  | _ => none

/-- The shifts of `OP-IMM`, by `funct3` and the bits above the shift amount, read as the
upper six. -/
def shiftOp : ℕ → ℕ → Option Opcode
  | 1, 0x00 => some .slli
  | 5, 0x00 => some .srli
  | 5, 0x10 => some .srai
  | _, _ => none

def shiftOpW : ℕ → ℕ → Option Opcode
  | 1, 0x00 => some .slliw
  | 5, 0x00 => some .srliw
  | 5, 0x20 => some .sraiw
  | _, _ => none

def argsR (w : BitVec 32) : Operands := .r (rdOf w) (rs1Of w) (rs2Of w)
def argsI (w : BitVec 32) : Operands := .i (rdOf w) (rs1Of w) (immI w)
def argsS (w : BitVec 32) : Operands := .s (rs1Of w) (rs2Of w) (immS w)
def argsB (w : BitVec 32) : Operands := .b (rs1Of w) (rs2Of w) (immB w)
def argsU (w : BitVec 32) : Operands := .u (rdOf w) (immU w)
def argsJ (w : BitVec 32) : Operands := .j (rdOf w) (immJ w)

/-- `OP-IMM`: on RV32 bit 25 of a shift must be clear, on RV64 it belongs to the amount. -/
def decodeOpImm (rv64 : Bool) (w : BitVec 32) : Option (Opcode × Operands) :=
  let funct3 := field w 12 3
  if funct3 = 1 ∨ funct3 = 5 then
    if rv64 then
      (shiftOp funct3 (field w 26 6)).map (·, .i (rdOf w) (rs1Of w) (field w 20 6))
    else if field w 25 1 = 0 then
      (shiftOp funct3 (field w 26 6)).map (·, .i (rdOf w) (rs1Of w) (field w 20 5))
    else none
  else (immOp funct3).map (·, argsI w)

def decodeOpImm32 (w : BitVec 32) : Option (Opcode × Operands) :=
  let funct3 := field w 12 3
  if funct3 = 0 then some (.addiw, argsI w)
  else (shiftOpW funct3 (field w 25 7)).map (·, .i (rdOf w) (rs1Of w) (field w 20 5))

def decodeSystem (w : BitVec 32) : Option (Opcode × Operands) :=
  if field w 7 5 = 0 ∧ field w 12 3 = 0 ∧ field w 15 5 = 0 then
    match field w 20 12 with
    | 0 => some (.ecall, .none)
    | 1 => some (.ebreak, .none)
    | _ => none
  else none

/-- The instruction a word stands for on RV32IM or RV64IM. -/
def decode (xlen : ℕ) (w : BitVec 32) : Option (Opcode × Operands) :=
  let rv64 := xlen = 64
  let funct3 := field w 12 3
  match field w 0 7 with
  | 0x03 => (loadOp rv64 funct3).map (·, argsI w)
  | 0x13 => decodeOpImm rv64 w
  | 0x17 => some (.auipc, argsU w)
  | 0x1B => if rv64 then decodeOpImm32 w else none
  | 0x23 => (storeOp rv64 funct3).map (·, argsS w)
  | 0x33 => (regOp (field w 25 7) funct3).map (·, argsR w)
  | 0x37 => some (.lui, argsU w)
  | 0x3B => if rv64 then (regOpW (field w 25 7) funct3).map (·, argsR w) else none
  | 0x63 => (branchOp funct3).map (·, argsB w)
  | 0x67 => if funct3 = 0 then some (.jalr, argsI w) else none
  | 0x6F => some (.jal, argsJ w)
  | 0x73 => decodeSystem w
  | _ => none

end RvAssembler
