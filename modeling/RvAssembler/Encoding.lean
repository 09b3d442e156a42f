import RvAssembler.Pass
import RvAssembler.Lib.Bits

namespace RvAssembler

open Bits

structure EncodingInfo where
  opcode : ℕ
  funct3 : ℕ
  funct7 : ℕ

/-- `encoding_table`; entries it does not name are zero. -/
def encodingTable : Opcode → EncodingInfo
  | .add => ⟨0x33, 0, 0⟩
  | .sub => ⟨0x33, 0, 0x20⟩
  | .sll => ⟨0x33, 0x1, 0⟩
  | .slt => ⟨0x33, 0x2, 0⟩
  | .sltu => ⟨0x33, 0x3, 0⟩
  | .xor => ⟨0x33, 0x4, 0⟩
  | .srl => ⟨0x33, 0x5, 0⟩
  | .sra => ⟨0x33, 0x5, 0x20⟩
  | .or => ⟨0x33, 0x6, 0⟩
  | .and => ⟨0x33, 0x7, 0⟩
  | .mul => ⟨0x33, 0, 0x1⟩
  | .mulh => ⟨0x33, 0x1, 0x1⟩
  | .mulhsu => ⟨0x33, 0x2, 0x1⟩
  | .mulhu => ⟨0x33, 0x3, 0x1⟩
  | .div => ⟨0x33, 0x4, 0x1⟩
  | .divu => ⟨0x33, 0x5, 0x1⟩
  | .rem => ⟨0x33, 0x6, 0x1⟩
  | .remu => ⟨0x33, 0x7, 0x1⟩
  | .addw => ⟨0x3B, 0, 0⟩
  | .subw => ⟨0x3B, 0, 0x20⟩
  | .sllw => ⟨0x3B, 0x1, 0⟩
  | .srlw => ⟨0x3B, 0x5, 0⟩
  | .sraw => ⟨0x3B, 0x5, 0x20⟩
  | .mulw => ⟨0x3B, 0, 0x1⟩
  | .divw => ⟨0x3B, 0x4, 0x1⟩
  | .divuw => ⟨0x3B, 0x5, 0x1⟩
  | .remw => ⟨0x3B, 0x6, 0x1⟩
  | .remuw => ⟨0x3B, 0x7, 0x1⟩
  | .addi => ⟨0x13, 0, 0⟩
  | .slli => ⟨0x13, 0x1, 0⟩
  | .lw => ⟨0x3, 0x2, 0⟩
  | .slti => ⟨0x13, 0x2, 0⟩
  | .sltiu => ⟨0x13, 0x3, 0⟩
  | .xori => ⟨0x13, 0x4, 0⟩
  | .ori => ⟨0x13, 0x6, 0⟩
  | .andi => ⟨0x13, 0x7, 0⟩
  | .srli => ⟨0x13, 0x5, 0⟩
  | .srai => ⟨0x13, 0x5, 0x20⟩
  | .jalr => ⟨0x67, 0, 0⟩
  | .lb => ⟨0x3, 0, 0⟩
  | .lh => ⟨0x3, 0x1, 0⟩
  | .lbu => ⟨0x3, 0x4, 0⟩
  | .lhu => ⟨0x3, 0x5, 0⟩
  | .ecall => ⟨0x73, 0, 0⟩
  | .ebreak => ⟨0x73, 0, 0⟩
  | .addiw => ⟨0x1B, 0, 0⟩
  | .slliw => ⟨0x1B, 0x1, 0⟩
  | .srliw => ⟨0x1B, 0x5, 0⟩
  | .sraiw => ⟨0x1B, 0x5, 0x20⟩
  | .lwu => ⟨0x3, 0x6, 0⟩
  | .ld => ⟨0x3, 0x3, 0⟩
  | .auipc => ⟨0x17, 0, 0⟩
  | .lui => ⟨0x37, 0, 0⟩
  | .sw => ⟨0x23, 0x2, 0⟩
  | .sh => ⟨0x23, 0x1, 0⟩
  | .sb => ⟨0x23, 0, 0⟩
  | .sd => ⟨0x23, 0x3, 0⟩
  | .beq => ⟨0x63, 0, 0⟩
  | .bne => ⟨0x63, 0x1, 0⟩
  | .blt => ⟨0x63, 0x4, 0⟩
  | .bge => ⟨0x63, 0x5, 0⟩
  | .bltu => ⟨0x63, 0x6, 0⟩
  | .bgeu => ⟨0x63, 0x7, 0⟩
  | .jal => ⟨0x6F, 0, 0⟩
  | _ => ⟨0, 0, 0⟩

def requireXlen (cfg : Config) (need : ℕ) (line : ℤ) : Except String Unit :=
  if cfg.xlen ≠ need then
    .error s!"Error (line {line}): instruction requires RV{need} but assembler is RV{cfg.xlen}"
  else .ok ()

def requireM (cfg : Config) (line : ℤ) : Except String Unit :=
  if cfg.extM then .ok ()
  else .error s!"Error (line {line}): M-extension instruction used but M not enabled"

def requireForOp (cfg : Config) (op : Opcode) (line : ℤ) : Except String Unit :=
  match op with
  | .addw | .subw | .sllw | .srlw | .sraw | .addiw | .srliw | .sraiw | .slliw | .lwu | .ld | .sd =>
    requireXlen cfg 64 line
  | .mul | .mulh | .mulhsu | .mulhu | .div | .divu | .rem | .remu => requireM cfg line
  | .mulw | .divw | .divuw | .remw | .remuw => do
    requireM cfg line
    requireXlen cfg 64 line
  | _ => .ok ()

/-- A word masked to `k` bits and moved to bit `lo`. -/
def at32 (k lo : ℕ) (x : BitVec 32) : BitVec 32 := low k x <<< lo

def tag32 (k lo n : ℕ) : BitVec 32 := at32 k lo (BitVec.ofNat 32 n)

/-- `(uint32_t)(r & 0x1F)`, moved to bit `lo`. -/
def reg32 (r : ℤ) (lo : ℕ) : BitVec 32 := at32 5 lo (BitVec.ofInt 32 r)

/-- `(uint32_t)(imm & mask)` for a mask of `k` ones. -/
def imm32 (k : ℕ) (imm : ℤ) : BitVec 32 := (low k (BitVec.ofInt 64 imm)).setWidth 32

def encodeRtype (op : Opcode) (rd rs1 rs2 : ℤ) : BitVec 32 :=
  let info := encodingTable op
  tag32 7 25 info.funct7 ||| reg32 rs2 20 ||| reg32 rs1 15 ||| tag32 3 12 info.funct3 |||
    reg32 rd 7 ||| tag32 7 0 info.opcode

def isShiftImm (op : Opcode) : Bool :=
  op = .slli || op = .srli || op = .srai || op = .slliw || op = .srliw || op = .sraiw

def isWordShift (op : Opcode) : Bool := op = .slliw || op = .srliw || op = .sraiw

def isSystem (op : Opcode) : Bool := op = .ebreak || op = .ecall

def encodeItype (cfg : Config) (op : Opcode) (rd rs1 imm : ℤ) (line : ℤ) :
    Except String (BitVec 32) :=
  let info := encodingTable op
  if isShiftImm op then
    let isWord := isWordShift op
    let maxShamt := if isWord then 31 else if cfg.xlen = 64 then 63 else 31
    if imm < 0 ∨ imm > maxShamt then
      .error s!"Error: (line {line}): Invalid immediate {imm} (max {maxShamt})"
    else
      let shamt := BitVec.ofInt 32 imm
      if !isWord && cfg.xlen = 64 then
        -- RV64 keeps six bits above a six-bit shift amount
        let f6 := if op = .srai then 0x10 else low 6 (BitVec.ofNat 32 info.funct7)
        .ok (f6 <<< 26 ||| at32 6 20 shamt ||| reg32 rs1 15 ||| tag32 3 12 info.funct3 |||
          reg32 rd 7 ||| tag32 7 0 info.opcode)
      else
        .ok (tag32 7 25 info.funct7 ||| at32 5 20 shamt ||| reg32 rs1 15 |||
          tag32 3 12 info.funct3 ||| reg32 rd 7 ||| tag32 7 0 info.opcode)
  else
    let imm := if isSystem op then (if op = .ebreak then 1 else 0) else imm
    let rs1 := if isSystem op then 0 else rs1
    let rd := if isSystem op then 0 else rd
    if imm < -2048 ∨ imm > 2047 then
      .error s!"Error: (line {line}): Invalid immediate {imm}"
    else
      .ok (imm32 12 imm <<< 20 ||| reg32 rs1 15 ||| tag32 3 12 info.funct3 ||| reg32 rd 7 |||
        tag32 7 0 info.opcode)

def encodeStype (op : Opcode) (rs1 rs2 imm : ℤ) (line : ℤ) : Except String (BitVec 32) :=
  if imm < -2048 ∨ imm > 2047 then
    .error s!"Error: (line {line}): Invalid immediate {imm} entered"
  else
    let info := encodingTable op
    let uimm := imm32 12 imm
    .ok (at32 7 25 (uimm >>> 5) ||| reg32 rs2 20 ||| reg32 rs1 15 ||| tag32 3 12 info.funct3 |||
      at32 5 7 uimm ||| tag32 7 0 info.opcode)

def encodeBtype (op : Opcode) (rs1 rs2 imm : ℤ) (line : ℤ) : Except String (BitVec 32) :=
  if imm % 2 ≠ 0 then
    .error s!"Error: (line {line}): branch offset {imm} not 2-byte aligned"
  else if imm < -4096 ∨ imm > 4094 then
    .error s!"Error: (line {line}): Invalid immediate {imm} entered"
  else
    let info := encodingTable op
    let uimm := imm32 12 (imm >>> (1 : ℕ))
    .ok (at32 1 31 (uimm >>> 11) ||| at32 6 25 (uimm >>> 4) ||| reg32 rs2 20 ||| reg32 rs1 15 |||
      tag32 3 12 info.funct3 ||| at32 4 8 uimm ||| at32 1 7 (uimm >>> 10) |||
      tag32 7 0 info.opcode)

def encodeJtype (op : Opcode) (rd imm : ℤ) (line : ℤ) : Except String (BitVec 32) :=
  if imm % 2 ≠ 0 then
    .error s!"Error (line {line}): JAL target not 2-byte aligned (offset {imm})"
  else if imm < -1048576 ∨ imm > 1048574 then
    .error s!"Error: (line {line}): Invalid immediate {imm} entered"
  else
    let info := encodingTable op
    let uimm := imm32 20 (imm >>> (1 : ℕ))
    .ok (at32 1 31 (uimm >>> 19) ||| at32 10 21 uimm ||| at32 1 20 (uimm >>> 10) |||
      at32 8 12 (uimm >>> 11) ||| reg32 rd 7 ||| tag32 7 0 info.opcode)

def encodeUitype (op : Opcode) (rd imm : ℤ) (line : ℤ) : Except String (BitVec 32) :=
  if imm % 4096 ≠ 0 then
    .error s!"Error: (line {line}): UI-type immediate {imm} must be a multiple of 4096"
  else if imm < -2147483648 ∨ imm > 2147483647 then
    .error s!"Error: (line {line}): UI-type immediate {imm} out of 32-bit range"
  else
    let info := encodingTable op
    let upper := BitVec.ofInt 32 imm &&& 0xFFFFF000
    .ok (upper ||| reg32 rd 7 ||| tag32 7 0 info.opcode)

def encodeInstruction (cfg : Config) (op : Opcode) (fmt : IrFmt) (rd rs1 rs2 imm : ℤ)
    (line : ℤ) : Except String (BitVec 32) :=
  match fmt with
  | .r => .ok (encodeRtype op rd rs1 rs2)
  | .i => encodeItype cfg op rd rs1 imm line
  | .s => encodeStype op rs1 rs2 imm line
  | .b => encodeBtype op rs1 rs2 imm line
  | .j => encodeJtype op rd imm line
  | .ui => encodeUitype op rd imm line
  | _ => .error s!"Error (line {line}): Unknown format"

end RvAssembler
