import RvAssembler.Symtab

namespace RvAssembler

inductive Section
  | text | data
deriving DecidableEq, Repr

inductive IrKind
  | instr | data | align
deriving DecidableEq, Repr

inductive IrFmt
  | r | i | s | b | j | ui | cr | ci | cl | cs | css | cb | cj | ca
deriving DecidableEq, Repr

inductive RelocKind
  | none | hi20 | lo12 | boff | jtgt
deriving DecidableEq, Repr

inductive Opcode
  | add | sub | sll | slt | sltu | xor | srl | sra | or | and
  | mul | mulh | mulhsu | mulhu | div | divu | rem | remu
  | addw | subw | sllw | srlw | sraw | mulw | divw | divuw | remw | remuw
  | addi | slli | lw | slti | sltiu | xori | ori | andi | srli | srai | jalr
  | lb | lh | lbu | lhu | ecall | ebreak | addiw | slliw | srliw | sraiw | lwu | ld
  | auipc | lui | sw | sh | sb | sd | beq | bne | blt | bge | bltu | bgeu | jal
  | cAdd | cSub | cXor | cOr | cAnd | cSubw | cAddw | cJalr | cEbreak | cAddi | cAddiw
  | cSrli | cSrai | cSlli | cLw | cLd | cBeqz | cBnez | cJal | cSd | cSw | cLui
  | cSwsp | cSdsp | cLdsp | cLwsp | cJ | cJr | cAndi | cMv | cLi
deriving DecidableEq, Repr

inductive ForcedSize
  | auto | two | four
deriving DecidableEq, Repr

/-- `struct c_choice`: a compressed replacement of a 32-bit entry. -/
structure CChoice where
  op : Opcode := .add
  fmt : IrFmt := .r
  rd : ℤ := 0
  rs1 : ℤ := 0
  rs2 : ℤ := 0
  imm : ℤ := 0
  label : Option CString := .none
  reloc : RelocKind := .none
deriving DecidableEq, Repr

/-- `ir_entry_t`; the defaults are those of a zeroed entry.  `addr` and `size` are the
values of `uint32_t` fields. -/
structure IrEntry where
  kind : IrKind := .instr
  op : Opcode := .add
  fmt : IrFmt := .r
  rd : ℤ := 0
  rs1 : ℤ := 0
  rs2 : ℤ := 0
  imm : ℤ := 0
  label : Option CString := .none
  reloc : RelocKind := .none
  sect : Section := .text
  addr : ℕ := 0
  size : ℕ := 0
  line : ℤ := 0
  canCompress : Bool := false
  forcedSize : ForcedSize := .auto
  hasCChoice : Bool := false
  choice : CChoice := {}
deriving DecidableEq, Repr

def u32 (x : ℕ) : ℕ := x % 2 ^ 32

def i32 (x : ℤ) : ℤ := Int.bmod x (2 ^ 32)

/-- `is_c_fmt`: the formats of 16-bit instructions. -/
def isCFmt : IrFmt → Bool
  | .cr | .ci | .cl | .cs | .css | .cj | .cb | .ca => true
  | _ => false

/-- `ir_append_instr`.  A missing label drops the relocation. -/
def irAppendInstr (buf : List IrEntry) (op : Opcode) (fmt : IrFmt) (rd rs1 rs2 imm : ℤ)
    (label : Option CString) (rk : RelocKind) (sect : Section) (addr size : ℕ) (line : ℤ) :
    List IrEntry :=
  let isC := isCFmt fmt
  buf ++ [{
    kind := .instr
    op, fmt, rd, rs1, rs2, imm, label, sect, addr, size, line
    reloc := if label.isSome then rk else .none
    forcedSize := if isC then .two else .auto
    canCompress := !isC }]

/-- `ir_append_align`.  The callers' byte count is narrowed to `uint32_t`; the entry
records it as its size and leaves `imm` zero. -/
def irAppendAlign (buf : List IrEntry) (sect : Section) (addrBefore padBytes : ℕ) (line : ℤ) :
    List IrEntry :=
  let padBytes := u32 padBytes
  if padBytes = 0 then buf
  else buf ++ [{ kind := .align, sect, addr := addrBefore, size := padBytes, line }]

def irAppendData (buf : List IrEntry) (sect : Section) (addr : ℕ) (word : ℤ) (size : ℕ)
    (line : ℤ) : List IrEntry :=
  buf ++ [{ kind := .data, sect, addr, size, line, imm := word }]

/-- `ir_is_explicit_c`: whether the entry comes from a `c.` mnemonic. -/
def irIsExplicitC (e : IrEntry) : Bool :=
  e.forcedSize = .two && !e.canCompress && !e.hasCChoice

def irSetCChoice (e : IrEntry) (ch : CChoice) : IrEntry :=
  { e with choice := ch, hasCChoice := true }

end RvAssembler
