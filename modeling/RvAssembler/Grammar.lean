import RvAssembler.Ir

namespace RvAssembler

/-- A `REGISTER` token; the lexer only accepts `x0` to `x31`. -/
abbrev Reg := Fin 32

structure Identifier extends CString where
  nonempty : bytes ≠ []
deriving DecidableEq

/-- The arguments of one call of `pass1_emit_instruction`. -/
structure InstrArgs where
  op : Opcode
  fmt : IrFmt
  rd : ℤ := 0
  rs1 : ℤ := 0
  rs2 : ℤ := 0
  imm : ℤ := 0
  label : Option CString := .none
  reloc : RelocKind := .none

def regArgs (op : Opcode) (fmt : IrFmt) (rd rs1 rs2 : Reg) : InstrArgs :=
  { op, fmt, rd := rd.val, rs1 := rs1.val, rs2 := rs2.val }

def immArgs (op : Opcode) (fmt : IrFmt) (rd rs1 : Reg) (imm : Int64) : InstrArgs :=
  { op, fmt, rd := rd.val, rs1 := rs1.val, imm := imm.toInt }

def srcArgs (op : Opcode) (fmt : IrFmt) (rs1 rs2 : Reg) (imm : Int64) : InstrArgs :=
  { op, fmt, rs1 := rs1.val, rs2 := rs2.val, imm := imm.toInt }

def labelArgs (op : Opcode) (fmt : IrFmt) (rd rs1 rs2 : Reg) (label : Identifier)
    (reloc : RelocKind) : InstrArgs :=
  { op, fmt, rd := rd.val, rs1 := rs1.val, rs2 := rs2.val, label := label.toCString, reloc }

inductive Instruction
  | add (rd rs1 rs2 : Reg)
  | sub (rd rs1 rs2 : Reg)
  | sll (rd rs1 rs2 : Reg)
  | slt (rd rs1 rs2 : Reg)
  | sltu (rd rs1 rs2 : Reg)
  | xor (rd rs1 rs2 : Reg)
  | srl (rd rs1 rs2 : Reg)
  | sra (rd rs1 rs2 : Reg)
  | or (rd rs1 rs2 : Reg)
  | and (rd rs1 rs2 : Reg)
  | mul (rd rs1 rs2 : Reg)
  | mulh (rd rs1 rs2 : Reg)
  | mulhsu (rd rs1 rs2 : Reg)
  | mulhu (rd rs1 rs2 : Reg)
  | div (rd rs1 rs2 : Reg)
  | divu (rd rs1 rs2 : Reg)
  | rem (rd rs1 rs2 : Reg)
  | remu (rd rs1 rs2 : Reg)
  | addw (rd rs1 rs2 : Reg)
  | subw (rd rs1 rs2 : Reg)
  | sllw (rd rs1 rs2 : Reg)
  | srlw (rd rs1 rs2 : Reg)
  | sraw (rd rs1 rs2 : Reg)
  | mulw (rd rs1 rs2 : Reg)
  | divw (rd rs1 rs2 : Reg)
  | divuw (rd rs1 rs2 : Reg)
  | remw (rd rs1 rs2 : Reg)
  | remuw (rd rs1 rs2 : Reg)
  | neg (rd rs2 : Reg)
  | snez (rd rs2 : Reg)
  | addi (rd rs1 : Reg) (imm : Int64)
  | slli (rd rs1 : Reg) (imm : Int64)
  | slti (rd rs1 : Reg) (imm : Int64)
  | sltiu (rd rs1 : Reg) (imm : Int64)
  | xori (rd rs1 : Reg) (imm : Int64)
  | ori (rd rs1 : Reg) (imm : Int64)
  | andi (rd rs1 : Reg) (imm : Int64)
  | srli (rd rs1 : Reg) (imm : Int64)
  | srai (rd rs1 : Reg) (imm : Int64)
  | addiw (rd rs1 : Reg) (imm : Int64)
  | slliw (rd rs1 : Reg) (imm : Int64)
  | srliw (rd rs1 : Reg) (imm : Int64)
  | sraiw (rd rs1 : Reg) (imm : Int64)
  | jalr (rd : Reg) (imm : Int64) (rs1 : Reg)
  | lw (rd : Reg) (imm : Int64) (rs1 : Reg)
  | lb (rd : Reg) (imm : Int64) (rs1 : Reg)
  | lh (rd : Reg) (imm : Int64) (rs1 : Reg)
  | lbu (rd : Reg) (imm : Int64) (rs1 : Reg)
  | lhu (rd : Reg) (imm : Int64) (rs1 : Reg)
  | lwu (rd : Reg) (imm : Int64) (rs1 : Reg)
  | ld (rd : Reg) (imm : Int64) (rs1 : Reg)
  | nop
  | mv (rd rs1 : Reg)
  | li (rd : Reg) (imm : Int64)
  | subi (rd rs1 : Reg) (imm : Int64)
  | seqz (rd rs1 : Reg)
  | jr (rs1 : Reg)
  | ret
  | ebreak
  | ecall
  | sw (rs2 : Reg) (imm : Int64) (rs1 : Reg)
  | sb (rs2 : Reg) (imm : Int64) (rs1 : Reg)
  | sh (rs2 : Reg) (imm : Int64) (rs1 : Reg)
  | sd (rs2 : Reg) (imm : Int64) (rs1 : Reg)
  | beq (rs1 rs2 : Reg) (imm : Int64)
  | beqLabel (rs1 rs2 : Reg) (label : Identifier)
  | bne (rs1 rs2 : Reg) (imm : Int64)
  | bneLabel (rs1 rs2 : Reg) (label : Identifier)
  | blt (rs1 rs2 : Reg) (imm : Int64)
  | bltLabel (rs1 rs2 : Reg) (label : Identifier)
  | bge (rs1 rs2 : Reg) (imm : Int64)
  | bgeLabel (rs1 rs2 : Reg) (label : Identifier)
  | bltu (rs1 rs2 : Reg) (imm : Int64)
  | bltuLabel (rs1 rs2 : Reg) (label : Identifier)
  | bgeu (rs1 rs2 : Reg) (imm : Int64)
  | bgeuLabel (rs1 rs2 : Reg) (label : Identifier)
  | beqz (rs1 : Reg) (imm : Int64)
  | beqzLabel (rs1 : Reg) (label : Identifier)
  | bnez (rs1 : Reg) (imm : Int64)
  | bnezLabel (rs1 : Reg) (label : Identifier)
  | j (imm : Int64)
  | jLabel (label : Identifier)
  | jal (rd : Reg) (imm : Int64)
  | jalLabel (rd : Reg) (label : Identifier)
  | auipc (rd : Reg) (imm : Int64)
  | lui (rd : Reg) (imm : Int64)
  | la (rd : Reg) (label : Identifier)
  | cSub (rd rs2 : Reg)
  | cXor (rd rs2 : Reg)
  | cOr (rd rs2 : Reg)
  | cAnd (rd rs2 : Reg)
  | cSubw (rd rs2 : Reg)
  | cAddw (rd rs2 : Reg)
  | cAdd (rd rs2 : Reg)
  | cJalr (rs1 : Reg)
  | cEbreak
  | cJr (rs1 : Reg)
  | cMv (rd rs2 : Reg)
  | cAddi (rd : Reg) (imm : Int64)
  | cAddiw (rd : Reg) (imm : Int64)
  | cSrli (rd : Reg) (imm : Int64)
  | cSlli (rd : Reg) (imm : Int64)
  | cSrai (rd : Reg) (imm : Int64)
  | cAndi (rd : Reg) (imm : Int64)
  | cNop
  | cLi (rd : Reg) (imm : Int64)
  | cLui (rd : Reg) (imm : Int64)
  | cLwsp (rd : Reg) (imm : Int64)
  | cLdsp (rd : Reg) (imm : Int64)
  | cLw (rd : Reg) (imm : Int64) (rs1 : Reg)
  | cLd (rd : Reg) (imm : Int64) (rs1 : Reg)
  | cSw (rs2 : Reg) (imm : Int64) (rs1 : Reg)
  | cSd (rs2 : Reg) (imm : Int64) (rs1 : Reg)
  | cBeqz (rs1 : Reg) (imm : Int64)
  | cBeqzLabel (rs1 : Reg) (label : Identifier)
  | cBnez (rs1 : Reg) (imm : Int64)
  | cBnezLabel (rs1 : Reg) (label : Identifier)
  | cJ (imm : Int64)
  | cJLabel (label : Identifier)
  | cJal (imm : Int64)
  | cJalLabel (label : Identifier)
  | cSwsp (rs2 : Reg) (imm : Int64)
  | cSdsp (rs2 : Reg) (imm : Int64)

/-- The actions' calls, in order. -/
def Instruction.emits : Instruction → List InstrArgs
  | .add rd rs1 rs2 => [regArgs .add .r rd rs1 rs2]
  | .sub rd rs1 rs2 => [regArgs .sub .r rd rs1 rs2]
  | .sll rd rs1 rs2 => [regArgs .sll .r rd rs1 rs2]
  | .slt rd rs1 rs2 => [regArgs .slt .r rd rs1 rs2]
  | .sltu rd rs1 rs2 => [regArgs .sltu .r rd rs1 rs2]
  | .xor rd rs1 rs2 => [regArgs .xor .r rd rs1 rs2]
  | .srl rd rs1 rs2 => [regArgs .srl .r rd rs1 rs2]
  | .sra rd rs1 rs2 => [regArgs .sra .r rd rs1 rs2]
  | .or rd rs1 rs2 => [regArgs .or .r rd rs1 rs2]
  | .and rd rs1 rs2 => [regArgs .and .r rd rs1 rs2]
  | .mul rd rs1 rs2 => [regArgs .mul .r rd rs1 rs2]
  | .mulh rd rs1 rs2 => [regArgs .mulh .r rd rs1 rs2]
  | .mulhsu rd rs1 rs2 => [regArgs .mulhsu .r rd rs1 rs2]
  | .mulhu rd rs1 rs2 => [regArgs .mulhu .r rd rs1 rs2]
  | .div rd rs1 rs2 => [regArgs .div .r rd rs1 rs2]
  | .divu rd rs1 rs2 => [regArgs .divu .r rd rs1 rs2]
  | .rem rd rs1 rs2 => [regArgs .rem .r rd rs1 rs2]
  | .remu rd rs1 rs2 => [regArgs .remu .r rd rs1 rs2]
  | .addw rd rs1 rs2 => [regArgs .addw .r rd rs1 rs2]
  | .subw rd rs1 rs2 => [regArgs .subw .r rd rs1 rs2]
  | .sllw rd rs1 rs2 => [regArgs .sllw .r rd rs1 rs2]
  | .srlw rd rs1 rs2 => [regArgs .srlw .r rd rs1 rs2]
  | .sraw rd rs1 rs2 => [regArgs .sraw .r rd rs1 rs2]
  | .mulw rd rs1 rs2 => [regArgs .mulw .r rd rs1 rs2]
  | .divw rd rs1 rs2 => [regArgs .divw .r rd rs1 rs2]
  | .divuw rd rs1 rs2 => [regArgs .divuw .r rd rs1 rs2]
  | .remw rd rs1 rs2 => [regArgs .remw .r rd rs1 rs2]
  | .remuw rd rs1 rs2 => [regArgs .remuw .r rd rs1 rs2]
  | .neg rd rs2 => [regArgs .sub .r rd 0 rs2]
  | .snez rd rs2 => [regArgs .sltu .r rd 0 rs2]
  | .addi rd rs1 imm => [immArgs .addi .i rd rs1 imm]
  | .slli rd rs1 imm => [immArgs .slli .i rd rs1 imm]
  | .slti rd rs1 imm => [immArgs .slti .i rd rs1 imm]
  | .sltiu rd rs1 imm => [immArgs .sltiu .i rd rs1 imm]
  | .xori rd rs1 imm => [immArgs .xori .i rd rs1 imm]
  | .ori rd rs1 imm => [immArgs .ori .i rd rs1 imm]
  | .andi rd rs1 imm => [immArgs .andi .i rd rs1 imm]
  | .srli rd rs1 imm => [immArgs .srli .i rd rs1 imm]
  | .srai rd rs1 imm => [immArgs .srai .i rd rs1 imm]
  | .addiw rd rs1 imm => [immArgs .addiw .i rd rs1 imm]
  | .slliw rd rs1 imm => [immArgs .slliw .i rd rs1 imm]
  | .srliw rd rs1 imm => [immArgs .srliw .i rd rs1 imm]
  | .sraiw rd rs1 imm => [immArgs .sraiw .i rd rs1 imm]
  | .jalr rd imm rs1 => [immArgs .jalr .i rd rs1 imm]
  | .lw rd imm rs1 => [immArgs .lw .i rd rs1 imm]
  | .lb rd imm rs1 => [immArgs .lb .i rd rs1 imm]
  | .lh rd imm rs1 => [immArgs .lh .i rd rs1 imm]
  | .lbu rd imm rs1 => [immArgs .lbu .i rd rs1 imm]
  | .lhu rd imm rs1 => [immArgs .lhu .i rd rs1 imm]
  | .lwu rd imm rs1 => [immArgs .lwu .i rd rs1 imm]
  | .ld rd imm rs1 => [immArgs .ld .i rd rs1 imm]
  | .nop => [immArgs .addi .i 0 0 0]
  | .mv rd rs1 => [immArgs .addi .i rd rs1 0]
  | .li rd imm => [immArgs .addi .i rd 0 imm]
  | .subi rd rs1 imm => [immArgs .addi .i rd rs1 (-imm)]
  | .seqz rd rs1 => [immArgs .sltiu .i rd rs1 1]
  | .jr rs1 => [immArgs .jalr .i 0 rs1 0]
  | .ret => [immArgs .jalr .i 0 1 0]
  | .ebreak => [immArgs .ebreak .i 0 0 0]
  | .ecall => [immArgs .ecall .i 0 0 0]
  | .sw rs2 imm rs1 => [srcArgs .sw .s rs1 rs2 imm]
  | .sb rs2 imm rs1 => [srcArgs .sb .s rs1 rs2 imm]
  | .sh rs2 imm rs1 => [srcArgs .sh .s rs1 rs2 imm]
  | .sd rs2 imm rs1 => [srcArgs .sd .s rs1 rs2 imm]
  | .beq rs1 rs2 imm => [srcArgs .beq .b rs1 rs2 imm]
  | .beqLabel rs1 rs2 l => [labelArgs .beq .b 0 rs1 rs2 l .boff]
  | .bne rs1 rs2 imm => [srcArgs .bne .b rs1 rs2 imm]
  | .bneLabel rs1 rs2 l => [labelArgs .bne .b 0 rs1 rs2 l .boff]
  | .blt rs1 rs2 imm => [srcArgs .blt .b rs1 rs2 imm]
  | .bltLabel rs1 rs2 l => [labelArgs .blt .b 0 rs1 rs2 l .boff]
  | .bge rs1 rs2 imm => [srcArgs .bge .b rs1 rs2 imm]
  | .bgeLabel rs1 rs2 l => [labelArgs .bge .b 0 rs1 rs2 l .boff]
  | .bltu rs1 rs2 imm => [srcArgs .bltu .b rs1 rs2 imm]
  | .bltuLabel rs1 rs2 l => [labelArgs .bltu .b 0 rs1 rs2 l .boff]
  | .bgeu rs1 rs2 imm => [srcArgs .bgeu .b rs1 rs2 imm]
  | .bgeuLabel rs1 rs2 l => [labelArgs .bgeu .b 0 rs1 rs2 l .boff]
  | .beqz rs1 imm => [srcArgs .beq .b rs1 0 imm]
  | .beqzLabel rs1 l => [labelArgs .beq .b 0 rs1 0 l .boff]
  | .bnez rs1 imm => [srcArgs .bne .b rs1 0 imm]
  | .bnezLabel rs1 l => [labelArgs .bne .b 0 rs1 0 l .boff]
  | .j imm => [immArgs .jal .j 0 0 imm]
  | .jLabel l => [labelArgs .jal .j 0 0 0 l .jtgt]
  | .jal rd imm => [immArgs .jal .j rd 0 imm]
  | .jalLabel rd l => [labelArgs .jal .j rd 0 0 l .jtgt]
  | .auipc rd imm => [immArgs .auipc .ui rd 0 imm]
  | .lui rd imm => [immArgs .lui .ui rd 0 imm]
  | .la rd l => [labelArgs .auipc .ui rd 0 0 l .hi20, labelArgs .addi .i rd rd 0 l .lo12]
  | .cSub rd rs2 => [regArgs .cSub .ca rd rd rs2]
  | .cXor rd rs2 => [regArgs .cXor .ca rd rd rs2]
  | .cOr rd rs2 => [regArgs .cOr .ca rd rd rs2]
  | .cAnd rd rs2 => [regArgs .cAnd .ca rd rd rs2]
  | .cSubw rd rs2 => [regArgs .cSubw .ca rd rd rs2]
  | .cAddw rd rs2 => [regArgs .cAddw .ca rd rd rs2]
  | .cAdd rd rs2 => [regArgs .cAdd .cr rd rd rs2]
  | .cJalr rs1 => [regArgs .cJalr .cr 0 rs1 0]
  | .cEbreak => [regArgs .cEbreak .cr 0 0 0]
  | .cJr rs1 => [regArgs .cJr .cr 0 rs1 0]
  | .cMv rd rs2 => [regArgs .cMv .cr rd 0 rs2]
  | .cAddi rd imm => [immArgs .cAddi .ci rd rd imm]
  | .cAddiw rd imm => [immArgs .cAddiw .ci rd rd imm]
  | .cSrli rd imm => [immArgs .cSrli .ci rd rd imm]
  | .cSlli rd imm => [immArgs .cSlli .ci rd rd imm]
  | .cSrai rd imm => [immArgs .cSrai .ci rd rd imm]
  | .cAndi rd imm => [immArgs .cAndi .ci rd rd imm]
  | .cNop => [immArgs .cAddi .ci 0 0 0]
  | .cLi rd imm => [immArgs .cLi .ci rd 0 imm]
  | .cLui rd imm => [immArgs .cLui .ci rd 0 imm]
  | .cLwsp rd imm => [immArgs .cLwsp .ci rd 2 imm]
  | .cLdsp rd imm => [immArgs .cLdsp .ci rd 2 imm]
  | .cLw rd imm rs1 => [immArgs .cLw .cl rd rs1 imm]
  | .cLd rd imm rs1 => [immArgs .cLd .cl rd rs1 imm]
  | .cSw rs2 imm rs1 => [srcArgs .cSw .cs rs1 rs2 imm]
  | .cSd rs2 imm rs1 => [srcArgs .cSd .cs rs1 rs2 imm]
  | .cBeqz rs1 imm => [srcArgs .cBeqz .cb rs1 0 imm]
  | .cBeqzLabel rs1 l => [labelArgs .cBeqz .cb 0 rs1 0 l .boff]
  | .cBnez rs1 imm => [srcArgs .cBnez .cb rs1 0 imm]
  | .cBnezLabel rs1 l => [labelArgs .cBnez .cb 0 rs1 0 l .boff]
  | .cJ imm => [immArgs .cJ .cj 0 0 imm]
  | .cJLabel l => [labelArgs .cJ .cj 0 0 0 l .jtgt]
  | .cJal imm => [immArgs .cJal .cj 0 0 imm]
  | .cJalLabel l => [labelArgs .cJal .cj 0 0 0 l .jtgt]
  | .cSwsp rs2 imm => [srcArgs .cSwsp .css 2 rs2 imm]
  | .cSdsp rs2 imm => [srcArgs .cSdsp .css 2 rs2 imm]

end RvAssembler
