import RvAssembler.Tokens

namespace RvAssembler

/-- What stands behind the keyword of an instruction or directive: registers, an immediate, an
immediate with a register in parentheses, a label, a string. -/
inductive Args
  | none
  | r (a : Reg)
  | rr (a b : Reg)
  | rrr (a b c : Reg)
  | i (v : Int64)
  | ri (a : Reg) (v : Int64)
  | rri (a b : Reg) (v : Int64)
  | mem (a : Reg) (v : Int64) (b : Reg)
  | l (name : Identifier)
  | rl (a : Reg) (name : Identifier)
  | rrl (a b : Reg) (name : Identifier)
  | s (s : CString)

def production : Keyword → Args → Option Item
  | .add, .rrr rd rs1 rs2 => some (.instruction (.add rd rs1 rs2))
  | .sub, .rrr rd rs1 rs2 => some (.instruction (.sub rd rs1 rs2))
  | .sll, .rrr rd rs1 rs2 => some (.instruction (.sll rd rs1 rs2))
  | .slt, .rrr rd rs1 rs2 => some (.instruction (.slt rd rs1 rs2))
  | .sltu, .rrr rd rs1 rs2 => some (.instruction (.sltu rd rs1 rs2))
  | .xor, .rrr rd rs1 rs2 => some (.instruction (.xor rd rs1 rs2))
  | .srl, .rrr rd rs1 rs2 => some (.instruction (.srl rd rs1 rs2))
  | .sra, .rrr rd rs1 rs2 => some (.instruction (.sra rd rs1 rs2))
  | .or, .rrr rd rs1 rs2 => some (.instruction (.or rd rs1 rs2))
  | .and, .rrr rd rs1 rs2 => some (.instruction (.and rd rs1 rs2))
  | .mul, .rrr rd rs1 rs2 => some (.instruction (.mul rd rs1 rs2))
  | .mulh, .rrr rd rs1 rs2 => some (.instruction (.mulh rd rs1 rs2))
  | .mulhsu, .rrr rd rs1 rs2 => some (.instruction (.mulhsu rd rs1 rs2))
  | .mulhu, .rrr rd rs1 rs2 => some (.instruction (.mulhu rd rs1 rs2))
  | .div, .rrr rd rs1 rs2 => some (.instruction (.div rd rs1 rs2))
  | .divu, .rrr rd rs1 rs2 => some (.instruction (.divu rd rs1 rs2))
  | .rem, .rrr rd rs1 rs2 => some (.instruction (.rem rd rs1 rs2))
  | .remu, .rrr rd rs1 rs2 => some (.instruction (.remu rd rs1 rs2))
  | .addw, .rrr rd rs1 rs2 => some (.instruction (.addw rd rs1 rs2))
  | .subw, .rrr rd rs1 rs2 => some (.instruction (.subw rd rs1 rs2))
  | .sllw, .rrr rd rs1 rs2 => some (.instruction (.sllw rd rs1 rs2))
  | .srlw, .rrr rd rs1 rs2 => some (.instruction (.srlw rd rs1 rs2))
  | .sraw, .rrr rd rs1 rs2 => some (.instruction (.sraw rd rs1 rs2))
  | .mulw, .rrr rd rs1 rs2 => some (.instruction (.mulw rd rs1 rs2))
  | .divw, .rrr rd rs1 rs2 => some (.instruction (.divw rd rs1 rs2))
  | .divuw, .rrr rd rs1 rs2 => some (.instruction (.divuw rd rs1 rs2))
  | .remw, .rrr rd rs1 rs2 => some (.instruction (.remw rd rs1 rs2))
  | .remuw, .rrr rd rs1 rs2 => some (.instruction (.remuw rd rs1 rs2))
  | .neg, .rr rd rs2 => some (.instruction (.neg rd rs2))
  | .snez, .rr rd rs2 => some (.instruction (.snez rd rs2))
  | .addi, .rri rd rs1 imm => some (.instruction (.addi rd rs1 imm))
  | .slli, .rri rd rs1 imm => some (.instruction (.slli rd rs1 imm))
  | .slti, .rri rd rs1 imm => some (.instruction (.slti rd rs1 imm))
  | .sltiu, .rri rd rs1 imm => some (.instruction (.sltiu rd rs1 imm))
  | .xori, .rri rd rs1 imm => some (.instruction (.xori rd rs1 imm))
  | .ori, .rri rd rs1 imm => some (.instruction (.ori rd rs1 imm))
  | .andi, .rri rd rs1 imm => some (.instruction (.andi rd rs1 imm))
  | .srli, .rri rd rs1 imm => some (.instruction (.srli rd rs1 imm))
  | .srai, .rri rd rs1 imm => some (.instruction (.srai rd rs1 imm))
  | .addiw, .rri rd rs1 imm => some (.instruction (.addiw rd rs1 imm))
  | .slliw, .rri rd rs1 imm => some (.instruction (.slliw rd rs1 imm))
  | .srliw, .rri rd rs1 imm => some (.instruction (.srliw rd rs1 imm))
  | .sraiw, .rri rd rs1 imm => some (.instruction (.sraiw rd rs1 imm))
  | .jalr, .mem rd imm rs1 => some (.instruction (.jalr rd imm rs1))
  | .lw, .mem rd imm rs1 => some (.instruction (.lw rd imm rs1))
  | .lb, .mem rd imm rs1 => some (.instruction (.lb rd imm rs1))
  | .lh, .mem rd imm rs1 => some (.instruction (.lh rd imm rs1))
  | .lbu, .mem rd imm rs1 => some (.instruction (.lbu rd imm rs1))
  | .lhu, .mem rd imm rs1 => some (.instruction (.lhu rd imm rs1))
  | .lwu, .mem rd imm rs1 => some (.instruction (.lwu rd imm rs1))
  | .ld, .mem rd imm rs1 => some (.instruction (.ld rd imm rs1))
  | .nop, .none => some (.instruction .nop)
  | .mv, .rr rd rs1 => some (.instruction (.mv rd rs1))
  | .li, .ri rd imm => some (.instruction (.li rd imm))
  | .subi, .rri rd rs1 imm => some (.instruction (.subi rd rs1 imm))
  | .seqz, .rr rd rs1 => some (.instruction (.seqz rd rs1))
  | .jr, .r rs1 => some (.instruction (.jr rs1))
  | .ret, .none => some (.instruction .ret)
  | .ebreak, .none => some (.instruction .ebreak)
  | .ecall, .none => some (.instruction .ecall)
  | .sw, .mem rs2 imm rs1 => some (.instruction (.sw rs2 imm rs1))
  | .sb, .mem rs2 imm rs1 => some (.instruction (.sb rs2 imm rs1))
  | .sh, .mem rs2 imm rs1 => some (.instruction (.sh rs2 imm rs1))
  | .sd, .mem rs2 imm rs1 => some (.instruction (.sd rs2 imm rs1))
  | .beq, .rri rs1 rs2 imm => some (.instruction (.beq rs1 rs2 imm))
  | .beq, .rrl rs1 rs2 l => some (.instruction (.beqLabel rs1 rs2 l))
  | .bne, .rri rs1 rs2 imm => some (.instruction (.bne rs1 rs2 imm))
  | .bne, .rrl rs1 rs2 l => some (.instruction (.bneLabel rs1 rs2 l))
  | .blt, .rri rs1 rs2 imm => some (.instruction (.blt rs1 rs2 imm))
  | .blt, .rrl rs1 rs2 l => some (.instruction (.bltLabel rs1 rs2 l))
  | .bge, .rri rs1 rs2 imm => some (.instruction (.bge rs1 rs2 imm))
  | .bge, .rrl rs1 rs2 l => some (.instruction (.bgeLabel rs1 rs2 l))
  | .bltu, .rri rs1 rs2 imm => some (.instruction (.bltu rs1 rs2 imm))
  | .bltu, .rrl rs1 rs2 l => some (.instruction (.bltuLabel rs1 rs2 l))
  | .bgeu, .rri rs1 rs2 imm => some (.instruction (.bgeu rs1 rs2 imm))
  | .bgeu, .rrl rs1 rs2 l => some (.instruction (.bgeuLabel rs1 rs2 l))
  | .beqz, .ri rs1 imm => some (.instruction (.beqz rs1 imm))
  | .beqz, .rl rs1 l => some (.instruction (.beqzLabel rs1 l))
  | .bnez, .ri rs1 imm => some (.instruction (.bnez rs1 imm))
  | .bnez, .rl rs1 l => some (.instruction (.bnezLabel rs1 l))
  | .j, .i imm => some (.instruction (.j imm))
  | .j, .l l => some (.instruction (.jLabel l))
  | .jal, .ri rd imm => some (.instruction (.jal rd imm))
  | .jal, .rl rd l => some (.instruction (.jalLabel rd l))
  | .auipc, .ri rd imm => some (.instruction (.auipc rd imm))
  | .lui, .ri rd imm => some (.instruction (.lui rd imm))
  | .la, .rl rd l => some (.instruction (.la rd l))
  | .cSub, .rr rd rs2 => some (.instruction (.cSub rd rs2))
  | .cXor, .rr rd rs2 => some (.instruction (.cXor rd rs2))
  | .cOr, .rr rd rs2 => some (.instruction (.cOr rd rs2))
  | .cAnd, .rr rd rs2 => some (.instruction (.cAnd rd rs2))
  | .cSubw, .rr rd rs2 => some (.instruction (.cSubw rd rs2))
  | .cAddw, .rr rd rs2 => some (.instruction (.cAddw rd rs2))
  | .cAdd, .rr rd rs2 => some (.instruction (.cAdd rd rs2))
  | .cJalr, .r rs1 => some (.instruction (.cJalr rs1))
  | .cEbreak, .none => some (.instruction .cEbreak)
  | .cJr, .r rs1 => some (.instruction (.cJr rs1))
  | .cMv, .rr rd rs2 => some (.instruction (.cMv rd rs2))
  | .cAddi, .ri rd imm => some (.instruction (.cAddi rd imm))
  | .cAddiw, .ri rd imm => some (.instruction (.cAddiw rd imm))
  | .cSrli, .ri rd imm => some (.instruction (.cSrli rd imm))
  | .cSlli, .ri rd imm => some (.instruction (.cSlli rd imm))
  | .cSrai, .ri rd imm => some (.instruction (.cSrai rd imm))
  | .cAndi, .ri rd imm => some (.instruction (.cAndi rd imm))
  | .cNop, .none => some (.instruction .cNop)
  | .cLi, .ri rd imm => some (.instruction (.cLi rd imm))
  | .cLui, .ri rd imm => some (.instruction (.cLui rd imm))
  | .cLwsp, .ri rd imm => some (.instruction (.cLwsp rd imm))
  | .cLdsp, .ri rd imm => some (.instruction (.cLdsp rd imm))
  | .cLw, .mem rd imm rs1 => some (.instruction (.cLw rd imm rs1))
  | .cLd, .mem rd imm rs1 => some (.instruction (.cLd rd imm rs1))
  | .cSw, .mem rs2 imm rs1 => some (.instruction (.cSw rs2 imm rs1))
  | .cSd, .mem rs2 imm rs1 => some (.instruction (.cSd rs2 imm rs1))
  | .cBeqz, .ri rs1 imm => some (.instruction (.cBeqz rs1 imm))
  | .cBeqz, .rl rs1 l => some (.instruction (.cBeqzLabel rs1 l))
  | .cBnez, .ri rs1 imm => some (.instruction (.cBnez rs1 imm))
  | .cBnez, .rl rs1 l => some (.instruction (.cBnezLabel rs1 l))
  | .cJ, .i imm => some (.instruction (.cJ imm))
  | .cJ, .l l => some (.instruction (.cJLabel l))
  | .cJal, .i imm => some (.instruction (.cJal imm))
  | .cJal, .l l => some (.instruction (.cJalLabel l))
  | .cSwsp, .ri rs2 imm => some (.instruction (.cSwsp rs2 imm))
  | .cSdsp, .ri rs2 imm => some (.instruction (.cSdsp rs2 imm))
  | .dotText, .none => some .text
  | .dotData, .none => some .data
  | .align, .i pow2 => some (.align pow2)
  | .byte, .i v => some (.byte v)
  | .half, .i v => some (.half v)
  | .word, .i v => some (.word v)
  | .dword, .i v => some (.dword v)
  | .ascii, .s s => some (.ascii s)
  | .asciiz, .s s => some (.asciiz s)
  | .space, .i n => some (.space n)
  | _, _ => none

inductive ImmPhrase : List Token → Int64 → Prop
  | minus (v : Int64) : ImmPhrase [.minus, .immediate v] (imm true v)
  | plain (v : Int64) : ImmPhrase [.immediate v] (imm false v)

inductive ArgsPhrase : List Token → Args → Prop
  | none : ArgsPhrase [] .none
  | r (a : Reg) : ArgsPhrase [.register a] (.r a)
  | rr (a b : Reg) : ArgsPhrase [.register a, .comma, .register b] (.rr a b)
  | rrr (a b c : Reg) :
    ArgsPhrase [.register a, .comma, .register b, .comma, .register c] (.rrr a b c)
  | i {ts : List Token} {v : Int64} (h : ImmPhrase ts v) : ArgsPhrase ts (.i v)
  | ri (a : Reg) {ts : List Token} {v : Int64} (h : ImmPhrase ts v) :
    ArgsPhrase (.register a :: .comma :: ts) (.ri a v)
  | rri (a b : Reg) {ts : List Token} {v : Int64} (h : ImmPhrase ts v) :
    ArgsPhrase (.register a :: .comma :: .register b :: .comma :: ts) (.rri a b v)
  | mem (a b : Reg) {ts : List Token} {v : Int64} (h : ImmPhrase ts v) :
    ArgsPhrase (.register a :: .comma :: (ts ++ [.leftParen, .register b, .rightParen]))
      (.mem a v b)
  | l (name : Identifier) : ArgsPhrase [.identifier name] (.l name)
  | rl (a : Reg) (name : Identifier) :
    ArgsPhrase [.register a, .comma, .identifier name] (.rl a name)
  | rrl (a b : Reg) (name : Identifier) :
    ArgsPhrase [.register a, .comma, .register b, .comma, .identifier name] (.rrl a b name)
  | s (s : CString) : ArgsPhrase [.string s] (.s s)

/-- `label_list opt_item`, the part of a `segment` before its `NEWLINE`. -/
inductive LinePhrase : List Token → List Item → Prop
  | empty : LinePhrase [] []
  | item (k : Keyword) {ts : List Token} {a : Args} {it : Item} (hargs : ArgsPhrase ts a)
      (hprod : production k a = some it) : LinePhrase (.keyword k :: ts) [it]
  | label (name : Identifier) {ts : List Token} {its : List Item} (h : LinePhrase ts its) :
    LinePhrase (.identifier name :: .colon :: ts) (.label name :: its)

inductive ProgramPhrase : ℤ → List Token → Program → Prop
  | empty (line : ℤ) : ProgramPhrase line [] []
  | segment {line : ℤ} {ts : List Token} {its : List Item} {rest : List Token} {prog : Program}
      (hline : LinePhrase ts its) (hrest : ProgramPhrase (line + 1) rest prog) :
    ProgramPhrase line (ts ++ .newline :: rest) (its.map (line, ·) ++ prog)

def parseImm : List Token → Option (Int64 × List Token)
  | .minus :: .immediate v :: ts => some (imm true v, ts)
  | .immediate v :: ts => some (imm false v, ts)
  | _ => none

def parseArgs : List Token → Option Args
  | [] => some .none
  | [.string s] => some (.s s)
  | [.identifier name] => some (.l name)
  | [.register a] => some (.r a)
  | [.register a, .comma, .register b] => some (.rr a b)
  | [.register a, .comma, .identifier name] => some (.rl a name)
  | [.register a, .comma, .register b, .comma, .register c] => some (.rrr a b c)
  | [.register a, .comma, .register b, .comma, .identifier name] => some (.rrl a b name)
  | .register a :: .comma :: .register b :: .comma :: ts =>
    match parseImm ts with
    | some (v, []) => some (.rri a b v)
    | _ => none
  | .register a :: .comma :: ts =>
    match parseImm ts with
    | some (v, []) => some (.ri a v)
    | some (v, [.leftParen, .register b, .rightParen]) => some (.mem a v b)
    | _ => none
  | ts =>
    match parseImm ts with
    | some (v, []) => some (.i v)
    | _ => none

def parseLine : List Token → Option (List Item)
  | [] => some []
  | .keyword k :: ts => (parseArgs ts).bind fun a => (production k a).map fun it => [it]
  | .identifier name :: .colon :: ts => (parseLine ts).map (.label name :: ·)
  | _ => none

/-- The lines of the tokens, each without its `NEWLINE`; the last one has to have its own. -/
def splitLines : List Token → Option (List (List Token))
  | [] => some []
  | .newline :: ts => (splitLines ts).map ([] :: ·)
  | t :: ts =>
    match splitLines ts with
    | some (l :: ls) => some ((t :: l) :: ls)
    | _ => none

def parseLines : ℤ → List (List Token) → Option Program
  | _, [] => some []
  | line, l :: ls =>
    (parseLine l).bind fun its => (parseLines (line + 1) ls).map (its.map (line, ·) ++ ·)

/-- `yyparse` on the tokens of an input: the items whose actions run, if it accepts. -/
def yyparse (ts : List Token) : Option Program := (splitLines ts).bind (parseLines 1)

end RvAssembler
