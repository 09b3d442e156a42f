import Mathlib.Data.List.TakeWhile
import RvAssembler.Lexer
import RvAssembler.Lib.Lexemes
import RvAssembler.Pass1

namespace RvAssembler

inductive Keyword
  | add | sub | sll | slt | sltu | xor | srl | sra | or | and | neg | snez | mul | mulh | mulhsu
  | mulhu | div | divu | rem | remu | addw | subw | sllw | srlw | sraw | mulw | divw | divuw | remw
  | remuw
  | addi | slli | lw | slti | sltiu | xori | ori | andi | srli | srai | jalr | lb | lh | lbu | lhu
  | ret | li | mv | nop | subi | jr | seqz | ebreak | ecall | addiw | slliw | srliw | sraiw | lwu
  | ld
  | sw | sh | sb | sd
  | beq | bne | blt | bge | bltu | bgeu | beqz | bnez
  | j | jal
  | auipc | lui | la
  | cAdd | cSub | cXor | cOr | cAnd | cSubw | cAddw | cMv | cJr | cJalr | cEbreak | cAddi | cAddiw
  | cSrli | cAndi | cLi | cLui | cLw | cLd | cSw | cSd | cLwsp | cLdsp | cSwsp | cSdsp | cBeqz
  | cBnez | cJ | cJal | cSlli | cNop | cSrai
  | dotText | dotData | align | byte | half | word | dword | ascii | asciiz | space
deriving DecidableEq, Repr

def Keyword.all : List Keyword :=
  [.add, .sub, .sll, .slt, .sltu, .xor, .srl, .sra, .or, .and, .neg, .snez, .mul, .mulh, .mulhsu,
  .mulhu, .div, .divu, .rem, .remu, .addw, .subw, .sllw, .srlw, .sraw, .mulw, .divw, .divuw, .remw,
  .remuw, .addi, .slli, .lw, .slti, .sltiu, .xori, .ori, .andi, .srli, .srai, .jalr, .lb, .lh,
  .lbu, .lhu, .ret, .li, .mv, .nop, .subi, .jr, .seqz, .ebreak, .ecall, .addiw, .slliw, .srliw,
  .sraiw, .lwu, .ld, .sw, .sh, .sb, .sd, .beq, .bne, .blt, .bge, .bltu, .bgeu, .beqz, .bnez, .j,
  .jal, .auipc, .lui, .la, .cAdd, .cSub, .cXor, .cOr, .cAnd, .cSubw, .cAddw, .cMv, .cJr, .cJalr,
  .cEbreak, .cAddi, .cAddiw, .cSrli, .cAndi, .cLi, .cLui, .cLw, .cLd, .cSw, .cSd, .cLwsp, .cLdsp,
  .cSwsp, .cSdsp, .cBeqz, .cBnez, .cJ, .cJal, .cSlli, .cNop, .cSrai, .dotText, .dotData, .align,
  .byte, .half, .word, .dword, .ascii, .asciiz, .space]

def Keyword.text : Keyword → String
  | .add => "add"
  | .sub => "sub"
  | .sll => "sll"
  | .slt => "slt"
  | .sltu => "sltu"
  | .xor => "xor"
  | .srl => "srl"
  | .sra => "sra"
  | .or => "or"
  | .and => "and"
  | .neg => "neg"
  | .snez => "snez"
  | .mul => "mul"
  | .mulh => "mulh"
  | .mulhsu => "mulhsu"
  | .mulhu => "mulhu"
  | .div => "div"
  | .divu => "divu"
  | .rem => "rem"
  | .remu => "remu"
  | .addw => "addw"
  | .subw => "subw"
  | .sllw => "sllw"
  | .srlw => "srlw"
  | .sraw => "sraw"
  | .mulw => "mulw"
  | .divw => "divw"
  | .divuw => "divuw"
  | .remw => "remw"
  | .remuw => "remuw"
  | .addi => "addi"
  | .slli => "slli"
  | .lw => "lw"
  | .slti => "slti"
  | .sltiu => "sltiu"
  | .xori => "xori"
  | .ori => "ori"
  | .andi => "andi"
  | .srli => "srli"
  | .srai => "srai"
  | .jalr => "jalr"
  | .lb => "lb"
  | .lh => "lh"
  | .lbu => "lbu"
  | .lhu => "lhu"
  | .ret => "ret"
  | .li => "li"
  | .mv => "mv"
  | .nop => "nop"
  | .subi => "subi"
  | .jr => "jr"
  | .seqz => "seqz"
  | .ebreak => "ebreak"
  | .ecall => "ecall"
  | .addiw => "addiw"
  | .slliw => "slliw"
  | .srliw => "srliw"
  | .sraiw => "sraiw"
  | .lwu => "lwu"
  | .ld => "ld"
  | .sw => "sw"
  | .sh => "sh"
  | .sb => "sb"
  | .sd => "sd"
  | .beq => "beq"
  | .bne => "bne"
  | .blt => "blt"
  | .bge => "bge"
  | .bltu => "bltu"
  | .bgeu => "bgeu"
  | .beqz => "beqz"
  | .bnez => "bnez"
  | .j => "j"
  | .jal => "jal"
  | .auipc => "auipc"
  | .lui => "lui"
  | .la => "la"
  | .cAdd => "c.add"
  | .cSub => "c.sub"
  | .cXor => "c.xor"
  | .cOr => "c.or"
  | .cAnd => "c.and"
  | .cSubw => "c.subw"
  | .cAddw => "c.addw"
  | .cMv => "c.mv"
  | .cJr => "c.jr"
  | .cJalr => "c.jalr"
  | .cEbreak => "c.ebreak"
  | .cAddi => "c.addi"
  | .cAddiw => "c.addiw"
  | .cSrli => "c.srli"
  | .cAndi => "c.andi"
  | .cLi => "c.li"
  | .cLui => "c.lui"
  | .cLw => "c.lw"
  | .cLd => "c.ld"
  | .cSw => "c.sw"
  | .cSd => "c.sd"
  | .cLwsp => "c.lwsp"
  | .cLdsp => "c.ldsp"
  | .cSwsp => "c.swsp"
  | .cSdsp => "c.sdsp"
  | .cBeqz => "c.beqz"
  | .cBnez => "c.bnez"
  | .cJ => "c.j"
  | .cJal => "c.jal"
  | .cSlli => "c.slli"
  | .cNop => "c.nop"
  | .cSrai => "c.srai"
  | .dotText => ".text"
  | .dotData => ".data"
  | .align => ".align"
  | .byte => ".byte"
  | .half => ".half"
  | .word => ".word"
  | .dword => ".dword"
  | .ascii => ".ascii"
  | .asciiz => ".asciiz"
  | .space => ".space"

/-- The rules, the default rule last. -/
inductive Rule
  | blank | comment | newline
  | keyword (k : Keyword)
  | imm (r : ImmRule)
  | register | identifier | string | unterminated
  | colon | leftParen | rightParen | comma | minus
  | echo
deriving DecidableEq, Repr

def lexRules : List Rule :=
  [.blank, .comment, .newline] ++ Keyword.all.map .keyword ++
    [.imm .hex, .register, .imm .binary, .imm .octal, .imm .decimal, .identifier, .string,
      .unterminated, .colon, .leftParen, .rightParen, .comma, .minus, .echo]

def isNameStart (c : Char) : Bool := ('a' ≤ c && c ≤ 'z') || ('A' ≤ c && c ≤ 'Z') || c = '_'

def isNameChar (c : Char) : Bool := isNameStart c || ('0' ≤ c && c ≤ '9')

def isRegisterName : List Char → Bool
  | ['x', d] => '0' ≤ d && d ≤ '9'
  | ['x', t, d] => ('0' ≤ t && t ≤ '2' && '0' ≤ d && d ≤ '9') || (t = '3' && '0' ≤ d && d ≤ '1')
  | _ => false

def isName : List Char → Bool
  | c :: cs => isNameStart c && cs.all isNameChar
  | [] => false

def isStringBody : List Char → Bool
  | [] => true
  | '\\' :: c :: cs => c ≠ '\n' && isStringBody cs
  | c :: cs => c ≠ '\\' && c ≠ '\r' && c ≠ '\n' && c ≠ '"' && isStringBody cs

def isQuoted (stop : List Char) (text : List Char) : Bool :=
  match text with
  | '"' :: cs => stop.isSuffixOf cs && isStringBody (cs.take (cs.length - stop.length))
  | _ => false

/-- Whether the pattern of a rule matches a text, with the context of `REGISTER`. -/
def Rule.accepts : Rule → List Char → Bool
  | .blank, text => text ≠ [] && text.all fun c => c = ' ' || c = '\t'
  | .comment, text => text.head? = some '#' && text.all (· ≠ '\n')
  | .newline, text => text = ['\n'] || text = ['\r', '\n']
  | .keyword k, text => text = k.text.toList
  | .imm r, text => r.accepts text
  | .register, text =>
    isRegisterName text.dropLast && text.getLast?.any fun c => !isNameChar c
  | .identifier, text => isName text
  | .string, text => isQuoted ['"'] text
  | .unterminated, text => isQuoted ['\n'] text || isQuoted ['\r', '\n'] text
  | .colon, text => text = [':']
  | .leftParen, text => text = ['(']
  | .rightParen, text => text = [')']
  | .comma, text => text = [',']
  | .minus, text => text = ['-']
  | .echo, text => text.length = 1

/-- The context `REGISTER` asks for is one character. -/
def Rule.context : Rule → ℕ
  | .register => 1
  | _ => 0

theorem Keyword.text_ne_nil (k : Keyword) : k.text.toList ≠ [] := by
  cases k <;> decide

theorem Rule.context_lt (r : Rule) (text : List Char) (h : r.accepts text = true) :
    r.context < text.length := by
  have hpos : text ≠ [] := by
    rintro rfl
    cases r with
    | keyword k => exact k.text_ne_nil (of_decide_eq_true h).symm
    | imm r => cases r <;> exact absurd h (by decide)
    | _ => exact absurd h (by decide)
  cases r with
  | register =>
    obtain ⟨c, rfl⟩ | ⟨c, d, text, rfl⟩ : (∃ c, text = [c]) ∨ ∃ c d cs, text = c :: d :: cs := by
      cases text with
      | nil => exact absurd rfl hpos
      | cons c text => cases text <;> simp
    · simp [Rule.accepts, isRegisterName] at h
    · simp [Rule.context]
  | _ => exact List.length_pos_iff.mpr hpos

def lexer : Scan.Scanner Rule Char where
  rules := lexRules
  accepts := Rule.accepts
  context := Rule.context
  context_lt := Rule.context_lt
  total c := ⟨.echo, by decide, rfl⟩

inductive Token
  | newline | colon | leftParen | rightParen | comma | minus
  | keyword (k : Keyword)
  | register (r : Reg)
  | immediate (v : Int64)
  | identifier (name : Identifier)
  | string (s : CString)
deriving DecidableEq

def byteChar (b : UInt8) : Char := Char.ofNat b.toNat

def charByte (c : Char) : UInt8 := UInt8.ofNat c.toNat

/-- `strdup` and `memcpy` of characters, up to the first NUL. -/
def cStringOf (text : List Char) : CString where
  bytes := (text.map charByte).takeWhile (· ≠ 0)
  nulFree h := by simpa using List.mem_takeWhile_imp h

def identifierOf (yytext : List Char) : Option Identifier :=
  if h : (cStringOf yytext).bytes ≠ [] then some ⟨cStringOf yytext, h⟩ else none

def registerOf (yytext : List Char) : Reg :=
  ⟨(strtoll (yytext.drop 1) 10).toInt.toNat % 32, Nat.mod_lt _ (by decide)⟩

def Rule.token : Rule → List Char → Option Token
  | .blank, _ | .comment, _ | .echo, _ => none
  | .newline, _ | .unterminated, _ => some .newline
  | .keyword k, _ => some (.keyword k)
  | .imm r, yytext => some (.immediate (r.value yytext))
  | .register, yytext => some (.register (registerOf yytext))
  | .identifier, yytext => (identifierOf yytext).map .identifier
  | .string, yytext => some (.string (cStringOf (yytext.drop 1).dropLast))
  | .colon, _ => some .colon
  | .leftParen, _ => some .leftParen
  | .rightParen, _ => some .rightParen
  | .comma, _ => some .comma
  | .minus, _ => some .minus

/-- What the calls of `yylex` return up to the end of the input. -/
def tokens (text : List Char) : List Token :=
  (lexer.lexemes text).filterMap fun (r, yytext) => r.token yytext

end RvAssembler
