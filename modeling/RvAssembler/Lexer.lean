import Mathlib.Algebra.Ring.Int.Defs
import RvAssembler.Lib.Scan

namespace RvAssembler

def digitOf (c : Char) : ℕ :=
  if '0' ≤ c ∧ c ≤ '9' then c.toNat - '0'.toNat
  else if 'a' ≤ c ∧ c ≤ 'z' then c.toNat - 'a'.toNat + 10
  else if 'A' ≤ c ∧ c ≤ 'Z' then c.toNat - 'A'.toNat + 10
  else 36

def isSpace (c : Char) : Bool := [' ', '\t', '\n', '\x0b', '\x0c', '\r'].contains c

def strtollSign : List Char → Bool × List Char
  | '-' :: s => (true, s)
  | '+' :: s => (false, s)
  | s => (false, s)

/-- In base 16 the digits may stand behind `0x`. -/
def strtollPrefix (base : ℕ) : List Char → List Char
  | '0' :: x :: c :: s =>
    if base = 16 ∧ (x = 'x' ∨ x = 'X') ∧ digitOf c < 16 then c :: s else '0' :: x :: c :: s
  | s => s

def clamp64 (x : ℤ) : ℤ := max (-2 ^ 63) (min (2 ^ 63 - 1) x)

/-- `strtoll`, without the end pointer and `errno`, which no caller looks at. -/
def strtoll (s : List Char) (base : ℕ) : Int64 :=
  let (neg, s) := strtollSign (s.dropWhile isSpace)
  let digits := (strtollPrefix base s).takeWhile fun c => digitOf c < base
  let n := digits.foldl (fun n c => n * base + digitOf c) 0
  Int64.ofInt (clamp64 (if neg then -n else n))

/-- The rules that return `IMMEDIATE`. -/
inductive ImmRule
  | hex | binary | octal | decimal
deriving DecidableEq, Repr

def ImmRule.lead : ImmRule → List Char
  | .hex => ['0', 'x']
  | .binary => ['0', 'b']
  | .octal => ['0']
  | .decimal => []

def ImmRule.digit : ImmRule → Char → Bool
  | .hex, c => ('0' ≤ c && c ≤ '9') || ('a' ≤ c && c ≤ 'f') || ('A' ≤ c && c ≤ 'F')
  | .binary, c => '0' ≤ c && c ≤ '1'
  | .octal, c => '0' ≤ c && c ≤ '7'
  | .decimal, c => '0' ≤ c && c ≤ '9'

def ImmRule.accepts (r : ImmRule) (text : List Char) : Bool :=
  r.lead.isPrefixOf text && !(text.drop r.lead.length).isEmpty &&
    (text.drop r.lead.length).all r.digit

def ImmRule.value (r : ImmRule) (yytext : List Char) : Int64 :=
  match r with
  | .hex => strtoll yytext 16
  | .binary => strtoll (yytext.drop 2) 2
  | .octal => strtoll yytext 8
  | .decimal => strtoll yytext 10

def immRules : List ImmRule := [.hex, .binary, .octal, .decimal]

/-- The `IMMEDIATE` at the head of the input: its text and its value. -/
def lexImmediate (input : List Char) : Option (List Char × Int64) :=
  (Scan.scan immRules ImmRule.accepts input).map fun (r, yytext) => (yytext, r.value yytext)

def imm (minus : Bool) (value : Int64) : Int64 := if minus then -1 * value else value

end RvAssembler
