import RvAssembler.Grammar
import RvAssembler.Pass

namespace RvAssembler

inductive Item
  | label (name : Identifier)
  | instruction (i : Instruction)
  | text
  | data
  | align (pow2 : Int64)
  | byte (v : Int64)
  | half (v : Int64)
  | word (v : Int64)
  | dword (v : Int64)
  | ascii (s : CString)
  | asciiz (s : CString)
  | space (n : Int64)

/-- The items of a program with the lines they end on. -/
abbrev Program := List (ℤ × Item)

/-- What the actions have built so far: the location counters, the symbol table, the
entries, the error flag shared with pass 2 and the reports on `stderr`. -/
structure Pass1 where
  counters : Counters := {}
  symtab : SymTab := createSymtab
  ir : List IrEntry := []
  hadError : Bool := false
  stderr : List String := []

def yyerror (st : Pass1) (line : ℤ) (msg : String) : Pass1 :=
  { st with
    hadError := true
    stderr := st.stderr ++ [s!"Parse error (line: {line}): {msg}"] }

def pass1EmitInstruction (st : Pass1) (a : InstrArgs) (line : ℤ) : Pass1 :=
  let size := if isCFmt a.fmt then 2 else 4
  { st with
    ir := irAppendInstr st.ir a.op a.fmt a.rd a.rs1 a.rs2 a.imm a.label a.reloc
      st.counters.curSection (passCurrentPc st.counters) size line
    counters := passAdvancePc st.counters size }

def pass1EmitData (st : Pass1) (word : ℤ) (size : ℕ) (line : ℤ) : Pass1 :=
  { st with
    ir := irAppendData st.ir st.counters.curSection (passCurrentPc st.counters) word size line
    counters := passAdvancePc st.counters size }

def pass1EmitSpace (st : Pass1) (numBytes : ℕ) (line : ℤ) : Pass1 :=
  { st with
    ir := irAppendAlign st.ir st.counters.curSection (passCurrentPc st.counters) numBytes line
    counters := passAdvancePc st.counters (u32 numBytes) }

def defineLabel (st : Pass1) (name : CString) : Pass1 :=
  let (symtab, inserted) := insertSym st.symtab name (i32 (passCurrentPc st.counters))
  { st with
    symtab
    stderr := st.stderr ++ if inserted then [] else [s!"Error: Duplicate Label '{name.chars}'"] }

/-- The action of `.align`.  What it hands to `ir_append_align` is the counter after the
alignment. -/
def alignDirective (st : Pass1) (pow2 : Int64) (line : ℤ) : Pass1 :=
  let addrBefore := passCurrentPc st.counters
  let (counters, pad) := passAlignCurrentPc st.counters (pow2.toBitVec.setWidth 32).toNat
  { st with
    counters
    ir := if pad > 0 then irAppendAlign st.ir st.counters.curSection addrBefore pad line
      else st.ir }

def rangedData (st : Pass1) (name : String) (lo hi : ℤ) (size : ℕ) (v : Int64) (line : ℤ) : Pass1 :=
  if v.toInt < lo ∨ v.toInt > hi then yyerror st line s!"Value {v.toInt} out of range for .{name}"
  else pass1EmitData st v.toInt size line

def stringData (st : Pass1) (s : CString) (line : ℤ) : Pass1 :=
  s.bytes.foldl (fun st b => pass1EmitData st b.toNat 1 line) st

def execItem (st : Pass1) (line : ℤ) : Item → Pass1
  | .label name => defineLabel st name.toCString
  | .instruction i => i.emits.foldl (fun st a => pass1EmitInstruction st a line) st
  | .text => { st with counters := passSetSection st.counters .text }
  | .data => { st with counters := passSetSection st.counters .data }
  | .align pow2 => alignDirective st pow2 line
  | .byte v => rangedData st "byte" (-128) 127 1 v line
  | .half v => rangedData st "half" (-32768) 32767 2 v line
  | .word v => rangedData st "word" (-2147483648) 2147483647 4 v line
  | .dword v => pass1EmitData st v.toInt 8 line
  | .ascii s => stringData st s line
  | .asciiz s => pass1EmitData (stringData st s line) 0 1 line
  | .space n =>
    if n.toInt < 0 then yyerror st line s!"Negative size for .space: {n.toInt}"
    else pass1EmitSpace st n.toInt.toNat line

def execAll (st : Pass1) (prog : Program) : Pass1 := prog.foldl (fun st p => execItem st p.1 p.2) st

def pass1Run (prog : Program) : Pass1 := execAll {} prog

end RvAssembler
