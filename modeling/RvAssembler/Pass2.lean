import RvAssembler.CEncoding
import RvAssembler.CRules
import RvAssembler.Grammar
import RvAssembler.Out

namespace RvAssembler

def pass2NodeSizeNow (e : IrEntry) : ℕ :=
  if irIsExplicitC e then 2
  else if e.forcedSize = .two then 2
  else if e.forcedSize = .four then 4
  else if e.hasCChoice then 2
  else 4

def pass2ChoiceRangeOk (op : Opcode) (disp : ℤ) : Bool :=
  match op with
  | .cBeqz | .cBnez => disp % 2 = 0 ∧ -256 ≤ disp ∧ disp ≤ 254
  | .cJ | .cJal => disp % 2 = 0 ∧ -2048 ≤ disp ∧ disp ≤ 2046
  | _ => true

def pass2ComputeDisp (fromAddr toAddr : ℕ) : ℤ := i32 (i32 toAddr - i32 fromAddr)

def pass2PeekLabelAddr (t : SymTab) (label : CString) : Option ℕ :=
  let addr := searchSym t label
  if addr < 0 then none else some (u32 addr.toNat)

/-- Where a chosen branch or jump leads: nowhere known for a plain offset, otherwise to an
address if the label has one. -/
def choiceTarget (t : SymTab) (e : IrEntry) : Option (Option ℕ) :=
  let byReloc :=
    if e.choice.reloc = .boff ∨ e.choice.reloc = .jtgt then
      some (some (BitVec.ofInt 32 (i32 e.addr + i32 e.choice.imm)).toNat)
    else none
  match e.choice.label with
  | some label => if label.bytes ≠ [] then some (pass2PeekLabelAddr t label) else byReloc
  | none => byReloc

/-- The body of the loop of `pass2_validate_compressed_ranges` for a chosen entry, and
whether it changes the size of the entry. -/
def validateChoice (t : SymTab) (e : IrEntry) : IrEntry × Bool :=
  if !isPcRel e.choice.op then (e, false)
  else
    match choiceTarget t e with
    | none => (e, false)
    | some none => ({ e with hasCChoice := false }, true)
    | some (some toAddr) =>
      let disp := pass2ComputeDisp e.addr toAddr
      if !pass2ChoiceRangeOk e.choice.op disp then ({ e with hasCChoice := false }, true)
      else ({ e with choice := { e.choice with imm := disp } }, false)

def validateEntry (t : SymTab) (sect : Section) (e : IrEntry) : IrEntry × Bool :=
  if e.sect ≠ sect then (e, false)
  else if !e.hasCChoice then (e, false)
  else validateChoice t e

def pass2ValidateCompressedRanges (cfg : Config) (t : SymTab) (sect : Section)
    (ir : List IrEntry) : List IrEntry × Bool :=
  if !cfg.compresses then (ir, false)
  else (ir.map fun e => (validateEntry t sect e).1, ir.any fun e => (validateEntry t sect e).2)

/-- The loop of `pass2_assign_addresses` from the address `pc` on.  For an alignment entry
it goes by the field `imm`. -/
def assignFrom (sect : Section) : ℕ → List IrEntry → List IrEntry
  | _, [] => []
  | pc, e :: es =>
    if e.sect ≠ sect then e :: assignFrom sect pc es
    else
      match e.kind with
      | .data => { e with addr := pc } :: assignFrom sect (u32 (pc + e.size)) es
      | .align =>
        let align := (BitVec.ofInt 32 e.imm).toNat
        if align > 1 then
          let aligned := u32 (pc + (align - 1)) &&& not32 (align - 1)
          { e with size := u32 (aligned + 2 ^ 32 - pc), addr := aligned } ::
            assignFrom sect aligned es
        else { e with size := 0, addr := pc } :: assignFrom sect pc es
      | .instr =>
        { e with size := pass2NodeSizeNow e, addr := pc } ::
          assignFrom sect (u32 (pc + pass2NodeSizeNow e)) es

def pass2AssignAddresses (sect : Section) (ir : List IrEntry) : List IrEntry :=
  assignFrom sect 0 ir

def pass2NodeCanAttempt (cfg : Config) (e : IrEntry) : Bool :=
  if !cfg.extC then false
  else if !cfg.autoC then false
  else if e.kind = .data ∨ e.kind = .align then false
  else if irIsExplicitC e then false
  else if e.forcedSize = .four then false
  else if !e.canCompress then false
  else if e.reloc ≠ .none ∧ e.reloc ≠ .boff ∧ e.reloc ≠ .jtgt then false
  else if e.sect ≠ .text then false
  else true

def planEntry (cfg : Config) (e : IrEntry) : IrEntry :=
  if !pass2NodeCanAttempt cfg e then e
  else
    match cTryMap cfg e with
    | some ch => irSetCChoice e ch
    | none => { e with hasCChoice := false }

def pass2PlanChoices (cfg : Config) (ir : List IrEntry) : List IrEntry :=
  if !cfg.compresses then ir else ir.map (planEntry cfg)

/-- At most the given number of rounds of the loop of `pass2_relayout_and_validate`. -/
def relayoutRounds (cfg : Config) (t : SymTab) (sect : Section) :
    ℕ → List IrEntry → List IrEntry × Bool
  | 0, ir => (ir, false)
  | n + 1, ir =>
    let (ir, changed) := pass2ValidateCompressedRanges cfg t sect (pass2AssignAddresses sect ir)
    if !changed then (ir, true) else relayoutRounds cfg t sect n ir

def pass2RelayoutAndValidate (cfg : Config) (t : SymTab) (sect : Section) (maxIters : ℕ)
    (ir : List IrEntry) : List IrEntry × Bool :=
  relayoutRounds cfg t sect (if maxIters = 0 then 1 else maxIters) ir

/-- The layout `pass2_run` makes before it emits anything.  Whether the rounds settled is
not looked at. -/
def pass2Layout (cfg : Config) (t : SymTab) (ir : List IrEntry) : List IrEntry :=
  let ir := pass2AssignAddresses .data ir
  if cfg.compresses then (pass2RelayoutAndValidate cfg t .text 8 (pass2PlanChoices cfg ir)).1
  else pass2AssignAddresses .text ir

/-- Why an instruction is not emitted, and whether `had_error` is set for it. -/
structure Fault where
  message : String
  sticky : Bool

def sticky {α : Type} (x : Except String α) : Except Fault α := x.mapError fun m => ⟨m, true⟩

def resolveLabel (t : SymTab) (label : CString) (reloc : RelocKind) (addr : ℕ) (line : ℤ) :
    Except String ℤ :=
  let target := searchSym t label
  if target < 0 then .error s!"Error: (line {line}): Undefined label '{label.chars}'"
  else
    let pcOffset := target - addr
    let hi := (pcOffset + 0x800) >>> (12 : ℕ)
    match reloc with
    | .hi20 => .ok (i32 (hi * 2 ^ 12))
    | .lo12 => .ok (i32 (pcOffset - hi * 2 ^ 12))
    | .boff | .jtgt => .ok (i32 pcOffset)
    | .none => .ok target

def cMaterialize (e : IrEntry) : InstrArgs :=
  if e.hasCChoice then
    let ch := e.choice
    let pcRel := isPcRel ch.op
    { op := ch.op, fmt := ch.fmt, rd := ch.rd, rs1 := ch.rs1, rs2 := ch.rs2, imm := ch.imm
      label := if pcRel then none else ch.label
      reloc := if pcRel then .none else ch.reloc }
  else
    { op := e.op, fmt := e.fmt, rd := e.rd, rs1 := e.rs1, rs2 := e.rs2, imm := e.imm
      label := e.label, reloc := e.reloc }

def encoderImm (t : SymTab) (a : InstrArgs) (addr : ℕ) (line : ℤ) : Except Fault ℤ :=
  match a.label with
  | none => .ok a.imm
  | some label =>
    if a.reloc = .none then
      .error ⟨s!"Error: (line {line}): label provided without relocation kind", true⟩
    else sticky (resolveLabel t label a.reloc addr line)

/-- The word or halfword `pass2_emit_instr` writes.  A C instruction the target lacks is
turned down without setting `had_error`. -/
def instrCall (cfg : Config) (t : SymTab) (a : InstrArgs) (addr : ℕ) (line : ℤ) :
    Except Fault SinkCall :=
  if isCFmt a.fmt then do
    (requireCForOp cfg a.op line).mapError fun m => ⟨m, false⟩
    let imm ← encoderImm t a addr line
    let half ← sticky (cEncodeInstruction cfg a.op a.fmt a.rd a.rs1 a.rs2 imm line)
    .ok (.half half)
  else do
    sticky (requireForOp cfg a.op line)
    let imm ← encoderImm t a addr line
    let word ← sticky (encodeInstruction cfg a.op a.fmt a.rd a.rs1 a.rs2 imm line)
    .ok (.word word)

/-- The static variables of `pass2.c`, the output context, the sink calls made so far and
the reports on `stderr`. -/
structure Pass2 where
  hadError : Bool := false
  outfile : Bool := false
  outSection : Section := .text
  seenText : Bool := false
  out : OutCtx := {}
  calls : List SinkCall := []
  stderr : List String := []

def pass2Initialize (st : Pass2) : Pass2 :=
  { st with hadError := false, outfile := false, outSection := .text, seenText := false }

def pass2SetOutput (st : Pass2) : Pass2 := { st with outfile := true }

def Pass2.fail (st : Pass2) (f : Fault) : Pass2 × Bool :=
  ({ st with hadError := st.hadError || f.sticky, stderr := st.stderr ++ [f.message] }, false)

def Pass2.sink (ops : FileOps) (st : Pass2) (c : SinkCall) : Pass2 × Bool :=
  ({ st with out := (c.run ops st.out).1, calls := st.calls ++ [c] }, (c.run ops st.out).2)

def pass2EmitInstr (cfg : Config) (t : SymTab) (ops : FileOps) (st : Pass2) (a : InstrArgs)
    (addr : ℕ) (line : ℤ) : Pass2 × Bool :=
  if st.hadError then (st, false)
  else if !st.outfile then
    st.fail ⟨s!"Error: no output file set before emitting instruction (line {line})", true⟩
  else
    match instrCall cfg t a addr line with
    | .error f => st.fail f
    | .ok c =>
      let (st, wrote) := st.sink ops c
      if wrote || isCFmt a.fmt then (st, wrote)
      else st.fail ⟨s!"Error: (line {line}): failed to write instruction", false⟩

def nodeArgs (e : IrEntry) : InstrArgs :=
  let a := cMaterialize e
  { a with imm := if a.label.isSome then 0 else a.imm }

def pass2EmitNode (cfg : Config) (t : SymTab) (ops : FileOps) (st : Pass2) (e : IrEntry) :
    Pass2 × Bool :=
  pass2EmitInstr cfg t ops st (nodeArgs e) e.addr e.line

def pass2EmitSection (ops : FileOps) (st : Pass2) (sect : Section) : Pass2 × Bool :=
  if st.seenText && sect = .data then
    st.fail ⟨"Error: cannot return to .data section after entering .text section", true⟩
  else
    let st := { st with seenText := st.seenText || decide (sect = Section.text), outSection := sect }
    st.sink ops (.enter sect)

def pass2EmitData (ops : FileOps) (st : Pass2) (value : ℤ) (size : ℕ) : Pass2 × Bool :=
  if st.hadError then (st, false)
  else if !st.outfile then st.fail ⟨"Error: no output file set", true⟩
  else if st.outSection ≠ .data then st.fail ⟨"Error: data emitted outside .data section", true⟩
  else st.sink ops (.value value size)

def pass2EmitAlign (ops : FileOps) (st : Pass2) (padBytes : ℕ) : Pass2 × Bool :=
  if padBytes = 0 then (st, true)
  else if st.hadError then (st, false)
  else if !st.outfile then st.fail ⟨"Error: no output file set", true⟩
  else st.sink ops (.zeros padBytes)

def emitEntry (cfg : Config) (t : SymTab) (ops : FileOps) (st : Pass2) (e : IrEntry) :
    Pass2 × Bool :=
  let (st, entered) :=
    if e.sect ≠ st.outSection then pass2EmitSection ops st e.sect else (st, true)
  if !entered then (st, false)
  else
    match e.kind with
    | .align => pass2EmitAlign ops st e.size
    | .data => pass2EmitData ops st e.imm e.size
    | .instr => pass2EmitNode cfg t ops st e

def emitAll (cfg : Config) (t : SymTab) (ops : FileOps) : Pass2 → List IrEntry → Pass2 × Bool
  | st, [] => (st, true)
  | st, e :: es =>
    let (st, ok) := emitEntry cfg t ops st e
    if !ok then (st, false) else emitAll cfg t ops st es

/-- What `pass2_run` does before that loop: entering the section of the first entry. -/
def enterFirst (ops : FileOps) (st : Pass2) (ir : List IrEntry) : Pass2 × Bool :=
  match ir with
  | [] => (st, true)
  | first :: _ => pass2EmitSection ops st first.sect

def pass2Run (cfg : Config) (t : SymTab) (ops : FileOps) (st : Pass2) (ir : List IrEntry) :
    Pass2 × Bool :=
  if st.hadError then (st, false)
  else if !st.outfile then st.fail ⟨"Error: no output file set", true⟩
  else
    let ir := pass2Layout cfg t ir
    let (st, entered) := enterFirst ops st ir
    if !entered then (st, false)
    else
      let (st, ok) := emitAll cfg t ops st ir
      if !ok then (st, false) else (st, !st.hadError)

def Pass2.written (st : Pass2) (s : Section) : ℕ := (sectionBytes s .text st.calls).length

end RvAssembler
