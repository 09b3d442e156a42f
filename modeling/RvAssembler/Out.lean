import RvAssembler.Ir
import RvAssembler.Lib.Bytes
import RvAssembler.Lib.Image

namespace RvAssembler

open Bytes Image

inductive OutFormat
  | raw | elf
deriving DecidableEq, Repr

/-- An output stream: what the file holds and where the next write goes. -/
structure OutFile where
  bytes : List UInt8 := []
  pos : ℕ := 0
deriving DecidableEq, Repr

/-- `out_ctx_t`, with the number of file operations made so far. -/
structure OutCtx where
  fmt : OutFormat := .raw
  xlen : ℕ := 0
  fp : Option OutFile := none
  curSect : Section := .text
  text : List UInt8 := []
  data : List UInt8 := []
  hasRvc : Bool := false
  vaddrTextBase : ℕ := 0
  vaddrDataBase : ℕ := 0
  ops : ℕ := 0
deriving DecidableEq, Repr

/-- Whether the `n`-th file operation succeeds. -/
abbrev FileOps := ℕ → Bool

def allOps : FileOps := fun _ => true

def outBegin (fmt : OutFormat) (xlen : ℕ) : OutCtx :=
  { fmt
    xlen := if xlen = 64 then 64 else 32
    vaddrTextBase := 0x00100000
    vaddrDataBase := 0x00200000 }

def outSetFile (g : OutCtx) (f : OutFile) : OutCtx := { g with fp := some f }

def outBeginSection (g : OutCtx) (s : Section) : OutCtx := { g with curSect := s }

def andThen (r : OutCtx × Bool) (next : OutCtx → OutCtx × Bool) : OutCtx × Bool :=
  if r.2 then next r.1 else (r.1, false)

def ftello (ops : FileOps) (g : OutCtx) : OutCtx × Bool := ({ g with ops := g.ops + 1 }, ops g.ops)

def fseeko (ops : FileOps) (g : OutCtx) (off : ℕ) : OutCtx × Bool :=
  if ops g.ops then
    ({ g with fp := g.fp.map fun f => { f with pos := off }, ops := g.ops + 1 }, true)
  else ({ g with ops := g.ops + 1 }, false)

/-- A failing write writes nothing. -/
def fwrite (ops : FileOps) (g : OutCtx) (p : List UInt8) : OutCtx × Bool :=
  if ops g.ops then
    ({ g with
      fp := g.fp.map fun f => { bytes := overwrite 0 f.bytes f.pos p, pos := f.pos + p.length }
      ops := g.ops + 1 }, true)
  else ({ g with ops := g.ops + 1 }, false)

def sinkWrite (ops : FileOps) (g : OutCtx) (p : List UInt8) : OutCtx × Bool :=
  match g.fmt with
  | .raw => if g.fp.isNone then (g, false) else fwrite ops g p
  | .elf =>
    match g.curSect with
    | .text => ({ g with text := g.text ++ p }, true)
    | .data => ({ g with data := g.data ++ p }, true)

/-- The loop of `sink_zeros` over chunks of up to 256 bytes. -/
def fwriteZeros (ops : FileOps) (g : OutCtx) (n : ℕ) : OutCtx × Bool :=
  if n = 0 then (g, true)
  else
    let chunk := if n > 256 then 256 else n
    andThen (fwrite ops g (List.replicate chunk 0)) fun g => fwriteZeros ops g (n - chunk)
termination_by n
decreasing_by split_ifs <;> omega

def sinkZeros (ops : FileOps) (g : OutCtx) (n : ℕ) : OutCtx × Bool :=
  match g.fmt with
  | .raw => if g.fp.isNone then (g, false) else fwriteZeros ops g n
  | .elf =>
    match g.curSect with
    | .text => ({ g with text := g.text ++ List.replicate n 0 }, true)
    | .data => ({ g with data := g.data ++ List.replicate n 0 }, true)

def writeWordLe (ops : FileOps) (g : OutCtx) (word : BitVec 32) : OutCtx × Bool :=
  sinkWrite ops g (le 4 word.toNat)

def writeHalfLe (ops : FileOps) (g : OutCtx) (half : BitVec 16) : OutCtx × Bool :=
  let g := if g.fmt = .elf ∧ g.curSect = .text then { g with hasRvc := true } else g
  sinkWrite ops g (le 2 half.toNat)

def valueBytes (value : ℤ) (size : ℕ) : List UInt8 := le size (BitVec.ofInt 64 value).toNat

def writeValueLe (ops : FileOps) (g : OutCtx) (value : ℤ) (size : ℕ) : OutCtx × Bool :=
  if size ≠ 1 ∧ size ≠ 2 ∧ size ≠ 4 ∧ size ≠ 8 then (g, false)
  else sinkWrite ops g (valueBytes value size)

def writeZeros (ops : FileOps) (g : OutCtx) (n : ℕ) : OutCtx × Bool := sinkZeros ops g n

/-- `write_at`: writes at a position and returns to where the stream stood. -/
def writeAt (ops : FileOps) (g : OutCtx) (off : ℕ) (p : List UInt8) : OutCtx × Bool :=
  match g.fp with
  | none => (g, false)
  | some f =>
    andThen (ftello ops g) fun g => andThen (fseeko ops g off) fun g =>
      let (g, wrote) := fwrite ops g p
      if wrote then fseeko ops g f.pos else ((fseeko ops g f.pos).1, false)

/-- The calls pass 2 makes between `out_set_file` and `out_finish`. -/
inductive SinkCall
  | enter (s : Section)
  | word (w : BitVec 32)
  | half (h : BitVec 16)
  | value (v : ℤ) (size : ℕ)
  | zeros (n : ℕ)

def SinkCall.run (ops : FileOps) (g : OutCtx) : SinkCall → OutCtx × Bool
  | .enter s => (outBeginSection g s, true)
  | .word w => writeWordLe ops g w
  | .half h => writeHalfLe ops g h
  | .value v size => writeValueLe ops g v size
  | .zeros n => writeZeros ops g n

def runSinkCalls (ops : FileOps) (g : OutCtx) (calls : List SinkCall) : OutCtx :=
  calls.foldl (fun g c => (c.run ops g).1) g

def SinkCall.bytes : SinkCall → List UInt8
  | .enter _ => []
  | .word w => le 4 w.toNat
  | .half h => le 2 h.toNat
  | .value v size =>
    if size ≠ 1 ∧ size ≠ 2 ∧ size ≠ 4 ∧ size ≠ 8 then [] else valueBytes v size
  | .zeros n => List.replicate n 0

def SinkCall.next (cur : Section) : SinkCall → Section
  | .enter s => s
  | _ => cur

def SinkCall.Sized : SinkCall → Prop
  | .value _ size => size = 1 ∨ size = 2 ∨ size = 4 ∨ size = 8
  | _ => True

/-- The bytes a sequence of calls writes to one section. -/
def sectionBytes (s : Section) : Section → List SinkCall → List UInt8
  | _, [] => []
  | cur, c :: cs => (if cur = s then c.bytes else []) ++ sectionBytes s (c.next cur) cs

theorem sectionBytes_append (s cur : Section) (cs ds : List SinkCall) :
    sectionBytes s cur (cs ++ ds) =
      sectionBytes s cur cs ++ sectionBytes s (cs.foldl SinkCall.next cur) ds := by
  induction cs generalizing cur with
  | nil => rfl
  | cons c cs ih =>
    rw [List.cons_append, sectionBytes, sectionBytes, ih, List.foldl_cons, List.append_assoc]

def sinkCallsOk (ops : FileOps) : OutCtx → List SinkCall → Bool
  | _, [] => true
  | g, c :: cs => (c.run ops g).2 && sinkCallsOk ops (c.run ops g).1 cs

def SinkCall.isTextHalf (cur : Section) : SinkCall → Bool
  | .half _ => cur = .text
  | _ => false

def writesTextHalf : Section → List SinkCall → Bool
  | _, [] => false
  | cur, c :: cs => c.isTextHalf cur || writesTextHalf (c.next cur) cs

def SinkCall.collect (g : OutCtx) (c : SinkCall) : OutCtx :=
  { g with
    curSect := c.next g.curSect
    text := g.text ++ if g.curSect = .text then c.bytes else []
    data := g.data ++ if g.curSect = .data then c.bytes else []
    hasRvc := g.hasRvc || c.isTextHalf g.curSect }

theorem sinkWrite_elf (ops : FileOps) {g : OutCtx} (hfmt : g.fmt = .elf) (p : List UInt8) :
    sinkWrite ops g p =
      ({ g with
        text := g.text ++ if g.curSect = .text then p else []
        data := g.data ++ if g.curSect = .data then p else [] }, true) := by
  simp only [sinkWrite, hfmt]
  cases h : g.curSect <;> simp

theorem SinkCall.run_elf (ops : FileOps) {g : OutCtx} (hfmt : g.fmt = .elf) (c : SinkCall) :
    (c.run ops g).1 = c.collect g := by
  cases c with
  | enter s => simp [SinkCall.run, SinkCall.collect, outBeginSection, SinkCall.next,
      SinkCall.bytes, SinkCall.isTextHalf]
  | word w => simp [SinkCall.run, SinkCall.collect, writeWordLe, sinkWrite_elf ops hfmt,
      SinkCall.next, SinkCall.bytes, SinkCall.isTextHalf]
  | half h =>
    rw [SinkCall.run, writeHalfLe]
    by_cases ht : g.curSect = .text
    · rw [if_pos ⟨hfmt, ht⟩, sinkWrite_elf ops (g := { g with hasRvc := true }) hfmt]
      simp [SinkCall.collect, SinkCall.next, SinkCall.bytes, SinkCall.isTextHalf, ht]
    · rw [if_neg fun hc => ht hc.2, sinkWrite_elf ops hfmt]
      simp [SinkCall.collect, SinkCall.next, SinkCall.bytes, SinkCall.isTextHalf, ht]
  | value v size =>
    rw [SinkCall.run, writeValueLe]
    split_ifs with hsize
    · simp [SinkCall.collect, SinkCall.next, SinkCall.bytes, SinkCall.isTextHalf, hsize]
    · rw [sinkWrite_elf ops hfmt]
      simp only [SinkCall.collect, SinkCall.next, SinkCall.bytes, SinkCall.isTextHalf,
        if_neg hsize, Bool.or_false]
  | zeros n =>
    simp only [SinkCall.run, SinkCall.collect, writeZeros, sinkZeros, hfmt, SinkCall.next,
      SinkCall.bytes, SinkCall.isTextHalf, Bool.or_false]
    cases h : g.curSect <;> simp

/-- In ELF mode the buffers collect what the calls write, section by section. -/
theorem runSinkCalls_elf (ops : FileOps) (calls : List SinkCall) (g : OutCtx)
    (hfmt : g.fmt = .elf) :
    runSinkCalls ops g calls =
      { g with
        curSect := calls.foldl SinkCall.next g.curSect
        text := g.text ++ sectionBytes .text g.curSect calls
        data := g.data ++ sectionBytes .data g.curSect calls
        hasRvc := g.hasRvc || writesTextHalf g.curSect calls } := by
  induction calls generalizing g with
  | nil => simp [runSinkCalls, sectionBytes, writesTextHalf]
  | cons c cs ih =>
    have hrun : runSinkCalls ops g (c :: cs) = runSinkCalls ops (c.collect g) cs := by
      rw [runSinkCalls, List.foldl_cons, c.run_elf ops hfmt, runSinkCalls]
    rw [hrun, ih (c.collect g) hfmt]
    simp only [SinkCall.collect, List.foldl_cons, sectionBytes, writesTextHalf, List.append_assoc,
      Bool.or_assoc]

end RvAssembler
