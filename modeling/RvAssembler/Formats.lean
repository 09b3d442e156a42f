import RvAssembler.Main

namespace RvAssembler

open Image

def SinkCall.accepted : SinkCall → Bool
  | .value _ size => size = 1 || size = 2 || size = 4 || size = 8
  | _ => true

def fileOf (bs : List UInt8) : OutFile := { bytes := bs, pos := bs.length }

theorem fwrite_fileOf {g : OutCtx} {bs : List UInt8} (hfp : g.fp = some (fileOf bs))
    (p : List UInt8) :
    fwrite allOps g p = ({ g with fp := some (fileOf (bs ++ p)), ops := g.ops + 1 }, true) := by
  simp [fwrite, allOps, hfp, fileOf, overwrite_length]

theorem fwriteZeros_fileOf (g : OutCtx) (n : ℕ) : ∀ bs, g.fp = some (fileOf bs) →
    ∃ k, fwriteZeros allOps g n =
      ({ g with fp := some (fileOf (bs ++ List.replicate n 0)), ops := k }, true) := by
  fun_induction fwriteZeros allOps g n with
  | case1 g => exact fun bs hfp => ⟨g.ops, by simp [← hfp]⟩
  | case2 g n hn chunk ih =>
    intro bs hfp
    have hchunk : chunk + (n - chunk) = n := by
      simp only [chunk]
      split_ifs <;> omega
    rw [fwrite_fileOf hfp]
    obtain ⟨k, hrest⟩ := ih { g with
      fp := some (fileOf (bs ++ List.replicate chunk 0))
      ops := g.ops + 1 } _ rfl
    refine ⟨k, ?_⟩
    rw [andThen, if_pos rfl, hrest, List.append_assoc, List.replicate_append_replicate, hchunk]

theorem SinkCall.run_raw {g : OutCtx} {bs : List UInt8} (hfmt : g.fmt = .raw)
    (hfp : g.fp = some (fileOf bs)) (c : SinkCall) :
    (c.run allOps g).2 = c.accepted ∧ (c.run allOps g).1.fmt = .raw ∧
      (c.run allOps g).1.fp = some (fileOf (bs ++ c.bytes)) := by
  have hwrite : ∀ p, sinkWrite allOps g p = fwrite allOps g p := fun p => by
    simp [sinkWrite, hfmt, hfp]
  cases c with
  | enter s =>
    exact ⟨rfl, hfmt, by simpa [SinkCall.bytes, SinkCall.run, outBeginSection] using hfp⟩
  | word w =>
    rw [SinkCall.run, writeWordLe, hwrite, fwrite_fileOf hfp]
    exact ⟨rfl, hfmt, rfl⟩
  | half h =>
    rw [SinkCall.run, writeHalfLe, if_neg (by simp [hfmt]), hwrite, fwrite_fileOf hfp]
    exact ⟨rfl, hfmt, rfl⟩
  | value v size =>
    rw [SinkCall.run, writeValueLe, SinkCall.accepted, SinkCall.bytes]
    split_ifs with hsize
    · exact ⟨by simp [hsize], hfmt, by simpa using hfp⟩
    · rw [hwrite, fwrite_fileOf hfp]
      exact ⟨(by simp; omega), hfmt, rfl⟩
  | zeros n =>
    obtain ⟨k, hzeros⟩ := fwriteZeros_fileOf g n bs hfp
    rw [SinkCall.run, writeZeros, sinkZeros, hfmt, hfp]
    simp only [Option.isNone_some, Bool.false_eq_true, ↓reduceIte, hzeros]
    exact ⟨rfl, hfmt, rfl⟩

theorem runSinkCalls_raw (calls : List SinkCall) {g : OutCtx} {bs : List UInt8}
    (hfmt : g.fmt = .raw) (hfp : g.fp = some (fileOf bs)) :
    (runSinkCalls allOps g calls).fp = some (fileOf (bs ++ calls.flatMap SinkCall.bytes)) := by
  induction calls generalizing g bs with
  | nil => simpa [runSinkCalls] using hfp
  | cons c cs ih =>
    obtain ⟨-, hfmt', hfp'⟩ := SinkCall.run_raw hfmt hfp c
    rw [List.flatMap_cons, ← List.append_assoc]
    exact ih hfmt' hfp'

theorem SinkCall.accepted_elf {g : OutCtx} (hfmt : g.fmt = .elf) (c : SinkCall) :
    (c.run allOps g).2 = c.accepted := by
  cases c with
  | enter s => rfl
  | word w => rw [SinkCall.run, writeWordLe, sinkWrite_elf allOps hfmt]; rfl
  | half h =>
    rw [SinkCall.run, writeHalfLe]
    split_ifs
    · rw [sinkWrite_elf allOps (g := { g with hasRvc := true }) hfmt]; rfl
    · rw [sinkWrite_elf allOps hfmt]; rfl
  | value v size =>
    rw [SinkCall.run, writeValueLe, SinkCall.accepted]
    split_ifs with hsize
    · simp [hsize]
    · rw [sinkWrite_elf allOps hfmt]
      simp
      omega
  | zeros n =>
    rw [SinkCall.run, writeZeros, sinkZeros, hfmt]
    cases g.curSect <;> rfl

/-- A RAW context and an ELF context with the same bytes. -/
structure SameOutput (raw elf : OutCtx) : Prop where
  rawFmt : raw.fmt = .raw
  elfFmt : elf.fmt = .elf
  file : raw.fp = some (fileOf (elf.data ++ elf.text))

/-- A call keeps the bytes the same, unless it writes to `.data` behind bytes of `.text`. -/
theorem SameOutput.run {raw elf : OutCtx} (h : SameOutput raw elf)
    (hdata : elf.curSect = .data → elf.text = []) (c : SinkCall) :
    (c.run allOps raw).2 = (c.run allOps elf).2 ∧
      SameOutput (c.run allOps raw).1 (c.run allOps elf).1 := by
  obtain ⟨hok, hfmt, hfile⟩ := SinkCall.run_raw h.rawFmt h.file c
  refine ⟨hok.trans (SinkCall.accepted_elf h.elfFmt c).symm, hfmt, ?_, ?_⟩
  · rw [SinkCall.run_elf allOps h.elfFmt]
    exact h.elfFmt
  · rw [hfile, SinkCall.run_elf allOps h.elfFmt, SinkCall.collect]
    cases hsect : elf.curSect with
    | text => simp
    | data => simp [hdata hsect]

def Pass2.withOut (st : Pass2) (g : OutCtx) : Pass2 := { st with out := g }

/-- Between the entries of a run: the bytes are the same, and those of `.text` come last. -/
structure InStep (st : Pass2) (g : OutCtx) : Prop where
  same : SameOutput st.out g
  sect : g.curSect = st.outSection
  seen : st.seenText = decide (st.outSection = .text)
  text : st.seenText = false → g.text = []

/-- Two results alike but for the output, where a run that goes on is still in step. -/
def Alike (r r' : Pass2 × Bool) : Prop :=
  ∃ g, r' = (r.1.withOut g, r.2) ∧ SameOutput r.1.out g ∧ (r.2 = true → InStep r.1 g)

theorem InStep.alike {st : Pass2} {g : OutCtx} (h : InStep st g) (b : Bool) :
    Alike (st, b) (st.withOut g, b) := ⟨g, rfl, h.same, fun _ => h⟩

theorem alike_fail {st : Pass2} {g : OutCtx} (h : SameOutput st.out g) (f : Fault) :
    Alike (st.fail f) ((st.withOut g).fail f) := ⟨g, rfl, h, fun hc => by cases hc⟩

theorem InStep.sink {st : Pass2} {g : OutCtx} (h : InStep st g) {c : SinkCall}
    (hc : ∀ s, c.next s = s) : Alike (st.sink allOps c) ((st.withOut g).sink allOps c) := by
  have hseen : g.curSect = .data → st.seenText = false := fun hd => by
    rw [h.seen, ← h.sect, hd]
    rfl
  obtain ⟨hok, hsame⟩ := h.same.run (fun hd => h.text (hseen hd)) c
  refine ⟨(c.run allOps g).1, ?_, hsame, fun _ => ⟨hsame, ?_, h.seen, fun hno => ?_⟩⟩
  · rw [Pass2.sink, Pass2.sink, hok]
    rfl
  · rw [SinkCall.run_elf allOps h.same.elfFmt]
    exact (hc _).trans h.sect
  · have hdata : g.curSect ≠ .text := fun ht => by
      rw [h.sect] at ht
      have hyes := h.seen
      rw [ht] at hyes
      exact absurd (hno.symm.trans hyes) (by decide)
    rw [SinkCall.run_elf allOps h.same.elfFmt]
    simp only [SinkCall.collect, if_neg hdata, List.append_nil]
    exact h.text hno

theorem alike_section {st : Pass2} {g : OutCtx} (h : SameOutput st.out g)
    (htext : st.seenText = false → g.text = []) (sect : Section) :
    Alike (pass2EmitSection allOps st sect) (pass2EmitSection allOps (st.withOut g) sect) := by
  have hseen : (st.withOut g).seenText = st.seenText := rfl
  rw [pass2EmitSection, pass2EmitSection, hseen]
  by_cases hback : (st.seenText && sect = .data) = true
  · rw [if_pos hback, if_pos hback]
    exact alike_fail h _
  · rw [if_neg hback, if_neg hback]
    refine ⟨outBeginSection g sect, rfl, ⟨h.rawFmt, h.elfFmt, h.file⟩, fun _ => ?_⟩
    refine ⟨⟨h.rawFmt, h.elfFmt, h.file⟩, rfl, ?_, fun hno => htext ?_⟩
    · cases sect <;> simp_all [Pass2.sink]
    · have hno : (st.seenText || decide (sect = .text)) = false := hno
      exact (Bool.or_eq_false_iff.mp hno).1

theorem InStep.instr {st : Pass2} {g : OutCtx} (h : InStep st g) (cfg : Config) (t : SymTab)
    (a : InstrArgs) (addr : ℕ) (line : ℤ) :
    Alike (pass2EmitInstr cfg t allOps st a addr line)
      (pass2EmitInstr cfg t allOps (st.withOut g) a addr line) := by
  have hsame : (st.withOut g).hadError = st.hadError ∧ (st.withOut g).outfile = st.outfile :=
    ⟨rfl, rfl⟩
  rw [pass2EmitInstr, pass2EmitInstr, hsame.1, hsame.2]
  split_ifs
  · exact h.alike false
  · exact alike_fail h.same _
  · cases hcall : instrCall cfg t a addr line with
    | error f => exact alike_fail h.same f
    | ok c =>
      obtain ⟨-, -, hnext, -⟩ := instrCall_eq_ok hcall
      obtain ⟨g', hsink, hsame', hgo⟩ := h.sink hnext
      simp only [hsink]
      split_ifs
      · exact ⟨g', rfl, hsame', hgo⟩
      · exact alike_fail hsame' _

theorem InStep.entry {st : Pass2} {g : OutCtx} (h : InStep st g) (cfg : Config) (t : SymTab)
    (e : IrEntry) :
    Alike (emitEntry cfg t allOps st e) (emitEntry cfg t allOps (st.withOut g) e) := by
  have henter : Alike
      (if e.sect ≠ st.outSection then pass2EmitSection allOps st e.sect else (st, true))
      (if e.sect ≠ st.outSection then pass2EmitSection allOps (st.withOut g) e.sect
        else (st.withOut g, true)) := by
    split_ifs
    · exact alike_section h.same h.text e.sect
    · exact h.alike true
  obtain ⟨g', hback, hsame, hgo⟩ := henter
  rw [emitEntry, emitEntry]
  -- what is asked before an emission does not depend on the output
  have hsect : (st.withOut g).outSection = st.outSection := rfl
  simp only [hsect, hback]
  generalize (if e.sect ≠ st.outSection then pass2EmitSection allOps st e.sect else (st, true)) = r
    at hsame hgo
  obtain ⟨st', entered⟩ := r
  cases entered with
  | false => exact ⟨g', rfl, hsame, fun hc => by cases hc⟩
  | true =>
    have h' := hgo rfl
    simp only [Bool.not_true, Bool.false_eq_true, ↓reduceIte]
    have hstate : (st'.withOut g').hadError = st'.hadError ∧
        (st'.withOut g').outfile = st'.outfile ∧
        (st'.withOut g').outSection = st'.outSection := ⟨rfl, rfl, rfl⟩
    cases e.kind with
    | align =>
      simp only [pass2EmitAlign, hstate]
      split_ifs
      · exact h'.alike true
      · exact h'.alike false
      · exact alike_fail hsame _
      · exact h'.sink fun _ => rfl
    | data =>
      simp only [pass2EmitData, hstate]
      split_ifs
      · exact h'.alike false
      · exact alike_fail hsame _
      · exact alike_fail hsame _
      · exact h'.sink fun _ => rfl
    | instr => exact h'.instr cfg t _ _ _

theorem InStep.run {st : Pass2} {g : OutCtx} (h : InStep st g) (cfg : Config) (t : SymTab)
    (ir : List IrEntry) :
    Alike (emitAll cfg t allOps st ir) (emitAll cfg t allOps (st.withOut g) ir) := by
  induction ir generalizing st g with
  | nil => exact h.alike true
  | cons e es ih =>
    obtain ⟨g', hstep, hsame, hgo⟩ := h.entry cfg t e
    rw [emitAll, emitAll, hstep]
    generalize emitEntry cfg t allOps st e = r at hsame hgo
    obtain ⟨st', ok⟩ := r
    cases ok with
    | false => exact ⟨g', rfl, hsame, fun hc => by cases hc⟩
    | true => exact ih (hgo rfl)

/-- A run of pass 2 takes the same course in both modes, whatever state it starts in. -/
theorem pass2Run_withOut {st : Pass2} {g : OutCtx} (h : SameOutput st.out g) (htext : g.text = [])
    (cfg : Config) (t : SymTab) (ir : List IrEntry) :
    ∃ g', pass2Run cfg t allOps (st.withOut g) ir =
        ((pass2Run cfg t allOps st ir).1.withOut g', (pass2Run cfg t allOps st ir).2) ∧
      SameOutput (pass2Run cfg t allOps st ir).1.out g' := by
  have hstate : (st.withOut g).hadError = st.hadError ∧ (st.withOut g).outfile = st.outfile :=
    ⟨rfl, rfl⟩
  rw [pass2Run, pass2Run, hstate.1, hstate.2]
  cases st.hadError with
  | true => exact ⟨g, rfl, h⟩
  | false =>
  cases st.outfile with
  | false => exact ⟨g, rfl, h⟩
  | true =>
  simp only [Bool.not_true, Bool.false_eq_true, ↓reduceIte]
  cases pass2Layout cfg t ir with
  | nil => exact ⟨g, rfl, h⟩
  | cons e es =>
    obtain ⟨g₁, henter, hsame, hgo⟩ := alike_section h (fun _ => htext) e.sect
    rcases hsect : pass2EmitSection allOps st e.sect with ⟨st₁, entered⟩
    rw [hsect] at henter hsame hgo
    simp only [enterFirst, hsect, henter]
    cases entered with
    | false => exact ⟨g₁, rfl, hsame⟩
    | true =>
      obtain ⟨g₂, hloop, hsame₂, -⟩ := (hgo rfl).run cfg t (e :: es)
      rcases hrun : emitAll cfg t allOps st₁ (e :: es) with ⟨st₂, ok⟩
      rw [hrun] at hloop hsame₂
      simp only [hloop, Bool.not_true, Bool.false_eq_true, ↓reduceIte]
      cases ok <;> exact ⟨g₂, rfl, hsame₂⟩

theorem enterFirst_live {ops : FileOps} {st : Pass2} {e : IrEntry} {es : List IrEntry}
    (herr : st.hadError = false) (hout : st.outfile = true)
    (h : (enterFirst ops st (e :: es)).2 = true) :
    (enterFirst ops st (e :: es)).1.Live ∧
      (enterFirst ops st (e :: es)).1.outSection = e.sect := by
  rw [enterFirst, pass2EmitSection] at h ⊢
  split_ifs at h ⊢ with hback
  · cases h
  · refine ⟨⟨herr, hout, ?_, ?_⟩, rfl⟩
    · cases hs : e.sect <;> simp_all [Pass2.sink]
    · simp [Pass2.sink, SinkCall.next]

theorem pass2Run_order {cfg : Config} {t : SymTab} {ops : FileOps} {st : Pass2}
    {ir : List IrEntry} (h : ∀ e ∈ ir, e.Fresh) (hrun : (pass2Run cfg t ops st ir).2 = true) :
    ir.Pairwise fun a b => a.sect = .text → b.sect = .text := by
  rw [← pass2Layout_order_iff cfg t h]
  have hs := (pass2Layout_laidOut cfg t h).1.sound
  rw [pass2Run] at hrun
  cases herr : st.hadError with
  | true => simp [herr] at hrun
  | false =>
  cases hout : st.outfile with
  | false => simp [herr, hout, Pass2.fail] at hrun
  | true =>
  simp only [herr, hout, Bool.not_true, Bool.false_eq_true, ↓reduceIte] at hrun
  generalize pass2Layout cfg t ir = lay at hs hrun ⊢
  cases lay with
  | nil => exact .nil
  | cons e es =>
    have henter : (enterFirst ops st (e :: es)).2 = true := by
      by_contra hno
      simp [Bool.not_eq_true _ ▸ hno] at hrun
    obtain ⟨hlive, -⟩ := enterFirst_live herr hout henter
    have hok : (emitAll cfg t ops (enterFirst ops st (e :: es)).1 (e :: es)).2 = true := by
      by_contra hno
      simp [henter, Bool.not_eq_true _ ▸ hno] at hrun
    exact ((emitAll_eq_true hs hlive).mp hok).1.2

def runInFormat (cfg : Config) (xlen : ℕ) (prog : Program) (st : Pass2) (fmt : OutFormat) :
    Pass2 × Bool :=
  pass2Run cfg (pass1Run prog).symtab allOps
    { st with out := outSetFile (outBegin fmt xlen) {} } (pass1Run prog).ir

/-- What the results of the two formats have to do with each other and with the entries. -/
structure FormatsAgree (ir : List IrEntry) (raw elf : Pass2 × Bool) : Prop where
  result : raw.2 = elf.2
  bytes : raw.1.out.fp.map OutFile.bytes = some (elf.1.out.data ++ elf.1.out.text)
  ordered : raw.2 = true → ir.Pairwise fun a b => a.sect = .text → b.sect = .text
  fails : ∀ a b, [a, b].Sublist ir → a.sect = .text → b.sect = .data →
    raw.2 = false ∧ elf.2 = false

/-- From the same state both formats give the same result and carry the same bytes, also where
a run fails part way; a run succeeds only if no entry of `.data` stands after one of `.text`. -/
theorem formats_agree (cfg : Config) (xlen : ℕ) (prog : Program) (st : Pass2) :
    FormatsAgree (pass1Run prog).ir (runInFormat cfg xlen prog st .raw)
      (runInFormat cfg xlen prog st .elf) := by
  have hsame : SameOutput (outSetFile (outBegin .raw xlen) {})
      (outSetFile (outBegin .elf xlen) {}) := ⟨rfl, rfl, rfl⟩
  let st' : Pass2 := { st with out := outSetFile (outBegin .raw xlen) {} }
  have hraw : SameOutput st'.out (outSetFile (outBegin .elf xlen) {}) := hsame
  obtain ⟨g, hrun, hout⟩ := pass2Run_withOut hraw rfl cfg (pass1Run prog).symtab (pass1Run prog).ir
  have helf : runInFormat cfg xlen prog st .elf = ((runInFormat cfg xlen prog st .raw).1.withOut g,
      (runInFormat cfg xlen prog st .raw).2) := hrun
  have horder : (runInFormat cfg xlen prog st .raw).2 = true →
      (pass1Run prog).ir.Pairwise fun a b => a.sect = .text → b.sect = .text :=
    pass2Run_order (pass1Run_good prog).ir
  rw [helf]
  refine ⟨rfl, congrArg (Option.map OutFile.bytes) hout.file, horder, fun a b hab ha hb => ?_⟩
  -- had it succeeded, the entry of `.data` would stand before the one of `.text`
  have hfails : (runInFormat cfg xlen prog st .raw).2 = false := by
    by_contra hok
    have hb' := (List.pairwise_pair.mp ((horder (by simpa using hok)).sublist hab)) ha
    rw [hb] at hb'
    cases hb'
  exact ⟨hfails, hfails⟩

end RvAssembler
