import RvAssembler.Formats
import RvAssembler.Relayout
import RvAssembler.Stream

namespace RvAssembler

/-- Whether an entry can be emitted behind others: it is not one of `.data` behind one of
`.text`, and comes to sink calls. -/
def IrEntry.Emittable (cfg : Config) (t : SymTab) (before : List IrEntry) (e : IrEntry) : Prop :=
  (∀ d ∈ before, d.sect = .text → e.sect = .text) ∧ ∃ cs, e.call cfg t = .ok cs

def EmitsAll (cfg : Config) (t : SymTab) (es : List IrEntry) : Prop :=
  (es.Pairwise fun a b => a.sect = .text → b.sect = .text) ∧ ∀ e ∈ es, ∃ cs, e.call cfg t = .ok cs

theorem emitsAll_append {cfg : Config} {t : SymTab} {pre : List IrEntry} {e : IrEntry}
    {post : List IrEntry} :
    EmitsAll cfg t (pre ++ e :: post) → EmitsAll cfg t pre ∧ e.Emittable cfg t pre := by
  rintro ⟨horder, hcalls⟩
  obtain ⟨hpre, -, hacross⟩ := List.pairwise_append.mp horder
  refine ⟨⟨hpre, fun d hd => hcalls d (List.mem_append_left _ hd)⟩, fun d hd => ?_, ?_⟩
  · exact hacross d hd e List.mem_cons_self
  · exact hcalls e (List.mem_append_right _ List.mem_cons_self)

theorem EmitsAll.concat {cfg : Config} {t : SymTab} {pre : List IrEntry} {e : IrEntry}
    (h : EmitsAll cfg t pre) (he : e.Emittable cfg t pre) : EmitsAll cfg t (pre ++ [e]) := by
  refine ⟨List.pairwise_append.mpr ⟨h.1, List.pairwise_singleton _ _, fun d hd e' he' => ?_⟩, ?_⟩
  · rw [List.mem_singleton.mp he']
    exact he.1 d hd
  · rw [List.forall_mem_append, List.forall_mem_singleton]
    exact ⟨h.2, he.2⟩

theorem emitAll_eq_false {cfg : Config} {t : SymTab} {ops : FileOps} {st : Pass2}
    {ir : List IrEntry} (h : (emitAll cfg t ops st ir).2 = false) :
    ∃ pre e post, ir = pre ++ e :: post ∧ (emitAll cfg t ops st pre).2 = true ∧
      (emitEntry cfg t ops (emitAll cfg t ops st pre).1 e).2 = false ∧
      emitAll cfg t ops st ir = emitEntry cfg t ops (emitAll cfg t ops st pre).1 e := by
  induction ir generalizing st with
  | nil => cases h
  | cons e es ih =>
    rcases hemit : emitEntry cfg t ops st e with ⟨st', ok⟩
    rw [emitAll, hemit] at h ⊢
    cases ok with
    | false => exact ⟨[], e, es, rfl, rfl, congrArg Prod.snd hemit, hemit.symm⟩
    | true =>
      obtain ⟨pre, d, post, rfl, hpre, hd, hrun⟩ := ih h
      have hstep : emitAll cfg t ops st (e :: pre) = emitAll cfg t ops st' pre := by
        rw [emitAll, hemit]
        rfl
      exact ⟨e :: pre, d, post, rfl, by rwa [hstep], by rwa [hstep], by rw [hstep]; exact hrun⟩

theorem emitAll_singleton (cfg : Config) (t : SymTab) (ops : FileOps) (st : Pass2) (e : IrEntry) :
    (emitAll cfg t ops st [e]).2 = (emitEntry cfg t ops st e).2 := by
  rw [emitAll]
  rcases emitEntry cfg t ops st e with ⟨st', ok⟩
  cases ok <;> rfl

theorem emitEntry_fault {cfg : Config} {t : SymTab} {ops : FileOps} {st : Pass2} (h : st.Live)
    {e : IrEntry} (hfault : ¬ (¬ (st.outSection = .text ∧ e.sect = .data) ∧
      ∃ cs, e.call cfg t = .ok cs)) :
    ∃ s, (emitEntry cfg t ops st e).1.out = outBeginSection st.out s := by
  rw [emitEntry, enter_eq ops h e]
  by_cases horder : st.outSection = .text ∧ e.sect = .data
  · simp only [if_pos horder, Pass2.fail, Bool.not_false, ↓reduceIte]
    exact ⟨st.out.curSect, rfl⟩
  have hnocall : ∀ cs, e.call cfg t ≠ .ok cs := fun cs hcs => hfault ⟨horder, cs, hcs⟩
  have hentered : ∃ s, (st.after ops e []).out = outBeginSection st.out s := by
    simp only [Pass2.after, enterCalls]
    split_ifs
    · exact ⟨e.sect, rfl⟩
    · exact ⟨st.out.curSect, rfl⟩
  have herr : (st.after ops e []).hadError = false := h.noError
  have hout : (st.after ops e []).outfile = true := h.outfile
  have hsect : (st.after ops e []).outSection = e.sect := rfl
  rw [if_neg horder]
  simp only [Bool.not_true, Bool.false_eq_true, ↓reduceIte]
  -- a report leaves the output as it is
  cases hk : e.kind with
  | align =>
    simp only [IrEntry.call, hk] at hnocall
    exact absurd rfl (hnocall _)
  | data =>
    have hd : e.sect ≠ .data := fun hd => by
      simp only [IrEntry.call, hk, hd, ↓reduceIte] at hnocall
      exact absurd rfl (hnocall _)
    simp only [pass2EmitData, herr, hout, hsect, hd, Bool.not_true, Bool.false_eq_true, ↓reduceIte,
      ne_eq, not_false_eq_true]
    exact hentered
  | instr =>
    simp only [pass2EmitNode, pass2EmitInstr, herr, hout, Bool.not_true, Bool.false_eq_true,
      ↓reduceIte]
    cases hi : instrCall cfg t (nodeArgs e) e.addr e.line with
    | error f => exact hentered
    | ok c => exact absurd ((IrEntry.call_instr hk).mpr ⟨c, hi, rfl⟩) (hnocall [c])

/-- What an output holds of entries: in RAW mode the file has their bytes one behind the other,
in ELF mode each buffer has those of its section. -/
def SinkHolds (cfg : Config) (t : SymTab) (fmt : OutFormat) (g : OutCtx) (es : List IrEntry) :
    Prop :=
  match fmt with
  | .raw => g.fp.map OutFile.bytes = some (es.flatMap (IrEntry.callBytes cfg t))
  | .elf =>
    g.text = (es.filter fun e => e.sect = .text).flatMap (IrEntry.callBytes cfg t) ∧
      g.data = (es.filter fun e => e.sect = .data).flatMap (IrEntry.callBytes cfg t)

theorem flatMap_allCalls {cfg : Config} {t : SymTab} {es : List IrEntry}
    (h : ∀ e ∈ es, ∃ cs, e.call cfg t = .ok cs) (cur : Section) :
    (allCalls cfg t cur es).flatMap SinkCall.bytes = es.flatMap (IrEntry.callBytes cfg t) := by
  induction es generalizing cur with
  | nil => rfl
  | cons e es ih =>
    obtain ⟨⟨cs, hc⟩, hes⟩ := List.forall_mem_cons.mp h
    have henter : (enterCalls cur e cs).flatMap SinkCall.bytes = cs.flatMap SinkCall.bytes := by
      rw [enterCalls]
      split_ifs <;> rfl
    rw [allCalls, hc, List.flatMap_append, List.flatMap_cons, ih hes, IrEntry.callBytes, hc]
    simp only [Except.toOption, Option.getD_some, henter]

theorem sinkHolds_allCalls {cfg : Config} {t : SymTab} {es : List IrEntry}
    (h : ∀ e ∈ es, ∃ cs, e.call cfg t = .ok cs) (fmt : OutFormat) (xlen : ℕ) (sect : Section) :
    SinkHolds cfg t fmt
      (runSinkCalls allOps (outBeginSection (outSetFile (outBegin fmt xlen) {}) sect)
        (allCalls cfg t sect es)) es := by
  cases fmt with
  | raw =>
    rw [SinkHolds, runSinkCalls_raw _ rfl (show _ = some (fileOf []) from rfl), List.nil_append,
      flatMap_allCalls h]
    rfl
  | elf =>
    rw [SinkHolds, runSinkCalls_elf allOps _ _ rfl]
    exact ⟨sectionBytes_allCalls h .text sect, sectionBytes_allCalls h .data sect⟩

theorem sinkCallsOk_allOps {g : OutCtx} (hfp : g.fp.isSome = true) {calls : List SinkCall}
    (hc : ∀ c ∈ calls, c.Sized) :
    sinkCallsOk allOps g calls = true ∧ (runSinkCalls allOps g calls).fp.isSome = true := by
  have huses := sinkCalls_uses allOps hfp hc
  have hok : sinkCallsOk allOps g calls = true := huses.ok.mpr fun _ _ => rfl
  exact ⟨hok, (huses.after hok).2.1.trans hfp⟩

/-- A run that fails leaves in the sink what the entries before the first one that cannot be
emitted come to. -/
theorem pass2Run_eq_false {cfg : Config} {t : SymTab} {fmt : OutFormat} {xlen : ℕ}
    {ir : List IrEntry} (h : ∀ e ∈ ir, e.Fresh)
    (hrun : (pass2Run cfg t allOps (pass2Start (outSetFile (outBegin fmt xlen) {})) ir).2 = false) :
    ∃ pre e post, pass2Layout cfg t ir = pre ++ e :: post ∧ EmitsAll cfg t pre ∧
      ¬ e.Emittable cfg t pre ∧
      SinkHolds cfg t fmt
        (pass2Run cfg t allOps (pass2Start (outSetFile (outBegin fmt xlen) {})) ir).1.out pre := by
  have hs := (pass2Layout_laidOut cfg t h).1.sound
  rw [pass2Run_eq h] at hrun ⊢
  generalize pass2Layout cfg t ir = lay at hs hrun ⊢
  cases lay with
  | nil => cases hrun
  | cons first es =>
    obtain ⟨-, hlive, hsect, hout, -⟩ :=
      enterFirst_cons allOps (outSetFile (outBegin fmt xlen) {}) first es
    generalize (enterFirst allOps (pass2Start (outSetFile (outBegin fmt xlen) {}))
      (first :: es)).1 = st at hlive hsect hout hrun ⊢
    have hopen : st.out.fp.isSome = true := by rw [hout]; rfl
    -- with an open sink a run of entries goes through exactly if they can be emitted in order
    have hgoes : ∀ ds es', first :: es = ds ++ es' →
        ((emitAll cfg t allOps st ds).2 = true ↔ EmitsAll cfg t ds) := by
      intro ds es' hsplit
      have hds : ∀ d ∈ ds, d.Sound := fun d hd => hs d (by rw [hsplit]; exact List.mem_append_left _ hd)
      rw [emitAll_eq_true hds hlive, hsect, EmitsAll]
      cases ds with
      | nil => simp [DataFirst, sinkCallsOk, allCalls]
      | cons d ds =>
        obtain rfl : first = d := (List.cons.inj hsplit).1
        rw [dataFirst_self, (sinkCallsOk_allOps hopen (allCalls_sized hds _)).1, and_iff_left rfl]
    obtain ⟨pre, e, post, hsplit, hpre, hfails, hend⟩ := emitAll_eq_false hrun
    have hsound : ∀ d ∈ pre, d.Sound := fun d hd => hs d (by rw [hsplit]; exact List.mem_append_left _ hd)
    have hemits := (hgoes pre _ hsplit).mp hpre
    rw [← emitAll_singleton] at hfails
    have hno : ¬ e.Emittable cfg t pre := by
      intro he
      have hthrough := (hgoes (pre ++ [e]) post (by rw [hsplit]; simp)).mpr (hemits.concat he)
      rw [emitAll_append, if_pos hpre, hfails] at hthrough
      cases hthrough
    refine ⟨pre, e, post, hsplit, hemits, hno, ?_⟩
    obtain ⟨hlive', -⟩ := emitAll_written hsound hlive hpre
    obtain ⟨-, hout'⟩ := emitAll_calls hsound hlive hpre
    have hopen' : (emitAll cfg t allOps st pre).1.out.fp.isSome = true := by
      rw [hout']
      exact (sinkCallsOk_allOps hopen (allCalls_sized hsound _)).2
    -- the entry fails by its section or by its calls, as the sink takes all of these
    have hfault : ¬ (¬ ((emitAll cfg t allOps st pre).1.outSection = .text ∧ e.sect = .data) ∧
        ∃ cs, e.call cfg t = .ok cs) := by
      rintro ⟨horder, hcall⟩
      have he : ∀ d ∈ [e], d.Sound := List.forall_mem_singleton.mpr (hs e (by rw [hsplit]; simp))
      have hthrough : (emitAll cfg t allOps (emitAll cfg t allOps st pre).1 [e]).2 = true :=
        (emitAll_eq_true he hlive').mpr ⟨DataFirst.cons.mpr ⟨horder, by simp [DataFirst]⟩,
          List.forall_mem_singleton.mpr hcall, (sinkCallsOk_allOps hopen' (allCalls_sized he _)).1⟩
      rw [hfails] at hthrough
      cases hthrough
    obtain ⟨sect, hlast⟩ : ∃ s, (emitEntry cfg t allOps (emitAll cfg t allOps st pre).1 e).1.out =
        outBeginSection (emitAll cfg t allOps st pre).1.out s := emitEntry_fault hlive' hfault
    rw [hend, hlast, hout', hsect, hout]
    have hholds := sinkHolds_allCalls hemits.2 fmt xlen first.sect
    cases fmt <;> exact hholds

/-- Only an entry without a label or with one of a branch or jump is given a choice. -/
def IrEntry.Relocatable (e : IrEntry) : Prop :=
  e.hasCChoice = true → e.reloc = .none ∨ e.reloc = .boff ∨ e.reloc = .jtgt

theorem IrEntry.Relocatable.plan {e : IrEntry} (h : e.Relocatable) (cfg : Config) :
    (planEntry cfg e).Relocatable := by
  rw [planEntry]
  split_ifs with hattempt
  · exact h
  · have hreloc : e.reloc = .none ∨ e.reloc = .boff ∨ e.reloc = .jtgt := by
      by_contra hno
      push Not at hno
      rw [pass2NodeCanAttempt] at hattempt
      simp [hno] at hattempt
    cases cTryMap cfg e with
    | none => exact fun hc => by cases hc
    | some ch => exact fun _ => hreloc

theorem pass2Layout_relocatable (cfg : Config) (t : SymTab) {ir : List IrEntry}
    (h : ∀ e ∈ ir, e.Fresh) : ∀ e ∈ pass2Layout cfg t ir, e.Relocatable := by
  refine pass2Layout_induction cfg t (fun _ _ _ h => h) (fun e h => h.plan cfg) ?_ fun e he hc => ?_
  · intro e h
    obtain hsame | ⟨-, -, hdrop | ⟨imm, haim⟩⟩ := validateEntry_cases t .text e
    · rwa [hsame]
    · rw [hdrop]
      exact fun hc => by cases hc
    · rw [haim]
      exact h
  · rw [(h e he).noChoice] at hc
    cases hc

/-- An entry with a label that has no value comes to no sink calls.  What a chosen branch or jump
keeps of its label is that it had a value. -/
theorem call_of_undefined {cfg : Config} {t : SymTab} {e : IrEntry} (h : e.Sound) (ha : e.Aimed t)
    (hr : e.Relocatable) (hk : e.kind = .instr) {l : CString} (hl : e.label = some l)
    (hv : searchSym t l < 0) (cs : List SinkCall) : e.call cfg t ≠ .ok cs := by
  intro hcall
  obtain ⟨c, hi, -⟩ := (IrEntry.call_instr hk).mp hcall
  obtain ⟨⟨imm, himm⟩, -⟩ := instrCall_eq_ok hi
  have hreloc : e.reloc ≠ .none := (h.label l hl).2
  cases hchoice : e.hasCChoice with
  | true =>
    have hbranch := h.branch ((hr hchoice).resolve_left hreloc)
    -- the choice of a branch or jump is one itself, so it has been validated
    have hpc : isPcRel e.choice.op = true := by
      by_contra hno
      have hplain := ((h.chosen hchoice).plain (by simpa using hno)).2
      rw [hbranch] at hplain
      cases hplain
    exact absurd (ha hchoice hpc l hl).1 (not_le.mpr hv)
  | false =>
    have hres : encoderImm t (nodeArgs e) e.addr e.line =
        sticky (resolveLabel t l e.reloc e.addr e.line) := by
      simp [encoderImm, nodeArgs, cMaterialize, hchoice, hl, hreloc]
    rw [hres, resolveLabel, if_pos hv] at himm
    cases himm

theorem pass2Run_of_undefined {cfg : Config} {ops : FileOps} {out : OutCtx} {prog : Program}
    {e : IrEntry} (he : e ∈ (pass1Run prog).ir) {l : CString} (hl : e.label = some l)
    (hno : (pass1Run prog).symtab.toMap l = none) :
    (pass2Run cfg (pass1Run prog).symtab ops (pass2Start out) (pass1Run prog).ir).2 = false := by
  have hfresh := (pass1Run_good prog).ir
  obtain ⟨hlaid, hcore⟩ := pass2Layout_laidOut cfg (pass1Run prog).symtab hfresh
  by_contra hrun
  obtain ⟨d, hmem, hsame⟩ := exists_core_of_mem hcore.symm he
  have hk : d.kind = .instr := (IrEntry.kind_eq_of_core hsame).symm.trans
    (pass1Run_labelled prog e he (by rw [hl]; exact Option.some_ne_none l))
  have hlabel : d.label = some l :=
    (IrEntry.eq_of_core IrEntry.label (fun _ => rfl) hsame).symm.trans hl
  have hv : searchSym (pass1Run prog).symtab l < 0 := by
    rw [searchSym_eq, hno]
    decide
  obtain ⟨cs, hcs⟩ := (pass2Run_written hfresh (by simpa using hrun)).1 d hmem
  exact call_of_undefined (hlaid.sound d hmem) (hlaid.aimed d hmem)
    (pass2Layout_relocatable cfg _ hfresh d hmem) hk hlabel hv cs hcs

/-- A run of pass 2 over what pass 1 recorded that fails leaves in the sink the bytes of the
entries before the first that cannot be emitted; and it fails if any entry has a label that is
not in the symbol table. -/
theorem failed_run_keeps_prefix (cfg : Config) (fmt : OutFormat) (xlen : ℕ) (prog : Program) :
    ((pass2Run cfg (pass1Run prog).symtab allOps (pass2Start (outSetFile (outBegin fmt xlen) {}))
        (pass1Run prog).ir).2 = false →
      ∃ pre e post, pass2Layout cfg (pass1Run prog).symtab (pass1Run prog).ir = pre ++ e :: post ∧
        (∀ before d after, pre = before ++ d :: after →
          d.Emittable cfg (pass1Run prog).symtab before) ∧
        ¬ e.Emittable cfg (pass1Run prog).symtab pre ∧
        SinkHolds cfg (pass1Run prog).symtab fmt (pass2Run cfg (pass1Run prog).symtab allOps
          (pass2Start (outSetFile (outBegin fmt xlen) {})) (pass1Run prog).ir).1.out pre) ∧
    ∀ e ∈ (pass1Run prog).ir, ∀ l, e.label = some l → (pass1Run prog).symtab.toMap l = none →
      ∀ ops out, (pass2Run cfg (pass1Run prog).symtab ops (pass2Start out)
        (pass1Run prog).ir).2 = false := by
  refine ⟨fun hrun => ?_, fun e he l hl hno ops out => pass2Run_of_undefined he hl hno⟩
  obtain ⟨pre, e, post, hsplit, hemits, hfails, hholds⟩ :=
    pass2Run_eq_false (pass1Run_good prog).ir hrun
  refine ⟨pre, e, post, hsplit, fun before d after hpre => ?_, hfails, hholds⟩
  rw [hpre] at hemits
  exact (emitsAll_append hemits).2

def lostJump : Program :=
  [(1, .instruction .cNop), (2, .instruction (.jLabel (letter 0))), (3, .instruction .cNop)]

theorem failed_run_keeps_prefix_lostJump :
    (pass2Run (passSetArch 32 false true true) (pass1Run lostJump).symtab allOps
        (pass2Start (outSetFile (outBegin .raw 32) {})) (pass1Run lostJump).ir).2 = false ∧
      ∃ pre e post, pass2Layout (passSetArch 32 false true true) (pass1Run lostJump).symtab
          (pass1Run lostJump).ir = pre ++ e :: post ∧
        ¬ e.Emittable (passSetArch 32 false true true) (pass1Run lostJump).symtab pre ∧
        SinkHolds (passSetArch 32 false true true) (pass1Run lostJump).symtab .raw
          (pass2Run (passSetArch 32 false true true) (pass1Run lostJump).symtab allOps
            (pass2Start (outSetFile (outBegin .raw 32) {})) (pass1Run lostJump).ir).1.out pre := by
  obtain ⟨hkept, hlost⟩ :=
    failed_run_keeps_prefix (passSetArch 32 false true true) .raw 32 lostJump
  have hfails := hlost _ (List.getElem_mem (show 1 < (pass1Run lostJump).ir.length by decide))
    (letter 0).toCString rfl (toMap_pass1Run_eq_none.mpr (by simp [lostJump])) allOps
    (outSetFile (outBegin .raw 32) {})
  obtain ⟨pre, e, post, hsplit, -, hno, hholds⟩ := hkept hfails
  exact ⟨hfails, pre, e, post, hsplit, hno, hholds⟩

end RvAssembler
