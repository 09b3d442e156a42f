import RvAssembler.FirstFault

namespace RvAssembler

/-- The first fault of entries behind one of the given section. -/
def firstFault (cfg : Config) (t : SymTab) : Section → List IrEntry → Option Fault
  | _, [] => none
  | cur, e :: es =>
    if cur = .text ∧ e.sect = .data then
      some ⟨"Error: cannot return to .data section after entering .text section", true⟩
    else
      match e.call cfg t with
      | .error f => some f
      | .ok _ => firstFault cfg t e.sect es

def programFault (cfg : Config) (prog : Program) : Option Fault :=
  firstFault cfg (pass1Run prog).symtab .data
    (pass2Layout cfg (pass1Run prog).symtab (pass1Run prog).ir)

theorem firstFault_self (cfg : Config) (t : SymTab) (e : IrEntry) (es : List IrEntry) :
    firstFault cfg t e.sect (e :: es) = firstFault cfg t .data (e :: es) := by
  unfold firstFault
  cases e.sect <;> rfl

section

variable {cfg : Config} {t : SymTab} {ops : FileOps} {st : Pass2} {e : IrEntry}

theorem emitEntry_error (h : st.Live) (horder : ¬ (st.outSection = .text ∧ e.sect = .data))
    {f : Fault} (hcall : e.call cfg t = .error f) :
    emitEntry cfg t ops st e = (st.after ops e []).fail f := by
  have herr : (st.after ops e []).hadError = false := h.noError
  have hout : (st.after ops e []).outfile = true := h.outfile
  have hsect : (st.after ops e []).outSection = e.sect := rfl
  rw [emitEntry, enter_eq ops h e, if_neg horder]
  simp only [Bool.not_true, Bool.false_eq_true, ↓reduceIte]
  cases hk : e.kind with
  | align =>
    simp only [IrEntry.call, hk] at hcall
    cases hcall
  | data =>
    simp only [IrEntry.call, hk] at hcall
    split_ifs at hcall with hd
    obtain rfl := Except.error.inj hcall
    simp only [pass2EmitData, herr, hout, hsect, hd, Bool.not_true, Bool.false_eq_true, ↓reduceIte,
      ne_eq, not_false_eq_true]
  | instr =>
    simp only [IrEntry.call, hk] at hcall
    simp only [pass2EmitNode, pass2EmitInstr, herr, hout, Bool.not_true, Bool.false_eq_true,
      ↓reduceIte]
    cases hi : instrCall cfg t (nodeArgs e) e.addr e.line with
    | error f' =>
      rw [hi] at hcall
      obtain rfl := Except.error.inj hcall
      rfl
    | ok c =>
      rw [hi] at hcall
      cases hcall

/-- A run of entries reports their first fault, if the sink takes what it is given. -/
theorem emitAll_reports {ir : List IrEntry} (hs : ∀ e ∈ ir, e.Sound) (h : st.Live)
    (hfp : st.out.fp.isSome = true) :
    (emitAll cfg t allOps st ir).2 = (firstFault cfg t st.outSection ir).isNone ∧
      (emitAll cfg t allOps st ir).1.stderr =
        st.stderr ++ ((firstFault cfg t st.outSection ir).map Fault.message).toList := by
  induction ir generalizing st with
  | nil => exact ⟨rfl, (List.append_nil _).symm⟩
  | cons e es ih =>
    obtain ⟨he, hes⟩ := List.forall_mem_cons.mp hs
    rw [emitAll, firstFault]
    by_cases horder : st.outSection = .text ∧ e.sect = .data
    · rw [if_pos horder, emitEntry, enter_eq allOps h e, if_pos horder]
      exact ⟨rfl, rfl⟩
    rw [if_neg horder]
    cases hcall : e.call cfg t with
    | error f =>
      rw [emitEntry_error h horder hcall]
      exact ⟨rfl, rfl⟩
    | ok cs =>
      have hsized : ∀ c ∈ enterCalls st.outSection e cs, c.Sized := by
        rw [enterCalls, List.forall_mem_append]
        exact ⟨by split_ifs <;> simp [SinkCall.Sized], (he.call_eq_ok hcall .text .text).2.2⟩
      obtain ⟨htakes, hopen⟩ := sinkCallsOk_allOps hfp hsized
      rw [(emitEntry_eq_true h).mpr ⟨horder, cs, hcall, htakes, rfl⟩]
      exact ih hes (h.after allOps he hcall) hopen

end

/-- Why an entry cannot be emitted behind others. -/
def IrEntry.FailsWith (cfg : Config) (t : SymTab) (before : List IrEntry) (e : IrEntry)
    (f : Fault) : Prop :=
  (e.sect = .data ∧ (∃ d ∈ before, d.sect = .text) ∧
      f = ⟨"Error: cannot return to .data section after entering .text section", true⟩) ∨
    (∀ d ∈ before, d.sect = .text → e.sect = .text) ∧ e.call cfg t = .error f

theorem emittable_cons {cfg : Config} {t : SymTab} {before pre : List IrEntry} {e : IrEntry}
    (he : e.Emittable cfg t before)
    (hpre : ∀ front d back, pre = front ++ d :: back →
      d.Emittable cfg t ((before ++ [e]) ++ front)) :
    ∀ front d back, e :: pre = front ++ d :: back → d.Emittable cfg t (before ++ front) := by
  intro front d back hsplit
  cases front with
  | nil =>
    obtain ⟨rfl, -⟩ := List.cons.inj hsplit
    rwa [List.append_nil]
  | cons e' front =>
    obtain ⟨rfl, htail⟩ := List.cons.inj hsplit
    have hd := hpre front d back htail
    rwa [List.append_assoc, List.singleton_append] at hd

theorem firstFault_eq_some {cfg : Config} {t : SymTab} {before es : List IrEntry} {cur : Section}
    (hcur : cur = .text ↔ ∃ d ∈ before, d.sect = .text) {f : Fault}
    (h : firstFault cfg t cur es = some f) :
    ∃ pre e post, es = pre ++ e :: post ∧
      (∀ front d back, pre = front ++ d :: back → d.Emittable cfg t (before ++ front)) ∧
      e.FailsWith cfg t (before ++ pre) f := by
  induction es generalizing before cur with
  | nil => cases h
  | cons e es ih =>
    rw [firstFault] at h
    by_cases horder : cur = .text ∧ e.sect = .data
    · rw [if_pos horder] at h
      refine ⟨[], e, es, rfl, by simp, .inl ⟨horder.2, ?_, (Option.some.inj h).symm⟩⟩
      rw [List.append_nil]
      exact hcur.mp horder.1
    rw [if_neg horder] at h
    have hbehind : ∀ d ∈ before, d.sect = .text → e.sect = .text := by
      intro d hd hsect
      cases he : e.sect with
      | text => rfl
      | data => exact absurd ⟨hcur.mpr ⟨d, hd, hsect⟩, he⟩ horder
    cases hcall : e.call cfg t with
    | error f' =>
      rw [hcall] at h
      obtain rfl := Option.some.inj h
      refine ⟨[], e, es, rfl, by simp, .inr ⟨?_, hcall⟩⟩
      rwa [List.append_nil]
    | ok cs =>
      rw [hcall] at h
      have hnext : e.sect = .text ↔ ∃ d ∈ before ++ [e], d.sect = .text := by
        constructor
        · exact fun he => ⟨e, by simp, he⟩
        · rintro ⟨d, hd, hsect⟩
          obtain hd | hd := List.mem_append.mp hd
          · exact hbehind d hd hsect
          · rwa [← List.mem_singleton.mp hd]
      obtain ⟨pre, e', post, rfl, hpre, hfails⟩ := ih hnext h
      rw [List.append_assoc, List.singleton_append] at hfails
      exact ⟨e :: pre, e', post, rfl, emittable_cons ⟨hbehind, cs, hcall⟩ hpre, hfails⟩

theorem pass2Run_stderr (cfg : Config) (fmt : OutFormat) (xlen : ℕ) (prog : Program) :
    (pass2Run cfg (pass1Run prog).symtab allOps (pass2Start (outSetFile (outBegin fmt xlen) {}))
        (pass1Run prog).ir).2 = (programFault cfg prog).isNone ∧
      (pass2Run cfg (pass1Run prog).symtab allOps (pass2Start (outSetFile (outBegin fmt xlen) {}))
        (pass1Run prog).ir).1.stderr = ((programFault cfg prog).map Fault.message).toList := by
  have hfresh := (pass1Run_good prog).ir
  have hs := (pass2Layout_laidOut cfg (pass1Run prog).symtab hfresh).1.sound
  rw [pass2Run_eq hfresh, programFault]
  generalize pass2Layout cfg (pass1Run prog).symtab (pass1Run prog).ir = lay at hs ⊢
  cases lay with
  | nil => exact ⟨rfl, rfl⟩
  | cons first es =>
    obtain ⟨-, hlive, hsect, hout, -⟩ :=
      enterFirst_cons allOps (outSetFile (outBegin fmt xlen) {}) first es
    have hnone : (enterFirst allOps (pass2Start (outSetFile (outBegin fmt xlen) {}))
        (first :: es)).1.stderr = [] := by
      cases hfirst : first.sect <;>
        simp [enterFirst, pass2EmitSection, pass2Start, pass2SetOutput, pass2Initialize,
          Pass2.sink, hfirst]
    have hopen : (enterFirst allOps (pass2Start (outSetFile (outBegin fmt xlen) {}))
        (first :: es)).1.out.fp.isSome = true := by
      rw [hout]
      rfl
    obtain ⟨hok, hstderr⟩ := emitAll_reports hs hlive hopen
    rw [hsect, firstFault_self] at hok hstderr
    rw [hnone, List.nil_append] at hstderr
    exact ⟨hok, hstderr⟩

/-- A run of pass 2 over a program either succeeds and reports nothing, or makes one report: why
the first entry of the layout that cannot be emitted cannot. -/
theorem pass2Run_reports_first (cfg : Config) (fmt : OutFormat) (xlen : ℕ) (prog : Program) :
    let run := pass2Run cfg (pass1Run prog).symtab allOps
      (pass2Start (outSetFile (outBegin fmt xlen) {})) (pass1Run prog).ir
    (run.2 = true ∧ run.1.stderr = []) ∨
      ∃ pre e post f, pass2Layout cfg (pass1Run prog).symtab (pass1Run prog).ir = pre ++ e :: post ∧
        (∀ front d back, pre = front ++ d :: back →
          d.Emittable cfg (pass1Run prog).symtab front) ∧
        e.FailsWith cfg (pass1Run prog).symtab pre f ∧ run.2 = false ∧
        run.1.stderr = [f.message] := by
  intro run
  obtain ⟨hok, hstderr⟩ : run.2 = (programFault cfg prog).isNone ∧
      run.1.stderr = ((programFault cfg prog).map Fault.message).toList :=
    pass2Run_stderr cfg fmt xlen prog
  cases hfault : programFault cfg prog with
  | none =>
    rw [hfault] at hok hstderr
    exact .inl ⟨hok, hstderr⟩
  | some f =>
    rw [hfault] at hok hstderr
    have hnone : Section.data = .text ↔ ∃ d ∈ ([] : List IrEntry), d.sect = .text := by simp
    obtain ⟨pre, e, post, hsplit, hpre, hfails⟩ := firstFault_eq_some hnone hfault
    exact .inr ⟨pre, e, post, f, hsplit, hpre, hfails, hok, hstderr⟩

end RvAssembler
