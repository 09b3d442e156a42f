import RvAssembler.Layout

namespace RvAssembler

/-- The sink calls of an entry in its section. -/
def IrEntry.call (cfg : Config) (t : SymTab) (e : IrEntry) : Except Fault (List SinkCall) :=
  match e.kind with
  | .align => .ok (if e.size = 0 then [] else [.zeros e.size])
  | .data =>
    if e.sect = .data then .ok [.value e.imm e.size]
    else .error ⟨"Error: data emitted outside .data section", true⟩
  | .instr => (instrCall cfg t (nodeArgs e) e.addr e.line).map fun c => [c]

def IrEntry.emitted (e : IrEntry) : ℕ :=
  match e.kind with
  | .align => e.size
  | .data => e.size
  | .instr => if isCFmt (nodeArgs e).fmt then 2 else 4

def emittedIn (s : Section) (ir : List IrEntry) : ℕ :=
  (ir.map fun e => if e.sect = s then e.emitted else 0).sum

theorem bind_eq_ok {ε α β : Type} {x : Except ε α} {f : α → Except ε β} {b : β} :
    (x >>= f) = .ok b ↔ ∃ a, x = .ok a ∧ f a = .ok b := by
  cases x <;> simp [bind, Except.bind]

theorem instrCall_eq_ok {cfg : Config} {t : SymTab} {a : InstrArgs} {addr : ℕ} {line : ℤ}
    {c : SinkCall} (h : instrCall cfg t a addr line = .ok c) :
    (∃ imm, encoderImm t a addr line = .ok imm) ∧
      c.bytes.length = (if isCFmt a.fmt then 2 else 4) ∧ (∀ s, c.next s = s) ∧ c.Sized := by
  rw [instrCall] at h
  split_ifs at h ⊢
  · obtain ⟨-, -, h⟩ := bind_eq_ok.mp h
    obtain ⟨imm, himm, h⟩ := bind_eq_ok.mp h
    obtain ⟨half, -, h⟩ := bind_eq_ok.mp h
    obtain rfl : SinkCall.half half = c := Except.ok.inj h
    exact ⟨⟨imm, himm⟩, Bytes.length_le .., fun _ => rfl, trivial⟩
  · obtain ⟨-, -, h⟩ := bind_eq_ok.mp h
    obtain ⟨imm, himm, h⟩ := bind_eq_ok.mp h
    obtain ⟨word, -, h⟩ := bind_eq_ok.mp h
    obtain rfl : SinkCall.word word = c := Except.ok.inj h
    exact ⟨⟨imm, himm⟩, Bytes.length_le .., fun _ => rfl, trivial⟩

theorem IrEntry.call_data {cfg : Config} {t : SymTab} {e : IrEntry} (hk : e.kind = .data)
    (hs : e.sect = .data) : e.call cfg t = .ok [.value e.imm e.size] := by
  simp only [IrEntry.call, hk, if_pos hs]

theorem IrEntry.call_instr {cfg : Config} {t : SymTab} {e : IrEntry} (hk : e.kind = .instr)
    {cs : List SinkCall} :
    e.call cfg t = .ok cs ↔
      ∃ c, instrCall cfg t (nodeArgs e) e.addr e.line = .ok c ∧ cs = [c] := by
  rw [IrEntry.call]
  simp only [hk]
  cases instrCall cfg t (nodeArgs e) e.addr e.line with
  | error f => simp [Except.map]
  | ok c => simp [Except.map, eq_comm]

theorem IrEntry.Sound.call_eq_ok {cfg : Config} {t : SymTab} {e : IrEntry} (h : e.Sound)
    {cs : List SinkCall} (hc : e.call cfg t = .ok cs) (s cur : Section) :
    cs.foldl SinkCall.next cur = cur ∧
      (sectionBytes s cur cs).length = (if cur = s then e.emitted else 0) ∧
      ∀ c ∈ cs, c.Sized := by
  cases hk : e.kind with
  | align =>
    simp only [IrEntry.call, hk] at hc
    obtain rfl := Except.ok.inj hc
    refine ⟨by split_ifs <;> rfl, ?_, by split_ifs <;> simp [SinkCall.Sized]⟩
    by_cases hz : e.size = 0 <;> by_cases hs : cur = s <;>
      simp [sectionBytes, SinkCall.bytes, IrEntry.emitted, hk, hz, hs]
  | data =>
    simp only [IrEntry.call, hk] at hc
    split_ifs at hc
    obtain rfl := Except.ok.inj hc
    have hd := h.data hk
    refine ⟨rfl, ?_, by simpa [SinkCall.Sized] using hd⟩
    by_cases hs : cur = s
    · rw [if_pos hs]
      simp only [sectionBytes, hs, ↓reduceIte, SinkCall.bytes, IrEntry.emitted, hk]
      rw [if_neg (by omega)]
      simp [valueBytes]
    · simp [sectionBytes, hs]
  | instr =>
    obtain ⟨c, hi, rfl⟩ := (IrEntry.call_instr hk).mp hc
    obtain ⟨-, hlen, hnext, hsized⟩ := instrCall_eq_ok hi
    refine ⟨hnext cur, ?_, by simpa using hsized⟩
    by_cases hs : cur = s
    · simp [sectionBytes, hs, hlen, IrEntry.emitted, hk]
    · simp [sectionBytes, hs]

/-- What holds between the entries of a run that goes on. -/
structure Pass2.Live (st : Pass2) : Prop where
  noError : st.hadError = false
  outfile : st.outfile = true
  seen : st.seenText = decide (st.outSection = .text)
  entered : st.calls.foldl SinkCall.next .text = st.outSection

def enterCalls (cur : Section) (e : IrEntry) (cs : List SinkCall) : List SinkCall :=
  (if e.sect ≠ cur then [.enter e.sect] else []) ++ cs

def Pass2.after (ops : FileOps) (st : Pass2) (e : IrEntry) (cs : List SinkCall) : Pass2 :=
  { st with
    outSection := e.sect
    seenText := decide (e.sect = .text)
    out := runSinkCalls ops st.out (enterCalls st.outSection e cs)
    calls := st.calls ++ enterCalls st.outSection e cs }

theorem after_self (ops : FileOps) {st : Pass2} (h : st.Live) {e : IrEntry}
    (hs : e.sect = st.outSection) : st.after ops e [] = st := by
  have hseen := h.seen
  simp only [Pass2.after, enterCalls, hs, ne_eq, not_true_eq_false, ↓reduceIte, List.append_nil,
    ← hseen]
  rfl

theorem enter_eq (ops : FileOps) {st : Pass2} (h : st.Live) (e : IrEntry) :
    (if e.sect ≠ st.outSection then pass2EmitSection ops st e.sect else (st, true)) =
      if st.outSection = .text ∧ e.sect = .data then
        st.fail ⟨"Error: cannot return to .data section after entering .text section", true⟩
      else (st.after ops e [], true) := by
  by_cases hs : e.sect = st.outSection
  · rw [if_neg (not_not.mpr hs), after_self ops h hs, if_neg]
    rintro ⟨ht, hd⟩
    rw [hs, ht] at hd
    cases hd
  · have hseen := h.seen
    rw [if_pos hs, pass2EmitSection, hseen]
    cases hsect : e.sect <;> cases ho : st.outSection
    case text.text | data.data => exact absurd (hsect.trans ho.symm) hs
    · simp [Pass2.sink, Pass2.after, enterCalls, hsect, ho, runSinkCalls, SinkCall.run]
    · simp

theorem after_sink (ops : FileOps) (st : Pass2) (e : IrEntry) (c : SinkCall) :
    (st.after ops e []).sink ops c =
      (st.after ops e [c], sinkCallsOk ops st.out (enterCalls st.outSection e [c])) := by
  by_cases hs : e.sect = st.outSection <;>
    simp [Pass2.after, Pass2.sink, enterCalls, hs, runSinkCalls, sinkCallsOk, SinkCall.run]

theorem sinkCallsOk_enterCalls (ops : FileOps) (g : OutCtx) (cur : Section) (e : IrEntry) :
    sinkCallsOk ops g (enterCalls cur e []) = true := by
  rw [enterCalls]
  split_ifs <;> rfl

/-- An entry is emitted exactly when its section can be entered, it comes to sink calls and
these succeed. -/
theorem emitEntry_eq_true {cfg : Config} {t : SymTab} {ops : FileOps} {st st' : Pass2}
    (h : st.Live) {e : IrEntry} :
    emitEntry cfg t ops st e = (st', true) ↔
      ¬ (st.outSection = .text ∧ e.sect = .data) ∧
        ∃ cs, e.call cfg t = .ok cs ∧
          sinkCallsOk ops st.out (enterCalls st.outSection e cs) = true ∧
          st' = st.after ops e cs := by
  rw [emitEntry, enter_eq ops h e]
  -- once in `.text` there is no way back
  by_cases horder : st.outSection = .text ∧ e.sect = .data
  · simp [horder, Pass2.fail]
  have herr : (st.after ops e []).hadError = false := h.noError
  have hout : (st.after ops e []).outfile = true := h.outfile
  have hsect : (st.after ops e []).outSection = e.sect := rfl
  have hsink : ∀ c : SinkCall, (st.after ops e []).sink ops c = (st', true) ↔
      ∃ cs, (Except.ok [c] : Except Fault (List SinkCall)) = .ok cs ∧
        sinkCallsOk ops st.out (enterCalls st.outSection e cs) = true ∧
        st' = st.after ops e cs := by
    intro c
    rw [after_sink]
    constructor
    · intro hc
      exact ⟨[c], rfl, congrArg Prod.snd hc, (congrArg Prod.fst hc).symm⟩
    · rintro ⟨cs, hcs, hok, rfl⟩
      obtain rfl := Except.ok.inj hcs
      rw [hok]
  rw [if_neg horder]
  simp only [horder, not_false_eq_true, true_and, Bool.not_true, Bool.false_eq_true, ↓reduceIte,
    IrEntry.call]
  cases hk : e.kind with
  | align =>
    simp only [pass2EmitAlign, herr, hout]
    by_cases hz : e.size = 0
    · simp only [hz, ↓reduceIte]
      constructor
      · intro hc
        exact ⟨[], rfl, sinkCallsOk_enterCalls .., (congrArg Prod.fst hc).symm⟩
      · rintro ⟨cs, hcs, -, rfl⟩
        obtain rfl := Except.ok.inj hcs
        rfl
    · simpa only [hz, Bool.not_true, Bool.false_eq_true, ↓reduceIte] using hsink _
  | data =>
    simp only [pass2EmitData, herr, hout, hsect]
    by_cases hd : e.sect = .data
    · simpa only [hd, ne_eq, not_true_eq_false, Bool.not_true, Bool.false_eq_true, ↓reduceIte]
        using hsink _
    · simp [hd, Pass2.fail]
  | instr =>
    simp only [pass2EmitNode, pass2EmitInstr, herr, hout]
    cases instrCall cfg t (nodeArgs e) e.addr e.line with
    | error f => simp [Pass2.fail, Except.map]
    | ok c =>
      simp only [Except.map, Bool.not_true, Bool.false_eq_true, ↓reduceIte]
      rw [← hsink c]
      rcases (st.after ops e []).sink ops c with ⟨st₁, wrote⟩
      cases wrote <;> cases isCFmt (nodeArgs e).fmt <;> simp [Pass2.fail]

theorem enterCalls_next (cur : Section) (e : IrEntry) {cs : List SinkCall}
    (h : ∀ cur, cs.foldl SinkCall.next cur = cur) :
    (enterCalls cur e cs).foldl SinkCall.next cur = e.sect := by
  rw [enterCalls]
  split_ifs with hs
  · exact h e.sect
  · exact (h cur).trans (not_not.mp hs).symm

theorem Pass2.Live.after {cfg : Config} {t : SymTab} {st : Pass2} (h : st.Live) (ops : FileOps)
    {e : IrEntry} (he : e.Sound) {cs : List SinkCall} (hc : e.call cfg t = .ok cs) :
    (st.after ops e cs).Live := by
  refine ⟨h.noError, h.outfile, rfl, ?_⟩
  have hcs := fun cur => (he.call_eq_ok hc .text cur).1
  simp only [Pass2.after, List.foldl_append]
  rw [h.entered]
  exact enterCalls_next _ e hcs

theorem Pass2.Live.written_after {cfg : Config} {t : SymTab} {st : Pass2} (h : st.Live)
    (ops : FileOps) {e : IrEntry} (he : e.Sound) {cs : List SinkCall}
    (hc : e.call cfg t = .ok cs) (s : Section) :
    (st.after ops e cs).written s = st.written s + if e.sect = s then e.emitted else 0 := by
  have hlen := (he.call_eq_ok hc s e.sect).2.1
  simp only [Pass2.written, Pass2.after, sectionBytes_append, List.length_append]
  rw [h.entered, ← hlen, enterCalls]
  split_ifs with hs
  · simp [sectionBytes, SinkCall.bytes, SinkCall.next]
  · rw [not_not.mp hs, List.nil_append]

theorem emitAll_append (cfg : Config) (t : SymTab) (ops : FileOps) (st : Pass2)
    (pre post : List IrEntry) :
    emitAll cfg t ops st (pre ++ post) =
      if (emitAll cfg t ops st pre).2 then emitAll cfg t ops (emitAll cfg t ops st pre).1 post
      else ((emitAll cfg t ops st pre).1, false) := by
  induction pre generalizing st with
  | nil => rfl
  | cons e pre ih =>
    rw [List.cons_append, emitAll, emitAll]
    rcases emitEntry cfg t ops st e with ⟨st', ok⟩
    cases ok
    · rfl
    · exact ih st'

theorem emitAll_take {cfg : Config} {t : SymTab} {ops : FileOps} {st : Pass2}
    {ir : List IrEntry} (h : (emitAll cfg t ops st ir).2 = true) (k : ℕ) :
    (emitAll cfg t ops st (ir.take k)).2 = true := by
  rw [← List.take_append_drop k ir, emitAll_append] at h
  by_contra hno
  rw [if_neg hno] at h
  cases h

theorem Pass2.Live.emitAll_cons {cfg : Config} {t : SymTab} {ops : FileOps} {st : Pass2}
    (h : st.Live) {e : IrEntry} {es : List IrEntry}
    (hok : (emitAll cfg t ops st (e :: es)).2 = true) :
    ∃ cs, e.call cfg t = .ok cs ∧ ¬ (st.outSection = .text ∧ e.sect = .data) ∧
      sinkCallsOk ops st.out (enterCalls st.outSection e cs) = true ∧
      emitAll cfg t ops st (e :: es) = emitAll cfg t ops (st.after ops e cs) es := by
  rw [emitAll] at hok ⊢
  rcases hemit : emitEntry cfg t ops st e with ⟨st', ok⟩
  rw [hemit] at hok
  cases ok with
  | false => cases hok
  | true =>
    obtain ⟨horder, cs, hc, hcalls, rfl⟩ := (emitEntry_eq_true h).mp hemit
    exact ⟨cs, hc, horder, hcalls, rfl⟩

theorem emitAll_written {cfg : Config} {t : SymTab} {ops : FileOps} {ir : List IrEntry}
    (hs : ∀ e ∈ ir, e.Sound) {st : Pass2} (h : st.Live)
    (hok : (emitAll cfg t ops st ir).2 = true) :
    (emitAll cfg t ops st ir).1.Live ∧
      ∀ s, (emitAll cfg t ops st ir).1.written s = st.written s + emittedIn s ir := by
  induction ir generalizing st with
  | nil => exact ⟨h, fun s => rfl⟩
  | cons e es ih =>
    obtain ⟨he, hes⟩ := List.forall_mem_cons.mp hs
    obtain ⟨cs, hc, -, -, hstep⟩ := h.emitAll_cons hok
    rw [hstep] at hok ⊢
    obtain ⟨hlive, hwritten⟩ := ih hes (h.after ops he hc) hok
    refine ⟨hlive, fun s => ?_⟩
    rw [emittedIn, List.map_cons, List.sum_cons, ← emittedIn, ← Nat.add_assoc,
      ← h.written_after ops he hc]
    exact hwritten s

def allCalls (cfg : Config) (t : SymTab) : Section → List IrEntry → List SinkCall
  | _, [] => []
  | cur, e :: es =>
    enterCalls cur e ((e.call cfg t).toOption.getD []) ++ allCalls cfg t e.sect es

theorem emitAll_calls {cfg : Config} {t : SymTab} {ops : FileOps} {ir : List IrEntry}
    (hs : ∀ e ∈ ir, e.Sound) {st : Pass2} (h : st.Live)
    (hok : (emitAll cfg t ops st ir).2 = true) :
    (emitAll cfg t ops st ir).1.calls = st.calls ++ allCalls cfg t st.outSection ir ∧
      (emitAll cfg t ops st ir).1.out =
        runSinkCalls ops st.out (allCalls cfg t st.outSection ir) := by
  induction ir generalizing st with
  | nil => exact ⟨(List.append_nil _).symm, rfl⟩
  | cons e es ih =>
    obtain ⟨he, hes⟩ := List.forall_mem_cons.mp hs
    obtain ⟨cs, hc, -, -, hstep⟩ := h.emitAll_cons hok
    rw [hstep] at hok ⊢
    obtain ⟨hcalls, hout⟩ := ih hes (h.after ops he hc) hok
    rw [allCalls, hc]
    refine ⟨hcalls.trans (List.append_assoc ..), hout.trans ?_⟩
    rw [runSinkCalls, runSinkCalls, List.foldl_append]
    rfl

/-- No entry of `.data` after one of `.text`, nor any if `.text` has been entered. -/
def DataFirst (cur : Section) (ir : List IrEntry) : Prop :=
  (cur = .text → ∀ e ∈ ir, e.sect = .text) ∧
    ir.Pairwise fun a b => a.sect = .text → b.sect = .text

theorem DataFirst.cons {cur : Section} {e : IrEntry} {es : List IrEntry} :
    DataFirst cur (e :: es) ↔ ¬ (cur = .text ∧ e.sect = .data) ∧ DataFirst e.sect es := by
  rw [DataFirst, DataFirst, List.pairwise_cons, List.forall_mem_cons]
  cases cur <;> cases e.sect <;> simp

theorem dataFirst_self {e : IrEntry} {es : List IrEntry} :
    DataFirst e.sect (e :: es) ↔ (e :: es).Pairwise fun a b => a.sect = .text → b.sect = .text := by
  refine ⟨fun h => h.2, fun h => ⟨fun he => ?_, h⟩⟩
  rw [List.pairwise_cons] at h
  exact List.forall_mem_cons.mpr ⟨he, fun b hb => h.1 b hb he⟩

theorem sinkCallsOk_append (ops : FileOps) (g : OutCtx) (cs ds : List SinkCall) :
    sinkCallsOk ops g (cs ++ ds) =
      (sinkCallsOk ops g cs && sinkCallsOk ops (runSinkCalls ops g cs) ds) := by
  induction cs generalizing g with
  | nil => rfl
  | cons c cs ih =>
    rw [List.cons_append, sinkCallsOk, sinkCallsOk, ih, Bool.and_assoc]
    rfl

theorem emitAll_eq_true {cfg : Config} {t : SymTab} {ops : FileOps} {ir : List IrEntry}
    (hs : ∀ e ∈ ir, e.Sound) {st : Pass2} (h : st.Live) :
    (emitAll cfg t ops st ir).2 = true ↔
      DataFirst st.outSection ir ∧ (∀ e ∈ ir, ∃ cs, e.call cfg t = .ok cs) ∧
        sinkCallsOk ops st.out (allCalls cfg t st.outSection ir) = true := by
  induction ir generalizing st with
  | nil => simp [emitAll, DataFirst, sinkCallsOk, allCalls]
  | cons e es ih =>
    obtain ⟨he, hes⟩ := List.forall_mem_cons.mp hs
    rw [DataFirst.cons, List.forall_mem_cons]
    constructor
    · intro hok
      obtain ⟨cs, hc, horder, hcalls, hstep⟩ := h.emitAll_cons hok
      rw [hstep] at hok
      obtain ⟨hfirst, hall, hrest⟩ := (ih hes (h.after ops he hc)).mp hok
      refine ⟨⟨horder, hfirst⟩, ⟨⟨cs, hc⟩, hall⟩, ?_⟩
      rw [allCalls, hc, sinkCallsOk_append, Bool.and_eq_true]
      exact ⟨hcalls, hrest⟩
    · rintro ⟨⟨horder, hfirst⟩, ⟨⟨cs, hc⟩, hall⟩, hcalls⟩
      rw [allCalls, hc, sinkCallsOk_append, Bool.and_eq_true] at hcalls
      rw [emitAll, (emitEntry_eq_true h).mpr ⟨horder, cs, hc, hcalls.1, rfl⟩]
      exact (ih hes (h.after ops he hc)).mpr ⟨hfirst, hall, hcalls.2⟩

def pass2Start (out : OutCtx) : Pass2 := pass2SetOutput (pass2Initialize { out })

/-- The state in which a run of pass 2 reaches the `k`-th entry of its layout. -/
def stateBefore (cfg : Config) (t : SymTab) (ops : FileOps) (out : OutCtx) (ir : List IrEntry)
    (k : ℕ) : Pass2 :=
  let lay := pass2Layout cfg t ir
  (emitAll cfg t ops (enterFirst ops (pass2Start out) lay).1 (lay.take k)).1

theorem enterFirst_cons (ops : FileOps) (out : OutCtx) (e : IrEntry) (es : List IrEntry) :
    (enterFirst ops (pass2Start out) (e :: es)).2 = true ∧
      (enterFirst ops (pass2Start out) (e :: es)).1.Live ∧
      (enterFirst ops (pass2Start out) (e :: es)).1.outSection = e.sect ∧
      (enterFirst ops (pass2Start out) (e :: es)).1.out = outBeginSection out e.sect ∧
      ∀ s, (enterFirst ops (pass2Start out) (e :: es)).1.written s = 0 := by
  refine ⟨rfl, ⟨rfl, rfl, ?_, rfl⟩, rfl, rfl, fun s => ?_⟩
  · cases hs : e.sect <;>
      simp [enterFirst, pass2EmitSection, pass2Start, pass2SetOutput, pass2Initialize, Pass2.sink, hs]
  · simp [enterFirst, pass2EmitSection, pass2Start, pass2SetOutput, pass2Initialize, Pass2.sink,
      Pass2.written, sectionBytes, SinkCall.bytes]

/-- The sink calls of a layout. -/
def outputCalls (cfg : Config) (t : SymTab) : List IrEntry → List SinkCall
  | [] => []
  | e :: es => .enter e.sect :: allCalls cfg t e.sect (e :: es)

theorem pass2Run_eq {cfg : Config} {t : SymTab} {ops : FileOps} {out : OutCtx}
    {ir : List IrEntry} (h : ∀ e ∈ ir, e.Fresh) :
    pass2Run cfg t ops (pass2Start out) ir =
      emitAll cfg t ops (enterFirst ops (pass2Start out) (pass2Layout cfg t ir)).1
        (pass2Layout cfg t ir) := by
  have hs := (pass2Layout_laidOut cfg t h).1.sound
  have hstart : (pass2Start out).hadError = false ∧ (pass2Start out).outfile = true := ⟨rfl, rfl⟩
  simp only [pass2Run, hstart, Bool.not_true, Bool.false_eq_true, ↓reduceIte]
  generalize pass2Layout cfg t ir = lay at hs ⊢
  cases lay with
  | nil => rfl
  | cons e es =>
    obtain ⟨hok, hlive, -, -⟩ := enterFirst_cons ops out e es
    rcases henter : enterFirst ops (pass2Start out) (e :: es) with ⟨st, entered⟩
    rw [henter] at hok hlive
    obtain rfl : entered = true := hok
    have hnoError : (emitAll cfg t ops st (e :: es)).2 = true →
        (emitAll cfg t ops st (e :: es)).1.hadError = false :=
      fun hok => (emitAll_written hs hlive hok).1.noError
    rcases hemit : emitAll cfg t ops st (e :: es) with ⟨st', ok⟩
    rw [hemit] at hnoError
    cases ok with
    | false => rfl
    | true =>
      have herr : st'.hadError = false := hnoError rfl
      simp only [Bool.not_true, Bool.false_eq_true, ↓reduceIte, herr, Bool.not_false]

/-- When pass 2 succeeds: the sections of the layout are in order, its entries come to sink
calls and these succeed. -/
theorem pass2Run_iff {cfg : Config} {t : SymTab} {ops : FileOps} {out : OutCtx}
    {ir : List IrEntry} (h : ∀ e ∈ ir, e.Fresh) :
    (pass2Run cfg t ops (pass2Start out) ir).2 = true ↔
      ((pass2Layout cfg t ir).Pairwise fun a b => a.sect = .text → b.sect = .text) ∧
        (∀ e ∈ pass2Layout cfg t ir, ∃ cs, e.call cfg t = .ok cs) ∧
        sinkCallsOk ops out (outputCalls cfg t (pass2Layout cfg t ir)) = true := by
  have hs := (pass2Layout_laidOut cfg t h).1.sound
  rw [pass2Run_eq h]
  generalize pass2Layout cfg t ir = lay at hs ⊢
  cases lay with
  | nil => simp [emitAll, outputCalls, sinkCallsOk]
  | cons e es =>
    obtain ⟨-, hlive, hsect, hout, -⟩ := enterFirst_cons ops out e es
    rw [emitAll_eq_true hs hlive, hsect, hout, dataFirst_self]
    rfl

theorem pass2Run_leaves {cfg : Config} {t : SymTab} {ops : FileOps} {out : OutCtx}
    {ir : List IrEntry} (h : ∀ e ∈ ir, e.Fresh)
    (hrun : (pass2Run cfg t ops (pass2Start out) ir).2 = true) :
    (pass2Run cfg t ops (pass2Start out) ir).1.hadError = false ∧
      (pass2Run cfg t ops (pass2Start out) ir).1.calls =
        outputCalls cfg t (pass2Layout cfg t ir) ∧
      (pass2Run cfg t ops (pass2Start out) ir).1.out =
        runSinkCalls ops out (outputCalls cfg t (pass2Layout cfg t ir)) := by
  have hs := (pass2Layout_laidOut cfg t h).1.sound
  rw [pass2Run_eq h] at hrun ⊢
  generalize pass2Layout cfg t ir = lay at hs hrun ⊢
  cases lay with
  | nil => exact ⟨rfl, rfl, rfl⟩
  | cons e es =>
    obtain ⟨hok, hlive, hsect, hout, -⟩ := enterFirst_cons ops out e es
    obtain ⟨hlive', -⟩ := emitAll_written hs hlive hrun
    obtain ⟨hcalls', hout'⟩ := emitAll_calls hs hlive hrun
    rw [hsect] at hcalls'
    rw [hsect, hout] at hout'
    exact ⟨hlive'.noError, hcalls', hout'⟩

theorem pass2Run_emitted {cfg : Config} {t : SymTab} {ops : FileOps} {out : OutCtx}
    {ir : List IrEntry} (h : ∀ e ∈ ir, e.Fresh)
    (hrun : (pass2Run cfg t ops (pass2Start out) ir).2 = true) (s : Section) :
    (pass2Run cfg t ops (pass2Start out) ir).1.written s = emittedIn s (pass2Layout cfg t ir) := by
  have hs := (pass2Layout_laidOut cfg t h).1.sound
  rw [pass2Run_eq h] at hrun ⊢
  generalize pass2Layout cfg t ir = lay at hs hrun ⊢
  cases lay with
  | nil => cases s <;> rfl
  | cons e es =>
    obtain ⟨-, hlive, -, -, hzero⟩ := enterFirst_cons ops out e es
    rw [(emitAll_written hs hlive hrun).2 s, hzero, Nat.zero_add]

theorem pass2Run_out {cfg : Config} {t : SymTab} {ops : FileOps} {out : OutCtx}
    {ir : List IrEntry} (h : ∀ e ∈ ir, e.Fresh)
    (hrun : (pass2Run cfg t ops (pass2Start out) ir).2 = true) :
    (pass2Run cfg t ops (pass2Start out) ir).1.hadError = false ∧
      (pass2Run cfg t ops (pass2Start out) ir).1.out =
        runSinkCalls ops out (outputCalls cfg t (pass2Layout cfg t ir)) :=
  ⟨(pass2Run_leaves h hrun).1, (pass2Run_leaves h hrun).2.2⟩

/-- In a successful run every entry comes to sink calls, and each is reached with the bytes of
those before it written. -/
theorem pass2Run_written {cfg : Config} {t : SymTab} {ops : FileOps} {out : OutCtx}
    {ir : List IrEntry} (h : ∀ e ∈ ir, e.Fresh)
    (hrun : (pass2Run cfg t ops (pass2Start out) ir).2 = true) :
    (∀ e ∈ pass2Layout cfg t ir, ∃ cs, e.call cfg t = .ok cs) ∧
      ∀ k s, (stateBefore cfg t ops out ir k).written s =
        emittedIn s ((pass2Layout cfg t ir).take k) := by
  have hs := (pass2Layout_laidOut cfg t h).1.sound
  have hok := hrun
  rw [pass2Run_eq h] at hok
  simp only [stateBefore]
  generalize pass2Layout cfg t ir = lay at hs hok ⊢
  cases lay with
  | nil => exact ⟨by simp, fun k s => by cases k <;> cases s <;> rfl⟩
  | cons e es =>
    obtain ⟨-, hlive, -, -, hzero⟩ := enterFirst_cons ops out e es
    refine ⟨((emitAll_eq_true hs hlive).mp hok).2.1, fun k s => ?_⟩
    have hpre := emitAll_take hok k
    rw [(emitAll_written (fun e he => hs e (List.mem_of_mem_take he)) hlive hpre).2 s, hzero,
      Nat.zero_add]

theorem pass2Run_sectionBytes {cfg : Config} {t : SymTab} {ops : FileOps} {out : OutCtx}
    {ir : List IrEntry} (h : ∀ e ∈ ir, e.Fresh)
    (hrun : (pass2Run cfg t ops (pass2Start out) ir).2 = true) {k k' : ℕ} (hk : k ≤ k')
    (s : Section) :
    ∃ bs, sectionBytes s .text (stateBefore cfg t ops out ir k').calls =
      sectionBytes s .text (stateBefore cfg t ops out ir k).calls ++ bs := by
  have hs := (pass2Layout_laidOut cfg t h).1.sound
  have hok := hrun
  rw [pass2Run_eq h] at hok
  simp only [stateBefore]
  generalize pass2Layout cfg t ir = lay at hs hok ⊢
  cases lay with
  | nil => exact ⟨[], by simp⟩
  | cons e es =>
    obtain ⟨-, hlive, -, -, -⟩ := enterFirst_cons ops out e es
    have hmem : ∀ e' ∈ ((e :: es).take k').drop k, e'.Sound := fun e' he' =>
      hs e' (List.mem_of_mem_take (List.mem_of_mem_drop he'))
    have hsplit : (e :: es).take k' = (e :: es).take k ++ ((e :: es).take k').drop k := by
      conv_lhs => rw [← List.take_append_drop k ((e :: es).take k'), List.take_take,
        Nat.min_eq_left hk]
    have hpre := emitAll_take hok k
    have hboth := emitAll_take hok k'
    obtain ⟨hlive', -⟩ := emitAll_written (fun e he => hs e (List.mem_of_mem_take he)) hlive hpre
    rw [hsplit, emitAll_append, if_pos hpre] at hboth ⊢
    rw [(emitAll_calls hmem hlive' hboth).1, sectionBytes_append]
    exact ⟨_, rfl⟩

end RvAssembler
