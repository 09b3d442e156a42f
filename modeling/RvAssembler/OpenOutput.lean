import RvAssembler.Segments

namespace RvAssembler

section

variable (ops : FileOps)

theorem fwrite_open (g : OutCtx) (p : List UInt8) :
    (fwrite ops g p).1.fp.isSome = g.fp.isSome := by
  unfold fwrite
  split_ifs <;> simp

theorem fseeko_open (g : OutCtx) (off : ℕ) : (fseeko ops g off).1.fp.isSome = g.fp.isSome := by
  unfold fseeko
  split_ifs <;> simp

theorem andThen_open {g : OutCtx} {r : OutCtx × Bool} {next : OutCtx → OutCtx × Bool}
    (h : r.1.fp.isSome = g.fp.isSome) (hnext : ∀ g, (next g).1.fp.isSome = g.fp.isSome) :
    (andThen r next).1.fp.isSome = g.fp.isSome := by
  unfold andThen
  split_ifs
  · exact (hnext r.1).trans h
  · exact h

theorem sinkWrite_open (g : OutCtx) (p : List UInt8) :
    (sinkWrite ops g p).1.fp.isSome = g.fp.isSome := by
  unfold sinkWrite
  cases g.fmt with
  | raw =>
    simp only
    split_ifs
    · rfl
    · exact fwrite_open ops g p
  | elf => cases g.curSect <;> rfl

theorem fwriteZeros_open (g : OutCtx) (n : ℕ) :
    (fwriteZeros ops g n).1.fp.isSome = g.fp.isSome := by
  fun_induction fwriteZeros ops g n with
  | case1 => rfl
  | case2 g n hn chunk ih => exact andThen_open (fwrite_open ops g _) ih

theorem SinkCall.run_open (g : OutCtx) (c : SinkCall) :
    (c.run ops g).1.fp.isSome = g.fp.isSome := by
  cases c with
  | enter s => rfl
  | word w => exact sinkWrite_open ops g _
  | half x =>
    unfold SinkCall.run writeHalfLe
    rw [sinkWrite_open]
    split_ifs <;> rfl
  | value v size =>
    rw [SinkCall.run, writeValueLe]
    split_ifs
    · rfl
    · exact sinkWrite_open ops g _
  | zeros n =>
    unfold SinkCall.run writeZeros sinkZeros
    cases g.fmt with
    | raw =>
      simp only
      split_ifs
      · rfl
      · exact fwriteZeros_open ops g n
    | elf => cases g.curSect <;> rfl

theorem writeAt_open (g : OutCtx) (off : ℕ) (p : List UInt8) :
    (writeAt ops g off p).1.fp.isSome = g.fp.isSome := by
  unfold writeAt
  cases hfp : g.fp with
  | none => simp only [hfp]
  | some f =>
    refine (andThen_open (g := g) rfl fun g => andThen_open (fseeko_open ops g off) fun g => ?_).trans
      (congrArg Option.isSome hfp)
    simp only
    split_ifs <;> exact (fseeko_open ops _ _).trans (fwrite_open ops g p)

theorem outFinish_open (g : OutCtx) (entryAddr : ℕ) :
    (outFinish ops g entryAddr).1.fp.isSome = g.fp.isSome := by
  have hwrites : ∀ ws g, (writeAllAt ops g ws).1.fp.isSome = g.fp.isSome := by
    intro ws
    induction ws with
    | nil => exact fun _ => rfl
    | cons w ws ih => exact fun g => andThen_open (writeAt_open ops g w.1 w.2) ih
  unfold outFinish
  cases g.fmt with
  | raw => rfl
  | elf =>
    simp only
    split_ifs
    · rfl
    · exact hwrites _ g

end

theorem emitEntry_open (cfg : Config) (t : SymTab) (ops : FileOps) (st : Pass2) (e : IrEntry) :
    (emitEntry cfg t ops st e).1.out.fp.isSome = st.out.fp.isSome := by
  have hsink : ∀ (st : Pass2) c, (st.sink ops c).1.out.fp.isSome = st.out.fp.isSome :=
    fun st c => c.run_open ops st.out
  have hfail : ∀ (st : Pass2) f, (st.fail f).1.out.fp.isSome = st.out.fp.isSome :=
    fun _ _ => rfl
  have henter : (if e.sect ≠ st.outSection then pass2EmitSection ops st e.sect
      else (st, true)).1.out.fp.isSome = st.out.fp.isSome := by
    unfold pass2EmitSection
    split_ifs
    · exact hfail st _
    · exact hsink _ _
    · rfl
  unfold emitEntry
  generalize (if e.sect ≠ st.outSection then pass2EmitSection ops st e.sect else (st, true)) = r
    at henter ⊢
  obtain ⟨st', entered⟩ := r
  rw [← henter]
  simp only
  split_ifs
  · rfl
  cases e.kind with
  | align =>
    simp only [pass2EmitAlign]
    split_ifs
    · rfl
    · rfl
    · exact hfail st' _
    · exact hsink st' _
  | data =>
    simp only [pass2EmitData]
    split_ifs
    · rfl
    · exact hfail st' _
    · exact hfail st' _
    · exact hsink st' _
  | instr =>
    simp only [pass2EmitNode, pass2EmitInstr]
    split_ifs
    · rfl
    · exact hfail st' _
    · cases instrCall cfg t (nodeArgs e) e.addr e.line with
      | error f => exact hfail st' f
      | ok c =>
        simp only
        split_ifs
        · exact hsink st' c
        · exact hsink st' c

theorem emitAll_open (cfg : Config) (t : SymTab) (ops : FileOps) (st : Pass2) (es : List IrEntry) :
    (emitAll cfg t ops st es).1.out.fp.isSome = st.out.fp.isSome := by
  induction es generalizing st with
  | nil => rfl
  | cons e es ih =>
    have hstep := emitEntry_open cfg t ops st e
    rw [emitAll]
    generalize emitEntry cfg t ops st e = r at hstep ⊢
    obtain ⟨st', ok⟩ := r
    cases ok with
    | false => exact hstep
    | true => exact (ih st').trans hstep

theorem pass2Run_open {cfg : Config} {t : SymTab} {ops : FileOps} {out : OutCtx}
    {ir : List IrEntry} (h : ∀ e ∈ ir, e.Fresh) :
    (pass2Run cfg t ops (pass2Start out) ir).1.out.fp.isSome = out.fp.isSome := by
  rw [pass2Run_eq h, emitAll_open]
  cases pass2Layout cfg t ir with
  | nil => rfl
  | cons e es =>
    obtain ⟨-, -, -, hout, -⟩ := enterFirst_cons ops out e es
    rw [hout]
    rfl

theorem main_file_ne_none {fl : Flags} {env : Environment} {prog : Program} :
    (main fl env prog).file ≠ none ↔ env.parses = true ∧ env.opens = true := by
  constructor
  · intro h
    unfold main at h
    cases hparses : env.parses with
    | false => simp [hparses] at h
    | true =>
      cases hopens : env.opens with
      | false => simp [hparses, hopens] at h
      | true => exact ⟨rfl, rfl⟩
  · rintro ⟨hparses, hopens⟩
    have hfile : (main fl env prog).file = (outFinish env.ops (outputOf fl env prog) 0).1.fp.map
        OutFile.bytes := by
      rw [main, hparses, hopens]
      rfl
    have hopen : (outFinish env.ops (outputOf fl env prog) 0).1.fp.isSome = true := by
      rw [outFinish_open, outputOf, pass2Run_open (pass1Run_good prog).ir]
      rfl
    obtain ⟨f, hf⟩ := Option.isSome_iff_exists.mp hopen
    rw [hfile, hf]
    exact Option.some_ne_none _

end RvAssembler
