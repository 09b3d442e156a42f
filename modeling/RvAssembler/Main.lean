import RvAssembler.Labels
import RvAssembler.OutOps

namespace RvAssembler

structure Flags where
  xlen : ℕ := 32
  mext : Bool := false
  cext : Bool := false
  autoC : Bool := false
  fmt : OutFormat := .raw

/-- The architecture of a run: no automatic compression without the C extension. -/
def Flags.config (fl : Flags) : Config :=
  passSetArch fl.xlen fl.mext fl.cext (fl.autoC && fl.cext)

/-- What a run meets: whether `yyparse` accepts the input, whether the output file can be
opened and closed, and which operations on it succeed. -/
structure Environment where
  parses : Bool := true
  opens : Bool := true
  closes : Bool := true
  ops : FileOps := allOps

structure Outcome where
  exitCode : ℕ
  file : Option (List UInt8)
deriving DecidableEq

/-- `pass2_finalize`, without the freeing of memory. -/
def pass2Finalize (st : Pass2) : Bool := !st.hadError

/-- `main` over the items whose actions `yyparse` runs. -/
def main (fl : Flags) (env : Environment) (prog : Program) : Outcome :=
  let st := pass1Run prog
  if !env.parses then { exitCode := 1, file := none }
  else if !env.opens then { exitCode := 1, file := none }
  else
    let out := outSetFile (outBegin fl.fmt fl.xlen) {}
    let st2 := pass2SetOutput (pass2Initialize { hadError := st.hadError, out })
    let (st2, ok) := pass2Run fl.config st.symtab env.ops st2 st.ir
    let finalOk := pass2Finalize st2
    let (out, finishOk) := outFinish env.ops st2.out 0
    { exitCode := if ok && finalOk && finishOk && env.closes then 0 else 1
      file := out.fp.map OutFile.bytes }

def programCalls (cfg : Config) (prog : Program) : List SinkCall :=
  outputCalls cfg (pass1Run prog).symtab (pass2Layout cfg (pass1Run prog).symtab (pass1Run prog).ir)

/-- What a run needs to succeed: files that work, no entry of `.data` after one of `.text`,
and entries that pass 2 can emit where they are laid out. -/
structure Assembles (fl : Flags) (env : Environment) (prog : Program) : Prop where
  parses : env.parses = true
  opens : env.opens = true
  closes : env.closes = true
  order : (pass1Run prog).ir.Pairwise fun a b => a.sect = .text → b.sect = .text
  emits : ∀ e ∈ pass2Layout fl.config (pass1Run prog).symtab (pass1Run prog).ir,
    ∃ cs, e.call fl.config (pass1Run prog).symtab = .ok cs
  writes : ∀ i < outputOps (outSetFile (outBegin fl.fmt fl.xlen) {}) (programCalls fl.config prog) 0,
    env.ops i = true

theorem allCalls_sized {cfg : Config} {t : SymTab} {ir : List IrEntry} (hs : ∀ e ∈ ir, e.Sound)
    (cur : Section) : ∀ c ∈ allCalls cfg t cur ir, c.Sized := by
  induction ir generalizing cur with
  | nil => simp [allCalls]
  | cons e es ih =>
    obtain ⟨he, hes⟩ := List.forall_mem_cons.mp hs
    rw [allCalls, List.forall_mem_append]
    refine ⟨?_, ih hes _⟩
    rw [enterCalls, List.forall_mem_append]
    refine ⟨by split_ifs <;> simp [SinkCall.Sized], ?_⟩
    cases hc : e.call cfg t with
    | error f => simp [Except.toOption]
    | ok cs => exact (he.call_eq_ok hc .text .text).2.2

theorem outputCalls_sized {cfg : Config} {t : SymTab} {ir : List IrEntry}
    (hs : ∀ e ∈ ir, e.Sound) : ∀ c ∈ outputCalls cfg t ir, c.Sized := by
  cases ir with
  | nil => simp [outputCalls]
  | cons e es => exact List.forall_mem_cons.mpr ⟨trivial, allCalls_sized hs e.sect⟩

theorem main_exitCode_iff (fl : Flags) (env : Environment) (prog : Program) :
    (main fl env prog).exitCode = 0 ↔
      env.parses = true ∧ env.opens = true ∧
        (pass2Run fl.config (pass1Run prog).symtab env.ops
          (pass2Start (outSetFile (outBegin fl.fmt fl.xlen) {})) (pass1Run prog).ir).2 = true ∧
        (outFinish env.ops (pass2Run fl.config (pass1Run prog).symtab env.ops
          (pass2Start (outSetFile (outBegin fl.fmt fl.xlen) {})) (pass1Run prog).ir).1.out 0).2 =
            true ∧
        env.closes = true := by
  -- `pass2_finalize` has nothing to add to a run that succeeds
  have hnoError : (pass2Run fl.config (pass1Run prog).symtab env.ops
        (pass2Start (outSetFile (outBegin fl.fmt fl.xlen) {})) (pass1Run prog).ir).2 = true →
      (pass2Run fl.config (pass1Run prog).symtab env.ops
        (pass2Start (outSetFile (outBegin fl.fmt fl.xlen) {})) (pass1Run prog).ir).1.hadError =
          false := fun hrun => (pass2Run_out (pass1Run_good prog).ir hrun).1
  have hstart : pass2SetOutput (pass2Initialize
      { hadError := (pass1Run prog).hadError, out := outSetFile (outBegin fl.fmt fl.xlen) {} }) =
        pass2Start (outSetFile (outBegin fl.fmt fl.xlen) {}) := rfl
  rw [main]
  simp only [hstart]
  generalize pass2Run fl.config (pass1Run prog).symtab env.ops
    (pass2Start (outSetFile (outBegin fl.fmt fl.xlen) {})) (pass1Run prog).ir = r at hnoError ⊢
  obtain ⟨st, ok⟩ := r
  cases env.parses <;> cases env.opens <;> cases ok <;> simp_all [pass2Finalize]

theorem pass2Layout_order_iff (cfg : Config) (t : SymTab) {ir : List IrEntry}
    (h : ∀ e ∈ ir, e.Fresh) :
    ((pass2Layout cfg t ir).Pairwise fun a b => a.sect = .text → b.sect = .text) ↔
      ir.Pairwise fun a b => a.sect = .text → b.sect = .text := by
  have hsect : (pass2Layout cfg t ir).map IrEntry.sect = ir.map IrEntry.sect := by
    have hmap := congrArg (List.map IrEntry.sect) (pass2Layout_laidOut cfg t h).2
    rwa [List.map_map, List.map_map] at hmap
  rw [← List.pairwise_map (f := IrEntry.sect) (R := fun a b => a = .text → b = .text), hsect,
    List.pairwise_map]

/-- A run succeeds exactly when the program assembles. -/
theorem main_exitCode_eq_zero (fl : Flags) (env : Environment) (prog : Program) :
    (main fl env prog).exitCode = 0 ↔ Assembles fl env prog := by
  have hfresh := (pass1Run_good prog).ir
  obtain ⟨hl, -⟩ := pass2Layout_laidOut fl.config (pass1Run prog).symtab hfresh
  have horder := pass2Layout_order_iff fl.config (pass1Run prog).symtab hfresh
  have hops := output_ok_iff env.ops (g := outSetFile (outBegin fl.fmt fl.xlen) {}) rfl
    (outputCalls_sized hl.sound : ∀ c ∈ programCalls fl.config prog, c.Sized) 0
  rw [show (outSetFile (outBegin fl.fmt fl.xlen) {}).ops = 0 from rfl] at hops
  simp only [Nat.zero_add] at hops
  constructor
  · intro h
    obtain ⟨hparses, hopens, hok, hfinish, hcloses⟩ := (main_exitCode_iff fl env prog).mp h
    obtain ⟨hfirst, hemits, hcalls⟩ := (pass2Run_iff hfresh).mp hok
    rw [(pass2Run_out hfresh hok).2] at hfinish
    exact ⟨hparses, hopens, hcloses, horder.mp hfirst, hemits, hops.mp ⟨hcalls, hfinish⟩⟩
  · intro h
    obtain ⟨hcalls, hfinish⟩ := hops.mpr h.writes
    have hok := (pass2Run_iff hfresh).mpr ⟨horder.mpr h.order, h.emits, hcalls⟩
    refine (main_exitCode_iff fl env prog).mpr ⟨h.parses, h.opens, hok, ?_, h.closes⟩
    rw [(pass2Run_out hfresh hok).2]
    exact hfinish

/-- The items pass 1 turns down with a report. -/
def Item.Rejected (pre : Program) : Item → Prop
  | .byte v => v.toInt < -128 ∨ v.toInt > 127
  | .half v => v.toInt < -32768 ∨ v.toInt > 32767
  | .word v => v.toInt < -2147483648 ∨ v.toInt > 2147483647
  | .space n => n.toInt < 0
  | .label name => ∃ p ∈ pre, p.2 = .label name
  | _ => False

/-- The parser or the symbol table reports an error. -/
def ReportsError (prog : Program) : Prop :=
  ∃ pre p post, prog = pre ++ p :: post ∧ p.2.Rejected pre

theorem foldl_stderr {α : Type} (f : Pass1 → α → Pass1) (hf : ∀ st x, (f st x).stderr = st.stderr)
    (xs : List α) (st : Pass1) : (xs.foldl f st).stderr = st.stderr := by
  induction xs generalizing st with
  | nil => rfl
  | cons x xs ih => rw [List.foldl_cons, ih, hf]

theorem rangedData_stderr (st : Pass1) (name : String) (lo hi : ℤ) (size : ℕ) (v : Int64)
    (line : ℤ) : (rangedData st name lo hi size v line).stderr = [] ↔
      st.stderr = [] ∧ ¬ (v.toInt < lo ∨ v.toInt > hi) := by
  rw [rangedData]
  split_ifs with hv
  · simp [yyerror, hv]
  · simp [pass1EmitData, hv]

theorem stringData_stderr (st : Pass1) (s : CString) (line : ℤ) :
    (stringData st s line).stderr = st.stderr :=
  foldl_stderr (fun st (b : UInt8) => pass1EmitData st b.toNat 1 line) (fun _ _ => rfl) _ _

theorem execItem_stderr (pre : Program) (line : ℤ) (it : Item) :
    (execItem (pass1Run pre) line it).stderr = [] ↔
      (pass1Run pre).stderr = [] ∧ ¬ it.Rejected pre := by
  cases it with
  | label name =>
    have hdup : ¬ (Item.label name).Rejected pre ↔
        (pass1Run pre).symtab.toMap name.toCString = none := by
      rw [toMap_pass1Run_eq_none, Item.Rejected]
      push Not
      rfl
    rw [hdup, execItem, defineLabel, (pass1Run_good pre).symtab.insertSym_eq]
    split_ifs with hnone <;> simp [hnone]
  | instruction i =>
    rw [execItem, foldl_stderr (fun st a => pass1EmitInstruction st a line) fun _ _ => rfl]
    simp [Item.Rejected]
  | byte v | half v | word v => exact rangedData_stderr _ _ _ _ _ _ _
  | ascii s => simp [execItem, stringData_stderr, Item.Rejected]
  | asciiz s => simp [execItem, pass1EmitData, stringData_stderr, Item.Rejected]
  | space n =>
    rw [execItem, Item.Rejected]
    split_ifs with hn
    · simp [yyerror, hn]
    · simp [pass1EmitSpace, hn]
  | text | data | align | dword => simp [execItem, alignDirective, pass1EmitData, Item.Rejected]

/-- The reports of pass 1 are those of the items it turns down. -/
theorem reportsError_iff (prog : Program) : ReportsError prog ↔ (pass1Run prog).stderr ≠ [] := by
  rw [← not_iff_not, not_not]
  induction prog using List.reverseRecOn with
  | nil => simp [ReportsError, pass1Run, execAll]
  | append_singleton prog p ih =>
    rw [pass1Run_concat, execItem_stderr, ← ih]
    constructor
    · intro h
      refine ⟨?_, fun hp => h ⟨prog, p, [], rfl, hp⟩⟩
      rintro ⟨pre, q, post, rfl, hq⟩
      exact h ⟨pre, q, post ++ [p], by simp, hq⟩
    · rintro ⟨hprog, hp⟩ ⟨pre, q, post, hsplit, hq⟩
      obtain ⟨rfl, rfl⟩ | ⟨post, rfl⟩ := concat_eq_append_cons hsplit
      · exact hp hq
      · exact hprog ⟨pre, q, post, rfl, hq⟩

/-- `pass2_initialize` forgets the errors of the parser, and no one tells it of a duplicate
label: a reported error makes a run fail if and only if there is none or the run fails for
another reason. -/
theorem reported_error_fails_iff (fl : Flags) (env : Environment) (prog : Program) :
    (ReportsError prog → (main fl env prog).exitCode ≠ 0) ↔
      ¬ ReportsError prog ∨ ¬ Assembles fl env prog := by
  rw [Ne, main_exitCode_eq_zero, imp_iff_not_or]

def tooBig : Program := [(1, .data), (2, .byte 300), (3, .byte 1)]

theorem tooBig_succeeds :
    ReportsError tooBig ∧ (main {} {} tooBig).exitCode = 0 ∧ (main {} {} tooBig).file = some [1] := by
  refine ⟨⟨[(1, .data)], (2, .byte 300), [(3, .byte 1)], rfl, ?_⟩, ?_, ?_⟩
  · simp only [Item.Rejected]
    decide
  · decide +kernel
  · decide +kernel

end RvAssembler
