import RvAssembler.TwoPasses

namespace RvAssembler

open Relax

/-- Programs without directives, except for `.text`. -/
def TextOnly (prog : Program) : Prop :=
  ∀ p ∈ prog, p.2 = .text ∨ (∃ i, p.2 = .instruction i) ∨ ∃ name, p.2 = .label name

theorem TextOnly.of_append {prog prog' : Program} (h : TextOnly (prog ++ prog')) : TextOnly prog :=
  fun p hp => h p (List.mem_append_left _ hp)

theorem TextOnly.nextSection {prog : Program} (h : TextOnly prog) {p : ℤ × Item} (hp : p ∈ prog) :
    p.2.nextSection .text = .text := by
  obtain hp | ⟨i, hp⟩ | ⟨name, hp⟩ := h p hp <;> rw [hp] <;> rfl

theorem TextOnly.sectionAfter {prog : Program} (h : TextOnly prog) :
    sectionAfter .text prog = .text := by
  induction prog with
  | nil => rfl
  | cons p prog ih =>
    rw [RvAssembler.sectionAfter, List.foldl_cons, h.nextSection List.mem_cons_self]
    exact ih fun q hq => h q (List.mem_cons_of_mem _ hq)

theorem TextOnly.steady {prog : Program} (h : TextOnly prog) : Steady prog := by
  intro pre p post hsplit
  obtain hp | ⟨i, hp⟩ | ⟨name, hp⟩ := h p (by rw [hsplit]; simp) <;> rw [hp] <;> rfl

theorem TextOnly.sect {prog : Program} (h : TextOnly prog) :
    ∀ e ∈ (pass1Run prog).ir, e.sect = .text := by
  have hdata : ∀ p ∈ prog, p.2 ≠ .data := by
    intro p hp
    obtain hp | ⟨i, hp⟩ | ⟨name, hp⟩ := h p hp <;> rw [hp] <;> exact nofun
  obtain ⟨es, hir, hes⟩ := execAll_text good_start rfl hdata
  rw [pass1Run, hir]
  exact hes

theorem LaidOut.roomIn_take {t : SymTab} {n : ℕ} {cs : List Cell} {ir : List IrEntry}
    (h : LaidOut t n cs ir) (k : ℕ) :
    roomIn .text (ir.take k) = extent ((rounds (n + 1) cs).take k) := by
  rw [← h.cells, RvAssembler.cells, ← List.map_take, extent, List.map_map, roomIn]
  congr 1
  refine List.map_congr_left fun e he => ?_
  rw [Function.comp_apply, (h.sound e (List.mem_of_mem_take he)).cell_size]

theorem LaidOut.sizeIn_take {t : SymTab} {n : ℕ} {cs : List Cell} {ir : List IrEntry}
    (h : LaidOut t n cs ir) (k : ℕ) :
    sizeIn .text (ir.take k) = extent ((rounds n cs).take k) := by
  rw [sizeIn, extent, List.map_take, List.map_take, h.size]

theorem LaidOut.countP_take {t : SymTab} {n : ℕ} {cs : List Cell} {ir : List IrEntry}
    (h : LaidOut t n cs ir) (k : ℕ) :
    (ir.take k).countP (fun e => e.sect = .text && e.hasCChoice) =
      shortCount ((rounds (n + 1) cs).take k) := by
  rw [← h.cells, RvAssembler.cells, ← List.map_take, shortCount, List.countP_map]
  refine List.countP_congr fun e he => ?_
  rw [Bool.and_eq_true, Function.comp_apply]
  constructor
  · exact fun h => h.2
  · exact fun hc => ⟨by simpa using ((h.sound e (List.mem_of_mem_take he)).chosen hc).sect, hc⟩

theorem LaidOut.countP_data {t : SymTab} {n : ℕ} {cs : List Cell} {ir : List IrEntry}
    (h : LaidOut t n cs ir) (k : ℕ) :
    (ir.take k).countP (fun e => e.sect = .data && e.hasCChoice) = 0 := by
  refine List.countP_eq_zero.mpr fun e he hchosen => ?_
  rw [Bool.and_eq_true, decide_eq_true_eq] at hchosen
  have htext := ((h.sound e (List.mem_of_mem_take he)).chosen hchosen.2).sect
  rw [hchosen.1] at htext
  cases htext

/-- The `i`-th entry of a program is a branch or jump to a label defined behind the items
`pre`. -/
def BranchesTo (prog pre : Program) (i : ℕ) : Prop :=
  ∃ name e, Defines prog pre name ∧ (pass1Run prog).ir[i]? = some e ∧ e.kind = .instr ∧
    e.label = some name.toCString ∧ (e.reloc = .boff ∨ e.reloc = .jtgt)

/-- Every branch or jump to a label is encoded with the distance from where it is written to
where what follows the label is written. -/
def KeepsTargets (cfg : Config) (ops : FileOps) (out : OutCtx) (prog : Program) : Prop :=
  ∀ pre i, BranchesTo prog pre i →
    ∀ e, (pass2Layout cfg (pass1Run prog).symtab (pass1Run prog).ir)[i]? = some e →
      ∃ d, encoderImm (pass1Run prog).symtab (nodeArgs e) e.addr e.line = .ok d ∧
        d + (stateBefore cfg (pass1Run prog).symtab ops out (pass1Run prog).ir i).written .text =
          (stateAfter cfg ops out prog pre).written .text

/-- Relaxed cells by which a branch in cell `i` still meets cell `p` if it is given the
distance to where `p` would be with no cell short: nothing is saved before `p`, nor does the
last round lengthen a cell before `i`, up to multiples of `2 ^ 32`, and the distance fits in
32 bits. -/
def Undisturbed (cs : List Cell) (i p : ℕ) : Prop :=
  (2 ^ 32 : ℤ) ∣ 2 * shortCount ((rounds 8 cs).take p) +
      2 * (shortCount ((rounds 7 cs).take i) - shortCount ((rounds 8 cs).take i)) ∧
    (extent ((rounds 8 cs).take p) - extent ((rounds 8 cs).take i) : ℤ) < 2 ^ 31 ∧
    -2 ^ 31 ≤ (extent ((rounds 8 cs).take p) - extent ((rounds 8 cs).take i) : ℤ)

/-- Below 2 GiB of full-size entries nothing may be saved before the label, nor may the last
round lengthen an entry before the branch. -/
theorem undisturbed_iff {cs : List Cell} (hs : Saves 2 cs) (hlt : longExtent cs < 2 ^ 31)
    (i p : ℕ) :
    Undisturbed cs i p ↔ shortCount ((rounds 8 cs).take p) = 0 ∧
      shortCount ((rounds 8 cs).take i) = shortCount ((rounds 7 cs).take i) := by
  have hle : ∀ k, longExtent (cs.take k) ≤ longExtent cs := fun k => by
    conv_rhs => rw [← List.take_append_drop k cs, longExtent_append]
    exact Nat.le_add_right _ _
  have hi7 := extent_take_rounds_add hs 7 i
  have hi8 := extent_take_rounds_add hs 8 i
  have hp8 := extent_take_rounds_add hs 8 p
  have hmono : shortCount ((rounds 8 cs).take i) ≤ shortCount ((rounds 7 cs).take i) :=
    shortCount_take_rounds_succ_le 7 i cs
  have hi := hle i
  have hp := hle p
  rw [Undisturbed]
  generalize extent ((rounds 8 cs).take p) = wp at hp8 ⊢
  generalize extent ((rounds 8 cs).take i) = wi at hi8 ⊢
  omega

theorem i32_distance_iff {x y : ℕ} {d : ℤ} :
    i32 (i32 (u32 x) - u32 y) = d ↔ (2 ^ 32 : ℤ) ∣ x - y - d ∧ -2 ^ 31 ≤ d ∧ d < 2 ^ 31 := by
  simp only [i32_eq, u32]
  omega

theorem layout_branch {cfg : Config} {ops : FileOps} {out : OutCtx} {prog : Program}
    (hrun : (pass2Run cfg (pass1Run prog).symtab ops (pass2Start out) (pass1Run prog).ir).2 = true)
    {i : ℕ} {e e' : IrEntry} (he' : (pass1Run prog).ir[i]? = some e')
    (he : (pass2Layout cfg (pass1Run prog).symtab (pass1Run prog).ir)[i]? = some e)
    (hkind : e'.kind = .instr) {l : CString} (hlabel : e'.label = some l)
    (hreloc : e'.reloc = .boff ∨ e'.reloc = .jtgt) :
    e.sect = e'.sect ∧ encoderImm (pass1Run prog).symtab (nodeArgs e) e.addr e.line =
      .ok (i32 (searchSym (pass1Run prog).symtab l - e.addr)) := by
  have hgood := pass1Run_good prog
  obtain ⟨hl, hcore⟩ := pass2Layout_laidOut cfg (pass1Run prog).symtab hgood.ir
  have hmem := List.mem_of_getElem? he
  have hsame := core_eq_of_getElem? hcore he he'
  obtain ⟨calls, hc⟩ := (pass2Run_written hgood.ir hrun).1 e hmem
  refine ⟨IrEntry.sect_eq_of_core hsame, ?_⟩
  apply ((hl.sound e hmem).encoderImm_eq (hl.aimed e hmem) ?_ ?_ ?_ hc).2
  · exact (IrEntry.kind_eq_of_core hsame).trans hkind
  · exact (IrEntry.eq_of_core IrEntry.label (fun _ => rfl) hsame).trans hlabel
  · rwa [IrEntry.eq_of_core IrEntry.reloc (fun _ => rfl) hsame]

theorem keepsTarget_iff {cfg : Config} {ops : FileOps} {out : OutCtx} {prog : Program}
    (htext : TextOnly prog)
    (hrun : (pass2Run cfg (pass1Run prog).symtab ops (pass2Start out) (pass1Run prog).ir).2 = true)
    {pre : Program} {i : ℕ} (hb : BranchesTo prog pre i) {e : IrEntry}
    (he : (pass2Layout cfg (pass1Run prog).symtab (pass1Run prog).ir)[i]? = some e) :
    (∃ d, encoderImm (pass1Run prog).symtab (nodeArgs e) e.addr e.line = .ok d ∧
      d + (stateBefore cfg (pass1Run prog).symtab ops out (pass1Run prog).ir i).written .text =
        (stateAfter cfg ops out prog pre).written .text) ↔
      Undisturbed (plannedCells cfg (pass1Run prog).symtab (pass1Run prog).ir) i
        (pass1Run pre).ir.length := by
  obtain ⟨name, e', hdef, he', hkind, hlabel, hreloc⟩ := hb
  obtain ⟨⟨line, post, hsplit⟩, -⟩ := id hdef
  have hpre : TextOnly pre := TextOnly.of_append (hsplit ▸ htext)
  have hgood := pass1Run_good prog
  have hsaves := plannedCells_saves cfg (pass1Run prog).symtab hgood.ir
  obtain ⟨hl, -⟩ := pass2Layout_laidOut cfg (pass1Run prog).symtab hgood.ir
  obtain ⟨-, hwritten⟩ := pass2Run_written hgood.ir hrun
  obtain ⟨hsect, himm⟩ := layout_branch hrun he' he hkind hlabel hreloc
  generalize plannedCells cfg (pass1Run prog).symtab (pass1Run prog).ir = cs at hsaves hl ⊢
  -- every place is the extent of the cells before it, short as the eight rounds leave them
  have hplace : ∀ k, (stateBefore cfg (pass1Run prog).symtab ops out (pass1Run prog).ir k).written
      .text = extent ((rounds 8 cs).take k) := fun k => by
    rw [hwritten, hl.emittedIn_take, hl.roomIn_take]
  have hvalue : extent ((rounds 8 cs).take (pass1Run pre).ir.length) +
      2 * shortCount ((rounds 8 cs).take (pass1Run pre).ir.length) = bytesIn .text .text pre := by
    rw [← written_stateAfter hrun hsplit .text, hl.countP_take, stateAfter, hplace]
  -- the address is still the one after seven rounds
  have haddr : e.addr = u32 (extent ((rounds 7 cs).take i)) := by
    obtain ⟨hi, rfl⟩ := List.getElem?_eq_some_iff.mp he
    rw [hl.text.addr hi (hsect.trans (htext.sect e' (List.mem_of_getElem? he'))), Nat.zero_add,
      hl.sizeIn_take]
  have hlong := (extent_take_rounds_add hsaves 7 i).trans (extent_take_rounds_add hsaves 8 i).symm
  rw [himm, stateAfter, hplace, hplace, haddr, hdef.searchSym_of_steady hpre.steady,
    hpre.sectionAfter, ← hvalue, Undisturbed]
  constructor
  · rintro ⟨d, hd, hsum⟩
    obtain rfl := Except.ok.inj hd
    obtain ⟨hdvd, hlow, hhigh⟩ := i32_distance_iff.mp (eq_sub_of_add_eq hsum)
    omega
  · rintro ⟨hdvd, hhigh, hlow⟩
    refine ⟨_, rfl, ?_⟩
    rw [i32_distance_iff.mpr ⟨?_, hlow, hhigh⟩]
    · omega
    · omega

/-- A run of pass 2 over a program of instructions and labels keeps the targets of its branches
if and only if compression disturbs none of them. -/
theorem keepsTargets_iff_undisturbed (cfg : Config) (ops : FileOps) (out : OutCtx) (prog : Program)
    (htext : TextOnly prog)
    (hrun : (pass2Run cfg (pass1Run prog).symtab ops (pass2Start out) (pass1Run prog).ir).2 = true) :
    KeepsTargets cfg ops out prog ↔
      ∀ pre i, BranchesTo prog pre i →
        Undisturbed (plannedCells cfg (pass1Run prog).symtab (pass1Run prog).ir) i
          (pass1Run pre).ir.length := by
  refine forall₃_congr fun pre i hb => ?_
  obtain ⟨name, e', -, he', -⟩ := id hb
  obtain ⟨e, he, -⟩ := exists_core_of_getElem?
    (pass2Layout_laidOut cfg (pass1Run prog).symtab (pass1Run_good prog).ir).2 he'
  constructor
  · intro h
    exact (keepsTarget_iff htext hrun hb he).mp (h e he)
  · exact fun h e he => (keepsTarget_iff htext hrun hb he).mpr h

theorem keepsTargets_iff_undisturbed_countdown :
    KeepsTargets (passSetArch 32 false true true) allOps (outSetFile (outBegin .raw 32) {})
      countdown := by
  refine (keepsTargets_iff_undisturbed _ _ _ countdown ?_ (by decide +kernel)).mpr ?_
  · simp [TextOnly, countdown]
  · rintro pre i ⟨name, e, ⟨⟨line, post, hsplit⟩, -⟩, he, -⟩
    have hi : i < 4 := (List.getElem?_eq_some_iff.mp he).1
    -- the only label stands before everything else
    obtain rfl : pre = [] := by
      rcases pre with _ | ⟨p, _ | ⟨q, _ | ⟨r, _ | ⟨s, _ | ⟨u, pre⟩⟩⟩⟩⟩ <;>
        simp [countdown] at hsplit ⊢
    have hrounds : ∀ i < 4,
        shortCount ((rounds 8 (plannedCells (passSetArch 32 false true true)
          (pass1Run countdown).symtab (pass1Run countdown).ir)).take i) =
        shortCount ((rounds 7 (plannedCells (passSetArch 32 false true true)
          (pass1Run countdown).symtab (pass1Run countdown).ir)).take i) := by decide +kernel
    exact (undisturbed_iff (plannedCells_saves _ _ (pass1Run_good countdown).ir)
      (by decide +kernel) i _).mpr ⟨by decide +kernel, hrounds i hi⟩

/-- A branch to itself behind an instruction that is shortened. -/
def shiftedLoop : Program :=
  [(1, .instruction (.addi (reg 5) (reg 5) 1)), (2, .label (letter 0)),
    (3, .instruction (.beqLabel (reg 5) (reg 6) (letter 0)))]

/-- The branch is given the distance 2 instead of 0. -/
theorem shiftedLoop_not_keepsTargets :
    TextOnly shiftedLoop ∧ (passSetArch 32 false true true).compresses = true ∧
      (pass2Run (passSetArch 32 false true true) (pass1Run shiftedLoop).symtab allOps
        (pass2Start (outSetFile (outBegin .raw 32) {})) (pass1Run shiftedLoop).ir).2 = true ∧
      ¬ KeepsTargets (passSetArch 32 false true true) allOps (outSetFile (outBegin .raw 32) {})
        shiftedLoop := by
  refine ⟨by simp [TextOnly, shiftedLoop], rfl, by decide +kernel, fun h => ?_⟩
  have hbranch : BranchesTo shiftedLoop [(1, .instruction (.addi (reg 5) (reg 5) 1))] 1 :=
    ⟨letter 0, _, ⟨⟨2, [(3, .instruction (.beqLabel (reg 5) (reg 6) (letter 0)))], rfl⟩, by simp⟩, rfl, rfl,
      rfl, .inl rfl⟩
  have himm : ((pass2Layout (passSetArch 32 false true true) (pass1Run shiftedLoop).symtab
      (pass1Run shiftedLoop).ir)[1]?).bind (fun e =>
        (encoderImm (pass1Run shiftedLoop).symtab (nodeArgs e) e.addr e.line).toOption) =
      some 2 := by decide +kernel
  have hplaces : (stateBefore (passSetArch 32 false true true) (pass1Run shiftedLoop).symtab allOps
        (outSetFile (outBegin .raw 32) {}) (pass1Run shiftedLoop).ir 1).written .text = 2 ∧
      (stateAfter (passSetArch 32 false true true) allOps (outSetFile (outBegin .raw 32) {})
        shiftedLoop [(1, .instruction (.addi (reg 5) (reg 5) 1))]).written .text = 2 := by decide +kernel
  obtain ⟨e, he, himm⟩ := Option.bind_eq_some_iff.mp himm
  obtain ⟨d, hd, hsum⟩ := h _ 1 hbranch e he
  rw [hd, Except.toOption, Option.some.injEq] at himm
  rw [hplaces.1, hplaces.2, himm] at hsum
  cases hsum

end RvAssembler