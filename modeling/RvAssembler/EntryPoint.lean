import RvAssembler.ElfCarries
import RvAssembler.Segments

namespace RvAssembler

open Bytes Image

theorem main_file_elf {fl : Flags} {env : Environment} {prog : Program} (hfmt : fl.fmt = .elf)
    (hexit : (main fl env prog).exitCode = 0) :
    (main fl env prog).file =
      some (overwriteAll 0 [] (elfWrites (outputOf fl env prog) 0)) := by
  obtain ⟨hparses, hopens, hrun, hfinish, -⟩ := (main_exitCode_iff fl env prog).mp hexit
  have hout : (outputOf fl env prog).fmt = .elf ∧ (outputOf fl env prog).fp = some {} := by
    obtain ⟨-, -, hout⟩ := pass2Run_leaves (pass1Run_good prog).ir hrun
    rw [outputOf, hout, runSinkCalls_elf _ _ _ hfmt]
    exact ⟨hfmt, rfl⟩
  have hfile : (main fl env prog).file =
      (outFinish env.ops (outputOf fl env prog) 0).1.fp.map OutFile.bytes := by
    rw [main, hparses, hopens]
    rfl
  have hwrites : outFinish env.ops (outputOf fl env prog) 0 =
      writeAllAt env.ops (outputOf fl env prog) (elfWrites (outputOf fl env prog) 0) := by
    rw [outFinish, hout.1, hout.2]
    rfl
  rw [← outputOf, hwrites] at hfinish
  rw [hfile, hwrites, writeAllAt_bytes hout.2 hfinish]
  rfl

/-- The header is written last, so whatever else there is in the file it can be read. -/
theorem readEhdr_entry (img : List UInt8) (g : OutCtx) (entryAddr : ℕ) :
    (readEhdr (overwriteAll 0 img (elfWrites g entryAddr))).entry =
      (elfEhdr (g.xlen = 64) g (elfPlan (g.xlen = 64) g.text.length g.data.length) entryAddr).entry %
        256 ^ addrSize (g.xlen = 64) := by
  have hlast : ∃ img', overwriteAll 0 img (elfWrites g entryAddr) = overwrite 0 img' 0
      (pack ((elfEhdr (g.xlen = 64) g (elfPlan (g.xlen = 64) g.text.length g.data.length)
        entryAddr).fields (g.xlen = 64))) := by
    rw [elfWrites, elfWritesOf, overwriteAll, List.foldl_append]
    exact ⟨_, rfl⟩
  obtain ⟨img', hlast⟩ := hlast
  rw [hlast]
  generalize elfPlan (g.xlen = 64) g.text.length g.data.length = plan
  generalize decide (g.xlen = 64) = is64
  have hslice := slice_overwrite 0 img' 0 (pack ((elfEhdr is64 g plan entryAddr).fields is64))
  rw [readEhdr, readClass_of_slice hslice, ← map_fst_elfEhdr is64 g plan entryAddr,
    readRecord_of_slice hslice]
  cases is64 <;> rfl

theorem entry_of_main {fl : Flags} {env : Environment} {prog : Program} (hfmt : fl.fmt = .elf)
    (hexit : (main fl env prog).exitCode = 0) {img : List UInt8}
    (hfile : (main fl env prog).file = some img) :
    (readEhdr img).entry = if (outputOf fl env prog).text ≠ [] then 0x00100000 else 0x00200000 := by
  obtain ⟨htext, hdata, -⟩ := outputOf_elf hfmt hexit
  obtain rfl : overwriteAll 0 [] (elfWrites (outputOf fl env prog) 0) = img :=
    Option.some.inj ((main_file_elf hfmt hexit).symm.trans hfile)
  rw [readEhdr_entry, elfEhdr]
  generalize decide ((outputOf fl env prog).xlen = 64) = is64
  simp only [ne_eq, not_true_eq_false, ↓reduceIte, htext, hdata, List.length_eq_zero_iff]
  split_ifs <;> cases is64 <;> rfl

theorem two_mul_countP_le_roomIn {ir : List IrEntry} (h : ∀ e ∈ ir, e.Sound) (s : Section) :
    2 * ir.countP (fun e => e.sect = s && e.hasCChoice) ≤ roomIn s ir := by
  induction ir with
  | nil => exact le_rfl
  | cons e es ih =>
    obtain ⟨he, hes⟩ := List.forall_mem_cons.mp h
    have ih := ih hes
    rw [List.countP_cons, roomIn_cons]
    by_cases hchosen : e.sect = s ∧ e.hasCChoice = true
    · have hroom := he.room (he.chosen hchosen.2).kind
      rw [if_pos hchosen.2] at hroom
      rw [if_pos (by simpa using hchosen), if_pos hchosen.1]
      omega
    · rw [if_neg (by simpa using hchosen)]
      omega

/-- At least half of the bytes of items are written. -/
theorem bytesIn_le_written {cfg : Config} {ops : FileOps} {out : OutCtx} {prog : Program}
    (hrun : (pass2Run cfg (pass1Run prog).symtab ops (pass2Start out) (pass1Run prog).ir).2 = true)
    {pre post : Program} (hsplit : prog = pre ++ post) (s : Section) :
    bytesIn s .text pre ≤ 2 * (stateAfter cfg ops out prog pre).written s := by
  have hfresh := (pass1Run_good prog).ir
  obtain ⟨hl, -⟩ := pass2Layout_laidOut cfg (pass1Run prog).symtab hfresh
  have hwritten : (stateAfter cfg ops out prog pre).written s = roomIn s
      ((pass2Layout cfg (pass1Run prog).symtab (pass1Run prog).ir).take
        (pass1Run pre).ir.length) := by
    rw [stateAfter, (pass2Run_written hfresh hrun).2, hl.emittedIn_take]
  have hsaved := written_stateAfter hrun hsplit s
  have hchosen := two_mul_countP_le_roomIn (s := s)
    fun e he => hl.sound e (List.mem_of_mem_take (i := (pass1Run pre).ir.length) he)
  omega

theorem text_ne_nil_iff {fl : Flags} {env : Environment} {prog : Program} (hfmt : fl.fmt = .elf)
    (hexit : (main fl env prog).exitCode = 0) :
    (outputOf fl env prog).text ≠ [] ↔ 0 < bytesIn .text .text prog := by
  have hfresh := (pass1Run_good prog).ir
  obtain ⟨hl, -⟩ := pass2Layout_laidOut fl.config (pass1Run prog).symtab hfresh
  obtain ⟨-, -, hlength, -⟩ := outputOf_elf hfmt hexit
  have hsaved := textSize_add_saved fl.config prog
  have hchosen := two_mul_countP_le_roomIn hl.sound .text
  rw [hl.roomIn_text, ← textSize] at hchosen
  rw [← List.length_pos_iff, hlength]
  omega

def startLabel : Identifier where
  bytes := [95, 115, 116, 97, 114, 116]
  nulFree := by decide
  nonempty := by decide

/-- The header of a file names the documented entry: where the bytes behind `_start` are loaded
if `.text` has that label, the base of `.text` if the program has no such label. -/
structure EntryDocumented (fl : Flags) (env : Environment) (prog : Program) (img : List UInt8) :
    Prop where
  start : ∀ pre, Defines prog pre startLabel → sectionAfter .text pre = .text →
    (readEhdr img).entry = 0x00100000 + (stateAfter fl.config env.ops
      (outSetFile (outBegin fl.fmt fl.xlen) {}) prog pre).written .text
  noStart : (∀ p ∈ prog, p.2 ≠ .label startLabel) → (outputOf fl env prog).text ≠ [] →
    (readEhdr img).entry = 0x00100000

/-- If `.text` has the label `_start`, the instructions begin there. -/
def StartsFirst (prog : Program) : Prop :=
  ∀ pre, Defines prog pre startLabel → sectionAfter .text pre = .text →
    bytesIn .text .text pre = 0 ∧ 0 < bytesIn .text .text prog

/-- The entry that a successful run writes is the documented one if and only if no instruction
stands before `_start`. -/
theorem entryDocumented_iff_startsFirst (fl : Flags) (env : Environment) (prog : Program)
    (img : List UInt8) (hfmt : fl.fmt = .elf) (hexit : (main fl env prog).exitCode = 0)
    (hfile : (main fl env prog).file = some img) :
    EntryDocumented fl env prog img ↔ StartsFirst prog := by
  obtain ⟨-, -, hrun, -⟩ := (main_exitCode_iff fl env prog).mp hexit
  have hentry := entry_of_main hfmt hexit hfile
  have hempty := text_ne_nil_iff hfmt hexit
  constructor
  · intro h pre hdef hsect
    have hstart := h.start pre hdef hsect
    obtain ⟨⟨line, post, hsplit⟩, -⟩ := hdef
    have hhalf := bytesIn_le_written hrun hsplit .text
    have hwritten := written_stateAfter hrun hsplit .text
    have hpre : bytesIn .text .text pre ≤ bytesIn .text .text prog := by
      rw [hsplit, bytesIn_append]
      exact Nat.le_add_right _ _
    rw [hentry] at hstart
    split_ifs at hstart with htext
    · exact ⟨by omega, hempty.mp htext⟩
    · -- without instructions the entry would be the base of `.data`
      have hnone := hempty.not.mp htext
      omega
  · intro h
    refine ⟨fun pre hdef hsect => ?_, fun _ htext => ?_⟩
    · obtain ⟨hpre, hprog⟩ := h pre hdef hsect
      obtain ⟨⟨line, post, hsplit⟩, -⟩ := hdef
      have hwritten := written_stateAfter hrun hsplit .text
      rw [hentry, if_pos (hempty.mpr hprog)]
      omega
    · rw [hentry, if_pos htext]

theorem main_exitCode_of_run {fl : Flags} {prog : Program} (hfmt : fl.fmt = .elf)
    (hrun : (pass2Run fl.config (pass1Run prog).symtab allOps
      (pass2Start (outSetFile (outBegin fl.fmt fl.xlen) {})) (pass1Run prog).ir).2 = true) :
    (main fl {} prog).exitCode = 0 := by
  apply (main_exitCode_iff fl {} prog).mpr
  refine ⟨rfl, rfl, hrun, ?_, rfl⟩
  apply (outFinish_uses allOps _ 0).ok.mpr fun _ _ => rfl
  obtain ⟨-, -, hout⟩ := pass2Run_leaves (pass1Run_good prog).ir hrun
  rw [hout, runSinkCalls_elf _ _ _ hfmt]
  rfl

def startFirst : Program := [(1, .label startLabel), (2, .instruction .nop)]

theorem entryDocumented_iff_startsFirst_startFirst :
    ∃ img, (main { fmt := .elf } {} startFirst).file = some img ∧
      EntryDocumented { fmt := .elf } {} startFirst img := by
  have hexit : (main { fmt := .elf } {} startFirst).exitCode = 0 :=
    main_exitCode_of_run rfl (by decide +kernel)
  have hfile := main_file_elf rfl hexit
  refine ⟨_, hfile, (entryDocumented_iff_startsFirst _ _ _ _ rfl hexit hfile).mpr ?_⟩
  rintro pre ⟨⟨line, post, hsplit⟩, hno⟩ -
  cases pre with
  | nil => exact ⟨rfl, by decide⟩
  | cons p pre =>
    obtain rfl := (List.cons.inj hsplit).1
    exact absurd rfl (hno _ List.mem_cons_self)

def startSecond : Program :=
  [(1, .instruction .nop), (2, .label startLabel), (3, .instruction .nop)]

/-- The header names the first instruction and `_start` stands at the second. -/
theorem startSecond_not_entryDocumented :
    (main { fmt := .elf } {} startSecond).exitCode = 0 ∧
      ∃ img, (main { fmt := .elf } {} startSecond).file = some img ∧
        (readEhdr img).entry = 0x00100000 ∧
        ¬ EntryDocumented { fmt := .elf } {} startSecond img := by
  have hexit : (main { fmt := .elf } {} startSecond).exitCode = 0 :=
    main_exitCode_of_run rfl (by decide +kernel)
  have hfile := main_file_elf rfl hexit
  have hentry := entry_of_main rfl hexit hfile
  rw [if_pos ((text_ne_nil_iff rfl hexit).mpr (by decide))] at hentry
  refine ⟨hexit, _, hfile, hentry, fun h => ?_⟩
  have hstart := h.start [(1, .instruction .nop)]
    ⟨⟨2, [(3, .instruction .nop)], rfl⟩, by simp⟩ rfl
  have hwritten : (stateAfter (Flags.config { fmt := .elf }) allOps
      (outSetFile (outBegin .elf 32) {}) startSecond [(1, .instruction .nop)]).written .text = 4 := by
    decide +kernel
  rw [hentry] at hstart
  exact absurd (hstart.trans (congrArg (0x00100000 + ·) hwritten)) (by decide)

end RvAssembler
