import RvAssembler.ControlFlow
import RvAssembler.LoadAddress
import RvAssembler.Main

namespace RvAssembler

open Image Relax

section

variable {t : SymTab} {n : ℕ} {cs : List Cell} {ir : List IrEntry}

theorem LaidOut.emittedIn_eq (h : LaidOut t n cs ir) (s : Section) :
    emittedIn s ir = roomIn s ir := by
  simpa only [List.take_length] using h.emittedIn_take s ir.length

theorem LaidOut.roomIn_text (h : LaidOut t n cs ir) :
    roomIn .text ir = extent (rounds (n + 1) cs) := by
  have hlength : (rounds (n + 1) cs).length = ir.length := by
    rw [← h.cells, RvAssembler.cells, List.length_map]
  have hroom := h.roomIn_take ir.length
  rwa [List.take_length, ← hlength, List.take_length] at hroom

end

/-- The bytes of `.text` after eight rounds of relayout. -/
def textSize (cfg : Config) (prog : Program) : ℕ :=
  extent (rounds 8 (plannedCells cfg (pass1Run prog).symtab (pass1Run prog).ir))

theorem emittedIn_pass2Layout (cfg : Config) (prog : Program) :
    emittedIn .text (pass2Layout cfg (pass1Run prog).symtab (pass1Run prog).ir) =
        textSize cfg prog ∧
      emittedIn .data (pass2Layout cfg (pass1Run prog).symtab (pass1Run prog).ir) =
        bytesIn .data .text prog := by
  have hgood := pass1Run_good prog
  obtain ⟨hl, hcore⟩ := pass2Layout_laidOut cfg (pass1Run prog).symtab hgood.ir
  refine ⟨by rw [hl.emittedIn_eq, hl.roomIn_text, textSize], ?_⟩
  have hnone := hl.countP_data (pass2Layout cfg (pass1Run prog).symtab (pass1Run prog).ir).length
  rw [List.take_length] at hnone
  rw [hl.emittedIn_eq, ← roomIn_pass1Run, ← roomIn_add_saved hgood.ir hl.sound hcore, hnone,
    Nat.mul_zero, Nat.add_zero]

/-- What is emitted and what is saved make up the instructions of a program. -/
theorem textSize_add_saved (cfg : Config) (prog : Program) :
    textSize cfg prog + 2 * (pass2Layout cfg (pass1Run prog).symtab (pass1Run prog).ir).countP
        (fun e => e.sect = .text && e.hasCChoice) = bytesIn .text .text prog := by
  have hgood := pass1Run_good prog
  obtain ⟨hl, hcore⟩ := pass2Layout_laidOut cfg (pass1Run prog).symtab hgood.ir
  rw [← roomIn_pass1Run, ← roomIn_add_saved hgood.ir hl.sound hcore, hl.roomIn_text, textSize]

def outputOf (fl : Flags) (env : Environment) (prog : Program) : OutCtx :=
  (pass2Run fl.config (pass1Run prog).symtab env.ops
    (pass2Start (outSetFile (outBegin fl.fmt fl.xlen) {})) (pass1Run prog).ir).1.out

def loadRanges (g : OutCtx) : List (ℕ × ℕ) :=
  (elfPhdrs g (elfPlan (g.xlen = 64) g.text.length g.data.length)).map fun ph =>
    (ph.vaddr, ph.memsz)

/-- Segments that do not overlap and that a machine can address. -/
structure SegmentsFit (xlen : ℕ) (ranges : List (ℕ × ℕ)) : Prop where
  apart : ranges.Pairwise Apart
  below : xlen = 32 → ∀ r ∈ ranges, r.1 + r.2 ≤ 2 ^ 32

theorem outputOf_elf {fl : Flags} {env : Environment} {prog : Program} (hfmt : fl.fmt = .elf)
    (hexit : (main fl env prog).exitCode = 0) :
    (outputOf fl env prog).vaddrTextBase = 0x00100000 ∧
      (outputOf fl env prog).vaddrDataBase = 0x00200000 ∧
      (outputOf fl env prog).text.length = textSize fl.config prog ∧
      (outputOf fl env prog).data.length = bytesIn .data .text prog := by
  have hfresh := (pass1Run_good prog).ir
  obtain ⟨-, -, hrun, -⟩ := (main_exitCode_iff fl env prog).mp hexit
  obtain ⟨-, hcalls, hout⟩ := pass2Run_leaves hfresh hrun
  have hemitted := fun s => pass2Run_emitted hfresh hrun s
  obtain ⟨htext, hdata⟩ := emittedIn_pass2Layout fl.config prog
  simp only [Pass2.written, hcalls] at hemitted
  rw [outputOf, hout, runSinkCalls_elf _ _ _ hfmt]
  exact ⟨rfl, rfl, (hemitted .text).trans htext, (hemitted .data).trans hdata⟩

theorem loadRanges_outputOf {fl : Flags} {env : Environment} {prog : Program}
    (hfmt : fl.fmt = .elf) (hexit : (main fl env prog).exitCode = 0)
    (htext : (outputOf fl env prog).text ≠ []) (hdata : (outputOf fl env prog).data ≠ []) :
    loadRanges (outputOf fl env prog) =
      [(0x00100000, textSize fl.config prog), (0x00200000, bytesIn .data .text prog)] := by
  obtain ⟨htb, hdb, hts, hds⟩ := outputOf_elf hfmt hexit
  rw [loadRanges, elfPhdrs, if_pos (List.length_eq_zero_iff.not.mpr htext),
    if_pos (List.length_eq_zero_iff.not.mpr hdata), ← hts, ← hds, htb, hdb]
  rfl

theorem segmentsFit_pair {xlen text data : ℕ} :
    SegmentsFit xlen [(0x00100000, text), (0x00200000, data)] ↔
      text ≤ 0x00100000 ∧ (xlen = 32 → data ≤ 2 ^ 32 - 0x00200000) := by
  constructor
  · rintro ⟨hapart, hbelow⟩
    have hpair : Apart (0x00100000, text) (0x00200000, data) := List.pairwise_pair.mp hapart
    rw [Apart] at hpair
    refine ⟨by omega, fun hx => ?_⟩
    have hend := hbelow hx (0x00200000, data) (by simp)
    omega
  · rintro ⟨htext, hdata⟩
    refine ⟨List.pairwise_pair.mpr (.inl (by omega)), fun hx r hr => ?_⟩
    have hsize := hdata hx
    rcases List.mem_pair.mp hr with rfl | rfl <;> omega

/-- The segments of a successful run fit if and only if `.text` is at most a megabyte and, on
RV32, `.data` ends where the addresses do. -/
theorem segmentsFit_iff_sizes (fl : Flags) (env : Environment) (prog : Program)
    (hfmt : fl.fmt = .elf) (hexit : (main fl env prog).exitCode = 0)
    (htext : (outputOf fl env prog).text ≠ []) (hdata : (outputOf fl env prog).data ≠ []) :
    SegmentsFit fl.xlen (loadRanges (outputOf fl env prog)) ↔
      textSize fl.config prog ≤ 0x00100000 ∧
        (fl.xlen = 32 → bytesIn .data .text prog ≤ 2 ^ 32 - 0x00200000) := by
  rw [loadRanges_outputOf hfmt hexit htext hdata]
  exact segmentsFit_pair

def longText (n : ℕ) : Program :=
  [(1, .data), (2, .byte 1), (3, .text)] ++
    List.replicate n (4, .instruction (.addi (reg 5) (reg 5) 1))

def stepArgs : InstrArgs := immArgs .addi .i (reg 5) (reg 5) 1

theorem execAll_replicate (st : Pass1) (n : ℕ) :
    ∃ es, (execAll st (List.replicate n (4, .instruction (.addi (reg 5) (reg 5) 1)))).ir =
        st.ir ++ es ∧
      ∀ e ∈ es, e.sect = st.counters.curSection ∧ e.kind = .instr ∧ e.args = stepArgs := by
  induction n generalizing st with
  | zero => exact ⟨[], (List.append_nil _).symm, by simp⟩
  | succ n ih =>
    obtain ⟨es, hir, hes⟩ := ih (pass1EmitInstruction st stepArgs 4)
    have hsect : (pass1EmitInstruction st stepArgs 4).counters.curSection =
        st.counters.curSection := passAdvancePc_curSection ..
    rw [hsect] at hes
    refine ⟨_ :: es, hir.trans (List.append_assoc ..), List.forall_mem_cons.mpr ⟨?_, hes⟩⟩
    exact ⟨rfl, rfl, rfl⟩

theorem bytesIn_replicate (n : ℕ) (s : Section) :
    bytesIn s .text (List.replicate n (4, .instruction (.addi (reg 5) (reg 5) 1))) =
      if s = .text then 4 * n else 0 := by
  induction n with
  | zero => simp [bytesIn]
  | succ n ih =>
    rw [List.replicate_succ, bytesIn]
    simp only [Item.nextSection, ih]
    cases s
    · simp [Item.bytes, Instruction.emits, InstrArgs.size, immArgs, isCFmt]
      omega
    · simp

theorem sizes_longText (cfg : Config) (hno : cfg.compresses = false) (n : ℕ) :
    textSize cfg (longText n) = 4 * n ∧ bytesIn .data .text (longText n) = 1 := by
  have hbytes : ∀ s, bytesIn s .text (longText n) =
      (if s = .text then 4 * n else 0) + if s = .data then 1 else 0 := by
    intro s
    rw [longText, bytesIn_append, sectionAfter]
    simp only [List.foldl_cons, List.foldl_nil, Item.nextSection, bytesIn_replicate]
    cases s <;> simp [bytesIn, Item.nextSection, Item.bytes]
  refine ⟨?_, hbytes .data⟩
  -- without compression nothing is saved
  have hsaved := textSize_add_saved cfg (longText n)
  rw [List.countP_eq_zero.mpr, hbytes .text] at hsaved
  · simpa using hsaved
  · intro e he
    simp [pass2Layout_noChoice hno _ (pass1Run_good (longText n)).ir e he]

def byteEntry : IrEntry := { kind := .data, sect := .data, size := 1, line := 2, imm := 1 }

theorem call_of_stepArgs {cfg : Config} {t : SymTab} {e : IrEntry} (hk : e.kind = .instr)
    (hc : e.hasCChoice = false) (hargs : e.args = stepArgs) : ∃ cs, e.call cfg t = .ok cs := by
  have hnode : nodeArgs e = stepArgs := by
    rw [IrEntry.nodeArgs_of_noChoice hc, hargs,
      show e.label = none from congrArg InstrArgs.label hargs,
      show e.imm = 1 from congrArg InstrArgs.imm hargs]
    rfl
  obtain ⟨w, hw⟩ := (encodeInstruction_exact cfg .addi .i 5 5 0 1 e.line rfl rfl
    (by decide) (by decide) (by decide)).1.mpr ⟨by decide, by decide⟩
  refine ⟨[.word w], (IrEntry.call_instr hk).mpr ⟨.word w, ?_, rfl⟩⟩
  rw [hnode]
  exact instrCall_word rfl rfl rfl hw

theorem assembles_longText (fl : Flags) (hno : fl.config.compresses = false) (n : ℕ) :
    Assembles fl {} (longText n) := by
  obtain ⟨es, hir, hes⟩ := execAll_replicate (pass1Run [(1, .data), (2, .byte 1), (3, .text)]) n
  have hir : (pass1Run (longText n)).ir = byteEntry :: es := by
    rw [longText, pass1Run_append, hir]
    rfl
  have hfresh := (pass1Run_good (longText n)).ir
  refine ⟨rfl, rfl, rfl, ?_, fun e he => ?_, fun _ _ => rfl⟩
  -- the only entry of `.data` comes first
  · rw [hir]
    refine List.pairwise_cons.mpr ⟨fun _ _ => nofun, ?_⟩
    exact List.pairwise_of_forall_mem_list fun a _ b hb _ => (hes b hb).1
  · have hcore := (pass2Layout_laidOut fl.config (pass1Run (longText n)).symtab hfresh).2
    obtain ⟨e', he', hsame⟩ := exists_core_of_mem hcore he
    have hkind : e.kind = e'.kind := IrEntry.kind_eq_of_core hsame
    rw [hir] at he'
    rcases List.mem_cons.mp he' with rfl | he'
    · have hsect : e.sect = .data := IrEntry.sect_eq_of_core hsame
      have hkind : e.kind = .data := hkind
      exact ⟨_, IrEntry.call_data hkind hsect⟩
    · obtain ⟨-, hkind', hargs⟩ := hes e' he'
      exact call_of_stepArgs (hkind.trans hkind') (pass2Layout_noChoice hno _ hfresh e he)
        ((IrEntry.args_eq_of_core hsame).trans hargs)

theorem segmentsFit_iff_sizes_longText :
    SegmentsFit 32 (loadRanges (outputOf { fmt := .elf } {} (longText 1))) :=
  (segmentsFit_iff_sizes { fmt := .elf } {} (longText 1) rfl (by decide +kernel)
    (by decide +kernel) (by decide +kernel)).mpr (by decide +kernel)

/-- More than a megabyte of instructions. -/
theorem longText_not_segmentsFit :
    (main { fmt := .elf } {} (longText 262145)).exitCode = 0 ∧
      (outputOf { fmt := .elf } {} (longText 262145)).text ≠ [] ∧
      (outputOf { fmt := .elf } {} (longText 262145)).data ≠ [] ∧
      ¬ SegmentsFit 32 (loadRanges (outputOf { fmt := .elf } {} (longText 262145))) := by
  -- the program is too long to evaluate: everything is said of any length
  generalize hn : 262145 = n
  have hexit := (main_exitCode_eq_zero { fmt := .elf } {} (longText n)).mpr
    (assembles_longText _ rfl n)
  obtain ⟨-, -, htext, hdata⟩ := outputOf_elf rfl hexit
  obtain ⟨hts, hds⟩ := sizes_longText ({ fmt := .elf } : Flags).config rfl n
  rw [hts] at htext
  rw [hds] at hdata
  have htext' : (outputOf { fmt := .elf } {} (longText n)).text ≠ [] :=
    List.length_pos_iff.mp (by omega)
  have hdata' : (outputOf { fmt := .elf } {} (longText n)).data ≠ [] :=
    List.length_pos_iff.mp (by omega)
  refine ⟨hexit, htext', hdata', ?_⟩
  rw [loadRanges_outputOf rfl hexit htext' hdata', segmentsFit_pair, hts]
  omega

end RvAssembler
