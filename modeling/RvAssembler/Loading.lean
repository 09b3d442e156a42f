import RvAssembler.EntryPoint
import RvAssembler.Execution
import RvAssembler.FirstFault

namespace RvAssembler

open Image

section

variable {ops : FileOps} {g : OutCtx} {bs : List UInt8}

theorem fwrite_grows (hfp : g.fp = some (fileOf bs)) {p : List UInt8}
    (h : (fwrite ops g p).2 = true) :
    (fwrite ops g p).1.fmt = g.fmt ∧ (fwrite ops g p).1.fp = some (fileOf (bs ++ p)) := by
  unfold fwrite at h ⊢
  split_ifs at h ⊢ with hop
  rw [hfp]
  refine ⟨rfl, ?_⟩
  simp [fileOf, overwrite_length]

theorem fwriteZeros_grows (n : ℕ) : ∀ bs, g.fp = some (fileOf bs) →
    (fwriteZeros ops g n).2 = true →
      (fwriteZeros ops g n).1.fmt = g.fmt ∧
        (fwriteZeros ops g n).1.fp = some (fileOf (bs ++ List.replicate n 0)) := by
  fun_induction fwriteZeros ops g n with
  | case1 g =>
    intro bs hfp _
    rw [List.replicate_zero, List.append_nil]
    exact ⟨rfl, hfp⟩
  | case2 g n hn chunk ih =>
    intro bs hfp h
    have hchunk : chunk + (n - chunk) = n := by
      simp only [chunk]
      split_ifs <;> omega
    unfold andThen at h ⊢
    split_ifs at h ⊢ with hw
    obtain ⟨hfmt, hfp'⟩ := fwrite_grows hfp hw
    obtain ⟨hfmt', hfp''⟩ := ih _ _ hfp' h
    refine ⟨hfmt'.trans hfmt, ?_⟩
    rw [hfp'', List.append_assoc, List.replicate_append_replicate, hchunk]

theorem SinkCall.run_grows (hfmt : g.fmt = .raw) (hfp : g.fp = some (fileOf bs)) {c : SinkCall}
    (h : (c.run ops g).2 = true) :
    (c.run ops g).1.fmt = .raw ∧ (c.run ops g).1.fp = some (fileOf (bs ++ c.bytes)) := by
  have hwrite : ∀ p, sinkWrite ops g p = fwrite ops g p := by
    intro p
    simp [sinkWrite, hfmt, hfp]
  cases c with
  | enter s => exact ⟨hfmt, by simpa [SinkCall.bytes, SinkCall.run, outBeginSection] using hfp⟩
  | word w =>
    rw [SinkCall.run, writeWordLe, hwrite] at h ⊢
    rw [← hfmt]
    exact fwrite_grows hfp h
  | half x =>
    rw [SinkCall.run, writeHalfLe, if_neg (by simp [hfmt]), hwrite] at h ⊢
    rw [← hfmt]
    exact fwrite_grows hfp h
  | value v size =>
    rw [SinkCall.run, writeValueLe] at h ⊢
    rw [SinkCall.bytes]
    split_ifs at h ⊢ with hsize
    rw [hwrite] at h ⊢
    rw [← hfmt]
    exact fwrite_grows hfp h
  | zeros n =>
    have hzeros : writeZeros ops g n = fwriteZeros ops g n := by
      simp [writeZeros, sinkZeros, hfmt, hfp]
    rw [SinkCall.run, hzeros] at h ⊢
    rw [← hfmt]
    exact fwriteZeros_grows n bs hfp h

theorem runSinkCalls_grows {calls : List SinkCall} (hfmt : g.fmt = .raw)
    (hfp : g.fp = some (fileOf bs)) (h : sinkCallsOk ops g calls = true) :
    (runSinkCalls ops g calls).fmt = .raw ∧
      (runSinkCalls ops g calls).fp = some (fileOf (bs ++ calls.flatMap SinkCall.bytes)) := by
  induction calls generalizing g bs with
  | nil => exact ⟨hfmt, by simpa [runSinkCalls] using hfp⟩
  | cons c cs ih =>
    obtain ⟨hc, hcs⟩ := Bool.and_eq_true_iff.mp h
    obtain ⟨hfmt', hfp'⟩ := SinkCall.run_grows hfmt hfp hc
    rw [List.flatMap_cons, ← List.append_assoc]
    exact ih hfmt' hfp' hcs

end

theorem flatMap_of_order {α : Type} (f : IrEntry → List α) {es : List IrEntry}
    (h : es.Pairwise fun a b => a.sect = .text → b.sect = .text) :
    es.flatMap f = (es.filter fun e => e.sect = .data).flatMap f ++
      (es.filter fun e => e.sect = .text).flatMap f := by
  induction es with
  | nil => rfl
  | cons e es ih =>
    obtain ⟨he, hes⟩ := List.pairwise_cons.mp h
    rw [List.flatMap_cons, ih hes]
    cases hsect : e.sect with
    | data =>
      rw [List.filter_cons_of_pos (by simpa using hsect),
        List.filter_cons_of_neg (by simp [hsect]), List.flatMap_cons, List.append_assoc]
    | text =>
      have hnone : (es.filter fun e => e.sect = .data) = [] := by
        apply List.filter_eq_nil_iff.mpr
        intro b hb
        simp [he b hb hsect]
      rw [List.filter_cons_of_neg (by simp [hsect]),
        List.filter_cons_of_pos (by simpa using hsect), List.flatMap_cons, hnone]
      rfl

section

variable {fl : Flags} {env : Environment} {prog : Program}

def mainText (fl : Flags) (env : Environment) (prog : Program) : List UInt8 :=
  textOf fl.config env.ops (outSetFile (outBegin fl.fmt fl.xlen) {}) prog

def mainData (fl : Flags) (env : Environment) (prog : Program) : List UInt8 :=
  sectionBytes .data .text (pass2Run fl.config (pass1Run prog).symtab env.ops
    (pass2Start (outSetFile (outBegin fl.fmt fl.xlen) {})) (pass1Run prog).ir).1.calls

theorem mainData_length (hexit : (main fl env prog).exitCode = 0) :
    (mainData fl env prog).length = bytesIn .data .text prog := by
  obtain ⟨-, -, hrun, -⟩ := (main_exitCode_iff fl env prog).mp hexit
  have hdata := pass2Run_emitted (pass1Run_good prog).ir hrun .data
  rwa [(emittedIn_pass2Layout fl.config prog).2] at hdata

theorem main_file_raw (hfmt : fl.fmt = .raw) (hexit : (main fl env prog).exitCode = 0) :
    (main fl env prog).file = some (mainData fl env prog ++ mainText fl env prog) := by
  have hfresh := (pass1Run_good prog).ir
  obtain ⟨hparses, hopens, hrun, -, -⟩ := (main_exitCode_iff fl env prog).mp hexit
  obtain ⟨-, hcalls, hout⟩ := pass2Run_leaves hfresh hrun
  obtain ⟨horder, hemits, hok⟩ := (pass2Run_iff hfresh).mp hrun
  have hwritten := fun s => pass2Run_writes hfresh hrun s
  have hgrows := (runSinkCalls_grows (show _ = OutFormat.raw from hfmt)
    (show _ = some (fileOf []) from rfl) hok).2
  have hbytes : (outputCalls fl.config (pass1Run prog).symtab
      (pass2Layout fl.config (pass1Run prog).symtab (pass1Run prog).ir)).flatMap SinkCall.bytes =
      (pass2Layout fl.config (pass1Run prog).symtab (pass1Run prog).ir).flatMap
        (IrEntry.callBytes fl.config (pass1Run prog).symtab) := by
    cases hlay : pass2Layout fl.config (pass1Run prog).symtab (pass1Run prog).ir with
    | nil => rfl
    | cons e es =>
      rw [hlay] at hemits
      exact flatMap_allCalls hemits e.sect
  have hfile : (main fl env prog).file =
      (outFinish env.ops (outputOf fl env prog) 0).1.fp.map OutFile.bytes := by
    rw [main, hparses, hopens]
    rfl
  have hfinish : (outFinish env.ops (outputOf fl env prog) 0).1 = outputOf fl env prog := by
    have hraw : (outputOf fl env prog).fmt = .raw := by
      rw [outputOf, hout]
      exact (runSinkCalls_grows (show _ = OutFormat.raw from hfmt)
        (show _ = some (fileOf []) from rfl) hok).1
    rw [outFinish, hraw]
  rw [hfile, hfinish, outputOf, hout, hgrows, hbytes, flatMap_of_order _ horder, ← hwritten .data,
    ← hwritten .text]
  rfl

theorem roundUp_le {a : ℕ} (ha : 0 < a) (x : ℕ) : roundUp x a ≤ x + a := by
  rw [roundUp]
  have h := Nat.div_mul_le_self (x + (a - 1)) a
  omega

theorem idealPlan_shoff_lt {is64 : Bool} {text data : ℕ} (h : text + data < 2 ^ 31) :
    (idealPlan is64 text data).shoff < 2 ^ 32 := by
  have hnames : ∀ t d, (shstrtab t d).length ≤ 64 := by decide
  have hheaders : phdrSz is64 ≤ 64 ∧ ehdrSz is64 ≤ 64 := by cases is64 <;> decide
  have hpage : ∀ x, roundUp x 0x1000 ≤ x + 0x1000 := roundUp_le (by decide)
  have halign : ∀ x, roundUp x (if is64 then 8 else 4) ≤ x + 8 := by
    intro x
    cases is64
    · exact (roundUp_le (by decide) x).trans (by simp)
    · exact roundUp_le (by decide) x
  have hcount : ∀ p q : Prop, ∀ [Decidable p] [Decidable q],
      (if p then 1 else 0) + (if q then 1 else 0) ≤ 2 := by
    intro p q _ _
    split_ifs <;> omega
  simp only [idealPlan, planWith]
  have hphdrs := Nat.mul_le_mul hheaders.1 (hcount (text ≠ 0) (data ≠ 0))
  generalize phdrSz is64 * _ = phdrs at hphdrs ⊢
  apply (halign _).trans_lt
  have hlast := hnames (text ≠ 0) (data ≠ 0)
  generalize (shstrtab _ _).length = names at hlast ⊢
  have hfirst := hpage (ehdrSz is64 + phdrs)
  by_cases ht : text = 0 <;> by_cases hd : data = 0 <;>
    simp only [ht, hd, ne_eq, not_true_eq_false, not_false_eq_true, ↓reduceIte]
  · omega
  · omega
  · omega
  · have hsecond := hpage (roundUp (ehdrSz is64 + phdrs) 0x1000 + text)
    omega

theorem mainText_elf (hfmt : fl.fmt = .elf) (hexit : (main fl env prog).exitCode = 0) :
    (outputOf fl env prog).text = mainText fl env prog := by
  have hfresh := (pass1Run_good prog).ir
  obtain ⟨-, -, hrun, -⟩ := (main_exitCode_iff fl env prog).mp hexit
  obtain ⟨-, hcalls, hout⟩ := pass2Run_leaves hfresh hrun
  rw [outputOf, hout, runSinkCalls_elf _ _ _ hfmt, mainText, textOf, hcalls]
  rfl

theorem exists_text_segment (hfmt : fl.fmt = .elf) (hexit : (main fl env prog).exitCode = 0)
    {img : List UInt8} (hfile : (main fl env prog).file = some img)
    (hsize : bytesIn .text .text prog + bytesIn .data .text prog < 2 ^ 31)
    (htext : mainText fl env prog ≠ []) :
    ∃ ph ∈ readPhdrs img, ph.type = 1 ∧ ph.vaddr = 0x00100000 ∧ ph.memsz = ph.filesz ∧
      slice 0 img ph.offset ph.filesz = mainText fl env prog := by
  obtain ⟨htb, hdb, hts, hds⟩ := outputOf_elf hfmt hexit
  obtain rfl : overwriteAll 0 [] (elfWrites (outputOf fl env prog) 0) = img :=
    Option.some.inj ((main_file_elf hfmt hexit).symm.trans hfile)
  rw [← mainText_elf hfmt hexit] at htext ⊢
  have hsaved := textSize_add_saved fl.config prog
  generalize outputOf fl env prog = g at *
  have hfit : (idealPlan (g.xlen = 64) g.text.length g.data.length).shoff < 2 ^ 32 :=
    idealPlan_shoff_lt (by omega)
  have hord := idealPlan_ordered (g.xlen = 64) g.text.length g.data.length
  have hsmall := idealPlan_small hfit (by omega) (by omega)
  have hwrites : elfWrites g 0 = elfWritesOf (g.xlen = 64) g
      (idealPlan (g.xlen = 64) g.text.length g.data.length) 0 := by
    rw [elfWrites, elfPlan_eq hfit]
  rw [hwrites]
  have hw : Written (overwriteAll 0 [] (elfWritesOf (g.xlen = 64) g
      (idealPlan (g.xlen = 64) g.text.length g.data.length) 0)) (elfWritesOf (g.xlen = 64) g
        (idealPlan (g.xlen = 64) g.text.length g.data.length) 0) :=
    fun w hmem => slice_overwriteAll 0 [] (elfWritesOf_apart 0 hord) hmem
  have hsegments := segments_hold hord hw htb hdb
  rw [loadedSections_eq, if_pos (List.length_eq_zero_iff.not.mpr htext), List.singleton_append,
    List.forall₂_cons_right_iff] at hsegments
  obtain ⟨ph, phs, hph, -, hphdrs⟩ := hsegments
  rw [readPhdrs_eq hsmall hord hw, hphdrs]
  exact ⟨ph, List.mem_cons_self, hph.type, hph.vaddr, hph.memsz, hph.content⟩

/-- The segments of a file are in memory where the program headers say, with zeros behind what
the file has of them. -/
def LoadsElf {w : ℕ} (img : List UInt8) (m : Mem w) : Prop :=
  ∀ ph ∈ readPhdrs img, ph.type = 1 → m.Holds (BitVec.ofNat w ph.vaddr)
    (slice 0 img ph.offset ph.filesz ++ List.replicate (ph.memsz - ph.filesz) 0)

/-- The file of a run is in memory, with its `.text` at an address: an ELF file by its segments
and its entry, a raw one as it is, which begins with `.data`. -/
inductive Loads {w : ℕ} (fmt : OutFormat) (prog : Program) (img : List UInt8) (m : Mem w) :
    BitVec w → Prop
  | elf (hfmt : fmt = .elf) (h : LoadsElf img m) :
    Loads fmt prog img m (BitVec.ofNat w (readEhdr img).entry)
  | raw (hfmt : fmt = .raw) (a : BitVec w) (h : m.Holds a img) :
    Loads fmt prog img m (a + BitVec.ofNat w (bytesIn .data .text prog))

/-- A memory with the file of a successful run has the instructions of the program where it
should. -/
theorem Loads.text {w : ℕ} (hexit : (main fl env prog).exitCode = 0) {img : List UInt8}
    (hfile : (main fl env prog).file = some img)
    (hsize : bytesIn .text .text prog + bytesIn .data .text prog < 2 ^ 31) {m : Mem w}
    {base : BitVec w} (hload : Loads fl.fmt prog img m base) :
    m.Holds base (mainText fl env prog) := by
  cases hload with
  | elf hfmt h =>
    by_cases htext : mainText fl env prog = []
    · rw [htext]
      rfl
    · obtain ⟨ph, hph, htype, hvaddr, hmemsz, hcontent⟩ :=
        exists_text_segment hfmt hexit hfile hsize htext
      have hentry := entry_of_main hfmt hexit hfile
      rw [mainText_elf hfmt hexit, if_pos htext] at hentry
      have hsegment := h ph hph htype
      rw [hvaddr, hmemsz, Nat.sub_self, hcontent] at hsegment
      rw [hentry]
      simpa using hsegment
  | raw hfmt a h =>
    obtain rfl : mainData fl env prog ++ mainText fl env prog = img :=
      Option.some.inj ((main_file_raw hfmt hexit).symm.trans hfile)
    rw [← mainData_length hexit]
    exact (Mem.holds_append.mp h).2

theorem Flags.config_extC (fl : Flags) : fl.config.extC = fl.cext := rfl

theorem TextOnly.bytesIn_data {prog : Program} (h : TextOnly prog) :
    bytesIn .data .text prog = 0 := by
  induction prog with
  | nil => rfl
  | cons p prog ih =>
    have htail := ih fun q hq => h q (List.mem_cons_of_mem _ hq)
    rw [bytesIn, h.nextSection List.mem_cons_self, htail]
    rfl

theorem bytesIn_concat_instruction {pre : Program} {line : ℤ} {i : Instruction}
    (hsect : sectionAfter .text pre = .text) :
    bytesIn .text .text (pre ++ [(line, .instruction i)]) - bytesIn .text .text pre =
      (Item.instruction i).bytes := by
  rw [bytesIn_append, hsect, Nat.add_sub_cancel_left]
  rfl

end

/-- The output of a program without compressed instructions does what the program says, step by
step, wherever it is loaded. -/
theorem loaded_runs (fl : Flags) (env : Environment) (prog : Program) (hC : fl.cext = false)
    (hla : ∀ p ∈ prog, ∀ rd l, p.2 ≠ .instruction (.la rd l)) (hsteady : Steady prog)
    (hsize : bytesIn .text .text prog + bytesIn .data .text prog < 2 ^ 31)
    (hexit : (main fl env prog).exitCode = 0) (img : List UInt8)
    (hfile : (main fl env prog).file = some img) (p : Platform fl.config.xlen)
    (base : BitVec fl.config.xlen) (n : ℕ) (h h' : Hart fl.config.xlen)
    (hload : Loads fl.fmt prog img h.mem base)
    (hsteps : Steps (Program.Step p (placedAt base) prog) n h h') :
    iterate (Hart.step p) n h = some h' := by
  obtain ⟨-, -, hrun, -⟩ := (main_exitCode_iff fl env prog).mp hexit
  have hno : fl.config.compresses = false := by
    rw [Config.compresses, fl.config_extC, hC, Bool.false_and]
  have hemits := (pass2Run_written (pass1Run_good prog).ir hrun).1
  have hok := runnable_of_noChoice hno hla hsteady (by omega)
    (fun e he _ hk => readsBack_of_noC hC hk (hemits e he)) hrun
  have hcode := hload.text hexit hfile hsize
  have hagree := placedAt_agree hno hrun base
  exact Program.Step.run hrun hok hcode (hsteps.mono fun _ _ => hagree.step)

def counter : Program :=
  [(1, .label (letter 0)), (2, .instruction (.addi (reg 5) (reg 5) 1)),
    (3, .instruction (.jLabel (letter 0)))]

def bootedAt (w : ℕ) (img : List UInt8) : Hart w where
  regs := fun _ => 0
  pc := 0
  mem := fun a => img.getD a.toNat 0

/-- Instructions are aligned to `ialign` bytes, and nothing answers `ecall`. -/
def bare (w ialign : ℕ) : Platform w where
  ialign := ialign
  ecall := fun _ => none
  ebreak := fun _ => none

/-- Under any options, compression among them, the hart runs a program of instructions and labels
as its text says if none of its branches is disturbed and every word is one its encoder gets
right.  The places are those the run has given the items. -/
theorem loaded_compressed_runs (fl : Flags) (env : Environment) (prog : Program)
    (htext : TextOnly prog) (hla : ∀ p ∈ prog, ∀ rd l, p.2 ≠ .instruction (.la rd l))
    (hsize : bytesIn .text .text prog < 2 ^ 31)
    (hhalves : ∀ e ∈ pass2Layout fl.config (pass1Run prog).symtab (pass1Run prog).ir,
      e.kind = .instr → e.ReadsBack (pass1Run prog).symtab)
    (hundisturbed : ∀ pre i, BranchesTo prog pre i →
      Undisturbed (plannedCells fl.config (pass1Run prog).symtab (pass1Run prog).ir) i
        (pass1Run pre).ir.length)
    (hexit : (main fl env prog).exitCode = 0) (img : List UInt8)
    (hfile : (main fl env prog).file = some img) (p : Platform fl.config.xlen)
    (base : BitVec fl.config.xlen) (n : ℕ) (h h' : Hart fl.config.xlen)
    (hload : Loads fl.fmt prog img h.mem base)
    (hsteps : Steps (Program.Step p (writtenAt fl.config env.ops
      (outSetFile (outBegin fl.fmt fl.xlen) {}) prog base) prog) n h h') :
    iterate (Hart.step p) n h = some h' := by
  obtain ⟨-, -, hrun, -⟩ := (main_exitCode_iff fl env prog).mp hexit
  have hok := runnable_of_undisturbed htext hla hhalves hundisturbed hrun
  have hdata : bytesIn .data .text prog = 0 := htext.bytesIn_data
  exact Program.Step.run hrun hok (hload.text hexit hfile (by omega)) hsteps

def compressing : Flags where
  cext := true
  autoC := true

def halved : Placement 32 where
  base := 0
  offset pre := bytesIn .text .text pre / 2

theorem halved_agree : Placement.Agree counter halved (writtenAt compressing.config allOps
    (outSetFile (outBegin .raw 32) {}) counter 0) where
  base := rfl
  offset := by
    intro pre post hsplit
    have hall : ∀ pre ∈ counter.inits, bytesIn .text .text pre / 2 =
        (stateAfter compressing.config allOps (outSetFile (outBegin .raw 32) {}) counter
          pre).written .text := by decide +kernel
    exact hall pre ((List.mem_inits pre counter).mpr ⟨post, hsplit.symm⟩)

theorem loaded_compressed_runs_counter :
    iterate (Hart.step (bare 32 2)) 1 { bootedAt 32 [133, 2, 253, 191] with pc := 2 } =
      some (bootedAt 32 [133, 2, 253, 191]) := by
  have hload : Loads .raw counter [133, 2, 253, 191] (bootedAt 32 [133, 2, 253, 191]).mem 0 :=
    .raw rfl 0 (by decide +kernel)
  have hjump : Program.Step (bare 32 2) halved counter
      { bootedAt 32 [133, 2, 253, 191] with pc := 2 } (bootedAt 32 [133, 2, 253, 191]) := by
    have hsplit : counter = [(1, .label (letter 0)),
        (2, .instruction (.addi (reg 5) (reg 5) 1))] ++
          (3, .instruction (.jLabel (letter 0))) :: [] := rfl
    exact .statement hsplit rfl rfl rfl rfl
  refine loaded_compressed_runs compressing {} counter (by simp [TextOnly, counter])
    (by simp [counter]) (by decide) (by decide +kernel) ?_ (by decide +kernel)
    [133, 2, 253, 191] (by decide +kernel) (bare 32 2) 0 1 _ _ hload
    (.succ (halved_agree.step hjump) (.zero _))
  rintro pre i ⟨name, e, ⟨⟨line, post, hsplit⟩, -⟩, he, -⟩
  have hi : i < 2 := (List.getElem?_eq_some_iff.mp he).1
  have hpre : pre = [] := by
    rcases pre with _ | ⟨p, _ | ⟨q, _ | ⟨r, pre⟩⟩⟩ <;> simp [counter] at hsplit ⊢
  have hall : ∀ i < 2, Undisturbed (plannedCells compressing.config (pass1Run counter).symtab
      (pass1Run counter).ir) i 0 := by
    unfold Undisturbed
    decide +kernel
  rw [hpre]
  exact hall i hi

/-- With automatic compression off a hart at a statement does exactly what the statement means,
traps included, also for the compressed instructions a program asks for by name. -/
theorem loaded_step_eq (fl : Flags) (env : Environment) (prog : Program)
    (hno : fl.config.compresses = false)
    (hla : ∀ p ∈ prog, ∀ rd l, p.2 ≠ .instruction (.la rd l)) (hsteady : Steady prog)
    (hsize : bytesIn .text .text prog + bytesIn .data .text prog < 2 ^ 31)
    (hhalves : ∀ e ∈ pass2Layout fl.config (pass1Run prog).symtab (pass1Run prog).ir,
      e.sect = .text → e.kind = .instr → e.ReadsBack (pass1Run prog).symtab)
    (hexit : (main fl env prog).exitCode = 0) (img : List UInt8)
    (hfile : (main fl env prog).file = some img) (p : Platform fl.config.xlen)
    (base : BitVec fl.config.xlen) (h : Hart fl.config.xlen)
    (hload : Loads fl.fmt prog img h.mem base) (pre post : Program) (line : ℤ) (i : Instruction)
    (hsplit : prog = pre ++ (line, .instruction i) :: post) (hsect : sectionAfter .text pre = .text)
    (hpc : h.pc = (placedAt base).after pre)
    (hlabels : ∀ a ∈ i.emits, ∀ l, a.label = some l →
      ∃ addr, (placedAt base).target prog l = some addr) :
    h.step p = i.meaning p ((placedAt base).target prog) (Item.instruction i).bytes h := by
  obtain ⟨-, -, hrun, -⟩ := (main_exitCode_iff fl env prog).mp hexit
  have hok := runnable_of_noChoice hno hla hsteady (by omega) hhalves hrun
  have hagree := placedAt_agree hno hrun base
  have hcode := hload.text hexit hfile hsize
  rw [hagree.target] at hlabels ⊢
  have hnext := hagree.offset (pre ++ [(line, .instruction i)]) post (by rw [hsplit]; simp)
  rw [hok.step_eq hrun hcode hsplit hsect (hpc.trans (hagree.after _ _ hsplit)) hlabels, ← hnext,
    ← hagree.offset _ _ hsplit]
  congr 1
  exact bytesIn_concat_instruction hsect

def shortCounter : Program :=
  [(1, .label (letter 0)), (2, .instruction (.cAddi (reg 5) 1)),
    (3, .instruction (.cJLabel (letter 0)))]

theorem loaded_step_eq_shortCounter :
    Hart.step (bare 32 2) { bootedAt 32 [133, 2, 253, 191] with pc := 2 } =
      (Instruction.cJLabel (letter 0)).meaning (bare 32 2) ((placedAt 0).target shortCounter) 2
        { bootedAt 32 [133, 2, 253, 191] with pc := 2 } := by
  have hload : Loads .raw shortCounter [133, 2, 253, 191] (bootedAt 32 [133, 2, 253, 191]).mem 0 :=
    .raw rfl 0 (by decide +kernel)
  have hsplit : shortCounter = [(1, .label (letter 0)), (2, .instruction (.cAddi (reg 5) 1))] ++
      (3, .instruction (.cJLabel (letter 0))) :: [] := rfl
  have htext : TextOnly shortCounter := by simp [TextOnly, shortCounter]
  refine loaded_step_eq { cext := true } {} shortCounter rfl (by simp [shortCounter]) htext.steady
    (by decide) (by decide +kernel) (by decide +kernel) [133, 2, 253, 191] (by decide +kernel)
    (bare 32 2) 0 { bootedAt 32 [133, 2, 253, 191] with pc := 2 } hload _ _ 3 _ hsplit rfl rfl ?_
  intro a ha l hl
  obtain rfl := List.mem_singleton.mp ha
  obtain rfl := Option.some.inj hl
  exact ⟨0, rfl⟩

end RvAssembler
