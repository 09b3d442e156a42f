import RvAssembler.CFields
import RvAssembler.Layout

namespace RvAssembler

theorem isReg_val (r : Reg) : IsReg (r.val : ℤ) :=
  ⟨Int.natCast_nonneg _, Int.ofNat_lt.mpr r.isLt⟩

theorem isReg_zero : IsReg 0 := by decide

def InstrArgs.RegsOk (a : InstrArgs) : Prop := IsReg a.rd ∧ IsReg a.rs1 ∧ IsReg a.rs2

theorem regArgs_regsOk (op : Opcode) (fmt : IrFmt) (rd rs1 rs2 : Reg) :
    (regArgs op fmt rd rs1 rs2).RegsOk := ⟨isReg_val rd, isReg_val rs1, isReg_val rs2⟩

theorem immArgs_regsOk (op : Opcode) (fmt : IrFmt) (rd rs1 : Reg) (imm : Int64) :
    (immArgs op fmt rd rs1 imm).RegsOk := ⟨isReg_val rd, isReg_val rs1, isReg_zero⟩

theorem srcArgs_regsOk (op : Opcode) (fmt : IrFmt) (rs1 rs2 : Reg) (imm : Int64) :
    (srcArgs op fmt rs1 rs2 imm).RegsOk := ⟨isReg_zero, isReg_val rs1, isReg_val rs2⟩

theorem labelArgs_regsOk (op : Opcode) (fmt : IrFmt) (rd rs1 rs2 : Reg) (label : Identifier)
    (reloc : RelocKind) : (labelArgs op fmt rd rs1 rs2 label reloc).RegsOk :=
  ⟨isReg_val rd, isReg_val rs1, isReg_val rs2⟩

theorem Instruction.regsOk_emits (i : Instruction) : ∀ a ∈ i.emits, a.RegsOk := by
  cases i <;>
    simp only [Instruction.emits, List.forall_mem_cons, List.not_mem_nil, IsEmpty.forall_iff,
      implies_true, and_true, regArgs_regsOk, immArgs_regsOk, srcArgs_regsOk, labelArgs_regsOk]

def InstrArgs.FmtOk (a : InstrArgs) : Prop :=
  if isCFmt a.fmt then (cEncodingTable a.op).needsC = true ∧ (cEncodingTable a.op).fmt = a.fmt
  else baseFmt a.op = some a.fmt

theorem Instruction.fmtOk_emits (i : Instruction) : ∀ a ∈ i.emits, a.FmtOk := by
  cases i <;>
    simp only [Instruction.emits, List.forall_mem_cons, List.not_mem_nil, IsEmpty.forall_iff,
      implies_true, and_true] <;>
    first
      | exact ⟨rfl, rfl⟩
      | exact And.intro rfl rfl
      | exact rfl

/-- What the actions of an item preserve: a property that survives each kind of emission, the
moves of `.align`, section switches and reports. -/
theorem execItem_induction {I : Pass1 → Prop} (line : ℤ) (it : Item)
    (hinstr : ∀ st i, it = .instruction i → ∀ a ∈ i.emits, I st →
      I (pass1EmitInstruction st a line))
    (hdata : ∀ st v size, I st → I (pass1EmitData st v size line))
    (hspace : ∀ st n, I st → I (pass1EmitSpace st n line))
    (halign : ∀ st k, it = .align k → I st → I (alignDirective st k line))
    (hsect : ∀ st s, I st → I { st with counters := passSetSection st.counters s })
    (hreport : ∀ st t b errs, I st → I { st with symtab := t, hadError := b, stderr := errs })
    {st : Pass1} (h : I st) : I (execItem st line it) := by
  cases it with
  | label name => exact hreport st _ _ _ h
  | text => exact hsect st .text h
  | data => exact hsect st .data h
  | instruction i =>
    exact List.foldlRecOn i.emits _ h fun st h a ha => hinstr st i rfl a ha h
  | align k => exact halign st k rfl h
  | byte v | half v | word v =>
    simp only [execItem, rangedData]
    split_ifs
    · exact hreport st st.symtab true _ h
    · exact hdata st _ _ h
  | dword v => exact hdata st _ _ h
  | ascii s => exact List.foldlRecOn s.bytes _ h fun st h b _ => hdata st _ _ h
  | asciiz s => exact hdata _ _ _ (List.foldlRecOn s.bytes _ h fun st h b _ => hdata st _ _ h)
  | space n =>
    simp only [execItem]
    split_ifs
    · exact hreport st st.symtab true _ h
    · exact hspace st _ h

def IrEntry.args (e : IrEntry) : InstrArgs :=
  { op := e.op, fmt := e.fmt, rd := e.rd, rs1 := e.rs1, rs2 := e.rs2, imm := e.imm
    label := e.label, reloc := e.reloc }

theorem IrEntry.args_eq_of_core {e e' : IrEntry} (h : e.core = e'.core) : e.args = e'.args :=
  IrEntry.eq_of_core IrEntry.args (fun _ => rfl) h

/-- An instruction entry of an instruction statement. -/
def IrEntry.Built (e : IrEntry) : Prop :=
  e.kind = .instr → ∃ i : Instruction, e.args ∈ i.emits

theorem pass1Run_forall {P : IrEntry → Prop}
    (hinstr : ∀ i : Instruction, ∀ a ∈ i.emits, ∀ sect addr size line e,
      irAppendInstr [] a.op a.fmt a.rd a.rs1 a.rs2 a.imm a.label a.reloc sect addr size line = [e] →
        P e)
    (hother : ∀ e : IrEntry, e.kind ≠ .instr → e.label = none → P e) (prog : Program) :
    ∀ e ∈ (pass1Run prog).ir, P e := by
  have hpad : ∀ (buf : List IrEntry) (sect : Section) (addr pad : ℕ) (line : ℤ),
      (∀ e ∈ buf, P e) → ∀ e ∈ irAppendAlign buf sect addr pad line, P e := by
    intro buf sect addr pad line h
    rw [irAppendAlign]
    split_ifs
    · exact h
    · rw [List.forall_mem_append, List.forall_mem_singleton]
      exact ⟨h, hother _ (fun hk => by cases hk) rfl⟩
  induction prog using List.reverseRecOn with
  | nil => simp [pass1Run, execAll]
  | append_singleton prog p ih =>
    rw [pass1Run_concat]
    apply execItem_induction (I := fun st => ∀ e ∈ st.ir, P e) p.1 p.2
    · intro st i _ a ha h
      apply List.forall_mem_append.mpr ⟨h, List.forall_mem_singleton.mpr _⟩
      exact hinstr i a ha _ _ _ _ _ rfl
    · intro st v size h
      apply List.forall_mem_append.mpr ⟨h, List.forall_mem_singleton.mpr _⟩
      exact hother _ (fun hk => by cases hk) rfl
    · intro st n h
      exact hpad _ _ _ _ _ h
    · intro st k _ h
      simp only [alignDirective]
      split_ifs
      · exact hpad _ _ _ _ _ h
      · exact h
    · exact fun st s h => h
    · exact fun st t b errs h => h
    · exact ih

theorem pass1Run_built (prog : Program) : ∀ e ∈ (pass1Run prog).ir, e.Built := by
  apply pass1Run_forall
  · intro i a ha sect addr size line e he _
    have hreloc : (if a.label.isSome then a.reloc else .none) = a.reloc := by
      cases hl : a.label with
      | none => exact ((i.valid_emits a ha).noLabel hl).symm
      | some l => rfl
    obtain rfl := (List.cons.inj he).1
    refine ⟨i, ?_⟩
    simpa only [IrEntry.args, hreloc] using ha
  · exact fun e hk _ hinstr => absurd hinstr hk

theorem pass1Run_labelled (prog : Program) :
    ∀ e ∈ (pass1Run prog).ir, e.label ≠ none → e.kind = .instr := by
  apply pass1Run_forall
  · intro i a _ sect addr size line e he _
    obtain rfl := (List.cons.inj he).1
    rfl
  · exact fun e _ hnone hl => absurd hnone hl

theorem IrEntry.Built.of_core {e e' : IrEntry} (h : e'.Built) (hcore : e.core = e'.core) :
    e.Built := by
  intro hk
  rw [IrEntry.args_eq_of_core hcore]
  exact h ((IrEntry.kind_eq_of_core hcore).symm.trans hk)

theorem built_of_map_core {ir lay : List IrEntry} (h : ∀ e ∈ ir, e.Built)
    (hcore : lay.map IrEntry.core = ir.map IrEntry.core) : ∀ e ∈ lay, e.Built := by
  intro e he
  obtain ⟨e', he', heq⟩ := exists_core_of_mem hcore he
  exact (h e' he').of_core heq

theorem pass2Layout_built (cfg : Config) (prog : Program) :
    ∀ e ∈ pass2Layout cfg (pass1Run prog).symtab (pass1Run prog).ir, e.Built :=
  built_of_map_core (pass1Run_built prog)
    (pass2Layout_laidOut cfg (pass1Run prog).symtab (pass1Run_good prog).ir).2

theorem assignFrom_forall₂ (sect : Section) (pc : ℕ) (ir : List IrEntry) :
    List.Forall₂ (fun e e' => (∃ a n, e' = { e with addr := a, size := n }) ∧
      (e.sect ≠ sect → e' = e)) ir (assignFrom sect pc ir) := by
  induction ir generalizing pc with
  | nil => exact .nil
  | cons e es ih =>
    rw [assignFrom]
    split
    · exact .cons ⟨⟨e.addr, e.size, rfl⟩, fun _ => rfl⟩ (ih pc)
    · rename_i hs
      split
      · exact .cons ⟨⟨_, e.size, rfl⟩, fun h => absurd h hs⟩ (ih _)
      · simp only
        split_ifs <;> exact .cons ⟨⟨_, _, rfl⟩, fun h => absurd h hs⟩ (ih _)
      · exact .cons ⟨⟨_, _, rfl⟩, fun h => absurd h hs⟩ (ih _)

theorem map_assignFrom {α : Type} {f : IrEntry → α}
    (hf : ∀ e a n, f { e with addr := a, size := n } = f e) (sect : Section) (pc : ℕ)
    (ir : List IrEntry) : (assignFrom sect pc ir).map f = ir.map f := by
  have h := assignFrom_forall₂ sect pc ir
  generalize assignFrom sect pc ir = ir' at h ⊢
  induction h with
  | nil => rfl
  | cons he _ ih =>
    obtain ⟨⟨a, n, rfl⟩, -⟩ := he
    rw [List.map_cons, List.map_cons, hf, ih]

theorem mem_assignFrom {sect : Section} {pc : ℕ} {ir : List IrEntry} {e' : IrEntry}
    (h : e' ∈ assignFrom sect pc ir) :
    ∃ e ∈ ir, ∃ a n, e' = { e with addr := a, size := n } := by
  have hall := assignFrom_forall₂ sect pc ir
  generalize assignFrom sect pc ir = ir' at h hall
  induction hall with
  | nil => cases h
  | cons he _ ih =>
    rcases List.mem_cons.mp h with rfl | h
    · exact ⟨_, List.mem_cons_self, he.1⟩
    · obtain ⟨e, hmem, hplaced⟩ := ih h
      exact ⟨e, List.mem_cons_of_mem _ hmem, hplaced⟩

theorem forall_assignAddresses {P : IrEntry → Prop}
    (hplace : ∀ e a n, P e → P { e with addr := a, size := n }) (sect : Section)
    {ir : List IrEntry} (h : ∀ e ∈ ir, P e) : ∀ e ∈ pass2AssignAddresses sect ir, P e := by
  intro e' he'
  obtain ⟨e, he, a, n, rfl⟩ := mem_assignFrom he'
  exact hplace e a n (h e he)

theorem relayoutRounds_induction {P : IrEntry → Prop} (cfg : Config) (t : SymTab)
    (hplace : ∀ e a n, P e → P { e with addr := a, size := n })
    (hvalidate : ∀ e, P e → P (validateEntry t .text e).1) (n : ℕ)
    {ir : List IrEntry} (h : ∀ e ∈ ir, P e) :
    ∀ e ∈ (relayoutRounds cfg t .text n ir).1, P e := by
  have hround : ∀ ir, (∀ e ∈ ir, P e) →
      ∀ e ∈ (pass2ValidateCompressedRanges cfg t .text ir).1, P e := by
    intro ir h
    rw [pass2ValidateCompressedRanges]
    split_ifs
    · exact h
    · exact List.forall_mem_map.mpr fun e he => hvalidate e (h e he)
  induction n generalizing ir with
  | zero => exact h
  | succ n ih =>
    rw [relayoutRounds]
    simp only
    -- the last round, or one more
    split_ifs
    · exact hround _ (forall_assignAddresses hplace .text h)
    · exact ih (hround _ (forall_assignAddresses hplace .text h))

/-- What holds of the planned entries holds of the layout, if no round loses it. -/
theorem pass2Layout_of_planned {P : IrEntry → Prop} {cfg : Config} (hcfg : cfg.compresses = true)
    (t : SymTab) (hplace : ∀ e a n, P e → P { e with addr := a, size := n })
    (hvalidate : ∀ e, P e → P (validateEntry t .text e).1) {ir : List IrEntry}
    (h : ∀ e ∈ pass2PlanChoices cfg (pass2AssignAddresses .data ir), P e) :
    ∀ e ∈ pass2Layout cfg t ir, P e := by
  rw [pass2Layout, hcfg]
  exact relayoutRounds_induction cfg t hplace hvalidate _ h

theorem pass2Layout_induction {P : IrEntry → Prop} (cfg : Config) (t : SymTab)
    (hplace : ∀ e a n, P e → P { e with addr := a, size := n })
    (hplan : ∀ e, P e → P (planEntry cfg e))
    (hvalidate : ∀ e, P e → P (validateEntry t .text e).1)
    {ir : List IrEntry} (h : ∀ e ∈ ir, P e) : ∀ e ∈ pass2Layout cfg t ir, P e := by
  have hplaced : ∀ e ∈ pass2AssignAddresses .data ir, P e := forall_assignAddresses hplace .data h
  cases hcfg : cfg.compresses with
  | true =>
    refine pass2Layout_of_planned hcfg t hplace hvalidate ?_
    rw [pass2PlanChoices, hcfg]
    exact List.forall_mem_map.mpr fun e he => hplan e (hplaced e he)
  | false =>
    rw [pass2Layout, hcfg]
    exact forall_assignAddresses hplace .text hplaced

/-- A choice is one of the rules', but for the offset of a branch or jump. -/
def IrEntry.Mapped (cfg : Config) (e : IrEntry) : Prop :=
  e.hasCChoice = true → cfg.compresses = true ∧
    ∃ ch imm, cTryMap cfg e = some ch ∧ e.choice = { ch with imm } ∧
      (isPcRel ch.op = false → imm = ch.imm)

theorem compresses_of_canAttempt {cfg : Config} {e : IrEntry}
    (h : pass2NodeCanAttempt cfg e = true) : cfg.compresses = true := by
  rw [pass2NodeCanAttempt] at h
  rw [Config.compresses]
  cases hc : cfg.extC <;> cases ha : cfg.autoC <;> simp [hc, ha] at h ⊢

theorem IrEntry.Mapped.plan {cfg : Config} {e : IrEntry} (h : e.Mapped cfg) :
    (planEntry cfg e).Mapped cfg := by
  rw [planEntry]
  split_ifs with hattempt
  · exact h
  · cases hmap : cTryMap cfg e with
    | none => exact fun hc => by cases hc
    | some ch =>
      have hcfg : cfg.compresses = true := compresses_of_canAttempt (by simpa using hattempt)
      exact fun _ => ⟨hcfg, ch, ch.imm, hmap, rfl, fun _ => rfl⟩

theorem IrEntry.Mapped.aim {cfg : Config} {e : IrEntry} (h : e.Mapped cfg)
    (hpc : isPcRel e.choice.op = true) (imm : ℤ) :
    ({ e with choice := { e.choice with imm } } : IrEntry).Mapped cfg := by
  intro hchoice
  obtain ⟨hcfg, ch, imm', hmap, hform, -⟩ := h hchoice
  rw [hform] at hpc
  refine ⟨hcfg, ch, imm, hmap, ?_, fun hplain => ?_⟩
  · simp only [hform]
  · exact absurd (hpc.symm.trans hplain) (by decide)

theorem IrEntry.Mapped.validate {cfg : Config} {t : SymTab} {e : IrEntry} (h : e.Mapped cfg) :
    (validateEntry t .text e).1.Mapped cfg := by
  have hdrop : ({ e with hasCChoice := false } : IrEntry).Mapped cfg := fun hc => by cases hc
  rw [validateEntry]
  split_ifs with hsect hc
  · exact h
  · exact h
  · rw [validateChoice]
    split_ifs with hpc
    · exact h
    · split
      · exact h
      · exact hdrop
      · simp only
        split_ifs
        · exact hdrop
        · exact h.aim (by simpa using hpc) _

/-- The choices of the layout are those of the rules. -/
theorem pass2Layout_mapped (cfg : Config) (t : SymTab) {ir : List IrEntry}
    (h : ∀ e ∈ ir, e.Fresh) : ∀ e ∈ pass2Layout cfg t ir, e.Mapped cfg :=
  pass2Layout_induction cfg t (fun _ _ _ h => h) (fun _ h => h.plan) (fun _ h => h.validate)
    fun e he hc => by
      rw [(h e he).noChoice] at hc
      cases hc

end RvAssembler
