import RvAssembler.Loading

namespace RvAssembler

open Bits Image

section

variable {cfg cfg' : Config} {op : Opcode} {rd rs1 rs2 imm line : ℤ}

theorem shift_encoding_agree (hshift : isShiftImm op = true) (hword : isWordShift op = false)
    (hlo : 0 ≤ imm) (hhi : imm ≤ 31) :
    (if op = .srai then 0x10 else low 6 (BitVec.ofNat 32 (encodingTable op).funct7)) <<< 26 |||
        at32 6 20 (BitVec.ofInt 32 imm) =
      tag32 7 25 (encodingTable op).funct7 ||| at32 5 20 (BitVec.ofInt 32 imm) := by
  obtain ⟨n, rfl⟩ := Int.eq_ofNat_of_zero_le hlo
  have hn : n < 32 := by omega
  have hops : ∀ op, isShiftImm op = true → isWordShift op = false →
      op ∈ [Opcode.slli, .srli, .srai] := by
    intro op
    cases op <;> decide
  have hall : ∀ op ∈ [Opcode.slli, .srli, .srai], ∀ n : ℕ, n < 32 →
      (if op = .srai then 0x10 else low 6 (BitVec.ofNat 32 (encodingTable op).funct7)) <<< 26 |||
          at32 6 20 (BitVec.ofInt 32 (n : ℤ)) =
        tag32 7 25 (encodingTable op).funct7 ||| at32 5 20 (BitVec.ofInt 32 (n : ℤ)) := by
    decide +kernel
  exact hall op (hops op hshift hword) n hn

theorem encodeItype_shift {w : BitVec 32} (hshift : isShiftImm op = true)
    (hword : isWordShift op = false) (hhi : imm ≤ 31)
    (h : encodeItype cfg op rd rs1 imm line = .ok w) :
    w = tag32 7 25 (encodingTable op).funct7 ||| at32 5 20 (BitVec.ofInt 32 imm) |||
      reg32 rs1 15 ||| tag32 3 12 (encodingTable op).funct3 ||| reg32 rd 7 |||
      tag32 7 0 (encodingTable op).opcode := by
  simp only [encodeItype, hshift, hword, ↓reduceIte, Bool.not_false, Bool.true_and,
    Bool.false_eq_true, decide_eq_true_eq] at h
  by_cases hx : cfg.xlen = 64
  · simp only [hx, ↓reduceIte] at h
    have hlo : 0 ≤ imm := by
      by_contra hneg
      rw [if_pos (.inl (by omega))] at h
      cases h
    rw [if_neg (by omega), shift_encoding_agree hshift hword hlo hhi] at h
    exact (Except.ok.inj h).symm
  · simp only [hx, ↓reduceIte] at h
    split_ifs at h
    exact (Except.ok.inj h).symm

theorem encodeItype_agree {w w' : BitVec 32} (h : encodeItype cfg op rd rs1 imm line = .ok w)
    (h' : encodeItype cfg' op rd rs1 imm line = .ok w') : w = w' := by
  have hsame (heq : encodeItype cfg op rd rs1 imm line = encodeItype cfg' op rd rs1 imm line) :
      w = w' := Except.ok.inj (h.symm.trans (heq.trans h'))
  by_cases hshift : isShiftImm op = true ∧ isWordShift op = false
  · obtain ⟨hshift, hword⟩ := hshift
    by_cases hhi : imm ≤ 31
    · rw [encodeItype_shift hshift hword hhi h, encodeItype_shift hshift hword hhi h']
    · -- only RV64 shifts this far
      have hxlen : ∀ cfg : Config, ∀ w, encodeItype cfg op rd rs1 imm line = .ok w →
          cfg.xlen = 64 := by
        intro cfg w h
        by_contra hx
        simp only [encodeItype, hshift, hword, hx, ↓reduceIte, Bool.false_eq_true] at h
        rw [if_pos (.inr (by omega))] at h
        cases h
      apply hsame
      rw [encodeItype, encodeItype, hxlen cfg w h, hxlen cfg' w' h']
  · apply hsame
    simp only [encodeItype]
    cases hs : isShiftImm op with
    | false => rfl
    | true =>
      have hword : isWordShift op = true := by simpa [hs] using hshift
      simp only [hword, ↓reduceIte, Bool.not_true, Bool.false_and, Bool.false_eq_true]

theorem encodeInstruction_agree {fmt : IrFmt} {w w' : BitVec 32}
    (h : encodeInstruction cfg op fmt rd rs1 rs2 imm line = .ok w)
    (h' : encodeInstruction cfg' op fmt rd rs1 rs2 imm line = .ok w') : w = w' := by
  by_cases hi : fmt = .i
  · subst hi
    exact encodeItype_agree h h'
  · have hsame : encodeInstruction cfg op fmt rd rs1 rs2 imm line =
        encodeInstruction cfg' op fmt rd rs1 rs2 imm line := by
      cases fmt <;> first | rfl | exact absurd rfl hi
    exact Except.ok.inj (h.symm.trans (hsame.trans h'))

theorem encodeCitype_agree {w w' : BitVec 16} (h : encodeCitype cfg op rd rs1 imm line = .ok w)
    (h' : encodeCitype cfg' op rd rs1 imm line = .ok w') : w = w' := by
  obtain ⟨-, -, h⟩ := bind_eq_ok.mp h
  obtain ⟨-, -, h'⟩ := bind_eq_ok.mp h'
  cases op
  case cAddiw | cSlli | cSrli | cSrai | cLdsp =>
    simp only at h h'
    split_ifs at h h'
    exact Except.ok.inj (h.symm.trans h')
  all_goals exact Except.ok.inj (h.symm.trans h')

theorem cEncodeInstruction_agree {fmt : IrFmt} {w w' : BitVec 16}
    (h : cEncodeInstruction cfg op fmt rd rs1 rs2 imm line = .ok w)
    (h' : cEncodeInstruction cfg' op fmt rd rs1 rs2 imm line = .ok w') : w = w' := by
  cases fmt
  case ci => exact encodeCitype_agree h h'
  case ca | cr | cs | css | cb | cj | cl =>
    -- what is available is checked first, and then nothing depends on it
    obtain ⟨-, -, h⟩ := bind_eq_ok.mp h
    obtain ⟨-, -, h'⟩ := bind_eq_ok.mp h'
    exact Except.ok.inj (h.symm.trans h')
  all_goals cases h

end

/-- What an instruction comes to does not depend on the architecture it is accepted for. -/
theorem instrCall_agree {cfg cfg' : Config} {t : SymTab} {a : InstrArgs} {addr : ℕ} {line : ℤ}
    {c c' : SinkCall} (h : instrCall cfg t a addr line = .ok c)
    (h' : instrCall cfg' t a addr line = .ok c') : c = c' := by
  have hsticky {α : Type} {x : Except String α} {v : α} (hx : sticky x = .ok v) : x = .ok v := by
    cases x with
    | error m => cases hx
    | ok v' => rw [Except.ok.inj (show (Except.ok v' : Except Fault α) = .ok v from hx)]
  rw [instrCall] at h h'
  split_ifs at h h'
  · obtain ⟨-, -, h⟩ := bind_eq_ok.mp h
    obtain ⟨imm, himm, h⟩ := bind_eq_ok.mp h
    obtain ⟨half, hhalf, h⟩ := bind_eq_ok.mp h
    obtain ⟨-, -, h'⟩ := bind_eq_ok.mp h'
    obtain ⟨imm', himm', h'⟩ := bind_eq_ok.mp h'
    obtain ⟨half', hhalf', h'⟩ := bind_eq_ok.mp h'
    obtain rfl := Except.ok.inj (himm.symm.trans himm')
    obtain rfl := cEncodeInstruction_agree (hsticky hhalf) (hsticky hhalf')
    exact Except.ok.inj (h.symm.trans h')
  · obtain ⟨-, -, h⟩ := bind_eq_ok.mp h
    obtain ⟨imm, himm, h⟩ := bind_eq_ok.mp h
    obtain ⟨word, hword, h⟩ := bind_eq_ok.mp h
    obtain ⟨-, -, h'⟩ := bind_eq_ok.mp h'
    obtain ⟨imm', himm', h'⟩ := bind_eq_ok.mp h'
    obtain ⟨word', hword', h'⟩ := bind_eq_ok.mp h'
    obtain rfl := Except.ok.inj (himm.symm.trans himm')
    obtain rfl := encodeInstruction_agree (hsticky hword) (hsticky hword')
    exact Except.ok.inj (h.symm.trans h')

theorem call_agree {cfg cfg' : Config} {t : SymTab} {e : IrEntry} {cs cs' : List SinkCall}
    (h : e.call cfg t = .ok cs) (h' : e.call cfg' t = .ok cs') : cs = cs' := by
  cases hk : e.kind with
  | align | data =>
    simp only [IrEntry.call, hk] at h h'
    exact Except.ok.inj (h.symm.trans h')
  | instr =>
    obtain ⟨c, hc, rfl⟩ := (IrEntry.call_instr hk).mp h
    obtain ⟨c', hc', rfl⟩ := (IrEntry.call_instr hk).mp h'
    rw [instrCall_agree hc hc']

def dataEntries (ir : List IrEntry) : List IrEntry := ir.filter fun e => e.sect = .data

theorem dataEntries_forall₂ {ir ir' : List IrEntry}
    (h : List.Forall₂ (fun e e' => e'.sect = e.sect ∧ (e.sect = .data → e' = e)) ir ir') :
    dataEntries ir' = dataEntries ir := by
  unfold dataEntries
  induction h with
  | nil => rfl
  | cons he _ ih =>
    obtain ⟨hsect, hsame⟩ := he
    rw [List.filter_cons, List.filter_cons, hsect, ih]
    split_ifs with hdata
    · rw [hsame (by simpa using hdata)]
    · rfl

theorem dataEntries_assign (ir : List IrEntry) :
    dataEntries (pass2AssignAddresses .text ir) = dataEntries ir := by
  apply dataEntries_forall₂
  refine (assignFrom_forall₂ .text 0 ir).imp ?_
  rintro e e' ⟨⟨a, n, rfl⟩, hsame⟩
  exact ⟨rfl, fun hdata => hsame (by rw [hdata]; decide)⟩

theorem dataEntries_map {f : IrEntry → IrEntry} (hsect : ∀ e, (f e).sect = e.sect)
    (hsame : ∀ e, e.sect = .data → f e = e) (ir : List IrEntry) :
    dataEntries (ir.map f) = dataEntries ir := by
  apply dataEntries_forall₂
  rw [List.forall₂_map_right_iff, List.forall₂_same]
  exact fun e _ => ⟨hsect e, hsame e⟩

theorem validateEntry_sect (t : SymTab) (sect : Section) (e : IrEntry) :
    (validateEntry t sect e).1.sect = e.sect := by
  obtain hsame | ⟨-, -, hdrop | ⟨imm, haim⟩⟩ := validateEntry_cases t sect e
  · rw [hsame]
  · rw [hdrop]
  · rw [haim]

theorem dataEntries_layout (cfg : Config) (t : SymTab) (ir : List IrEntry) :
    dataEntries (pass2Layout cfg t ir) = dataEntries (pass2AssignAddresses .data ir) := by
  have hvalidate : ∀ ir, dataEntries (pass2ValidateCompressedRanges cfg t .text ir).1 =
      dataEntries ir := by
    intro ir
    rw [pass2ValidateCompressedRanges]
    split_ifs
    · rfl
    · exact dataEntries_map (validateEntry_sect t .text) (fun e => validateEntry_data t) ir
  have hrounds : ∀ n ir, dataEntries (relayoutRounds cfg t .text n ir).1 = dataEntries ir := by
    intro n
    induction n with
    | zero => exact fun _ => rfl
    | succ n ih =>
      intro ir
      rw [relayoutRounds]
      simp only
      split_ifs
      · rw [hvalidate, dataEntries_assign]
      · rw [ih, hvalidate, dataEntries_assign]
  have hplan : ∀ ir, dataEntries (pass2PlanChoices cfg ir) = dataEntries ir := by
    intro ir
    rw [pass2PlanChoices]
    split_ifs
    · rfl
    · refine dataEntries_map (fun e => ?_) (fun e hdata => ?_) ir
      · exact IrEntry.eq_of_core IrEntry.sect (fun _ => rfl) (planEntry_core cfg e)
      · exact planEntry_data cfg (by rw [hdata]; decide)
  rw [pass2Layout]
  split_ifs
  · rw [pass2RelayoutAndValidate, hrounds, hplan]
  · rw [dataEntries_assign]

theorem allCalls_agree {cfg cfg' : Config} {t : SymTab} {es : List IrEntry}
    (h : ∀ e ∈ es, ∃ cs, e.call cfg t = .ok cs) (h' : ∀ e ∈ es, ∃ cs, e.call cfg' t = .ok cs)
    (cur : Section) : allCalls cfg t cur es = allCalls cfg' t cur es := by
  induction es generalizing cur with
  | nil => rfl
  | cons e es ih =>
    obtain ⟨⟨cs, hcs⟩, hes⟩ := List.forall_mem_cons.mp h
    obtain ⟨⟨cs', hcs'⟩, hes'⟩ := List.forall_mem_cons.mp h'
    obtain rfl := call_agree hcs hcs'
    rw [allCalls, allCalls, hcs, hcs', ih hes hes']

section

variable {fl fl' : Flags} {env env' : Environment} {prog : Program}

theorem calls_agree (hno : fl.config.compresses = false) (hno' : fl'.config.compresses = false)
    (hexit : (main fl env prog).exitCode = 0) (hexit' : (main fl' env' prog).exitCode = 0) :
    outputCalls fl.config (pass1Run prog).symtab
        (pass2Layout fl.config (pass1Run prog).symtab (pass1Run prog).ir) =
      outputCalls fl'.config (pass1Run prog).symtab
        (pass2Layout fl'.config (pass1Run prog).symtab (pass1Run prog).ir) := by
  have hemits := ((main_exitCode_eq_zero fl env prog).mp hexit).emits
  have hemits' := ((main_exitCode_eq_zero fl' env' prog).mp hexit').emits
  have hlayout : ∀ fl : Flags, fl.config.compresses = false →
      pass2Layout fl.config (pass1Run prog).symtab (pass1Run prog).ir =
        pass2AssignAddresses .text (pass2AssignAddresses .data (pass1Run prog).ir) := by
    intro fl hno
    rw [pass2Layout, hno]
    rfl
  rw [hlayout fl hno] at hemits ⊢
  rw [hlayout fl' hno'] at hemits' ⊢
  generalize pass2AssignAddresses .text _ = lay at hemits hemits' ⊢
  cases lay with
  | nil => rfl
  | cons e es => rw [outputCalls, outputCalls, allCalls_agree hemits hemits']

/-- The bytes of `.data` are the same under all options, whatever is compressed in `.text`. -/
theorem mainData_agree (hexit : (main fl env prog).exitCode = 0)
    (hexit' : (main fl' env' prog).exitCode = 0) :
    mainData fl env prog = mainData fl' env' prog := by
  have hfresh := (pass1Run_good prog).ir
  obtain ⟨-, -, hrun, -⟩ := (main_exitCode_iff fl env prog).mp hexit
  obtain ⟨-, -, hrun', -⟩ := (main_exitCode_iff fl' env' prog).mp hexit'
  have hemits := ((main_exitCode_eq_zero fl env prog).mp hexit).emits
  have hemits' := ((main_exitCode_eq_zero fl' env' prog).mp hexit').emits
  have hmem : ∀ fl : Flags, ∀ e ∈ dataEntries (pass2AssignAddresses .data (pass1Run prog).ir),
      e ∈ pass2Layout fl.config (pass1Run prog).symtab (pass1Run prog).ir := by
    intro fl e he
    rw [← dataEntries_layout fl.config (pass1Run prog).symtab] at he
    exact (List.mem_filter.mp he).1
  rw [mainData, mainData, pass2Run_writes hfresh hrun, pass2Run_writes hfresh hrun', ← dataEntries,
    ← dataEntries, dataEntries_layout, dataEntries_layout]
  apply List.flatMap_congr
  intro e he
  obtain ⟨cs, hcs⟩ := hemits e (hmem fl e he)
  obtain ⟨cs', hcs'⟩ := hemits' e (hmem fl' e he)
  obtain rfl := call_agree hcs hcs'
  rw [IrEntry.callBytes, IrEntry.callBytes, hcs, hcs']

/-- Two successful runs over a program write the same `.data`, and if neither of them compresses
the same file, as far as the options do not ask for another kind of file: the width of the
registers counts for an ELF file only, and the extensions do not count at all. -/
theorem settings_agree (fl fl' : Flags) (env env' : Environment) (prog : Program)
    (hexit : (main fl env prog).exitCode = 0) (hexit' : (main fl' env' prog).exitCode = 0) :
    mainData fl env prog = mainData fl' env' prog ∧
      (fl.config.compresses = false → fl'.config.compresses = false → fl.fmt = fl'.fmt →
        (fl.fmt = .elf → fl.xlen = fl'.xlen) →
          (main fl env prog).file = (main fl' env' prog).file) := by
  have hdata : mainData fl env prog = mainData fl' env' prog := mainData_agree hexit hexit'
  refine ⟨hdata, fun hno hno' hfmt hxlen => ?_⟩
  have hfresh := (pass1Run_good prog).ir
  obtain ⟨-, -, hrun, -⟩ := (main_exitCode_iff fl env prog).mp hexit
  obtain ⟨-, -, hrun', -⟩ := (main_exitCode_iff fl' env' prog).mp hexit'
  obtain ⟨-, hcalls, hout⟩ := pass2Run_leaves hfresh hrun
  obtain ⟨-, hcalls', hout'⟩ := pass2Run_leaves hfresh hrun'
  have hsame := calls_agree hno hno' hexit hexit'
  cases hraw : fl.fmt with
  | raw =>
    have htext : mainText fl env prog = mainText fl' env' prog := by
      rw [mainText, mainText, textOf, textOf, hcalls, hcalls', hsame]
    rw [main_file_raw hraw hexit, main_file_raw (hfmt.symm.trans hraw) hexit', hdata, htext]
  | elf =>
    have helf' : fl'.fmt = .elf := hfmt.symm.trans hraw
    have houtput : outputOf fl env prog = outputOf fl' env' prog := by
      rw [outputOf, outputOf, hout, hout', runSinkCalls_elf _ _ _ hraw,
        runSinkCalls_elf _ _ _ helf', hsame, hfmt, hxlen hraw]
    rw [main_file_elf hraw hexit, main_file_elf helf' hexit', houtput]

end

theorem settings_agree_counter :
    (main {} {} counter).file = (main { xlen := 64, mext := true, cext := true } {} counter).file :=
  (settings_agree {} { xlen := 64, mext := true, cext := true } {} {} counter (by decide +kernel)
    (by decide +kernel)).2 rfl rfl rfl (fun h => by cases h)

end RvAssembler
