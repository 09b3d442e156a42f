import RvAssembler.Labels

namespace RvAssembler

/-- Each location counter is the sum of the sizes of its section, and each entry has the address
the sizes before it lead to. -/
structure Pass1.Bookkept (st : Pass1) : Prop where
  counters : ∀ s, st.counters.pc s = sizeIn s st.ir
  addr : ∀ k (hk : k < st.ir.length), st.ir[k].addr = sizeIn st.ir[k].sect (st.ir.take k)

/-- The same modulo `2 ^ 32`, as the counters are. -/
structure Pass1.Exact (st : Pass1) : Prop where
  counters : ∀ s, st.counters.pc s = u32 (sizeIn s st.ir)
  addr : ∀ s, Consecutive s 0 st.ir

theorem sizeIn_append (s : Section) (ir ir' : List IrEntry) :
    sizeIn s (ir ++ ir') = sizeIn s ir + sizeIn s ir' := by
  rw [sizeIn, List.map_append, List.sum_append, sizeIn, sizeIn]

theorem sizeIn_singleton (s : Section) (e : IrEntry) :
    sizeIn s [e] = if e.sect = s then e.size else 0 := by
  simp [sizeIn]

theorem sizeIn_take_le (s : Section) (ir : List IrEntry) (k : ℕ) :
    sizeIn s (ir.take k) ≤ sizeIn s ir := by
  conv_rhs => rw [← List.take_append_drop k ir, sizeIn_append]
  exact Nat.le_add_right _ _

theorem Consecutive.concat {s : Section} {off : ℕ} {ir : List IrEntry} {e : IrEntry}
    (h : Consecutive s off ir) (he : e.sect = s → e.addr = u32 (off + sizeIn s ir)) :
    Consecutive s off (ir ++ [e]) := by
  induction ir generalizing off with
  | nil => exact ⟨fun hs => by simpa [sizeIn] using he hs, trivial⟩
  | cons d ds ih =>
    refine ⟨h.1, ih h.2 fun hs => ?_⟩
    rw [he hs, sizeIn, List.map_cons, List.sum_cons, Nat.add_assoc, sizeIn]

/-- Below `2 ^ 32` the two kinds of account are the same. -/
theorem Pass1.Exact.bookkept {st : Pass1} (h : st.Exact) (hlt : ∀ s, sizeIn s st.ir < 2 ^ 32) :
    st.Bookkept := by
  have hsmall : ∀ s k, u32 (sizeIn s (st.ir.take k)) = sizeIn s (st.ir.take k) := fun s k =>
    Nat.mod_eq_of_lt ((sizeIn_take_le s st.ir k).trans_lt (hlt s))
  refine ⟨fun s => (h.counters s).trans (Nat.mod_eq_of_lt (hlt s)), fun k hk => ?_⟩
  rw [(h.addr st.ir[k].sect).addr hk rfl, Nat.zero_add, hsmall]

/-- Between two states `n` bytes have been recorded in the section being assembled, and the
accounts stayed exact. -/
structure Records (st st' : Pass1) (n : ℕ) : Prop where
  curSection : st'.counters.curSection = st.counters.curSection
  size : ∀ s, sizeIn s st'.ir = sizeIn s st.ir + if st.counters.curSection = s then n else 0
  exact : st.Exact → st'.Exact

theorem Records.trans {st st' st'' : Pass1} {m n : ℕ} (h : Records st st' m)
    (h' : Records st' st'' n) : Records st st'' (m + n) := by
  refine ⟨h'.curSection.trans h.curSection, fun s => ?_, fun he => h'.exact (h.exact he)⟩
  rw [h'.size, h.size, h.curSection]
  split_ifs <;> omega

theorem Records.nothing {st st' : Pass1} (hir : st'.ir = st.ir)
    (hc : st'.counters = st.counters) : Records st st' 0 := by
  refine ⟨by rw [hc], fun s => by rw [hir, ite_self, Nat.add_zero], fun h => ⟨?_, ?_⟩⟩
  · rw [hc, hir]
    exact h.counters
  · rw [hir]
    exact h.addr

theorem Records.entry {st st' : Pass1} {e : IrEntry} {n : ℕ} (hir : st'.ir = st.ir ++ [e])
    (hs : e.sect = st.counters.curSection) (ha : e.addr = passCurrentPc st.counters)
    (hn : e.size = n) (hc : st'.counters = passAdvancePc st.counters n) : Records st st' n := by
  subst hn
  have hsize : ∀ s, sizeIn s st'.ir =
      sizeIn s st.ir + if st.counters.curSection = s then e.size else 0 := fun s => by
    rw [hir, sizeIn_append, sizeIn_singleton, hs]
  refine ⟨by rw [hc, passAdvancePc_curSection], hsize, fun h => ⟨fun s => ?_, fun s => ?_⟩⟩
  · rw [hc, passAdvancePc_pc, hsize, h.counters]
    by_cases hcur : s = st.counters.curSection
    · rw [if_pos hcur, if_pos hcur.symm, u32_u32_add]
    · rw [if_neg hcur, if_neg (Ne.symm hcur), Nat.add_zero]
  · rw [hir]
    refine (h.addr s).concat fun hsect => ?_
    rw [ha, passCurrentPc, h.counters, ← hs, hsect, Nat.zero_add]

theorem Records.foldl {α : Type} {f : Pass1 → α → Pass1} {w : α → ℕ} {xs : List α} {st : Pass1}
    (hf : ∀ x ∈ xs, ∀ st : Pass1, Records st (f st x) (w x)) :
    Records st (xs.foldl f st) (xs.map w).sum := by
  induction xs generalizing st with
  | nil => exact .nothing rfl rfl
  | cons x xs ih =>
    rw [List.foldl_cons, List.map_cons, List.sum_cons]
    exact (hf x List.mem_cons_self st).trans (ih fun y hy => hf y (List.mem_cons_of_mem _ hy))

theorem pass1EmitInstruction_records (st : Pass1) (a : InstrArgs) (line : ℤ) :
    Records st (pass1EmitInstruction st a line) a.size := .entry rfl rfl rfl rfl rfl

theorem pass1EmitData_records (st : Pass1) (word : ℤ) (size : ℕ) (line : ℤ) :
    Records st (pass1EmitData st word size line) size := .entry rfl rfl rfl rfl rfl

theorem pass1EmitSpace_records {st : Pass1} (hv : st.counters.Valid) (numBytes : ℕ) (line : ℤ) :
    Records st (pass1EmitSpace st numBytes line) (u32 numBytes) := by
  rcases Nat.eq_zero_or_pos (u32 numBytes) with hz | hpos
  · rw [hz]
    refine .nothing ?_ ?_
    · simp only [pass1EmitSpace, irAppendAlign, hz, ↓reduceIte]
    · rw [pass1EmitSpace, hz, passAdvancePc_zero hv]
  · have hir : (pass1EmitSpace st numBytes line).ir = st.ir ++ [
        { kind := .align, sect := st.counters.curSection, addr := passCurrentPc st.counters
          size := u32 numBytes, line }] := by
      simp only [pass1EmitSpace, irAppendAlign, if_neg hpos.ne']
    exact .entry hir rfl rfl rfl rfl

theorem rangedData_records (st : Pass1) (name : String) (lo hi : ℤ) (size : ℕ) (v : Int64)
    (line : ℤ) : Records st (rangedData st name lo hi size v line)
      (if v.toInt < lo ∨ v.toInt > hi then 0 else size) := by
  rw [rangedData]
  split_ifs
  · exact .nothing rfl rfl
  · exact pass1EmitData_records st _ _ _

theorem stringData_records (st : Pass1) (s : CString) (line : ℤ) :
    Records st (stringData st s line) s.bytes.length := by
  have h : Records st (stringData st s line) (s.bytes.map fun _ => 1).sum :=
    Records.foldl fun b _ st => pass1EmitData_records st (b.toNat : ℤ) 1 line
  rwa [List.map_const', List.sum_replicate_nat, Nat.mul_one] at h

/-- How far an item other than `.align` moves the location counter. -/
def Item.spans : Item → ℕ
  | .space n => if n.toInt < 0 then 0 else u32 n.toInt.toNat
  | it => it.bytes

theorem Item.moves_eq_spans {c : Counters} {it : Item} (h : ∀ pow2, it ≠ .align pow2) :
    it.moves c = it.spans := by
  cases it
  case align pow2 => exact absurd rfl (h pow2)
  all_goals rfl

theorem Item.spans_le_moves (c : Counters) (it : Item) : it.spans ≤ it.moves c := by
  by_cases h : ∃ pow2, it = .align pow2
  · obtain ⟨pow2, rfl⟩ := h
    exact Nat.zero_le _
  · exact (moves_eq_spans fun pow2 hp => h ⟨pow2, hp⟩).ge

theorem execItem_records {st : Pass1} (hv : st.counters.Valid) (line : ℤ) {it : Item}
    (ht : it ≠ .text) (hd : it ≠ .data) (ha : ∀ pow2, it ≠ .align pow2) :
    Records st (execItem st line it) it.spans := by
  cases it with
  | text => exact absurd rfl ht
  | data => exact absurd rfl hd
  | align pow2 => exact absurd rfl (ha pow2)
  | label name => exact .nothing rfl rfl
  | instruction i => exact .foldl fun a _ st => pass1EmitInstruction_records st a line
  | byte v | half v | word v => exact rangedData_records st _ _ _ _ v line
  | dword v => exact pass1EmitData_records st _ _ _
  | ascii s => exact stringData_records st s line
  | asciiz s => exact (stringData_records st s line).trans (pass1EmitData_records _ _ _ _)
  | space n =>
    simp only [execItem, Item.spans]
    split_ifs
    · exact .nothing rfl rfl
    · exact pass1EmitSpace_records hv _ _

theorem passAlignToPow2_zero (pow2 : ℕ) : passAlignToPow2 0 pow2 = 0 := by
  have hm : pow2 % 32 < 32 := Nat.mod_lt _ (by decide)
  simp only [passAlignToPow2, Nat.zero_add, Nat.one_shiftLeft, not32]
  generalize pow2 % 32 = m at hm
  have hpow : 2 ^ m ≤ 2 ^ 31 := Nat.pow_le_pow_right (by decide) (by omega)
  have hpos : 0 < 2 ^ m := Nat.two_pow_pos m
  rw [u32, Nat.mod_eq_of_lt (by omega), Bits.and_compl_low (by omega) (by omega),
    Nat.div_eq_of_lt (by omega), Nat.zero_mul]

theorem alignDirective_of_zero {st : Pass1} (hz : passCurrentPc st.counters = 0) (pow2 : Int64)
    (line : ℤ) : alignDirective st pow2 line = st := by
  have hpad : ∀ k, u32 (0 + passAlignPad 0 k) = 0 := fun k => by
    rw [passAlignPad, passAlignToPow2_zero]
    decide
  rcases st with ⟨⟨cur, pcText, pcData⟩, symtab, ir, hadError, stderr⟩
  cases cur with
  | text =>
    obtain rfl : pcText = 0 := hz
    simp only [alignDirective, passAlignCurrentPc, hpad]
    rfl
  | data =>
    obtain rfl : pcData = 0 := hz
    simp only [alignDirective, passAlignCurrentPc, hpad]
    rfl

def spanIn (s : Section) : Section → Program → ℕ
  | _, [] => 0
  | cur, p :: prog => (if cur = s then p.2.spans else 0) + spanIn s (p.2.nextSection cur) prog

def movedIn (s : Section) : Pass1 → Program → ℕ
  | _, [] => 0
  | st, p :: prog =>
    (if st.counters.curSection = s then p.2.moves st.counters else 0) +
      movedIn s (execItem st p.1 p.2) prog

theorem spanIn_append (s cur : Section) (prog prog' : Program) :
    spanIn s cur (prog ++ prog') =
      spanIn s cur prog + spanIn s (sectionAfter cur prog) prog' := by
  induction prog generalizing cur with
  | nil => exact (Nat.zero_add _).symm
  | cons p prog ih => rw [List.cons_append, spanIn, ih, spanIn, Nat.add_assoc]; rfl

theorem movedIn_append (s : Section) (st : Pass1) (prog prog' : Program) :
    movedIn s st (prog ++ prog') = movedIn s st prog + movedIn s (execAll st prog) prog' := by
  induction prog generalizing st with
  | nil => exact (Nat.zero_add _).symm
  | cons p prog ih => rw [List.cons_append, movedIn, ih, movedIn, Nat.add_assoc]; rfl

theorem spanIn_le_movedIn {st : Pass1} (h : st.Good) (s : Section) (prog : Program) :
    spanIn s st.counters.curSection prog ≤ movedIn s st prog := by
  induction prog generalizing st with
  | nil => exact le_refl 0
  | cons p prog ih =>
    have ih := ih (h.exec p.1 p.2)
    rw [execItem_curSection h] at ih
    have hp := p.2.spans_le_moves st.counters
    rw [spanIn, movedIn]
    split_ifs <;> omega

theorem pc_execAll {st : Pass1} (h : st.Good) {s : Section} {prog : Program}
    (hlt : st.counters.pc s + movedIn s st prog < 2 ^ 32) :
    (execAll st prog).counters.pc s = st.counters.pc s + movedIn s st prog := by
  induction prog generalizing st with
  | nil => rfl
  | cons p prog ih =>
    have hpc : (execItem st p.1 p.2).counters.pc s = st.counters.pc s +
        if st.counters.curSection = s then p.2.moves st.counters else 0 := by
      rw [execItem_pc h.counters]
      rw [movedIn] at hlt
      by_cases hs : st.counters.curSection = s
      · rw [if_pos hs] at hlt ⊢
        rw [if_pos hs.symm, u32, Nat.mod_eq_of_lt (by omega)]
      · rw [if_neg hs, if_neg (Ne.symm hs), Nat.add_zero]
    rw [movedIn] at hlt ⊢
    rw [execAll_cons, ih (h.exec p.1 p.2) (by omega), hpc, Nat.add_assoc]

/-- No `.align` stands behind anything that takes bytes in its section. -/
def AlignsFirst (prog : Program) : Prop :=
  ∀ pre line pow2 post, prog = pre ++ (line, .align pow2) :: post →
    spanIn (sectionAfter .text pre) .text pre = 0

theorem AlignsFirst.of_append {prog prog' : Program} (h : AlignsFirst (prog ++ prog')) :
    AlignsFirst prog :=
  fun pre line pow2 post hsplit => h pre line pow2 (post ++ prog') (by rw [hsplit]; simp)

theorem AlignsFirst.exact {prog : Program} (h : AlignsFirst prog) :
    (pass1Run prog).Exact ∧ ∀ s, sizeIn s (pass1Run prog).ir = spanIn s .text prog := by
  induction prog using List.reverseRecOn with
  | nil => exact ⟨⟨fun s => by cases s <;> rfl, fun s => trivial⟩, fun s => rfl⟩
  | append_singleton prog p ih =>
    obtain ⟨hexact, hsize⟩ := ih h.of_append
    have hcur := pass1Run_curSection prog
    have hspan : ∀ s, spanIn s .text (prog ++ [p]) =
        spanIn s .text prog + if sectionAfter .text prog = s then p.2.spans else 0 := fun s => by
      rw [spanIn_append, spanIn, spanIn, Nat.add_zero]
    rw [pass1Run_concat]
    obtain ⟨line, it⟩ := p
    by_cases ha : ∃ pow2, it = .align pow2
    · obtain ⟨pow2, rfl⟩ := ha
      have hz : passCurrentPc (pass1Run prog).counters = 0 := by
        rw [passCurrentPc, hexact.counters, hsize, hcur, h prog line pow2 [] rfl, u32, Nat.zero_mod]
      rw [show execItem (pass1Run prog) line (.align pow2) = pass1Run prog from
        alignDirective_of_zero hz pow2 line]
      exact ⟨hexact, fun s => by rw [hspan, hsize]; split_ifs <;> rfl⟩
    · by_cases hsect : it = .text ∨ it = .data
      · obtain rfl | rfl := hsect
        all_goals
          refine ⟨⟨fun s => ?_, hexact.addr⟩, fun s => ?_⟩
          · have hc := hexact.counters s
            cases s <;> exact hc
          · rw [hspan, ← hsize]
            split_ifs <;> rfl
      · push Not at hsect ha
        have hrec := execItem_records (pass1Run_good prog).counters line hsect.1 hsect.2 ha
        exact ⟨hrec.exact hexact, fun s => by rw [hrec.size, hspan, hsize, hcur]⟩

theorem passAlignCurrentPc_snd (c : Counters) (pow2 : ℕ) :
    (passAlignCurrentPc c pow2).2 = (passAlignCurrentPc c pow2).1.pc c.curSection := by
  have htext : ∀ n, ({ c with pcText := n } : Counters).pc .text = n := fun n => rfl
  have hdata : ∀ n, ({ c with pcData := n } : Counters).pc .data = n := fun n => rfl
  unfold passAlignCurrentPc
  cases h : c.curSection with
  | text => exact (htext _).symm
  | data => exact (hdata _).symm

/-- An `.align` that leaves exact books exact found its counter at zero. -/
theorem passCurrentPc_of_bookkept {st : Pass1} {pow2 : Int64} {line : ℤ}
    (hlt : passCurrentPc st.counters + alignPad st.counters pow2 < 2 ^ 32) (h : st.Bookkept)
    (h' : (alignDirective st pow2 line).Bookkept) : passCurrentPc st.counters = 0 := by
  have hadds := alignDirective_adds st pow2 line
  have hpc : (alignDirective st pow2 line).counters.pc st.counters.curSection =
      passCurrentPc st.counters + alignPad st.counters pow2 := by
    rw [hadds.counters, passAdvancePc_pc, if_pos rfl, u32, ← passCurrentPc, Nat.mod_eq_of_lt hlt]
  have hpad : (passAlignCurrentPc st.counters (pow2.toBitVec.setWidth 32).toNat).2 =
      passCurrentPc st.counters + alignPad st.counters pow2 :=
    (passAlignCurrentPc_snd _ _).trans hpc
  by_contra hne
  have hpos : 0 < passCurrentPc st.counters + alignPad st.counters pow2 := by omega
  -- the entry has the counter after the alignment as its size
  have hsize : sizeIn st.counters.curSection (alignDirective st pow2 line).ir =
      sizeIn st.counters.curSection st.ir +
        (passCurrentPc st.counters + alignPad st.counters pow2) := by
    have hir : (alignDirective st pow2 line).ir = st.ir ++ [
        { kind := .align, sect := st.counters.curSection, addr := passCurrentPc st.counters
          size := passCurrentPc st.counters + alignPad st.counters pow2, line }] := by
      simp only [alignDirective, hpad, if_pos hpos, irAppendAlign, u32, Nat.mod_eq_of_lt hlt,
        if_neg hpos.ne']
    rw [hir, sizeIn_append, sizeIn_singleton, if_pos rfl]
  have hbefore := h.counters st.counters.curSection
  have hafter := h'.counters st.counters.curSection
  rw [hpc, hsize, ← hbefore, ← passCurrentPc] at hafter
  omega

/-- While the totals stay below `2 ^ 32` the books are exact after every item if and only if no
`.align` stands behind anything that takes bytes in its section. -/
theorem bookkept_iff_alignsFirst (prog : Program) (hlt : ∀ s, movedIn s {} prog < 2 ^ 32) :
    (∀ pre post, prog = pre ++ post → (pass1Run pre).Bookkept) ↔ AlignsFirst prog := by
  constructor
  · intro h pre line pow2 post hsplit
    have hgood := pass1Run_good pre
    have hbefore := h pre ((line, .align pow2) :: post) hsplit
    have hafter := h (pre ++ [(line, .align pow2)]) post (by rw [hsplit]; simp)
    have hmoved := hlt (sectionAfter .text pre)
    rw [hsplit, movedIn_append, movedIn] at hmoved
    have hcur := pass1Run_curSection pre
    have hzero : ({} : Pass1).counters.pc (sectionAfter .text pre) = 0 := by
      cases sectionAfter .text pre <;> rfl
    have hpc : (execAll {} pre).counters.pc (sectionAfter .text pre) =
        ({} : Pass1).counters.pc (sectionAfter .text pre) +
          movedIn (sectionAfter .text pre) {} pre :=
      pc_execAll good_start (by rw [hzero]; omega)
    rw [hzero, Nat.zero_add, ← pass1Run] at hpc
    rw [← pass1Run, if_pos hcur, ← hpc] at hmoved
    have hspan := spanIn_le_movedIn good_start (sectionAfter .text pre) pre
    rw [← hpc, ← hcur] at hspan
    rw [pass1Run_concat] at hafter
    -- both sides of the `.align` are exact, so its entry says 0
    have hcounter : passCurrentPc (pass1Run pre).counters = 0 := by
      refine passCurrentPc_of_bookkept ?_ hbefore hafter
      rw [passCurrentPc, hcur]
      simp only [Item.moves] at hmoved
      omega
    rw [passCurrentPc] at hcounter
    rw [hcounter, hcur] at hspan
    exact Nat.le_zero.mp hspan
  · intro h pre post hsplit
    have hpre : AlignsFirst pre := AlignsFirst.of_append (hsplit ▸ h)
    obtain ⟨hexact, hsize⟩ := hpre.exact
    refine hexact.bookkept fun s => ?_
    have hspan := spanIn_le_movedIn good_start s pre
    have hmoved := hlt s
    rw [hsplit, movedIn_append] at hmoved
    rw [hsize]
    exact (hspan.trans (Nat.le_add_right _ _)).trans_lt hmoved

def alignedWord : Program :=
  [(1, .data), (2, .align 3), (3, .word 1), (4, .text), (5, .instruction .nop)]

theorem bookkept_iff_alignsFirst_alignedWord :
    (pass1Run alignedWord).Bookkept ∧ (pass1Run alignedWord).counters.pc .data = 4 := by
  refine ⟨(bookkept_iff_alignsFirst alignedWord fun s => by cases s <;> decide).mpr ?_ alignedWord
    [] (List.append_nil _).symm, by decide⟩
  intro pre line pow2 post hsplit
  rcases pre with _ | ⟨p, _ | ⟨q, pre⟩⟩ <;> simp [alignedWord] at hsplit
  · obtain ⟨rfl, -⟩ := hsplit
    rfl
  · have hmem : (line, Item.align pow2) ∈
        [(3, .word 1), (4, .text), (5, .instruction .nop)] := by
      rw [hsplit.2.2]
      simp
    simp at hmem

def paddedByte : Program := [(1, .data), (2, .byte 1), (3, .align 2)]

/-- The counter is at 4, but the sizes recorded are 1 and 4. -/
theorem paddedByte_not_bookkept :
    (∀ s, movedIn s {} paddedByte < 2 ^ 32) ∧
      (pass1Run paddedByte).counters.pc .data = 4 ∧ sizeIn .data (pass1Run paddedByte).ir = 5 ∧
      ¬ (pass1Run paddedByte).Bookkept := by
  have hpc : (pass1Run paddedByte).counters.pc .data = 4 := by decide
  have hsize : sizeIn .data (pass1Run paddedByte).ir = 5 := by decide
  refine ⟨fun s => by cases s <;> decide, hpc, hsize, fun h => ?_⟩
  have hdata := h.counters .data
  rw [hpc, hsize] at hdata
  cases hdata

end RvAssembler
