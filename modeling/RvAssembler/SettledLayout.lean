import RvAssembler.Emission

namespace RvAssembler

open Relax

theorem IrEntry.Sound.emitted_instr {e : IrEntry} (h : e.Sound) (hk : e.kind = .instr) :
    e.emitted = e.room := by
  have hf := h.forced hk
  rw [h.room hk, IrEntry.emitted]
  simp only [hk, nodeArgs, cMaterialize]
  cases hc : e.hasCChoice with
  | true => simp only [↓reduceIte, (h.chosen hc).fmt]
  | false =>
    simp only [Bool.false_eq_true, ↓reduceIte, hf]
    cases isCFmt e.fmt <;> rfl

theorem LaidOut.emitted {t : SymTab} {n : ℕ} {cs : List Cell} {ir : List IrEntry}
    (h : LaidOut t n cs ir) {e : IrEntry} (he : e ∈ ir) : e.emitted = e.room := by
  cases hk : e.kind with
  | instr => exact (h.sound e he).emitted_instr hk
  | data | align =>
    rw [← h.fixed e he (by rw [hk]; decide), IrEntry.emitted]
    simp only [hk]

theorem LaidOut.emittedIn_take {t : SymTab} {n : ℕ} {cs : List Cell} {ir : List IrEntry}
    (h : LaidOut t n cs ir) (s : Section) (k : ℕ) : emittedIn s (ir.take k) = roomIn s (ir.take k) := by
  rw [emittedIn, roomIn]
  congr 1
  refine List.map_congr_left fun e he => ?_
  rw [h.emitted (List.mem_of_mem_take he)]

theorem IrEntry.Sound.encoderImm_eq {cfg : Config} {t : SymTab} {e : IrEntry} (h : e.Sound)
    (ha : e.Aimed t) (hk : e.kind = .instr) {l : CString} (hl : e.label = some l)
    (hr : e.reloc = .boff ∨ e.reloc = .jtgt) {cs : List SinkCall} (hc : e.call cfg t = .ok cs) :
    0 ≤ searchSym t l ∧
      encoderImm t (nodeArgs e) e.addr e.line = .ok (i32 (searchSym t l - e.addr)) := by
  obtain ⟨c, hi, -⟩ := (IrEntry.call_instr hk).mp hc
  obtain ⟨⟨imm, himm⟩, -⟩ := instrCall_eq_ok hi
  cases hchoice : e.hasCChoice with
  | true =>
    -- a chosen form of a branch is one itself and has been validated
    have hch := h.chosen hchoice
    have hpc : isPcRel e.choice.op = true := by
      by_contra hno
      have hplain := (hch.plain (by simpa using hno)).2
      rw [h.branch hr] at hplain
      cases hplain
    obtain ⟨hpos, hdisp⟩ := ha hchoice hpc l hl
    refine ⟨hpos, ?_⟩
    simp [encoderImm, nodeArgs, cMaterialize, hchoice, hpc, hdisp]
  | false =>
    have hnone : e.reloc ≠ .none := (h.label l hl).2
    have hres : encoderImm t (nodeArgs e) e.addr e.line =
        sticky (resolveLabel t l e.reloc e.addr e.line) := by
      simp [encoderImm, nodeArgs, cMaterialize, hchoice, hl, hnone]
    have hok : ¬ searchSym t l < 0 := by
      intro hneg
      rw [hres, resolveLabel, if_pos hneg] at himm
      cases himm
    refine ⟨not_lt.mp hok, ?_⟩
    rw [hres, resolveLabel, if_neg hok]
    rcases hr with hr | hr <;> rw [hr] <;> rfl

theorem IrEntry.Sound.room_add_saved {e e' : IrEntry} (h : e.Sound) (h' : e'.Fresh)
    (hcore : e.core = e'.core) : e.room + (if e.hasCChoice then 2 else 0) = e'.room := by
  have hkind := IrEntry.kind_eq_of_core hcore
  have hlong : e.kind ≠ .instr → e.hasCChoice = false := by
    intro hk
    by_contra hc
    exact hk (h.chosen (by simpa using hc)).kind
  cases hk : e.kind with
  | align => simp [hlong (by rw [hk]; decide), IrEntry.room, hk, ← hkind]
  | data =>
    have hsize := congrArg IrEntry.size hcore
    simp only [IrEntry.core, hk, ← hkind, ↓reduceIte] at hsize
    simp [hlong (by rw [hk]; decide), IrEntry.room, hk, ← hkind, hsize]
  | instr =>
    have hforced := IrEntry.eq_of_core IrEntry.forcedSize (fun _ => rfl) hcore
    rw [h.room hk, h'.toSound.room (hkind.symm.trans hk), h'.noChoice, if_neg Bool.false_ne_true,
      ← hforced]
    cases hc : e.hasCChoice with
    | true => rw [(h.chosen hc).auto]; rfl
    | false => rfl

/-- The room of a layout and what its choices save make up the room pass 1 counted with. -/
theorem roomIn_add_saved {ir lay : List IrEntry} (hf : ∀ e ∈ ir, e.Fresh)
    (hs : ∀ e ∈ lay, e.Sound) (hcore : lay.map IrEntry.core = ir.map IrEntry.core) (s : Section) :
    roomIn s lay + 2 * lay.countP (fun e => e.sect = s && e.hasCChoice) = roomIn s ir := by
  induction lay generalizing ir with
  | nil => rw [List.map_eq_nil_iff.mp hcore.symm]; rfl
  | cons e lay ih =>
    cases ir with
    | nil => simp at hcore
    | cons e' ir =>
      rw [List.map_cons, List.map_cons, List.cons.injEq] at hcore
      obtain ⟨he, hlay⟩ := List.forall_mem_cons.mp hs
      obtain ⟨he', hir⟩ := List.forall_mem_cons.mp hf
      have hrest := ih hir hlay hcore.2
      have hsect := IrEntry.sect_eq_of_core hcore.1
      have hroom := he.room_add_saved he' hcore.1
      rw [roomIn_cons, roomIn_cons, ← hsect, List.countP_cons]
      by_cases hin : e.sect = s
      · cases hc : e.hasCChoice <;> simp only [hc, hin] at hroom ⊢ <;> simp at hroom ⊢ <;> omega
      · simp only [hin]
        simp
        omega

theorem roomIn_le_of_core {ir lay : List IrEntry} (hf : ∀ e ∈ ir, e.Fresh)
    (hs : ∀ e ∈ lay, e.Sound) (hcore : lay.map IrEntry.core = ir.map IrEntry.core) (s : Section) :
    roomIn s lay ≤ roomIn s ir := by
  rw [← roomIn_add_saved hf hs hcore s]
  exact Nat.le_add_right _ _

theorem roomIn_take_le (s : Section) (ir : List IrEntry) (k : ℕ) :
    roomIn s (ir.take k) ≤ roomIn s ir := by
  conv_rhs => rw [← List.take_append_drop k ir, roomIn_append]
  exact Nat.le_add_right _ _

theorem roomIn_take_succ {s : Section} {ir : List IrEntry} {k : ℕ} (hk : k < ir.length)
    (hs : ir[k].sect = s) : roomIn s (ir.take (k + 1)) = roomIn s (ir.take k) + ir[k].room := by
  rw [List.take_succ_eq_append_getElem hk, roomIn_append, roomIn_cons, if_pos hs, roomIn_nil,
    Nat.add_zero]

theorem IrEntry.Fresh.open {e : IrEntry} (h : e.Fresh) : e.Open :=
  ⟨h.toSound, h.noChoice, h.canCompress⟩

theorem pass2PlanChoices_sound (cfg : Config) {ir : List IrEntry} (h : ∀ e ∈ ir, e.Open) :
    ∀ e ∈ pass2PlanChoices cfg ir, e.Sound := by
  rw [pass2PlanChoices]
  split_ifs
  · exact fun e he => (h e he).toSound
  · rintro _ hmem
    obtain ⟨e, he, rfl⟩ := List.mem_map.mp hmem
    exact (h e he).plan cfg

theorem cells_saves (t : SymTab) {ir : List IrEntry} (h : ∀ e ∈ ir, e.Sound) :
    Saves 2 (cells t ir) := by
  intro c hc hshort
  obtain ⟨e, he, rfl⟩ := List.mem_map.mp hc
  have hch := (h e he).chosen hshort
  simp [IrEntry.cell, IrEntry.slot, hch.sect, hch.kind, hch.auto]

theorem plannedCells_saves (cfg : Config) (t : SymTab) {ir : List IrEntry}
    (h : ∀ e ∈ ir, e.Fresh) : Saves 2 (plannedCells cfg t ir) :=
  cells_saves t (pass2PlanChoices_sound cfg fun e he => (h e he).open)

/-- The rounds have settled exactly when every entry has the size it is emitted with. -/
theorem LaidOut.settled_iff {t : SymTab} {n : ℕ} {cs : List Cell} {ir : List IrEntry}
    (h : LaidOut t n cs ir) (hs : Saves 2 cs) :
    rounds (n + 1) cs = rounds n cs ↔ ∀ e ∈ ir, e.size = e.room := by
  have hsize : (rounds (n + 1) cs).map Cell.size = (rounds n cs).map Cell.size ↔
      ∀ e ∈ ir, e.sect = .text → e.size = e.room := by
    rw [← h.cells, ← h.size, RvAssembler.cells, List.map_map]
    refine List.map_inj_left.trans (forall₂_congr fun e he => ?_)
    rw [Function.comp_apply, (h.sound e he).cell_size]
    split_ifs with hsect
    · exact ⟨fun h _ => h.symm, fun h => (h hsect).symm⟩
    · exact ⟨fun _ h => absurd h hsect, fun _ => rfl⟩
  have hcells : rounds (n + 1) cs = rounds n cs ↔
      (rounds (n + 1) cs).map Cell.size = (rounds n cs).map Cell.size := by
    refine ⟨fun h => by rw [h], eq_of_size_eq (by decide) (hs.rounds _) (hs.rounds _) ?_⟩
    rw [map_slot_rounds, map_slot_rounds]
  rw [hcells, hsize]
  constructor
  · intro htext e he
    cases hsect : e.sect with
    | text => exact htext e he hsect
    | data => exact h.data.size e he hsect
  · exact fun h e he _ => h e he

theorem LaidOut.addr_eq {t : SymTab} {n : ℕ} {cs : List Cell} {ir : List IrEntry}
    (h : LaidOut t n cs ir) (hsize : ∀ e ∈ ir, e.size = e.room) {k : ℕ} (hk : k < ir.length) :
    ir[k].addr = u32 (roomIn ir[k].sect (ir.take k)) := by
  have hc : Consecutive ir[k].sect 0 ir := by
    cases ir[k].sect with
    | text => exact h.text
    | data => exact h.data.consecutive
  rw [hc.addr hk rfl, Nat.zero_add, sizeIn, roomIn]
  congr 2
  refine List.map_congr_left fun e he => ?_
  rw [hsize e (List.mem_of_mem_take he)]

/-- Every entry of a run is written where its address says with the bytes its size says, and
every branch or jump to a label is encoded with the distance from that address. -/
def EmittedAsLaidOut (cfg : Config) (t : SymTab) (ops : FileOps) (out : OutCtx)
    (ir : List IrEntry) : Prop :=
  ∀ (k : ℕ) (e : IrEntry), (pass2Layout cfg t ir)[k]? = some e →
    (stateBefore cfg t ops out ir k).written e.sect = e.addr ∧
      (stateBefore cfg t ops out ir (k + 1)).written e.sect = e.addr + e.size ∧
      (e.kind = .instr → e.reloc = .boff ∨ e.reloc = .jtgt → ∀ l, e.label = some l →
        encoderImm t (nodeArgs e) e.addr e.line = .ok (searchSym t l - e.addr))

/-- A run of pass 2 over what pass 1 recorded emits its layout if and only if the eighth round
of relaxation over the planned choices changes nothing. -/
theorem emittedAsLaidOut_iff_settled (cfg : Config) (ops : FileOps) (out : OutCtx) (prog : Program)
    (hsize : ∀ s, roomIn s (pass1Run prog).ir < 2 ^ 31)
    (hrun : (pass2Run cfg (pass1Run prog).symtab ops (pass2Start out) (pass1Run prog).ir).2 = true) :
    EmittedAsLaidOut cfg (pass1Run prog).symtab ops out (pass1Run prog).ir ↔
      rounds 8 (plannedCells cfg (pass1Run prog).symtab (pass1Run prog).ir) =
        rounds 7 (plannedCells cfg (pass1Run prog).symtab (pass1Run prog).ir) := by
  have hgood := pass1Run_good prog
  generalize pass1Run prog = st at hsize hrun hgood ⊢
  obtain ⟨hl, hcore⟩ := pass2Layout_laidOut cfg st.symtab hgood.ir
  obtain ⟨hcalls, hwritten⟩ := pass2Run_written hgood.ir hrun
  rw [hl.settled_iff (plannedCells_saves cfg st.symtab hgood.ir)]
  simp only [EmittedAsLaidOut, hwritten, hl.emittedIn_take]
  have hreach : ∀ s, roomIn s (pass2Layout cfg st.symtab st.ir) < 2 ^ 31 := fun s =>
    (roomIn_le_of_core hgood.ir hl.sound hcore s).trans_lt (hsize s)
  generalize pass2Layout cfg st.symtab st.ir = lay at hl hcalls hreach ⊢
  constructor
  · intro h e he
    obtain ⟨k, hk, rfl⟩ := List.mem_iff_getElem.mp he
    -- the entry ends where it is laid out to end, so it has the size it was given
    obtain ⟨hbefore, hafter, -⟩ := h k _ (List.getElem?_eq_getElem hk)
    rw [roomIn_take_succ hk rfl, hbefore] at hafter
    exact (Nat.add_left_cancel hafter).symm
  · intro h k e he
    obtain ⟨hk, rfl⟩ := List.getElem?_eq_some_iff.mp he
    have hmem : lay[k] ∈ lay := List.getElem_mem hk
    have hlt : roomIn lay[k].sect (lay.take k) < 2 ^ 31 :=
      (roomIn_take_le _ lay k).trans_lt (hreach _)
    have haddr : lay[k].addr = roomIn lay[k].sect (lay.take k) := by
      rw [hl.addr_eq h hk, u32, Nat.mod_eq_of_lt (hlt.trans (by decide))]
    refine ⟨haddr.symm, ?_, ?_⟩
    · rw [roomIn_take_succ hk rfl, h _ hmem, haddr]
    · intro hkind hr l hlabel
      -- value and address are both below `2 ^ 31`
      obtain ⟨cs, hc⟩ := hcalls _ hmem
      obtain ⟨hpos, himm⟩ :=
        (hl.sound _ hmem).encoderImm_eq (hl.aimed _ hmem) hkind hlabel hr hc
      have hvalue : searchSym st.symtab l < 2 ^ 31 := by
        rw [searchSym_eq]
        cases hv : st.symtab.toMap l with
        | none => decide
        | some v => exact hgood.values l v hv
      rw [himm, i32_eq]
      congr 1
      omega

def letter (n : ℕ) : Identifier where
  bytes := [UInt8.ofNat (97 + n % 26)]
  nulFree := by
    have hn : n % 26 < 26 := Nat.mod_lt n (by decide)
    generalize n % 26 = m at hn
    revert m
    decide
  nonempty := by simp

def reg (n : ℕ) : Reg := ⟨n % 32, Nat.mod_lt n (by decide)⟩

/-- A loop of a compressed instruction, a full one and a branch, and a `c.nop` behind it. -/
def countdown : Program :=
  [(1, .label (letter 0)),
    (2, .instruction (.addi (reg 8) (reg 8) (-1))),
    (3, .instruction (.add (reg 5) (reg 6) (reg 7))),
    (4, .instruction (.bneLabel (reg 8) (reg 0) (letter 0))),
    (5, .instruction .cNop)]

theorem emittedAsLaidOut_iff_settled_countdown :
    EmittedAsLaidOut (passSetArch 32 false true true) (pass1Run countdown).symtab allOps
      (outSetFile (outBegin .raw 32) {}) (pass1Run countdown).ir := by
  have hfresh := (pass1Run_good countdown).ir
  refine (emittedAsLaidOut_iff_settled _ _ _ countdown ?_ (by decide +kernel)).mpr ?_
  · intro s
    cases s <;> decide +kernel
  · exact ((pass2Layout_laidOut _ _ hfresh).1.settled_iff (plannedCells_saves _ _ hfresh)).mpr
      (by decide +kernel)

/-- Eight branches back to eight places, each out of the reach of `c.beqz` once the one before
it takes four bytes. -/
def cascade : Program :=
  (1, .instruction .cNop) ::
    (List.range 8).flatMap (fun n =>
      [(1, .label (letter n)), (1, .instruction (.add (reg 5) (reg 6) (reg 7)))]) ++
    List.replicate 56 (1, .instruction (.add (reg 5) (reg 6) (reg 7))) ++
    (1, .instruction .cNop) ::
    (List.range 8).map fun n => (1, .instruction (.beqLabel (reg 8) (reg 0) (letter n)))

/-- The last branch is laid out with two bytes and written with four. -/
theorem cascade_not_emittedAsLaidOut :
    (∀ s, roomIn s (pass1Run cascade).ir < 2 ^ 31) ∧
      (pass2Run (passSetArch 32 false true true) (pass1Run cascade).symtab allOps
        (pass2Start (outSetFile (outBegin .raw 32) {})) (pass1Run cascade).ir).2 = true ∧
      ¬ EmittedAsLaidOut (passSetArch 32 false true true) (pass1Run cascade).symtab allOps
        (outSetFile (outBegin .raw 32) {}) (pass1Run cascade).ir := by
  refine ⟨fun s => by cases s <;> decide +kernel, by decide +kernel, fun h => ?_⟩
  have hlast : ((pass2Layout (passSetArch 32 false true true) (pass1Run cascade).symtab
      (pass1Run cascade).ir)[73]?).map (fun e => (e.sect, e.addr + e.size)) = some (.text, 290) := by
    decide +kernel
  obtain ⟨e, he, hend⟩ := Option.map_eq_some_iff.mp hlast
  obtain ⟨hsect, hend⟩ := Prod.mk.inj hend
  have hwritten : (stateBefore (passSetArch 32 false true true) (pass1Run cascade).symtab allOps
      (outSetFile (outBegin .raw 32) {}) (pass1Run cascade).ir 74).written .text = 292 := by
    decide +kernel
  have hsame := (h 73 e he).2.1
  rw [hsect, hend, hwritten] at hsame
  cases hsame

end RvAssembler
