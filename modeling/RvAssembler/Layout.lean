import RvAssembler.Recorded
import RvAssembler.Lib.Relax

namespace RvAssembler

open Relax

def choiceFits (t : SymTab) (op : Opcode) (label : Option CString) (addr : ℕ) : Bool :=
  !isPcRel op ||
    match label with
    | none => true
    | some l =>
      match pass2PeekLabelAddr t l with
      | none => false
      | some toAddr => pass2ChoiceRangeOk op (pass2ComputeDisp addr toAddr)

/-- An entry of `.text` by its sizes; the entries of `.data` take no part. -/
def IrEntry.slot (t : SymTab) (e : IrEntry) : Slot where
  long :=
    if e.sect = .text then
      match e.kind with
      | .instr => if e.forcedSize = .two then 2 else 4
      | .data => e.size
      | .align => 0
    else 0
  short := 2
  fits pos := choiceFits t e.choice.op e.choice.label (u32 pos)

def IrEntry.cell (t : SymTab) (e : IrEntry) : Cell := ⟨e.slot t, e.hasCChoice⟩

def cells (t : SymTab) (ir : List IrEntry) : List Cell := ir.map (IrEntry.cell t)

theorem cells_cons (t : SymTab) (e : IrEntry) (ir : List IrEntry) :
    cells t (e :: ir) = e.cell t :: cells t ir := List.map_cons

theorem IrEntry.Sound.room {e : IrEntry} (h : e.Sound) (hk : e.kind = .instr) :
    e.room = if e.hasCChoice then 2 else if e.forcedSize = .two then 2 else 4 := by
  have hf := h.forced hk
  rw [IrEntry.room]
  simp only [hk]
  cases hc : e.hasCChoice with
  | true =>
    have ha := (h.chosen hc).auto
    simp [pass2NodeSizeNow, irIsExplicitC, ha, hc]
  | false =>
    cases hs : e.forcedSize with
    | four => exact absurd (hf.symm.trans hs) (by split_ifs <;> decide)
    | two => simp [pass2NodeSizeNow, hs]
    | auto => simp [pass2NodeSizeNow, irIsExplicitC, hs, hc]

theorem IrEntry.Sound.cell_size {e : IrEntry} (h : e.Sound) (t : SymTab) :
    (e.cell t).size = if e.sect = .text then e.room else 0 := by
  rw [Cell.size, IrEntry.cell]
  cases hc : e.hasCChoice with
  | true =>
    have hch := h.chosen hc
    rw [if_pos rfl, if_pos hch.sect, h.room hch.kind, if_pos hc]
    rfl
  | false =>
    rw [if_neg Bool.false_ne_true, IrEntry.slot]
    by_cases hs : e.sect = .text
    · simp only [if_pos hs]
      cases hk : e.kind with
      | instr => rw [h.room hk, hc, if_neg Bool.false_ne_true]
      | data | align => simp only [IrEntry.room, hk]
    · simp only [if_neg hs]

/-- What no step of the layout changes in an entry. -/
def IrEntry.core (e : IrEntry) : IrEntry :=
  { e with addr := 0, size := if e.kind = .data then e.size else 0, hasCChoice := false, choice := {} }

theorem IrEntry.eq_of_core {α : Type} (f : IrEntry → α) (hf : ∀ e : IrEntry, f e.core = f e)
    {e e' : IrEntry} (h : e.core = e'.core) : f e = f e' := by
  rw [← hf e, h, hf]

theorem IrEntry.kind_eq_of_core {e e' : IrEntry} (h : e.core = e'.core) : e.kind = e'.kind :=
  IrEntry.eq_of_core IrEntry.kind (fun _ => rfl) h

theorem IrEntry.sect_eq_of_core {e e' : IrEntry} (h : e.core = e'.core) : e.sect = e'.sect :=
  IrEntry.eq_of_core IrEntry.sect (fun _ => rfl) h

section

variable {ir lay : List IrEntry}

theorem exists_core_of_mem (hcore : lay.map IrEntry.core = ir.map IrEntry.core) {e : IrEntry}
    (he : e ∈ lay) : ∃ e' ∈ ir, e.core = e'.core := by
  have hmem : e.core ∈ ir.map IrEntry.core := by
    rw [← hcore]
    exact List.mem_map_of_mem he
  obtain ⟨e', he', heq⟩ := List.mem_map.mp hmem
  exact ⟨e', he', heq.symm⟩

theorem exists_core_of_getElem? (hcore : lay.map IrEntry.core = ir.map IrEntry.core) {i : ℕ}
    {e' : IrEntry} (he' : ir[i]? = some e') : ∃ e, lay[i]? = some e ∧ e.core = e'.core := by
  have hi : (lay.map IrEntry.core)[i]? = some e'.core := by
    rw [hcore, List.getElem?_map, he', Option.map_some]
  rw [List.getElem?_map] at hi
  exact Option.map_eq_some_iff.mp hi

theorem core_eq_of_getElem? (hcore : lay.map IrEntry.core = ir.map IrEntry.core) {i : ℕ}
    {e e' : IrEntry} (he : lay[i]? = some e) (he' : ir[i]? = some e') : e.core = e'.core := by
  obtain ⟨e₁, he₁, hsame⟩ := exists_core_of_getElem? hcore he'
  obtain rfl : e = e₁ := Option.some.inj (he.symm.trans he₁)
  exact hsame

end

def IrEntry.placed (e : IrEntry) (pc : ℕ) : IrEntry := { e with size := e.room, addr := pc }

theorem assignFrom_cons (sect : Section) (off : ℕ) {e : IrEntry} (h : e.Sound)
    (es : List IrEntry) :
    assignFrom sect (u32 off) (e :: es) =
      if e.sect = sect then e.placed (u32 off) :: assignFrom sect (u32 (off + e.room)) es
      else e :: assignFrom sect (u32 off) es := by
  rw [assignFrom]
  by_cases hs : e.sect = sect
  · rw [if_neg (not_not.mpr hs), if_pos hs]
    cases hk : e.kind with
    | data =>
      simp only [IrEntry.placed, IrEntry.room, hk, u32_u32_add]
    | align =>
      have himm : (BitVec.ofInt 32 e.imm).toNat = 0 := by rw [h.align hk]; rfl
      simp only [IrEntry.placed, IrEntry.room, hk, himm, Nat.add_zero]
      rfl
    | instr =>
      simp only [IrEntry.placed, IrEntry.room, hk, u32_u32_add]
  · rw [if_pos hs, if_neg hs]

theorem IrEntry.Sound.placed {e : IrEntry} (h : e.Sound) (pc : ℕ) : (e.placed pc).Sound := by
  refine ⟨h.align, fun hk => ?_, h.forced, h.noLabel, h.label, h.branch, fun hc => ?_⟩
  · have hd := h.data hk
    have hr : e.room = e.size := by rw [IrEntry.room]; simp only [show e.kind = .data from hk]
    simpa only [IrEntry.placed, hr] using hd
  · have hch := h.chosen hc
    exact ⟨hch.kind, hch.sect, hch.auto, hch.fmt, hch.operand, hch.plain⟩

theorem IrEntry.core_placed (e : IrEntry) (pc : ℕ) : (e.placed pc).core = e.core := by
  cases hk : e.kind <;> simp [IrEntry.core, IrEntry.placed, IrEntry.room, hk]

theorem IrEntry.cell_placed (t : SymTab) (e : IrEntry) (pc : ℕ) :
    (e.placed pc).cell t = e.cell t := by
  simp only [IrEntry.cell, IrEntry.slot, IrEntry.placed, IrEntry.room]
  cases hk : e.kind <;> rfl

/-- Entries whose addresses in a section are those their sizes lead to. -/
def Consecutive (sect : Section) : ℕ → List IrEntry → Prop
  | _, [] => True
  | off, e :: es =>
    (e.sect = sect → e.addr = u32 off) ∧
      Consecutive sect (off + if e.sect = sect then e.size else 0) es

def sizeIn (s : Section) (ir : List IrEntry) : ℕ :=
  (ir.map fun e => if e.sect = s then e.size else 0).sum

theorem Consecutive.addr {sect : Section} {off : ℕ} {ir : List IrEntry}
    (h : Consecutive sect off ir) {k : ℕ} (hk : k < ir.length) (hs : ir[k].sect = sect) :
    ir[k].addr = u32 (off + sizeIn sect (ir.take k)) := by
  induction ir generalizing off k with
  | nil => simp at hk
  | cons e es ih =>
    cases k with
    | zero => simpa [sizeIn] using h.1 hs
    | succ k =>
      rw [List.getElem_cons_succ] at hs ⊢
      rw [ih h.2 (by simpa using hk) hs, List.take_succ_cons, sizeIn, sizeIn, List.map_cons,
        List.sum_cons, Nat.add_assoc]

theorem Consecutive.map {sect : Section} {off : ℕ} {ir : List IrEntry}
    (h : Consecutive sect off ir) {f : IrEntry → IrEntry}
    (hf : ∀ e ∈ ir, (f e).sect = e.sect ∧ (e.sect = sect → (f e).addr = e.addr ∧ (f e).size = e.size)) :
    Consecutive sect off (ir.map f) := by
  induction ir generalizing off with
  | nil => exact h
  | cons e es ih =>
    obtain ⟨hs, he⟩ := hf e List.mem_cons_self
    have hes := ih h.2 fun e he => hf e (List.mem_cons_of_mem _ he)
    refine ⟨fun hsect => ?_, ?_⟩
    · rw [(he (hs ▸ hsect)).1]
      exact h.1 (hs ▸ hsect)
    · rw [hs]
      by_cases hsect : e.sect = sect
      · simpa only [if_pos hsect, (he hsect).2] using hes
      · simpa only [if_neg hsect] using hes

/-- What `pass2_assign_addresses` makes of the entries. -/
structure Assigned (t : SymTab) (sect : Section) (off : ℕ) (ir ir' : List IrEntry) : Prop where
  sound : ∀ e ∈ ir', e.Sound
  core : ir'.map IrEntry.core = ir.map IrEntry.core
  cells : cells t ir' = cells t ir
  consecutive : Consecutive sect off ir'
  others : ∀ s ≠ sect, ∀ off', Consecutive s off' ir → Consecutive s off' ir'
  kept : ∀ e ∈ ir', e.sect ≠ sect → e ∈ ir
  size : ∀ e ∈ ir', e.sect = sect → e.size = e.room

theorem assignFrom_assigned (t : SymTab) (sect : Section) (off : ℕ) {ir : List IrEntry}
    (h : ∀ e ∈ ir, e.Sound) : Assigned t sect off ir (assignFrom sect (u32 off) ir) := by
  induction ir generalizing off with
  | nil =>
    exact ⟨by simp [assignFrom], rfl, rfl, trivial, fun _ _ _ h => h, by simp [assignFrom],
      by simp [assignFrom]⟩
  | cons e es ih =>
    have he := h e List.mem_cons_self
    have hes : ∀ e ∈ es, e.Sound := fun e hmem => h e (List.mem_cons_of_mem _ hmem)
    rw [assignFrom_cons sect off he]
    by_cases hs : e.sect = sect
    · have ih := ih (off + e.room) hes
      rw [if_pos hs]
      constructor
      case sound => exact List.forall_mem_cons.mpr ⟨he.placed _, ih.sound⟩
      case core => rw [List.map_cons, List.map_cons, e.core_placed, ih.core]
      case cells => exact congrArg₂ List.cons (e.cell_placed t _) ih.cells
      case consecutive =>
        refine ⟨fun _ => rfl, ?_⟩
        rw [if_pos (show (e.placed (u32 off)).sect = sect from hs)]
        exact ih.consecutive
      case others =>
        -- the other section passes over the entry, as it did before
        intro s hne off' hc
        have hes' : (e.placed (u32 off)).sect ≠ s := fun h => hne (h.symm.trans hs)
        refine ⟨fun h => absurd h hes', ?_⟩
        rw [if_neg hes']
        have hc2 := hc.2
        rw [if_neg (show e.sect ≠ s from hes')] at hc2
        exact ih.others s hne _ hc2
      case kept =>
        exact List.forall_mem_cons.mpr ⟨fun h => absurd hs h, fun e he hne =>
          List.mem_cons_of_mem _ (ih.kept e he hne)⟩
      case size =>
        refine List.forall_mem_cons.mpr ⟨fun _ => ?_, ih.size⟩
        rw [IrEntry.placed, IrEntry.room]
        cases hk : e.kind <;> rfl
    · have ih := ih off hes
      rw [if_neg hs]
      constructor
      case sound => exact List.forall_mem_cons.mpr ⟨he, ih.sound⟩
      case core => rw [List.map_cons, List.map_cons, ih.core]
      case cells => exact congrArg₂ List.cons rfl ih.cells
      case consecutive =>
        refine ⟨fun h => absurd h hs, ?_⟩
        rw [if_neg hs]
        exact ih.consecutive
      case others => exact fun s hne off' hc => ⟨hc.1, ih.others s hne _ hc.2⟩
      case kept =>
        exact List.forall_mem_cons.mpr ⟨fun _ => List.mem_cons_self, fun e he hne =>
          List.mem_cons_of_mem _ (ih.kept e he hne)⟩
      case size => exact List.forall_mem_cons.mpr ⟨fun h => absurd h hs, ih.size⟩

/-- The address a label stands for, if an `int32_t` can tell it from a missing one. -/
theorem pass2PeekLabelAddr_eq_some {t : SymTab} {l : CString} {toAddr : ℕ}
    (h : pass2PeekLabelAddr t l = some toAddr) :
    0 ≤ searchSym t l ∧ toAddr = u32 (searchSym t l).toNat := by
  simp only [pass2PeekLabelAddr] at h
  split_ifs at h with hneg
  exact ⟨not_lt.mp hneg, (Option.some.inj h).symm⟩

theorem pass2ComputeDisp_eq {x : ℤ} (h : 0 ≤ x) (addr : ℕ) :
    pass2ComputeDisp addr (u32 x.toNat) = i32 (x - addr) := by
  simp only [pass2ComputeDisp, i32_eq, u32]
  omega

/-- A chosen branch or jump to a label holds the displacement from its address. -/
def IrEntry.Aimed (t : SymTab) (e : IrEntry) : Prop :=
  e.hasCChoice = true → isPcRel e.choice.op = true → ∀ l, e.label = some l →
    0 ≤ searchSym t l ∧ e.choice.imm = i32 (searchSym t l - e.addr)

def IrEntry.fits (t : SymTab) (e : IrEntry) : Bool :=
  choiceFits t e.choice.op e.choice.label e.addr

def IrEntry.validated (e : IrEntry) (keep : Bool) (imm : ℤ) : IrEntry :=
  { e with hasCChoice := keep, choice := { e.choice with imm } }

theorem IrEntry.validated_self {e : IrEntry} {keep : Bool} (h : e.hasCChoice = keep) :
    e.validated keep e.choice.imm = e := by
  subst h
  rfl

/-- What `pass2_validate_compressed_ranges` makes of an entry. -/
theorem validateEntry_spec (t : SymTab) {e : IrEntry} (h : e.Sound) :
    ∃ imm, validateEntry t .text e =
        (e.validated (e.hasCChoice && e.fits t) imm, e.hasCChoice && !e.fits t) ∧
      (e.validated (e.hasCChoice && e.fits t) imm).Aimed t := by
  rw [validateEntry]
  cases hc : e.hasCChoice with
  | false =>
    refine ⟨e.choice.imm, ?_, by simp [IrEntry.Aimed, IrEntry.validated]⟩
    rw [Bool.false_and, Bool.false_and, IrEntry.validated_self hc]
    split_ifs <;> simp_all
  | true =>
    have hch := h.chosen hc
    rw [if_neg (not_not.mpr hch.sect)]
    simp only [Bool.not_true, Bool.false_eq_true, ↓reduceIte, Bool.true_and, validateChoice]
    cases hpc : isPcRel e.choice.op with
    | false =>
      -- only branches and jumps can be out of reach
      have hfits : e.fits t = true := by simp [IrEntry.fits, choiceFits, hpc]
      refine ⟨e.choice.imm, ?_, by simp [IrEntry.Aimed, IrEntry.validated, hpc]⟩
      rw [hfits, IrEntry.validated_self hc]
      rfl
    | true =>
      obtain ⟨hl, hr⟩ := hch.operand hpc
      rcases Option.eq_none_or_eq_some e.label with hlabel | ⟨l, hlabel⟩
      · have hreloc := h.noLabel hlabel
        have hfits : e.fits t = true := by simp [IrEntry.fits, choiceFits, hl, hlabel]
        refine ⟨e.choice.imm, ?_, by simp [IrEntry.Aimed, IrEntry.validated, hlabel]⟩
        rw [hfits, IrEntry.validated_self hc]
        simp [choiceTarget, hl, hr, hlabel, hreloc]
      · have hne := (h.label l hlabel).1
        cases hpeek : pass2PeekLabelAddr t l with
        | none =>
          -- a missing label drops the choice
          have hfits : e.fits t = false := by
            simp [IrEntry.fits, choiceFits, hl, hlabel, hpeek, hpc]
          have htarget : choiceTarget t e = some none := by
            simp [choiceTarget, hl, hlabel, hne, hpeek]
          refine ⟨e.choice.imm, ?_, by simp [IrEntry.Aimed, IrEntry.validated, hfits]⟩
          rw [hfits, htarget]
          rfl
        | some toAddr =>
          obtain ⟨hpos, rfl⟩ := pass2PeekLabelAddr_eq_some hpeek
          have hdisp := pass2ComputeDisp_eq hpos e.addr
          have hfits : e.fits t = pass2ChoiceRangeOk e.choice.op (i32 (searchSym t l - e.addr)) := by
            simp [IrEntry.fits, choiceFits, hl, hlabel, hpeek, hpc, hdisp]
          have htarget : choiceTarget t e = some (some (u32 (searchSym t l).toNat)) := by
            simp [choiceTarget, hl, hlabel, hne, hpeek]
          have hkeep : { e with choice := { e.choice with imm := i32 (searchSym t l - e.addr) } } =
              e.validated true (i32 (searchSym t l - e.addr)) := by
            rw [IrEntry.validated, ← hc]
          rw [htarget, hfits]
          simp only [hdisp]
          -- out of reach the choice is dropped, in reach it takes the displacement
          cases pass2ChoiceRangeOk e.choice.op (i32 (searchSym t l - e.addr)) with
          | false => exact ⟨e.choice.imm, rfl, by simp [IrEntry.Aimed, IrEntry.validated]⟩
          | true =>
            refine ⟨i32 (searchSym t l - e.addr), by rw [← hkeep]; rfl, ?_⟩
            intro _ _ l' hl'
            have hl' : e.label = some l' := hl'
            rw [hlabel, Option.some.injEq] at hl'
            rw [← hl']
            exact ⟨hpos, rfl⟩

theorem IrEntry.Sound.validated {e : IrEntry} (h : e.Sound) {keep : Bool} (imm : ℤ)
    (hk : keep = true → e.hasCChoice = true) : (e.validated keep imm).Sound := by
  refine ⟨h.align, h.data, h.forced, h.noLabel, h.label, h.branch, fun hc => ?_⟩
  have hch := h.chosen (hk hc)
  exact ⟨hch.kind, hch.sect, hch.auto, hch.fmt, hch.operand, hch.plain⟩

/-- The entries of a section stand one behind the other with the bytes they take. -/
structure Packed (sect : Section) (off : ℕ) (ir : List IrEntry) : Prop where
  consecutive : Consecutive sect off ir
  size : ∀ e ∈ ir, e.sect = sect → e.size = e.room

/-- Validation is the settling of each cell where it stands. -/
theorem cells_map_validateEntry (t : SymTab) {ir : List IrEntry} {off : ℕ}
    (hs : ∀ e ∈ ir, e.Sound) (h : Packed .text off ir) :
    cells t (ir.map fun e => (validateEntry t .text e).1) = roundFrom off (cells t ir) := by
  induction ir generalizing off with
  | nil => rfl
  | cons e es ih =>
    have he := hs e List.mem_cons_self
    obtain ⟨imm, hval, -⟩ := validateEntry_spec t he
    have hcell : (validateEntry t .text e).1.cell t = (e.cell t).settle off := by
      rw [hval]
      have hkeep : (e.hasCChoice && e.fits t) = (e.hasCChoice && (e.slot t).fits off) := by
        cases hc : e.hasCChoice with
        | false => rw [Bool.false_and, Bool.false_and]
        | true =>
          have haddr := h.consecutive.1 (he.chosen hc).sect
          simp only [IrEntry.fits, IrEntry.slot, haddr]
      rw [hkeep]
      rfl
    have hsize : (e.cell t).size = if e.sect = .text then e.size else 0 := by
      rw [he.cell_size]
      split_ifs with hsect
      · exact (h.size e List.mem_cons_self hsect).symm
      · rfl
    have hes := ih (fun e he => hs e (List.mem_cons_of_mem _ he))
      ⟨h.consecutive.2, fun e he => h.size e (List.mem_cons_of_mem _ he)⟩
    rw [← hsize] at hes
    rw [List.map_cons, cells_cons, hcell, hes, cells_cons, roundFrom]

theorem cells_of_unchanged (t : SymTab) {ir : List IrEntry} (hs : ∀ e ∈ ir, e.Sound)
    (h : (ir.any fun e => (validateEntry t .text e).2) = false) :
    cells t (ir.map fun e => (validateEntry t .text e).1) = cells t ir := by
  rw [cells, List.map_map]
  refine List.map_congr_left fun e he => ?_
  obtain ⟨imm, hval, -⟩ := validateEntry_spec t (hs e he)
  have hsame : (e.hasCChoice && !e.fits t) = false := by
    have := List.any_eq_false.mp h e he
    rwa [hval, Bool.not_eq_true] at this
  have hkeep : (e.hasCChoice && e.fits t) = e.hasCChoice := by
    cases hc : e.hasCChoice <;> simp_all
  rw [Function.comp_apply, hval, hkeep]
  rfl

/-- Entries after a layout: the last of `n + 1` rounds over cells placed them. -/
structure LaidOut (t : SymTab) (n : ℕ) (cs : List Cell) (ir : List IrEntry) : Prop where
  sound : ∀ e ∈ ir, e.Sound
  text : Consecutive .text 0 ir
  data : Packed .data 0 ir
  aimed : ∀ e ∈ ir, e.Aimed t
  fixed : ∀ e ∈ ir, e.kind ≠ .instr → e.size = e.room
  size : (ir.map fun e => if e.sect = .text then e.size else 0) = (rounds n cs).map Cell.size
  cells : cells t ir = rounds (n + 1) cs

theorem validateEntry_validated (t : SymTab) {e : IrEntry} (h : e.Sound) :
    ∃ keep imm, (validateEntry t .text e).1 = e.validated keep imm ∧
      (keep = true → e.hasCChoice = true) ∧ (e.validated keep imm).Aimed t := by
  obtain ⟨imm, hval, haim⟩ := validateEntry_spec t h
  exact ⟨_, imm, by rw [hval], fun hk => ((Bool.and_eq_true _ _).mp hk).1, haim⟩

theorem validateEntry_data (t : SymTab) {e : IrEntry} (h : e.sect = .data) :
    (validateEntry t .text e).1 = e := by
  rw [validateEntry, if_pos (by rw [h]; decide)]

theorem Consecutive.validate (t : SymTab) {s : Section} {off : ℕ} {ir : List IrEntry}
    (h : Consecutive s off ir) (hs : ∀ e ∈ ir, e.Sound) :
    Consecutive s off (ir.map fun e => (validateEntry t .text e).1) := by
  apply h.map
  intro e he
  obtain ⟨keep, imm, hval, -⟩ := validateEntry_validated t (hs e he)
  rw [hval]
  exact ⟨rfl, fun _ => ⟨rfl, rfl⟩⟩

theorem map_core_validate (t : SymTab) {ir : List IrEntry} (hs : ∀ e ∈ ir, e.Sound) :
    (ir.map fun e => (validateEntry t .text e).1).map IrEntry.core = ir.map IrEntry.core := by
  rw [List.map_map]
  apply List.map_congr_left
  intro e he
  obtain ⟨keep, imm, hval, -⟩ := validateEntry_validated t (hs e he)
  rw [Function.comp_apply, hval]
  rfl

theorem LaidOut.of_validate (t : SymTab) {cs : List Cell} {ir : List IrEntry}
    (hs : ∀ e ∈ ir, e.Sound) (htext : Packed .text 0 ir) (hdata : Packed .data 0 ir)
    (hcells : RvAssembler.cells t ir = cs) :
    LaidOut t 0 cs (ir.map fun e => (validateEntry t .text e).1) := by
  have hsize : ∀ e ∈ ir, e.size = e.room := fun e he => by
    cases hsect : e.sect with
    | text => exact htext.size e he hsect
    | data => exact hdata.size e he hsect
  constructor
  case text => exact htext.consecutive.validate t hs
  case sound =>
    rintro _ hmem
    obtain ⟨e, he, rfl⟩ := List.mem_map.mp hmem
    obtain ⟨keep, imm, hval, hk, -⟩ := validateEntry_validated t (hs e he)
    rw [hval]
    exact (hs e he).validated imm hk
  case data =>
    refine ⟨hdata.consecutive.validate t hs, ?_⟩
    rintro _ hmem hsect
    obtain ⟨e, he, rfl⟩ := List.mem_map.mp hmem
    obtain ⟨keep, imm, hval, -⟩ := validateEntry_validated t (hs e he)
    rw [hval] at hsect
    rw [validateEntry_data t (show e.sect = .data from hsect)]
    exact hdata.size e he hsect
  case aimed =>
    rintro _ hmem
    obtain ⟨e, he, rfl⟩ := List.mem_map.mp hmem
    obtain ⟨keep, imm, hval, -, haim⟩ := validateEntry_validated t (hs e he)
    rw [hval]
    exact haim
  case fixed =>
    -- only the room of an instruction depends on its choice
    rintro _ hmem
    obtain ⟨e, he, rfl⟩ := List.mem_map.mp hmem
    obtain ⟨keep, imm, hval, -⟩ := validateEntry_validated t (hs e he)
    rw [hval]
    intro hk
    have hroom := hsize e he
    simp only [IrEntry.room, IrEntry.validated] at hk hroom ⊢
    rw [hroom]
    cases hkind : e.kind <;> simp_all
  case size =>
    rw [rounds_zero, ← hcells, RvAssembler.cells, List.map_map, List.map_map]
    apply List.map_congr_left
    intro e he
    obtain ⟨keep, imm, hval, -⟩ := validateEntry_validated t (hs e he)
    simp only [Function.comp_apply, hval, (hs e he).cell_size]
    by_cases hsect : e.sect = .text
    · rw [if_pos hsect, if_pos (show (e.validated keep imm).sect = .text from hsect)]
      exact hsize e he
    · rw [if_neg hsect, if_neg (show (e.validated keep imm).sect ≠ .text from hsect)]
  case cells =>
    rw [cells_map_validateEntry t hs htext, hcells]
    rfl

theorem round_laidOut (t : SymTab) {ir : List IrEntry} (hs : ∀ e ∈ ir, e.Sound)
    (hd : Packed .data 0 ir) :
    LaidOut t 0 (cells t ir)
        ((assignFrom .text 0 ir).map fun e => (validateEntry t .text e).1) ∧
      ((assignFrom .text 0 ir).map fun e => (validateEntry t .text e).1).map IrEntry.core =
        ir.map IrEntry.core := by
  have ha : Assigned t .text 0 ir (assignFrom .text 0 ir) := assignFrom_assigned t .text 0 hs
  have hdata : Packed .data 0 (assignFrom .text 0 ir) :=
    ⟨ha.others .data (by decide) 0 hd.consecutive, fun e he hsect =>
      hd.size e (ha.kept e he (by rw [hsect]; decide)) hsect⟩
  exact ⟨.of_validate t ha.sound ⟨ha.consecutive, ha.size⟩ hdata ha.cells,
    (map_core_validate t ha.sound).trans ha.core⟩

/-- Further rounds over cells that have settled change nothing. -/
theorem LaidOut.of_settled {t : SymTab} {cs : List Cell} {ir : List IrEntry}
    (h : LaidOut t 0 cs ir) (hc : roundFrom 0 cs = cs) (n : ℕ) : LaidOut t n cs ir := by
  have hr : ∀ n, rounds n cs = cs := rounds_of_settled hc
  refine ⟨h.sound, h.text, h.data, h.aimed, h.fixed, ?_, ?_⟩
  · rw [hr, h.size, hr]
  · rw [hr, h.cells, hr]

theorem relayoutRounds_laidOut {cfg : Config} (hcfg : cfg.compresses = true) (t : SymTab)
    (n : ℕ) {ir : List IrEntry} (hs : ∀ e ∈ ir, e.Sound) (hd : Packed .data 0 ir) :
    LaidOut t n (cells t ir) (relayoutRounds cfg t .text (n + 1) ir).1 ∧
      (relayoutRounds cfg t .text (n + 1) ir).1.map IrEntry.core = ir.map IrEntry.core := by
  -- a round without change settles the cells, so all further rounds may be counted as made
  induction n generalizing ir with
  | zero =>
    simp only [relayoutRounds, pass2ValidateCompressedRanges, pass2AssignAddresses, hcfg,
      Bool.not_true, Bool.false_eq_true, ↓reduceIte]
    split_ifs <;> exact round_laidOut t hs hd
  | succ n ih =>
    obtain ⟨hround, hcore⟩ := round_laidOut t hs hd
    rw [relayoutRounds]
    simp only [pass2ValidateCompressedRanges, pass2AssignAddresses, hcfg, Bool.not_true,
      Bool.false_eq_true, ↓reduceIte]
    have ha : Assigned t .text 0 ir (assignFrom .text 0 ir) := assignFrom_assigned t .text 0 hs
    cases hchanged : (assignFrom .text 0 ir).any fun e => (validateEntry t .text e).2 with
    | false =>
      have hsame := (cells_of_unchanged t ha.sound hchanged).trans ha.cells
      refine ⟨hround.of_settled ?_ _, hcore⟩
      exact hround.cells.symm.trans hsame
    | true =>
      obtain ⟨hl, hc⟩ := ih hround.sound hround.data
      refine ⟨⟨hl.sound, hl.text, hl.data, hl.aimed, hl.fixed, ?_, ?_⟩, hc.trans hcore⟩
      · rw [rounds_succ', show roundFrom 0 (cells t ir) = _ from hround.cells.symm]
        exact hl.size
      · rw [rounds_succ', show roundFrom 0 (cells t ir) = _ from hround.cells.symm]
        exact hl.cells

structure IrEntry.Open (e : IrEntry) : Prop extends e.Sound where
  noChoice : e.hasCChoice = false
  canCompress : e.kind = .instr → e.canCompress = !isCFmt e.fmt

theorem IrEntry.Open.plan {e : IrEntry} (h : e.Open) (cfg : Config) : (planEntry cfg e).Sound := by
  rw [planEntry]
  split_ifs with hattempt
  · exact h.toSound
  cases hmap : cTryMap cfg e with
  | none => exact ⟨h.align, h.data, h.forced, h.noLabel, h.label, h.branch, fun hc => by cases hc⟩
  | some ch =>
    have hfor := cTryMap_for hmap
    refine ⟨h.align, h.data, h.forced, h.noLabel, h.label, h.branch, fun _ => ?_⟩
    simp only [pass2NodeCanAttempt, Bool.not_eq_true', Bool.not_eq_false] at hattempt
    split_ifs at hattempt with h1 h2 h3 h4 h5 h6 h7 h8
    have hk : e.kind = .instr := by
      cases hkind : e.kind <;> simp_all
    have hfmt : isCFmt e.fmt = false := by
      have := h.canCompress hk
      simp_all
    refine ⟨hk, not_not.mp h8, ?_, hfor.fmt, fun hp => ?_, hfor.plain⟩
    · exact (h.forced hk).trans (by rw [hfmt]; rfl)
    · exact (hfor.operand hp).2

theorem planEntry_core (cfg : Config) (e : IrEntry) : (planEntry cfg e).core = e.core := by
  rw [planEntry]
  split_ifs
  · rfl
  · cases cTryMap cfg e <;> rfl

theorem planEntry_data (cfg : Config) {e : IrEntry} (h : e.sect ≠ .text) : planEntry cfg e = e := by
  have hno : pass2NodeCanAttempt cfg e = false := by
    rw [pass2NodeCanAttempt]
    split_ifs <;> rfl
  rw [planEntry, hno]
  rfl

/-- The cells the rounds start from. -/
def plannedCells (cfg : Config) (t : SymTab) (ir : List IrEntry) : List Cell :=
  cells t (pass2PlanChoices cfg ir)

theorem planEntry_placed_cell (cfg : Config) (t : SymTab) {e : IrEntry} (h : e.sect = .data)
    (pc : ℕ) : (planEntry cfg (e.placed pc)).cell t = (planEntry cfg e).cell t := by
  rw [planEntry_data cfg (show (e.placed pc).sect ≠ .text by rw [IrEntry.placed, h]; decide),
    planEntry_data cfg (show e.sect ≠ .text by rw [h]; decide), e.cell_placed]

theorem plannedCells_assignFrom (cfg : Config) (t : SymTab) (off : ℕ) {ir : List IrEntry}
    (h : ∀ e ∈ ir, e.Sound) :
    plannedCells cfg t (assignFrom .data (u32 off) ir) = plannedCells cfg t ir := by
  rw [plannedCells, plannedCells, pass2PlanChoices, pass2PlanChoices]
  split_ifs
  · exact (assignFrom_assigned t .data off h).cells
  · induction ir generalizing off with
    | nil => rfl
    | cons e es ih =>
      have hes : ∀ e ∈ es, e.Sound := fun e hmem => h e (List.mem_cons_of_mem _ hmem)
      rw [assignFrom_cons .data off (h e List.mem_cons_self)]
      split_ifs with hsect
      · rw [List.map_cons, List.map_cons, cells_cons, cells_cons, ih _ hes,
          planEntry_placed_cell cfg t hsect]
      · rw [List.map_cons, List.map_cons, cells_cons, cells_cons, ih _ hes]

theorem Assigned.noChoice {t : SymTab} {sect : Section} {off : ℕ} {ir ir' : List IrEntry}
    (ha : Assigned t sect off ir ir') (h : ∀ e ∈ ir, e.hasCChoice = false) :
    ∀ e ∈ ir', e.hasCChoice = false := by
  intro e he
  have hmem : e.cell t ∈ RvAssembler.cells t ir := by
    rw [← ha.cells]
    exact List.mem_map_of_mem he
  obtain ⟨e', he', hcell⟩ := List.mem_map.mp hmem
  exact (congrArg Cell.isShort hcell).symm.trans (h e' he')

theorem Assigned.open_of_fresh {t : SymTab} {sect : Section} {off : ℕ} {ir ir' : List IrEntry}
    (ha : Assigned t sect off ir ir') (h : ∀ e ∈ ir, e.Fresh) : ∀ e ∈ ir', e.Open := by
  intro e he
  refine ⟨ha.sound e he, ha.noChoice (fun e he => (h e he).noChoice) e he, fun hk => ?_⟩
  obtain ⟨e', he', hcore⟩ := exists_core_of_mem ha.core he
  have hkind := IrEntry.kind_eq_of_core hcore
  rw [IrEntry.eq_of_core IrEntry.canCompress (fun _ => rfl) hcore,
    (h e' he').canCompress (hkind.symm.trans hk),
    IrEntry.eq_of_core IrEntry.fmt (fun _ => rfl) hcore]

theorem relayout_planned {cfg : Config} (hcfg : cfg.compresses = true) (t : SymTab)
    {ir : List IrEntry} (hopen : ∀ e ∈ ir, e.Open) (hd : Packed .data 0 ir) :
    LaidOut t 7 (cells t (ir.map (planEntry cfg)))
        (relayoutRounds cfg t .text 8 (ir.map (planEntry cfg))).1 ∧
      (relayoutRounds cfg t .text 8 (ir.map (planEntry cfg))).1.map IrEntry.core =
        ir.map IrEntry.core := by
  have hsound : ∀ e ∈ ir.map (planEntry cfg), e.Sound := by
    rintro _ hmem
    obtain ⟨e, he, rfl⟩ := List.mem_map.mp hmem
    exact (hopen e he).plan cfg
  have hcore : (ir.map (planEntry cfg)).map IrEntry.core = ir.map IrEntry.core := by
    rw [List.map_map]
    exact List.map_congr_left fun e _ => planEntry_core cfg e
  have hsect : ∀ e : IrEntry, (planEntry cfg e).sect = e.sect := fun e =>
    IrEntry.sect_eq_of_core (planEntry_core cfg e)
  have hdata : ∀ e : IrEntry, e.sect = .data → planEntry cfg e = e := fun e h =>
    planEntry_data cfg (by rw [h]; decide)
  have hpacked : Packed .data 0 (ir.map (planEntry cfg)) := by
    refine ⟨hd.consecutive.map fun e _ => ⟨hsect e, fun h => by rw [hdata e h]; exact ⟨rfl, rfl⟩⟩,
      ?_⟩
    rintro _ hmem h
    obtain ⟨e, he, rfl⟩ := List.mem_map.mp hmem
    rw [hsect] at h
    rw [hdata e h]
    exact hd.size e he h
  obtain ⟨hl, hc⟩ := relayoutRounds_laidOut hcfg t 7 hsound hpacked
  exact ⟨hl, hc.trans hcore⟩

theorem laidOut_plain (t : SymTab) {ir : List IrEntry} (hopen : ∀ e ∈ ir, e.Open)
    (hd : Packed .data 0 ir) :
    LaidOut t 7 (cells t ir) (assignFrom .text 0 ir) ∧
      (assignFrom .text 0 ir).map IrEntry.core = ir.map IrEntry.core := by
  have hs : ∀ e ∈ ir, e.Sound := fun e he => (hopen e he).toSound
  have hno := (assignFrom_assigned t .text 0 hs).noChoice fun e he => (hopen e he).noChoice
  have hlong : roundFrom 0 (cells t ir) = cells t ir := by
    refine roundFrom_of_long fun c hc => ?_
    obtain ⟨e, he, rfl⟩ := List.mem_map.mp hc
    exact (hopen e he).noChoice
  have hsame : (assignFrom .text 0 ir).map (fun e => (validateEntry t .text e).1) =
      assignFrom .text 0 ir := by
    conv_rhs => rw [← List.map_id (assignFrom .text 0 ir)]
    apply List.map_congr_left
    intro e he
    rw [validateEntry, hno e he, Bool.not_false, if_pos rfl, ite_self]
    rfl
  obtain ⟨hl, hcore⟩ := round_laidOut t hs hd
  rw [hsame] at hl hcore
  exact ⟨hl.of_settled hlong 7, hcore⟩

/-- The layout `pass2_run` emits is the one after eight rounds over the planned cells, its
addresses those after seven. -/
theorem pass2Layout_laidOut (cfg : Config) (t : SymTab) {ir : List IrEntry}
    (h : ∀ e ∈ ir, e.Fresh) :
    LaidOut t 7 (plannedCells cfg t ir) (pass2Layout cfg t ir) ∧
      (pass2Layout cfg t ir).map IrEntry.core = ir.map IrEntry.core := by
  have hs : ∀ e ∈ ir, e.Sound := fun e he => (h e he).toSound
  have hcells : plannedCells cfg t (assignFrom .data 0 ir) = plannedCells cfg t ir :=
    plannedCells_assignFrom cfg t 0 hs
  have ha : Assigned t .data 0 ir (assignFrom .data 0 ir) := assignFrom_assigned t .data 0 hs
  have hopen := ha.open_of_fresh h
  have hd : Packed .data 0 (assignFrom .data 0 ir) := ⟨ha.consecutive, ha.size⟩
  rw [← hcells, ← ha.core]
  simp only [pass2Layout, pass2AssignAddresses, plannedCells, pass2PlanChoices]
  cases hcfg : cfg.compresses with
  | true =>
    simp only [Bool.not_true, Bool.false_eq_true, ↓reduceIte, pass2RelayoutAndValidate]
    exact relayout_planned hcfg t hopen hd
  | false =>
    simp only [Bool.not_false, Bool.false_eq_true, ↓reduceIte]
    exact laidOut_plain t hopen hd

end RvAssembler
