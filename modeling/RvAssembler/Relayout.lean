import RvAssembler.Built
import RvAssembler.Labels

namespace RvAssembler

def relayoutRound (cfg : Config) (t : SymTab) (sect : Section) (ir : List IrEntry) :
    List IrEntry × Bool :=
  pass2ValidateCompressedRanges cfg t sect (pass2AssignAddresses sect ir)

theorem relayoutRounds_succ (cfg : Config) (t : SymTab) (sect : Section) (n : ℕ)
    (ir : List IrEntry) :
    relayoutRounds cfg t sect (n + 1) ir =
      if !(relayoutRound cfg t sect ir).2 then ((relayoutRound cfg t sect ir).1, true)
      else relayoutRounds cfg t sect n (relayoutRound cfg t sect ir).1 := by
  rw [relayoutRounds]
  rfl

/-- What a round does to an entry: it gives it no choice, and leaves it alone in `.data`. -/
structure Kept (e e' : IrEntry) : Prop where
  sect : e'.sect = e.sect
  choice : e'.hasCChoice = true → e.hasCChoice = true
  data : e.sect = .data → e' = e

theorem Kept.refl (e : IrEntry) : Kept e e := ⟨rfl, id, fun _ => rfl⟩

theorem Kept.trans {e e' e'' : IrEntry} (h : Kept e e') (h' : Kept e' e'') : Kept e e'' :=
  ⟨h'.sect.trans h.sect, fun hc => h.choice (h'.choice hc), fun hd =>
    (h'.data (h.sect.trans hd)).trans (h.data hd)⟩

theorem kept_refl (ir : List IrEntry) : List.Forall₂ Kept ir ir :=
  List.forall₂_same.mpr fun e _ => .refl e

theorem kept_trans {ir ir' ir'' : List IrEntry} (h : List.Forall₂ Kept ir ir')
    (h' : List.Forall₂ Kept ir' ir'') : List.Forall₂ Kept ir ir'' := by
  induction h generalizing ir'' with
  | nil => exact h'
  | cons he _ ih =>
    cases h' with
    | cons he' h' => exact .cons (he.trans he') (ih h')

def IrEntry.hasPcRelChoice (e : IrEntry) : Bool := e.hasCChoice && isPcRel e.choice.op

def pcRelChoices (ir : List IrEntry) : ℕ := ir.countP IrEntry.hasPcRelChoice

/-- The possible outcomes of a validation: nothing happens, a choice with an offset is dropped,
or its offset is set. -/
theorem validateEntry_cases (t : SymTab) (sect : Section) (e : IrEntry) :
    validateEntry t sect e = (e, false) ∨
      e.sect = sect ∧ e.hasPcRelChoice = true ∧
        (validateEntry t sect e = ({ e with hasCChoice := false }, true) ∨
          ∃ imm, validateEntry t sect e = ({ e with choice := { e.choice with imm } }, false)) := by
  rw [validateEntry]
  split_ifs with hs hc
  · exact .inl rfl
  · exact .inl rfl
  · have hchoice : e.hasCChoice = true := by simpa using hc
    rw [validateChoice]
    split_ifs with hpc
    · exact .inl rfl
    · have hpc : e.hasPcRelChoice = true := by simpa [IrEntry.hasPcRelChoice, hchoice] using hpc
      split
      · exact .inl rfl
      · exact .inr ⟨not_not.mp hs, hpc, .inl rfl⟩
      · simp only
        split_ifs
        · exact .inr ⟨not_not.mp hs, hpc, .inl rfl⟩
        · exact .inr ⟨not_not.mp hs, hpc, .inr ⟨_, rfl⟩⟩

theorem validateEntry_kept (t : SymTab) (e : IrEntry) : Kept e (validateEntry t .text e).1 := by
  obtain h | ⟨hs, -, h | ⟨imm, h⟩⟩ := validateEntry_cases t .text e
  · rw [h]
    exact .refl e
  · rw [h]
    exact ⟨rfl, fun hc => (Bool.false_ne_true hc).elim, fun hd => by rw [hs] at hd; cases hd⟩
  · rw [h]
    exact ⟨rfl, id, fun hd => by rw [hs] at hd; cases hd⟩

theorem relayoutRound_kept (cfg : Config) (t : SymTab) (ir : List IrEntry) :
    List.Forall₂ Kept ir (relayoutRound cfg t .text ir).1 := by
  have hplaced : List.Forall₂ Kept ir (pass2AssignAddresses .text ir) := by
    refine (assignFrom_forall₂ .text 0 ir).imp fun e e' he => ?_
    obtain ⟨⟨a, n, rfl⟩, hother⟩ := he
    exact ⟨rfl, id, fun hd => hother (by rw [hd]; decide)⟩
  refine kept_trans hplaced ?_
  rw [relayoutRound, pass2ValidateCompressedRanges]
  split_ifs
  · exact kept_refl _
  · rw [List.forall₂_map_right_iff]
    exact List.forall₂_same.mpr fun e _ => validateEntry_kept t e

theorem relayoutRounds_kept (cfg : Config) (t : SymTab) (n : ℕ) (ir : List IrEntry) :
    List.Forall₂ Kept ir (relayoutRounds cfg t .text n ir).1 := by
  induction n generalizing ir with
  | zero => exact kept_refl ir
  | succ n ih =>
    rw [relayoutRounds_succ]
    split_ifs
    · exact relayoutRound_kept cfg t ir
    · exact kept_trans (relayoutRound_kept cfg t ir) (ih _)

theorem validateEntry_hasPcRelChoice (t : SymTab) (sect : Section) (e : IrEntry) :
    ((validateEntry t sect e).1.hasPcRelChoice = true → e.hasPcRelChoice = true) ∧
      ((validateEntry t sect e).2 = true →
        e.hasPcRelChoice = true ∧ (validateEntry t sect e).1.hasPcRelChoice = false) := by
  obtain h | ⟨-, hpc, h | ⟨imm, h⟩⟩ := validateEntry_cases t sect e
  · rw [h]
    exact ⟨id, fun hf => (Bool.false_ne_true hf).elim⟩
  · rw [h]
    exact ⟨fun _ => hpc, fun _ => ⟨hpc, rfl⟩⟩
  · rw [h]
    exact ⟨fun _ => hpc, fun hf => (Bool.false_ne_true hf).elim⟩

theorem countP_map_lt {α : Type} {p : α → Bool} {f : α → α} {l : List α}
    (hle : ∀ a, p (f a) = true → p a = true) {a : α} (ha : a ∈ l) (hp : p a = true)
    (hlost : p (f a) = false) : (l.map f).countP p < l.countP p := by
  obtain ⟨xs, ys, rfl⟩ := List.append_of_mem ha
  have hxs : (xs.map f).countP p ≤ xs.countP p := by
    rw [List.countP_map]
    exact List.countP_mono_left fun b _ => hle b
  have hys : (ys.map f).countP p ≤ ys.countP p := by
    rw [List.countP_map]
    exact List.countP_mono_left fun b _ => hle b
  rw [List.map_append, List.map_cons, List.countP_append, List.countP_append,
    List.countP_cons_of_neg (by rw [hlost]; decide), List.countP_cons_of_pos hp]
  omega

theorem pcRelChoices_relayoutRound {cfg : Config} {t : SymTab} {sect : Section}
    {ir : List IrEntry} (h : (relayoutRound cfg t sect ir).2 = true) :
    pcRelChoices (relayoutRound cfg t sect ir).1 < pcRelChoices ir := by
  have hplaced : pcRelChoices (pass2AssignAddresses sect ir) = pcRelChoices ir := by
    have hmap := map_assignFrom (f := IrEntry.hasPcRelChoice) (fun _ _ _ => rfl) sect 0 ir
    have hcount := congrArg (List.countP id) hmap
    rwa [List.countP_map, List.countP_map] at hcount
  rw [← hplaced]
  rw [relayoutRound, pass2ValidateCompressedRanges] at h ⊢
  cases hcfg : cfg.compresses with
  | false => simp [hcfg] at h
  | true =>
    rw [hcfg] at h
    obtain ⟨e, he, hdropped⟩ := List.any_eq_true.mp h
    obtain ⟨hpc, hlost⟩ := (validateEntry_hasPcRelChoice t sect e).2 hdropped
    exact countP_map_lt (fun e => (validateEntry_hasPcRelChoice t sect e).1) he hpc hlost

/-- More rounds than choices with an offset are enough. -/
theorem relayoutRounds_converges (cfg : Config) (t : SymTab) (sect : Section) {n : ℕ}
    {ir : List IrEntry} (h : pcRelChoices ir < n) : (relayoutRounds cfg t sect n ir).2 = true := by
  induction n generalizing ir with
  | zero => exact absurd h (Nat.not_lt_zero _)
  | succ n ih =>
    rw [relayoutRounds_succ]
    split_ifs with hsame
    · rfl
    · have hdrop := pcRelChoices_relayoutRound (by simpa using hsame)
      exact ih (by omega)

/-- An offset a compressed branch or jump can hold. -/
def CReach (op : Opcode) (imm : ℤ) : Prop :=
  imm % 2 = 0 ∧
    if op = .cJ ∨ op = .cJal then -2048 ≤ imm ∧ imm ≤ 2046 else -256 ≤ imm ∧ imm ≤ 254

theorem cReach_of_choiceRangeOk {op : Opcode} {disp : ℤ} (hpc : isPcRel op = true)
    (h : pass2ChoiceRangeOk op disp = true) : CReach op disp := by
  rw [CReach]
  cases op <;> simp_all [isPcRel, pass2ChoiceRangeOk]

/-- A layout in which addresses, sizes and choices agree. -/
structure Relaid (t : SymTab) (ir : List IrEntry) : Prop where
  addr : ∀ k (hk : k < ir.length), ir[k].sect = .text → ir[k].addr = sizeIn .text (ir.take k)
  size : ∀ e ∈ ir, e.sect = .text → e.size = e.room
  choice : ∀ e ∈ ir, e.hasCChoice = true → isPcRel e.choice.op = true →
    ∀ l, e.choice.label = some l →
      ∃ v, t.toMap l = some v ∧ e.choice.imm = v - e.addr ∧ CReach e.choice.op e.choice.imm

theorem exists_unchanged_round {cfg : Config} (hcfg : cfg.compresses = true) {t : SymTab} {n : ℕ}
    {ir : List IrEntry} (hs : ∀ e ∈ ir, e.Sound)
    (h : (relayoutRounds cfg t .text n ir).2 = true) :
    ∃ ir₁, (∀ e ∈ ir₁, e.Sound) ∧ ir₁.map IrEntry.core = ir.map IrEntry.core ∧
      (relayoutRounds cfg t .text n ir).1 =
        (assignFrom .text 0 ir₁).map (fun e => (validateEntry t .text e).1) ∧
      ((assignFrom .text 0 ir₁).any fun e => (validateEntry t .text e).2) = false := by
  induction n generalizing ir with
  | zero => cases h
  | succ n ih =>
    have ha : Assigned t .text 0 ir (assignFrom .text 0 ir) := assignFrom_assigned t .text 0 hs
    have hround : relayoutRound cfg t .text ir =
        ((assignFrom .text 0 ir).map (fun e => (validateEntry t .text e).1),
          (assignFrom .text 0 ir).any fun e => (validateEntry t .text e).2) := by
      rw [relayoutRound, pass2ValidateCompressedRanges, hcfg]
      rfl
    rw [relayoutRounds_succ, hround] at h ⊢
    simp only at h ⊢
    split_ifs at h ⊢ with hsame
    · exact ⟨ir, hs, rfl, rfl, by simpa using hsame⟩
    · have hsound : ∀ e ∈ (assignFrom .text 0 ir).map (fun e => (validateEntry t .text e).1),
          e.Sound := by
        rintro _ hmem
        obtain ⟨e, he, rfl⟩ := List.mem_map.mp hmem
        obtain ⟨keep, imm, hval, hk, -⟩ := validateEntry_validated t (ha.sound e he)
        rw [hval]
        exact (ha.sound e he).validated imm hk
      obtain ⟨ir₁, hs₁, hcore, hlast, hnone⟩ := ih hsound h
      exact ⟨ir₁, hs₁, hcore.trans ((map_core_validate t ha.sound).trans ha.core), hlast, hnone⟩

theorem sizeIn_eq_roomIn {s : Section} {ir : List IrEntry}
    (h : ∀ e ∈ ir, e.sect = s → e.size = e.room) : sizeIn s ir = roomIn s ir := by
  rw [sizeIn, roomIn]
  congr 1
  refine List.map_congr_left fun e he => ?_
  split_ifs with hs
  · exact h e he hs
  · rfl

theorem validateEntry_unchanged {t : SymTab} {e : IrEntry} (h : e.Sound)
    (hsame : (validateEntry t .text e).2 = false) :
    ∃ imm, (validateEntry t .text e).1 = e.validated e.hasCChoice imm ∧
      (e.hasCChoice = true → e.fits t = true) ∧ (e.validated e.hasCChoice imm).Aimed t := by
  obtain ⟨imm, hval, haimed⟩ := validateEntry_spec t h
  rw [hval] at hsame
  have hfits : e.hasCChoice = true → e.fits t = true := fun hc => by simpa [hc] using hsame
  have hkeep : (e.hasCChoice && e.fits t) = e.hasCChoice := by
    cases hc : e.hasCChoice with
    | false => rfl
    | true => rw [hfits hc, Bool.true_and]
  rw [hkeep] at hval haimed
  exact ⟨imm, by rw [hval], hfits, haimed⟩

theorem cReach_of_fits {t : SymTab} {e : IrEntry} {l : CString} (h : e.fits t = true)
    (hpc : isPcRel e.choice.op = true) (hl : e.choice.label = some l) :
    CReach e.choice.op (i32 (searchSym t l - e.addr)) := by
  simp only [IrEntry.fits, choiceFits, hpc, hl, Bool.not_true, Bool.false_or] at h
  cases hpeek : pass2PeekLabelAddr t l with
  | none => simp [hpeek] at h
  | some toAddr =>
    obtain ⟨hpos, rfl⟩ := pass2PeekLabelAddr_eq_some hpeek
    rw [hpeek] at h
    simp only [pass2ComputeDisp_eq hpos] at h
    exact cReach_of_choiceRangeOk hpc h

/-- After a round that changed nothing everything agrees with the addresses in force. -/
theorem relaid_of_unchanged {t : SymTab} (hvalues : ∀ l v, t.toMap l = some v → v < 2 ^ 31)
    {ir : List IrEntry} (hs : ∀ e ∈ ir, e.Sound)
    (hsame : ((assignFrom .text 0 ir).any fun e => (validateEntry t .text e).2) = false)
    (hlt : roomIn .text ((assignFrom .text 0 ir).map fun e => (validateEntry t .text e).1) < 2 ^ 31) :
    Relaid t ((assignFrom .text 0 ir).map fun e => (validateEntry t .text e).1) := by
  have ha : Assigned t .text 0 ir (assignFrom .text 0 ir) := assignFrom_assigned t .text 0 hs
  have hunchanged : ∀ e ∈ assignFrom .text 0 ir,
      ∃ imm, (validateEntry t .text e).1 = e.validated e.hasCChoice imm ∧
        (e.hasCChoice = true → e.fits t = true) ∧ (e.validated e.hasCChoice imm).Aimed t :=
    fun e he => validateEntry_unchanged (ha.sound e he) (by simpa using List.any_eq_false.mp hsame e he)
  have hsize : ∀ e ∈ (assignFrom .text 0 ir).map (fun e => (validateEntry t .text e).1),
      e.sect = .text → e.size = e.room := by
    rintro _ hmem hsect
    obtain ⟨e, he, rfl⟩ := List.mem_map.mp hmem
    obtain ⟨imm, hval, -, -⟩ := hunchanged e he
    rw [hval] at hsect ⊢
    exact ha.size e he hsect
  have hcons := ha.consecutive.validate t ha.sound
  generalize hlay : (assignFrom .text 0 ir).map (fun e => (validateEntry t .text e).1) = lay at *
  -- an address is a sum of sizes, and is kept in a `uint32_t` without loss
  have hplace : ∀ k, sizeIn .text (lay.take k) < 2 ^ 31 := fun k => by
    rw [sizeIn_eq_roomIn fun e he => hsize e (List.mem_of_mem_take he)]
    exact (roomIn_take_le .text lay k).trans_lt hlt
  have haddr : ∀ k (hk : k < lay.length), lay[k].sect = .text →
      lay[k].addr = sizeIn .text (lay.take k) := fun k hk hsect => by
    have hsmall := hplace k
    rw [hcons.addr hk hsect, Nat.zero_add, u32, Nat.mod_eq_of_lt (by omega)]
  refine ⟨haddr, hsize, fun e' hmem' hc hpc l hl => ?_⟩
  -- a branch that is still compressed was in reach when it was looked at last
  obtain ⟨e, he, rfl⟩ := List.mem_map.mp (hlay ▸ hmem')
  obtain ⟨imm, hval, hfits, haimed⟩ := hunchanged e he
  have hchosen := (ha.sound e he).chosen (by rw [hval] at hc; exact hc)
  have hlabel : e.label = some l := by
    rw [hval] at hpc hl
    exact (hchosen.operand hpc).1.symm.trans hl
  obtain ⟨k, hk, hget⟩ := List.getElem_of_mem hmem'
  have hsmall := hplace k
  rw [← haddr k hk (by rw [hget, hval]; exact hchosen.sect), hget, hval] at hsmall
  rw [hval] at hc hpc hl ⊢
  obtain ⟨hpos, himm⟩ := haimed hc hpc l hlabel
  have hreach := cReach_of_fits (hfits hc) hpc hl
  obtain ⟨v, hv⟩ : ∃ v, t.toMap l = some v := by
    by_contra hno
    rw [searchSym_eq, Option.eq_none_iff_forall_ne_some.mpr fun v hv => hno ⟨v, hv⟩] at hpos
    cases hpos
  have hvalue : searchSym t l = v := by rw [searchSym_eq, hv, Option.getD_some]
  have hbound := hvalues l v hv
  rw [hvalue] at hpos himm hreach
  -- both ends are below `2 ^ 31`, so the `int32_t` does not wrap around
  have hexact : i32 (v - e.addr) = v - e.addr := by
    simp only [IrEntry.validated] at hsmall
    rw [i32_eq]
    omega
  exact ⟨v, hv, himm.trans hexact, himm ▸ hreach⟩

/-- Re-layout after planning, for the entries of a program as pass 1 recorded them and as
`pass2_run` has them, with `.data` addressed: a success means that addresses, sizes and choices
agree, no round adds a choice or touches `.data`, and there is success if there are more rounds
than choices with an offset. -/
theorem relayout_sound (cfg : Config) (hcfg : cfg.compresses = true) (prog : Program)
    (hlt : bytesIn .text .text prog < 2 ^ 31) (ir : List IrEntry)
    (hir : ir = (pass1Run prog).ir ∨ ir = pass2AssignAddresses .data (pass1Run prog).ir) (k : ℕ) :
    ((pass2RelayoutAndValidate cfg (pass1Run prog).symtab .text k (pass2PlanChoices cfg ir)).2 =
        true →
      Relaid (pass1Run prog).symtab (pass2RelayoutAndValidate cfg (pass1Run prog).symtab .text k
        (pass2PlanChoices cfg ir)).1) ∧
      (∀ ir', List.Forall₂ Kept ir' (relayoutRound cfg (pass1Run prog).symtab .text ir').1) ∧
      List.Forall₂ Kept (pass2PlanChoices cfg ir) (pass2RelayoutAndValidate cfg
        (pass1Run prog).symtab .text k (pass2PlanChoices cfg ir)).1 ∧
      (pcRelChoices (pass2PlanChoices cfg ir) < k →
        (pass2RelayoutAndValidate cfg (pass1Run prog).symtab .text k (pass2PlanChoices cfg ir)).2 =
          true) := by
  have hgood := pass1Run_good prog
  have hcore : ir.map IrEntry.core = (pass1Run prog).ir.map IrEntry.core ∧ ∀ e ∈ ir, e.Open := by
    obtain rfl | rfl := hir
    · exact ⟨rfl, fun e he => (hgood.ir e he).open⟩
    · have ha := assignFrom_assigned (pass1Run prog).symtab .data 0 fun e he =>
        (hgood.ir e he).toSound
      exact ⟨ha.core, ha.open_of_fresh hgood.ir⟩
  have hplanned : (pass2PlanChoices cfg ir).map IrEntry.core = ir.map IrEntry.core := by
    rw [pass2PlanChoices, hcfg]
    simp only [Bool.not_true, Bool.false_eq_true, ↓reduceIte, List.map_map]
    exact List.map_congr_left fun e _ => planEntry_core cfg e
  rw [pass2RelayoutAndValidate]
  refine ⟨fun hok => ?_, relayoutRound_kept cfg _, relayoutRounds_kept cfg _ _ _, fun hk => ?_⟩
  · obtain ⟨ir₁, hs₁, hcore₁, hlast, hsame⟩ :=
      exists_unchanged_round hcfg (pass2PlanChoices_sound cfg hcore.2) hok
    have ha₁ : Assigned (pass1Run prog).symtab .text 0 ir₁ (assignFrom .text 0 ir₁) :=
      assignFrom_assigned _ .text 0 hs₁
    rw [hlast]
    refine relaid_of_unchanged hgood.values hs₁ hsame ?_
    refine (roomIn_le_of_core hgood.ir ?_ ?_ .text).trans_lt ?_
    · rintro _ hmem
      obtain ⟨e, he, rfl⟩ := List.mem_map.mp hmem
      obtain ⟨keep, imm, hval, hkeep, -⟩ := validateEntry_validated _ (ha₁.sound e he)
      rw [hval]
      exact (ha₁.sound e he).validated imm hkeep
    · rw [map_core_validate _ ha₁.sound]
      exact ha₁.core.trans (hcore₁.trans (hplanned.trans hcore.1))
    · rwa [roomIn_pass1Run]
  · rw [if_neg (by omega)]
    exact relayoutRounds_converges cfg _ .text hk

theorem relayout_sound_cascade :
    Relaid (pass1Run cascade).symtab (pass2RelayoutAndValidate (passSetArch 32 false true true)
        (pass1Run cascade).symtab .text 9
        (pass2PlanChoices (passSetArch 32 false true true) (pass1Run cascade).ir)).1 ∧
      pcRelChoices (pass2RelayoutAndValidate (passSetArch 32 false true true)
        (pass1Run cascade).symtab .text 9
        (pass2PlanChoices (passSetArch 32 false true true) (pass1Run cascade).ir)).1 = 0 := by
  obtain ⟨hsound, -, -, henough⟩ := relayout_sound (passSetArch 32 false true true) rfl cascade
    (by decide +kernel) (pass1Run cascade).ir (.inl rfl) 9
  exact ⟨hsound (henough (by decide +kernel)), by decide +kernel⟩

end RvAssembler
