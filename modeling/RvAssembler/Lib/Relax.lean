import Mathlib.Data.Nat.Notation
import Mathlib.Algebra.BigOperators.Group.List.Basic
import Mathlib.Logic.Function.Iterate
import Mathlib.Tactic.Common
import Mathlib.Tactic.Ring

namespace RvAssembler.Relax

/-- The two sizes of a cell and the positions at which it can be short. -/
structure Slot where
  long : ℕ
  short : ℕ
  fits : ℕ → Bool

/-- A slot and whether it is filled short for now. -/
structure Cell where
  slot : Slot
  isShort : Bool

def Cell.size (c : Cell) : ℕ := if c.isShort then c.slot.short else c.slot.long

def extent (cs : List Cell) : ℕ := (cs.map Cell.size).sum

def longExtent (cs : List Cell) : ℕ := (cs.map fun c => c.slot.long).sum

def shortCount (cs : List Cell) : ℕ := cs.countP Cell.isShort

/-- A cell after a round that finds it at a position. -/
def Cell.settle (c : Cell) (pos : ℕ) : Cell := { c with isShort := c.isShort && c.slot.fits pos }

/-- A round over cells the first of which is at a position. -/
def roundFrom : ℕ → List Cell → List Cell
  | _, [] => []
  | pos, c :: cs => c.settle pos :: roundFrom (pos + c.size) cs

def rounds (n : ℕ) (cs : List Cell) : List Cell := (roundFrom 0)^[n] cs

@[simp] theorem extent_nil : extent [] = 0 := rfl

@[simp] theorem extent_cons (c : Cell) (cs : List Cell) :
    extent (c :: cs) = c.size + extent cs := by
  rw [extent, List.map_cons, List.sum_cons, extent]

theorem longExtent_append (cs ds : List Cell) :
    longExtent (cs ++ ds) = longExtent cs + longExtent ds := by
  rw [longExtent, List.map_append, List.sum_append, longExtent, longExtent]

@[simp] theorem length_roundFrom (pos : ℕ) (cs : List Cell) :
    (roundFrom pos cs).length = cs.length := by
  induction cs generalizing pos with
  | nil => rfl
  | cons c cs ih => rw [roundFrom, List.length_cons, ih, List.length_cons]

theorem map_slot_roundFrom (pos : ℕ) (cs : List Cell) :
    (roundFrom pos cs).map Cell.slot = cs.map Cell.slot := by
  induction cs generalizing pos with
  | nil => rfl
  | cons c cs ih => rw [roundFrom, List.map_cons, ih, List.map_cons, Cell.settle]

theorem roundFrom_of_long {pos : ℕ} {cs : List Cell} (h : ∀ c ∈ cs, c.isShort = false) :
    roundFrom pos cs = cs := by
  induction cs generalizing pos with
  | nil => rfl
  | cons c cs ih =>
    have hlong : c.isShort = false := h c List.mem_cons_self
    have hc : c.settle pos = c := by
      rw [Cell.settle, hlong, Bool.false_and, ← hlong]
    rw [roundFrom, hc, ih fun c hc => h c (List.mem_cons_of_mem _ hc)]

/-- No cell turns short. -/
theorem shortCount_roundFrom_le (pos : ℕ) (cs : List Cell) :
    shortCount (roundFrom pos cs) ≤ shortCount cs := by
  induction cs generalizing pos with
  | nil => exact le_rfl
  | cons c cs ih =>
    have := ih (pos + c.size)
    simp only [shortCount, roundFrom, List.countP_cons, Cell.settle] at this ⊢
    cases c.isShort <;> cases c.slot.fits pos <;> simp <;> omega

@[simp] theorem rounds_zero (cs : List Cell) : rounds 0 cs = cs := rfl

theorem rounds_succ (n : ℕ) (cs : List Cell) : rounds (n + 1) cs = roundFrom 0 (rounds n cs) :=
  Function.iterate_succ_apply' ..

theorem rounds_succ' (n : ℕ) (cs : List Cell) : rounds (n + 1) cs = rounds n (roundFrom 0 cs) :=
  Function.iterate_succ_apply ..

theorem rounds_of_settled {cs : List Cell} (h : roundFrom 0 cs = cs) (n : ℕ) : rounds n cs = cs :=
  Function.iterate_fixed h n

theorem map_slot_rounds (n : ℕ) (cs : List Cell) :
    (rounds n cs).map Cell.slot = cs.map Cell.slot := by
  induction n with
  | zero => rfl
  | succ n ih => rw [rounds_succ, map_slot_roundFrom, ih]

/-- Every short cell saves the same. -/
def Saves (d : ℕ) (cs : List Cell) : Prop := ∀ c ∈ cs, c.isShort = true → c.slot.long = c.slot.short + d

theorem Saves.settle {d : ℕ} {c : Cell} (h : c.isShort = true → c.slot.long = c.slot.short + d)
    (pos : ℕ) : (c.settle pos).isShort = true → c.slot.long = c.slot.short + d := by
  intro hs
  rw [Cell.settle, Bool.and_eq_true] at hs
  exact h hs.1

theorem Saves.roundFrom {d : ℕ} {cs : List Cell} (h : Saves d cs) (pos : ℕ) :
    Saves d (roundFrom pos cs) := by
  induction cs generalizing pos with
  | nil => exact h
  | cons c cs ih =>
    obtain ⟨hc, hcs⟩ := List.forall_mem_cons.mp h
    exact List.forall_mem_cons.mpr ⟨Saves.settle hc pos, ih hcs _⟩

theorem Saves.rounds {d : ℕ} {cs : List Cell} (h : Saves d cs) (n : ℕ) : Saves d (rounds n cs) := by
  induction n with
  | zero => exact h
  | succ n ih =>
    rw [rounds_succ]
    exact ih.roundFrom 0

/-- Where something is saved, the sizes tell which cells are short. -/
theorem eq_of_size_eq {d : ℕ} (hd : 0 < d) {cs ds : List Cell} (hc : Saves d cs) (hs : Saves d ds)
    (hslot : cs.map Cell.slot = ds.map Cell.slot) (hsize : cs.map Cell.size = ds.map Cell.size) :
    cs = ds := by
  induction cs generalizing ds with
  | nil => rw [List.map_eq_nil_iff.mp hsize.symm]
  | cons c cs ih =>
    cases ds with
    | nil => simp at hsize
    | cons e ds =>
      obtain ⟨hc, hcs⟩ := List.forall_mem_cons.mp hc
      obtain ⟨he, hds⟩ := List.forall_mem_cons.mp hs
      rw [List.map_cons, List.map_cons, List.cons.injEq] at hslot hsize
      obtain ⟨slot, isShort⟩ := c
      obtain ⟨slot', isShort'⟩ := e
      obtain rfl : slot = slot' := hslot.1
      have hsame : isShort = isShort' := by
        have hsz := hsize.1
        simp only [Cell.size] at hsz hc he
        cases isShort <;> cases isShort' <;> simp_all
      rw [hsame, ih hcs hds hslot.2 hsize.2]

theorem extent_add_saved {d : ℕ} {cs : List Cell} (h : Saves d cs) :
    extent cs + d * shortCount cs = longExtent cs := by
  induction cs with
  | nil => rfl
  | cons c cs ih =>
    have ih := ih fun c hc => h c (List.mem_cons_of_mem _ hc)
    have hc := h c List.mem_cons_self
    rw [longExtent, List.map_cons, List.sum_cons, ← longExtent, ← ih, extent_cons, shortCount,
      List.countP_cons, ← shortCount, Cell.size]
    cases hs : c.isShort
    · simp only [Bool.false_eq_true, ↓reduceIte, Nat.add_zero]
      ring
    · rw [hc hs]
      simp only [↓reduceIte]
      ring

/-- After any number of rounds the size and the savings make up the size without short cells. -/
theorem extent_take_rounds_add {d : ℕ} {cs : List Cell} (h : Saves d cs) (n k : ℕ) :
    extent ((rounds n cs).take k) + d * shortCount ((rounds n cs).take k) =
      longExtent (cs.take k) := by
  have hlong : ∀ cs : List Cell, longExtent (cs.take k) =
      (((cs.map Cell.slot).take k).map Slot.long).sum := by
    intro cs
    rw [longExtent, ← List.map_take, List.map_map]
    rfl
  rw [extent_add_saved fun c hc => h.rounds n c (List.mem_of_mem_take hc), hlong, hlong,
    map_slot_rounds]

theorem take_roundFrom (pos k : ℕ) (cs : List Cell) :
    (roundFrom pos cs).take k = roundFrom pos (cs.take k) := by
  induction cs generalizing pos k with
  | nil => rw [List.take_nil, roundFrom, List.take_nil]
  | cons c cs ih =>
    cases k with
    | zero => rfl
    | succ k => rw [roundFrom, List.take_succ_cons, List.take_succ_cons, roundFrom, ih]

theorem shortCount_take_rounds_succ_le (n k : ℕ) (cs : List Cell) :
    shortCount ((rounds (n + 1) cs).take k) ≤ shortCount ((rounds n cs).take k) := by
  rw [rounds_succ, take_roundFrom]
  exact shortCount_roundFrom_le _ _

end RvAssembler.Relax
