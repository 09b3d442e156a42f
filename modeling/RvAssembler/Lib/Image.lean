import Mathlib.Data.Nat.Notation
import Mathlib.Data.List.GetD
import Mathlib.Data.List.Pairwise
import Mathlib.Tactic.Common

namespace RvAssembler.Image

variable {α : Type*} (blank : α)

/-- Writes a run at a position, filling a gap before it with blanks. -/
def overwrite (img : List α) (off : ℕ) (run : List α) : List α :=
  (img ++ List.replicate (off - img.length) blank).take off ++ run ++ img.drop (off + run.length)

def overwriteAll (img : List α) (runs : List (ℕ × List α)) : List α :=
  runs.foldl (fun img r => overwrite blank img r.1 r.2) img

def slice (img : List α) (off n : ℕ) : List α := (List.range n).map fun i => img.getD (off + i) blank

/-- Ranges, given by start and length, without a common position. -/
def Apart (a b : ℕ × ℕ) : Prop := a.1 + a.2 ≤ b.1 ∨ b.1 + b.2 ≤ a.1

instance : DecidableRel Apart := fun _ _ => inferInstanceAs (Decidable (_ ∨ _))

theorem Apart.symm {a b : ℕ × ℕ} (h : Apart a b) : Apart b a := Or.symm h

def span (r : ℕ × List α) : ℕ × ℕ := (r.1, r.2.length)

@[simp] theorem length_slice (img : List α) (off n : ℕ) : (slice blank img off n).length = n := by
  simp [slice]

theorem getD_overwrite (img : List α) (off : ℕ) (run : List α) (i : ℕ) :
    (overwrite blank img off run).getD i blank =
      if off ≤ i ∧ i < off + run.length then run.getD (i - off) blank else img.getD i blank := by
  have hlen : ((img ++ List.replicate (off - img.length) blank).take off).length = off := by
    rw [List.length_take, List.length_append, List.length_replicate]
    omega
  rw [overwrite, List.append_assoc]
  by_cases h1 : i < off
  · rw [List.getD_append _ _ _ _ (by omega), if_neg (by omega), List.getD_eq_getElem?_getD,
      List.getElem?_take_of_lt h1, List.getD_eq_getElem?_getD]
    by_cases h2 : i < img.length
    · rw [List.getElem?_append_left h2]
    · rw [List.getElem?_append_right (by omega), List.getElem?_replicate,
        List.getElem?_eq_none (by omega)]
      split_ifs <;> rfl
  · rw [List.getD_append_right _ _ _ _ (by omega), hlen]
    by_cases h2 : i < off + run.length
    · rw [List.getD_append _ _ _ _ (by omega), if_pos (by omega)]
    · rw [List.getD_append_right _ _ _ _ (by omega), if_neg (by omega),
        List.getD_eq_getElem?_getD, List.getElem?_drop, List.getD_eq_getElem?_getD]
      congr 2
      omega

theorem overwrite_length (img run : List α) :
    overwrite blank img img.length run = img ++ run := by
  simp [overwrite]

theorem slice_overwrite (img : List α) (off : ℕ) (run : List α) :
    slice blank (overwrite blank img off run) off run.length = run := by
  apply List.ext_getElem (length_slice ..)
  intro i h1 h2
  simp only [slice, List.getElem_map, List.getElem_range, getD_overwrite]
  rw [if_pos (by omega), Nat.add_sub_cancel_left, List.getD_eq_getElem _ _ h2]

/-- A write leaves every range apart from it alone. -/
theorem slice_overwrite_of_apart (img : List α) (r : ℕ × List α) {off n : ℕ}
    (h : Apart (span r) (off, n)) :
    slice blank (overwrite blank img r.1 r.2) off n = slice blank img off n := by
  apply List.map_congr_left
  intro i hi
  have hi := List.mem_range.mp hi
  simp only [Apart, span] at h
  rw [getD_overwrite, if_neg (by omega)]

theorem slice_overwriteAll_of_apart (runs : List (ℕ × List α)) (img : List α) {off n : ℕ}
    (h : ∀ r ∈ runs, Apart (span r) (off, n)) :
    slice blank (overwriteAll blank img runs) off n = slice blank img off n := by
  induction runs generalizing img with
  | nil => rfl
  | cons r runs ih =>
    rw [overwriteAll, List.foldl_cons, ← overwriteAll, ih _ fun s hs => h s (by simp [hs]),
      slice_overwrite_of_apart blank img r (h r (by simp))]

/-- Of runs that lie pairwise apart, each is there in the end. -/
theorem slice_overwriteAll {runs : List (ℕ × List α)} (img : List α)
    (h : (runs.map span).Pairwise Apart) {r : ℕ × List α} (hr : r ∈ runs) :
    slice blank (overwriteAll blank img runs) r.1 r.2.length = r.2 := by
  induction runs generalizing img with
  | nil => simp at hr
  | cons s runs ih =>
    rw [List.map_cons, List.pairwise_cons] at h
    rw [overwriteAll, List.foldl_cons, ← overwriteAll]
    rcases List.mem_cons.mp hr with rfl | hr
    · rw [slice_overwriteAll_of_apart blank runs _ fun t ht =>
        (h.1 (span t) (List.mem_map_of_mem ht)).symm]
      exact slice_overwrite blank img r.1 r.2
    · exact ih _ h.2 hr

theorem slice_add (img : List α) (off m n : ℕ) :
    slice blank img off (m + n) = slice blank img off m ++ slice blank img (off + m) n := by
  simp only [slice, List.range_add, List.map_append, List.map_map, Function.comp_def,
    Nat.add_assoc]

theorem slice_slice (img : List α) (off m k n : ℕ) (h : k + n ≤ m) :
    slice blank img (off + k) n = ((slice blank img off m).drop k).take n := by
  apply List.ext_getElem
  · simp only [length_slice, List.length_take, List.length_drop]
    omega
  · intro i h1 h2
    simp only [slice, List.getElem_map, List.getElem_range, List.getElem_take, List.getElem_drop,
      Nat.add_assoc]

end RvAssembler.Image
