import Mathlib.Data.List.MinMax
import Mathlib.Data.Nat.Find

namespace RvAssembler.Scan

variable {ρ α : Type*}

/-- The length of the longest prefix that is accepted; zero if there is none but the empty one. -/
def longest (accepts : List α → Bool) (input : List α) : ℕ :=
  Nat.findGreatest (fun n => accepts (input.take n) = true) input.length

theorem length_le_longest {accepts : List α → Bool} {input text : List α}
    (hpre : text <+: input) (h : accepts text = true) : text.length ≤ longest accepts input := by
  apply Nat.le_findGreatest hpre.length_le
  rw [← List.prefix_iff_eq_take.mp hpre]
  exact h

theorem accepts_longest {accepts : List α → Bool} {input : List α}
    (h : 0 < longest accepts input) : accepts (input.take (longest accepts input)) = true :=
  Nat.findGreatest_of_ne_zero (P := fun n => accepts (input.take n) = true) rfl h.ne'

theorem length_take_longest (accepts : List α → Bool) (input : List α) :
    (input.take (longest accepts input)).length = longest accepts input :=
  List.length_take_of_le (Nat.findGreatest_le input.length)

/-- The rule that wins, with the text it matches. -/
def scan (rules : List ρ) (accepts : ρ → List α → Bool) (input : List α) : Option (ρ × List α) :=
  ((rules.argmax fun r => longest (accepts r) input).filter fun r =>
    0 < longest (accepts r) input).map fun r => (r, input.take (longest (accepts r) input))

variable [DecidableEq ρ] {rules : List ρ} {accepts : ρ → List α → Bool} {input : List α}

/-- The text is a match of the rule, no rule has a longer one and no earlier rule the same. -/
theorem scan_eq_some {r : ρ} {text : List α} (h : scan rules accepts input = some (r, text)) :
    r ∈ rules ∧ text ≠ [] ∧ text <+: input ∧ accepts r text = true ∧
      (∀ r' ∈ rules, ∀ text', text' <+: input → accepts r' text' = true →
        text'.length ≤ text.length) ∧
      ∀ r' ∈ rules, accepts r' text = true → rules.idxOf r ≤ rules.idxOf r' := by
  obtain ⟨r', hwinner, hpair⟩ := Option.map_eq_some_iff.mp h
  obtain ⟨rfl, rfl⟩ := Prod.mk.inj hpair
  obtain ⟨hmax, hpos⟩ := Option.filter_eq_some_iff.mp hwinner
  have hpos : 0 < longest (accepts r') input := of_decide_eq_true hpos
  obtain ⟨hmem, hlongest, hfirst⟩ := List.mem_argmax_iff.mp hmax
  have hlength := length_take_longest (accepts r') input
  have hpre := List.take_prefix (longest (accepts r') input) input
  refine ⟨hmem, ?_, hpre, accepts_longest hpos, ?_, ?_⟩
  · apply List.ne_nil_of_length_pos
    rw [hlength]
    exact hpos
  · intro s hs text' hpre' hacc
    rw [hlength]
    exact (length_le_longest hpre' hacc).trans (hlongest s hs)
  · intro s hs hacc
    apply hfirst s hs
    have hle := length_le_longest hpre hacc
    rwa [hlength] at hle

theorem scan_ne_none {r : ρ} {text : List α} (hr : r ∈ rules) (hpre : text <+: input)
    (hne : text ≠ []) (h : accepts r text = true) : scan rules accepts input ≠ none := by
  intro hnone
  obtain ⟨m, hm⟩ := Option.ne_none_iff_exists'.mp
    (List.argmax_eq_none.not.mpr (List.ne_nil_of_mem hr) :
      rules.argmax (fun r => longest (accepts r) input) ≠ none)
  have hle := (List.mem_argmax_iff.mp hm).2.1 r hr
  have hlen := List.length_pos_iff.mpr hne
  have hmatch := length_le_longest hpre h
  rw [scan, hm, Option.filter_some, if_pos (decide_eq_true (by omega))] at hnone
  cases hnone

end RvAssembler.Scan
