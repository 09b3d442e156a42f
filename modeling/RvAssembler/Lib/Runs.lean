import Mathlib.Data.Nat.Notation
import Mathlib.Logic.Basic

namespace RvAssembler

variable {σ τ : Type*}

inductive Steps (r : σ → σ → Prop) : ℕ → σ → σ → Prop
  | zero (s : σ) : Steps r 0 s s
  | succ {n : ℕ} {s s' s'' : σ} (h : r s s') (rest : Steps r n s' s'') : Steps r (n + 1) s s''

theorem Steps.mono {r r' : σ → σ → Prop} (hr : ∀ s s', r s s' → r' s s') {n : ℕ} {s s' : σ}
    (h : Steps r n s s') : Steps r' n s s' := by
  induction h with
  | zero s => exact .zero s
  | succ hs _ ih => exact .succ (hr _ _ hs) ih

/-- `n` steps of a machine, if it does not stop before. -/
def iterate (f : τ → Option τ) : ℕ → τ → Option τ
  | 0, t => some t
  | n + 1, t => (f t).bind (iterate f n)

/-- A machine that answers every step of a relation with one of its own, and stays in a
simulation with it, answers runs with runs of the same length. -/
theorem Steps.simulate {r : σ → σ → Prop} {f : τ → Option τ} {R : σ → τ → Prop}
    (hstep : ∀ s s' t, R s t → r s s' → ∃ t', f t = some t' ∧ R s' t')
    {n : ℕ} {s s' : σ} (h : Steps r n s s') {t : τ} (ht : R s t) :
    ∃ t', iterate f n t = some t' ∧ R s' t' := by
  induction h generalizing t with
  | zero s => exact ⟨t, rfl, ht⟩
  | succ hs _ ih =>
    obtain ⟨t₁, hf, ht₁⟩ := hstep _ _ t ht hs
    obtain ⟨t', hrun, ht'⟩ := ih ht₁
    refine ⟨t', ?_, ht'⟩
    rw [iterate, hf]
    exact hrun

end RvAssembler
