import Mathlib.Data.List.Flatten
import Mathlib.Data.List.GetD
import Mathlib.Data.List.Nodup
import Mathlib.Logic.Function.Basic
import Mathlib.Tactic.Common

namespace RvAssembler.Chains

variable {K V : Type*}

/-- The chain at an index; past the end of the table it is empty. -/
def chainAt (tbl : List (List (K × V))) (i : ℕ) : List (K × V) := tbl.getD i []

theorem chainAt_of_lt {tbl : List (List (K × V))} {i : ℕ} (hi : i < tbl.length) :
    chainAt tbl i = tbl[i] := List.getD_eq_getElem _ _ hi

theorem chainAt_of_ge {tbl : List (List (K × V))} {i : ℕ} (hi : tbl.length ≤ i) :
    chainAt tbl i = [] := List.getD_eq_default _ _ hi

theorem chainAt_set (tbl : List (List (K × V))) (i j : ℕ) (c : List (K × V)) (hi : i < tbl.length) :
    chainAt (tbl.set i c) j = if j = i then c else chainAt tbl j := by
  by_cases h : j = i
  · subst h
    simp [chainAt, List.getD_eq_getElem?_getD, hi]
  · simp [chainAt, List.getD_eq_getElem?_getD, h, List.getElem?_set_ne (Ne.symm h)]

@[simp] theorem chainAt_replicate (n j : ℕ) :
    chainAt (List.replicate n ([] : List (K × V))) j = [] := by
  rw [chainAt, List.getD_eq_getElem?_getD, List.getElem?_replicate]
  split_ifs <;> rfl

theorem length_flatten_set {tbl : List (List (K × V))} (i : ℕ) (c : List (K × V))
    (hi : i < tbl.length) :
    (tbl.set i c).flatten.length + (chainAt tbl i).length = tbl.flatten.length + c.length := by
  induction tbl generalizing i with
  | nil => simp at hi
  | cons d tbl ih =>
    cases i with
    | zero =>
      simp only [List.set_cons_zero, List.flatten_cons, List.length_append, chainAt,
        List.getD_cons_zero]
      omega
    | succ i =>
      have := ih i (by simpa using hi)
      simp only [chainAt, List.set_cons_succ, List.flatten_cons, List.length_append,
        List.getD_cons_succ] at this ⊢
      omega

/-- The map a chain stands for: the first binding of a key wins. -/
def chainMap [DecidableEq K] (c : List (K × V)) (k : K) : Option V := (c.find? fun b => b.1 = k).map Prod.snd

/-- Every binding sits in the chain of its key's index, and no chain binds a key twice. -/
structure Placed (idx : K → ℕ) (tbl : List (List (K × V))) : Prop where
  idx_lt : ∀ k, idx k < tbl.length
  home : ∀ i, ∀ b ∈ chainAt tbl i, idx b.1 = i
  nodup : ∀ i, ((chainAt tbl i).map Prod.fst).Nodup

def tableMap [DecidableEq K] (idx : K → ℕ) (tbl : List (List (K × V))) (k : K) : Option V :=
  chainMap (chainAt tbl (idx k)) k

@[simp] theorem chainMap_nil [DecidableEq K] (k : K) : chainMap ([] : List (K × V)) k = none := rfl

theorem chainMap_cons [DecidableEq K] (b : K × V) (c : List (K × V)) (k : K) :
    chainMap (b :: c) k = if b.1 = k then some b.2 else chainMap c k := by
  by_cases h : b.1 = k <;> simp [chainMap, h]

theorem chainMap_eq_none [DecidableEq K] {c : List (K × V)} {k : K} :
    chainMap c k = none ↔ k ∉ c.map Prod.fst := by
  rw [chainMap, Option.map_eq_none_iff, List.find?_eq_none]
  constructor
  · intro h hk
    obtain ⟨b, hb, rfl⟩ := List.mem_map.mp hk
    exact h b hb (decide_eq_true rfl)
  · intro h b hb he
    exact h (of_decide_eq_true he ▸ List.mem_map_of_mem hb)

theorem mem_iff_chainMap [DecidableEq K] {c : List (K × V)} (hc : (c.map Prod.fst).Nodup) (k : K) (v : V) :
    (k, v) ∈ c ↔ chainMap c k = some v := by
  induction c with
  | nil => simp
  | cons b c ih =>
    obtain ⟨hb, hn⟩ := List.nodup_cons.mp (by simpa only [List.map_cons] using hc)
    rw [chainMap_cons, List.mem_cons]
    by_cases h : b.1 = k
    · have hk : (k, v) ∉ c := fun hm => hb (h ▸ List.mem_map_of_mem hm)
      rw [if_pos h, Option.some.injEq]
      constructor
      · rintro (rfl | hm)
        · rfl
        · exact absurd hm hk
      · intro hv
        exact Or.inl (Prod.ext h.symm hv.symm)
    · rw [if_neg h, ← ih hn]
      constructor
      · rintro (rfl | hm)
        · exact absurd rfl h
        · exact hm
      · exact Or.inr

theorem chainMap_append_new [DecidableEq K] {c : List (K × V)} {k : K} (v : V) (hk : k ∉ c.map Prod.fst) :
    chainMap (c ++ [(k, v)]) = Function.update (chainMap c) k (some v) := by
  funext j
  by_cases h : j = k
  · subst h
    have hn : c.find? (fun b => b.1 = j) = none := by
      simpa [chainMap] using chainMap_eq_none.mpr hk
    simp [chainMap, List.find?_append, hn]
  · have hk' : ¬ k = j := fun e => h e.symm
    simp [chainMap, List.find?_append, Function.update_of_ne h, hk']

theorem nodup_append_new {c : List (K × V)} {k : K} (v : V) (hc : (c.map Prod.fst).Nodup)
    (hk : k ∉ c.map Prod.fst) : ((c ++ [(k, v)]).map Prod.fst).Nodup := by
  rw [List.map_append, List.nodup_append]
  refine ⟨hc, List.nodup_singleton _, ?_⟩
  rintro a ha b hb rfl
  have he : a = k := List.mem_singleton.mp hb
  exact hk (he ▸ ha)

theorem chainMap_erase [DecidableEq K] {c : List (K × V)} (k : K) (hc : (c.map Prod.fst).Nodup) :
    chainMap (c.eraseP fun b => b.1 = k) = Function.update (chainMap c) k none := by
  funext j
  induction c with
  | nil => by_cases h : j = k <;> simp [h]
  | cons b c ih =>
    obtain ⟨hb, hn⟩ := List.nodup_cons.mp (by simpa only [List.map_cons] using hc)
    by_cases h : b.1 = k
    · rw [List.eraseP_cons_of_pos (by simpa using h)]
      by_cases hj : j = k
      · subst hj
        rw [Function.update_self]
        exact chainMap_eq_none.mpr (h ▸ hb)
      · rw [Function.update_of_ne hj, chainMap_cons, if_neg (fun e => hj (e.symm.trans h))]
    · rw [List.eraseP_cons_of_neg (by simpa using h), chainMap_cons, ih hn]
      by_cases hj : j = k
      · subst hj
        rw [if_neg h, Function.update_self, Function.update_self]
      · rw [Function.update_of_ne hj, Function.update_of_ne hj, chainMap_cons]

theorem placed_replicate {idx : K → ℕ} {n : ℕ} (h : ∀ k, idx k < n) :
    Placed idx (List.replicate n ([] : List (K × V))) where
  idx_lt k := by simpa using h k
  home i b hb := by simp at hb
  nodup i := by simp

@[simp] theorem tableMap_replicate [DecidableEq K] (idx : K → ℕ) (n : ℕ) :
    tableMap idx (List.replicate n ([] : List (K × V))) = fun _ => none := by
  funext k
  simp [tableMap]

variable {idx : K → ℕ} {tbl : List (List (K × V))}

theorem Placed.set (h : Placed idx tbl) {i : ℕ} {c : List (K × V)} (hi : i < tbl.length)
    (hc : ∀ b ∈ c, idx b.1 = i) (hn : (c.map Prod.fst).Nodup) : Placed idx (tbl.set i c) where
  idx_lt k := by simpa using h.idx_lt k
  home j b hb := by
    rw [chainAt_set _ _ _ _ hi] at hb
    split_ifs at hb with hj
    · exact hj ▸ hc b hb
    · exact h.home j b hb
  nodup j := by
    rw [chainAt_set _ _ _ _ hi]
    split_ifs
    · exact hn
    · exact h.nodup j

/-- Replacing the chain of `k` by one that differs at `k` only updates the map at `k`. -/
theorem tableMap_set [DecidableEq K] (h : Placed idx tbl) {k : K} {c : List (K × V)} {o : Option V}
    (hc : chainMap c = Function.update (chainMap (chainAt tbl (idx k))) k o) :
    tableMap idx (tbl.set (idx k) c) = Function.update (tableMap idx tbl) k o := by
  funext j
  rw [tableMap, chainAt_set _ _ _ _ (h.idx_lt k)]
  by_cases hj : j = k
  · subst hj
    rw [if_pos rfl, hc, Function.update_self, Function.update_self]
  · rw [Function.update_of_ne hj]
    split_ifs with hi
    · rw [hc, Function.update_of_ne hj, tableMap, hi]
    · rfl

theorem mem_flatten_iff_chainAt (b : K × V) : b ∈ tbl.flatten ↔ ∃ i, b ∈ chainAt tbl i := by
  rw [List.mem_flatten]
  constructor
  · rintro ⟨c, hc, hb⟩
    obtain ⟨i, hi, rfl⟩ := List.getElem_of_mem hc
    exact ⟨i, by rwa [chainAt_of_lt hi]⟩
  · rintro ⟨i, hb⟩
    by_cases hi : i < tbl.length
    · rw [chainAt_of_lt hi] at hb
      exact ⟨_, List.getElem_mem hi, hb⟩
    · simp [chainAt_of_ge (Nat.le_of_not_lt hi)] at hb

theorem Placed.mem_flatten [DecidableEq K] (h : Placed idx tbl) (k : K) (v : V) :
    (k, v) ∈ tbl.flatten ↔ tableMap idx tbl k = some v := by
  rw [mem_flatten_iff_chainAt, tableMap, ← mem_iff_chainMap (h.nodup _)]
  constructor
  · rintro ⟨i, hb⟩
    exact h.home i _ hb ▸ hb
  · intro hb
    exact ⟨_, hb⟩

theorem Placed.flatten_nodup (h : Placed idx tbl) : (tbl.flatten.map Prod.fst).Nodup := by
  rw [List.map_flatten, List.nodup_flatten]
  constructor
  · intro l hl
    obtain ⟨c, hc, rfl⟩ := List.mem_map.mp hl
    obtain ⟨i, hi, rfl⟩ := List.getElem_of_mem hc
    simpa only [chainAt_of_lt hi] using h.nodup i
  · rw [List.pairwise_map, List.pairwise_iff_getElem]
    intro i j hi hj hij k hk hk'
    obtain ⟨b, hb, rfl⟩ := List.mem_map.mp hk
    obtain ⟨b', hb', he⟩ := List.mem_map.mp hk'
    have h1 := h.home i b (by rwa [chainAt_of_lt hi])
    have h2 := h.home j b' (by rwa [chainAt_of_lt hj])
    rw [he] at h2
    omega

end RvAssembler.Chains
