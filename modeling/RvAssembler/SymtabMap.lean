import RvAssembler.Symtab

namespace RvAssembler

open Chains

def SymTab.toMap (t : SymTab) : CString → Option ℤ := tableMap (fun k => hash k t.size) t.hashTable

/-- Nodes sit in the bucket of their hash under distinct keys, `count` counts them and
stays at most one insertion above half of the size. -/
structure SymTab.Sound (t : SymTab) : Prop where
  length : t.hashTable.length = t.size
  placed : Placed (fun k => hash k t.size) t.hashTable
  count_eq : t.count = t.hashTable.flatten.length
  load : 2 * t.count < t.size + 2
  two_le : 2 ≤ t.size

theorem chainInsert_eq (k : CString) (v : ℤ) (c : List Kvp) :
    chainInsert k v c = if chainMap c k = none then some (c ++ [(k, v)]) else none := by
  induction c with
  | nil => rfl
  | cons b c ih =>
    rw [chainInsert, chainMap_cons, ih]
    split_ifs <;> simp_all

theorem chainSearch_eq (k : CString) (c : List Kvp) : chainSearch k c = (chainMap c k).getD (-1) := by
  induction c with
  | nil => rfl
  | cons b c ih =>
    rw [chainSearch, chainMap_cons, ih]
    split_ifs <;> rfl

theorem chainRemove_eq (k : CString) (c : List Kvp) :
    chainRemove k c = if chainMap c k = none then none else some (c.eraseP fun b => b.1 = k) := by
  induction c with
  | nil => rfl
  | cons b c ih =>
    rw [chainRemove, chainMap_cons, ih]
    by_cases h : b.1 = k
    · simp [h]
    · rw [if_neg h, if_neg h, List.eraseP_cons_of_neg (by simpa using h)]
      split_ifs <;> rfl

theorem hash_lt {n : ℕ} (hn : 2 ≤ n) (k : CString) : hash k n < n := Nat.mod_lt _ (by omega)

theorem sound_replicate {n : ℕ} (hn : 2 ≤ n) :
    SymTab.Sound { hashTable := List.replicate n [], count := 0, size := n } where
  length := by simp
  placed := placed_replicate (hash_lt hn)
  count_eq := by simp
  load := by simp
  two_le := hn

theorem toMap_replicate (n : ℕ) :
    SymTab.toMap { hashTable := List.replicate n [], count := 0, size := n } = fun _ => none :=
  tableMap_replicate _ _

theorem createSymtab_sound : createSymtab.Sound := sound_replicate (by decide)

theorem createSymtab_toMap : createSymtab.toMap = fun _ => none := toMap_replicate _

def SymTab.hang (t : SymTab) (k : CString) (v : ℤ) : SymTab :=
  { t with
    hashTable := t.hashTable.set (hash k t.size) (chainAt t.hashTable (hash k t.size) ++ [(k, v)])
    count := t.count + 1 }

@[simp] theorem SymTab.hang_size (t : SymTab) (k : CString) (v : ℤ) : (t.hang k v).size = t.size :=
  rfl

@[simp] theorem SymTab.hang_count (t : SymTab) (k : CString) (v : ℤ) :
    (t.hang k v).count = t.count + 1 := rfl

theorem insertInBucket_eq (t : SymTab) (k : CString) (v : ℤ) :
    insertInBucket t k v = if t.toMap k = none then (t.hang k v, true) else (t, false) := by
  simp only [insertInBucket, chainInsert_eq]
  by_cases h : t.toMap k = none
  · rw [if_pos h, if_pos (show chainMap (chainAt t.hashTable (hash k t.size)) k = none from h)]
    rfl
  · rw [if_neg h, if_neg (show ¬ chainMap (chainAt t.hashTable (hash k t.size)) k = none from h)]

theorem insertSymAt_of_room {t : SymTab} (hl : loadReached t = false) (depth : ℕ) (k : CString)
    (v : ℤ) : insertSymAt (depth + 1) t k v = some (insertInBucket t k v) := by
  simp only [insertSymAt, hl, Bool.false_eq_true, ↓reduceIte, Option.map_some]

theorem SymTab.Sound.hang {t : SymTab} (h : t.Sound) {k : CString} (hk : t.toMap k = none) (v : ℤ)
    (hl : loadReached t = false) :
    (t.hang k v).Sound ∧ (t.hang k v).toMap = Function.update t.toMap k (some v) := by
  have hnew : k ∉ (chainAt t.hashTable (hash k t.size)).map Prod.fst := chainMap_eq_none.mp hk
  have hlt : hash k t.size < t.hashTable.length := h.placed.idx_lt k
  have hload : ¬ t.size ≤ 2 * t.count := by simpa [loadReached] using hl
  constructor
  · refine ⟨by simpa [SymTab.hang] using h.length, ?_, ?_, ?_, h.two_le⟩
    · refine h.placed.set hlt ?_ (nodup_append_new v (h.placed.nodup _) hnew)
      intro b hb
      rcases List.mem_append.mp hb with hb | hb
      · exact h.placed.home _ b hb
      · rw [List.mem_singleton.mp hb]
    · have hlen := length_flatten_set (hash k t.size)
        (chainAt t.hashTable (hash k t.size) ++ [(k, v)]) hlt
      have hc := h.count_eq
      simp only [List.length_append, List.length_singleton] at hlen
      simp only [SymTab.hang]
      omega
    · rw [SymTab.hang_count, SymTab.hang_size]
      omega
  · exact tableMap_set h.placed (chainMap_append_new v hnew)

theorem le_resizedTable_size (t : SymTab) : 2 * t.size ≤ (resizedTable t).size := by
  have h := le_findNextPrime (2 * t.size)
  simp only [resizedTable]
  omega

theorem SymTab.Sound.resizedTable {t : SymTab} (h : t.Sound) : (resizedTable t).Sound := by
  have h1 := h.two_le
  have h2 := le_resizedTable_size t
  exact sound_replicate (n := (RvAssembler.resizedTable t).size) (by omega)

def SymTab.hangAll (t : SymTab) (nodes : List Kvp) : SymTab :=
  nodes.foldl (fun new node => new.hang node.1 node.2) t

/-- Re-inserting nodes under fresh distinct keys, as long as half of the table has room
for them, hangs each of them. -/
theorem reinsert_spec (depth : ℕ) (nodes : List Kvp) (t : SymTab) (h : t.Sound)
    (hn : (nodes.map Prod.fst).Nodup) (hfresh : ∀ b ∈ nodes, t.toMap b.1 = none)
    (hroom : 2 * (t.count + nodes.length) < t.size + 2) :
    nodes.foldlM (fun new node => (insertSymAt (depth + 1) new node.1 node.2).map Prod.fst) t =
        some (t.hangAll nodes) ∧ (t.hangAll nodes).Sound ∧ (t.hangAll nodes).size = t.size ∧
      (t.hangAll nodes).count = t.count + nodes.length ∧
      (t.hangAll nodes).toMap = fun k => (chainMap nodes k).or (t.toMap k) := by
  induction nodes generalizing t with
  | nil => exact ⟨rfl, h, rfl, rfl, rfl⟩
  | cons b nodes ih =>
    simp only [List.length_cons] at hroom
    obtain ⟨hb, hn'⟩ := List.nodup_cons.mp (by simpa only [List.map_cons] using hn)
    have hl : loadReached t = false := by
      simp only [loadReached, decide_eq_false_iff_not]
      omega
    have hnone := hfresh b List.mem_cons_self
    obtain ⟨hs, hm⟩ := h.hang hnone b.2 hl
    -- the keys are distinct, so the others are still fresh
    have hfresh' : ∀ b' ∈ nodes, (t.hang b.1 b.2).toMap b'.1 = none := by
      intro b' hb'
      have hne : b'.1 ≠ b.1 := fun e => hb (e ▸ List.mem_map_of_mem hb')
      rw [hm, Function.update_of_ne hne]
      exact hfresh b' (List.mem_cons_of_mem _ hb')
    obtain ⟨hfold, hs', hsize, hcount, hmap⟩ := ih _ hs hn' hfresh' (by
      rw [SymTab.hang_count, SymTab.hang_size]
      omega)
    refine ⟨?_, hs', hsize, ?_, ?_⟩
    · rw [List.foldlM_cons, insertSymAt_of_room hl, insertInBucket_eq, if_pos hnone]
      exact hfold
    · rw [List.length_cons]
      exact hcount.trans (by rw [SymTab.hang_count]; omega)
    · refine hmap.trans ?_
      rw [hm]
      funext k
      rw [chainMap_cons]
      by_cases hk : b.1 = k
      · subst hk
        rw [chainMap_eq_none.mpr hb, Function.update_self, if_pos rfl]
        rfl
      · rw [Function.update_of_ne (Ne.symm hk), if_neg hk]

theorem SymTab.Sound.chainMap_flatten {t : SymTab} (h : t.Sound) :
    chainMap t.hashTable.flatten = t.toMap := by
  funext k
  apply Option.ext
  intro v
  rw [← mem_iff_chainMap h.placed.flatten_nodup, h.placed.mem_flatten]
  rfl

def SymTab.nodes (t : SymTab) : List Kvp := (t.hashTable.take t.size).flatten

theorem SymTab.Sound.nodes_eq {t : SymTab} (h : t.Sound) : t.nodes = t.hashTable.flatten := by
  rw [SymTab.nodes, List.take_of_length_le h.length.le]

theorem SymTab.Sound.nodes_nodup {t : SymTab} (h : t.Sound) : (t.nodes.map Prod.fst).Nodup := by
  rw [h.nodes_eq]
  exact h.placed.flatten_nodup

theorem resizedTable_toMap (t : SymTab) : (resizedTable t).toMap = fun _ => none :=
  toMap_replicate _

@[simp] theorem resizedTable_count (t : SymTab) : (resizedTable t).count = 0 := rfl

theorem SymTab.Sound.nodes_room {t : SymTab} (h : t.Sound) :
    2 * t.nodes.length < (RvAssembler.resizedTable t).size := by
  have h1 := le_resizedTable_size t
  have h2 := h.load
  have h3 := h.count_eq
  have h4 := h.two_le
  rw [h.nodes_eq]
  omega

def SymTab.resized (t : SymTab) : SymTab := (resizedTable t).hangAll t.nodes

/-- A resize keeps the map and leaves room for one more node. -/
theorem SymTab.Sound.resize {t : SymTab} (h : t.Sound) (depth : ℕ) :
    resizeSymtab (insertSymAt (depth + 1)) t = some t.resized ∧ t.resized.Sound ∧
      t.resized.toMap = t.toMap ∧ loadReached t.resized = false := by
  have hroom := h.nodes_room
  obtain ⟨hfold, hs, hsize, hcount, hmap⟩ := reinsert_spec depth t.nodes _ h.resizedTable
    h.nodes_nodup (fun b _ => congrFun (resizedTable_toMap t) b.1)
    (by rw [resizedTable_count]; omega)
  refine ⟨hfold, hs, hmap.trans ?_, ?_⟩
  · rw [h.nodes_eq, h.chainMap_flatten, resizedTable_toMap]
    funext k
    rw [Option.or_none]
  · rw [resizedTable_count] at hcount
    simp only [loadReached, decide_eq_false_iff_not, SymTab.resized, hsize, hcount]
    omega

/-- The nodes a resize re-inserts meet neither another resize nor a duplicate. -/
def SymTab.ResizesCleanly (t : SymTab) : Prop :=
  ∀ (depth : ℕ) (pre : List Kvp) (node : Kvp) (post : List Kvp), t.nodes = pre ++ node :: post →
    ∃ new, pre.foldlM (fun new node => (insertSymAt (depth + 1) new node.1 node.2).map Prod.fst)
        (resizedTable t) = some new ∧ loadReached new = false ∧
      ∃ new', insertSymAt (depth + 1) new node.1 node.2 = some (new', true)

theorem SymTab.Sound.resizesCleanly {t : SymTab} (h : t.Sound) : t.ResizesCleanly := by
  intro depth pre node post hsplit
  have hroom := h.nodes_room
  have hn := h.nodes_nodup
  rw [hsplit, List.map_append, List.nodup_append] at hn
  rw [hsplit, List.length_append, List.length_cons] at hroom
  obtain ⟨hfold, hs, hsize, hcount, hmap⟩ := reinsert_spec depth pre _ h.resizedTable hn.1
    (fun b _ => congrFun (resizedTable_toMap t) b.1) (by rw [resizedTable_count]; omega)
  have hl : loadReached ((RvAssembler.resizedTable t).hangAll pre) = false := by
    rw [resizedTable_count] at hcount
    simp only [loadReached, decide_eq_false_iff_not, hsize, hcount]
    omega
  have hnew : ((RvAssembler.resizedTable t).hangAll pre).toMap node.1 = none := by
    have hpre : node.1 ∉ pre.map Prod.fst := fun hm => hn.2.2 _ hm _ List.mem_cons_self rfl
    simp only [hmap, chainMap_eq_none.mpr hpre, resizedTable_toMap, Option.or_none]
  refine ⟨_, hfold, hl, ?_⟩
  rw [insertSymAt_of_room hl, insertInBucket_eq, if_pos hnew]
  exact ⟨_, rfl⟩

/-- The table an insertion works on: resized first when half full. -/
def SymTab.roomy (t : SymTab) : SymTab := if loadReached t then t.resized else t

theorem SymTab.Sound.roomy {t : SymTab} (h : t.Sound) :
    t.roomy.Sound ∧ t.roomy.toMap = t.toMap ∧ loadReached t.roomy = false := by
  unfold SymTab.roomy
  split_ifs with hl
  · exact (h.resize 0).2
  · exact ⟨h, rfl, Bool.eq_false_of_not_eq_true hl⟩

/-- Two activations of `insert_sym` always suffice, and more change nothing. -/
theorem SymTab.Sound.insertSymAt_eq {t : SymTab} (h : t.Sound) (depth : ℕ) (k : CString) (v : ℤ) :
    insertSymAt (depth + 2) t k v = some (insertInBucket t.roomy k v) := by
  unfold SymTab.roomy
  rw [insertSymAt]
  split_ifs with hl
  · rw [(h.resize depth).1, Option.map_some]
  · rw [Option.map_some]

theorem SymTab.Sound.insertSym_eq {t : SymTab} (h : t.Sound) (k : CString) (v : ℤ) :
    insertSym t k v =
      if t.toMap k = none then (t.roomy.hang k v, true) else (t.roomy, false) := by
  rw [insertSym, h.insertSymAt_eq 0, Option.getD_some, insertInBucket_eq, h.roomy.2.1]

theorem SymTab.Sound.insertSym {t : SymTab} (h : t.Sound) (k : CString) (v : ℤ) :
    (insertSym t k v).1.Sound ∧
      (RvAssembler.insertSym t k v).1.toMap =
        if t.toMap k = none then Function.update t.toMap k (some v) else t.toMap := by
  obtain ⟨hs, hm, hl⟩ := h.roomy
  rw [h.insertSym_eq]
  split_ifs with hk
  · have hh := hs.hang (hm ▸ hk) v hl
    exact ⟨hh.1, hh.2.trans (by rw [hm])⟩
  · exact ⟨hs, hm⟩

theorem searchSym_eq (t : SymTab) (k : CString) : searchSym t k = (t.toMap k).getD (-1) :=
  chainSearch_eq k _

def SymTab.unhang (t : SymTab) (k : CString) : SymTab :=
  { t with
    hashTable := t.hashTable.set (hash k t.size)
      ((chainAt t.hashTable (hash k t.size)).eraseP fun b => b.1 = k)
    count := t.count - 1 }

theorem removeSym_eq (t : SymTab) (k : CString) :
    removeSym t k = if t.toMap k = none then (t, false) else (t.unhang k, true) := by
  simp only [removeSym, chainRemove_eq]
  by_cases h : t.toMap k = none
  · rw [if_pos h, if_pos (show chainMap (chainAt t.hashTable (hash k t.size)) k = none from h)]
  · rw [if_neg h, if_neg (show ¬ chainMap (chainAt t.hashTable (hash k t.size)) k = none from h)]
    rfl

theorem SymTab.Sound.unhang {t : SymTab} (h : t.Sound) {k : CString} (hk : t.toMap k ≠ none) :
    (t.unhang k).Sound ∧ (t.unhang k).toMap = Function.update t.toMap k none := by
  have hlt : hash k t.size < t.hashTable.length := h.placed.idx_lt k
  have hn := h.placed.nodup (hash k t.size)
  obtain ⟨v, hv⟩ := Option.ne_none_iff_exists'.mp hk
  have hmem : (k, v) ∈ chainAt t.hashTable (hash k t.size) := (mem_iff_chainMap hn k v).mpr hv
  constructor
  · refine ⟨by simpa [SymTab.unhang] using h.length, ?_, ?_, ?_, h.two_le⟩
    · refine h.placed.set hlt (fun b hb => h.placed.home _ b (List.mem_of_mem_eraseP hb)) ?_
      exact hn.sublist (List.eraseP_sublist.map _)
    · have hlen := length_flatten_set (hash k t.size)
        ((chainAt t.hashTable (hash k t.size)).eraseP fun b => b.1 = k) hlt
      have hc := h.count_eq
      have hpos := List.length_pos_of_mem hmem
      rw [List.length_eraseP_of_mem hmem (decide_eq_true rfl)] at hlen
      dsimp only [SymTab.unhang, Kvp] at hc ⊢
      omega
    · have := h.load
      simp only [SymTab.unhang]
      omega
  · exact tableMap_set h.placed (chainMap_erase k hn)

theorem SymTab.Sound.removeSym {t : SymTab} (h : t.Sound) (k : CString) :
    (removeSym t k).1.Sound ∧ (RvAssembler.removeSym t k).1.toMap = Function.update t.toMap k none := by
  rw [removeSym_eq]
  split_ifs with hk
  · exact ⟨h, by rw [← hk, Function.update_eq_self]⟩
  · exact h.unhang hk

theorem SymTab.Sound.removeAllSym {t : SymTab} (h : t.Sound) :
    (removeAllSym t).1.Sound ∧ (RvAssembler.removeAllSym t).1.toMap = fun _ => none := by
  have he : (RvAssembler.removeAllSym t).1 =
      { hashTable := List.replicate t.size [], count := 0, size := t.size } := by
    simp [RvAssembler.removeAllSym, ← h.length, List.map_const']
  rw [he]
  exact ⟨sound_replicate h.two_le, toMap_replicate _⟩

inductive SymCall
  | insert (key : CString) (value : ℤ)
  | search (key : CString)
  | remove (key : CString)
  | removeAll

inductive SymAnswer
  | flag (b : Bool)
  | value (v : ℤ)

def SymCall.run (t : SymTab) : SymCall → SymTab × SymAnswer
  | .insert k v => ((insertSym t k v).1, .flag (insertSym t k v).2)
  | .search k => (t, .value (searchSym t k))
  | .remove k => ((removeSym t k).1, .flag (removeSym t k).2)
  | .removeAll => ((removeAllSym t).1, .flag (removeAllSym t).2)

def SymCall.spec (m : CString → Option ℤ) : SymCall → (CString → Option ℤ) × SymAnswer
  | .insert k v =>
    if m k = none then (Function.update m k (some v), .flag true) else (m, .flag false)
  | .search k => (m, .value ((m k).getD (-1)))
  | .remove k => (Function.update m k none, .flag (m k).isSome)
  | .removeAll => (fun _ => none, .flag true)

def runCalls {S : Type*} (call : S → SymCall → S × SymAnswer) (s : S) :
    List SymCall → S × List SymAnswer
  | [] => (s, [])
  | c :: cs =>
    let (s', a) := call s c
    let (s'', as) := runCalls call s' cs
    (s'', a :: as)

theorem SymTab.Sound.call {t : SymTab} (h : t.Sound) (c : SymCall) :
    (c.run t).1.Sound ∧ ((c.run t).1.toMap, (c.run t).2) = c.spec t.toMap := by
  cases c with
  | insert k v =>
    refine ⟨(h.insertSym k v).1, ?_⟩
    simp only [SymCall.run, SymCall.spec]
    rw [(h.insertSym k v).2, h.insertSym_eq]
    split_ifs <;> rfl
  | search k => exact ⟨h, by rw [SymCall.run, searchSym_eq]; rfl⟩
  | remove k =>
    refine ⟨(h.removeSym k).1, ?_⟩
    simp only [SymCall.run, SymCall.spec]
    rw [(h.removeSym k).2, removeSym_eq]
    split_ifs with hk
    · rw [hk]
      rfl
    · rw [Option.isSome_iff_ne_none.mpr hk]
  | removeAll => exact ⟨h.removeAllSym.1, by rw [SymCall.spec, ← h.removeAllSym.2]; rfl⟩

theorem SymTab.Sound.runCalls {t : SymTab} (h : t.Sound) (cs : List SymCall) :
    (runCalls (fun t c => c.run t) t cs).1.Sound ∧
      ((RvAssembler.runCalls (fun t c => c.run t) t cs).1.toMap,
        (RvAssembler.runCalls (fun t c => c.run t) t cs).2) =
      RvAssembler.runCalls (fun m c => c.spec m) t.toMap cs := by
  induction cs generalizing t with
  | nil => exact ⟨h, rfl⟩
  | cons c cs ih =>
    obtain ⟨hs, hc⟩ := h.call c
    obtain ⟨hs', hcs⟩ := ih hs
    refine ⟨hs', ?_⟩
    simp only [RvAssembler.runCalls]
    rw [← hc]
    simp only
    rw [← hcs]

/-- From the empty table every sequence of calls answers as a finite map would; every
table reached is sound and would resize without a second resize or a duplicate. -/
theorem symtab_refines_map (cs : List SymCall) :
    let (t, answers) := runCalls (fun t c => c.run t) createSymtab cs
    (t.toMap, answers) = runCalls (fun m c => c.spec m) (fun _ => none) cs ∧ t.Sound ∧
      t.ResizesCleanly := by
  obtain ⟨hs, hr⟩ := createSymtab_sound.runCalls cs
  rw [createSymtab_toMap] at hr
  exact ⟨hr, hs, hs.resizesCleanly⟩

end RvAssembler
