import RvAssembler.Lib.Scan

namespace RvAssembler.Scan

variable {ρ α : Type*}

/-- A match wins if there is no longer one and no earlier rule has the same. -/
theorem scan_of_best [DecidableEq ρ] {rules : List ρ} {accepts : ρ → List α → Bool}
    {input text : List α} {r : ρ} (hr : r ∈ rules) (hpre : text <+: input) (hne : text ≠ [])
    (hacc : accepts r text = true)
    (hlong : ∀ r' ∈ rules, ∀ text', text' <+: input → accepts r' text' = true →
      text'.length ≤ text.length)
    (hfirst : ∀ r' ∈ rules, accepts r' text = true → rules.idxOf r ≤ rules.idxOf r') :
    scan rules accepts input = some (r, text) := by
  obtain ⟨⟨r', text'⟩, h⟩ := Option.ne_none_iff_exists'.mp (scan_ne_none hr hpre hne hacc)
  obtain ⟨hr', -, hpre', hacc', hlong', hfirst'⟩ := scan_eq_some h
  have hlen : text'.length = text.length :=
    le_antisymm (hlong r' hr' text' hpre' hacc') (hlong' r hr text hpre hacc)
  have htext : text' = text :=
    (List.prefix_of_prefix_length_le hpre' hpre hlen.le).eq_of_length hlen
  subst htext
  have hidx : rules.idxOf r' = rules.idxOf r :=
    le_antisymm (hfirst' r hr hacc) (hfirst r' hr' hacc')
  rw [h, (List.idxOf_inj hr').mp hidx]

/-- Rules that have a match for every input that is not empty. -/
structure Scanner (ρ α : Type*) where
  rules : List ρ
  accepts : ρ → List α → Bool
  /-- How much at the end of a match only has to follow the lexeme. -/
  context : ρ → ℕ
  context_lt : ∀ r text, accepts r text = true → context r < text.length
  total : ∀ a, ∃ r ∈ rules, accepts r [a] = true

namespace Scanner

variable (s : Scanner ρ α)

def next (input : List α) : Option (ρ × List α) :=
  (scan s.rules s.accepts input).map fun (r, text) => (r, text.take (text.length - s.context r))

def lexemesUpTo : ℕ → List α → List (ρ × List α)
  | 0, _ => []
  | n + 1, input =>
    match s.next input with
    | none => []
    | some (r, text) => (r, text) :: lexemesUpTo n (input.drop text.length)

/-- The lexemes of an input. -/
def lexemes (input : List α) : List (ρ × List α) := s.lexemesUpTo input.length input

variable {s}

variable [DecidableEq ρ]

theorem next_ne_none {input : List α} (h : input ≠ []) : s.next input ≠ none := by
  obtain ⟨a, input, rfl⟩ := List.exists_cons_of_ne_nil h
  obtain ⟨r, hr, hacc⟩ := s.total a
  rw [next, ne_eq, Option.map_eq_none_iff]
  exact scan_ne_none hr (by simp) (List.cons_ne_nil a []) hacc

theorem next_eq_some {input : List α} {r : ρ} {text : List α} (h : s.next input = some (r, text)) :
    text ≠ [] ∧ text <+: input := by
  obtain ⟨⟨r', whole⟩, hscan, hpair⟩ := Option.map_eq_some_iff.mp h
  obtain ⟨rfl, rfl⟩ := Prod.mk.inj hpair
  obtain ⟨-, -, hpre, hacc, -, -⟩ := scan_eq_some hscan
  have hctx := s.context_lt r' whole hacc
  refine ⟨fun hnil => ?_, (List.take_prefix _ _).trans hpre⟩
  have hlen := congrArg List.length hnil
  rw [List.length_take, List.length_nil] at hlen
  omega

theorem next_nil : s.next [] = none := by
  cases h : s.next [] with
  | none => rfl
  | some l =>
    obtain ⟨hne, hpre⟩ := next_eq_some h
    exact absurd (List.prefix_nil.mp hpre) hne

theorem lexemesUpTo_of_le {n m : ℕ} {input : List α} (hn : input.length ≤ n)
    (hm : input.length ≤ m) : s.lexemesUpTo n input = s.lexemesUpTo m input := by
  induction n generalizing m input with
  | zero =>
    obtain rfl := List.length_eq_zero_iff.mp (Nat.le_zero.mp hn)
    cases m with
    | zero => rfl
    | succ m => rw [lexemesUpTo, lexemesUpTo, next_nil]
  | succ n ih =>
    cases h : s.next input with
    | none =>
      have hnil : input = [] := by_contra fun hne => next_ne_none hne h
      subst hnil
      cases m <;> simp [lexemesUpTo, next_nil]
    | some l =>
      obtain ⟨hne, hpre⟩ := next_eq_some h
      have hlt := List.length_pos_iff.mpr hne
      have hle := hpre.length_le
      obtain ⟨m, rfl⟩ : ∃ k, m = k + 1 := ⟨m - 1, by omega⟩
      rw [lexemesUpTo, lexemesUpTo, h]
      exact congrArg (_ :: ·) (ih (by rw [List.length_drop]; omega) (by rw [List.length_drop]; omega))

theorem lexemes_of_next {r : ρ} {text rest : List α} (h : s.next (text ++ rest) = some (r, text)) :
    s.lexemes (text ++ rest) = (r, text) :: s.lexemes rest := by
  have hpos := List.length_pos_iff.mpr (next_eq_some h).1
  obtain ⟨n, hn⟩ : ∃ n, (text ++ rest).length = n + 1 :=
    ⟨(text ++ rest).length - 1, by rw [List.length_append]; omega⟩
  have hrest : rest.length ≤ n := by
    rw [List.length_append] at hn
    omega
  rw [lexemes, hn, lexemesUpTo, h]
  simp only [List.drop_left]
  rw [lexemesUpTo_of_le hrest le_rfl, ← lexemes]

theorem lexemes_induction {motive : List α → Prop} (nil : motive [])
    (next : ∀ r text rest, s.next (text ++ rest) = some (r, text) → motive rest →
      motive (text ++ rest)) (input : List α) : motive input := by
  induction hn : input.length using Nat.strong_induction_on generalizing input with
  | _ n ih =>
    by_cases hne : input = []
    · rw [hne]
      exact nil
    · obtain ⟨⟨r, text⟩, h⟩ := Option.ne_none_iff_exists'.mp (next_ne_none (s := s) hne)
      obtain ⟨htext, rest, rfl⟩ := next_eq_some h
      have hpos := List.length_pos_iff.mpr htext
      rw [List.length_append] at hn
      exact next r text rest h (ih rest.length (by omega) rest rfl)

/-- No match goes on behind what stops. -/
def StopsAt (s : Scanner ρ α) (stop : α → Prop) : Prop :=
  ∀ r text, s.accepts r text = true → ∀ a ∈ text.dropLast, ¬ stop a

/-- Nothing follows but after what stops. -/
def EndsStopped (stop : α → Prop) (input : List α) : Prop := ∀ a ∈ input.getLast?, stop a

omit [DecidableEq ρ] in
theorem EndsStopped.of_append {stop : α → Prop} {front back : List α}
    (h : EndsStopped stop (front ++ back)) : EndsStopped stop back := by
  intro a ha
  refine h a ?_
  rw [List.getLast?_append, Option.mem_def.mp ha]
  rfl

theorem next_append {stop : α → Prop} (hs : s.StopsAt stop) {front back : List α}
    (hfront : front ≠ []) (hend : EndsStopped stop front) :
    s.next (front ++ back) = s.next front := by
  obtain ⟨⟨r, text⟩, h⟩ : ∃ l, scan s.rules s.accepts front = some l := by
    have hsome := next_ne_none (s := s) hfront
    rw [next, ne_eq, Option.map_eq_none_iff] at hsome
    exact Option.ne_none_iff_exists'.mp hsome
  obtain ⟨hr, hne, hpre, hacc, hlong, hfirst⟩ := scan_eq_some h
  rw [next, next, h, scan_of_best hr (hpre.trans (List.prefix_append _ _)) hne hacc ?_ hfirst]
  intro r' hr' text' hpre' hacc'
  -- a match that went on behind the front would go on behind its last element
  obtain hle | hlt := le_or_gt text'.length front.length
  · exact hlong r' hr' text' (List.prefix_of_prefix_length_le hpre' (List.prefix_append _ _) hle)
      hacc'
  · obtain ⟨more, rfl⟩ :=
      List.prefix_of_prefix_length_le (List.prefix_append front back) hpre' hlt.le
    have hmore : more ≠ [] := by
      rintro rfl
      simp at hlt
    have hlast : front.getLast hfront ∈ (front ++ more).dropLast := by
      rw [List.dropLast_append_of_ne_nil hmore]
      exact List.mem_append_left _ (List.getLast_mem hfront)
    exact absurd (hend _ (List.getLast?_eq_some_getLast hfront)) (hs r' _ hacc' _ hlast)

/-- Where no match can go on, an input is split on either side on its own. -/
theorem lexemes_append {stop : α → Prop} (hs : s.StopsAt stop) {front : List α}
    (hend : EndsStopped stop front) (back : List α) :
    s.lexemes (front ++ back) = s.lexemes front ++ s.lexemes back := by
  induction front using lexemes_induction (s := s) with
  | nil => rfl
  | next r text rest h ih =>
    have hne : text ++ rest ≠ [] := List.append_ne_nil_of_left_ne_nil (next_eq_some h).1 rest
    have hwhole : s.next (text ++ (rest ++ back)) = some (r, text) := by
      rw [← List.append_assoc, next_append hs hne hend, h]
    rw [List.append_assoc, lexemes_of_next hwhole, lexemes_of_next h, ih hend.of_append,
      List.cons_append]

end Scanner

end RvAssembler.Scan
