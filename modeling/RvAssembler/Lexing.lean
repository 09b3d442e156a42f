import RvAssembler.Literals
import RvAssembler.Tokens

namespace RvAssembler

open Scan.Scanner

theorem Char.le_iff_toNat {c d : Char} : c ≤ d ↔ c.toNat ≤ d.toNat := Iff.rfl

theorem isNameStart_iff {c : Char} :
    isNameStart c = true ↔ 97 ≤ c.toNat ∧ c.toNat ≤ 122 ∨ 65 ≤ c.toNat ∧ c.toNat ≤ 90 ∨ c = '_' := by
  simp only [isNameStart, Bool.or_eq_true, Bool.and_eq_true, decide_eq_true_eq, Char.le_iff_toNat,
    or_assoc]
  rfl

theorem isNameChar_iff {c : Char} :
    isNameChar c = true ↔ isNameStart c = true ∨ 48 ≤ c.toNat ∧ c.toNat ≤ 57 := by
  simp only [isNameChar, Bool.or_eq_true, Bool.and_eq_true, decide_eq_true_eq, Char.le_iff_toNat]
  rfl

theorem ImmRule.isNameChar_digit {r : ImmRule} {c : Char} (h : r.digit c = true) :
    isNameChar c = true := by
  rw [isNameChar_iff, isNameStart_iff]
  have h0 : '0'.toNat = 48 := rfl
  have h1 : '1'.toNat = 49 := rfl
  have h7 : '7'.toNat = 55 := rfl
  have h9 : '9'.toNat = 57 := rfl
  have ha : 'a'.toNat = 97 := rfl
  have hf : 'f'.toNat = 102 := rfl
  have hA : 'A'.toNat = 65 := rfl
  have hF : 'F'.toNat = 70 := rfl
  cases r <;>
    simp only [ImmRule.digit, Bool.or_eq_true, Bool.and_eq_true, decide_eq_true_eq,
      Char.le_iff_toNat] at h <;> omega

theorem Keyword.mem_all (k : Keyword) : k ∈ Keyword.all := by
  cases k <;> decide

theorem mem_lexRules (r : Rule) : r ∈ lexRules := by
  unfold lexRules
  cases r with
  | keyword k => simp [k.mem_all]
  | imm r => cases r <;> simp
  | _ => simp

theorem Keyword.text_injective {k k' : Keyword} (h : k.text = k'.text) : k = k' := by
  have hnodup : (Keyword.all.map Keyword.text).Nodup := by decide +kernel
  exact List.inj_on_of_nodup_map hnodup k.mem_all k'.mem_all h

theorem Keyword.chars {k : Keyword} {c : Char} (h : c ∈ k.text.toList) :
    97 ≤ c.toNat ∧ c.toNat ≤ 122 ∨ c = '.' := by
  have hall : Keyword.all.all (fun k => k.text.toList.all fun c =>
      decide (97 ≤ c.toNat ∧ c.toNat ≤ 122 ∨ c = '.')) = true := by decide +kernel
  exact of_decide_eq_true (List.all_eq_true.mp (List.all_eq_true.mp hall k k.mem_all) c h)

theorem isRegisterName_iff {text : List Char} :
    isRegisterName text = true ↔ (∃ d, text = ['x', d] ∧ 48 ≤ d.toNat ∧ d.toNat ≤ 57) ∨
      ∃ t d, text = ['x', t, d] ∧ (48 ≤ t.toNat ∧ t.toNat ≤ 50 ∧ 48 ≤ d.toNat ∧ d.toNat ≤ 57 ∨
        t = '3' ∧ 48 ≤ d.toNat ∧ d.toNat ≤ 49) := by
  unfold isRegisterName
  split
  case h_1 => simp [Char.le_iff_toNat]
  case h_2 => simp [Char.le_iff_toNat, and_assoc]
  case h_3 h1 h2 =>
    constructor
    · exact nofun
    · rintro (⟨d, rfl, -⟩ | ⟨t, d, rfl, -⟩)
      · exact absurd rfl (h1 d)
      · exact absurd rfl (h2 t d)

theorem isName_iff {text : List Char} :
    isName text = true ↔ ∃ c cs, text = c :: cs ∧ isNameStart c = true ∧
      ∀ d ∈ text, isNameChar d = true := by
  cases text with
  | nil => simp [isName]
  | cons c cs =>
    have hc : isNameStart c = true → isNameChar c = true := fun h => isNameChar_iff.mpr (.inl h)
    simp only [isName, Bool.and_eq_true, List.all_eq_true, List.cons.injEq, List.forall_mem_cons]
    constructor
    · rintro ⟨h, hcs⟩
      exact ⟨c, cs, ⟨rfl, rfl⟩, h, hc h, hcs⟩
    · rintro ⟨_, _, ⟨rfl, rfl⟩, h, -, hcs⟩
      exact ⟨h, hcs⟩

theorem isName_of_isRegisterName {text : List Char} (h : isRegisterName text = true) :
    isName text = true := by
  rw [isName_iff]
  have hx : isNameStart 'x' = true := by decide
  obtain ⟨d, rfl, hd⟩ | ⟨t, d, rfl, hd⟩ := isRegisterName_iff.mp h
  · refine ⟨'x', [d], rfl, hx, ?_⟩
    simp only [List.forall_mem_cons, isNameChar_iff, hx, true_or, true_and, List.not_mem_nil,
      false_imp_iff, implies_true, and_true]
    omega
  · refine ⟨'x', [t, d], rfl, hx, ?_⟩
    have ht : 48 ≤ t.toNat ∧ t.toNat ≤ 57 := by
      obtain h | ⟨rfl, -⟩ := hd
      · omega
      · decide
    simp only [List.forall_mem_cons, isNameChar_iff, hx, true_or, true_and, List.not_mem_nil,
      false_imp_iff, implies_true, and_true]
    omega

theorem isStringBody_cons {c : Char} (hc : c ≠ '\\') (cs : List Char) :
    isStringBody (c :: cs) =
      (decide (c ≠ '\\') && c ≠ '\r' && c ≠ '\n' && c ≠ '"' && isStringBody cs) := by
  rw [isStringBody]
  intro _ _ hslash
  exact absurd hslash hc

theorem isStringBody_newline {body : List Char} (h : isStringBody body = true) : '\n' ∉ body := by
  fun_induction isStringBody body with
  | case1 => exact List.not_mem_nil
  | case2 c body ih =>
    rw [Bool.and_eq_true, decide_eq_true_eq] at h
    simp [h.1.symm, ih h.2]
  | case3 c body hc ih =>
    simp only [Bool.and_eq_true, decide_eq_true_eq] at h
    simp [h.1.1.2.symm, ih h.2]

theorem isQuoted_iff {stop text : List Char} :
    isQuoted stop text = true ↔
      ∃ body, text = '"' :: (body ++ stop) ∧ isStringBody body = true := by
  unfold isQuoted
  split
  case h_1 cs =>
    rw [Bool.and_eq_true, List.isSuffixOf_iff_suffix]
    constructor
    · rintro ⟨⟨body, rfl⟩, h⟩
      rw [List.length_append, Nat.add_sub_cancel, List.take_left] at h
      exact ⟨body, rfl, h⟩
    · rintro ⟨body, hcs, h⟩
      obtain rfl := (List.cons.inj hcs).2
      rw [List.length_append, Nat.add_sub_cancel, List.take_left]
      exact ⟨List.suffix_append _ _, h⟩
  case h_2 hno =>
    constructor
    · exact nofun
    · rintro ⟨body, rfl, -⟩
      exact absurd rfl (hno _)

/-- The rules for neither blanks nor comments nor strings. -/
def Rule.isPlain : Rule → Bool
  | .blank | .comment | .string | .unterminated => false
  | _ => true

theorem Rule.dropLast_chars {r : Rule} {text : List Char} (hr : r.isPlain = true)
    (h : r.accepts text = true) :
    ∀ c ∈ text.dropLast, isNameChar c = true ∨ c = '.' ∨ c = '\r' := by
  have hmem : ∀ {P : Char → Prop}, (∀ d ∈ text, P d) → ∀ d ∈ text.dropLast, P d :=
    fun h d hd => h d (List.mem_of_mem_dropLast hd)
  cases r with
  | blank | comment | string | unterminated => cases hr
  | newline =>
    simp only [Rule.accepts, Bool.or_eq_true, decide_eq_true_eq] at h
    obtain h | h := h <;> rw [h] <;> simp
  | keyword k =>
    refine hmem fun d hd => ?_
    rw [show text = k.text.toList from of_decide_eq_true h] at hd
    rw [isNameChar_iff, isNameStart_iff]
    have := Keyword.chars hd
    tauto
  | imm r =>
    obtain ⟨ds, htext, -, hds⟩ := ImmRule.accepts_iff.mp h
    refine hmem fun d hd => .inl ?_
    rw [htext] at hd
    obtain hd | hd := List.mem_append.mp hd
    · have hlead : r.lead.all isNameChar = true := by cases r <;> decide
      exact List.all_eq_true.mp hlead d hd
    · exact ImmRule.isNameChar_digit (hds d hd)
  | register =>
    simp only [Rule.accepts, Bool.and_eq_true] at h
    obtain ⟨-, -, -, -, hall⟩ := isName_iff.mp (isName_of_isRegisterName h.1)
    exact fun d hd => .inl (hall d hd)
  | identifier =>
    obtain ⟨-, -, -, -, hall⟩ := isName_iff.mp (show isName text = true from h)
    exact hmem fun d hd => .inl (hall d hd)
  | echo =>
    obtain ⟨c, rfl⟩ := List.length_eq_one_iff.mp (of_decide_eq_true h)
    simp
  | colon | leftParen | rightParen | comma | minus =>
    rw [of_decide_eq_true h]
    simp

/-- No match goes on behind a line break. -/
theorem lexer_stopsAt_newline : lexer.StopsAt (· = '\n') := by
  rintro r text h c hc rfl
  have hplain : r.isPlain = true → False := fun hr => by
    have := Rule.dropLast_chars hr h _ hc
    revert this
    decide
  cases r with
  | blank =>
    simp only [Rule.accepts, lexer, Bool.and_eq_true, List.all_eq_true] at h
    exact absurd (h.2 _ (List.mem_of_mem_dropLast hc)) (by decide)
  | comment =>
    simp only [Rule.accepts, lexer, Bool.and_eq_true, List.all_eq_true] at h
    exact absurd (h.2 _ (List.mem_of_mem_dropLast hc)) (by decide)
  | string =>
    obtain ⟨body, rfl, hbody⟩ := isQuoted_iff.mp h
    rw [← List.cons_append, List.dropLast_concat] at hc
    simp [isStringBody_newline hbody] at hc
  | unterminated =>
    have h : isQuoted ['\n'] text = true ∨ isQuoted ['\r', '\n'] text = true := by
      simpa [lexer, Rule.accepts] using h
    obtain h | h := h <;> obtain ⟨body, rfl, hbody⟩ := isQuoted_iff.mp h
    · rw [← List.cons_append, List.dropLast_concat] at hc
      simp [isStringBody_newline hbody] at hc
    · rw [show body ++ ['\r', '\n'] = (body ++ ['\r']) ++ ['\n'] by simp, ← List.cons_append,
        List.dropLast_concat] at hc
      simp [isStringBody_newline hbody] at hc
  | _ => exact hplain rfl

/-- The lines of a text are scanned on their own. -/
theorem tokens_append {front : List Char} (hfront : ∀ c ∈ front.getLast?, c = '\n')
    (back : List Char) : tokens (front ++ back) = tokens front ++ tokens back := by
  unfold tokens
  rw [lexemes_append lexer_stopsAt_newline hfront, List.filterMap_append]

/-- What begins neither a blank nor a comment nor a string. -/
def BeginsWord (text : List Char) : Prop :=
  ∃ c cs, text = c :: cs ∧ c ≠ ' ' ∧ c ≠ '\t' ∧ c ≠ '#' ∧ c ≠ '"'

theorem BeginsWord.append {text : List Char} (h : BeginsWord text) (more : List Char) :
    BeginsWord (text ++ more) := by
  obtain ⟨c, cs, rfl, hc⟩ := h
  exact ⟨c, cs ++ more, rfl, hc⟩

theorem BeginsWord.ne_nil {text : List Char} (h : BeginsWord text) : text ≠ [] := by
  obtain ⟨c, cs, rfl, -⟩ := h
  exact List.cons_ne_nil c cs

theorem Rule.isPlain_of_beginsWord {r : Rule} {text : List Char} (h : r.accepts text = true)
    (hw : BeginsWord text) : r.isPlain = true := by
  obtain ⟨c, cs, rfl, h1, h2, h3, h4⟩ := hw
  cases r with
  | blank =>
    simp only [Rule.accepts, List.all_cons, Bool.and_eq_true, Bool.or_eq_true,
      decide_eq_true_eq] at h
    tauto
  | comment =>
    simp only [Rule.accepts, List.head?_cons, Bool.and_eq_true, decide_eq_true_eq,
      Option.some.injEq] at h
    exact absurd h.1 h3
  | string =>
    obtain ⟨body, htext, -⟩ := isQuoted_iff.mp h
    exact absurd (List.cons.inj htext).1 h4
  | unterminated =>
    simp only [Rule.accepts, Bool.or_eq_true, isQuoted_iff] at h
    obtain ⟨body, htext, -⟩ | ⟨body, htext, -⟩ := h <;> exact absurd (List.cons.inj htext).1 h4
  | _ => rfl

theorem Rule.accepts_before_blank {r : Rule} {text rest whole : List Char} (hw : BeginsWord text)
    (hpre : whole <+: text ++ ' ' :: rest) (h : r.accepts whole = true) :
    whole.length ≤ text.length ∨
      r = .register ∧ isRegisterName text = true ∧ whole = text ++ [' '] := by
  obtain hle | hlt := le_or_gt whole.length text.length
  · exact .inl hle
  right
  obtain ⟨more, rfl⟩ : text ++ [' '] <+: whole := by
    have hblanked : text ++ [' '] <+: text ++ ' ' :: rest := ⟨rest, by simp⟩
    refine List.prefix_of_prefix_length_le hblanked hpre ?_
    rw [List.length_append, List.length_singleton]
    omega
  have hblank : isNameChar ' ' = false := by decide
  have hplain := Rule.isPlain_of_beginsWord h ((hw.append [' ']).append more)
  obtain rfl : more = [] := by
    by_contra hmore
    have := Rule.dropLast_chars hplain h ' ' (by
      rw [List.dropLast_append_of_ne_nil hmore]
      simp)
    simp [hblank] at this
  rw [List.append_nil] at h ⊢
  have hlong : 2 ≤ (text ++ [' ']).length := by
    have := List.length_pos_iff.mpr hw.ne_nil
    simp
    omega
  have hmem : ' ' ∈ text ++ [' '] := by simp
  cases r with
  | blank | comment | string | unterminated => cases hplain
  | register =>
    simp only [Rule.accepts, List.dropLast_concat, Bool.and_eq_true] at h
    exact ⟨rfl, h.1, rfl⟩
  | newline =>
    simp only [Rule.accepts, Bool.or_eq_true, decide_eq_true_eq] at h
    obtain h | h := h <;> rw [h] at hmem <;> exact absurd hmem (by decide)
  | keyword k =>
    rw [show text ++ [' '] = k.text.toList from of_decide_eq_true h] at hmem
    exact absurd (Keyword.chars hmem) (by decide)
  | imm r =>
    obtain ⟨ds, htext, hne, hds⟩ := ImmRule.accepts_iff.mp h
    rw [htext] at hmem
    obtain hmem | hmem := List.mem_append.mp hmem
    · have hlead : r.lead.all (· ≠ ' ') = true := by cases r <;> decide
      exact absurd (List.all_eq_true.mp hlead _ hmem) (by decide)
    · have := ImmRule.isNameChar_digit (hds _ hmem)
      rw [hblank] at this
      cases this
  | identifier =>
    obtain ⟨-, -, -, -, hall⟩ := isName_iff.mp (show isName (text ++ [' ']) = true from h)
    have := hall _ hmem
    rw [hblank] at this
    cases this
  | echo => exact absurd (of_decide_eq_true h) (by omega)
  | colon | leftParen | rightParen | comma | minus =>
    rw [of_decide_eq_true h] at hlong
    exact absurd hlong (by decide)

theorem next_word {r : Rule} {text : List Char} (hw : BeginsWord text)
    (hno : isRegisterName text = false) (hr : r ∈ lexRules) (hctx : r.context = 0)
    (hacc : r.accepts text = true)
    (hfirst : ∀ r' ∈ lexRules, r'.accepts text = true → lexRules.idxOf r ≤ lexRules.idxOf r')
    (rest : List Char) : lexer.next (text ++ ' ' :: rest) = some (r, text) := by
  have hscan : Scan.scan lexRules Rule.accepts (text ++ ' ' :: rest) = some (r, text) := by
    refine Scan.scan_of_best hr (List.prefix_append _ _) hw.ne_nil hacc ?_ hfirst
    intro r' _ whole hpre h
    obtain hle | ⟨-, hreg, -⟩ := Rule.accepts_before_blank hw hpre h
    · exact hle
    · rw [hno] at hreg
      cases hreg
  have htake : text.take (text.length - r.context) = text := by
    rw [hctx, Nat.sub_zero, List.take_length]
  exact Option.map_eq_some_iff.mpr ⟨(r, text), hscan, Prod.ext rfl htake⟩

theorem next_registerName {text : List Char} (h : isRegisterName text = true) (rest : List Char) :
    lexer.next (text ++ ' ' :: rest) = some (.register, text) := by
  have hw : BeginsWord text := by
    obtain ⟨d, rfl, -⟩ | ⟨t, d, rfl, -⟩ := isRegisterName_iff.mp h
    · exact ⟨'x', [d], rfl, by decide, by decide, by decide, by decide⟩
    · exact ⟨'x', [t, d], rfl, by decide, by decide, by decide, by decide⟩
  have hblank : (!isNameChar ' ') = true := by decide
  have hacc : Rule.register.accepts (text ++ [' ']) = true := by
    rw [Rule.accepts, List.dropLast_concat, List.getLast?_concat, h, Option.any_some, hblank,
      Bool.and_true]
  have hpre : text ++ [' '] <+: text ++ ' ' :: rest := ⟨rest, by simp⟩
  have hscan : Scan.scan lexRules Rule.accepts (text ++ ' ' :: rest) =
      some (.register, text ++ [' ']) := by
    refine Scan.scan_of_best (mem_lexRules _) hpre (by simp) hacc ?_ ?_
    · intro r' _ whole hpre h'
      obtain hle | ⟨-, -, rfl⟩ := Rule.accepts_before_blank hw hpre h'
      · rw [List.length_append]
        omega
      · exact le_rfl
    · intro r' _ h'
      obtain hle | ⟨rfl, -⟩ := Rule.accepts_before_blank hw hpre h'
      · rw [List.length_append, List.length_singleton] at hle
        omega
      · exact le_rfl
  refine Option.map_eq_some_iff.mpr ⟨(.register, text ++ [' ']), hscan, Prod.ext rfl ?_⟩
  have hlen : (text ++ [' ']).length - 1 = text.length := by
    rw [List.length_append, List.length_singleton, Nat.add_sub_cancel]
  exact (congrArg (List.take · (text ++ [' '])) hlen).trans List.take_left

def laterRules : List Rule :=
  [.imm .hex, .register, .imm .binary, .imm .octal, .imm .decimal, .identifier, .string,
    .unterminated, .colon, .leftParen, .rightParen, .comma, .minus, .echo]

theorem lexRules_eq : lexRules =
    [Rule.blank, .comment, .newline] ++ Keyword.all.map .keyword ++ laterRules := rfl

theorem idxOf_laterRules {r : Rule} (h : r ∈ laterRules) :
    lexRules.idxOf r = 3 + Keyword.all.length + laterRules.idxOf r := by
  have hplain : ∀ r ∈ laterRules, r ∉ [Rule.blank, .comment, .newline] := by decide
  have hno : r ∉ [Rule.blank, .comment, .newline] ++ Keyword.all.map .keyword := by
    rw [List.mem_append, not_or]
    refine ⟨hplain r h, fun hmem => ?_⟩
    obtain ⟨k, -, rfl⟩ := List.mem_map.mp hmem
    simp [laterRules] at h
  rw [lexRules_eq, List.idxOf_append_of_notMem hno, List.length_append, List.length_map]
  rfl

theorem idxOf_keyword (k : Keyword) : lexRules.idxOf (.keyword k) < lexRules.idxOf (.imm .hex) := by
  have hmem : Rule.keyword k ∈ [Rule.blank, .comment, .newline] ++ Keyword.all.map .keyword :=
    List.mem_append_right _ (List.mem_map_of_mem k.mem_all)
  have hhex : Rule.imm .hex ∈ laterRules := by decide
  rw [idxOf_laterRules hhex, lexRules_eq, List.idxOf_append_of_mem hmem]
  have hlt := List.idxOf_lt_length_of_mem hmem
  rw [List.length_append, List.length_map] at hlt
  exact hlt

theorem idxOf_le_of_later {r r' : Rule} (h : r ∈ laterRules) (h' : r' ∈ laterRules)
    (hle : laterRules.idxOf r ≤ laterRules.idxOf r') : lexRules.idxOf r ≤ lexRules.idxOf r' := by
  rw [idxOf_laterRules h, idxOf_laterRules h']
  exact Nat.add_le_add_left hle _

theorem idxOf_hex_le {r : Rule} (h : r ∈ laterRules) :
    lexRules.idxOf (.imm .hex) ≤ lexRules.idxOf r :=
  idxOf_le_of_later (by decide) h (Nat.zero_le _)

/-- Only blanks, comments, line breaks and keywords come before a number in hexadecimal. -/
theorem Rule.idxOf_of_notKeyword {r : Rule} (hr : r.isPlain = true) (hnl : r ≠ .newline)
    (hkey : ∀ k, r ≠ .keyword k) : lexRules.idxOf (.imm .hex) ≤ lexRules.idxOf r := by
  cases r with
  | blank | comment | string | unterminated => cases hr
  | newline => exact absurd rfl hnl
  | keyword k => exact absurd rfl (hkey k)
  | imm r => cases r <;> exact idxOf_hex_le (by decide)
  | _ => exact idxOf_hex_le (by decide)

end RvAssembler
