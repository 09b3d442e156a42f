import Mathlib.Data.Nat.Digits.Lemmas
import RvAssembler.Lexing

namespace RvAssembler

open Scan.Scanner

theorem byteChar_toNat (b : UInt8) : (byteChar b).toNat = b.toNat := by
  have hb := b.toNat_lt
  unfold byteChar Char.ofNat
  rw [dif_pos (Or.inl (by omega))]
  rfl

@[simp] theorem charByte_byteChar (b : UInt8) : charByte (byteChar b) = b := by
  rw [charByte, byteChar_toNat, UInt8.ofNat_toNat]

theorem byteChar_charByte {c : Char} (h : c.toNat < 256) : byteChar (charByte c) = c := by
  rw [byteChar, charByte, UInt8.toNat_ofNat', Nat.mod_eq_of_lt h, Char.ofNat_toNat]

def CString.yytext (s : CString) : List Char := s.bytes.map byteChar

theorem CString.map_charByte (s : CString) : s.yytext.map charByte = s.bytes := by
  rw [CString.yytext, List.map_map]
  exact (List.map_congr_left fun b _ => charByte_byteChar b).trans (List.map_id _)

theorem cStringOf_append (s : CString) {more : List Char}
    (hmore : ∀ c ∈ more.head?, c = '\x00') : cStringOf (s.yytext ++ more) = s := by
  have hbytes : (cStringOf (s.yytext ++ more)).bytes = s.bytes := by
    have hs : ∀ b ∈ s.bytes, decide (b ≠ 0) = true := fun b hb =>
      decide_eq_true fun hzero => s.nulFree (hzero ▸ hb)
    change ((s.yytext ++ more).map charByte).takeWhile _ = s.bytes
    rw [List.map_append, s.map_charByte, List.takeWhile_append_of_pos hs]
    cases more with
    | nil => rw [List.map_nil, List.takeWhile_nil, List.append_nil]
    | cons c more =>
      obtain rfl := hmore c rfl
      rw [List.map_cons, List.takeWhile_cons_of_neg (by decide), List.append_nil]
  cases s
  rw [CString.mk.injEq]
  exact hbytes

def Identifier.Writable (name : Identifier) : Prop :=
  isName name.yytext = true ∧ isRegisterName name.yytext = false ∧
    ∀ k : Keyword, k.text.toList ≠ name.yytext

/-- What can stand between the quotes of a string; it may end in a NUL. -/
def CString.Quotable (s : CString) : Prop := isStringBody (s.yytext ++ ['\x00']) = true

/-- A token that can stand before another one. -/
def Token.Writable : Token → Prop
  | .immediate v => 0 ≤ v.toInt
  | .identifier name => name.Writable
  | .string s => s.Quotable
  | _ => True

def CString.quoted (s : CString) : List Char :=
  if isStringBody s.yytext then s.yytext else s.yytext ++ ['\x00']

def hexText (n : ℕ) : List Char := '0' :: (Nat.digits 16 n).reverse.map Nat.digitChar

def Token.word : Token → List Char
  | .newline => ['\n']
  | .colon => [':']
  | .leftParen => ['(']
  | .rightParen => [')']
  | .comma => [',']
  | .minus => ['-']
  | .keyword k => k.text.toList
  | .register r => 'x' :: Nat.toDigits 10 r.val
  | .immediate v => '0' :: 'x' :: hexText v.toInt.toNat
  | .identifier name => name.yytext
  | .string s => '"' :: (s.quoted ++ ['"'])

/-- A token with a blank behind it, where no line ends. -/
def Token.text (t : Token) : List Char := if t = .newline then t.word else t.word ++ [' ']

theorem tokens_of_next {r : Rule} {text rest : List Char}
    (h : lexer.next (text ++ rest) = some (r, text)) :
    tokens (text ++ rest) = (r.token text).toList ++ tokens rest := by
  rw [tokens, lexemes_of_next h]
  cases htoken : r.token text <;> simp [tokens, htoken]

theorem tokens_newline (rest : List Char) : tokens ('\n' :: rest) = .newline :: tokens rest := by
  have hline : tokens ['\n'] = [.newline] := by decide +kernel
  have hlast : ∀ c ∈ ['\n'].getLast?, c = '\n' := by simp
  rw [← List.singleton_append, tokens_append hlast, hline, List.singleton_append]

def NoBlank (text : List Char) : Prop := ∀ c ∈ text.head?, c ≠ ' ' ∧ c ≠ '\t'

theorem tokens_blank {rest : List Char} (h : NoBlank rest) :
    tokens (' ' :: rest) = tokens rest := by
  have hacc : Rule.blank.accepts [' '] = true := by decide
  have hscan : Scan.scan lexRules Rule.accepts (' ' :: rest) = some (.blank, [' ']) := by
    refine Scan.scan_of_best (mem_lexRules _) ⟨rest, rfl⟩ (by simp) hacc ?_ ?_
    · rintro r' - whole ⟨more, hwhole⟩ h'
      obtain ⟨c, whole, rfl⟩ | rfl : (∃ c cs, whole = c :: cs) ∨ whole = [] := by
        cases whole <;> simp
      swap
      · simp
      obtain ⟨rfl, hrest⟩ := List.cons.inj hwhole
      cases whole with
      | nil => rfl
      | cons d whole =>
        exfalso
        have hd : d ≠ ' ' ∧ d ≠ '\t' := by
          subst hrest
          exact h d rfl
        cases hplain : r'.isPlain with
        | true =>
          have hname : isNameChar ' ' = false := by decide
          have := Rule.dropLast_chars hplain h' ' ' (by simp)
          simp [hname] at this
        | false =>
          cases r' with
          | blank => simp [Rule.accepts, hd] at h'
          | comment => simp [Rule.accepts] at h'
          | string => simp [Rule.accepts, isQuoted] at h'
          | unterminated => simp [Rule.accepts, isQuoted] at h'
          | _ => cases hplain
    · intro r' _ _
      have hfirst : lexRules.idxOf Rule.blank = 0 := rfl
      rw [hfirst]
      exact Nat.zero_le _
  have hnext : lexer.next ([' '] ++ rest) = some (.blank, [' ']) :=
    Option.map_eq_some_iff.mpr ⟨(.blank, [' ']), hscan, rfl⟩
  rw [← List.singleton_append, tokens_of_next hnext]
  rfl

theorem tokens_word {r : Rule} {t : Token} {text rest : List Char}
    (h : lexer.next (text ++ ' ' :: rest) = some (r, text)) (htoken : r.token text = some t)
    (hrest : NoBlank rest) : tokens (text ++ ' ' :: rest) = t :: tokens rest := by
  rw [tokens_of_next h, htoken, tokens_blank hrest]
  rfl

theorem isName_beginsWord {text : List Char} (h : isName text = true) : BeginsWord text := by
  obtain ⟨c, cs, rfl, hc, -⟩ := isName_iff.mp h
  refine ⟨c, cs, rfl, ?_⟩
  refine ⟨?_, ?_, ?_, ?_⟩ <;>
    · rintro rfl
      revert hc
      decide

theorem Keyword.beginsWord (k : Keyword) : BeginsWord k.text.toList := by
  obtain ⟨c, cs, hcs⟩ := List.exists_cons_of_ne_nil k.text_ne_nil
  have hc := Keyword.chars (k := k) (c := c) (by simp [hcs])
  refine ⟨c, cs, hcs, ?_⟩
  refine ⟨?_, ?_, ?_, ?_⟩ <;>
    · rintro rfl
      revert hc
      decide

theorem Keyword.not_isRegisterName (k : Keyword) : isRegisterName k.text.toList = false := by
  have hall : Keyword.all.all (fun k => !isRegisterName k.text.toList) = true := by decide +kernel
  simpa using List.all_eq_true.mp hall k k.mem_all

theorem Rule.idxOf_of_keyword {r : Rule} {k : Keyword} (h : r.accepts k.text.toList = true) :
    lexRules.idxOf (.keyword k) ≤ lexRules.idxOf r := by
  have hplain := Rule.isPlain_of_beginsWord h k.beginsWord
  by_cases hkey : ∃ k', r = .keyword k'
  · obtain ⟨k', rfl⟩ := hkey
    rw [Keyword.text_injective (String.toList_inj.mp (of_decide_eq_true h))]
  · refine (idxOf_keyword k).le.trans (Rule.idxOf_of_notKeyword hplain ?_ (not_exists.mp hkey))
    rintro rfl
    have hline : '\n' ∉ k.text.toList := fun hmem => absurd (Keyword.chars hmem) (by decide)
    simp only [Rule.accepts, Bool.or_eq_true, decide_eq_true_eq] at h
    obtain h | h := h <;> rw [h] at hline <;> exact hline (by decide)

theorem ImmRule.accepts_head {r : ImmRule} {c : Char} {cs : List Char}
    (h : r.accepts (c :: cs) = true) : isNameStart c = false := by
  obtain ⟨ds, htext, hne, hds⟩ := ImmRule.accepts_iff.mp h
  obtain ⟨d, ds, rfl⟩ := List.exists_cons_of_ne_nil hne
  have hzero : isNameStart '0' = false := by decide
  cases r with
  | decimal =>
    obtain ⟨rfl, -⟩ := List.cons.inj htext
    have hc : '0' ≤ c ∧ c ≤ '9' := by simpa [ImmRule.digit] using hds c List.mem_cons_self
    have h0 : '0'.toNat = 48 := rfl
    have h9 : '9'.toNat = 57 := rfl
    rw [Char.le_iff_toNat, Char.le_iff_toNat] at hc
    apply Bool.eq_false_iff.mpr
    intro hstart
    rw [isNameStart_iff] at hstart
    obtain hstart | hstart | rfl := hstart
    · omega
    · omega
    · revert hc
      decide
  | _ =>
    obtain ⟨rfl, -⟩ := List.cons.inj htext
    exact hzero

theorem Rule.idxOf_of_isName {r : Rule} {text : List Char} (h : isName text = true)
    (hkey : ∀ k : Keyword, k.text.toList ≠ text) (hacc : r.accepts text = true) :
    lexRules.idxOf .identifier ≤ lexRules.idxOf r := by
  have hplain := Rule.isPlain_of_beginsWord hacc (isName_beginsWord h)
  obtain ⟨c, cs, rfl, hc, hall⟩ := isName_iff.mp h
  cases r with
  | blank | comment | string | unterminated => cases hplain
  | newline =>
    simp only [Rule.accepts, Bool.or_eq_true, decide_eq_true_eq] at hacc
    have hline : isNameChar '\n' = false := by decide
    have hmem : '\n' ∈ c :: cs := by obtain h | h := hacc <;> rw [h] <;> decide
    rw [hall _ hmem] at hline
    cases hline
  | keyword k => exact absurd (of_decide_eq_true hacc).symm (hkey k)
  | imm r =>
    rw [ImmRule.accepts_head hacc] at hc
    cases hc
  | register =>
    simp only [Rule.accepts, Bool.and_eq_true, List.getLast?_eq_some_getLast (List.cons_ne_nil c cs),
      Option.any_some, hall _ (List.getLast_mem (List.cons_ne_nil c cs)), Bool.not_true] at hacc
    exact absurd hacc.2 Bool.false_ne_true
  | _ => exact idxOf_le_of_later (by decide) (by decide) (by decide)

theorem Char.digitOf_digitChar {n : ℕ} (h : n < 16) :
    digitOf n.digitChar = n ∧ ImmRule.hex.digit n.digitChar = true := by
  interval_cases n <;> decide

theorem hexText_digits {n : ℕ} {c : Char} (h : c ∈ hexText n) : ImmRule.hex.digit c = true := by
  obtain rfl | h := List.mem_cons.mp h
  · decide
  · obtain ⟨d, hd, rfl⟩ := List.mem_map.mp h
    exact (Char.digitOf_digitChar (Nat.digits_lt_base (by norm_num) (List.mem_reverse.mp hd))).2

theorem digitsValue_hexText (n : ℕ) : digitsValue 16 (hexText n) = n := by
  rw [hexText, digitsValue_zero_cons, digitsValue, ← List.map_reverse, List.reverse_reverse,
    List.map_map]
  have hdigits : (Nat.digits 16 n).map (digitOf ∘ Nat.digitChar) = Nat.digits 16 n :=
    (List.map_congr_left fun d hd =>
      (Char.digitOf_digitChar (Nat.digits_lt_base (by norm_num) hd)).1).trans (List.map_id _)
  rw [hdigits, Nat.ofDigits_digits]

theorem value_hexText {v : Int64} (hv : 0 ≤ v.toInt) :
    ImmRule.hex.value ('0' :: 'x' :: hexText v.toInt.toNat) = v := by
  have hdigits : ∀ c ∈ hexText v.toInt.toNat, digitOf c < 16 := fun c hc =>
    ImmRule.digitOf_lt (hexText_digits hc)
  have hlt := v.toInt_lt
  have hne : hexText v.toInt.toNat ≠ [] := List.cons_ne_nil _ _
  rw [ImmRule.value, strtoll_hex hne hdigits, digitsValue_hexText, Int.toNat_of_nonneg hv]
  unfold clamp64
  rw [min_eq_right (by omega), max_eq_right (by omega), Int64.ofInt_toInt]

theorem ImmRule.value_nonneg {r : ImmRule} {text : List Char} (h : r.accepts text = true) :
    0 ≤ (r.value text).toInt := by
  obtain ⟨ds, htext, hne, hd⟩ := ImmRule.accepts_iff.mp h
  have hlt : ∀ c ∈ ds, digitOf c < r.base := fun c hc => ImmRule.digitOf_lt (hd c hc)
  obtain ⟨n, hn⟩ : ∃ n : ℕ, r.value text = Int64.ofInt (clamp64 n) := by
    cases r with
    | hex =>
      refine ⟨digitsValue 16 ds, ?_⟩
      rw [show text = '0' :: 'x' :: ds from htext, ImmRule.value, strtoll_hex hne hlt]
    | binary =>
      refine ⟨digitsValue 2 ds, ?_⟩
      rw [show text = '0' :: 'b' :: ds from htext, ImmRule.value]
      exact strtoll_digits (by decide) hne hlt
    | octal =>
      have hzero : ∀ c ∈ '0' :: ds, digitOf c < 8 := List.forall_mem_cons.mpr ⟨by decide, hlt⟩
      refine ⟨digitsValue 8 ('0' :: ds), ?_⟩
      rw [show text = '0' :: ds from htext, ImmRule.value,
        strtoll_digits (by decide) (List.cons_ne_nil _ _) hzero]
    | decimal =>
      refine ⟨digitsValue 10 ds, ?_⟩
      rw [show text = ds from htext, ImmRule.value]
      exact strtoll_digits (by decide) hne hlt
  rw [hn, clamp64, Int64.toInt_ofInt_of_le (by omega) (by omega)]
  omega

theorem registerOf_text (r : Reg) : isRegisterName ('x' :: Nat.toDigits 10 r.val) = true ∧
    registerOf ('x' :: Nat.toDigits 10 r.val) = r := by
  revert r
  decide +kernel

def closesString (c : Char) : Prop := c = '"' ∨ c = '\r' ∨ c = '\n'

theorem isStringBody_closing {body body' rest rest' : List Char} {c c' : Char}
    (h : isStringBody body = true) (h' : isStringBody body' = true) (hc : closesString c)
    (hc' : closesString c') (heq : body ++ c :: rest = body' ++ c' :: rest') :
    body = body' ∧ c = c' := by
  have hne : ∀ {c}, closesString c → c ≠ '\\' := by
    rintro _ (rfl | rfl | rfl) <;> decide
  -- no text that is a body begins with what closes one
  have hopen : ∀ {c cs}, closesString c → isStringBody (c :: cs) = false := by
    rintro _ cs (rfl | rfl | rfl) <;> rw [isStringBody_cons (by decide)] <;> simp
  fun_induction isStringBody body generalizing body' with
  | case1 =>
    cases body' with
    | nil => exact ⟨rfl, (List.cons.inj heq).1⟩
    | cons d body' =>
      obtain ⟨rfl, -⟩ := List.cons.inj heq
      rw [hopen hc] at h'
      cases h'
  | case2 d body ih =>
    rw [Bool.and_eq_true] at h
    obtain _ | ⟨e, _ | ⟨d', body'⟩⟩ := body'
    · exact absurd (List.cons.inj heq).1.symm (hne hc')
    · obtain ⟨rfl, -⟩ := List.cons.inj heq
      cases h'
    · obtain ⟨rfl, hslash⟩ := List.cons.inj heq
      obtain ⟨rfl, htail⟩ := List.cons.inj hslash
      rw [isStringBody, Bool.and_eq_true] at h'
      obtain ⟨rfl, rfl⟩ := ih h.2 h'.2 htail
      exact ⟨rfl, rfl⟩
  | case3 d body hd ih =>
    have hslash : d ≠ '\\' := by
      intro hslash
      simp [hslash] at h
    rw [Bool.and_eq_true] at h
    cases body' with
    | nil =>
      obtain ⟨rfl, -⟩ := List.cons.inj heq
      have hbody : isStringBody (d :: body) = true := by
        rw [isStringBody_cons hslash, Bool.and_eq_true]
        exact h
      rw [hopen hc'] at hbody
      cases hbody
    | cons d' body' =>
      obtain ⟨rfl, htail⟩ := List.cons.inj heq
      rw [isStringBody_cons hslash, Bool.and_eq_true] at h'
      obtain ⟨rfl, rfl⟩ := ih h.2 h'.2 htail
      exact ⟨rfl, rfl⟩

theorem Rule.of_quote {r : Rule} {c : Char} {cs : List Char}
    (h : r.accepts ('"' :: c :: cs) = true) : r = .string ∨ r = .unterminated := by
  cases hplain : r.isPlain with
  | true =>
    have hquote : isNameChar '"' = false := by decide
    have := Rule.dropLast_chars hplain h '"' (by simp)
    simp [hquote] at this
  | false =>
    cases r with
    | blank => simp [Rule.accepts] at h
    | comment => simp [Rule.accepts] at h
    | string => exact .inl rfl
    | unterminated => exact .inr rfl
    | _ => cases hplain

theorem Rule.length_le_of_quote {r : Rule} {body rest whole : List Char}
    (hbody : isStringBody body = true) (h : r.accepts whole = true)
    (hpre : whole <+: '"' :: (body ++ ['"']) ++ rest) :
    whole.length ≤ ('"' :: (body ++ ['"'])).length := by
  obtain ⟨more, hwhole⟩ := hpre
  have hclose (body' : List Char) (c : Char) (rest' : List Char)
      (h' : isStringBody body' = true) (hc : closesString c)
      (heq : whole ++ more = '"' :: (body' ++ c :: rest')) : body = body' ∧ '"' = c := by
    have hbodies : body ++ '"' :: rest = body' ++ c :: rest' := by
      rw [hwhole] at heq
      simpa using heq
    exact isStringBody_closing hbody h' (.inl rfl) hc hbodies
  obtain _ | ⟨c, _ | ⟨d, cs⟩⟩ := whole
  · simp
  · simp
  obtain ⟨rfl, -⟩ := List.cons.inj hwhole
  obtain rfl | rfl := Rule.of_quote h
  · have h : isQuoted ['"'] ('"' :: d :: cs) = true := h
    obtain ⟨body', htext, hbody'⟩ := isQuoted_iff.mp h
    obtain ⟨rfl, -⟩ := hclose body' '"' more hbody' (.inl rfl) (by rw [htext]; simp)
    rw [htext]
  · have h : isQuoted ['\n'] ('"' :: d :: cs) = true ∨
        isQuoted ['\r', '\n'] ('"' :: d :: cs) = true := by
      simpa [Rule.accepts] using h
    obtain h | h := h <;> obtain ⟨body', htext, hbody'⟩ := isQuoted_iff.mp h
    · obtain ⟨-, hc⟩ := hclose body' '\n' more hbody' (.inr (.inr rfl)) (by rw [htext]; simp)
      exact absurd hc (by decide)
    · obtain ⟨-, hc⟩ := hclose body' '\r' ('\n' :: more) hbody' (.inr (.inl rfl))
        (by rw [htext]; simp)
      exact absurd hc (by decide)

/-- A string ends at the first quote that is not escaped. -/
theorem next_string {body : List Char} (h : isStringBody body = true) (rest : List Char) :
    lexer.next ('"' :: (body ++ ['"']) ++ rest) = some (.string, '"' :: (body ++ ['"'])) := by
  have hacc : Rule.string.accepts ('"' :: (body ++ ['"'])) = true :=
    isQuoted_iff.mpr ⟨body, rfl, h⟩
  have hscan : Scan.scan lexRules Rule.accepts ('"' :: (body ++ ['"']) ++ rest) =
      some (.string, '"' :: (body ++ ['"'])) := by
    refine Scan.scan_of_best (mem_lexRules _) (List.prefix_append _ _) (List.cons_ne_nil _ _)
      hacc (fun r _ whole hpre h' => Rule.length_le_of_quote h h' hpre) ?_
    intro r _ h'
    obtain ⟨c, cs, hcs⟩ := List.exists_cons_of_ne_nil (by simp : body ++ ['"'] ≠ [])
    rw [hcs] at h'
    obtain rfl | rfl := Rule.of_quote h'
    · exact le_rfl
    · exact idxOf_le_of_later (by decide) (by decide) (by decide)
  exact Option.map_eq_some_iff.mpr ⟨_, hscan, Prod.ext rfl List.take_length⟩

theorem cStringOf_yytext (s : CString) : cStringOf s.yytext = s := by
  have h := cStringOf_append s (nofun : ∀ c ∈ ([] : List Char).head?, c = '\x00')
  rwa [List.append_nil] at h

theorem CString.Quotable.isStringBody_quoted {s : CString} (h : s.Quotable) :
    isStringBody s.quoted = true := by
  unfold CString.quoted
  split_ifs with hs
  · exact hs
  · exact h

theorem cStringOf_quoted (s : CString) : cStringOf s.quoted = s := by
  unfold CString.quoted
  split_ifs
  · exact cStringOf_yytext s
  · exact cStringOf_append s (by simp)

theorem identifierOf_yytext (name : Identifier) : identifierOf name.yytext = some name := by
  unfold identifierOf
  rw [cStringOf_yytext, dif_pos name.nonempty]

theorem Token.next_word {t : Token} (h : t.Writable) (hline : t ≠ .newline) (rest : List Char) :
    ∃ r, lexer.next (t.word ++ ' ' :: rest) = some (r, t.word) ∧ r.token t.word = some t := by
  have hsymbol {c : Char} {r : Rule} (hc : c ∈ [':', '(', ')', ',', '-'])
      (hctx : r.context = 0) (hacc : r.accepts [c] = true) (hr : r ∈ laterRules)
      (hfirst : ∀ r' ∈ laterRules, r'.accepts [c] = true →
        laterRules.idxOf r ≤ laterRules.idxOf r') :
      lexer.next ([c] ++ ' ' :: rest) = some (r, [c]) := by
    obtain ⟨hbegins, hnl, hkey⟩ : (c ≠ ' ' ∧ c ≠ '\t' ∧ c ≠ '#' ∧ c ≠ '"') ∧
        c ≠ '\n' ∧ ¬ (97 ≤ c.toNat ∧ c.toNat ≤ 122 ∨ c = '.') := by
      obtain rfl | rfl | rfl | rfl | rfl : c = ':' ∨ c = '(' ∨ c = ')' ∨ c = ',' ∨ c = '-' := by
        simpa using hc
      all_goals decide
    have hno : isRegisterName [c] = false := by
      apply Bool.eq_false_iff.mpr
      intro hreg
      obtain ⟨d, hd, -⟩ | ⟨t, d, hd, -⟩ := isRegisterName_iff.mp hreg <;> cases hd
    refine RvAssembler.next_word ⟨c, [], rfl, hbegins⟩ hno (mem_lexRules r) hctx hacc ?_ rest
    intro r' _ hacc'
    have hlater : r' ∈ laterRules := by
      have hr' := Rule.isPlain_of_beginsWord hacc' ⟨c, [], rfl, hbegins⟩
      cases r' with
      | blank | comment | string | unterminated => cases hr'
      | newline => simp [Rule.accepts, hnl] at hacc'
      | keyword k =>
        have hmem : c ∈ k.text.toList := by
          rw [← (of_decide_eq_true hacc' : [c] = k.text.toList)]
          exact List.mem_cons_self
        exact absurd (Keyword.chars hmem) hkey
      | imm r => cases r <;> decide
      | _ => decide
    exact idxOf_le_of_later hr hlater (hfirst r' hlater hacc')
  cases t with
  | newline => exact absurd rfl hline
  | colon =>
    exact ⟨.colon, hsymbol (by decide) rfl (by decide) (by decide) (by decide), rfl⟩
  | leftParen =>
    exact ⟨.leftParen, hsymbol (by decide) rfl (by decide) (by decide) (by decide), rfl⟩
  | rightParen =>
    exact ⟨.rightParen, hsymbol (by decide) rfl (by decide) (by decide) (by decide), rfl⟩
  | comma =>
    exact ⟨.comma, hsymbol (by decide) rfl (by decide) (by decide) (by decide), rfl⟩
  | minus =>
    exact ⟨.minus, hsymbol (by decide) rfl (by decide) (by decide) (by decide), rfl⟩
  | keyword k =>
    exact ⟨.keyword k, RvAssembler.next_word k.beginsWord k.not_isRegisterName
      (mem_lexRules (.keyword k)) rfl (decide_eq_true rfl)
      (fun r _ h' => Rule.idxOf_of_keyword h') rest, rfl⟩
  | register r =>
    obtain ⟨hname, hvalue⟩ := registerOf_text r
    exact ⟨.register, next_registerName hname rest, congrArg (some ∘ Token.register) hvalue⟩
  | immediate v =>
    have hacc : (Rule.imm .hex).accepts ('0' :: 'x' :: hexText v.toInt.toNat) = true :=
      ImmRule.accepts_iff.mpr ⟨_, rfl, List.cons_ne_nil _ _, fun c => hexText_digits⟩
    have hw : BeginsWord ('0' :: 'x' :: hexText v.toInt.toNat) :=
      ⟨'0', _, rfl, by decide, by decide, by decide, by decide⟩
    refine ⟨.imm .hex, RvAssembler.next_word hw rfl (mem_lexRules _) rfl hacc ?_ rest,
      congrArg (some ∘ Token.immediate) (value_hexText h)⟩
    intro r _ h'
    refine Rule.idxOf_of_notKeyword (Rule.isPlain_of_beginsWord h' hw) ?_ ?_
    · rintro rfl
      simp [Rule.accepts] at h'
    · rintro k rfl
      have hzero : '0' ∈ k.text.toList := by
        rw [← (of_decide_eq_true h' : _ = k.text.toList)]
        exact List.mem_cons_self
      exact absurd (Keyword.chars hzero) (by decide)
  | identifier name =>
    obtain ⟨hname, hreg, hkey⟩ := h
    have hacc : Rule.identifier.accepts name.yytext = true := hname
    refine ⟨.identifier, RvAssembler.next_word (isName_beginsWord hname) hreg (mem_lexRules _)
      rfl hacc (fun r _ h' => Rule.idxOf_of_isName hname hkey h') rest, ?_⟩
    exact (congrArg (Option.map Token.identifier) (identifierOf_yytext name)).trans rfl
  | string s =>
    refine ⟨.string, next_string h.isStringBody_quoted (' ' :: rest), ?_⟩
    have hdrop : (Token.word (.string s)).tail.dropLast = s.quoted := List.dropLast_concat
    rw [Rule.token, List.drop_one, hdrop, cStringOf_quoted]

theorem Token.noBlank_text {t : Token} (h : t.Writable) (more : List Char) :
    NoBlank (t.text ++ more) := by
  have hword {text : List Char} (hw : BeginsWord text) : NoBlank (text ++ [' '] ++ more) := by
    obtain ⟨c, cs, rfl, hspace, htab, -⟩ := hw
    rintro d hd
    obtain rfl := Option.some.inj hd
    exact ⟨hspace, htab⟩
  cases t with
  | keyword k => exact hword k.beginsWord
  | identifier name => exact hword (isName_beginsWord h.1)
  | _ =>
    rintro d hd
    obtain rfl := Option.some.inj hd
    decide

theorem tokens_text_append {t : Token} (h : t.Writable) {rest : List Char} (hrest : NoBlank rest) :
    tokens (t.text ++ rest) = t :: tokens rest := by
  by_cases hline : t = .newline
  · subst hline
    exact tokens_newline rest
  · obtain ⟨r, hnext, htoken⟩ := Token.next_word h hline rest
    rw [Token.text, if_neg hline, List.append_assoc]
    exact tokens_word hnext htoken hrest

/-- Tokens that are written out are read back. -/
theorem tokens_flatMap_text {ts : List Token} (h : ∀ t ∈ ts, t.Writable) :
    tokens (ts.flatMap Token.text) = ts := by
  have hboth : NoBlank (ts.flatMap Token.text) ∧ tokens (ts.flatMap Token.text) = ts := by
    induction ts with
    | nil => exact ⟨nofun, rfl⟩
    | cons t ts ih =>
      obtain ⟨ht, hts⟩ := List.forall_mem_cons.mp h
      obtain ⟨hblank, htokens⟩ := ih hts
      rw [List.flatMap_cons]
      exact ⟨Token.noBlank_text ht _, by rw [tokens_text_append ht hblank, htokens]⟩
  exact hboth.2

theorem isStringBody_takeWhile {body : List Char} (h : isStringBody body = true)
    (p : Char → Bool) : isStringBody (body.takeWhile p ++ ['\x00']) = true := by
  fun_induction isStringBody body with
  | case1 => rfl
  | case2 c body ih =>
    rw [Bool.and_eq_true] at h
    have ih := ih h.2
    cases hslash : p '\\' <;> cases hc : p c <;>
      simp only [List.takeWhile_cons, hslash, hc, Bool.false_eq_true, ↓reduceIte]
    · decide
    · decide
    · decide
    · rw [List.cons_append, List.cons_append, isStringBody, ih, h.1, Bool.true_and]
  | case3 c body hc ih =>
    have hslash : c ≠ '\\' := by
      intro hslash
      simp [hslash] at h
    rw [Bool.and_eq_true] at h
    have ih := ih h.2
    cases hpc : p c <;> simp only [List.takeWhile_cons, hpc, Bool.false_eq_true, ↓reduceIte]
    · decide
    · rw [List.cons_append, isStringBody_cons hslash, ih, h.1, Bool.true_and]

theorem map_byteChar_charByte {text : List Char} (h : ∀ c ∈ text, c.toNat < 256) :
    (text.map charByte).map byteChar = text := by
  rw [List.map_map]
  exact (List.map_congr_left fun c hc => byteChar_charByte (h c hc)).trans (List.map_id _)

theorem cStringOf_quotable {body : List Char} (h : isStringBody body = true)
    (hbytes : ∀ c ∈ body, c.toNat < 256) : (cStringOf body).Quotable := by
  have htext : (cStringOf body).yytext = body.takeWhile ((fun b => decide (b ≠ 0)) ∘ charByte) := by
    change ((body.map charByte).takeWhile fun b => decide (b ≠ 0)).map byteChar = _
    rw [List.takeWhile_map, map_byteChar_charByte]
    exact fun c hc => hbytes c (List.takeWhile_prefix _ |>.subset hc)
  rw [CString.Quotable, htext]
  exact isStringBody_takeWhile h _

theorem yytext_identifierOf {text : List Char} {name : Identifier} (h : isName text = true)
    (hname : identifierOf text = some name) : name.yytext = text := by
  have hchar : ∀ c ∈ text, c.toNat < 256 ∧ charByte c ≠ 0 := by
    intro c hc
    obtain ⟨-, -, -, -, hall⟩ := isName_iff.mp h
    have hc := hall c hc
    have hrange : 0 < c.toNat ∧ c.toNat < 256 := by
      rw [isNameChar_iff, isNameStart_iff] at hc
      obtain (hc | hc | rfl) | hc := hc
      · omega
      · omega
      · decide
      · omega
    refine ⟨hrange.2, fun hzero => ?_⟩
    have hzero := congrArg UInt8.toNat hzero
    rw [charByte, UInt8.toNat_ofNat', Nat.mod_eq_of_lt hrange.2] at hzero
    exact absurd hzero hrange.1.ne'
  unfold identifierOf at hname
  split_ifs at hname
  cases hname
  change ((text.map charByte).takeWhile fun b => decide (b ≠ 0)).map byteChar = text
  rw [List.takeWhile_eq_self_iff.mpr, map_byteChar_charByte fun c hc => (hchar c hc).1]
  intro b hb
  obtain ⟨c, hc, rfl⟩ := List.mem_map.mp hb
  exact decide_eq_true (hchar c hc).2

/-- The scanner returns no other tokens, but for a name at the end of the input. -/
theorem Rule.token_writable {r : Rule} {text rest : List Char} {t : Token}
    (hbytes : ∀ c ∈ text, c.toNat < 256) (hnext : lexer.next (text ++ rest) = some (r, text))
    (hrest : rest ≠ []) (h : r.token text = some t) : t.Writable := by
  obtain ⟨⟨r', whole⟩, hscan, hpair⟩ := Option.map_eq_some_iff.mp hnext
  obtain ⟨rfl, htext⟩ := Prod.mk.inj hpair
  obtain ⟨-, hne, hpre, hacc, hlong, hfirst⟩ := Scan.scan_eq_some hscan
  have hwhole (hctx : r'.context = 0) : whole = text := by
    rw [← htext, show lexer.context r' = 0 from hctx, Nat.sub_zero, List.take_length]
  cases r' with
  | blank | comment | echo => cases h
  | imm r =>
    cases h
    rw [hwhole rfl] at hacc
    exact ImmRule.value_nonneg hacc
  | string =>
    cases h
    rw [hwhole rfl] at hacc
    obtain ⟨body, rfl, hbody⟩ := isQuoted_iff.mp (show isQuoted ['"'] text = true from hacc)
    have hdrop : (('"' :: (body ++ ['"'])).drop 1).dropLast = body := List.dropLast_concat
    rw [hdrop]
    exact cStringOf_quotable hbody fun c hc => hbytes c (by simp [hc])
  | identifier =>
    obtain ⟨name, hname, rfl⟩ := Option.map_eq_some_iff.mp h
    obtain rfl := hwhole rfl
    have hisName : isName whole = true := hacc
    rw [Token.Writable, Identifier.Writable, yytext_identifierOf hisName hname]
    refine ⟨hisName, ?_, ?_⟩
    · -- the character behind it would have been part of a longer match
      apply Bool.eq_false_iff.mpr
      intro hreg
      obtain ⟨c, rest, rfl⟩ := List.exists_cons_of_ne_nil hrest
      have hno : ∀ r, r ∈ lexRules → r.accepts (whole ++ [c]) = true → False := by
        intro r hr h'
        have := hlong r hr (whole ++ [c]) ⟨rest, by simp⟩ h'
        simp at this
      cases hc : isNameChar c with
      | false =>
        refine hno .register (mem_lexRules _) ?_
        rw [Rule.accepts, List.dropLast_concat, List.getLast?_concat, hreg, Option.any_some, hc]
        rfl
      | true =>
        refine hno .identifier (mem_lexRules _) ?_
        obtain ⟨d, ds, rfl, hd, hall⟩ := isName_iff.mp hisName
        exact isName_iff.mpr ⟨d, ds ++ [c], rfl, hd,
          List.forall_mem_append.mpr ⟨hall, List.forall_mem_singleton.mpr hc⟩⟩
    · rintro k rfl
      have hle : lexRules.idxOf .identifier ≤ lexRules.idxOf (.keyword k) :=
        hfirst (.keyword k) (mem_lexRules _) (decide_eq_true rfl)
      have hlt := idxOf_keyword k
      have hhex : lexRules.idxOf (.imm .hex) ≤ lexRules.idxOf .identifier :=
        idxOf_hex_le (by decide)
      omega
  | _ =>
    cases h
    trivial

theorem tokens_writable {text : List Char} (hbytes : ∀ c ∈ text, c.toNat < 256) :
    ∀ t ∈ (tokens text).dropLast, t.Writable := by
  induction text using lexemes_induction (s := lexer) with
  | nil => exact nofun
  | next r text rest hnext ih =>
    obtain ⟨htext, hrest⟩ := List.forall_mem_append.mp hbytes
    rw [tokens_of_next hnext]
    intro t ht
    by_cases hnil : tokens rest = []
    · rw [hnil, List.append_nil] at ht
      cases htoken : r.token text <;> rw [htoken] at ht <;> cases ht
    · rw [List.dropLast_append_of_ne_nil hnil, List.mem_append] at ht
      obtain ht | ht := ht
      · refine Rule.token_writable htext hnext ?_ (Option.mem_toList.mp ht)
        rintro rfl
        exact hnil rfl
      · exact ih hrest t ht

end RvAssembler
