import Mathlib.Data.List.TakeWhile
import Mathlib.Data.Nat.Digits.Defs
import RvAssembler.Lexer
import RvAssembler.Main

namespace RvAssembler

def digitsValue (base : ℕ) (ds : List Char) : ℕ := Nat.ofDigits base (ds.reverse.map digitOf)

theorem foldl_digits (base : ℕ) (ds : List Char) :
    ds.foldl (fun n c => n * base + digitOf c) 0 = digitsValue base ds := by
  have hstep : (fun (c : Char) (n : ℕ) => n * base + digitOf c) =
      fun c n => digitOf c + base * n := by
    funext c n
    ring
  unfold digitsValue
  rw [Nat.ofDigits_eq_foldr, List.foldr_map, List.foldr_reverse]
  exact congrFun (congrFun (congrArg List.foldl (congrArg flip hstep)) 0) ds

theorem digitsValue_zero_cons (base : ℕ) (ds : List Char) :
    digitsValue base ('0' :: ds) = digitsValue base ds := by
  unfold digitsValue
  rw [List.reverse_cons, List.map_append]
  exact Nat.ofDigits_append_zero _

theorem strtollSign_digit {c : Char} (hc : digitOf c < 36) (s : List Char) :
    strtollSign ((c :: s).dropWhile isSpace) = (false, c :: s) := by
  have hspace : isSpace c = false := by
    apply Bool.eq_false_iff.mpr
    intro hspace
    have hnone : [' ', '\t', '\n', '\x0b', '\x0c', '\r'].all (36 ≤ digitOf ·) = true := by decide
    have h36 := List.all_eq_true.mp hnone c (List.contains_iff_mem.mp hspace)
    exact absurd hc (not_lt.mpr (of_decide_eq_true h36))
  rw [List.dropWhile_cons_of_neg (by rw [hspace]; decide)]
  unfold strtollSign
  split
  case h_1 heq =>
    obtain ⟨rfl, -⟩ := List.cons.inj heq
    exact absurd hc (by decide)
  case h_2 heq =>
    obtain ⟨rfl, -⟩ := List.cons.inj heq
    exact absurd hc (by decide)
  case h_3 => rfl

theorem strtoll_digits {base : ℕ} (hb : base < 16) {s : List Char} (hs : s ≠ [])
    (hd : ∀ c ∈ s, digitOf c < base) :
    strtoll s base = Int64.ofInt (clamp64 (digitsValue base s)) := by
  obtain ⟨c, s, rfl⟩ := List.exists_cons_of_ne_nil hs
  have hc : digitOf c < 36 := (hd c List.mem_cons_self).trans (by omega)
  have hskip : strtollPrefix base (c :: s) = c :: s := by
    unfold strtollPrefix
    split
    case h_1 heq => rw [if_neg (by omega), heq]
    case h_2 => rfl
  have htake : (c :: s).takeWhile (fun c => digitOf c < base) = c :: s :=
    List.takeWhile_eq_self_iff.mpr fun d hmem => decide_eq_true (hd d hmem)
  unfold strtoll
  rw [strtollSign_digit hc]
  simp only [hskip, htake, foldl_digits, Bool.false_eq_true, ↓reduceIte]

theorem strtoll_hex {s : List Char} (hs : s ≠ []) (hd : ∀ c ∈ s, digitOf c < 16) :
    strtoll ('0' :: 'x' :: s) 16 = Int64.ofInt (clamp64 (digitsValue 16 s)) := by
  obtain ⟨c, s, rfl⟩ := List.exists_cons_of_ne_nil hs
  have hskip : strtollPrefix 16 ('0' :: 'x' :: c :: s) = c :: s :=
    if_pos ⟨rfl, .inl rfl, hd c List.mem_cons_self⟩
  have htake : (c :: s).takeWhile (fun c => digitOf c < 16) = c :: s :=
    List.takeWhile_eq_self_iff.mpr fun d hmem => decide_eq_true (hd d hmem)
  unfold strtoll
  rw [strtollSign_digit (by decide)]
  simp only [hskip, htake, foldl_digits, Bool.false_eq_true, ↓reduceIte]

def ImmRule.base : ImmRule → ℕ
  | .hex => 16
  | .binary => 2
  | .octal => 8
  | .decimal => 10

theorem ImmRule.digitOf_lt {r : ImmRule} {c : Char} (h : r.digit c = true) :
    digitOf c < r.base := by
  have h0 : '0'.toNat = 48 := rfl
  have ha : 'a'.toNat = 97 := rfl
  have hA : 'A'.toNat = 65 := rfl
  have hle : ∀ d : Char, (d ≤ c ↔ d.toNat ≤ c.toNat) ∧ (c ≤ d ↔ c.toNat ≤ d.toNat) := fun d =>
    ⟨Iff.rfl, Iff.rfl⟩
  have h1 : '1'.toNat = 49 := rfl
  have h7 : '7'.toNat = 55 := rfl
  have h9 : '9'.toNat = 57 := rfl
  have hf : 'f'.toNat = 102 := rfl
  have hF : 'F'.toNat = 70 := rfl
  have hz : 'z'.toNat = 122 := rfl
  have hZ : 'Z'.toNat = 90 := rfl
  cases r <;>
    simp only [ImmRule.digit, Bool.or_eq_true, Bool.and_eq_true, decide_eq_true_eq, hle] at h <;>
    simp only [digitOf, ImmRule.base, hle] <;>
    split_ifs <;> omega

theorem ImmRule.accepts_iff {r : ImmRule} {text : List Char} :
    r.accepts text = true ↔
      ∃ ds, text = r.lead ++ ds ∧ ds ≠ [] ∧ ∀ c ∈ ds, r.digit c = true := by
  unfold ImmRule.accepts
  simp only [Bool.and_eq_true, Bool.not_eq_true', List.isEmpty_eq_false_iff, List.all_eq_true,
    List.isPrefixOf_iff_prefix]
  constructor
  · rintro ⟨⟨⟨ds, rfl⟩, hne⟩, hall⟩
    rw [List.drop_left] at hne hall
    exact ⟨ds, rfl, hne, hall⟩
  · rintro ⟨ds, rfl, hne, hall⟩
    rw [List.drop_left]
    exact ⟨⟨List.prefix_append _ _, hne⟩, hall⟩

/-- The number of a literal: hexadecimal behind `0x`, binary behind `0b`, octal behind a `0` if
all digits are octal, and else decimal. -/
def literalValue : List Char → ℕ
  | '0' :: 'x' :: ds => digitsValue 16 ds
  | '0' :: 'b' :: ds => digitsValue 2 ds
  | '0' :: ds => digitsValue (if ds.all ImmRule.octal.digit then 8 else 10) ds
  | ds => digitsValue 10 ds

theorem literalValue_hex (ds : List Char) : literalValue ('0' :: 'x' :: ds) = digitsValue 16 ds :=
  rfl

theorem literalValue_binary (ds : List Char) : literalValue ('0' :: 'b' :: ds) = digitsValue 2 ds :=
  rfl

theorem literalValue_zero_cons {c : Char} (hc : ImmRule.decimal.digit c = true) (ds : List Char) :
    literalValue ('0' :: c :: ds) =
      digitsValue (if (c :: ds).all ImmRule.octal.digit then 8 else 10) (c :: ds) := by
  unfold literalValue
  split
  case h_1 heq =>
    obtain ⟨rfl, -⟩ := List.cons.inj (List.cons.inj heq).2
    exact absurd hc (by decide)
  case h_2 heq =>
    obtain ⟨rfl, -⟩ := List.cons.inj (List.cons.inj heq).2
    exact absurd hc (by decide)
  case h_3 heq => rw [(List.cons.inj heq).2]
  case h_4 hno => exact absurd rfl (hno _)

theorem literalValue_of_ne {c : Char} (hc : c ≠ '0') (ds : List Char) :
    literalValue (c :: ds) = digitsValue 10 (c :: ds) := by
  unfold literalValue
  split
  case h_1 heq => exact absurd (List.cons.inj heq).1 hc
  case h_2 heq => exact absurd (List.cons.inj heq).1 hc
  case h_3 heq => exact absurd (List.cons.inj heq).1 hc
  case h_4 => rfl

theorem ImmRule.decimal_of_octal {c : Char} (h : ImmRule.octal.digit c = true) :
    ImmRule.decimal.digit c = true := by
  simp only [ImmRule.digit, Bool.and_eq_true, decide_eq_true_eq] at h ⊢
  have h79 : '7' ≤ '9' := by decide
  exact ⟨h.1, Char.le_trans h.2 h79⟩

/-- The decimal rule wins only where the octal one does not match the same text. -/
theorem literalValue_decimal {ds : List Char} (hne : ds ≠ [])
    (hd : ∀ c ∈ ds, ImmRule.decimal.digit c = true) (hno : ImmRule.octal.accepts ds = false) :
    literalValue ds = digitsValue 10 ds := by
  obtain ⟨c, ds, rfl⟩ := List.exists_cons_of_ne_nil hne
  by_cases hc : c = '0'
  · subst hc
    cases ds with
    | nil => rfl
    | cons d ds =>
      have hall : ¬ (d :: ds).all ImmRule.octal.digit = true := by
        intro hall
        have hoctal : ImmRule.octal.accepts ('0' :: d :: ds) = true :=
          ImmRule.accepts_iff.mpr ⟨d :: ds, rfl, List.cons_ne_nil d ds, List.all_eq_true.mp hall⟩
        rw [hoctal] at hno
        cases hno
      rw [literalValue_zero_cons (hd d (by simp)), if_neg hall, digitsValue_zero_cons]
  · exact literalValue_of_ne hc ds

/-- The value of a token is the number its text stands for, cut off at `LLONG_MAX`. -/
theorem lexImmediate_value {input text : List Char} {v : Int64}
    (h : lexImmediate input = some (text, v)) : v = Int64.ofInt (clamp64 (literalValue text)) := by
  obtain ⟨⟨r, text'⟩, hscan, hpair⟩ := Option.map_eq_some_iff.mp h
  obtain ⟨rfl, rfl⟩ := Prod.mk.inj hpair
  obtain ⟨-, -, -, hacc, -, hfirst⟩ := Scan.scan_eq_some hscan
  obtain ⟨ds, htext, hne, hd⟩ := ImmRule.accepts_iff.mp hacc
  have hlt : ∀ c ∈ ds, digitOf c < r.base := fun c hc => ImmRule.digitOf_lt (hd c hc)
  cases r with
  | hex =>
    rw [show text' = '0' :: 'x' :: ds from htext, literalValue_hex]
    exact strtoll_hex hne hlt
  | binary =>
    rw [show text' = '0' :: 'b' :: ds from htext, literalValue_binary]
    exact strtoll_digits (by decide) hne hlt
  | octal =>
    obtain ⟨c, ds, rfl⟩ := List.exists_cons_of_ne_nil hne
    have hzero : ∀ d ∈ '0' :: c :: ds, digitOf d < 8 :=
      List.forall_mem_cons.mpr ⟨by decide, hlt⟩
    rw [show text' = '0' :: c :: ds from htext,
      literalValue_zero_cons (ImmRule.decimal_of_octal (hd c List.mem_cons_self)),
      if_pos (List.all_eq_true.mpr hd), ← digitsValue_zero_cons]
    unfold ImmRule.value
    exact strtoll_digits (by decide) (List.cons_ne_nil _ _) hzero
  | decimal =>
    have htext : text' = ds := htext
    subst htext
    -- the octal rule stands before the decimal one
    have hno : ImmRule.octal.accepts text' = false := by
      apply Bool.eq_false_iff.mpr
      intro hoctal
      exact absurd (hfirst .octal (by decide) hoctal) (by decide)
    rw [literalValue_decimal hne hd hno]
    exact strtoll_digits (by decide) hne hlt

theorem lexImmediate_ne_none {c : Char} (hc : ImmRule.decimal.digit c = true) (input : List Char) :
    lexImmediate (c :: input) ≠ none := by
  unfold lexImmediate
  rw [Ne, Option.map_eq_none_iff]
  have hacc : ImmRule.decimal.accepts [c] = true :=
    ImmRule.accepts_iff.mpr ⟨[c], rfl, by simp, by simpa using hc⟩
  exact Scan.scan_ne_none (by decide) ⟨input, rfl⟩ (List.cons_ne_nil c []) hacc

def signedValue (minus : Bool) (text : List Char) : ℤ :=
  if minus then -(literalValue text : ℤ) else literalValue text

theorem toInt_imm (minus : Bool) (n : ℕ) :
    (imm minus (Int64.ofInt (clamp64 n))).toInt =
      if minus then -min (2 ^ 63 - 1) (n : ℤ) else min (2 ^ 63 - 1) (n : ℤ) := by
  have hclamp : clamp64 n = min (2 ^ 63 - 1) (n : ℤ) := by
    unfold clamp64
    omega
  have hvalue : (Int64.ofInt (clamp64 n)).toInt = min (2 ^ 63 - 1) (n : ℤ) := by
    rw [hclamp, Int64.toInt_ofInt_of_le (by omega) (by omega)]
  unfold imm
  cases minus with
  | false => exact hvalue
  | true =>
    have hone : (-1 : Int64).toInt = -1 := by decide
    rw [if_pos rfl, if_pos rfl, Int64.toInt_mul, hone, hvalue, neg_one_mul]
    apply Int.bmod_eq_of_le <;> omega

def dwordProgram (v : Int64) : Program := [(1, .data), (2, .dword v)]

/-- The parser reports an error, or the run fails. -/
def DwordFails (v : Int64) : Prop :=
  (pass1Run (dwordProgram v)).stderr ≠ [] ∨ (main {} {} (dwordProgram v)).exitCode ≠ 0

theorem not_dwordFails (v : Int64) : ¬ DwordFails v := by
  have hentry : ∀ e ∈ (pass1Run (dwordProgram v)).ir, e.kind = .data ∧ e.sect = .data := by
    unfold pass1Run execAll dwordProgram
    simp [execItem, pass1EmitData, irAppendData, passSetSection]
  have hassembles : Assembles {} {} (dwordProgram v) := by
    refine ⟨rfl, rfl, rfl, ?_, ?_, fun _ _ => rfl⟩
    · apply List.pairwise_of_forall_mem_list
      intro a ha b hb htext
      rw [(hentry a ha).2] at htext
      cases htext
    · intro e he
      obtain ⟨e', he', hcore⟩ := exists_core_of_mem
        (pass2Layout_laidOut _ _ (pass1Run_good (dwordProgram v)).ir).2 he
      obtain ⟨hk, hs⟩ := hentry e' he'
      exact ⟨_, IrEntry.call_data ((IrEntry.kind_eq_of_core hcore).trans hk)
        ((IrEntry.sect_eq_of_core hcore).trans hs)⟩
  rintro (hreport | hexit)
  · exact hreport rfl
  · exact hexit ((main_exitCode_eq_zero {} {} _).mpr hassembles)

/-- A literal means what it says: its number becomes the operand if an `int64_t` has room for it,
and is turned down if it has not. -/
structure MeansItsNumber (minus : Bool) (text : List Char) (v : Int64) : Prop where
  exact : -2 ^ 63 ≤ signedValue minus text → signedValue minus text < 2 ^ 63 →
    (imm minus v).toInt = signedValue minus text
  reported : ¬ (-2 ^ 63 ≤ signedValue minus text ∧ signedValue minus text < 2 ^ 63) →
    DwordFails (imm minus v)

/-- A token means what its text says, with or without a minus, if and only if the number without
the minus is at most `LLONG_MAX`. -/
theorem meansItsNumber_iff_lt (input text : List Char) (v : Int64)
    (h : lexImmediate input = some (text, v)) (minus : Bool) :
    MeansItsNumber minus text v ↔ literalValue text < 2 ^ 63 := by
  rw [lexImmediate_value h]
  have hoperand := toInt_imm minus (literalValue text)
  constructor
  · intro hmeans
    by_contra hbig
    have hout : ¬ (-2 ^ 63 ≤ signedValue minus text ∧ signedValue minus text < 2 ^ 63) := by
      rintro ⟨hlo, hhi⟩
      have hexact := hmeans.exact hlo hhi
      rw [hoperand] at hexact
      unfold signedValue at hlo hhi hexact
      cases minus
      · simp only [Bool.false_eq_true, ↓reduceIte] at hlo hhi hexact
        omega
      · simp only [↓reduceIte] at hlo hhi hexact
        omega
    exact not_dwordFails _ (hmeans.reported hout)
  · intro hlt
    have hmin : min (2 ^ 63 - 1) (literalValue text : ℤ) = literalValue text := by omega
    refine ⟨fun _ _ => ?_, fun hout => absurd ?_ hout⟩
    · rw [hoperand, hmin]
      rfl
    · unfold signedValue
      split_ifs <;> omega

theorem meansItsNumber_iff_lt_octal :
    lexImmediate ['0', '7', '7', '7'] = some (['0', '7', '7', '7'], 511) ∧
      MeansItsNumber true ['0', '7', '7', '7'] 511 := by
  have hlex : lexImmediate ['0', '7', '7', '7'] = some (['0', '7', '7', '7'], 511) := by
    decide +kernel
  exact ⟨hlex, (meansItsNumber_iff_lt _ _ _ hlex true).mpr (by decide +kernel)⟩

def twoPow63 : List Char :=
  ['9', '2', '2', '3', '3', '7', '2', '0', '3', '6', '8', '5', '4', '7', '7', '5', '8', '0', '8']

/-- With a minus these digits come out one too large, without one they are cut off, and nothing is
reported. -/
theorem twoPow63_not_meansItsNumber :
    ∃ v, lexImmediate twoPow63 = some (twoPow63, v) ∧
      (imm true v).toInt = -2 ^ 63 + 1 ∧ (imm false v).toInt = 2 ^ 63 - 1 ∧
      ¬ MeansItsNumber true twoPow63 v ∧ ¬ MeansItsNumber false twoPow63 v := by
  have hvalue : literalValue twoPow63 = 2 ^ 63 := by decide +kernel
  have hminus : (imm true (Int64.ofInt (clamp64 (literalValue twoPow63)))).toInt = -2 ^ 63 + 1 := by
    rw [toInt_imm, hvalue]
    decide
  have hplain : (imm false (Int64.ofInt (clamp64 (literalValue twoPow63)))).toInt = 2 ^ 63 - 1 := by
    rw [toInt_imm, hvalue]
    decide
  refine ⟨_, by decide +kernel, hminus, hplain, fun h => ?_, fun h => ?_⟩
  · have hexact := h.exact (by rw [signedValue, hvalue]; decide) (by rw [signedValue, hvalue]; decide)
    rw [hminus, signedValue, hvalue] at hexact
    exact absurd hexact (by decide)
  · exact not_dwordFails _ (h.reported (by rw [signedValue, hvalue]; decide))

end RvAssembler
