import RvAssembler.Parsing
import RvAssembler.TokenText

namespace RvAssembler

open Scan.Scanner

def yyparseFile (input : List UInt8) : Option Program := yyparse (tokens (input.map byteChar))

theorem lexImmediate_of_next {input text : List Char} {r : ImmRule}
    (h : lexer.next input = some (.imm r, text)) : lexImmediate input = some (text, r.value text) := by
  obtain ⟨⟨r', whole⟩, hscan, hpair⟩ := Option.map_eq_some_iff.mp h
  obtain ⟨rfl, rfl⟩ := Prod.mk.inj hpair
  obtain ⟨-, hne, hpre, hacc, hlong, hfirst⟩ := Scan.scan_eq_some hscan
  have hrules : ∀ r' : ImmRule, Rule.imm r' ∈ lexRules ∧ r' ∈ immRules := by
    intro r'
    exact ⟨mem_lexRules _, by cases r' <;> decide⟩
  have horder : ∀ r r' : ImmRule, lexRules.idxOf (.imm r) ≤ lexRules.idxOf (.imm r') →
      immRules.idxOf r ≤ immRules.idxOf r' := by
    intro r r'
    have hlater : ∀ r : ImmRule, Rule.imm r ∈ laterRules := by
      intro r
      cases r <;> decide
    rw [idxOf_laterRules (hlater r), idxOf_laterRules (hlater r'), Nat.add_le_add_iff_left]
    cases r <;> cases r' <;> decide
  have hbest : Scan.scan immRules ImmRule.accepts input = some (r, whole) :=
    Scan.scan_of_best (hrules r).2 hpre hne hacc
      (fun r' _ text hpre' hacc' => hlong (.imm r') (hrules r').1 text hpre' hacc')
      fun r' _ hacc' => horder r r' (hfirst (.imm r') (hrules r').1 hacc')
  have htake : whole.take (whole.length - lexer.context (.imm r)) = whole := List.take_length
  refine Option.map_eq_some_iff.mpr ⟨(r, whole), hbest, ?_⟩
  rw [htake]

/-- Wherever a number stands, its token has the value its text stands for. -/
theorem value_of_mem_lexemes {input text : List Char} {r : ImmRule}
    (h : (Rule.imm r, text) ∈ lexer.lexemes input) :
    r.value text = Int64.ofInt (clamp64 (literalValue text)) := by
  induction input using lexemes_induction (s := lexer) with
  | nil => cases h
  | next r' text' rest hnext ih =>
    rw [lexemes_of_next hnext] at h
    obtain h | h := List.mem_cons.mp h
    · obtain ⟨rfl, rfl⟩ := Prod.mk.inj h
      exact lexImmediate_value (lexImmediate_of_next hnext)
    · exact ih h

theorem value_of_mem_lexemes_octal : ImmRule.octal.value ['0', '1', '0'] = 8 := by
  have hmem : (Rule.imm .octal, ['0', '1', '0']) ∈ lexer.lexemes ['0', '1', '0', '\n'] := by
    decide +kernel
  rw [value_of_mem_lexemes hmem]
  decide +kernel

theorem newline_notMem_of_chars {text : List Char}
    (h : ∀ c ∈ text, isNameChar c = true ∨ c = '.' ∨ c = '\r') : '\n' ∉ text := by
  intro hmem
  have := h _ hmem
  revert this
  decide

theorem count_newline_token {r : Rule} {text rest : List Char}
    (h : lexer.next (text ++ rest) = some (r, text)) :
    (r.token text).toList.count .newline = text.count '\n' := by
  obtain ⟨⟨r', whole⟩, hscan, hpair⟩ := Option.map_eq_some_iff.mp h
  obtain ⟨rfl, htext⟩ := Prod.mk.inj hpair
  obtain ⟨-, hne, hpre, hacc, -, hfirst⟩ := Scan.scan_eq_some hscan
  have hwhole (hctx : r'.context = 0) : whole = text := by
    rw [← htext, show lexer.context r' = 0 from hctx, Nat.sub_zero, List.take_length]
  have hnone (hmem : '\n' ∉ text) (htoken : .newline ∉ (r'.token text).toList) :
      (r'.token text).toList.count .newline = text.count '\n' := by
    rw [List.count_eq_zero_of_not_mem hmem, List.count_eq_zero_of_not_mem htoken]
  cases r' with
  | newline =>
    rw [hwhole rfl] at hacc
    have hacc : (text = ['\n'] ∨ text = ['\r', '\n']) := by
      simpa [lexer, Rule.accepts] using hacc
    obtain rfl | rfl := hacc <;> rfl
  | unterminated =>
    rw [hwhole rfl] at hacc
    have hacc : isQuoted ['\n'] text = true ∨ isQuoted ['\r', '\n'] text = true := by
      simpa [lexer, Rule.accepts] using hacc
    obtain hacc | hacc := hacc <;> obtain ⟨body, rfl, hbody⟩ := isQuoted_iff.mp hacc <;>
      simp [Rule.token, List.count_eq_zero_of_not_mem (isStringBody_newline hbody)]
  | blank | comment =>
    refine hnone ?_ (by simp [Rule.token])
    rw [hwhole rfl] at hacc
    simp only [lexer, Rule.accepts, Bool.and_eq_true, List.all_eq_true] at hacc
    intro hmem
    exact absurd (hacc.2 _ hmem) (by decide)
  | keyword k =>
    refine hnone ?_ (by simp [Rule.token])
    rw [hwhole rfl] at hacc
    rw [(of_decide_eq_true hacc : text = k.text.toList)]
    intro hmem
    exact absurd (Keyword.chars hmem) (by decide)
  | imm r =>
    refine hnone ?_ (by simp [Rule.token])
    rw [hwhole rfl] at hacc
    obtain ⟨ds, rfl, -, hds⟩ := ImmRule.accepts_iff.mp hacc
    refine newline_notMem_of_chars (List.forall_mem_append.mpr ⟨fun c hc => .inl ?_, fun c hc =>
      .inl (ImmRule.isNameChar_digit (hds c hc))⟩)
    have hlead : r.lead.all isNameChar = true := by cases r <;> decide
    exact List.all_eq_true.mp hlead c hc
  | register =>
    refine hnone ?_ (by simp [Rule.token])
    have hacc : Rule.register.accepts whole = true := hacc
    rw [← htext, show lexer.context .register = 1 from rfl, ← List.dropLast_eq_take]
    exact newline_notMem_of_chars (Rule.dropLast_chars rfl hacc)
  | identifier =>
    have hname : isName text = true := by
      rw [hwhole rfl] at hacc
      exact hacc
    refine hnone ?_ ?_
    · obtain ⟨-, -, -, -, hall⟩ := isName_iff.mp hname
      exact newline_notMem_of_chars fun c hc => .inl (hall c hc)
    · simp [Rule.token]
  | string =>
    rw [hwhole rfl] at hacc
    obtain ⟨body, rfl, hbody⟩ := isQuoted_iff.mp (show isQuoted ['"'] text = true from hacc)
    exact hnone (by simp [isStringBody_newline hbody]) (by simp [Rule.token])
  | echo =>
    refine hnone ?_ (by simp [Rule.token])
    rw [hwhole rfl] at hacc hfirst
    intro hmem
    obtain ⟨c, rfl⟩ := List.length_eq_one_iff.mp (of_decide_eq_true hacc : text.length = 1)
    obtain rfl := List.mem_singleton.mp hmem
    -- the rule of line breaks stands before the default rule
    have hle : lexRules.idxOf .echo ≤ lexRules.idxOf .newline :=
      hfirst .newline (mem_lexRules _) (by decide)
    have hlast : Rule.echo ∈ laterRules := by decide
    have hnewline : lexRules.idxOf .newline = 2 := rfl
    rw [idxOf_laterRules hlast, hnewline] at hle
    omega
  | colon | leftParen | rightParen | comma | minus =>
    rw [hwhole rfl] at hacc
    rw [(of_decide_eq_true hacc : text = _)]
    rfl

/-- There are as many `NEWLINE` tokens as line breaks, so that both count the lines. -/
theorem count_newline_tokens (text : List Char) :
    (tokens text).count .newline = text.count '\n' := by
  induction text using lexemes_induction (s := lexer) with
  | nil => rfl
  | next r text rest hnext ih =>
    rw [tokens_of_next hnext, List.count_append, List.count_append, count_newline_token hnext, ih]

theorem getLast?_tokens {text : List Char} (h : text.getLast? = some '\n') :
    (tokens text).getLast? = some .newline := by
  induction text using lexemes_induction (s := lexer) with
  | nil => cases h
  | next r text rest hnext ih =>
    rw [tokens_of_next hnext]
    by_cases hrest : rest = []
    · subst hrest
      rw [List.append_nil] at h
      have hmem : Token.newline ∈ (r.token text).toList := by
        rw [← List.count_pos_iff, count_newline_token hnext, List.count_pos_iff]
        exact List.mem_of_getLast? h
      rw [Option.mem_toList.mp hmem]
      rfl
    · rw [List.getLast?_append_of_ne_nil _ hrest] at h
      rw [List.getLast?_append, ih h]
      rfl

/-- The items some lines further down. -/
def Program.below (n : ℕ) (prog : Program) : Program := prog.map fun p => (p.1 + n, p.2)

theorem parseLines_add (n : ℕ) (line : ℤ) (ls : List (List Token)) :
    parseLines (line + n) ls = (parseLines line ls).map (Program.below n) := by
  induction ls generalizing line with
  | nil => rfl
  | cons l ls ih =>
    rw [parseLines, parseLines, show line + n + 1 = line + 1 + n by ring, ih]
    cases parseLine l with
    | none => rfl
    | some its =>
      cases parseLines (line + 1) ls with
      | none => rfl
      | some prog => simp [Program.below]

theorem parseLines_append (line : ℤ) (ls ls' : List (List Token)) :
    parseLines line (ls ++ ls') = (parseLines line ls).bind fun prog =>
      (parseLines (line + ls.length) ls').map (prog ++ ·) := by
  induction ls generalizing line with
  | nil => simp [parseLines]
  | cons l ls ih =>
    rw [List.cons_append, parseLines, parseLines, ih, List.length_cons,
      show line + ((ls.length + 1 : ℕ) : ℤ) = line + 1 + ls.length by push_cast; ring]
    cases parseLine l with
    | none => rfl
    | some its =>
      cases parseLines (line + 1) ls with
      | none => rfl
      | some prog =>
        cases parseLines (line + 1 + ls.length) ls' with
        | none => rfl
        | some prog' => simp

theorem splitLines_of_last {ts : List Token} (h : ∀ t ∈ ts.getLast?, t = .newline) :
    ∃ ls : List (List Token), (∀ l ∈ ls, .newline ∉ l) ∧ ts = ls.flatMap (· ++ [.newline]) := by
  induction ts with
  | nil => exact ⟨[], nofun, rfl⟩
  | cons t ts ih =>
    by_cases hnil : ts = []
    · subst hnil
      obtain rfl := h t rfl
      exact ⟨[[]], by simp, rfl⟩
    · rw [List.getLast?_cons_of_ne_nil hnil] at h
      obtain ⟨ls, hls, rfl⟩ := ih h
      by_cases ht : t = .newline
      · subst ht
        exact ⟨[] :: ls, by simpa using hls, rfl⟩
      · cases ls with
        | nil => exact absurd rfl hnil
        | cons l ls =>
          obtain ⟨hl, hls⟩ := List.forall_mem_cons.mp hls
          refine ⟨(t :: l) :: ls, List.forall_mem_cons.mpr ⟨?_, hls⟩, rfl⟩
          exact List.not_mem_cons_of_ne_of_not_mem (Ne.symm ht) hl

theorem splitLines_flatMap {ls : List (List Token)} (h : ∀ l ∈ ls, .newline ∉ l)
    (ts : List Token) :
    splitLines (ls.flatMap (· ++ [.newline]) ++ ts) = (splitLines ts).map (ls ++ ·) := by
  induction ls with
  | nil => simp
  | cons l ls ih =>
    obtain ⟨hl, hls⟩ := List.forall_mem_cons.mp h
    rw [List.flatMap_cons, List.append_assoc, List.append_assoc, List.singleton_append,
      splitLines_append hl, ih hls, Option.map_map]
    rfl

theorem count_newline_flatMap {ls : List (List Token)} (h : ∀ l ∈ ls, .newline ∉ l) :
    (ls.flatMap (· ++ [Token.newline])).count .newline = ls.length := by
  induction ls with
  | nil => rfl
  | cons l ls ih =>
    obtain ⟨hl, hls⟩ := List.forall_mem_cons.mp h
    rw [List.flatMap_cons, List.count_append, List.count_append, List.count_eq_zero_of_not_mem hl,
      ih hls, List.length_cons, List.count_singleton_self]
    omega

theorem yyparse_append {ts : List Token} (h : ∀ t ∈ ts.getLast?, t = .newline)
    (ts' : List Token) : yyparse (ts ++ ts') =
      (yyparse ts).bind fun prog =>
        (yyparse ts').map fun prog' => prog ++ prog'.below (ts.count .newline) := by
  obtain ⟨ls, hls, rfl⟩ := splitLines_of_last h
  have hts : splitLines (ls.flatMap (· ++ [.newline])) = some ls := by
    simpa [splitLines] using splitLines_flatMap hls []
  rw [yyparse, yyparse, yyparse, splitLines_flatMap hls, hts, count_newline_flatMap hls]
  cases splitLines ts' with
  | none => simp
  | some ls' =>
    simp only [Option.map_some, Option.bind_some, parseLines_append, parseLines_add,
      Option.map_map]
    rfl

theorem count_newline_byteChar (input : List UInt8) :
    (input.map byteChar).count '\n' = input.count 10 := by
  rw [show '\n' = byteChar 10 from rfl]
  refine List.count_map_of_injective input byteChar ?_ 10
  intro b b' hb
  rw [← charByte_byteChar b, hb, charByte_byteChar]

/-- The only number without a literal is the least one. -/
def Args.Writable : Args → Prop
  | .i v | .ri _ v | .rri _ _ v | .mem _ v _ => v ≠ Int64.minValue
  | .l name | .rl _ name | .rrl _ _ name => name.Writable
  | .s str => str.Quotable
  | _ => True

/-- Labels that can be written, and at most one statement that can. -/
def IsLine (its : List Item) : Prop :=
  ∃ (labels : List Identifier) (stmt : Option Item), its = labels.map .label ++ stmt.toList ∧
    (∀ name ∈ labels, name.Writable) ∧
    ∀ it ∈ stmt, ∃ k a, production k a = some it ∧ a.Writable

def numbered : ℤ → List (List Item) → Program
  | _, [] => []
  | line, l :: ls => l.map (line, ·) ++ numbered (line + 1) ls

theorem imm_toInt {v : Int64} (h : 0 ≤ v.toInt) : (imm true v).toInt = -v.toInt := by
  have hlt := v.toInt_lt
  have hneg : (-1 : Int64).toInt = -1 := by decide
  rw [imm, if_pos rfl, Int64.toInt_mul, hneg, neg_one_mul]
  exact Int.bmod_eq_of_le (by omega) (by omega)

theorem ImmPhrase.ne_minValue {ts : List Token} {v : Int64} (h : ImmPhrase ts v)
    (hts : ∀ t ∈ ts, t.Writable) : v ≠ Int64.minValue := by
  have hmin : Int64.minValue.toInt = -2 ^ 63 := by decide
  intro hv
  have hv := congrArg Int64.toInt hv
  cases h with
  | minus w =>
    have hw : 0 ≤ w.toInt := hts (.immediate w) (by simp)
    have hlt := w.toInt_lt
    rw [imm_toInt hw] at hv
    omega
  | plain w =>
    have hw : 0 ≤ w.toInt := hts (.immediate w) (by simp)
    rw [show imm false w = w from rfl] at hv
    omega

theorem exists_immPhrase {v : Int64} (h : v ≠ Int64.minValue) :
    ∃ ts, ImmPhrase ts v ∧ ∀ t ∈ ts, t.Writable := by
  by_cases hv : 0 ≤ v.toInt
  · exact ⟨[.immediate v], .plain v, List.forall_mem_singleton.mpr hv⟩
  · have hle := v.le_toInt
    have hne : v.toInt ≠ -2 ^ 63 := fun heq => h (Int64.toInt_inj.mp heq)
    have hneg : (-v).toInt = -v.toInt := by
      rw [Int64.toInt_neg]
      exact Int.bmod_eq_of_le (by omega) (by omega)
    have hnonneg : 0 ≤ (-v).toInt := by omega
    have himm : imm true (-v) = v := by
      apply Int64.toInt_inj.mp
      rw [imm_toInt hnonneg, hneg, neg_neg]
    have hphrase := ImmPhrase.minus (-v)
    rw [himm] at hphrase
    exact ⟨_, hphrase, List.forall_mem_cons.mpr ⟨trivial, List.forall_mem_singleton.mpr hnonneg⟩⟩

theorem ArgsPhrase.writable {ts : List Token} {a : Args} (h : ArgsPhrase ts a)
    (hts : ∀ t ∈ ts, t.Writable) : a.Writable := by
  cases h with
  | none | r | rr | rrr => trivial
  | i h => exact h.ne_minValue hts
  | ri b h => exact h.ne_minValue fun t ht => hts t (by simp [ht])
  | rri b c h => exact h.ne_minValue fun t ht => hts t (by simp [ht])
  | mem b c h => exact h.ne_minValue fun t ht => hts t (by simp [ht])
  | l name => exact hts (.identifier name) (by simp)
  | rl b name => exact hts (.identifier name) (by simp)
  | rrl b c name => exact hts (.identifier name) (by simp)
  | s str => exact hts (.string str) (by simp)

theorem exists_argsPhrase {a : Args} (h : a.Writable) :
    ∃ ts, ArgsPhrase ts a ∧ ∀ t ∈ ts, t.Writable := by
  cases a with
  | none => exact ⟨_, .none, by simp⟩
  | r b => exact ⟨_, .r b, by simp [Token.Writable]⟩
  | rr b c => exact ⟨_, .rr b c, by simp [Token.Writable]⟩
  | rrr b c d => exact ⟨_, .rrr b c d, by simp [Token.Writable]⟩
  | l name =>
    have h : (Token.identifier name).Writable := h
    exact ⟨_, .l name, by simpa [Token.Writable] using h⟩
  | rl b name =>
    have h : (Token.identifier name).Writable := h
    exact ⟨_, .rl b name, by simpa [Token.Writable] using h⟩
  | rrl b c name =>
    have h : (Token.identifier name).Writable := h
    exact ⟨_, .rrl b c name, by simpa [Token.Writable] using h⟩
  | s str =>
    have h : (Token.string str).Writable := h
    exact ⟨_, .s str, by simpa [Token.Writable] using h⟩
  | i v =>
    obtain ⟨ts, himm, hts⟩ := exists_immPhrase h
    exact ⟨_, .i himm, hts⟩
  | ri b v =>
    obtain ⟨ts, himm, hts⟩ := exists_immPhrase h
    exact ⟨_, .ri b himm, by simpa [Token.Writable] using hts⟩
  | rri b c v =>
    obtain ⟨ts, himm, hts⟩ := exists_immPhrase h
    exact ⟨_, .rri b c himm, by simpa [Token.Writable] using hts⟩
  | mem b v c =>
    obtain ⟨ts, himm, hts⟩ := exists_immPhrase h
    refine ⟨_, .mem b c himm, ?_⟩
    simp only [List.forall_mem_cons, List.forall_mem_append, Token.Writable, true_and]
    exact ⟨hts, by simp⟩

theorem isLine_iff (its : List Item) :
    IsLine its ↔ ∃ ts, LinePhrase ts its ∧ ∀ t ∈ ts, t.Writable := by
  constructor
  · rintro ⟨labels, stmt, rfl, hlabels, hstmt⟩
    induction labels with
    | nil =>
      cases stmt with
      | none => exact ⟨[], .empty, nofun⟩
      | some it =>
        obtain ⟨k, a, hprod, ha⟩ := hstmt it rfl
        obtain ⟨ts, hargs, hts⟩ := exists_argsPhrase ha
        exact ⟨.keyword k :: ts, .item k hargs hprod, List.forall_mem_cons.mpr ⟨trivial, hts⟩⟩
    | cons name labels ih =>
      obtain ⟨hname, hlabels⟩ := List.forall_mem_cons.mp hlabels
      obtain ⟨ts, hline, hts⟩ := ih hlabels
      exact ⟨.identifier name :: .colon :: ts, .label name hline,
        List.forall_mem_cons.mpr ⟨hname, List.forall_mem_cons.mpr ⟨trivial, hts⟩⟩⟩
  · rintro ⟨ts, hline, hts⟩
    induction hline with
    | empty => exact ⟨[], none, rfl, nofun, nofun⟩
    | @item k ts a it hargs hprod =>
      refine ⟨[], some it, rfl, nofun, ?_⟩
      rintro it' hit
      obtain rfl := Option.some.inj hit
      exact ⟨k, a, hprod, hargs.writable fun t ht => hts t (by simp [ht])⟩
    | label name h ih =>
      obtain ⟨hname, hts⟩ := List.forall_mem_cons.mp hts
      obtain ⟨labels, stmt, rfl, hlabels, hstmt⟩ := ih (List.forall_mem_cons.mp hts).2
      exact ⟨name :: labels, stmt, rfl, List.forall_mem_cons.mpr ⟨hname, hlabels⟩, hstmt⟩

theorem exists_programPhrase_iff (line : ℤ) (prog : Program) :
    (∃ ts, ProgramPhrase line ts prog ∧ ∀ t ∈ ts, t.Writable) ↔
      ∃ ls : List (List Item), (∀ l ∈ ls, IsLine l) ∧ prog = numbered line ls := by
  constructor
  · rintro ⟨ts, hprog, hts⟩
    induction hprog with
    | empty line => exact ⟨[], nofun, rfl⟩
    | @segment line ts its rest prog hline hrest ih =>
      obtain ⟨hts, hmore⟩ := List.forall_mem_append.mp hts
      obtain ⟨ls, hls, rfl⟩ := ih (List.forall_mem_cons.mp hmore).2
      exact ⟨its :: ls, List.forall_mem_cons.mpr ⟨(isLine_iff its).mpr ⟨ts, hline, hts⟩, hls⟩, rfl⟩
  · rintro ⟨ls, hls, rfl⟩
    induction ls generalizing line with
    | nil => exact ⟨[], .empty line, nofun⟩
    | cons l ls ih =>
      obtain ⟨hl, hls⟩ := List.forall_mem_cons.mp hls
      obtain ⟨ts, hline, hts⟩ := (isLine_iff l).mp hl
      obtain ⟨rest, hrest, hmore⟩ := ih (line + 1) hls
      exact ⟨ts ++ .newline :: rest, .segment hline hrest,
        List.forall_mem_append.mpr ⟨hts, List.forall_mem_cons.mpr ⟨trivial, hmore⟩⟩⟩

theorem ProgramPhrase.getLast? {line : ℤ} {ts : List Token} {prog : Program}
    (h : ProgramPhrase line ts prog) : ∀ t ∈ ts.getLast?, t = .newline := by
  induction h with
  | empty => exact nofun
  | @segment line ts its rest prog hline hrest ih =>
    intro t ht
    rw [List.getLast?_append_of_ne_nil _ (List.cons_ne_nil _ _)] at ht
    cases rest with
    | nil => exact (Option.some.inj ht).symm
    | cons t' rest =>
      rw [List.getLast?_cons_cons] at ht
      exact ih t ht

theorem Token.text_bytes (t : Token) : ∀ c ∈ t.text, c.toNat < 256 := by
  have hbytes (s : CString) : ∀ c ∈ s.yytext, c.toNat < 256 := by
    intro c hc
    obtain ⟨b, -, rfl⟩ := List.mem_map.mp hc
    rw [byteChar_toNat]
    exact b.toNat_lt
  have hname {c : Char} (hc : isNameChar c = true) : c.toNat < 256 := by
    rw [isNameChar_iff, isNameStart_iff] at hc
    obtain (hc | hc | rfl) | hc := hc
    · omega
    · omega
    · decide
    · omega
  have hword : ∀ c ∈ t.word, c.toNat < 256 := by
    intro c hc
    cases t with
    | keyword k =>
      obtain hc | rfl := Keyword.chars hc
      · omega
      · decide
    | register r =>
      obtain ⟨-, -, -, -, hall⟩ := isName_iff.mp (isName_of_isRegisterName (registerOf_text r).1)
      exact hname (hall c hc)
    | immediate v =>
      obtain rfl | rfl | hc : c = '0' ∨ c = 'x' ∨ c ∈ hexText v.toInt.toNat := by
        simpa [Token.word] using hc
      · decide
      · decide
      · exact hname (ImmRule.isNameChar_digit (hexText_digits hc))
    | identifier name => exact hbytes _ c hc
    | string s =>
      obtain rfl | hc : c = '"' ∨ c ∈ s.quoted := by
        obtain h | h := List.mem_cons.mp hc
        · exact .inl h
        · obtain h | h := List.mem_append.mp h
          · exact .inr h
          · exact .inl (List.mem_singleton.mp h)
      · decide
      · unfold CString.quoted at hc
        split_ifs at hc
        · exact hbytes s c hc
        · obtain hc | hc := List.mem_append.mp hc
          · exact hbytes s c hc
          · rw [List.mem_singleton.mp hc]
            decide
    | _ =>
      obtain rfl := List.mem_singleton.mp hc
      decide
  unfold Token.text
  split_ifs
  · exact hword
  · exact List.forall_mem_append.mpr ⟨hword, List.forall_mem_singleton.mpr (by decide)⟩

theorem byteChar_lt {input : List UInt8} : ∀ c ∈ input.map byteChar, c.toNat < 256 := by
  intro c hc
  obtain ⟨b, -, rfl⟩ := List.mem_map.mp hc
  rw [byteChar_toNat]
  exact b.toNat_lt

/-- The tokens of a program can be written.  Only the last token may be one that nothing can
follow, and that one is a line break. -/
theorem writable_of_yyparseFile {input : List UInt8} {prog : Program}
    (h : yyparseFile input = some prog) : ∀ t ∈ tokens (input.map byteChar), t.Writable := by
  have hphrase := (yyparse_iff _ _).mp h
  intro t ht
  by_cases hline : t = .newline
  · subst hline
    trivial
  · refine tokens_writable byteChar_lt t (List.mem_dropLast_of_mem_of_ne_getLast? ht ?_)
    exact fun hlast => hline (hphrase.getLast? t hlast.symm)

/-- A file with the given tokens. -/
def written (ts : List Token) : List UInt8 := (ts.flatMap Token.text).map charByte

theorem tokens_written {ts : List Token} (h : ∀ t ∈ ts, t.Writable) :
    tokens ((written ts).map byteChar) = ts := by
  have hbytes : ∀ c ∈ ts.flatMap Token.text, c.toNat < 256 := by
    intro c hc
    obtain ⟨t, -, hc⟩ := List.mem_flatMap.mp hc
    exact t.text_bytes c hc
  rw [written, map_byteChar_charByte hbytes, tokens_flatMap_text h]

def retLine : List UInt8 := written [.keyword .ret, .newline]

theorem yyparseFile_retLine : yyparseFile retLine = some [(1, .instruction .ret)] := by
  rw [yyparseFile, retLine, tokens_written (by simp [Token.Writable])]
  rfl

/-- A file after one that ends in a line break is read as it is read on its own. -/
theorem yyparseFile_append (front : List UInt8) (hfront : ∀ b ∈ front.getLast?, b = 10)
    (back : List UInt8) : yyparseFile (front ++ back) =
      (yyparseFile front).bind fun prog =>
        (yyparseFile back).map fun prog' => prog ++ prog'.below (front.count 10) := by
  have hchars : ∀ c ∈ (front.map byteChar).getLast?, c = '\n' := by
    intro c hc
    rw [List.getLast?_map, Option.mem_map] at hc
    obtain ⟨b, hb, rfl⟩ := hc
    rw [hfront b hb]
    rfl
  have hlast : ∀ t ∈ (tokens (front.map byteChar)).getLast?, t = .newline := by
    intro t ht
    cases hc : (front.map byteChar).getLast? with
    | none =>
      rw [List.getLast?_eq_none_iff.mp hc] at ht
      cases ht
    | some c =>
      obtain rfl := hchars c hc
      rw [getLast?_tokens hc] at ht
      exact (Option.some.inj ht).symm
  rw [yyparseFile, List.map_append, tokens_append hchars, yyparse_append hlast,
    count_newline_tokens, count_newline_byteChar]
  rfl

theorem yyparseFile_append_retLine :
    yyparseFile (retLine ++ retLine) = some [(1, .instruction .ret), (2, .instruction .ret)] := by
  rw [yyparseFile_append retLine (by decide +kernel), yyparseFile_retLine]
  rfl

/-- The tokens of an accepted file can be written out again, one way for each, without their
blanks and comments: it stays the same program. -/
theorem yyparseFile_rewritten (input : List UInt8) (prog : Program)
    (h : yyparseFile input = some prog) :
    tokens ((written (tokens (input.map byteChar))).map byteChar) = tokens (input.map byteChar) ∧
      yyparseFile (written (tokens (input.map byteChar))) = some prog := by
  have hwritten := tokens_written (writable_of_yyparseFile h)
  refine ⟨hwritten, ?_⟩
  rw [yyparseFile, hwritten]
  exact h

theorem yyparseFile_rewritten_retLine :
    yyparseFile (written (tokens (retLine.map byteChar))) = some [(1, .instruction .ret)] :=
  (yyparseFile_rewritten retLine _ yyparseFile_retLine).2

/-- The programs that files stand for. -/
theorem exists_yyparseFile_iff (prog : Program) :
    (∃ input, yyparseFile input = some prog) ↔
      ∃ ls : List (List Item), (∀ l ∈ ls, IsLine l) ∧ prog = numbered 1 ls := by
  rw [← exists_programPhrase_iff]
  constructor
  · rintro ⟨input, h⟩
    exact ⟨_, (yyparse_iff _ _).mp h, writable_of_yyparseFile h⟩
  · rintro ⟨ts, hphrase, hts⟩
    refine ⟨written ts, ?_⟩
    rw [yyparseFile, tokens_written hts]
    exact (yyparse_iff _ _).mpr hphrase

end RvAssembler
