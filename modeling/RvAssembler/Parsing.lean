import RvAssembler.Syntax

namespace RvAssembler

theorem parseImm_iff {ts rest : List Token} {v : Int64} :
    parseImm ts = some (v, rest) ↔ ∃ front, ImmPhrase front v ∧ ts = front ++ rest := by
  constructor
  · intro h
    unfold parseImm at h
    split at h <;> cases h
    · exact ⟨_, .minus _, rfl⟩
    · exact ⟨_, .plain _, rfl⟩
  · rintro ⟨front, h, rfl⟩
    cases h <;> rfl

theorem ImmPhrase.parse {ts : List Token} {v : Int64} (h : ImmPhrase ts v) (rest : List Token) :
    parseImm (ts ++ rest) = some (v, rest) := parseImm_iff.mpr ⟨ts, h, rfl⟩

theorem parseArgs_sound {ts : List Token} {a : Args} (h : parseArgs ts = some a) :
    ArgsPhrase ts a := by
  unfold parseArgs at h
  split at h
  case h_1 => cases h; exact .none
  case h_2 => cases h; exact .s _
  case h_3 => cases h; exact .l _
  case h_4 => cases h; exact .r _
  case h_5 => cases h; exact .rr _ _
  case h_6 => cases h; exact .rl _ _
  case h_7 => cases h; exact .rrr _ _ _
  case h_8 => cases h; exact .rrl _ _ _
  case h_9 =>
    split at h <;> cases h
    rename_i himm
    obtain ⟨front, hfront, rfl⟩ := parseImm_iff.mp himm
    rw [List.append_nil]
    exact .rri _ _ hfront
  case h_10 =>
    split at h <;> cases h
    all_goals
      rename_i himm
      obtain ⟨front, hfront, rfl⟩ := parseImm_iff.mp himm
    · rw [List.append_nil]
      exact .ri _ hfront
    · exact .mem _ _ hfront
  case h_11 =>
    split at h <;> cases h
    rename_i himm
    obtain ⟨front, hfront, rfl⟩ := parseImm_iff.mp himm
    rw [List.append_nil]
    exact .i hfront

theorem ArgsPhrase.parse {ts : List Token} {a : Args} (h : ArgsPhrase ts a) :
    parseArgs ts = some a := by
  cases h with
  | i h | ri a h | rri a b h | mem a b h => cases h <;> rfl
  | _ => rfl

theorem parseLine_sound {ts : List Token} {its : List Item} (h : parseLine ts = some its) :
    LinePhrase ts its := by
  fun_induction parseLine ts generalizing its with
  | case1 => cases h; exact .empty
  | case2 k ts =>
    obtain ⟨a, hargs, h⟩ := Option.bind_eq_some_iff.mp h
    obtain ⟨it, hprod, rfl⟩ := Option.map_eq_some_iff.mp h
    exact .item k (parseArgs_sound hargs) hprod
  | case3 name ts ih =>
    obtain ⟨its, hline, rfl⟩ := Option.map_eq_some_iff.mp h
    exact .label name (ih hline)
  | case4 => cases h

theorem LinePhrase.parse {ts : List Token} {its : List Item} (h : LinePhrase ts its) :
    parseLine ts = some its := by
  induction h with
  | empty => rfl
  | item k hargs hprod => rw [parseLine, hargs.parse, Option.bind_some, hprod, Option.map_some]
  | label name h ih => rw [parseLine, ih, Option.map_some]

theorem ArgsPhrase.newline_notMem {ts : List Token} {a : Args} (h : ArgsPhrase ts a) :
    .newline ∉ ts := by
  cases h with
  | i h | ri a h | rri a b h | mem a b h => cases h <;> simp
  | _ => simp

theorem LinePhrase.newline_notMem {ts : List Token} {its : List Item} (h : LinePhrase ts its) :
    .newline ∉ ts := by
  induction h with
  | empty => exact List.not_mem_nil
  | item k hargs hprod => simp [hargs.newline_notMem]
  | label name h ih => simp [ih]

theorem splitLines_append {l : List Token} (hl : .newline ∉ l) (ts : List Token) :
    splitLines (l ++ .newline :: ts) = (splitLines ts).map (l :: ·) := by
  induction l with
  | nil => rfl
  | cons t l ih =>
    obtain ⟨ht, hl⟩ := not_or.mp (List.mem_cons.not.mp hl)
    rw [List.cons_append, splitLines, ih hl]
    · cases splitLines ts <;> rfl
    · exact Ne.symm ht

theorem splitLines_sound {ts : List Token} {ls : List (List Token)} (h : splitLines ts = some ls) :
    ts = ls.flatMap (· ++ [.newline]) := by
  fun_induction splitLines ts generalizing ls with
  | case1 => cases h; rfl
  | case2 ts ih =>
    obtain ⟨ls, hls, rfl⟩ := Option.map_eq_some_iff.mp h
    rw [ih hls]
    rfl
  | case3 t ts ht l ls hls ih =>
    cases h
    rw [ih hls]
    rfl
  | case4 => cases h

theorem parseLines_sound {line : ℤ} {ls : List (List Token)} {prog : Program}
    (h : parseLines line ls = some prog) :
    ProgramPhrase line (ls.flatMap (· ++ [.newline])) prog := by
  induction ls generalizing line prog with
  | nil => cases h; exact .empty line
  | cons l ls ih =>
    obtain ⟨its, hline, h⟩ := Option.bind_eq_some_iff.mp h
    obtain ⟨prog, hrest, rfl⟩ := Option.map_eq_some_iff.mp h
    rw [List.flatMap_cons, List.append_assoc]
    exact .segment (parseLine_sound hline) (ih hrest)

theorem ProgramPhrase.parse {line : ℤ} {ts : List Token} {prog : Program}
    (h : ProgramPhrase line ts prog) : (splitLines ts).bind (parseLines line) = some prog := by
  induction h with
  | empty line => rfl
  | segment hline hrest ih =>
    obtain ⟨ls, hls, hparse⟩ := Option.bind_eq_some_iff.mp ih
    rw [splitLines_append hline.newline_notMem, hls, Option.map_some, Option.bind_some, parseLines,
      hline.parse, Option.bind_some, hparse, Option.map_some]

/-- The parser accepts exactly the programs of the grammar, with the items of their only
derivation. -/
theorem yyparse_iff (ts : List Token) (prog : Program) :
    yyparse ts = some prog ↔ ProgramPhrase 1 ts prog := by
  constructor
  · intro h
    obtain ⟨ls, hls, hparse⟩ := Option.bind_eq_some_iff.mp h
    rw [splitLines_sound hls]
    exact parseLines_sound hparse
  · exact ProgramPhrase.parse

/-- No input has two derivations. -/
theorem ProgramPhrase.unique {ts : List Token} {prog prog' : Program}
    (h : ProgramPhrase 1 ts prog) (h' : ProgramPhrase 1 ts prog') : prog = prog' :=
  Option.some.inj (h.parse.symm.trans h'.parse)

/-- The parser finds the derivation of an input where there is one, which is then the only one. -/
theorem yyparse_exact (ts : List Token) :
    (∀ prog, yyparse ts = some prog ↔ ProgramPhrase 1 ts prog) ∧
      ∀ prog prog', ProgramPhrase 1 ts prog → ProgramPhrase 1 ts prog' → prog = prog' :=
  ⟨yyparse_iff ts, fun _ _ => ProgramPhrase.unique⟩

end RvAssembler
