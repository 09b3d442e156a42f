import RvAssembler.SettledLayout

namespace RvAssembler

def sectionAfter (cur : Section) (prog : Program) : Section :=
  prog.foldl (fun s p => p.2.nextSection s) cur

/-- The bytes of code and data of a section that the items of a program stand for. -/
def bytesIn (s : Section) : Section → Program → ℕ
  | _, [] => 0
  | cur, p :: prog => (if cur = s then p.2.bytes else 0) + bytesIn s (p.2.nextSection cur) prog

theorem bytesIn_append (s cur : Section) (prog prog' : Program) :
    bytesIn s cur (prog ++ prog') =
      bytesIn s cur prog + bytesIn s (sectionAfter cur prog) prog' := by
  induction prog generalizing cur with
  | nil => exact (Nat.zero_add _).symm
  | cons p prog ih => rw [List.cons_append, bytesIn, ih, bytesIn, Nat.add_assoc]; rfl

theorem execItem_curSection {st : Pass1} (h : st.Good) (line : ℤ) (it : Item) :
    (execItem st line it).counters.curSection = it.nextSection st.counters.curSection := by
  rw [execItem_counters h.counters, passSetSection]

theorem execAll_curSection {st : Pass1} (h : st.Good) (prog : Program) :
    (execAll st prog).counters.curSection = sectionAfter st.counters.curSection prog := by
  induction prog generalizing st with
  | nil => rfl
  | cons p prog ih =>
    rw [execAll_cons, ih (h.exec p.1 p.2), execItem_curSection h]
    rfl

theorem pass1Run_curSection (prog : Program) :
    (pass1Run prog).counters.curSection = sectionAfter .text prog := execAll_curSection good_start prog

theorem execAll_text {st : Pass1} (h : st.Good) (hs : st.counters.curSection = .text)
    {code : Program} (hcode : ∀ p ∈ code, p.2 ≠ .data) :
    ∃ es, (execAll st code).ir = st.ir ++ es ∧ ∀ e ∈ es, e.sect = .text := by
  induction code generalizing st with
  | nil => exact ⟨[], (List.append_nil _).symm, by simp⟩
  | cons p code ih =>
    obtain ⟨hp, hcode⟩ := List.forall_mem_cons.mp hcode
    obtain ⟨es, hir, hes, -⟩ := execItem_ir h.counters p.1 p.2
    have hnext : (execItem st p.1 p.2).counters.curSection = .text := by
      rw [execItem_curSection h, hs]
      cases hit : p.2
      case data => exact absurd hit hp
      all_goals rfl
    obtain ⟨es', hir', hes'⟩ := ih (h.exec p.1 p.2) hnext hcode
    refine ⟨es ++ es', by rw [execAll_cons, hir', hir, List.append_assoc], ?_⟩
    rw [List.forall_mem_append]
    exact ⟨fun e he => (hes e he).2.trans hs, hes'⟩

theorem roomIn_of_sect {s cur : Section} {es : List IrEntry} (h : ∀ e ∈ es, e.sect = cur)
    (hne : cur ≠ s) : roomIn s es = 0 := by
  induction es with
  | nil => rfl
  | cons e es ih =>
    obtain ⟨he, hes⟩ := List.forall_mem_cons.mp h
    rw [roomIn_cons, ih hes, if_neg (by rw [he]; exact hne)]

/-- The entries of a program take the bytes its items stand for. -/
theorem roomIn_execAll {st : Pass1} (h : st.Good) (s : Section) (prog : Program) :
    roomIn s (execAll st prog).ir = roomIn s st.ir + bytesIn s st.counters.curSection prog := by
  induction prog generalizing st with
  | nil => rfl
  | cons p prog ih =>
    obtain ⟨es, hir, hes, hroom⟩ := execItem_ir h.counters p.1 p.2
    rw [execAll_cons, ih (h.exec p.1 p.2), execItem_curSection h, hir, roomIn_append, bytesIn,
      Nat.add_assoc, ← hroom]
    congr 2
    split_ifs with hs
    · rw [hs]
    · exact roomIn_of_sect (fun e he => (hes e he).2) hs

theorem roomIn_pass1Run (s : Section) (prog : Program) :
    roomIn s (pass1Run prog).ir = bytesIn s .text prog := by
  rw [pass1Run, roomIn_execAll good_start, roomIn_nil, Nat.zero_add]

theorem take_pass1Run (pre post : Program) :
    (pass1Run (pre ++ post)).ir.take (pass1Run pre).ir.length = (pass1Run pre).ir := by
  obtain ⟨es, hes⟩ := execAll_ir (pass1Run_good pre) post
  rw [pass1Run_append, hes, List.take_left]

theorem concat_eq_append_cons {prog pre post : Program} {p q : ℤ × Item}
    (h : prog ++ [p] = pre ++ q :: post) :
    (pre = prog ∧ q = p) ∨ ∃ post', prog = pre ++ q :: post' := by
  rcases List.eq_nil_or_concat post with rfl | ⟨post, r, rfl⟩
  · obtain ⟨rfl, hpq⟩ := List.append_inj' h rfl
    exact .inl ⟨rfl, (List.cons.inj hpq).1.symm⟩
  · have h : prog ++ [p] = (pre ++ q :: post) ++ [r] := by simpa using h
    exact .inr ⟨post, (List.append_inj' h rfl).1⟩

/-- The items move the location counters by the bytes they stand for. -/
def Steady (prog : Program) : Prop :=
  ∀ pre p post, prog = pre ++ p :: post → p.2.moves (pass1Run pre).counters = p.2.bytes

theorem Steady.of_append {prog prog' : Program} (h : Steady (prog ++ prog')) : Steady prog :=
  fun pre p post hsplit => h pre p (post ++ prog') (by rw [hsplit]; simp)

theorem Steady.pc {prog : Program} (h : Steady prog) (s : Section) :
    (pass1Run prog).counters.pc s = u32 (bytesIn s .text prog) := by
  induction prog using List.reverseRecOn with
  | nil => cases s <;> rfl
  | append_singleton prog p ih =>
    have ih := ih h.of_append
    have hgood := pass1Run_good prog
    rw [pass1Run_concat, execItem_pc hgood.counters, h prog p [] rfl, ih, pass1Run_curSection,
      bytesIn_append]
    simp only [bytesIn, Nat.add_zero]
    by_cases hs : s = sectionAfter .text prog
    · rw [if_pos hs, if_pos hs.symm, u32_u32_add]
    · rw [if_neg hs, if_neg (Ne.symm hs), Nat.add_zero]

/-- A program first defines a label behind the items `pre`. -/
def Defines (prog pre : Program) (name : Identifier) : Prop :=
  (∃ line post, prog = pre ++ (line, .label name) :: post) ∧ ∀ p ∈ pre, p.2 ≠ .label name

theorem Identifier.toCString_inj {a b : Identifier} : a.toCString = b.toCString ↔ a = b := by
  constructor
  · intro h
    cases a
    cases b
    cases h
    rfl
  · exact fun h => by rw [h]

theorem execItem_toMap {st : Pass1} (h : st.Good) (line : ℤ) (name : Identifier) :
    (execItem st line (.label name)).symtab.toMap =
      if st.symtab.toMap name.toCString = none then
        Function.update st.symtab.toMap name.toCString (some (i32 (passCurrentPc st.counters)))
      else st.symtab.toMap := (h.symtab.insertSym _ _).2

theorem execItem_toMap_self {st : Pass1} (h : st.Good) (line : ℤ) (name : Identifier) :
    (execItem st line (.label name)).symtab.toMap name.toCString ≠ none := by
  rw [execItem_toMap h]
  split_ifs with hnone
  · simp
  · exact hnone

theorem execItem_toMap_of_ne {st : Pass1} (h : st.Good) (line : ℤ) {it : Item} {l : CString}
    (hne : ∀ name, it = .label name → name.toCString ≠ l) :
    (execItem st line it).symtab.toMap l = st.symtab.toMap l := by
  by_cases hlabel : ∃ name, it = .label name
  · obtain ⟨name, rfl⟩ := hlabel
    rw [execItem_toMap h]
    split_ifs
    · rw [Function.update_of_ne (hne name rfl).symm]
    · rfl
  · rw [execItem_symtab h.counters]
    cases it
    case label name => exact absurd ⟨name, rfl⟩ hlabel
    all_goals rfl

theorem execAll_toMap_of_some {st : Pass1} (h : st.Good) {l : CString} {v : ℤ}
    (hv : st.symtab.toMap l = some v) (prog : Program) :
    (execAll st prog).symtab.toMap l = some v := by
  induction prog generalizing st with
  | nil => exact hv
  | cons p prog ih =>
    rw [execAll_cons]
    refine ih (h.exec p.1 p.2) ?_
    by_cases hlabel : ∃ name, p.2 = .label name ∧ name.toCString = l
    · obtain ⟨name, hp, rfl⟩ := hlabel
      rw [hp, execItem_toMap h, if_neg (by simp [hv]), hv]
    · rw [execItem_toMap_of_ne h, hv]
      exact fun name hp hl => hlabel ⟨name, hp, hl⟩

theorem execAll_toMap_of_undefined {st : Pass1} (h : st.Good) {name : Identifier} {prog : Program}
    (hno : ∀ p ∈ prog, p.2 ≠ .label name) :
    (execAll st prog).symtab.toMap name.toCString = st.symtab.toMap name.toCString := by
  induction prog generalizing st with
  | nil => rfl
  | cons p prog ih =>
    obtain ⟨hp, hprog⟩ := List.forall_mem_cons.mp hno
    rw [execAll_cons, ih (h.exec p.1 p.2) hprog, execItem_toMap_of_ne h]
    intro name' hlabel heq
    rw [Identifier.toCString_inj] at heq
    exact hp (by rw [hlabel, heq])

/-- The symbol table lacks exactly the labels that stand nowhere in a program. -/
theorem toMap_pass1Run_eq_none {prog : Program} {name : Identifier} :
    (pass1Run prog).symtab.toMap name.toCString = none ↔ ∀ p ∈ prog, p.2 ≠ .label name := by
  constructor
  · intro hnone p hp hlabel
    obtain ⟨pre, post, rfl⟩ := List.append_of_mem hp
    have hpre := pass1Run_good pre
    obtain ⟨v, hv⟩ := Option.ne_none_iff_exists'.mp (execItem_toMap_self hpre p.1 name)
    rw [← hlabel] at hv
    have hend := execAll_toMap_of_some (hpre.exec p.1 p.2) hv post
    rw [pass1Run_append, execAll_cons, hend] at hnone
    cases hnone
  · intro hno
    rw [pass1Run, execAll_toMap_of_undefined good_start hno]
    exact congrFun createSymtab_toMap _

theorem Defines.toMap {prog pre : Program} {name : Identifier} (h : Defines prog pre name) :
    (pass1Run prog).symtab.toMap name.toCString =
      some (i32 (passCurrentPc (pass1Run pre).counters)) := by
  obtain ⟨⟨line, post, rfl⟩, hno⟩ := h
  have hgood := pass1Run_good pre
  have hnone := toMap_pass1Run_eq_none.mpr hno
  rw [pass1Run_append, execAll_cons]
  refine execAll_toMap_of_some (hgood.exec line _) ?_ post
  rw [execItem_toMap hgood, if_pos hnone, Function.update_self]

theorem Defines.searchSym {prog pre : Program} {name : Identifier} (h : Defines prog pre name) :
    searchSym (pass1Run prog).symtab name.toCString =
      i32 (passCurrentPc (pass1Run pre).counters) := by
  rw [searchSym_eq, h.toMap, Option.getD_some]

/-- Behind items that move the counters by their bytes, a label stands for the bytes before it. -/
theorem Defines.searchSym_of_steady {prog pre : Program} {name : Identifier}
    (h : Defines prog pre name) (hpre : Steady pre) :
    RvAssembler.searchSym (pass1Run prog).symtab name.toCString =
      i32 (u32 (bytesIn (sectionAfter .text pre) .text pre)) := by
  rw [h.searchSym, passCurrentPc, pass1Run_curSection, hpre.pc]

end RvAssembler
