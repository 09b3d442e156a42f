import RvAssembler.Labels

namespace RvAssembler

open Relax

/-- The state in which a run of pass 2 over a program has done with its items `pre`. -/
def stateAfter (cfg : Config) (ops : FileOps) (out : OutCtx) (prog pre : Program) : Pass2 :=
  stateBefore cfg (pass1Run prog).symtab ops out (pass1Run prog).ir (pass1Run pre).ir.length

theorem map_core_take {ir lay : List IrEntry} (h : lay.map IrEntry.core = ir.map IrEntry.core)
    (k : ℕ) : (lay.take k).map IrEntry.core = (ir.take k).map IrEntry.core := by
  rw [List.map_take, h, List.map_take]

theorem written_stateAfter {cfg : Config} {ops : FileOps} {out : OutCtx} {prog : Program}
    (hrun : (pass2Run cfg (pass1Run prog).symtab ops (pass2Start out) (pass1Run prog).ir).2 = true)
    {pre post : Program} (hsplit : prog = pre ++ post) (s : Section) :
    (stateAfter cfg ops out prog pre).written s +
        2 * ((pass2Layout cfg (pass1Run prog).symtab (pass1Run prog).ir).take
          (pass1Run pre).ir.length).countP (fun e => e.sect = s && e.hasCChoice) =
      bytesIn s .text pre := by
  have hgood := pass1Run_good prog
  obtain ⟨hl, hcore⟩ := pass2Layout_laidOut cfg (pass1Run prog).symtab hgood.ir
  obtain ⟨-, hwritten⟩ := pass2Run_written hgood.ir hrun
  rw [stateAfter, hwritten, hl.emittedIn_take,
    roomIn_add_saved (fun e he => hgood.ir e (List.mem_of_mem_take he))
      (fun e he => hl.sound e (List.mem_of_mem_take he)) (map_core_take hcore _),
    hsplit, take_pass1Run, roomIn_pass1Run]

theorem pass2Layout_noChoice {cfg : Config} (hno : cfg.compresses = false) (t : SymTab)
    {ir : List IrEntry} (h : ∀ e ∈ ir, e.Fresh) :
    ∀ e ∈ pass2Layout cfg t ir, e.hasCChoice = false := by
  have hlong : ∀ c ∈ cells t ir, c.isShort = false := by
    intro c hc
    obtain ⟨e, he, rfl⟩ := List.mem_map.mp hc
    exact (h e he).noChoice
  have hcells := (pass2Layout_laidOut cfg t h).1.cells
  rw [plannedCells, pass2PlanChoices, hno, if_pos Bool.not_false,
    rounds_of_settled (roundFrom_of_long hlong)] at hcells
  intro e he
  exact hlong (e.cell t) (hcells ▸ List.mem_map_of_mem he)

theorem written_stateAfter_of_noChoice {cfg : Config} (hno : cfg.compresses = false)
    {ops : FileOps} {out : OutCtx} {prog : Program}
    (hrun : (pass2Run cfg (pass1Run prog).symtab ops (pass2Start out) (pass1Run prog).ir).2 = true)
    {pre post : Program} (hsplit : prog = pre ++ post) (s : Section) :
    (stateAfter cfg ops out prog pre).written s = bytesIn s .text pre := by
  rw [← written_stateAfter hrun hsplit s, List.countP_eq_zero.mpr, Nat.mul_zero, Nat.add_zero]
  intro e he
  simp [pass2Layout_noChoice hno _ (pass1Run_good prog).ir e (List.mem_of_mem_take he)]

def byteCounters (prog : Program) : Counters where
  curSection := sectionAfter .text prog
  pcText := u32 (bytesIn .text .text prog)
  pcData := u32 (bytesIn .data .text prog)

theorem Steady.counters {prog : Program} (h : Steady prog) :
    (pass1Run prog).counters = byteCounters prog := by
  have hsect := pass1Run_curSection prog
  have htext := h.pc .text
  have hdata := h.pc .data
  rcases hc : (pass1Run prog).counters with ⟨cur, pcText, pcData⟩
  rw [hc] at hsect htext hdata
  rw [byteCounters, ← hsect, ← htext, ← hdata]
  rfl

theorem Steady.concat {prog : Program} (h : Steady prog) {p : ℤ × Item}
    (hp : p.2.moves (pass1Run prog).counters = p.2.bytes) : Steady (prog ++ [p]) := by
  intro pre q post hsplit
  obtain ⟨rfl, rfl⟩ | ⟨post, rfl⟩ := concat_eq_append_cons hsplit
  · exact hp
  · exact h pre q post rfl

/-- A program is steady if its items move counters that count bytes by their bytes. -/
theorem steady_iff {prog : Program} :
    Steady prog ↔
      ∀ pre p post, prog = pre ++ p :: post → p.2.moves (byteCounters pre) = p.2.bytes := by
  constructor
  · intro h pre p post hsplit
    have hpre : Steady pre := Steady.of_append (hsplit ▸ h)
    rw [← hpre.counters]
    exact h pre p post hsplit
  · intro h
    induction prog using List.reverseRecOn with
    | nil => intro pre p post hsplit; simp at hsplit
    | append_singleton prog p ih =>
      have hprog : Steady prog := ih fun pre q post hsplit =>
        h pre q (post ++ [p]) (by rw [hsplit]; simp)
      refine hprog.concat ?_
      rw [hprog.counters]
      exact h prog p [] rfl

theorem moves_eq_bytes {c : Counters} {it : Item} (hspace : ∀ n, it = .space n → n.toInt ≤ 0)
    (halign : ∀ pow2, it = .align pow2 → alignPad c pow2 = 0) : it.moves c = it.bytes := by
  cases it
  case align pow2 => exact halign pow2 rfl
  case space n =>
    rw [Item.moves, Item.bytes]
    split_ifs
    · rfl
    · rw [Int.toNat_of_nonpos (hspace n rfl), u32, Nat.zero_mod]
  all_goals rfl

/-- The value of every label is the number of bytes written before what follows it, and
`.space` and `.align` have written the zeros pass 1 counted. -/
structure PassesAgree (cfg : Config) (ops : FileOps) (out : OutCtx) (prog : Program) : Prop where
  label : ∀ pre name, Defines prog pre name →
    searchSym (pass1Run prog).symtab name.toCString =
      (stateAfter cfg ops out prog pre).written (sectionAfter .text pre)
  space : ∀ pre line n post, prog = pre ++ (line, .space n) :: post → 0 ≤ n.toInt →
    sectionBytes (sectionAfter .text pre) .text
        (stateAfter cfg ops out prog (pre ++ [(line, .space n)])).calls =
      sectionBytes (sectionAfter .text pre) .text (stateAfter cfg ops out prog pre).calls ++
        List.replicate n.toInt.toNat 0
  align : ∀ pre line pow2 post, prog = pre ++ (line, .align pow2) :: post →
    sectionBytes (sectionAfter .text pre) .text
        (stateAfter cfg ops out prog (pre ++ [(line, .align pow2)])).calls =
      sectionBytes (sectionAfter .text pre) .text (stateAfter cfg ops out prog pre).calls ++
        List.replicate (alignPad (pass1Run pre).counters pow2) 0

/-- An item that stands for no bytes has written none. -/
theorem replicate_of_noBytes {cfg : Config} (hno : cfg.compresses = false)
    {ops : FileOps} {out : OutCtx} {prog : Program}
    (hrun : (pass2Run cfg (pass1Run prog).symtab ops (pass2Start out) (pass1Run prog).ir).2 = true)
    {pre post : Program} {p : ℤ × Item} (hsplit : prog = pre ++ p :: post) (hp : p.2.bytes = 0)
    {s : Section} {n : ℕ}
    (h : sectionBytes s .text (stateAfter cfg ops out prog (pre ++ [p])).calls =
      sectionBytes s .text (stateAfter cfg ops out prog pre).calls ++ List.replicate n 0) :
    n = 0 := by
  have hbefore := written_stateAfter_of_noChoice hno hrun hsplit s
  have hafter := written_stateAfter_of_noChoice hno hrun
    (show prog = (pre ++ [p]) ++ post by rw [hsplit]; simp) s
  have hlen := congrArg List.length h
  rw [List.length_append, List.length_replicate, ← Pass2.written, ← Pass2.written, hbefore, hafter,
    bytesIn_append] at hlen
  simp only [bytesIn, hp, Nat.add_zero, ite_self] at hlen
  omega

theorem sectionBytes_of_noBytes {cfg : Config} (hno : cfg.compresses = false)
    {ops : FileOps} {out : OutCtx} {prog : Program}
    (hrun : (pass2Run cfg (pass1Run prog).symtab ops (pass2Start out) (pass1Run prog).ir).2 = true)
    {pre post : Program} {p : ℤ × Item} (hsplit : prog = pre ++ p :: post) (hp : p.2.bytes = 0)
    (s : Section) :
    sectionBytes s .text (stateAfter cfg ops out prog (pre ++ [p])).calls =
      sectionBytes s .text (stateAfter cfg ops out prog pre).calls := by
  have hle : (pass1Run pre).ir.length ≤ (pass1Run (pre ++ [p])).ir.length := by
    obtain ⟨es, hes⟩ := execAll_ir (pass1Run_good pre) [p]
    rw [pass1Run_append, hes, List.length_append]
    exact Nat.le_add_right _ _
  obtain ⟨bs, hbs⟩ := pass2Run_sectionBytes (pass1Run_good prog).ir hrun hle s
  have hbefore := written_stateAfter_of_noChoice hno hrun hsplit s
  have hafter := written_stateAfter_of_noChoice hno hrun
    (show prog = (pre ++ [p]) ++ post by rw [hsplit]; simp) s
  -- the two states have written the same number of bytes
  have hnil : bs = [] := by
    have hlen := congrArg List.length hbs
    rw [List.length_append] at hlen
    simp only [Pass2.written, stateAfter, bytesIn_append] at hbefore hafter
    simp only [bytesIn, hp, Nat.add_zero, ite_self] at hafter
    refine List.length_eq_zero_iff.mp ?_
    omega
  rw [stateAfter, stateAfter, hbs, hnil, List.append_nil]

/-- With automatic compression off the two passes agree if and only if every `.space` is
empty, every `.align` stands where the bytes before it are aligned already, and less than
`2 ^ 31` bytes stand before each label in its section. -/
theorem passesAgree_iff (cfg : Config) (ops : FileOps) (out : OutCtx) (prog : Program)
    (hno : cfg.compresses = false)
    (hrun : (pass2Run cfg (pass1Run prog).symtab ops (pass2Start out) (pass1Run prog).ir).2 = true) :
    PassesAgree cfg ops out prog ↔
      (∀ p ∈ prog, ∀ n, p.2 = .space n → n.toInt ≤ 0) ∧
      (∀ pre line pow2 post, prog = pre ++ (line, .align pow2) :: post →
        alignPad (byteCounters pre) pow2 = 0) ∧
      ∀ pre name, Defines prog pre name → bytesIn (sectionAfter .text pre) .text pre < 2 ^ 31 := by
  constructor
  · intro h
    -- pass 2 writes nothing for `.space` and `.align`, so there was nothing to fill
    have hspace : ∀ p ∈ prog, ∀ n, p.2 = .space n → n.toInt ≤ 0 := by
      rintro ⟨line, it⟩ hmem n rfl
      obtain ⟨pre, post, hsplit⟩ := List.append_of_mem hmem
      by_contra hpos
      have hzero := replicate_of_noBytes hno hrun hsplit rfl
        (h.space pre line n post hsplit (by omega))
      omega
    have halign : ∀ pre line pow2 post, prog = pre ++ (line, .align pow2) :: post →
        alignPad (pass1Run pre).counters pow2 = 0 := fun pre line pow2 post hsplit =>
      replicate_of_noBytes hno hrun hsplit rfl (h.align pre line pow2 post hsplit)
    have hsteady : Steady prog := fun pre p post hsplit =>
      moves_eq_bytes (hspace p (by rw [hsplit]; simp))
        fun pow2 hp => halign pre p.1 pow2 post (by rw [hsplit, ← hp])
    refine ⟨hspace, fun pre line pow2 post hsplit => ?_, fun pre name hdef => ?_⟩
    · exact steady_iff.mp hsteady pre _ post hsplit
    · have hlabel := h.label pre name hdef
      obtain ⟨⟨line, post, hsplit⟩, -⟩ := id hdef
      rw [hdef.searchSym_of_steady (Steady.of_append (hsplit ▸ hsteady)),
        written_stateAfter_of_noChoice hno hrun hsplit, i32_eq] at hlabel
      omega
  · rintro ⟨hspace, halign, hsmall⟩
    -- no item moves a counter by more than it writes
    have hsteady : Steady prog := steady_iff.mpr fun pre p post hsplit =>
      moves_eq_bytes (hspace p (by rw [hsplit]; simp))
        fun pow2 hp => halign pre p.1 pow2 post (by rw [hsplit, ← hp])
    constructor
    case label =>
      intro pre name hdef
      have hlt := hsmall pre name hdef
      obtain ⟨⟨line, post, hsplit⟩, -⟩ := id hdef
      rw [hdef.searchSym_of_steady (Steady.of_append (hsplit ▸ hsteady)),
        written_stateAfter_of_noChoice hno hrun hsplit, i32_eq, u32]
      omega
    case space =>
      intro pre line n post hsplit _
      have hn := hspace (line, .space n) (by rw [hsplit]; simp) n rfl
      rw [sectionBytes_of_noBytes hno hrun hsplit rfl, Int.toNat_of_nonpos hn, List.replicate_zero,
        List.append_nil]
    case align =>
      intro pre line pow2 post hsplit
      have hpre : Steady pre := Steady.of_append (hsplit ▸ hsteady)
      rw [sectionBytes_of_noBytes hno hrun hsplit rfl, hpre.counters,
        halign pre line pow2 post hsplit, List.replicate_zero, List.append_nil]

def twoWords : Program :=
  [(1, .data), (2, .word 7), (3, .align 2), (4, .label (letter 0)), (5, .word 1)]

theorem passesAgree_iff_twoWords :
    PassesAgree (passSetArch 32 false false false) allOps (outSetFile (outBegin .raw 32) {})
      twoWords := by
  refine (passesAgree_iff _ _ _ twoWords rfl (by decide +kernel)).mpr ⟨?_, ?_, ?_⟩
  · simp [twoWords]
  · intro pre line pow2 post hsplit
    rcases pre with _ | ⟨p, _ | ⟨q, _ | ⟨r, pre⟩⟩⟩ <;> simp [twoWords] at hsplit
    · obtain ⟨rfl, rfl, ⟨rfl, rfl⟩, rfl⟩ := hsplit
      decide
    · have hmem : (line, Item.align pow2) ∈ [(4, .label (letter 0)), (5, .word 1)] := by
        rw [hsplit.2.2.2]
        simp
      simp at hmem
  · rintro pre name ⟨⟨line, post, hsplit⟩, -⟩
    have hle : ∀ s, bytesIn s .text pre ≤ bytesIn s .text twoWords := fun s => by
      rw [hsplit, bytesIn_append]
      exact Nat.le_add_right _ _
    refine (hle _).trans_lt ?_
    cases sectionAfter .text pre <;> decide

def gap : Program := [(1, .data), (2, .space 4), (3, .label (letter 0)), (4, .byte 1)]

/-- The label has the value 4, but nothing is written before it. -/
theorem gap_not_passesAgree :
    (pass2Run (passSetArch 32 false false false) (pass1Run gap).symtab allOps
        (pass2Start (outSetFile (outBegin .raw 32) {})) (pass1Run gap).ir).2 = true ∧
      ¬ PassesAgree (passSetArch 32 false false false) allOps (outSetFile (outBegin .raw 32) {})
        gap := by
  refine ⟨by decide +kernel, fun h => ?_⟩
  have hlabel := h.label [(1, .data), (2, .space 4)] (letter 0)
    ⟨⟨3, [(4, .byte 1)], rfl⟩, by simp⟩
  have hvalue : searchSym (pass1Run gap).symtab (letter 0).toCString = 4 := by decide +kernel
  have hwritten : (stateAfter (passSetArch 32 false false false) allOps
      (outSetFile (outBegin .raw 32) {}) gap [(1, .data), (2, .space 4)]).written .data = 0 := by
    decide +kernel
  rw [hvalue, show sectionAfter .text [(1, .data), (2, .space 4)] = .data from rfl, hwritten]
    at hlabel
  cases hlabel

end RvAssembler
