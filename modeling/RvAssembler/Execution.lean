import RvAssembler.ControlFlow
import RvAssembler.Executes
import RvAssembler.Lib.Runs

namespace RvAssembler

open Relax

/-- Where `.text` starts, and how far behind its start the items of a program leave off. -/
structure Placement (w : ℕ) where
  base : BitVec w
  offset : Program → ℕ

def Placement.after {w : ℕ} (pl : Placement w) (pre : Program) : BitVec w :=
  pl.base + BitVec.ofNat w (pl.offset pre)

def Item.defines (l : CString) : Item → Bool
  | .label name => name.toCString = l
  | _ => false

def itemsBefore (l : CString) : Program → Option Program
  | [] => none
  | p :: prog => if p.2.defines l then some [] else (itemsBefore l prog).map (p :: ·)

def Placement.target {w : ℕ} (pl : Placement w) (prog : Program) (l : CString) :
    Option (BitVec w) :=
  (itemsBefore l prog).bind fun pre =>
    if sectionAfter .text pre = .text then some (pl.after pre) else none

/-- A step of a program: the statement at the program counter takes effect.  Programs that
write over themselves make no step. -/
inductive Program.Step {w : ℕ} (p : Platform w) (pl : Placement w) (prog : Program) :
    Hart w → Hart w → Prop
  | statement {pre post : Program} {line : ℤ} {i : Instruction} {h h' : Hart w}
    (hsplit : prog = pre ++ (line, .instruction i) :: post)
    (hsect : sectionAfter .text pre = .text) (hpc : h.pc = pl.after pre)
    (hmeaning : i.meaning p (pl.target prog)
      (pl.offset (pre ++ [(line, .instruction i)]) - pl.offset pre) h = some h')
    (hcode : h'.mem.window pl.base (pl.offset prog) = h.mem.window pl.base (pl.offset prog)) :
    Program.Step p pl prog h h'

theorem Item.defines_iff {l : CString} {it : Item} :
    it.defines l = true ↔ ∃ name : Identifier, it = .label name ∧ name.toCString = l := by
  cases it <;> simp [Item.defines]

theorem defines_of_itemsBefore {l : CString} {prog pre : Program}
    (h : itemsBefore l prog = some pre) : ∃ name, l = name.toCString ∧ Defines prog pre name := by
  induction prog generalizing pre with
  | nil => cases h
  | cons p prog ih =>
    rw [itemsBefore] at h
    split_ifs at h with hp
    · obtain ⟨name, hname, rfl⟩ := Item.defines_iff.mp hp
      obtain rfl := Option.some.inj h
      exact ⟨name, rfl, ⟨p.1, prog, by rw [← hname]; rfl⟩, nofun⟩
    · obtain ⟨pre', hpre', rfl⟩ := Option.map_eq_some_iff.mp h
      obtain ⟨name, rfl, ⟨line, post, hsplit⟩, hno⟩ := ih hpre'
      refine ⟨name, rfl, ⟨line, post, by rw [hsplit]; rfl⟩, List.forall_mem_cons.mpr ⟨?_, hno⟩⟩
      exact fun hlabel => hp (Item.defines_iff.mpr ⟨name, hlabel, rfl⟩)

theorem Instruction.target_of_meaning {w : ℕ} {p : Platform w}
    {target : CString → Option (BitVec w)} {len : ℕ} {h h' : Hart w} {i : Instruction}
    (hm : i.meaning p target len h = some h') {a : InstrArgs} (ha : a ∈ i.emits) {l : CString}
    (hl : a.label = some l) : ∃ addr, target l = some addr := by
  cases i with
  | la rd name =>
    obtain ⟨addr, haddr, -⟩ := Option.map_eq_some_iff.mp hm
    simp only [Instruction.emits, List.mem_cons, List.not_mem_nil, or_false] at ha
    obtain rfl | rfl := ha <;> exact ⟨addr, by rw [← Option.some.inj hl]; exact haddr⟩
  | beqLabel | bneLabel | bltLabel | bgeLabel | bltuLabel | bgeuLabel | beqzLabel | bnezLabel
  | jLabel | jalLabel | cBeqzLabel | cBnezLabel | cJLabel | cJalLabel =>
    obtain ⟨addr, haddr, -⟩ := Option.bind_eq_some_iff.mp hm
    obtain rfl := List.mem_singleton.mp ha
    exact ⟨addr, by rw [← Option.some.inj hl]; exact haddr⟩
  | _ =>
    obtain rfl := List.mem_singleton.mp ha
    cases hl

theorem Instruction.reloc_emits {i : Instruction} (hla : ∀ rd l, i ≠ .la rd l) {a : InstrArgs}
    (ha : a ∈ i.emits) (hl : a.label ≠ none) : a.reloc = .boff ∨ a.reloc = .jtgt := by
  cases i with
  | la rd l => exact absurd rfl (hla rd l)
  | beqLabel | bneLabel | bltLabel | bgeLabel | bltuLabel | bgeuLabel | beqzLabel | bnezLabel
  | cBeqzLabel | cBnezLabel =>
    obtain rfl := List.mem_singleton.mp ha
    exact .inl rfl
  | jLabel | jalLabel | cJLabel | cJalLabel =>
    obtain rfl := List.mem_singleton.mp ha
    exact .inr rfl
  | _ =>
    obtain rfl := List.mem_singleton.mp ha
    exact absurd rfl hl

theorem statement_entry {prog pre post : Program} {line : ℤ} {i : Instruction}
    (h : prog = pre ++ (line, .instruction i) :: post) (hla : ∀ rd l, i ≠ .la rd l) :
    (pass1Run (pre ++ [(line, .instruction i)])).ir.length = (pass1Run pre).ir.length + 1 ∧
      ∃ e, (pass1Run prog).ir[(pass1Run pre).ir.length]? = some e ∧ e.kind = .instr ∧
        e.args ∈ i.emits ∧ e.sect = sectionAfter .text pre := by
  obtain ⟨a, ha⟩ : ∃ a, i.emits = [a] := by
    cases i with
    | la rd l => exact absurd rfl (hla rd l)
    | _ => exact ⟨_, rfl⟩
  have hvalid := i.valid_emits a (ha ▸ List.mem_singleton_self a)
  have hir : ∃ e : IrEntry, (execItem (pass1Run pre) line (.instruction i)).ir =
      (pass1Run pre).ir ++ [e] ∧ e.kind = .instr ∧ e.args = a ∧
        e.sect = (pass1Run pre).counters.curSection := by
    have hreloc : (if a.label.isSome then a.reloc else .none) = a.reloc := by
      cases hl : a.label with
      | none => exact (hvalid.noLabel hl).symm
      | some l => rfl
    refine ⟨_, by rw [execItem, ha]; rfl, rfl, ?_, rfl⟩
    simp only [IrEntry.args, hreloc]
  obtain ⟨e, hir, hk, hargs, hsect⟩ := hir
  obtain ⟨es, hes⟩ := execAll_ir ((pass1Run_good pre).exec line (.instruction i)) post
  constructor
  · rw [pass1Run_concat, hir, List.length_append]
    rfl
  · rw [h, pass1Run_append, execAll_cons, hes, hir]
    refine ⟨e, by simp, hk, by rw [hargs, ha]; exact List.mem_singleton_self a, ?_⟩
    rw [hsect, pass1Run_curSection]

section

variable {cfg : Config} {t : SymTab}

theorem length_callBytes {es : List IrEntry} (hs : ∀ e ∈ es, e.Sound)
    (hcalls : ∀ e ∈ es, ∃ cs, e.call cfg t = .ok cs) (s : Section) :
    ((es.filter fun e => e.sect = s).flatMap (IrEntry.callBytes cfg t)).length = emittedIn s es := by
  induction es with
  | nil => rfl
  | cons e es ih =>
    obtain ⟨he, hes⟩ := List.forall_mem_cons.mp hs
    obtain ⟨⟨cs, hc⟩, hcs⟩ := List.forall_mem_cons.mp hcalls
    have hlen : (e.callBytes cfg t).length = e.emitted := by
      have h := (he.call_eq_ok hc s s).2.1
      rw [sectionBytes_flatMap s s (IrEntry.call_next hc), if_pos rfl, if_pos rfl] at h
      rw [← h, IrEntry.callBytes, hc]
      rfl
    have hsplit : emittedIn s (e :: es) = (if e.sect = s then e.emitted else 0) + emittedIn s es :=
      rfl
    by_cases hsect : e.sect = s
    · rw [List.filter_cons_of_pos (by simpa using hsect), List.flatMap_cons, List.length_append,
        ih hes hcs, hlen, hsplit, if_pos hsect]
    · rw [List.filter_cons_of_neg (by simpa using hsect), ih hes hcs, hsplit, if_neg hsect,
        Nat.zero_add]

end

def textOf (cfg : Config) (ops : FileOps) (out : OutCtx) (prog : Program) : List UInt8 :=
  sectionBytes .text .text
    (pass2Run cfg (pass1Run prog).symtab ops (pass2Start out) (pass1Run prog).ir).1.calls

def writtenAt {w : ℕ} (cfg : Config) (ops : FileOps) (out : OutCtx) (prog : Program)
    (base : BitVec w) : Placement w where
  base := base
  offset pre := (stateAfter cfg ops out prog pre).written .text

section

variable {cfg : Config} {ops : FileOps} {out : OutCtx} {prog : Program}

theorem textOf_split (hrun : (pass2Run cfg (pass1Run prog).symtab ops (pass2Start out)
      (pass1Run prog).ir).2 = true) {k : ℕ} {e : IrEntry}
    (he : (pass2Layout cfg (pass1Run prog).symtab (pass1Run prog).ir)[k]? = some e)
    (hsect : e.sect = .text) :
    ∃ before behind, textOf cfg ops out prog =
        before ++ e.callBytes cfg (pass1Run prog).symtab ++ behind ∧
      before.length = (stateBefore cfg (pass1Run prog).symtab ops out (pass1Run prog).ir k).written
        .text ∧
      (stateBefore cfg (pass1Run prog).symtab ops out (pass1Run prog).ir (k + 1)).written .text =
        before.length + (e.callBytes cfg (pass1Run prog).symtab).length := by
  have hfresh := (pass1Run_good prog).ir
  have hsound := (pass2Layout_laidOut cfg (pass1Run prog).symtab hfresh).1.sound
  obtain ⟨hcalls, hwritten⟩ := pass2Run_written hfresh hrun
  rw [hwritten, hwritten, textOf, pass2Run_writes hfresh hrun]
  generalize pass2Layout cfg (pass1Run prog).symtab (pass1Run prog).ir = lay at *
  obtain ⟨hk, rfl⟩ := List.getElem?_eq_some_iff.mp he
  have hcount : ∀ n, ((((lay.take n).filter fun e => e.sect = .text).flatMap
      (IrEntry.callBytes cfg (pass1Run prog).symtab))).length = emittedIn .text (lay.take n) :=
    fun n => length_callBytes (fun e he => hsound e (List.mem_of_mem_take he))
      (fun e he => hcalls e (List.mem_of_mem_take he)) .text
  have hone : [lay[k]].filter (fun e => e.sect = .text) = [lay[k]] :=
    List.filter_cons_of_pos (by simpa using hsect)
  refine ⟨_, ((lay.drop (k + 1)).filter fun e => e.sect = .text).flatMap
    (IrEntry.callBytes cfg (pass1Run prog).symtab), ?_, hcount k, ?_⟩
  · conv_lhs => rw [← List.take_append_drop (k + 1) lay, List.take_succ_eq_append_getElem hk]
    rw [List.filter_append, List.filter_append, hone, List.flatMap_append, List.flatMap_append,
      List.flatMap_singleton]
  · rw [← hcount, List.take_succ_eq_append_getElem hk, List.filter_append, hone,
      List.flatMap_append, List.flatMap_singleton, List.length_append]

theorem length_textOf (hrun : (pass2Run cfg (pass1Run prog).symtab ops (pass2Start out)
      (pass1Run prog).ir).2 = true) :
    (textOf cfg ops out prog).length = (stateAfter cfg ops out prog prog).written .text := by
  have hfresh := (pass1Run_good prog).ir
  have hcore := (pass2Layout_laidOut cfg (pass1Run prog).symtab hfresh).2
  have hlen := congrArg List.length hcore
  rw [List.length_map, List.length_map] at hlen
  rw [stateAfter, (pass2Run_written hfresh hrun).2, ← hlen, List.take_length,
    ← pass2Run_emitted hfresh hrun]
  rfl

/-- What a program has to be for its output to run as it says: no `la`, which never loads an
address; every halfword among those the encoders get right; and branches that lead to where
the instructions behind their labels are. -/
structure Runnable (cfg : Config) (ops : FileOps) (out : OutCtx) (prog : Program) : Prop where
  noLa : ∀ p ∈ prog, ∀ rd l, p.2 ≠ .instruction (.la rd l)
  halves : ∀ e ∈ pass2Layout cfg (pass1Run prog).symtab (pass1Run prog).ir,
    e.sect = .text → e.kind = .instr → e.ReadsBack (pass1Run prog).symtab
  targets : ∀ pre i, sectionAfter .text pre = .text → BranchesTo prog pre i →
    ∀ e, (pass2Layout cfg (pass1Run prog).symtab (pass1Run prog).ir)[i]? = some e →
      e.sect = .text →
        ∃ d, encoderImm (pass1Run prog).symtab (nodeArgs e) e.addr e.line = .ok d ∧
          d + (stateBefore cfg (pass1Run prog).symtab ops out (pass1Run prog).ir i).written .text =
            (stateAfter cfg ops out prog pre).written .text

theorem after_of_distance {w : ℕ} (base : BitVec w) {x y : ℕ} {d : ℤ} (h : d + x = y) :
    base + BitVec.ofNat w y = base + BitVec.ofNat w x + BitVec.ofInt w d := by
  rw [BitVec.add_assoc, ← BitVec.ofInt_natCast, ← BitVec.ofInt_natCast, ← BitVec.ofInt_add, ← h,
    Int.add_comm]

/-- A hart that finds the `.text` of a program in memory does at a statement what it means,
traps included, if the labels of the statement have addresses. -/
theorem Runnable.step_eq (hok : Runnable cfg ops out prog) {p : Platform cfg.xlen}
    {base : BitVec cfg.xlen} {h : Hart cfg.xlen}
    (hrun : (pass2Run cfg (pass1Run prog).symtab ops (pass2Start out)
      (pass1Run prog).ir).2 = true)
    (hcode : h.mem.Holds base (textOf cfg ops out prog)) {pre post : Program} {line : ℤ}
    {i : Instruction} (hsplit : prog = pre ++ (line, .instruction i) :: post)
    (hsect : sectionAfter .text pre = .text)
    (hpc : h.pc = (writtenAt cfg ops out prog base).after pre)
    (hlabels : ∀ a ∈ i.emits, ∀ l, a.label = some l →
      ∃ addr, (writtenAt cfg ops out prog base).target prog l = some addr) :
    h.step p = i.meaning p ((writtenAt cfg ops out prog base).target prog)
      ((writtenAt cfg ops out prog base).offset (pre ++ [(line, .instruction i)]) -
        (writtenAt cfg ops out prog base).offset pre) h := by
  have hfresh := (pass1Run_good prog).ir
  have hla : ∀ rd l, i ≠ .la rd l := fun rd l hi =>
    hok.noLa (line, .instruction i) (by rw [hsplit]; simp) rd l (by rw [hi])
  obtain ⟨hnext, e', he', hk', hargs', hsect'⟩ := statement_entry hsplit hla
  have hcore := (pass2Layout_laidOut cfg (pass1Run prog).symtab hfresh).2
  obtain ⟨e, he, hsame⟩ := exists_core_of_getElem? hcore he'
  have hmem := List.mem_of_getElem? he
  have hk : e.kind = .instr := (IrEntry.kind_eq_of_core hsame).trans hk'
  have htext : e.sect = .text := (IrEntry.sect_eq_of_core hsame).trans (hsect'.trans hsect)
  have hargs : e.args ∈ i.emits := by rw [IrEntry.args_eq_of_core hsame]; exact hargs'
  obtain ⟨before, behind, htextOf, hbefore, hlen⟩ := textOf_split hrun he htext
  have hlength : (writtenAt cfg ops out prog base).offset (pre ++ [(line, .instruction i)]) -
      (writtenAt cfg ops out prog base).offset pre =
        (e.callBytes cfg (pass1Run prog).symtab).length := by
    simp only [writtenAt, stateAfter, hnext, hlen, ← hbefore, Nat.add_sub_cancel_left]
  have hplace : h.pc = base + BitVec.ofNat cfg.xlen before.length := by
    rw [hpc, hbefore]
    rfl
  have hbytes : h.mem.Holds h.pc (e.callBytes cfg (pass1Run prog).symtab) := by
    rw [htextOf, List.append_assoc, Mem.holds_append] at hcode
    rw [hplace]
    exact (Mem.holds_append.mp hcode.2).1
  obtain ⟨d, imm, hd, hnone, hsome, hfetch⟩ := (pass2Layout_final cfg prog e hmem).fetch_eq hk
    ((pass2Run_written hfresh hrun).1 e hmem) (hok.halves e hmem htext hk) hbytes
  have hres : e.args.Resolves ((writtenAt cfg ops out prog base).target prog) h.pc imm := by
    unfold InstrArgs.Resolves
    cases hl : e.args.label with
    | none => exact hnone hl
    | some l =>
      -- the offset leads to the place of the label
      obtain ⟨addr, haddr⟩ := hlabels e.args hargs l hl
      obtain ⟨pre', hpre', htarget⟩ := Option.bind_eq_some_iff.mp haddr
      split_ifs at htarget with hsect₂
      obtain ⟨name, rfl, hdef⟩ := defines_of_itemsBefore hpre'
      have hsame' := IrEntry.args_eq_of_core hsame
      have hb : BranchesTo prog pre' (pass1Run pre).ir.length := by
        refine ⟨name, e', hdef, he', hk', ?_, ?_⟩
        · exact (congrArg InstrArgs.label hsame').symm.trans hl
        · apply Instruction.reloc_emits hla hargs'
          rw [← hsame', hl]
          exact Option.some_ne_none _
      obtain ⟨d', hd', hsum⟩ := hok.targets pre' _ hsect₂ hb e he htext
      obtain rfl : d' = d := Except.ok.inj (hd'.symm.trans hd)
      have hlabel : e.label ≠ none := by
        rw [show e.label = _ from hl]
        exact Option.some_ne_none _
      simp only
      rw [haddr, ← htarget, hsome hlabel, hplace,
        ← after_of_distance base (by rw [hbefore]; exact hsum)]
      rfl
  rw [hlength, Instruction.meaning_eq p _ h cfg.xlenOk hla hargs hres, Hart.step, hfetch,
    Option.bind_map]
  rfl

/-- A step of the program is a step of the hart, which still finds the program afterwards. -/
theorem Program.Step.step {p : Platform cfg.xlen} {base : BitVec cfg.xlen} {h h' : Hart cfg.xlen}
    (hrun : (pass2Run cfg (pass1Run prog).symtab ops (pass2Start out)
      (pass1Run prog).ir).2 = true) (hok : Runnable cfg ops out prog)
    (hcode : h.mem.Holds base (textOf cfg ops out prog))
    (hstep : Program.Step p (writtenAt cfg ops out prog base) prog h h') :
    h.step p = some h' ∧ h'.mem.Holds base (textOf cfg ops out prog) := by
  obtain @⟨pre, post, line, i, _, _, hsplit, hsect, hpc, hmeaning, hkept⟩ := hstep
  constructor
  · rw [hok.step_eq hrun hcode hsplit hsect hpc fun a ha l hl =>
      Instruction.target_of_meaning hmeaning ha hl]
    exact hmeaning
  · apply hcode.congr
    rw [length_textOf hrun]
    exact hkept

/-- A hart does as many steps as the program does, and ends up where the program does. -/
theorem Program.Step.run {p : Platform cfg.xlen} {base : BitVec cfg.xlen} {n : ℕ}
    {h h' : Hart cfg.xlen}
    (hrun : (pass2Run cfg (pass1Run prog).symtab ops (pass2Start out)
      (pass1Run prog).ir).2 = true) (hok : Runnable cfg ops out prog)
    (hcode : h.mem.Holds base (textOf cfg ops out prog))
    (hsteps : Steps (Program.Step p (writtenAt cfg ops out prog base) prog) n h h') :
    iterate (Hart.step p) n h = some h' := by
  obtain ⟨t', hiter, rfl, -⟩ := hsteps.simulate (f := Hart.step p)
    (R := fun s t => t = s ∧ s.mem.Holds base (textOf cfg ops out prog)) (fun s s' t hst hs => by
      obtain ⟨rfl, hs'⟩ := hst
      obtain ⟨hstep, hkept⟩ := hs.step hrun hok hs'
      exact ⟨s', hstep, rfl, hkept⟩) ⟨rfl, hcode⟩
  exact hiter

end

section

variable {cfg : Config} {ops : FileOps} {out : OutCtx} {prog : Program}

theorem readsBack_of_noC (hC : cfg.extC = false) {t : SymTab} {e : IrEntry} (hk : e.kind = .instr)
    (hcall : ∃ cs, e.call cfg t = .ok cs) : e.ReadsBack t := by
  obtain ⟨cs, hcs⟩ := hcall
  obtain ⟨c, hc, rfl⟩ := (IrEntry.call_instr hk).mp hcs
  obtain ⟨imm, -, henc⟩ := instrCall_encoded hc
  intro d hd hfmt
  cases henc with
  | half _ hav => exact absurd (hav.1.symm.trans hC) (by decide)
  | word hno => exact absurd (hfmt.symm.trans hno) (by decide)

theorem addr_of_noChoice (hno : cfg.compresses = false)
    (hrun : (pass2Run cfg (pass1Run prog).symtab ops (pass2Start out)
      (pass1Run prog).ir).2 = true) {i : ℕ} {e : IrEntry}
    (he : (pass2Layout cfg (pass1Run prog).symtab (pass1Run prog).ir)[i]? = some e)
    (hsect : e.sect = .text) :
    e.addr = u32 ((stateBefore cfg (pass1Run prog).symtab ops out (pass1Run prog).ir i).written
      .text) := by
  have hfresh := (pass1Run_good prog).ir
  have hl := (pass2Layout_laidOut cfg (pass1Run prog).symtab hfresh).1
  have hlong : ∀ c ∈ plannedCells cfg (pass1Run prog).symtab (pass1Run prog).ir,
      c.isShort = false := by
    rw [plannedCells, pass2PlanChoices, hno, if_pos Bool.not_false]
    intro c hc
    obtain ⟨e, he, rfl⟩ := List.mem_map.mp hc
    exact (hfresh e he).noChoice
  have hsettled := rounds_of_settled (roundFrom_of_long hlong)
  have hsize := (hl.settled_iff (plannedCells_saves cfg (pass1Run prog).symtab hfresh)).mp
    ((hsettled _).trans (hsettled _).symm)
  rw [(pass2Run_written hfresh hrun).2, hl.emittedIn_take]
  obtain ⟨hi, rfl⟩ := List.getElem?_eq_some_iff.mp he
  rw [hl.addr_eq hsize hi, hsect]

theorem written_le_bytesIn (hrun : (pass2Run cfg (pass1Run prog).symtab ops (pass2Start out)
      (pass1Run prog).ir).2 = true) (i : ℕ) :
    (stateBefore cfg (pass1Run prog).symtab ops out (pass1Run prog).ir i).written .text ≤
      bytesIn .text .text prog := by
  have hfresh := (pass1Run_good prog).ir
  obtain ⟨hl, hcore⟩ := pass2Layout_laidOut cfg (pass1Run prog).symtab hfresh
  rw [(pass2Run_written hfresh hrun).2, hl.emittedIn_take, ← roomIn_pass1Run]
  exact (roomIn_take_le .text _ i).trans (roomIn_le_of_core hfresh hl.sound hcore .text)

/-- Where nothing is chosen a program runs as it says if it has no `la`, its own halfwords come
out right, and its counters count its bytes, of which there are less than 2 GiB. -/
theorem runnable_of_noChoice (hno : cfg.compresses = false)
    (hla : ∀ p ∈ prog, ∀ rd l, p.2 ≠ .instruction (.la rd l)) (hsteady : Steady prog)
    (hsize : bytesIn .text .text prog < 2 ^ 31)
    (hhalves : ∀ e ∈ pass2Layout cfg (pass1Run prog).symtab (pass1Run prog).ir,
      e.sect = .text → e.kind = .instr → e.ReadsBack (pass1Run prog).symtab)
    (hrun : (pass2Run cfg (pass1Run prog).symtab ops (pass2Start out)
      (pass1Run prog).ir).2 = true) : Runnable cfg ops out prog where
  noLa := hla
  halves := hhalves
  targets := by
    rintro pre i hsect ⟨name, e', hdef, he', hk, hlabel, hreloc⟩ e he htext
    obtain ⟨⟨line, post, hsplit⟩, -⟩ := id hdef
    have hpre : Steady pre := Steady.of_append (hsplit ▸ hsteady)
    obtain ⟨-, himm⟩ := layout_branch hrun he' he hk hlabel hreloc
    have hwritten := written_stateAfter_of_noChoice hno hrun hsplit .text
    have hvalue := hdef.searchSym_of_steady hpre
    have haddr := addr_of_noChoice hno hrun he htext
    have hbranch := written_le_bytesIn hrun i
    have hlabel : bytesIn .text .text pre ≤ bytesIn .text .text prog := by
      rw [hsplit, bytesIn_append]
      exact Nat.le_add_right _ _
    refine ⟨_, himm, ?_⟩
    rw [hvalue, haddr, hsect, hwritten]
    generalize (stateBefore cfg (pass1Run prog).symtab ops out (pass1Run prog).ir i).written
      .text = x at hbranch ⊢
    have hdistance : i32 (i32 (u32 (bytesIn .text .text pre)) - u32 x) =
        bytesIn .text .text pre - x := by
      apply i32_distance_iff.mpr
      rw [Int.sub_self]
      exact ⟨Int.dvd_zero _, by omega, by omega⟩
    rw [hdistance, Int.sub_add_cancel]

/-- With compression, a program of instructions and labels runs as it says if it has no `la`,
its halfwords come out right and none of its branches is disturbed. -/
theorem runnable_of_undisturbed (htext : TextOnly prog)
    (hla : ∀ p ∈ prog, ∀ rd l, p.2 ≠ .instruction (.la rd l))
    (hhalves : ∀ e ∈ pass2Layout cfg (pass1Run prog).symtab (pass1Run prog).ir,
      e.kind = .instr → e.ReadsBack (pass1Run prog).symtab)
    (hundisturbed : ∀ pre i, BranchesTo prog pre i →
      Undisturbed (plannedCells cfg (pass1Run prog).symtab (pass1Run prog).ir) i
        (pass1Run pre).ir.length)
    (hrun : (pass2Run cfg (pass1Run prog).symtab ops (pass2Start out)
      (pass1Run prog).ir).2 = true) : Runnable cfg ops out prog where
  noLa := hla
  halves e he _ hk := hhalves e he hk
  targets pre i _ hb _ he _ := (keepsTarget_iff htext hrun hb he).mpr (hundisturbed pre i hb)

def placedAt {w : ℕ} (base : BitVec w) : Placement w where
  base := base
  offset := bytesIn .text .text

/-- Placements that agree at every item of a program. -/
structure Placement.Agree {w : ℕ} (prog : Program) (pl pl' : Placement w) : Prop where
  base : pl.base = pl'.base
  offset : ∀ pre post, prog = pre ++ post → pl.offset pre = pl'.offset pre

theorem Placement.Agree.after {w : ℕ} {pl pl' : Placement w} (h : Placement.Agree prog pl pl')
    (pre post : Program) (hsplit : prog = pre ++ post) : pl.after pre = pl'.after pre := by
  unfold Placement.after
  rw [h.base, h.offset pre post hsplit]

theorem Placement.Agree.target {w : ℕ} {pl pl' : Placement w} (h : Placement.Agree prog pl pl') :
    pl.target prog = pl'.target prog := by
  funext l
  unfold Placement.target
  cases hl : itemsBefore l prog with
  | none => rfl
  | some pre =>
    obtain ⟨name, -, ⟨line, post, hsplit⟩, -⟩ := defines_of_itemsBefore hl
    rw [Option.bind_some, Option.bind_some, h.after pre _ hsplit]

theorem Placement.Agree.step {w : ℕ} {p : Platform w} {pl pl' : Placement w} {h h' : Hart w}
    (hagree : Placement.Agree prog pl pl') (hstep : Program.Step p pl prog h h') :
    Program.Step p pl' prog h h' := by
  have hall := hagree.offset prog [] (List.append_nil prog).symm
  obtain @⟨pre, post, line, i, _, _, hsplit, hsect, hpc, hmeaning, hkept⟩ := hstep
  have hnext := hagree.offset (pre ++ [(line, .instruction i)]) post (by rw [hsplit]; simp)
  rw [hagree.offset pre _ hsplit, hnext, hagree.target] at hmeaning
  rw [hagree.base, hall] at hkept
  rw [hagree.after pre _ hsplit] at hpc
  exact .statement hsplit hsect hpc hmeaning hkept

theorem placedAt_agree (hno : cfg.compresses = false)
    (hrun : (pass2Run cfg (pass1Run prog).symtab ops (pass2Start out)
      (pass1Run prog).ir).2 = true) {w : ℕ} (base : BitVec w) :
    Placement.Agree prog (placedAt base) (writtenAt cfg ops out prog base) where
  base := rfl
  offset _ _ hsplit := (written_stateAfter_of_noChoice hno hrun hsplit .text).symm

end

end RvAssembler
