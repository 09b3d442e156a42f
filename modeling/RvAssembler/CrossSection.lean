import RvAssembler.ControlFlow
import RvAssembler.LoadAddress
import RvAssembler.Main

namespace RvAssembler

open Relax

/-- The `i`-th entry of a program is an `auipc` of `.text` with the upper part of the distance
to a label defined in `.data` behind the items `pre`. -/
def RefersToData (prog pre : Program) (i : ℕ) : Prop :=
  ∃ name e, Defines prog pre name ∧ sectionAfter .text pre = .data ∧
    (pass1Run prog).ir[i]? = some e ∧ e.kind = .instr ∧ e.sect = .text ∧ e.op = .auipc ∧
    e.label = some name.toCString ∧ e.reloc = .hi20

theorem Instruction.hi20_emits {i : Instruction} {a : InstrArgs} (ha : a ∈ i.emits)
    (hr : a.reloc = .hi20) : ∃ rd name, a = labelArgs .auipc .ui rd 0 0 name .hi20 := by
  revert ha hr
  cases i <;>
    simp only [Instruction.emits, List.mem_cons, List.not_mem_nil, or_false] <;>
    rintro (rfl | rfl) hr <;> first
      | exact ⟨_, _, rfl⟩
      | cases hr

/-- An entry at the address `p` is encoded with the upper part of the distance to `d`. -/
def ReachesFrom (cfg : Config) (t : SymTab) (e : IrEntry) (p d : ℕ) : Prop :=
  ∃ w rd, e.call cfg t = .ok [.word w] ∧
    decode cfg.xlen w = some (.auipc, .u rd (hiPart (d - p)))

/-- What is asked of the references: each reaches from where the file loads the `auipc` to where
it loads what follows the label. -/
def ReachesData (cfg : Config) (ops : FileOps) (out : OutCtx) (prog : Program) : Prop :=
  ∀ pre i, RefersToData prog pre i →
    ∀ e, (pass2Layout cfg (pass1Run prog).symtab (pass1Run prog).ir)[i]? = some e →
      ReachesFrom cfg (pass1Run prog).symtab e
        (0x00100000 + (stateBefore cfg (pass1Run prog).symtab ops out (pass1Run prog).ir i).written
          .text)
        (0x00200000 + (stateAfter cfg ops out prog pre).written .data)

/-- By how much more than the distance in the file pass 2 reckons with: what pass 1 recorded
for a label of `.data` beyond the bytes before it, less what the address of the `i`-th entry is
beyond the bytes before that. -/
def ahead (cfg : Config) (prog pre : Program) (i : ℕ) : ℤ :=
  let cs := plannedCells cfg (pass1Run prog).symtab (pass1Run prog).ir
  (i32 (passCurrentPc (pass1Run pre).counters) - bytesIn .data .text pre) -
    (u32 (extent ((rounds 7 cs).take i)) - extent ((rounds 8 cs).take i))

def apart (cfg : Config) (prog pre : Program) (i : ℕ) : ℤ :=
  bytesIn .data .text pre -
    extent ((rounds 8 (plannedCells cfg (pass1Run prog).symtab (pass1Run prog).ir)).take i)

/-- Pass 2 reckons with as much more as the bases are apart, 256 pages, and the distance is one
an `auipc` can hold. -/
def MakesUpForBases (cfg : Config) (prog pre : Program) (i : ℕ) : Prop :=
  ((apart cfg prog pre i + 0x800) % 2 ^ 12 + ahead cfg prog pre i) / 2 ^ 12 % 2 ^ 20 = 256 ∧
    -2 ^ 31 - 0x800 ≤ apart cfg prog pre i + 0x00100000 ∧
    apart cfg prog pre i + 0x00100000 < 2 ^ 31 - 0x800

instance (cfg : Config) (prog pre : Program) (i : ℕ) :
    Decidable (MakesUpForBases cfg prog pre i) := by
  unfold MakesUpForBases
  infer_instance

theorem i32_hiPart_iff {x g : ℤ} :
    i32 (hiPart (x + g)) = hiPart (x + 0x00100000) ↔
      ((x + 0x800) % 2 ^ 12 + g) / 2 ^ 12 % 2 ^ 20 = 256 ∧
        -2 ^ 31 - 0x800 ≤ x + 0x00100000 ∧ x + 0x00100000 < 2 ^ 31 - 0x800 := by
  rw [i32_eq, hiPart, hiPart]
  omega

theorem places {cfg : Config} {ops : FileOps} {out : OutCtx} {prog pre : Program} {i : ℕ}
    (hrun : (pass2Run cfg (pass1Run prog).symtab ops (pass2Start out) (pass1Run prog).ir).2 = true)
    {line : ℤ} {name : Identifier} {post : Program}
    (hsplit : prog = pre ++ (line, .label name) :: post) :
    (stateAfter cfg ops out prog pre).written .data = bytesIn .data .text pre ∧
      (stateBefore cfg (pass1Run prog).symtab ops out (pass1Run prog).ir i).written .text =
        extent ((rounds 8
          (plannedCells cfg (pass1Run prog).symtab (pass1Run prog).ir)).take i) := by
  have hgood := pass1Run_good prog
  obtain ⟨hl, -⟩ := pass2Layout_laidOut cfg (pass1Run prog).symtab hgood.ir
  obtain ⟨-, hwritten⟩ := pass2Run_written hgood.ir hrun
  constructor
  · rw [← written_stateAfter hrun hsplit .data, hl.countP_data, Nat.mul_zero, Nat.add_zero]
  · rw [hwritten, hl.emittedIn_take, hl.roomIn_take]

theorem call_of_refersToData {cfg : Config} {ops : FileOps} {out : OutCtx} {prog pre : Program}
    {i : ℕ}
    (hrun : (pass2Run cfg (pass1Run prog).symtab ops (pass2Start out) (pass1Run prog).ir).2 = true)
    (hr : RefersToData prog pre i) {e : IrEntry}
    (he : (pass2Layout cfg (pass1Run prog).symtab (pass1Run prog).ir)[i]? = some e) :
    ∃ w rd, e.call cfg (pass1Run prog).symtab = .ok [.word w] ∧ decode cfg.xlen w =
      some (.auipc, .u rd (i32 (hiPart (apart cfg prog pre i + ahead cfg prog pre i)))) := by
  obtain ⟨name, e', hdef, -, he', hkind, hsect, -, hlabel, hreloc⟩ := hr
  have hgood := pass1Run_good prog
  obtain ⟨hl, hcore⟩ := pass2Layout_laidOut cfg (pass1Run prog).symtab hgood.ir
  have hmem := List.mem_of_getElem? he
  have hsame := core_eq_of_getElem? hcore he he'
  have hargs : e.args = e'.args := IrEntry.args_eq_of_core hsame
  have hk : e.kind = .instr := (IrEntry.kind_eq_of_core hsame).trans hkind
  have hplain := pass2Layout_parts cfg (pass1Run prog).symtab hgood.ir e hmem
    (.inl ((congrArg InstrArgs.reloc hargs).trans hreloc))
  obtain ⟨ins, hins⟩ := pass1Run_built prog e' (List.mem_of_getElem? he') hkind
  obtain ⟨rd, name', hla⟩ := Instruction.hi20_emits hins hreloc
  obtain rfl : name' = name := by
    have hname : some name'.toCString = some name.toCString :=
      (congrArg InstrArgs.label hla).symm.trans hlabel
    exact Identifier.toCString_inj.mp (Option.some.inj hname)
  rw [hla] at hargs
  -- the run has emitted the entry, so it has resolved the label
  obtain ⟨cs, hemitted⟩ := (pass2Run_written hgood.ir hrun).1 e hmem
  have hv := searchSym_nonneg_of_call hk hplain hargs (by decide) hemitted
  obtain ⟨w, hcall, hdecode⟩ := call_hi20 hk hplain hargs hv
  have haddr : e.addr = u32 (extent ((rounds 7 (plannedCells cfg (pass1Run prog).symtab
      (pass1Run prog).ir)).take i)) := by
    obtain ⟨hi, rfl⟩ := List.getElem?_eq_some_iff.mp he
    rw [hl.text.addr hi ((IrEntry.sect_eq_of_core hsame).trans hsect),
      Nat.zero_add, hl.sizeIn_take]
  have hdist : searchSym (pass1Run prog).symtab name'.toCString - e.addr =
      apart cfg prog pre i + ahead cfg prog pre i := by
    rw [hdef.searchSym, haddr, ahead, apart]
    ring
  exact ⟨w, rd.val, hcall, by rw [hdecode, hdist]⟩

theorem reachesData_at_iff {cfg : Config} {ops : FileOps} {out : OutCtx} {prog : Program}
    (hrun : (pass2Run cfg (pass1Run prog).symtab ops (pass2Start out) (pass1Run prog).ir).2 = true)
    {pre : Program} {i : ℕ} (hr : RefersToData prog pre i) :
    (∀ e, (pass2Layout cfg (pass1Run prog).symtab (pass1Run prog).ir)[i]? = some e →
      ReachesFrom cfg (pass1Run prog).symtab e
        (0x00100000 + (stateBefore cfg (pass1Run prog).symtab ops out (pass1Run prog).ir i).written
          .text)
        (0x00200000 + (stateAfter cfg ops out prog pre).written .data)) ↔
      MakesUpForBases cfg prog pre i := by
  obtain ⟨name, e', ⟨⟨line, post, hsplit⟩, -⟩, -, he', -⟩ := id hr
  obtain ⟨hdata, htext⟩ := places hrun (i := i) hsplit
  have hdist : (((0x00200000 + bytesIn .data .text pre : ℕ) : ℤ) - ((0x00100000 +
      extent ((rounds 8 (plannedCells cfg (pass1Run prog).symtab (pass1Run prog).ir)).take i) : ℕ) :
        ℤ)) = apart cfg prog pre i + 0x00100000 := by
    rw [apart]
    push_cast
    ring
  obtain ⟨e, he, -⟩ := exists_core_of_getElem?
    (pass2Layout_laidOut cfg (pass1Run prog).symtab (pass1Run_good prog).ir).2 he'
  -- the word is that of pass 2 anyway: what is left are the two upper parts
  rw [MakesUpForBases, ← i32_hiPart_iff, hdata, htext]
  simp only [ReachesFrom, hdist]
  constructor
  · intro h
    obtain ⟨w, rd, hcall, hdecode⟩ := h e he
    obtain ⟨w', rd', hcall', hdecode'⟩ := call_of_refersToData hrun hr he
    rw [hcall] at hcall'
    cases hcall'
    rw [hdecode] at hdecode'
    simp only [Option.some.injEq, Prod.mk.injEq, Operands.u.injEq] at hdecode'
    exact hdecode'.2.2.symm
  · intro h e he
    obtain ⟨w, rd, hcall, hdecode⟩ := call_of_refersToData hrun hr he
    exact ⟨w, rd, hcall, by rw [hdecode, h]⟩

/-- The references of a program to `.data` come out right if and only if at each of them pass 2
reckons with as much more as the bases are apart. -/
theorem reachesData_iff_makesUpForBases (cfg : Config) (ops : FileOps) (xlen : ℕ) (prog : Program)
    (hrun : (pass2Run cfg (pass1Run prog).symtab ops
      (pass2Start (outSetFile (outBegin .elf xlen) {})) (pass1Run prog).ir).2 = true) :
    ReachesData cfg ops (outSetFile (outBegin .elf xlen) {}) prog ↔
      ∀ pre i, RefersToData prog pre i → MakesUpForBases cfg prog pre i :=
  forall₃_congr fun _ _ hr => reachesData_at_iff hrun hr

def countedSpace : Program :=
  [(1, .data), (2, .space 0x00100000), (3, .label (letter 0)), (4, .byte 1), (5, .text),
    (6, .instruction (.la (reg 5) (letter 0)))]

theorem reachesData_iff_makesUpForBases_countedSpace :
    ReachesData (passSetArch 32 false false false) allOps (outSetFile (outBegin .elf 32) {})
      countedSpace := by
  refine (reachesData_iff_makesUpForBases _ _ _ countedSpace (by decide +kernel)).mpr ?_
  rintro pre i ⟨name, e, ⟨⟨line, post, hsplit⟩, -⟩, -, he, -, -, hop, -⟩
  -- only the third entry is an `auipc`
  have hupper : ∀ i < 4, ((pass1Run countedSpace).ir[i]?).map IrEntry.op = some .auipc → i = 2 := by
    decide +kernel
  obtain rfl := hupper i (List.getElem?_eq_some_iff.mp he).1 (by rw [he, Option.map_some, hop])
  have hsplit : [(1, Item.data), (2, Item.space 0x00100000)] ++ (3, Item.label (letter 0)) ::
      [(4, Item.byte 1), (5, Item.text), (6, Item.instruction (.la (reg 5) (letter 0)))] =
        pre ++ (line, Item.label name) :: post := hsplit
  obtain ⟨rfl, -⟩ := (List.append_cons_inj_of_notMem (by simp) (by simp)).mp hsplit
  decide +kernel

def bothAtStart : Program :=
  [(1, .data), (2, .label (letter 0)), (3, .word 1), (4, .text),
    (5, .instruction (.la (reg 5) (letter 0)))]

/-- The upper part is 0 instead of 0x00100000. -/
theorem bothAtStart_not_reachesData :
    (main { fmt := .elf } {} bothAtStart).exitCode = 0 ∧
      ¬ ReachesData ({ fmt := .elf } : Flags).config allOps (outSetFile (outBegin .elf 32) {})
        bothAtStart := by
  have hrefers : RefersToData bothAtStart [(1, .data)] 1 :=
    ⟨letter 0, _, ⟨⟨2, _, rfl⟩, by simp⟩, rfl, rfl, rfl, rfl, rfl, rfl, rfl⟩
  refine ⟨by decide +kernel, fun h => ?_⟩
  have hmakes := (reachesData_at_iff (by decide +kernel) hrefers).mp (h _ _ hrefers)
  exact absurd hmakes (by decide +kernel)

end RvAssembler
