import RvAssembler.Pass1
import RvAssembler.Pass2
import RvAssembler.SymtabMap
import RvAssembler.Lib.Bits

namespace RvAssembler

structure IrEntry.Chosen (e : IrEntry) : Prop where
  kind : e.kind = .instr
  sect : e.sect = .text
  auto : e.forcedSize = .auto
  fmt : isCFmt e.choice.fmt = true
  operand : isPcRel e.choice.op = true → e.choice.label = e.label ∧ e.choice.reloc = e.reloc
  plain : isPcRel e.choice.op = false → e.choice.label = none ∧ isBranch e.op = false

/-- What holds of an entry from pass 1 to its emission. -/
structure IrEntry.Sound (e : IrEntry) : Prop where
  align : e.kind = .align → e.imm = 0
  data : e.kind = .data → e.size = 1 ∨ e.size = 2 ∨ e.size = 4 ∨ e.size = 8
  forced : e.kind = .instr → e.forcedSize = if isCFmt e.fmt then .two else .auto
  noLabel : e.label = none → e.reloc = .none
  label : ∀ l, e.label = some l → l.bytes ≠ [] ∧ e.reloc ≠ .none
  branch : e.reloc = .boff ∨ e.reloc = .jtgt → isBranch e.op = true
  chosen : e.hasCChoice = true → e.Chosen

/-- What holds of an entry as pass 1 records it. -/
structure IrEntry.Fresh (e : IrEntry) : Prop extends e.Sound where
  noChoice : e.hasCChoice = false
  canCompress : e.kind = .instr → e.canCompress = !isCFmt e.fmt
  size : e.kind = .instr → e.size = if isCFmt e.fmt then 2 else 4

/-- The bytes an entry takes under its present choice; an alignment entry gets none, as its
field `imm` is zero. -/
def IrEntry.room (e : IrEntry) : ℕ :=
  match e.kind with
  | .instr => pass2NodeSizeNow e
  | .data => e.size
  | .align => 0

def roomIn (s : Section) (ir : List IrEntry) : ℕ :=
  (ir.map fun e => if e.sect = s then e.room else 0).sum

@[simp] theorem roomIn_nil (s : Section) : roomIn s [] = 0 := rfl

theorem roomIn_cons (s : Section) (e : IrEntry) (ir : List IrEntry) :
    roomIn s (e :: ir) = (if e.sect = s then e.room else 0) + roomIn s ir := by
  rw [roomIn, List.map_cons, List.sum_cons, roomIn]

theorem roomIn_append (s : Section) (ir ir' : List IrEntry) :
    roomIn s (ir ++ ir') = roomIn s ir + roomIn s ir' := by
  rw [roomIn, List.map_append, List.sum_append, roomIn, roomIn]

theorem IrEntry.Fresh.room {e : IrEntry} (h : e.Fresh) (hk : e.kind ≠ .align) : e.room = e.size := by
  rw [IrEntry.room]
  cases hkind : e.kind with
  | align => exact absurd hkind hk
  | data => rfl
  | instr =>
    have hf := h.forced hkind
    rw [h.size hkind, pass2NodeSizeNow, irIsExplicitC, h.noChoice, h.canCompress hkind, hf]
    cases isCFmt e.fmt <;> rfl

structure InstrArgs.Valid (a : InstrArgs) : Prop where
  noLabel : a.label = none → a.reloc = .none
  label : ∀ l, a.label = some l → l.bytes ≠ [] ∧ a.reloc ≠ .none
  branch : a.reloc = .boff ∨ a.reloc = .jtgt → isBranch a.op = true

theorem InstrArgs.Valid.of_none {a : InstrArgs} (hl : a.label = none) (hr : a.reloc = .none) :
    a.Valid :=
  ⟨fun _ => hr, by simp [hl], by simp [hr]⟩

theorem labelArgs_valid {op : Opcode} {fmt : IrFmt} {rd rs1 rs2 : Reg} {l : Identifier}
    {reloc : RelocKind} (hr : reloc ≠ .none)
    (hb : reloc = .boff ∨ reloc = .jtgt → isBranch op = true) :
    (labelArgs op fmt rd rs1 rs2 l reloc).Valid :=
  ⟨fun h => by simp [labelArgs] at h, fun k hk => by
    obtain rfl : l.toCString = k := by simpa [labelArgs] using hk
    exact ⟨l.nonempty, hr⟩, hb⟩

theorem Instruction.valid_emits (i : Instruction) : ∀ a ∈ i.emits, a.Valid := by
  cases i <;>
    simp only [Instruction.emits, List.forall_mem_cons, List.not_mem_nil, IsEmpty.forall_iff,
      implies_true, and_true] <;>
    first
      | exact .of_none rfl rfl
      | exact labelArgs_valid (by decide) (by decide)
      | exact ⟨labelArgs_valid (by decide) (by decide), labelArgs_valid (by decide) (by decide)⟩

theorem fresh_instr {a : InstrArgs} (h : a.Valid) (buf : List IrEntry) (sect : Section)
    (addr : ℕ) (line : ℤ) :
    ∃ e, irAppendInstr buf a.op a.fmt a.rd a.rs1 a.rs2 a.imm a.label a.reloc sect addr
        (if isCFmt a.fmt then 2 else 4) line = buf ++ [e] ∧
      e.Fresh ∧ e.sect = sect ∧ e.kind = .instr ∧ e.size = if isCFmt a.fmt then 2 else 4 := by
  refine ⟨_, rfl, ?_, rfl, rfl, rfl⟩
  constructor
  case toSound =>
    constructor
    case align | data => exact fun hk => by cases hk
    case forced => exact fun _ => rfl
    case noLabel =>
      intro hl
      simp only [show a.label = none from hl, Option.isSome_none, Bool.false_eq_true, ↓reduceIte]
    case label =>
      intro l hl
      have hl : a.label = some l := hl
      simp only [hl, Option.isSome_some, ↓reduceIte]
      exact h.label l hl
    case branch =>
      cases hl : a.label with
      | none => simp
      | some l => exact h.branch
    case chosen => exact fun hc => by cases hc
  case noChoice => rfl
  case canCompress => exact fun _ => rfl
  case size => exact fun _ => rfl

theorem i32_eq (x : ℤ) : i32 x = (x + 2147483648) % 4294967296 - 2147483648 :=
  Bits.bmod_two_pow x 31

theorem u32_u32_add (x y : ℕ) : u32 (u32 x + y) = u32 (x + y) := Nat.mod_add_mod _ _ _

@[simp] theorem passAdvancePc_curSection (c : Counters) (n : ℕ) :
    (passAdvancePc c n).curSection = c.curSection := by
  rw [passAdvancePc]
  split <;> rfl

theorem passAdvancePc_pc (c : Counters) (n : ℕ) (s : Section) :
    (passAdvancePc c n).pc s = if s = c.curSection then u32 (c.pc s + n) else c.pc s := by
  rw [passAdvancePc]
  cases h : c.curSection <;> cases s <;> rfl

@[simp] theorem passSetSection_pc (c : Counters) (s s' : Section) :
    (passSetSection c s').pc s = c.pc s := by
  cases s <;> rfl

theorem passAdvancePc_add (c : Counters) (m n : ℕ) :
    passAdvancePc (passAdvancePc c m) n = passAdvancePc c (m + n) := by
  simp only [passAdvancePc]
  cases c.curSection <;> simp [u32_u32_add, Nat.add_assoc]

def Counters.Valid (c : Counters) : Prop := ∀ s, c.pc s < 2 ^ 32

theorem passAdvancePc_zero {c : Counters} (h : c.Valid) : passAdvancePc c 0 = c := by
  have ht : c.pcText < 2 ^ 32 := h .text
  have hd : c.pcData < 2 ^ 32 := h .data
  rw [passAdvancePc]
  cases hs : c.curSection <;> simp only [Nat.add_zero, u32, Nat.mod_eq_of_lt, ht, hd, ← hs]

theorem Counters.Valid.advance {c : Counters} (h : c.Valid) (n : ℕ) : (passAdvancePc c n).Valid := by
  intro s
  rw [passAdvancePc_pc]
  split_ifs
  · exact Nat.mod_lt _ (by decide)
  · exact h s

/-- What has been added between two states: entries with `room` bytes in the section being
assembled, whose location counter moved by `moved`. -/
structure Adds (st st' : Pass1) (room moved : ℕ) : Prop where
  ir : ∃ es, st'.ir = st.ir ++ es ∧ (∀ e ∈ es, e.Fresh ∧ e.sect = st.counters.curSection) ∧
    roomIn st.counters.curSection es = room
  counters : st'.counters = passAdvancePc st.counters moved
  symtab : st'.symtab = st.symtab

theorem Adds.trans {st st' st'' : Pass1} {m m' n n' : ℕ} (h : Adds st st' m m')
    (h' : Adds st' st'' n n') : Adds st st'' (m + n) (m' + n') := by
  obtain ⟨⟨es, hir, hes, hroom⟩, hc, ht⟩ := h
  obtain ⟨⟨es', hir', hes', hroom'⟩, hc', ht'⟩ := h'
  rw [hc, passAdvancePc_curSection] at hes' hroom'
  refine ⟨⟨es ++ es', by rw [hir', hir, List.append_assoc], ?_, ?_⟩, ?_, ht'.trans ht⟩
  · intro e he
    rcases List.mem_append.mp he with he | he
    · exact hes e he
    · exact hes' e he
  · rw [roomIn_append, hroom, hroom']
  · rw [hc', hc, passAdvancePc_add]

theorem Adds.nothing {st st' : Pass1} (hv : st.counters.Valid) (hir : st'.ir = st.ir)
    (hc : st'.counters = st.counters) (ht : st'.symtab = st.symtab) : Adds st st' 0 0 :=
  ⟨⟨[], by rw [hir, List.append_nil], by simp, rfl⟩, by rw [passAdvancePc_zero hv, hc], ht⟩

theorem Adds.entry {st st' : Pass1} {e : IrEntry} {n : ℕ} (hir : st'.ir = st.ir ++ [e])
    (hf : e.Fresh) (hs : e.sect = st.counters.curSection) (hk : e.kind ≠ .align)
    (hn : e.size = n) (hc : st'.counters = passAdvancePc st.counters n)
    (ht : st'.symtab = st.symtab) : Adds st st' n n :=
  ⟨⟨[e], hir, by simpa using ⟨hf, hs⟩, by
    rw [roomIn_cons, if_pos hs, roomIn_nil, hf.room hk, hn, Nat.add_zero]⟩, hc, ht⟩

theorem Adds.foldl {α : Type} {f : Pass1 → α → Pass1} {w : α → ℕ} {xs : List α} {st : Pass1}
    (hv : st.counters.Valid)
    (hf : ∀ x ∈ xs, ∀ st : Pass1, Adds st (f st x) (w x) (w x)) :
    Adds st (xs.foldl f st) (xs.map w).sum (xs.map w).sum := by
  induction xs generalizing st with
  | nil => exact .nothing hv rfl rfl rfl
  | cons x xs ih =>
    rw [List.foldl_cons, List.map_cons, List.sum_cons]
    have hx := hf x List.mem_cons_self st
    have hv' : (f st x).counters.Valid := by
      rw [hx.counters]
      exact hv.advance _
    exact hx.trans (ih hv' fun y hy => hf y (List.mem_cons_of_mem _ hy))

def InstrArgs.size (a : InstrArgs) : ℕ := if isCFmt a.fmt then 2 else 4

theorem pass1EmitInstruction_adds {a : InstrArgs} (h : a.Valid) (st : Pass1) (line : ℤ) :
    Adds st (pass1EmitInstruction st a line) a.size a.size := by
  obtain ⟨e, hir, hf, hs, hk, hn⟩ :=
    fresh_instr h st.ir st.counters.curSection (passCurrentPc st.counters) line
  exact .entry hir hf hs (by rw [hk]; decide) hn rfl rfl

theorem pass1EmitData_adds {size : ℕ} (h : size = 1 ∨ size = 2 ∨ size = 4 ∨ size = 8)
    (st : Pass1) (word line : ℤ) : Adds st (pass1EmitData st word size line) size size := by
  refine .entry rfl ?_ rfl (fun hk => by cases hk) rfl rfl rfl
  exact
    { align := fun hk => by cases hk
      data := fun _ => h
      forced := fun hk => by cases hk
      noLabel := fun _ => rfl
      label := fun l hl => by cases hl
      branch := by simp
      chosen := fun hc => by cases hc
      noChoice := rfl
      canCompress := fun hk => by cases hk
      size := fun hk => by cases hk }

theorem irAppendAlign_adds (buf : List IrEntry) (sect : Section) (addr pad : ℕ) (line : ℤ) :
    ∃ es, irAppendAlign buf sect addr pad line = buf ++ es ∧ (∀ e ∈ es, e.Fresh ∧ e.sect = sect) ∧
      roomIn sect es = 0 := by
  rw [irAppendAlign]
  split_ifs
  · exact ⟨[], by rw [List.append_nil], by simp, rfl⟩
  · refine ⟨[_], rfl, ?_, by simp [roomIn, IrEntry.room]⟩
    rw [List.forall_mem_singleton]
    exact ⟨
      { align := fun _ => rfl
        data := fun hk => by cases hk
        forced := fun hk => by cases hk
        noLabel := fun _ => rfl
        label := fun l hl => by cases hl
        branch := by simp
        chosen := fun hc => by cases hc
        noChoice := rfl
        canCompress := fun hk => by cases hk
        size := fun hk => by cases hk }, rfl⟩

theorem pass1EmitSpace_adds (st : Pass1) (numBytes : ℕ) (line : ℤ) :
    Adds st (pass1EmitSpace st numBytes line) 0 (u32 numBytes) :=
  ⟨irAppendAlign_adds _ _ _ _ _, rfl, rfl⟩

def alignPad (c : Counters) (pow2 : Int64) : ℕ :=
  passAlignPad (passCurrentPc c) (pow2.toBitVec.setWidth 32).toNat

theorem alignDirective_adds (st : Pass1) (pow2 : Int64) (line : ℤ) :
    Adds st (alignDirective st pow2 line) 0 (alignPad st.counters pow2) := by
  have hc : (passAlignCurrentPc st.counters (pow2.toBitVec.setWidth 32).toNat).1 =
      passAdvancePc st.counters (alignPad st.counters pow2) := by
    rw [passAlignCurrentPc, passAdvancePc, alignPad, passCurrentPc]
    cases hs : st.counters.curSection <;> rfl
  refine ⟨?_, hc, rfl⟩
  simp only [alignDirective]
  split_ifs
  · exact irAppendAlign_adds _ _ _ _ _
  · exact ⟨[], by rw [List.append_nil], by simp, rfl⟩

theorem rangedData_adds {size : ℕ} (h : size = 1 ∨ size = 2 ∨ size = 4 ∨ size = 8) {st : Pass1}
    (hv : st.counters.Valid) (name : String) (lo hi : ℤ) (v : Int64) (line : ℤ) :
    Adds st (rangedData st name lo hi size v line) (if v.toInt < lo ∨ v.toInt > hi then 0 else size)
      (if v.toInt < lo ∨ v.toInt > hi then 0 else size) := by
  rw [rangedData]
  split_ifs
  · exact .nothing hv rfl rfl rfl
  · exact pass1EmitData_adds h _ _ _

theorem stringData_adds {st : Pass1} (hv : st.counters.Valid) (s : CString) (line : ℤ) :
    Adds st (stringData st s line) s.bytes.length s.bytes.length := by
  have h := Adds.foldl (w := fun _ : UInt8 => 1) hv
    fun b (_ : b ∈ s.bytes) st => pass1EmitData_adds (.inl rfl) st (b.toNat : ℤ) line
  rw [List.map_const', List.sum_replicate_nat, Nat.mul_one] at h
  exact h

/-- The bytes of code and data an item stands for. -/
def Item.bytes : Item → ℕ
  | .instruction i => (i.emits.map InstrArgs.size).sum
  | .byte v => if v.toInt < -128 ∨ v.toInt > 127 then 0 else 1
  | .half v => if v.toInt < -32768 ∨ v.toInt > 32767 then 0 else 2
  | .word v => if v.toInt < -2147483648 ∨ v.toInt > 2147483647 then 0 else 4
  | .dword _ => 8
  | .ascii s => s.bytes.length
  | .asciiz s => s.bytes.length + 1
  | .label _ | .text | .data | .align _ | .space _ => 0

def Item.moves (c : Counters) : Item → ℕ
  | .align pow2 => alignPad c pow2
  | .space n => if n.toInt < 0 then 0 else u32 n.toInt.toNat
  | it => it.bytes

/-- The items that are neither labels nor section switches add entries and bytes. -/
theorem execItem_adds {st : Pass1} (hv : st.counters.Valid) (line : ℤ) {it : Item}
    (hl : ∀ name, it ≠ .label name) (ht : it ≠ .text) (hd : it ≠ .data) :
    Adds st (execItem st line it) it.bytes (it.moves st.counters) := by
  cases it with
  | label name => exact absurd rfl (hl name)
  | text => exact absurd rfl ht
  | data => exact absurd rfl hd
  | instruction i =>
    exact .foldl hv fun a ha st => pass1EmitInstruction_adds (i.valid_emits a ha) st line
  | align pow2 => exact alignDirective_adds st pow2 line
  | byte v => exact rangedData_adds (by decide) hv _ _ _ v line
  | half v => exact rangedData_adds (by decide) hv _ _ _ v line
  | word v => exact rangedData_adds (by decide) hv _ _ _ v line
  | dword v => exact pass1EmitData_adds (by decide) _ _ _
  | ascii s => exact stringData_adds hv s line
  | asciiz s => exact (stringData_adds hv s line).trans (pass1EmitData_adds (by decide) _ _ _)
  | space n =>
    simp only [execItem, Item.bytes, Item.moves]
    split_ifs
    · exact .nothing hv rfl rfl rfl
    · exact pass1EmitSpace_adds _ _ _

/-- What holds between the items of a program. -/
structure Pass1.Good (st : Pass1) : Prop where
  counters : st.counters.Valid
  symtab : st.symtab.Sound
  values : ∀ l v, st.symtab.toMap l = some v → v < 2 ^ 31
  ir : ∀ e ∈ st.ir, e.Fresh

theorem execItem_ir {st : Pass1} (hv : st.counters.Valid) (line : ℤ) (it : Item) :
    ∃ es, (execItem st line it).ir = st.ir ++ es ∧
      (∀ e ∈ es, e.Fresh ∧ e.sect = st.counters.curSection) ∧
      roomIn st.counters.curSection es = it.bytes := by
  cases it
  case label | text | data => exact ⟨[], (List.append_nil _).symm, by simp, rfl⟩
  all_goals exact (execItem_adds hv line (fun _ h => by cases h) (fun h => by cases h)
    fun h => by cases h).ir

def Item.nextSection (s : Section) : Item → Section
  | .text => .text
  | .data => .data
  | _ => s

theorem execItem_counters {st : Pass1} (hv : st.counters.Valid) (line : ℤ) (it : Item) :
    (execItem st line it).counters =
      passSetSection (passAdvancePc st.counters (it.moves st.counters))
        (it.nextSection st.counters.curSection) := by
  have hz : passAdvancePc st.counters 0 = st.counters := passAdvancePc_zero hv
  cases it
  case label | text | data =>
    simp only [Item.moves, Item.bytes, hz, Item.nextSection]
    rfl
  all_goals
    rw [(execItem_adds hv line (fun _ h => by cases h) (fun h => by cases h)
      fun h => by cases h).counters, Item.nextSection]
    all_goals first
      | exact fun h => by cases h
      | rw [passSetSection, ← passAdvancePc_curSection st.counters]

/-- An item moves the location counter of its section. -/
theorem execItem_pc {st : Pass1} (hv : st.counters.Valid) (line : ℤ) (it : Item) (s : Section) :
    (execItem st line it).counters.pc s =
      if s = st.counters.curSection then u32 (st.counters.pc s + it.moves st.counters)
      else st.counters.pc s := by
  rw [execItem_counters hv, passSetSection_pc, passAdvancePc_pc]

theorem execItem_symtab {st : Pass1} (hv : st.counters.Valid) (line : ℤ) (it : Item) :
    (execItem st line it).symtab =
      match it with
      | .label name => (insertSym st.symtab name.toCString (i32 (passCurrentPc st.counters))).1
      | _ => st.symtab := by
  cases it
  case label | text | data => rfl
  all_goals exact (execItem_adds hv line (fun _ h => by cases h) (fun h => by cases h)
    fun h => by cases h).symtab

theorem Pass1.Good.exec {st : Pass1} (h : st.Good) (line : ℤ) (it : Item) :
    (execItem st line it).Good := by
  constructor
  case counters =>
    rw [execItem_counters h.counters]
    exact h.counters.advance _
  case symtab =>
    rw [execItem_symtab h.counters]
    split
    · exact (h.symtab.insertSym _ _).1
    · exact h.symtab
  case values =>
    rw [execItem_symtab h.counters]
    split
    · rename_i name
      intro l v hv
      -- a label takes the counter as an `int32_t`
      have hlt : i32 (passCurrentPc st.counters) < 2 ^ 31 := by
        rw [i32_eq]
        omega
      rw [(h.symtab.insertSym _ _).2] at hv
      split_ifs at hv
      · rcases eq_or_ne l name.toCString with rfl | hl
        · rw [Function.update_self, Option.some.injEq] at hv
          rwa [← hv]
        · rw [Function.update_of_ne hl] at hv
          exact h.values l v hv
      · exact h.values l v hv
    · exact h.values
  case ir =>
    obtain ⟨es, hir, hes, -⟩ := execItem_ir h.counters line it
    rw [hir]
    intro e he
    rcases List.mem_append.mp he with he | he
    · exact h.ir e he
    · exact (hes e he).1

theorem execAll_cons (st : Pass1) (p : ℤ × Item) (prog : Program) :
    execAll st (p :: prog) = execAll (execItem st p.1 p.2) prog := rfl

theorem execAll_append (st : Pass1) (prog prog' : Program) :
    execAll st (prog ++ prog') = execAll (execAll st prog) prog' := List.foldl_append

theorem pass1Run_append (prog prog' : Program) :
    pass1Run (prog ++ prog') = execAll (pass1Run prog) prog' := execAll_append ..

theorem pass1Run_concat (prog : Program) (p : ℤ × Item) :
    pass1Run (prog ++ [p]) = execItem (pass1Run prog) p.1 p.2 := pass1Run_append ..

theorem Pass1.Good.execAll {st : Pass1} (h : st.Good) (prog : Program) :
    (execAll st prog).Good := by
  induction prog generalizing st with
  | nil => exact h
  | cons p prog ih => exact ih (h.exec p.1 p.2)

theorem good_start : ({} : Pass1).Good where
  counters := by intro s; cases s <;> decide
  symtab := createSymtab_sound
  values := by simp [createSymtab_toMap]
  ir := by simp

theorem pass1Run_good (prog : Program) : (pass1Run prog).Good := good_start.execAll prog

theorem execAll_ir {st : Pass1} (h : st.Good) (prog : Program) :
    ∃ es, (execAll st prog).ir = st.ir ++ es := by
  induction prog generalizing st with
  | nil => exact ⟨[], (List.append_nil _).symm⟩
  | cons p prog ih =>
    obtain ⟨es, hes, -⟩ := execItem_ir h.counters p.1 p.2
    obtain ⟨es', hes'⟩ := ih (h.exec p.1 p.2)
    exact ⟨es ++ es', by rw [execAll_cons, hes', hes, List.append_assoc]⟩

end RvAssembler
