import RvAssembler.Stream
import RvAssembler.Relayout
import RvAssembler.TwoPasses

namespace RvAssembler

open Bits

/-- The upper part, rounded so that the lower one is a signed twelve-bit number. -/
def hiPart (d : ℤ) : ℤ := (d + 0x800) / 2 ^ 12 * 2 ^ 12

def loPart (d : ℤ) : ℤ := d - hiPart d

theorem loPart_range (d : ℤ) : -2048 ≤ loPart d ∧ loPart d ≤ 2047 := by
  rw [loPart, hiPart]
  omega

section

variable {t : SymTab} {l : CString} {addr : ℕ} {line : ℤ}

theorem resolveLabel_hi20 (h : 0 ≤ searchSym t l) :
    resolveLabel t l .hi20 addr line = .ok (i32 (hiPart (searchSym t l - addr))) := by
  rw [resolveLabel, if_neg (by omega)]
  simp only [Int.shiftRight_eq_div_pow]
  rfl

theorem resolveLabel_lo12 (h : 0 ≤ searchSym t l) :
    resolveLabel t l .lo12 addr line = .ok (loPart (searchSym t l - addr)) := by
  have hlo := loPart_range (searchSym t l - addr)
  rw [resolveLabel, if_neg (by omega)]
  simp only [Int.shiftRight_eq_div_pow]
  change Except.ok (i32 (loPart (searchSym t l - addr))) = _
  rw [i32_eq, Int.emod_eq_of_lt (by omega) (by omega), Int.add_sub_cancel]

end

theorem pass2Layout_parts (cfg : Config) (t : SymTab) {ir : List IrEntry}
    (h : ∀ e ∈ ir, e.Fresh) : ∀ e ∈ pass2Layout cfg t ir,
      e.reloc = .hi20 ∨ e.reloc = .lo12 → e.hasCChoice = false := by
  refine pass2Layout_induction cfg t (fun e a n h => h) (fun e h hr => ?_) (fun e h => ?_)
    fun e he _ => (h e he).noChoice
  · have hsame := IrEntry.eq_of_core IrEntry.reloc (fun _ => rfl) (planEntry_core cfg e)
    rw [hsame] at hr
    have hno : pass2NodeCanAttempt cfg e = false := by
      rw [pass2NodeCanAttempt]
      rcases hr with hr | hr <;> simp [hr]
    rw [planEntry, hno]
    exact h hr
  · obtain hsame | ⟨-, -, hdrop | ⟨imm, haim⟩⟩ := validateEntry_cases t .text e
    · rw [hsame]
      exact h
    · rw [hdrop]
      exact fun _ => rfl
    · rw [haim]
      exact h

theorem IrEntry.nodeArgs_of_noChoice {e : IrEntry} (h : e.hasCChoice = false) :
    nodeArgs e = { e.args with imm := if e.label.isSome then 0 else e.imm } := by
  simp [nodeArgs, cMaterialize, h, IrEntry.args]

theorem instrCall_word {cfg : Config} {t : SymTab} {a : InstrArgs} {addr : ℕ} {line imm : ℤ}
    {w : BitVec 32} (hfmt : isCFmt a.fmt = false) (hreq : requireForOp cfg a.op line = .ok ())
    (himm : encoderImm t a addr line = .ok imm)
    (henc : encodeInstruction cfg a.op a.fmt a.rd a.rs1 a.rs2 imm line = .ok w) :
    instrCall cfg t a addr line = .ok (.word w) := by
  rw [instrCall, hfmt, hreq, himm]
  simp only [Bool.false_eq_true, ↓reduceIte, sticky, Except.mapError, bind, Except.bind, henc]

section

variable {cfg : Config} {t : SymTab} {e : IrEntry} {rd : Reg} {name : Identifier}

theorem nodeArgs_label {op : Opcode} {fmt : IrFmt} {rs1 : Reg} {reloc : RelocKind}
    (hc : e.hasCChoice = false) (ha : e.args = labelArgs op fmt rd rs1 0 name reloc) :
    nodeArgs e = labelArgs op fmt rd rs1 0 name reloc := by
  have hlabel : e.label = some name.toCString := congrArg InstrArgs.label ha
  rw [IrEntry.nodeArgs_of_noChoice hc, ha, hlabel]
  rfl

theorem encoderImm_label {op : Opcode} {fmt : IrFmt} {rs1 : Reg} {reloc : RelocKind} {imm : ℤ}
    (hc : e.hasCChoice = false) (ha : e.args = labelArgs op fmt rd rs1 0 name reloc)
    (hreloc : reloc ≠ .none) (h : resolveLabel t name.toCString reloc e.addr e.line = .ok imm) :
    nodeArgs e = labelArgs op fmt rd rs1 0 name reloc ∧
      encoderImm t (nodeArgs e) e.addr e.line = .ok imm := by
  have hnode := nodeArgs_label hc ha
  refine ⟨hnode, ?_⟩
  rw [hnode]
  simp only [encoderImm, labelArgs, if_neg hreloc, h]
  rfl

theorem searchSym_nonneg_of_call {op : Opcode} {fmt : IrFmt} {rs1 : Reg} {reloc : RelocKind}
    (hk : e.kind = .instr) (hc : e.hasCChoice = false)
    (ha : e.args = labelArgs op fmt rd rs1 0 name reloc) (hreloc : reloc ≠ .none)
    {cs : List SinkCall} (hcall : e.call cfg t = .ok cs) : 0 ≤ searchSym t name.toCString := by
  obtain ⟨c, hinstr, -⟩ := (IrEntry.call_instr hk).mp hcall
  obtain ⟨⟨imm, himm⟩, -⟩ := instrCall_eq_ok hinstr
  have hnode := nodeArgs_label hc ha
  by_contra hneg
  rw [hnode, encoderImm] at himm
  simp [labelArgs, hreloc, resolveLabel, not_le.mp hneg, sticky, Except.mapError] at himm

theorem call_hi20 (hk : e.kind = .instr) (hc : e.hasCChoice = false)
    (ha : e.args = labelArgs .auipc .ui rd 0 0 name .hi20)
    (hv : 0 ≤ searchSym t name.toCString) :
    ∃ w, e.call cfg t = .ok [.word w] ∧ decode cfg.xlen w =
      some (.auipc, .u rd.val (i32 (hiPart (searchSym t name.toCString - e.addr)))) := by
  obtain ⟨hnode, himm⟩ := encoderImm_label hc ha (by decide) (resolveLabel_hi20 hv)
  generalize searchSym t name.toCString - e.addr = d at himm ⊢
  have hexact := encodeInstruction_exact cfg .auipc .ui rd.val 0 0 (i32 (hiPart d)) e.line rfl rfl
    (isReg_val rd) isReg_zero isReg_zero
  -- narrowing to 32 bits keeps a multiple of 4096 one
  have hlegal : LegalImm cfg.xlen .auipc .ui (i32 (hiPart d)) := by
    rw [LegalImm, i32_eq, hiPart]
    omega
  obtain ⟨w, hw⟩ := hexact.1.mpr hlegal
  refine ⟨w, (IrEntry.call_instr hk).mpr ⟨.word w, ?_, rfl⟩, hexact.2 w hw⟩
  rw [hnode] at himm ⊢
  exact instrCall_word rfl rfl himm hw

theorem call_lo12 (hk : e.kind = .instr) (hc : e.hasCChoice = false)
    (ha : e.args = labelArgs .addi .i rd rd 0 name .lo12)
    (hv : 0 ≤ searchSym t name.toCString) :
    ∃ w, e.call cfg t = .ok [.word w] ∧ decode cfg.xlen w =
      some (.addi, .i rd.val rd.val (loPart (searchSym t name.toCString - e.addr))) := by
  obtain ⟨hnode, himm⟩ := encoderImm_label hc ha (by decide) (resolveLabel_lo12 hv)
  generalize searchSym t name.toCString - e.addr = d at himm ⊢
  have hexact := encodeInstruction_exact cfg .addi .i rd.val rd.val 0 (loPart d) e.line rfl rfl
    (isReg_val rd) (isReg_val rd) isReg_zero
  obtain ⟨w, hw⟩ := hexact.1.mpr (loPart_range d)
  refine ⟨w, (IrEntry.call_instr hk).mpr ⟨.word w, ?_, rfl⟩, hexact.2 w hw⟩
  rw [hnode] at himm ⊢
  exact instrCall_word rfl rfl himm hw

end

theorem la_entries {prog pre post : Program} {line : ℤ} {rd : Reg} {name : Identifier}
    (h : prog = pre ++ (line, .instruction (.la rd name)) :: post) :
    ∃ a b, (pass1Run prog).ir[(pass1Run pre).ir.length]? = some a ∧
      (pass1Run prog).ir[(pass1Run pre).ir.length + 1]? = some b ∧
      (a.kind = .instr ∧ a.args = labelArgs .auipc .ui rd 0 0 name .hi20) ∧
      b.kind = .instr ∧ b.args = labelArgs .addi .i rd rd 0 name .lo12 := by
  obtain ⟨es, hes⟩ := execAll_ir ((pass1Run_good pre).exec line (.instruction (.la rd name))) post
  have hir : ∃ a b : IrEntry, (execItem (pass1Run pre) line (.instruction (.la rd name))).ir =
      (pass1Run pre).ir ++ [a] ++ [b] ∧
      (a.kind = .instr ∧ a.args = labelArgs .auipc .ui rd 0 0 name .hi20) ∧
      b.kind = .instr ∧ b.args = labelArgs .addi .i rd rd 0 name .lo12 :=
    ⟨_, _, rfl, ⟨rfl, rfl⟩, rfl, rfl⟩
  obtain ⟨a, b, hab, hab'⟩ := hir
  rw [h, pass1Run_append, execAll_cons, hes, hab]
  exact ⟨a, b, by simp, by simp, hab'⟩

structure EncodesParts (cfg : Config) (t : SymTab) (e₁ e₂ : IrEntry) (rd : Reg) (hi lo : ℤ) :
    Prop where
  hi : ∃ w, e₁.call cfg t = .ok [.word w] ∧ decode cfg.xlen w = some (.auipc, .u rd.val hi)
  lo : ∃ w, e₂.call cfg t = .ok [.word w] ∧
    decode cfg.xlen w = some (.addi, .i rd.val rd.val lo)

theorem EncodesParts.unique {cfg : Config} {t : SymTab} {e₁ e₂ : IrEntry} {rd : Reg}
    {hi lo hi' lo' : ℤ} (h : EncodesParts cfg t e₁ e₂ rd hi lo)
    (h' : EncodesParts cfg t e₁ e₂ rd hi' lo') : hi = hi' ∧ lo = lo' := by
  obtain ⟨⟨w₁, hc₁, hd₁⟩, w₂, hc₂, hd₂⟩ := h
  obtain ⟨⟨w₁', hc₁', hd₁'⟩, w₂', hc₂', hd₂'⟩ := h'
  rw [hc₁] at hc₁'
  rw [hc₂] at hc₂'
  cases hc₁'
  cases hc₂'
  rw [hd₁] at hd₁'
  rw [hd₂] at hd₂'
  cases hd₁'
  cases hd₂'
  exact ⟨rfl, rfl⟩

/-- An `auipc` at an address and the `addi` behind it come to a label's value. -/
structure LoadsAddress (addr value hi lo : ℤ) : Prop where
  sum : addr + hi + lo = value
  range : -2048 ≤ lo ∧ lo ≤ 2047

/-- The lower part of the distance from four bytes further on misses by these four, and by a
page more where they cross its boundary. -/
theorem hiPart_add_loPart (d : ℤ) :
    hiPart d + loPart (d - 4) = d - 4 ∨ hiPart d + loPart (d - 4) = d + 4092 := by
  rw [loPart, hiPart, hiPart]
  omega

/-- The parts encoded for a label in reach never come to its value, although the lower one is
always in range. -/
theorem la_never_loadsAddress (cfg : Config) {prog pre post : Program} {line : ℤ} {rd : Reg}
    {name : Identifier} (hsplit : prog = pre ++ (line, .instruction (.la rd name)) :: post)
    {e₁ e₂ : IrEntry}
    (he₁ : (pass2Layout cfg (pass1Run prog).symtab (pass1Run prog).ir)[
      (pass1Run pre).ir.length]? = some e₁)
    (he₂ : (pass2Layout cfg (pass1Run prog).symtab (pass1Run prog).ir)[
      (pass1Run pre).ir.length + 1]? = some e₂)
    (hnext : e₂.addr = e₁.addr + 4) (hv : 0 ≤ searchSym (pass1Run prog).symtab name.toCString)
    (hlow : -2 ^ 31 - 2 ^ 11 ≤ searchSym (pass1Run prog).symtab name.toCString - e₁.addr)
    (hhigh : searchSym (pass1Run prog).symtab name.toCString - e₁.addr < 2 ^ 31 - 2 ^ 11) :
    (∃ hi lo, EncodesParts cfg (pass1Run prog).symtab e₁ e₂ rd hi lo) ∧
      ∀ hi lo, EncodesParts cfg (pass1Run prog).symtab e₁ e₂ rd hi lo →
        (-2048 ≤ lo ∧ lo ≤ 2047) ∧
          ¬ LoadsAddress e₁.addr (searchSym (pass1Run prog).symtab name.toCString) hi lo := by
  have hfresh := (pass1Run_good prog).ir
  obtain ⟨a, b, ha, hb, ⟨hka, haa⟩, hkb, hab⟩ := la_entries hsplit
  have hcore := (pass2Layout_laidOut cfg (pass1Run prog).symtab hfresh).2
  have hplain := pass2Layout_parts cfg (pass1Run prog).symtab hfresh
  generalize pass2Layout cfg (pass1Run prog).symtab (pass1Run prog).ir = lay at *
  have hcore₁ := core_eq_of_getElem? hcore he₁ ha
  have hcore₂ := core_eq_of_getElem? hcore he₂ hb
  have hargs₁ : e₁.args = _ := (IrEntry.args_eq_of_core hcore₁).trans haa
  have hargs₂ : e₂.args = _ := (IrEntry.args_eq_of_core hcore₂).trans hab
  have hk₁ : e₁.kind = .instr := (IrEntry.kind_eq_of_core hcore₁).trans hka
  have hk₂ : e₂.kind = .instr := (IrEntry.kind_eq_of_core hcore₂).trans hkb
  have hno₁ := hplain e₁ (List.mem_of_getElem? he₁) (.inl (congrArg InstrArgs.reloc hargs₁))
  have hno₂ := hplain e₂ (List.mem_of_getElem? he₂) (.inr (congrArg InstrArgs.reloc hargs₂))
  have hparts : EncodesParts cfg (pass1Run prog).symtab e₁ e₂ rd _ _ :=
    ⟨call_hi20 hk₁ hno₁ hargs₁ hv, call_lo12 hk₂ hno₂ hargs₂ hv⟩
  generalize searchSym (pass1Run prog).symtab name.toCString = v at *
  refine ⟨⟨_, _, hparts⟩, fun hi' lo' h' => ?_⟩
  obtain ⟨rfl, rfl⟩ := hparts.unique h'
  refine ⟨loPart_range _, fun hload => ?_⟩
  -- the upper part is in reach, and the two differ from the distance as computed above
  have hcast : i32 (hiPart (v - e₁.addr)) = hiPart (v - e₁.addr) := by
    rw [i32_eq, hiPart]
    omega
  have hsum := hload.sum
  rw [hcast, hnext, Nat.cast_add, ← sub_sub] at hsum
  have hmiss := hiPart_add_loPart (v - e₁.addr)
  push_cast at hsum
  omega

/-- What `la` is for: where its two entries stand side by side and the label is in the same
section and in reach, the parts encoded for it come to the label's value. -/
def LaLoads (cfg : Config) (prog : Program) : Prop :=
  ∀ pre line rd name post before e₁ e₂,
    prog = pre ++ (line, .instruction (.la rd name)) :: post → Defines prog before name →
    sectionAfter .text before = sectionAfter .text pre →
    (pass2Layout cfg (pass1Run prog).symtab (pass1Run prog).ir)[
      (pass1Run pre).ir.length]? = some e₁ →
    (pass2Layout cfg (pass1Run prog).symtab (pass1Run prog).ir)[
      (pass1Run pre).ir.length + 1]? = some e₂ →
    e₂.addr = e₁.addr + 4 → 0 ≤ searchSym (pass1Run prog).symtab name.toCString →
    -2 ^ 31 - 2 ^ 11 ≤ searchSym (pass1Run prog).symtab name.toCString - e₁.addr →
    searchSym (pass1Run prog).symtab name.toCString - e₁.addr < 2 ^ 31 - 2 ^ 11 →
    ∃ hi lo, EncodesParts cfg (pass1Run prog).symtab e₁ e₂ rd hi lo ∧
      LoadsAddress e₁.addr (searchSym (pass1Run prog).symtab name.toCString) hi lo

def selfAddress : Program := [(1, .label (letter 0)), (2, .instruction (.la (reg 5) (letter 0)))]

def selfUpper : IrEntry :=
  { op := .auipc, fmt := .ui, rd := 5, label := some (letter 0).toCString, reloc := .hi20,
    size := 4, line := 2, canCompress := true }

def selfLower : IrEntry :=
  { op := .addi, fmt := .i, rd := 5, rs1 := 5, label := some (letter 0).toCString,
    reloc := .lo12, addr := 4, size := 4, line := 2, canCompress := true }

theorem selfAddress_layout :
    (pass2Layout (passSetArch 32 false false false) (pass1Run selfAddress).symtab
      (pass1Run selfAddress).ir)[(pass1Run [(1, .label (letter 0))]).ir.length]? =
        some selfUpper ∧
      (pass2Layout (passSetArch 32 false false false) (pass1Run selfAddress).symtab
        (pass1Run selfAddress).ir)[(pass1Run [(1, .label (letter 0))]).ir.length + 1]? =
          some selfLower ∧
      searchSym (pass1Run selfAddress).symtab (letter 0).toCString = 0 := by
  decide +kernel

theorem selfAddress_split : selfAddress =
    [(1, .label (letter 0))] ++ (2, .instruction (.la (reg 5) (letter 0))) :: [] := rfl

theorem la_never_loadsAddress_selfAddress :
    (∃ hi lo, EncodesParts (passSetArch 32 false false false) (pass1Run selfAddress).symtab
        selfUpper selfLower (reg 5) hi lo) ∧
      ∀ hi lo, EncodesParts (passSetArch 32 false false false) (pass1Run selfAddress).symtab
          selfUpper selfLower (reg 5) hi lo → (-2048 ≤ lo ∧ lo ≤ 2047) ∧
        ¬ LoadsAddress 0 (searchSym (pass1Run selfAddress).symtab (letter 0).toCString) hi lo :=
  la_never_loadsAddress (passSetArch 32 false false false) selfAddress_split
    selfAddress_layout.1 selfAddress_layout.2.1 rfl (by decide +kernel) (by decide +kernel)
    (by decide +kernel)

/-- The parts are 0 and −4. -/
theorem selfAddress_not_laLoads : ¬ LaLoads (passSetArch 32 false false false) selfAddress := by
  obtain ⟨hupper, hlower, hvalue⟩ := selfAddress_layout
  intro h
  have hdef : Defines selfAddress [] (letter 0) := ⟨⟨1, _, rfl⟩, by simp⟩
  obtain ⟨hi, lo, hparts, hload⟩ := h [(1, .label (letter 0))] 2 (reg 5) (letter 0) [] []
    selfUpper selfLower selfAddress_split hdef rfl hupper hlower rfl (by rw [hvalue])
    (by rw [hvalue]; decide) (by rw [hvalue]; decide)
  obtain ⟨rfl, rfl⟩ := hparts.unique
    ⟨call_hi20 rfl rfl rfl (by rw [hvalue]), call_lo12 rfl rfl rfl (by rw [hvalue])⟩
  have hsum := hload.sum
  rw [hvalue] at hsum
  exact absurd hsum (by decide)

end RvAssembler
