import RvAssembler.Stream

namespace RvAssembler

open Bits

def isMulDiv : Opcode → Bool
  | .mul | .mulh | .mulhsu | .mulhu | .div | .divu | .rem | .remu
  | .mulw | .divw | .divuw | .remw | .remuw => true
  | _ => false

def isWideOnly : Opcode → Bool
  | .cLd | .cSd | .cLdsp | .cSdsp | .cAddiw | .cAddw | .cSubw => true
  | op => isRv64 op

def isShift : Opcode → Bool
  | .cSlli | .cSrli | .cSrai => true
  | op => isShiftImm op

def shiftLimit (xlen : ℕ) (op : Opcode) : ℕ := if isWordShift op then 32 else xlen

/-- The configuration has an instruction, and a shift its amount. -/
structure Supports (cfg : Config) (op : Opcode) (imm : ℤ) : Prop where
  mulDiv : isMulDiv op = true → cfg.extM = true
  wide : isWideOnly op = true → cfg.xlen = 64
  narrow : op = .cJal → cfg.xlen = 32
  shift : isShift op = true → 0 ≤ imm ∧ imm < shiftLimit cfg.xlen op

theorem isShift_of_baseFmt {op : Opcode} {fmt : IrFmt} (h : baseFmt op = some fmt)
    (hs : isShift op = true) :
    fmt = .i ∧ isShiftImm op = true ∧ isSystem op = false := by
  have hshift : (baseFmt op).isSome = true → isShift op = true →
      baseFmt op = some .i ∧ isShiftImm op = true ∧ isSystem op = false := by
    cases op <;> decide
  obtain ⟨hi, himm⟩ := hshift (by rw [h]; rfl) hs
  rw [h] at hi
  exact ⟨Option.some.inj hi, himm⟩

theorem extM_of_requireForOp {cfg : Config} {op : Opcode} {line : ℤ}
    (h : requireForOp cfg op line = .ok ()) (hop : isMulDiv op = true) : cfg.extM = true := by
  cases hM : cfg.extM
  · cases op <;> simp only [isMulDiv, Bool.false_eq_true] at hop <;>
      simp [requireForOp, requireM, hM, bind, Except.bind] at h
  · rfl

theorem supports_word {cfg : Config} {op : Opcode} {fmt : IrFmt} {rd rs1 rs2 imm line : ℤ}
    {w : BitVec 32} (hfmt : baseFmt op = some fmt) (hreq : requireForOp cfg op line = .ok ())
    (henc : encodeInstruction cfg op fmt rd rs1 rs2 imm line = .ok w) : Supports cfg op imm where
  mulDiv := extM_of_requireForOp hreq
  wide hop := by
    have hwide : (baseFmt op).isSome = true → isWideOnly op = true → isRv64 op = true := by
      cases op <;> decide
    apply xlen_of_requireForOp hreq
    exact hwide (by rw [hfmt]; rfl) hop
  narrow hop := by
    rw [hop] at hfmt
    cases hfmt
  shift hop := by
    obtain ⟨rfl, hshift, hsys⟩ := isShift_of_baseFmt hfmt hop
    have hlegal := (encodeItype_accepts cfg op rd rs1 imm line).mp ⟨w, henc⟩
    simp only [LegalImm, hsys, hshift, Bool.false_eq_true, ↓reduceIte] at hlegal
    rw [shiftLimit]
    split_ifs at hlegal ⊢ <;> omega

theorem supports_half {cfg : Config} {op : Opcode} {rd rs1 rs2 imm : ℤ}
    (hav : CAvailable cfg op) (hacc : CAccepted cfg op rd rs1 rs2 imm) :
    Supports cfg op imm where
  mulDiv hop := by
    have hc := hav.2.1
    revert hop hc
    cases op <;> simp [isMulDiv, cEncodingTable]
  wide hop := by
    refine hav.xlen_eq_64 ?_
    have hc := hav.2.1
    revert hop hc
    cases op <;> simp [isWideOnly, isRv64, cEncodingTable, cRvAny, cRv64, cRv32]
  narrow hop := by
    rcases cfg.xlenOk with h | h
    · exact h
    · exact absurd h (hav.xlen_ne_64 (by rw [hop]; rfl))
  shift hop := by
    have hc := hav.2.1
    have hop : op = .cSlli ∨ op = .cSrli ∨ op = .cSrai := by
      revert hop hc
      cases op <;> simp [isShift, isShiftImm, cEncodingTable]
    have hmax := le_ciMaxSh_iff cfg imm
    obtain rfl | rfl | rfl := hop <;> obtain ⟨-, -, h0, hle⟩ := hacc <;>
      exact ⟨h0, hmax.mp hle⟩

def Operands.amount : Operands → ℤ
  | .i _ _ n => n
  | _ => 0

def COperands.amount : COperands → ℤ
  | .imm _ n => n
  | _ => 0

/-- The instruction a unit reads as and, for a shift, the amount. -/
def SinkCall.reads (xlen : ℕ) : SinkCall → Option (Opcode × ℤ)
  | .word w => (decode xlen w).map fun r => (r.1, r.2.amount)
  | .half h => (decodeC xlen h).map fun r => (r.1, r.2.amount)
  | _ => none

theorem uimmCI_lt (w : BitVec 16) : uimmCI w < 64 ∧ (field w 12 1 = 0 → uimmCI w < 32) := by
  have h12 := field_lt w 12 1
  have h2 := field_lt w 2 5
  rw [uimmCI]
  omega

section

variable {cfg : Config} {op : Opcode} {n : ℤ}

theorem supports_plain (hm : isMulDiv op = false) (hw : isWideOnly op = false) (hj : op ≠ .cJal)
    (hs : isShift op = false) : Supports cfg op n where
  mulDiv h := by simp [hm] at h
  wide h := by simp [hw] at h
  narrow h := absurd h hj
  shift h := by simp [hs] at h

theorem supports_wide (hx : cfg.xlen = 64) (hm : isMulDiv op = false) (hj : op ≠ .cJal)
    (hs : isShift op = false) : Supports cfg op n where
  mulDiv h := by simp [hm] at h
  wide _ := hx
  narrow h := absurd h hj
  shift h := by simp [hs] at h

theorem supports_cJal (hx : cfg.xlen = 32) : Supports cfg .cJal n where
  mulDiv h := by cases h
  wide h := by cases h
  narrow _ := hx
  shift h := by cases h

theorem supports_shift {w : BitVec 16} (hop : op = .cSlli ∨ op = .cSrli ∨ op = .cSrai)
    (h : cfg.xlen = 64 ∨ field w 12 1 = 0) : Supports cfg op (uimmCI w) where
  mulDiv hm := by obtain rfl | rfl | rfl := hop <;> cases hm
  wide hw := by obtain rfl | rfl | rfl := hop <;> cases hw
  narrow hj := by obtain rfl | rfl | rfl := hop <;> cases hj
  shift _ := by
    have hlimit : shiftLimit cfg.xlen op = cfg.xlen := by obtain rfl | rfl | rfl := hop <;> rfl
    obtain ⟨h64, h32⟩ := uimmCI_lt w
    rw [hlimit]
    rcases cfg.xlenOk with hx | hx <;> rw [hx] at h ⊢
    · exact ⟨by omega, by exact_mod_cast h32 (h.resolve_left (by decide))⟩
    · exact ⟨by omega, by exact_mod_cast h64⟩

theorem decodeCAlu_supports {w : BitVec 16} {x : COperands}
    (h : decodeCAlu w (cfg.xlen = 64) = some (op, x)) : Supports cfg op x.amount := by
  rw [decodeCAlu] at h
  split at h
  · split_ifs at h with hb
    cases h
    exact supports_shift (.inr (.inl rfl)) (by simpa using hb)
  · split_ifs at h with hb
    cases h
    exact supports_shift (.inr (.inr rfl)) (by simpa using hb)
  · cases h
    exact supports_plain rfl rfl (by decide) rfl
  · split at h
    case h_5 | h_6 =>
      split_ifs at h with hx
      cases h
      exact supports_wide (by simpa using hx) rfl (by decide) rfl
    case h_7 => cases h
    all_goals
      cases h
      exact supports_plain rfl rfl (by decide) rfl

theorem decodeCReg_supports {w : BitVec 16} {x : COperands}
    (h : decodeCReg w = some (op, x)) : Supports cfg op x.amount := by
  rw [decodeCReg] at h
  split_ifs at h <;> cases h <;> exact supports_plain rfl rfl (by decide) rfl

/-- Whatever a halfword reads as in RV32C or RV64C is an instruction of that set. -/
theorem decodeC_supports {w : BitVec 16} {x : COperands}
    (h : decodeC cfg.xlen w = some (op, x)) : Supports cfg op x.amount := by
  rw [decodeC] at h
  split at h
  -- quadrant 0
  · cases h
    exact supports_plain rfl rfl (by decide) rfl
  · split_ifs at h with hx
    cases h
    exact supports_wide (by simpa using hx) rfl (by decide) rfl
  · cases h
    exact supports_plain rfl rfl (by decide) rfl
  · split_ifs at h with hx
    cases h
    exact supports_wide (by simpa using hx) rfl (by decide) rfl
  -- quadrant 1
  · split_ifs at h
    cases h
    exact supports_plain rfl rfl (by decide) rfl
  · split_ifs at h with hx <;> cases h
    · exact supports_wide (by simpa using hx) rfl (by decide) rfl
    · exact supports_cJal (cfg.xlenOk.resolve_right (by simpa using hx))
  · split_ifs at h
    cases h
    exact supports_plain rfl rfl (by decide) rfl
  · split_ifs at h
    cases h
    exact supports_plain rfl rfl (by decide) rfl
  · exact decodeCAlu_supports h
  · cases h
    exact supports_plain rfl rfl (by decide) rfl
  · cases h
    exact supports_plain rfl rfl (by decide) rfl
  · cases h
    exact supports_plain rfl rfl (by decide) rfl
  -- quadrant 2
  · split_ifs at h with hb
    cases h
    have h12 := field_lt w 12 1
    refine supports_shift (.inl rfl) ?_
    by_contra hno
    rw [not_or] at hno hb
    exact hb.2 ⟨by simpa using hno.1, by omega⟩
  · split_ifs at h
    cases h
    exact supports_plain rfl rfl (by decide) rfl
  · split_ifs at h with hx
    cases h
    exact supports_wide (by simpa using hx) rfl (by decide) rfl
  · exact decodeCReg_supports h
  · cases h
    exact supports_plain rfl rfl (by decide) rfl
  · split_ifs at h with hx
    cases h
    exact supports_wide (by simpa using hx) rfl (by decide) rfl
  · cases h

end

/-- The compressed instructions whose halfwords are reserved: `c.ldsp` leaves its register out,
and `c.or` and `c.and`, like `c.sub` and `c.xor` on RV32, have bit 12 set. -/
def isReserved (xlen : ℕ) (op : Opcode) : Bool :=
  match op with
  | .cLdsp | .cOr | .cAnd => true
  | .cSub | .cXor => xlen = 32
  | _ => false

theorem decodeC_ca_eq_none_iff {cfg : Config} {op : Opcode} {rd rs1 rs2 imm : ℤ}
    (hfmt : (cEncodingTable op).fmt = .ca) (hl : CAluLegal cfg op rd rs1 rs2 imm) :
    decodeC cfg.xlen (cAluHalf op rd rs1 rs2 imm) = none ↔ isReserved cfg.xlen op = true := by
  have hxlen : ¬ cfg.xlen = 64 ↔ cfg.xlen = 32 := by
    have := cfg.xlenOk
    omega
  have hwide : op = .cSubw ∨ op = .cAddw → cfg.xlen = 64 := by
    rintro (rfl | rfl) <;> exact hl.1.xlen_eq_64 rfl
  obtain ⟨⟨hd, h2⟩, hw⟩ := hl.ca hfmt
  obtain ⟨-, -, hq, h3, h12, h10, h5⟩ := caHalf_fields op hd h2
  simp only [hw, decodeC, decodeCAlu, hq, h3, h12, h10, h5]
  cases op <;> simp [cEncodingTable, cRvAny, cRv64, cRv32, CTag.val, isReserved] at hfmt hwide ⊢
  case cSub | cXor => exact hxlen
  case cSubw | cAddw => exact hwide

def isMispacked (op : Opcode) : Bool := (cEncodingTable op).fmt = .ca || op = .cLdsp

theorem decodeC_encoded {cfg : Config} {op : Opcode} {rd rs1 rs2 imm line : ℤ} {w : BitVec 16}
    (hop : (cEncodingTable op).needsC = true) (hmis : isMispacked op = false) (hd : IsReg rd)
    (h1 : IsReg rs1) (h2 : IsReg rs2)
    (h : cEncodeInstruction cfg op (cEncodingTable op).fmt rd rs1 rs2 imm line = .ok w) :
    ∃ x, decodeC cfg.xlen w = some (op, x) := by
  by_cases halu : isCAlu op = true
  · obtain ⟨hl, rfl⟩ := (cEncodeAlu_ok halu).mp h
    refine ⟨_, decodeC_cAluHalf halu ?_ hd h1 h2 hl⟩
    intro hca
    simp [isMispacked, hca] at hmis
  · have hmem : op = .cLw ∨ op = .cLd ∨ op = .cSw ∨ op = .cSd ∨ op = .cLwsp ∨ op = .cSwsp ∨
        op = .cSdsp ∨ op = .cBeqz ∨ op = .cBnez ∨ op = .cJ ∨ op = .cJal := by
      revert hop halu hmis
      cases op <;> decide
    obtain rfl | rfl | rfl | rfl | rfl | rfl | rfl | rfl | rfl | rfl | rfl := hmem
    · exact ⟨_, encodeCltype_reads (.inl rfl) h⟩
    · exact ⟨_, encodeCltype_reads (.inr rfl) h⟩
    · exact ⟨_, encodeCstype_reads (.inl rfl) h⟩
    · exact ⟨_, encodeCstype_reads (.inr rfl) h⟩
    · exact ⟨_, encodeCitype_lwsp_reads hd h⟩
    · exact ⟨_, encodeCsstype_reads (.inl ⟨rfl, rfl⟩) h⟩
    · exact ⟨_, encodeCsstype_reads (.inr ⟨rfl, rfl⟩) h⟩
    · exact ⟨_, encodeCbtype_reads (.inl rfl) h⟩
    · exact ⟨_, encodeCbtype_reads (.inr rfl) h⟩
    · exact ⟨_, encodeCjtype_reads (.inl rfl) h⟩
    · exact ⟨_, encodeCjtype_reads (.inr rfl) h⟩

/-- A halfword stands for nothing if and only if its instruction is one of the reserved ones. -/
theorem decodeC_eq_none_iff {cfg : Config} {op : Opcode} {rd rs1 rs2 imm line : ℤ}
    {w : BitVec 16} (hop : (cEncodingTable op).needsC = true) (hd : IsReg rd) (h1 : IsReg rs1)
    (h2 : IsReg rs2)
    (h : cEncodeInstruction cfg op (cEncodingTable op).fmt rd rs1 rs2 imm line = .ok w) :
    decodeC cfg.xlen w = none ↔ isReserved cfg.xlen op = true := by
  by_cases hca : (cEncodingTable op).fmt = .ca
  · have halu : isCAlu op = true := by
      revert hca
      cases op <;> decide
    obtain ⟨hl, rfl⟩ := (cEncodeAlu_ok halu).mp h
    exact decodeC_ca_eq_none_iff hca hl
  · by_cases hld : op = .cLdsp
    · subst hld
      exact iff_of_true (encodeCitype_ldsp_reads h) rfl
    · have hmis : isMispacked op = false := by simp [isMispacked, hca, hld]
      obtain ⟨x, hx⟩ := decodeC_encoded hop hmis hd h1 h2 h
      refine iff_of_false (by rw [hx]; exact nofun) ?_
      revert hop hmis
      cases op <;> simp [isReserved, isMispacked, cEncodingTable, cRvAny]

def SinkCall.isUnit : SinkCall → Bool
  | .word _ | .half _ => true
  | _ => false

/-- What is asked of the unit an entry is emitted as. -/
structure Permitted (cfg : Config) (t : SymTab) (e : IrEntry) (c : SinkCall) : Prop where
  call : e.call cfg t = .ok [c]
  /-- The instruction it is emitted for is available. -/
  made : ∃ imm, encoderImm t (nodeArgs e) e.addr e.line = .ok imm ∧
    Supports cfg (nodeArgs e).op imm
  /-- Its bits are an instruction, and one that is available. -/
  read : ∃ op n, c.reads cfg.xlen = some (op, n) ∧ Supports cfg op n
  half : c.bytes.length = 2 → cfg.extC = true
  auto : isCFmt e.fmt = false → c.bytes.length = 2 → cfg.extC = true ∧ cfg.autoC = true

theorem Encoded.supports {cfg : Config} {a : InstrArgs} {imm line : ℤ} {c : SinkCall}
    (h : Encoded cfg a imm line c) (hregs : a.RegsOk) (hform : a.FmtOk) :
    Supports cfg a.op imm ∧ (∀ op n, c.reads cfg.xlen = some (op, n) → Supports cfg op n) ∧
      (c.reads cfg.xlen = none ↔ isReserved cfg.xlen a.op = true) := by
  obtain ⟨hd, h1, h2⟩ := hregs
  cases h with
  | word hfmt hreq henc =>
    have hread := decode_encoded ⟨hd, h1, h2⟩ hform hfmt hreq henc
    rw [InstrArgs.FmtOk, if_neg (by rw [hfmt]; decide)] at hform
    have hmade := supports_word hform hreq henc
    have hplain : isReserved cfg.xlen a.op = false := by
      generalize a.op = op at hform
      cases op <;> first | rfl | cases hform
    simp only [SinkCall.reads, hread, Option.map_some, Option.some.injEq, Prod.mk.injEq]
    refine ⟨hmade, ?_, by simp [hplain]⟩
    rintro op n ⟨rfl, rfl⟩
    refine ⟨hmade.mulDiv, hmade.wide, hmade.narrow, fun hs => ?_⟩
    obtain ⟨hi, -, hsys⟩ := isShift_of_baseFmt hform hs
    simp only [operandsOf, hi, hsys, Bool.false_eq_true, ↓reduceIte, Operands.amount]
    exact hmade.shift hs
  | half hfmt hav henc =>
    rw [InstrArgs.FmtOk, if_pos hfmt] at hform
    rw [← hform.2] at henc
    refine ⟨supports_half hav ((cEncodeInstruction_accepts hform.1).mp ⟨_, henc⟩), ?_, ?_⟩
    · intro op n hread
      obtain ⟨⟨op', x⟩, hdec, heq⟩ := Option.map_eq_some_iff.mp hread
      obtain ⟨rfl, rfl⟩ := Prod.mk.inj heq
      exact decodeC_supports hdec
    · rw [SinkCall.reads, Option.map_eq_none_iff]
      exact decodeC_eq_none_iff hform.1 hd h1 h2 henc

/-- An emitted entry of a layout is permitted unless it comes out reserved. -/
theorem IrEntry.Built.permitted_iff {cfg : Config} {t : SymTab} {e : IrEntry} (hb : e.Built)
    (hm : e.Mapped cfg) (hk : e.kind = .instr) (h : ∃ cs, e.call cfg t = .ok cs) :
    ∃ c, e.call cfg t = .ok [c] ∧ c.isUnit = true ∧
      (Permitted cfg t e c ↔ ¬ isReserved cfg.xlen (nodeArgs e).op = true) := by
  obtain ⟨cs, hcall⟩ := h
  obtain ⟨c, hc, rfl⟩ := (IrEntry.call_instr hk).mp hcall
  obtain ⟨imm, himm, henc⟩ := instrCall_encoded hc
  obtain ⟨hregs, hform⟩ := hb.nodeArgs_ok hm hk
  obtain ⟨hmade, hread, hnone⟩ := henc.supports hregs hform
  have hhalf : c.bytes.length = 2 → isCFmt (nodeArgs e).fmt = true ∧ cfg.extC = true := by
    cases henc with
    | word => exact fun hlen => absurd hlen (by rw [SinkCall.bytes, Bytes.length_le]; decide)
    | half hfmt hav => exact fun _ => ⟨hfmt, hav.1⟩
  refine ⟨c, hcall, by cases henc <;> rfl, fun hp hres => ?_, fun hres => ?_⟩
  · obtain ⟨op, n, hsome, -⟩ := hp.read
    rw [hnone.mpr hres] at hsome
    cases hsome
  · obtain ⟨⟨op, n⟩, hsome⟩ := Option.ne_none_iff_exists'.mp (mt hnone.mp hres)
    refine ⟨hcall, ⟨imm, himm, hmade⟩, ⟨op, n, hsome, hread op n hsome⟩,
      fun hlen => (hhalf hlen).2, fun hfmt hlen => ?_⟩
    have hnode := (hhalf hlen).1
    cases hchoice : e.hasCChoice with
    | true =>
      have hcfg := (hm hchoice).1
      rw [Config.compresses] at hcfg
      simpa using hcfg
    | false =>
      simp only [nodeArgs, cMaterialize, hchoice, Bool.false_eq_true, ↓reduceIte, hfmt] at hnode

/-- The 32-bit instructions whose compressed forms are reserved. -/
def CompressesToReserved (cfg : Config) (e : IrEntry) : Prop :=
  e.op = .ld ∧ cfg.xlen = 64 ∧ e.rd ≠ 0 ∧ e.rs1 = 2 ∧ ScaledOffset 8 504 e.imm ∨
    (e.op = .or ∨ e.op = .and ∨ cfg.xlen = 32 ∧ (e.op = .sub ∨ e.op = .xor)) ∧
      e.rd = e.rs1 ∧ IsPrime e.rd ∧ IsPrime e.rs2

/-- The entries that are written as reserved halfwords: instructions that are reserved as they
stand, and such that compression may be attempted for and makes reserved. -/
def IrEntry.Reserved (cfg : Config) (e : IrEntry) : Prop :=
  isReserved cfg.xlen e.op = true ∨
    pass2NodeCanAttempt cfg e = true ∧ CompressesToReserved cfg e

theorem canAttempt_congr (cfg : Config) {e e' : IrEntry} (hkind : e'.kind = e.kind)
    (hforced : e'.forcedSize = e.forcedSize) (hcan : e'.canCompress = e.canCompress)
    (hreloc : e'.reloc = e.reloc) (hsect : e'.sect = e.sect) :
    pass2NodeCanAttempt cfg e' = pass2NodeCanAttempt cfg e := by
  simp only [pass2NodeCanAttempt, irIsExplicitC, hkind, hforced, hcan, hreloc, hsect]
  by_cases hc : e.canCompress = true <;> simp [hc]

instance (scale top imm : ℤ) : Decidable (ScaledOffset scale top imm) :=
  inferInstanceAs (Decidable (_ ∧ _))

instance (cfg : Config) (e : IrEntry) : Decidable (CompressesToReserved cfg e) :=
  inferInstanceAs (Decidable (_ ∨ _))

instance (cfg : Config) (e : IrEntry) : Decidable (e.Reserved cfg) :=
  inferInstanceAs (Decidable (_ ∨ _))

theorem IrEntry.reserved_core (cfg : Config) (e : IrEntry) :
    e.core.Reserved cfg = e.Reserved cfg := by
  have hsame : pass2NodeCanAttempt cfg e.core = pass2NodeCanAttempt cfg e :=
    canAttempt_congr cfg rfl rfl rfl rfl rfl
  rw [IrEntry.Reserved, hsame]
  rfl

theorem CRule.isReserved_iff {cfg : Config} {n : IrEntry} {ch : CChoice} (h : CRule cfg n ch) :
    isReserved cfg.xlen n.op = false ∧
      (isReserved cfg.xlen ch.op = true ↔ CompressesToReserved cfg n) := by
  cases h with
  | ca hop hrd hp hp2 =>
    obtain ⟨hop, rfl⟩ | ⟨hop, rfl⟩ | ⟨hop, rfl⟩ | ⟨hop, rfl⟩ := hop <;>
      simp [isReserved, CompressesToReserved, hop, hrd ▸ hp, hp2, hrd]
  | caw h64 hop =>
    obtain ⟨hop, rfl⟩ | ⟨hop, rfl⟩ := hop <;> simp [isReserved, CompressesToReserved, hop]
  | ldsp hop h0 h1 h64 himm => simp [isReserved, CompressesToReserved, hop, h0, h1, h64, himm]
  | ld hop hp hp1 =>
    -- the stack pointer is not among the registers of `c.ld`
    have h2 : n.rs1 ≠ 2 := by
      rintro h2
      rw [h2] at hp1
      exact absurd hp1.1 (by decide)
    simp [isReserved, CompressesToReserved, hop, h2]
  | branchz hop =>
    obtain ⟨hop, rfl⟩ | ⟨hop, rfl⟩ := hop <;> simp [isReserved, CompressesToReserved, hop]
  | jump hop hrd =>
    obtain ⟨-, rfl⟩ | ⟨-, rfl, -⟩ := hrd <;> simp [isReserved, CompressesToReserved, hop]
  | _ hop => simp [isReserved, CompressesToReserved, hop]

theorem exists_cTryMap {cfg : Config} {n : IrEntry} (h : CompressesToReserved cfg n) :
    ∃ ch, cTryMap cfg n = some ch := by
  rw [← Option.ne_none_iff_exists']
  intro hnone
  simp only [cTryMap, Option.orElse_eq_orElse, Option.orElse_eq_or, Option.or_eq_none_iff] at hnone
  obtain ⟨hop, h64, h0, h1, hlo, hmod, hhi⟩ | ⟨hop, hrd, hp, hp2⟩ := h
  · have hload : cMapCiSpLoad cfg n = none := by simp only [hnone]
    simp [cMapCiSpLoad, hop, h64, h0, h1, hmod] at hload
    omega
  · have halu : cMapCaAlu n = none := by simp only [hnone]
    have hop : ¬ (n.op ≠ .sub ∧ n.op ≠ .xor ∧ n.op ≠ .or ∧ n.op ≠ .and) := by
      obtain hop | hop | ⟨-, hop | hop⟩ := hop <;> simp [hop]
    rw [cMapCaAlu, if_neg hop, if_neg (not_not.mpr hrd),
      if_neg (by simp [inPrime_iff.mpr hp, inPrime_iff.mpr hp2])] at halu
    cases halu

/-- Planning leaves a choice only where it may be attempted, and no round drops one that is no
branch or jump. -/
structure IrEntry.Planned (cfg : Config) (e : IrEntry) : Prop where
  mapped : e.Mapped cfg
  attempted : e.hasCChoice = true → pass2NodeCanAttempt cfg e = true
  dropped : e.hasCChoice = false → pass2NodeCanAttempt cfg e = true →
    ∀ ch, cTryMap cfg e = some ch → isPcRel ch.op = true

theorem IrEntry.planned_planEntry {cfg : Config} {e : IrEntry} (h : e.hasCChoice = false) :
    (planEntry cfg e).Planned cfg := by
  have hmapped : (planEntry cfg e).Mapped cfg := IrEntry.Mapped.plan fun hc => by
    rw [h] at hc
    cases hc
  refine ⟨hmapped, ?_, ?_⟩ <;> rw [planEntry] <;> split_ifs with hattempt
  · intro hc
    rw [h] at hc
    cases hc
  · have hyes : pass2NodeCanAttempt cfg e = true := by simpa using hattempt
    intro _
    rw [← hyes]
    cases cTryMap cfg e <;> exact canAttempt_congr cfg rfl rfl rfl rfl rfl
  · intro _ hyes
    rw [hyes] at hattempt
    cases hattempt
  · cases hmap : cTryMap cfg e with
    | none => exact fun _ _ ch hch => by cases hmap.symm.trans hch
    | some ch => exact fun hc => by cases hc

theorem IrEntry.Planned.validate {cfg : Config} {t : SymTab} {e : IrEntry} (h : e.Planned cfg) :
    (validateEntry t .text e).1.Planned cfg := by
  refine ⟨h.mapped.validate, ?_, ?_⟩ <;>
    obtain hsame | ⟨-, hpc, hsame | ⟨imm, hsame⟩⟩ := validateEntry_cases t .text e <;> rw [hsame]
  · exact h.attempted
  · exact fun hc => by cases hc
  · exact h.attempted
  · exact h.dropped
  · -- what is dropped is a branch or jump
    intro _ _ ch hch
    rw [IrEntry.hasPcRelChoice, Bool.and_eq_true] at hpc
    obtain ⟨-, ch', imm, hmap, hform, -⟩ := h.mapped hpc.1
    obtain rfl : ch' = ch := Option.some.inj (hmap.symm.trans hch)
    rw [hform] at hpc
    exact hpc.2
  · exact h.dropped

theorem pass2Layout_planned (cfg : Config) (t : SymTab) {ir : List IrEntry}
    (h : ∀ e ∈ ir, e.Fresh) : ∀ e ∈ pass2Layout cfg t ir, e.Planned cfg := by
  cases hcfg : cfg.compresses with
  | true =>
    refine pass2Layout_of_planned hcfg t (fun _ _ _ h => ⟨h.mapped, h.attempted, h.dropped⟩)
      (fun _ => IrEntry.Planned.validate) ?_
    rw [pass2PlanChoices, hcfg]
    refine List.forall_mem_map.mpr fun e he => IrEntry.planned_planEntry ?_
    obtain ⟨e', he', a, n, rfl⟩ := mem_assignFrom he
    exact (h e' he').noChoice
  | false =>
    intro e he
    have hmapped := pass2Layout_mapped cfg t h e he
    have hno : ¬ cfg.compresses = true := by simp [hcfg]
    exact ⟨hmapped, fun hc => absurd (hmapped hc).1 hno,
      fun _ hyes => absurd (compresses_of_canAttempt hyes) hno⟩

theorem IrEntry.Planned.reserved_iff {cfg : Config} {e : IrEntry} (h : e.Planned cfg) :
    isReserved cfg.xlen (nodeArgs e).op = true ↔ e.Reserved cfg := by
  cases hc : e.hasCChoice with
  | true =>
    obtain ⟨-, ch, imm, hmap, hform, -⟩ := h.mapped hc
    obtain ⟨hplain, hiff⟩ := (cTryMap_rule hmap).isReserved_iff
    have hop : (nodeArgs e).op = ch.op := by simp [nodeArgs, cMaterialize, hc, hform]
    rw [hop, hiff, IrEntry.Reserved, hplain, h.attempted hc]
    simp
  | false =>
    have hop : (nodeArgs e).op = e.op := by simp [nodeArgs, cMaterialize, hc]
    rw [hop, IrEntry.Reserved, iff_self_or]
    rintro ⟨hattempt, hcompress⟩
    -- such a form is no branch or jump, so it is still there
    obtain ⟨ch, hmap⟩ := exists_cTryMap hcompress
    have hres := (cTryMap_rule hmap).isReserved_iff.2.mpr hcompress
    have hpc := h.dropped hc hattempt ch hmap
    generalize ch.op = op at hres hpc
    revert hres hpc
    cases op <;> simp [isReserved, isPcRel]

theorem mem_allCalls {cfg : Config} {t : SymTab} {ir : List IrEntry}
    (h : ∀ e ∈ ir, ∃ cs, e.call cfg t = .ok cs) (cur : Section) {c : SinkCall}
    (hu : c.isUnit = true) :
    c ∈ allCalls cfg t cur ir ↔ ∃ e ∈ ir, e.kind = .instr ∧ e.call cfg t = .ok [c] := by
  induction ir generalizing cur with
  | nil => simp [allCalls]
  | cons e es ih =>
    obtain ⟨⟨cs, hc⟩, hes⟩ := List.forall_mem_cons.mp h
    have henter : c ∈ enterCalls cur e cs ↔ c ∈ cs := by
      rw [enterCalls, List.mem_append, or_iff_right_iff_imp]
      intro hmem
      split_ifs at hmem
      · obtain rfl := List.mem_singleton.mp hmem
        cases hu
      · cases hmem
    -- of an entry's own calls only that of an instruction is a unit
    have hown : c ∈ cs ↔ e.kind = .instr ∧ e.call cfg t = .ok [c] := by
      cases hk : e.kind with
      | align =>
        simp only [IrEntry.call, hk] at hc
        cases hc
        refine iff_of_false (fun hmem => ?_) fun h => by cases h.1
        split_ifs at hmem
        · cases hmem
        · obtain rfl := List.mem_singleton.mp hmem
          cases hu
      | data =>
        simp only [IrEntry.call, hk] at hc
        split_ifs at hc
        cases hc
        refine iff_of_false (fun hmem => ?_) fun h => by cases h.1
        obtain rfl := List.mem_singleton.mp hmem
        cases hu
      | instr =>
        obtain ⟨c', -, rfl⟩ := (IrEntry.call_instr hk).mp hc
        simp only [hc, List.mem_singleton, true_and, Except.ok.injEq, List.cons.injEq, and_true]
        exact eq_comm
    rw [allCalls, hc, List.mem_append, List.exists_mem_cons_iff, ih hes]
    simp only [Except.toOption, Option.getD_some]
    rw [henter, hown]

/-- Every instruction of a run comes to one permitted unit among the calls of the run, and the
run writes no other units. -/
def OutputPermitted (cfg : Config) (ops : FileOps) (out : OutCtx) (prog : Program) : Prop :=
  (∀ e ∈ pass2Layout cfg (pass1Run prog).symtab (pass1Run prog).ir, e.kind = .instr →
      ∃ c ∈ (pass2Run cfg (pass1Run prog).symtab ops (pass2Start out) (pass1Run prog).ir).1.calls,
        Permitted cfg (pass1Run prog).symtab e c) ∧
    ∀ c ∈ (pass2Run cfg (pass1Run prog).symtab ops (pass2Start out) (pass1Run prog).ir).1.calls,
      c.isUnit = true →
        ∃ e ∈ pass2Layout cfg (pass1Run prog).symtab (pass1Run prog).ir,
          Permitted cfg (pass1Run prog).symtab e c

/-- A successful run stays inside the selected ISA if and only if none of the entries pass 1
recorded is written as a reserved halfword. -/
theorem outputPermitted_iff_unreserved (cfg : Config) (ops : FileOps) (out : OutCtx)
    (prog : Program)
    (hrun : (pass2Run cfg (pass1Run prog).symtab ops (pass2Start out) (pass1Run prog).ir).2 = true) :
    OutputPermitted cfg ops out prog ↔
      ∀ e ∈ (pass1Run prog).ir, e.kind = .instr → ¬ e.Reserved cfg := by
  have hfresh := (pass1Run_good prog).ir
  have hcalls := (pass2Run_written hfresh hrun).1
  have hbuilt := pass2Layout_built cfg prog
  have hplanned := pass2Layout_planned cfg (pass1Run prog).symtab hfresh
  have hcore := (pass2Layout_laidOut cfg (pass1Run prog).symtab hfresh).2
  rw [OutputPermitted, (pass2Run_leaves hfresh hrun).2.1]
  generalize pass2Layout cfg (pass1Run prog).symtab (pass1Run prog).ir = lay at *
  have hunit : ∀ e ∈ lay, e.kind = .instr → ∃ c, e.call cfg (pass1Run prog).symtab = .ok [c] ∧
      c.isUnit = true ∧ (Permitted cfg (pass1Run prog).symtab e c ↔ ¬ e.Reserved cfg) := by
    intro e he hk
    rw [← (hplanned e he).reserved_iff]
    exact (hbuilt e he).permitted_iff (hplanned e he).mapped hk (hcalls e he)
  -- the units of the run are the calls of its instructions
  have hmem : ∀ c : SinkCall, c.isUnit = true → (c ∈ outputCalls cfg (pass1Run prog).symtab lay ↔
      ∃ e ∈ lay, e.kind = .instr ∧ e.call cfg (pass1Run prog).symtab = .ok [c]) := by
    intro c hu
    rw [← mem_allCalls hcalls (lay.head?.elim .text IrEntry.sect) hu]
    cases lay with
    | nil => rfl
    | cons e es =>
      rw [outputCalls, List.mem_cons, or_iff_right]
      · rfl
      · rintro rfl
        cases hu
  have hsame {c c' : SinkCall} {e : IrEntry} (h : e.call cfg (pass1Run prog).symtab = .ok [c])
      (h' : e.call cfg (pass1Run prog).symtab = .ok [c']) : c = c' :=
    List.cons.inj (Except.ok.inj (h.symm.trans h')) |>.1
  constructor
  · rintro ⟨hall, -⟩ e' he' hk' hres
    obtain ⟨k, hget⟩ := List.mem_iff_getElem?.mp he'
    obtain ⟨e, hat, heq⟩ := exists_core_of_getElem? hcore hget
    have he := List.mem_of_getElem? hat
    have hk : e.kind = .instr := (IrEntry.kind_eq_of_core heq).trans hk'
    obtain ⟨c, -, hc⟩ := hall e he hk
    obtain ⟨c', hcall, -, hiff⟩ := hunit e he hk
    rw [hsame hc.call hcall] at hc
    refine hiff.mp hc ?_
    rwa [IrEntry.eq_of_core (IrEntry.Reserved cfg) (IrEntry.reserved_core cfg) heq]
  · intro hnone
    have hpermitted : ∀ e ∈ lay, e.kind = .instr → ¬ e.Reserved cfg := by
      intro e he hk
      obtain ⟨e', he', heq⟩ := exists_core_of_mem hcore he
      rw [IrEntry.eq_of_core (IrEntry.Reserved cfg) (IrEntry.reserved_core cfg) heq]
      exact hnone e' he' ((IrEntry.kind_eq_of_core heq).symm.trans hk)
    constructor
    · intro e he hk
      obtain ⟨c, hcall, hu, hiff⟩ := hunit e he hk
      exact ⟨c, (hmem c hu).mpr ⟨e, he, hk, hcall⟩, hiff.mpr (hpermitted e he hk)⟩
    · intro c hc hu
      obtain ⟨e, he, hk, hcall⟩ := (hmem c hu).mp hc
      obtain ⟨c', hcall', -, hiff⟩ := hunit e he hk
      exact ⟨e, he, hsame hcall' hcall ▸ hiff.mpr (hpermitted e he hk)⟩

theorem outputPermitted_iff_unreserved_countdown :
    OutputPermitted (passSetArch 32 false true true) allOps (outSetFile (outBegin .elf 32) {})
      countdown :=
  (outputPermitted_iff_unreserved _ _ _ countdown (by decide +kernel)).mpr (by decide +kernel)

def subtraction : Program := [(1, .instruction (.sub (reg 8) (reg 8) (reg 9)))]

def cSubtraction : Program := [(1, .instruction (.cSub (reg 8) (reg 9)))]

/-- Both subtractions come to `0x9C05`, which has the bits of `c.subw` and is nothing on RV32. -/
theorem subtraction_not_outputPermitted :
    ((pass2Run (passSetArch 32 false true true) (pass1Run subtraction).symtab allOps
        (pass2Start (outSetFile (outBegin .elf 32) {})) (pass1Run subtraction).ir).2 = true ∧
      ¬ OutputPermitted (passSetArch 32 false true true) allOps
        (outSetFile (outBegin .elf 32) {}) subtraction) ∧
    (pass2Run (passSetArch 32 false true false) (pass1Run cSubtraction).symtab allOps
        (pass2Start (outSetFile (outBegin .elf 32) {})) (pass1Run cSubtraction).ir).2 = true ∧
      ¬ OutputPermitted (passSetArch 32 false true false) allOps
        (outSetFile (outBegin .elf 32) {}) cSubtraction := by
  have hread {cfg : Config} {ops : FileOps} {out : OutCtx} {prog : Program}
      (hc : ∃ c ∈ (pass2Run cfg (pass1Run prog).symtab ops (pass2Start out)
        (pass1Run prog).ir).1.calls, c.isUnit = true ∧ c.reads cfg.xlen = none) :
      ¬ OutputPermitted cfg ops out prog := by
    rintro ⟨-, hunits⟩
    obtain ⟨c, hmem, hu, hnone⟩ := hc
    obtain ⟨e, -, hp⟩ := hunits c hmem hu
    obtain ⟨op, n, hsome, -⟩ := hp.read
    cases hnone.symm.trans hsome
  exact ⟨⟨by decide +kernel, hread (by decide +kernel)⟩, by decide +kernel,
    hread (by decide +kernel)⟩

end RvAssembler
