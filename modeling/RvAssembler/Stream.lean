import RvAssembler.CLegal
import RvAssembler.Expansion
import RvAssembler.Lib.Units

namespace RvAssembler

open Bits Bytes

/-- The bytes after the first one of an instruction, by the length encoding of RISC-V. -/
def moreBytes (b : UInt8) : Option ℕ :=
  if b.toNat % 4 ≠ 3 then some 1
  else if b.toNat / 4 % 8 ≠ 7 then some 3
  else none

theorem opcode_of_decode {xlen : ℕ} {w : BitVec 32} {r : Opcode × Operands}
    (h : decode xlen w = some r) : field w 0 7 % 4 = 3 ∧ field w 0 7 / 4 % 8 ≠ 7 := by
  simp only [decode] at h
  split at h
  case h_13 => cases h
  all_goals
    rename_i hop
    rw [hop]
    decide

theorem isUnit_word {w : BitVec 32} (h : field w 0 7 % 4 = 3 ∧ field w 0 7 / 4 % 8 ≠ 7) :
    Units.IsUnit moreBytes (le 4 w.toNat) := by
  have hfield : field w 0 7 = w.toNat % 128 := by simp [field]
  rw [hfield] at h
  have hbyte : (UInt8.ofNat w.toNat).toNat = w.toNat % 256 := by simp
  rw [le, Units.IsUnit, length_le, moreBytes, hbyte, if_neg (by omega), if_pos (by omega)]

theorem isUnit_half {h : BitVec 16} (hq : field h 0 2 ≠ 3) :
    Units.IsUnit moreBytes (le 2 h.toNat) := by
  have hfield : field h 0 2 = h.toNat % 4 := by simp [field]
  rw [hfield] at hq
  have hbyte : (UInt8.ofNat h.toNat).toNat = h.toNat % 256 := by simp
  rw [le, Units.IsUnit, length_le, moreBytes, hbyte, if_pos (by omega)]

theorem quadrant_lt (op : Opcode) : (cEncodingTable op).quadrant < 3 := by
  cases op <;> decide

theorem quadrant_put {w : BitVec 16} {hi lo : ℕ} {v : BitVec 32} (hlo : 2 ≤ lo) (h : lo ≤ hi)
    (hhi : hi ≤ 15) : field (put w hi lo v) 0 2 = field w 0 2 :=
  field_put_of_disjoint (.inl (by omega)) (by decide) hhi h

theorem quadrant_crHalf (op : Opcode) (rd rs2 : ℤ) :
    field (crHalf op rd rs2) 0 2 = (cEncodingTable op).quadrant := by
  have hlt := quadrant_lt op
  have hq := field_tag16 2 0 (cEncodingTable op).quadrant (by decide)
  rw [Nat.mod_eq_of_lt (by omega), Nat.mod_eq_of_lt (by omega)] at hq
  simp (disch := omega) only [crHalf, tag16, reg16, field_or, field_shl_zero, Nat.zero_or]
  exact hq

theorem quadrant_caHalf (op : Opcode) (rd rs2 : ℤ) :
    field (caHalf op rd rs2) 0 2 = (cEncodingTable op).quadrant := by
  have hlt := quadrant_lt op
  have hq := field_tag16 2 0 (cEncodingTable op).quadrant (by decide)
  rw [Nat.mod_eq_of_lt (by omega), Nat.mod_eq_of_lt (by omega)] at hq
  simp (disch := omega) only [caHalf, tag16, reg16, field_or, field_shl_zero, Nat.zero_or]
  exact hq

theorem quadrant_ciHalf (op : Opcode) (rd imm : ℤ) :
    field (ciHalf op rd imm) 0 2 = (cEncodingTable op).quadrant := by
  simp (disch := omega) only [ciHalf, putImm5_0Ci, quadrant_put, cBuildTags_quadrant]

theorem quadrant_ciHalf' (op : Opcode) (rd imm : ℤ) :
    field (ciHalf' op rd imm) 0 2 = (cEncodingTable op).quadrant := by
  simp (disch := omega) only [ciHalf', putImm5_0Ci, quadrant_put, cBuildTags_quadrant]

theorem quadrant_cAluHalf (op : Opcode) (rd rs1 rs2 imm : ℤ) :
    field (cAluHalf op rd rs1 rs2 imm) 0 2 = (cEncodingTable op).quadrant := by
  unfold cAluHalf
  split <;>
    simp only [quadrant_crHalf, quadrant_caHalf, quadrant_ciHalf, quadrant_ciHalf']

section

variable {cfg : Config} {op : Opcode} {rd rs1 rs2 imm line : ℤ} {w : BitVec 16}

theorem quadrant_encodeCltype (h : encodeCltype cfg op rd rs1 imm line = .ok w) :
    field w 0 2 = (cEncodingTable op).quadrant := by
  rw [encodeCltype, requireCForOp_bind] at h
  dsimp only at h
  split_ifs at h <;> cases h.2 <;>
    simp (disch := omega) only [putImmW, putImmD, quadrant_put, cBuildTags_quadrant]

theorem quadrant_encodeCstype (h : encodeCstype cfg op rs1 rs2 imm line = .ok w) :
    field w 0 2 = (cEncodingTable op).quadrant := by
  rw [encodeCstype, requireCForOp_bind] at h
  dsimp only at h
  split_ifs at h <;> cases h.2 <;>
    simp (disch := omega) only [putImmW, putImmD, quadrant_put, cBuildTags_quadrant]

theorem quadrant_encodeCsstype (h : encodeCsstype cfg op rs1 rs2 imm line = .ok w) :
    field w 0 2 = (cEncodingTable op).quadrant := by
  rw [encodeCsstype, requireCForOp_bind] at h
  dsimp only at h
  split_ifs at h <;> cases h.2 <;> simp (disch := omega) only [quadrant_put, cBuildTags_quadrant]

theorem quadrant_encodeCbtype (h : encodeCbtype cfg op rs1 imm line = .ok w) :
    field w 0 2 = (cEncodingTable op).quadrant := by
  rw [encodeCbtype, requireCForOp_bind] at h
  dsimp only at h
  split_ifs at h <;> cases h.2
  simp (disch := omega) only [quadrant_put, cBuildTags_quadrant]

theorem quadrant_encodeCjtype (h : encodeCjtype cfg op imm line = .ok w) :
    field w 0 2 = (cEncodingTable op).quadrant := by
  rw [encodeCjtype, requireCForOp_bind] at h
  dsimp only at h
  split_ifs at h <;> cases h.2
  simp (disch := omega) only [quadrant_put, cBuildTags_quadrant]

theorem quadrant_encodeCitype_load (hop : op = .cLwsp ∨ op = .cLdsp)
    (h : encodeCitype cfg op rd rs1 imm line = .ok w) :
    field w 0 2 = (cEncodingTable op).quadrant := by
  rw [encodeCitype, requireCForOp_bind] at h
  rcases hop with rfl | rfl <;> dsimp only at h <;> split_ifs at h <;> cases h.2 <;>
    simp (disch := omega) only [quadrant_put, cBuildTags_quadrant]

/-- No packer disturbs the quadrant. -/
theorem quadrant_cEncodeInstruction (hop : (cEncodingTable op).needsC = true)
    (h : cEncodeInstruction cfg op (cEncodingTable op).fmt rd rs1 rs2 imm line = .ok w) :
    field w 0 2 = (cEncodingTable op).quadrant := by
  by_cases halu : isCAlu op = true
  · rw [← ((cEncodeAlu_ok halu).mp h).2]
    exact quadrant_cAluHalf ..
  · have hmem : op = .cLw ∨ op = .cLd ∨ op = .cSw ∨ op = .cSd ∨ op = .cLwsp ∨ op = .cLdsp ∨
        op = .cSwsp ∨ op = .cSdsp ∨ op = .cBeqz ∨ op = .cBnez ∨ op = .cJ ∨ op = .cJal := by
      revert hop halu
      cases op <;> decide
    obtain rfl | rfl | rfl | rfl | rfl | rfl | rfl | rfl | rfl | rfl | rfl | rfl := hmem
    · exact quadrant_encodeCltype h
    · exact quadrant_encodeCltype h
    · exact quadrant_encodeCstype h
    · exact quadrant_encodeCstype h
    · exact quadrant_encodeCitype_load (.inl rfl) h
    · exact quadrant_encodeCitype_load (.inr rfl) h
    · exact quadrant_encodeCsstype h
    · exact quadrant_encodeCsstype h
    · exact quadrant_encodeCbtype h
    · exact quadrant_encodeCbtype h
    · exact quadrant_encodeCjtype h
    · exact quadrant_encodeCjtype h

end

theorem CRule.regsOk {cfg : Config} {n : IrEntry} {ch : CChoice} (h : CRule cfg n ch)
    (hn : n.args.RegsOk) : IsReg ch.rd ∧ IsReg ch.rs1 ∧ IsReg ch.rs2 := by
  obtain ⟨hd, h1, h2⟩ := hn
  have h01 : IsReg 1 ∧ IsReg 2 := by decide
  cases h <;> exact ⟨by first | assumption | exact h01.1 | exact isReg_zero,
    by first | assumption | exact h01.2 | exact isReg_zero, by first | assumption | exact isReg_zero⟩

theorem IrEntry.Built.nodeArgs_ok {cfg : Config} {e : IrEntry} (h : e.Built)
    (hm : e.Mapped cfg) (hk : e.kind = .instr) : (nodeArgs e).RegsOk ∧ (nodeArgs e).FmtOk := by
  obtain ⟨i, hi⟩ := h hk
  have hregs := i.regsOk_emits _ hi
  cases hc : e.hasCChoice with
  | false =>
    have hsame : (cMaterialize e) = e.args := by simp [cMaterialize, hc, IrEntry.args]
    have hfmt := i.fmtOk_emits _ hi
    simp only [nodeArgs, hsame]
    exact ⟨hregs, hfmt⟩
  | true =>
    obtain ⟨-, ch, imm, hmap, hform, -⟩ := hm hc
    have hrule := cTryMap_rule hmap
    have hfmt : isCFmt ch.fmt = true := (cTryMap_for hmap).fmt
    simp only [nodeArgs, cMaterialize, hc, ↓reduceIte, hform]
    refine ⟨hrule.regsOk hregs, ?_⟩
    rw [InstrArgs.FmtOk, if_pos hfmt]
    exact hrule.form.1

theorem mapError_eq_ok {α ε ε' : Type} {f : ε → ε'} {x : Except ε α} {a : α} :
    x.mapError f = .ok a ↔ x = .ok a := by
  cases x <;> simp [Except.mapError]

/-- The unit of an entry, and the encoder it comes from. -/
inductive Encoded (cfg : Config) (a : InstrArgs) (imm line : ℤ) : SinkCall → Prop
  | half {h : BitVec 16} (hfmt : isCFmt a.fmt = true) (hav : CAvailable cfg a.op)
      (henc : cEncodeInstruction cfg a.op a.fmt a.rd a.rs1 a.rs2 imm line = .ok h) :
    Encoded cfg a imm line (.half h)
  | word {w : BitVec 32} (hfmt : isCFmt a.fmt = false)
      (hreq : requireForOp cfg a.op line = .ok ())
      (henc : encodeInstruction cfg a.op a.fmt a.rd a.rs1 a.rs2 imm line = .ok w) :
    Encoded cfg a imm line (.word w)

theorem instrCall_encoded {cfg : Config} {t : SymTab} {a : InstrArgs} {addr : ℕ} {line : ℤ}
    {c : SinkCall} (h : instrCall cfg t a addr line = .ok c) :
    ∃ imm, encoderImm t a addr line = .ok imm ∧ Encoded cfg a imm line c := by
  rw [instrCall] at h
  split_ifs at h with hfmt
  · obtain ⟨⟨⟩, hreq, h⟩ := bind_eq_ok.mp h
    obtain ⟨imm, himm, h⟩ := bind_eq_ok.mp h
    obtain ⟨half, henc, h⟩ := bind_eq_ok.mp h
    obtain rfl : SinkCall.half half = c := Except.ok.inj h
    exact ⟨imm, himm, .half hfmt (requireCForOp_ok.mp (mapError_eq_ok.mp hreq))
      (mapError_eq_ok.mp henc)⟩
  · obtain ⟨⟨⟩, hreq, h⟩ := bind_eq_ok.mp h
    obtain ⟨imm, himm, h⟩ := bind_eq_ok.mp h
    obtain ⟨word, henc, h⟩ := bind_eq_ok.mp h
    obtain rfl : SinkCall.word word = c := Except.ok.inj h
    exact ⟨imm, himm, .word (by simpa using hfmt) (mapError_eq_ok.mp hreq)
      (mapError_eq_ok.mp henc)⟩

section

variable {cfg : Config} {a : InstrArgs} {imm line : ℤ}

/-- A 32-bit unit reads back as what it was encoded from. -/
theorem decode_encoded (hregs : a.RegsOk) (hform : a.FmtOk) (hfmt : isCFmt a.fmt = false)
    (hreq : requireForOp cfg a.op line = .ok ()) {w : BitVec 32}
    (henc : encodeInstruction cfg a.op a.fmt a.rd a.rs1 a.rs2 imm line = .ok w) :
    decode cfg.xlen w = some (a.op, operandsOf a.op a.fmt a.rd a.rs1 a.rs2 imm) := by
  rw [InstrArgs.FmtOk, if_neg (by rw [hfmt]; decide)] at hform
  obtain ⟨hd, h1, h2⟩ := hregs
  exact (encodeInstruction_exact cfg a.op a.fmt a.rd a.rs1 a.rs2 imm line hform hreq hd h1 h2).2
    w henc

theorem Encoded.isUnit {c : SinkCall} (h : Encoded cfg a imm line c) (hregs : a.RegsOk)
    (hform : a.FmtOk) : Units.IsUnit moreBytes c.bytes := by
  cases h with
  | word hfmt hreq henc =>
    exact isUnit_word (opcode_of_decode (decode_encoded hregs hform hfmt hreq henc))
  | half hfmt hav henc =>
    rw [InstrArgs.FmtOk, if_pos hfmt] at hform
    rw [← hform.2] at henc
    have hlt := quadrant_lt a.op
    refine isUnit_half ?_
    rw [quadrant_cEncodeInstruction hform.1 henc]
    omega

end

def IrEntry.callBytes (cfg : Config) (t : SymTab) (e : IrEntry) : List UInt8 :=
  ((e.call cfg t).toOption.getD []).flatMap SinkCall.bytes

theorem sectionBytes_flatMap (s cur : Section) {cs : List SinkCall}
    (h : ∀ c ∈ cs, ∀ s, c.next s = s) :
    sectionBytes s cur cs = if cur = s then cs.flatMap SinkCall.bytes else [] := by
  induction cs with
  | nil => simp [sectionBytes]
  | cons c cs ih =>
    obtain ⟨hc, hcs⟩ := List.forall_mem_cons.mp h
    rw [sectionBytes, hc cur, ih hcs]
    split_ifs
    · rw [List.flatMap_cons]
    · rfl

theorem IrEntry.call_next {cfg : Config} {t : SymTab} {e : IrEntry} {cs : List SinkCall}
    (h : e.call cfg t = .ok cs) : ∀ c ∈ cs, ∀ s, c.next s = s := by
  cases hk : e.kind with
  | align =>
    simp only [IrEntry.call, hk] at h
    cases h
    split_ifs <;> simp [SinkCall.next]
  | data =>
    simp only [IrEntry.call, hk] at h
    split_ifs at h
    cases h
    simp [SinkCall.next]
  | instr =>
    obtain ⟨c, hi, rfl⟩ := (IrEntry.call_instr hk).mp h
    simpa using (instrCall_eq_ok hi).2.2.1

theorem sectionBytes_enterCalls {cfg : Config} {t : SymTab} {e : IrEntry} {cs : List SinkCall}
    (h : e.call cfg t = .ok cs) (s cur : Section) :
    sectionBytes s cur (enterCalls cur e cs) =
        (if e.sect = s then cs.flatMap SinkCall.bytes else []) ∧
      (enterCalls cur e cs).foldl SinkCall.next cur = e.sect := by
  have hnext := IrEntry.call_next h
  have hstay : ∀ cur, cs.foldl SinkCall.next cur = cur := fun cur => by
    clear h
    induction cs with
    | nil => rfl
    | cons c cs ih =>
      obtain ⟨hc, hcs⟩ := List.forall_mem_cons.mp hnext
      rw [List.foldl_cons, hc cur]
      exact ih hcs
  refine ⟨?_, enterCalls_next cur e hstay⟩
  rw [enterCalls]
  split_ifs with hs hsect hsect
  · rw [List.cons_append, List.nil_append, sectionBytes, SinkCall.next,
      sectionBytes_flatMap s e.sect hnext, if_pos hsect]
    split_ifs <;> rfl
  · rw [List.cons_append, List.nil_append, sectionBytes, SinkCall.next,
      sectionBytes_flatMap s e.sect hnext, if_neg hsect]
    split_ifs <;> rfl
  · rw [List.nil_append, sectionBytes_flatMap s cur hnext, ← not_not.mp hs, if_pos hsect]
  · rw [List.nil_append, sectionBytes_flatMap s cur hnext, ← not_not.mp hs, if_neg hsect]

theorem sectionBytes_allCalls {cfg : Config} {t : SymTab} {ir : List IrEntry}
    (h : ∀ e ∈ ir, ∃ cs, e.call cfg t = .ok cs) (s cur : Section) :
    sectionBytes s cur (allCalls cfg t cur ir) =
      (ir.filter fun e => e.sect = s).flatMap (IrEntry.callBytes cfg t) := by
  induction ir generalizing cur with
  | nil => rfl
  | cons e es ih =>
    obtain ⟨⟨cs, hc⟩, hes⟩ := List.forall_mem_cons.mp h
    obtain ⟨hbytes, hsect⟩ := sectionBytes_enterCalls hc s cur
    rw [allCalls, hc, sectionBytes_append]
    simp only [Except.toOption, Option.getD_some]
    rw [hbytes, hsect, ih hes]
    by_cases hs : e.sect = s
    · rw [if_pos hs, List.filter_cons_of_pos (by simpa using hs), List.flatMap_cons,
        IrEntry.callBytes, hc]
      rfl
    · rw [if_neg hs, List.filter_cons_of_neg (by simpa using hs), List.nil_append]

/-- What a successful run writes to a section. -/
theorem pass2Run_writes {cfg : Config} {t : SymTab} {ops : FileOps} {out : OutCtx}
    {ir : List IrEntry} (h : ∀ e ∈ ir, e.Fresh)
    (hrun : (pass2Run cfg t ops (pass2Start out) ir).2 = true) (s : Section) :
    sectionBytes s .text (pass2Run cfg t ops (pass2Start out) ir).1.calls =
      ((pass2Layout cfg t ir).filter fun e => e.sect = s).flatMap (IrEntry.callBytes cfg t) := by
  rw [(pass2Run_leaves h hrun).2.1]
  have hcalls := (pass2Run_written h hrun).1
  cases hlay : pass2Layout cfg t ir with
  | nil => rfl
  | cons e es =>
    rw [hlay] at hcalls
    rw [outputCalls, sectionBytes, SinkCall.next, sectionBytes_allCalls hcalls]
    split_ifs <;> rfl

def IrEntry.EmitsUnit (cfg : Config) (t : SymTab) (e : IrEntry) (u : List UInt8) : Prop :=
  ∃ c, e.call cfg t = .ok [c] ∧ u = c.bytes ∧
    ((∃ w : BitVec 32, c = .word w) ∨ ∃ h : BitVec 16, c = .half h)

theorem IrEntry.Built.emitsUnit {cfg : Config} {t : SymTab} {e : IrEntry} (hb : e.Built)
    (hm : e.Mapped cfg) (hk : e.kind = .instr) (h : ∃ cs, e.call cfg t = .ok cs) :
    e.EmitsUnit cfg t (e.callBytes cfg t) ∧ Units.IsUnit moreBytes (e.callBytes cfg t) := by
  obtain ⟨cs, hcall⟩ := h
  obtain ⟨c, hc, rfl⟩ := (IrEntry.call_instr hk).mp hcall
  obtain ⟨imm, -, henc⟩ := instrCall_encoded hc
  obtain ⟨hregs, hform⟩ := hb.nodeArgs_ok hm hk
  have hbytes : e.callBytes cfg t = c.bytes := by
    rw [IrEntry.callBytes, hcall]
    exact List.append_nil _
  rw [hbytes]
  refine ⟨⟨c, hcall, rfl, ?_⟩, henc.isUnit hregs hform⟩
  cases henc with
  | word => exact .inl ⟨_, rfl⟩
  | half => exact .inr ⟨_, rfl⟩

/-- Where `.text` holds instructions only, the bytes written to it split into one unit for each
of its entries, in their order. -/
theorem stream_delimits_itself (cfg : Config) (ops : FileOps) (out : OutCtx) (prog : Program)
    (hinstr : ∀ e ∈ (pass1Run prog).ir, e.sect = .text → e.kind = .instr)
    (hrun : (pass2Run cfg (pass1Run prog).symtab ops (pass2Start out) (pass1Run prog).ir).2 = true) :
    ∃ units, Units.split moreBytes (sectionBytes .text .text (pass2Run cfg (pass1Run prog).symtab
        ops (pass2Start out) (pass1Run prog).ir).1.calls) = some units ∧
      List.Forall₂ (IrEntry.EmitsUnit cfg (pass1Run prog).symtab)
        ((pass2Layout cfg (pass1Run prog).symtab (pass1Run prog).ir).filter fun e =>
          e.sect = .text) units := by
  have hfresh := (pass1Run_good prog).ir
  have hcalls := (pass2Run_written hfresh hrun).1
  have hbuilt := pass2Layout_built cfg prog
  have hmapped := pass2Layout_mapped cfg (pass1Run prog).symtab hfresh
  have hcore := (pass2Layout_laidOut cfg (pass1Run prog).symtab hfresh).2
  rw [pass2Run_writes hfresh hrun]
  generalize pass2Layout cfg (pass1Run prog).symtab (pass1Run prog).ir = lay at *
  -- whatever stands in `.text` is an instruction and comes to one unit
  have hunit : ∀ e ∈ lay.filter fun e => e.sect = .text,
      e.EmitsUnit cfg (pass1Run prog).symtab (e.callBytes cfg (pass1Run prog).symtab) ∧
        Units.IsUnit moreBytes (e.callBytes cfg (pass1Run prog).symtab) := by
    intro e he
    obtain ⟨he, hs⟩ := List.mem_filter.mp he
    obtain ⟨e', he', heq⟩ := exists_core_of_mem hcore he
    have hk := hinstr e' he' ((IrEntry.sect_eq_of_core heq).symm.trans
      (by simpa using hs))
    exact (hbuilt e he).emitsUnit (hmapped e he)
      ((IrEntry.kind_eq_of_core heq).trans hk) (hcalls e he)
  refine ⟨_, ?_, List.forall₂_map_right_iff.mpr (List.forall₂_same.mpr fun e he => (hunit e he).1)⟩
  rw [List.flatMap_def]
  exact Units.split_flatten (List.forall_mem_map.mpr fun e he => (hunit e he).2)

theorem stream_delimits_itself_countdown :
    (pass2Layout (passSetArch 32 false true true) (pass1Run countdown).symtab
        (pass1Run countdown).ir).map IrEntry.emitted = [2, 4, 2, 2] ∧
      ∃ units, Units.split moreBytes (sectionBytes .text .text (pass2Run
          (passSetArch 32 false true true) (pass1Run countdown).symtab allOps
          (pass2Start (outSetFile (outBegin .elf 32) {})) (pass1Run countdown).ir).1.calls) =
            some units ∧
        List.Forall₂
          (IrEntry.EmitsUnit (passSetArch 32 false true true) (pass1Run countdown).symtab)
          ((pass2Layout (passSetArch 32 false true true) (pass1Run countdown).symtab
            (pass1Run countdown).ir).filter fun e => e.sect = .text) units :=
  ⟨by decide +kernel, stream_delimits_itself (passSetArch 32 false true true) allOps
    (outSetFile (outBegin .elf 32) {}) countdown (by decide +kernel) (by decide +kernel)⟩

end RvAssembler
