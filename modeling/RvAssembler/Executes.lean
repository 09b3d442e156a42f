import RvAssembler.LoadAddress
import RvAssembler.Meaning

namespace RvAssembler

open Bits Bytes

/-- The operands whose halfword reads back as what it was encoded from. -/
def CExact (op : Opcode) (rs2 imm : ℤ) : Prop :=
  if isCAlu op then CAluExact op imm
  else if isCMem op then CMemExact op rs2 imm
  else if op = .cBeqz ∨ op = .cBnez then imm / 64 % 4 = imm / 8 % 4
  else (imm / 32 % 64 = 0 ∨ imm / 32 % 64 = 63) ∧ (imm / 2 % 16 = 0 ∨ imm / 2 % 16 = 15)

instance (op : Opcode) (rs2 imm : ℤ) : Decidable (CMemExact op rs2 imm) := by
  unfold CMemExact
  split <;> infer_instance

instance (op : Opcode) (rs2 imm : ℤ) : Decidable (CExact op rs2 imm) := by
  unfold CExact CAluExact
  infer_instance

theorem decodeC_of_memExact {cfg : Config} {op : Opcode} {rd rs1 rs2 imm line : ℤ} {w : BitVec 16}
    (hop : isCMem op = true) (hd : IsReg rd) (h2 : IsReg rs2) (hexact : CMemExact op rs2 imm)
    (h : cEncodeInstruction cfg op (cEncodingTable op).fmt rd rs1 rs2 imm line = .ok w) :
    decodeC cfg.xlen w = some (op, cOperandsOf op rd rs1 rs2 imm) := by
  simp only [isCMem, Bool.or_eq_true, decide_eq_true_eq] at hop
  obtain ((((((rfl | rfl) | rfl) | rfl) | rfl) | rfl) | rfl) | rfl := hop
  · exact (encodeCltype_exact_iff cfg rd rs1 rs2 imm line (.inl rfl)).mpr (fun _ => hexact) w h
  · exact (encodeCltype_exact_iff cfg rd rs1 rs2 imm line (.inr rfl)).mpr (fun _ => hexact) w h
  · exact (encodeCstype_exact_iff cfg rd rs1 rs2 imm line (.inl rfl)).mpr (fun _ => hexact) w h
  · exact (encodeCstype_exact_iff cfg rd rs1 rs2 imm line (.inr rfl)).mpr (fun _ => hexact) w h
  · exact (encodeCitype_load_exact_iff cfg rd rs1 rs2 imm line (.inl rfl) hd).mpr
      (fun _ => hexact) w h
  · exact (encodeCitype_load_exact_iff cfg rd rs1 rs2 imm line (.inr rfl) hd).mpr
      (fun _ => hexact) w h
  · exact (encodeCsstype_exact_iff cfg rd rs1 rs2 imm line (.inl rfl) h2).mpr
      (fun _ => hexact) w h
  · exact (encodeCsstype_exact_iff cfg rd rs1 rs2 imm line (.inr rfl) h2).mpr
      (fun _ => hexact) w h

theorem decodeC_of_exact {cfg : Config} {op : Opcode} {rd rs1 rs2 imm line : ℤ} {w : BitVec 16}
    (hop : (cEncodingTable op).needsC = true) (hd : IsReg rd) (h1 : IsReg rs1) (h2 : IsReg rs2)
    (hexact : CExact op rs2 imm)
    (h : cEncodeInstruction cfg op (cEncodingTable op).fmt rd rs1 rs2 imm line = .ok w) :
    decodeC cfg.xlen w = some (op, cOperandsOf op rd rs1 rs2 imm) := by
  rw [CExact] at hexact
  split_ifs at hexact with halu hmem hb
  · obtain ⟨hl, rfl⟩ := (cEncodeAlu_ok halu).mp h
    exact decodeC_cAluHalf halu hexact.1 hd h1 h2 hl
  · exact decodeC_of_memExact hmem hd h2 hexact h
  · have hfmt : (cEncodingTable op).fmt = .cb := by obtain rfl | rfl := hb <;> rfl
    rw [hfmt] at h
    obtain ⟨-, -, heven, hlo, hhi⟩ := encodeCbtype_accepts.mp ⟨w, h⟩
    rw [encodeCbtype_reads hb h, (cb_offset_eq_iff heven hlo hhi).mpr hexact]
    obtain rfl | rfl := hb <;> rfl
  · have hj : op = .cJ ∨ op = .cJal := by
      cases op <;> simp_all [isCAlu, isCMem, cEncodingTable]
    have hfmt : (cEncodingTable op).fmt = .cj := by obtain rfl | rfl := hj <;> rfl
    rw [hfmt] at h
    obtain ⟨-, heven, hlo, hhi⟩ := encodeCjtype_accepts.mp ⟨w, h⟩
    rw [encodeCjtype_reads hj h, (cj_offset_eq_iff heven hlo hhi).mpr hexact]
    obtain rfl | rfl := hj <;> rfl

theorem fetch_word {w : ℕ} {m : Mem w} {a : BitVec w} {word : BitVec 32}
    {r : Opcode × Operands} (h : m.Holds a (le 4 word.toNat)) (hdec : decode w word = some r) :
    fetch m a = some (4, r) := by
  have hfirst : (m a).toNat % 4 = 3 := by
    have hlow := (opcode_of_decode hdec).1
    rw [h.head, UInt8.toNat_ofNat']
    simp only [field, Nat.shiftRight_zero] at hlow
    omega
  have hload : BitVec.ofNat 32 (m.load 4 a) = word := by
    rw [Mem.load_of_holds h, Nat.mod_eq_of_lt (by have := word.isLt; omega), BitVec.ofNat_toNat,
      BitVec.setWidth_eq]
  rw [fetch, if_pos hfirst, hload, hdec]
  rfl

theorem fetch_half {w : ℕ} {m : Mem w} {a : BitVec w} {half : BitVec 16}
    {r : Opcode × COperands} (h : m.Holds a (le 2 half.toNat)) (hq : field half 0 2 ≠ 3)
    (hdec : decodeC w half = some r) : fetch m a = (expandC r).map (2, ·) := by
  have hfirst : (m a).toNat % 4 ≠ 3 := by
    rw [h.head, UInt8.toNat_ofNat']
    simp only [field, Nat.shiftRight_zero] at hq
    omega
  have hload : BitVec.ofNat 16 (m.load 2 a) = half := by
    rw [Mem.load_of_holds h, Nat.mod_eq_of_lt (by have := half.isLt; omega), BitVec.ofNat_toNat,
      BitVec.setWidth_eq]
  rw [fetch, if_neg hfirst, hload, hdec]
  rfl

/-- A unit in memory is fetched as the machine instruction of the call it comes from. -/
theorem Encoded.fetch_eq {cfg : Config} {a : InstrArgs} {imm line : ℤ} {c : SinkCall}
    (h : Encoded cfg a imm line c) (hregs : a.RegsOk) (hform : a.FmtOk)
    (hexact : isCFmt a.fmt = true → CExact a.op a.rs2 imm) {m : Mem cfg.xlen}
    {pc : BitVec cfg.xlen} (hm : m.Holds pc c.bytes) :
    fetch m pc = (a.machine imm).map (c.bytes.length, ·) := by
  cases h with
  | @half half hfmt hav henc =>
    obtain ⟨hd, h1, h2⟩ := hregs
    rw [InstrArgs.FmtOk, if_pos hfmt] at hform
    rw [← hform.2] at henc
    have hlt := quadrant_lt a.op
    have hq : field half 0 2 ≠ 3 := by
      rw [quadrant_cEncodeInstruction hform.1 henc]
      omega
    rw [fetch_half hm hq (decodeC_of_exact hform.1 hd h1 h2 (hexact hfmt) henc),
      InstrArgs.machine, if_pos hfmt]
    rfl
  | @word word hfmt hreq henc =>
    rw [fetch_word hm (decode_encoded hregs hform hfmt hreq henc), InstrArgs.machine,
      if_neg (by rw [hfmt]; decide)]
    rfl

theorem IrEntry.attempted_of_chosen {cfg : Config} {e : IrEntry} (hb : e.Built) (hs : e.Sound)
    (hm : e.Mapped cfg) (hlo : e.reloc ≠ .lo12) (hc : e.hasCChoice = true) : e.Attempted cfg := by
  have hch := hs.chosen hc
  obtain ⟨i, hi⟩ := hb hch.kind
  have hfmt : isCFmt e.fmt = false := by
    have hforced := hs.forced hch.kind
    rw [hch.auto] at hforced
    by_contra hC
    rw [if_pos (by simpa using hC)] at hforced
    cases hforced
  have hform := i.fmtOk_emits _ hi
  rw [InstrArgs.FmtOk, if_neg (by rw [show e.args.fmt = e.fmt from rfl, hfmt]; decide)] at hform
  have hC := (hm hc).1
  rw [Config.compresses, Bool.and_eq_true] at hC
  exact ⟨hform, i.baseShape_emits _ hi, hlo, hC.1⟩

theorem CRule.machine {cfg : Config} {n : IrEntry} {ch : CChoice} (h : CRule cfg n ch)
    (hn : n.Attempted cfg) {imm : ℤ} (himm : isPcRel ch.op = false → imm = ch.imm) :
    InstrArgs.machine
        { op := ch.op, fmt := ch.fmt, rd := ch.rd, rs1 := ch.rs1, rs2 := ch.rs2 } imm =
      n.args.machine (if isPcRel ch.op then imm else n.args.imm) := by
  have hexp := h.expand hn
  cases h with
  | ca hop =>
    obtain ⟨-, rfl⟩ | ⟨-, rfl⟩ | ⟨-, rfl⟩ | ⟨-, rfl⟩ := hop <;>
      rw [← Option.some.inj hexp] <;> rfl
  | caw h64 hop => obtain ⟨-, rfl⟩ | ⟨-, rfl⟩ := hop <;> rw [← Option.some.inj hexp] <;> rfl
  | branchz hop => obtain ⟨-, rfl⟩ | ⟨-, rfl⟩ := hop <;> rw [← Option.some.inj hexp] <;> rfl
  | jump hop hrd =>
    obtain ⟨hrd, rfl⟩ | ⟨hrd, rfl, -⟩ := hrd <;> rw [← Option.some.inj hexp] <;> rfl
  | _ =>
    obtain rfl := himm rfl
    rw [← Option.some.inj hexp]
    rfl

theorem CChoice.label_of_expand {ch : CChoice} {a : InstrArgs} (h : ch.expand = some a) :
    a.label = ch.label := by
  simp only [CChoice.expand] at h
  split at h <;> cases h <;> rfl

/-- Without a label nothing changes the offset of a chosen branch or jump. -/
def IrEntry.KeepsOffset (e : IrEntry) : Prop :=
  e.label = none → e.reloc = .none ∧
    (e.hasCChoice = true → isPcRel e.choice.op = true →
      e.choice.label = none ∧ e.choice.reloc = .none ∧ e.choice.imm = e.imm)

theorem IrEntry.KeepsOffset.plan {e : IrEntry} (h : e.KeepsOffset) (cfg : Config) :
    (planEntry cfg e).KeepsOffset := by
  rw [planEntry]
  split_ifs
  · exact h
  · cases hmap : cTryMap cfg e with
    | none => exact fun hl => ⟨(h hl).1, fun hc => by cases hc⟩
    | some ch =>
      refine fun hl => ⟨(h hl).1, fun _ hpc => ?_⟩
      obtain ⟨himm, hlabel, hreloc⟩ := (cTryMap_for hmap).operand hpc
      exact ⟨hlabel.trans hl, hreloc.trans (h hl).1, himm⟩

theorem IrEntry.KeepsOffset.validate {e : IrEntry} (h : e.KeepsOffset) (t : SymTab) :
    (validateEntry t .text e).1.KeepsOffset := by
  by_cases hl : e.label = none
  · rw [validateEntry]
    split_ifs with hsect hc
    · exact h
    · exact h
    · rw [validateChoice]
      split_ifs with hpc
      · exact h
      · obtain ⟨hlabel, hreloc, -⟩ := (h hl).2 (by simpa using hc) (by simpa using hpc)
        have hno : choiceTarget t e = none := by simp [choiceTarget, hlabel, hreloc]
        rw [hno]
        exact h
  · obtain hsame | ⟨-, -, hdrop | ⟨imm, haim⟩⟩ := validateEntry_cases t .text e
    · rw [hsame]
      exact h
    · rw [hdrop]
      exact fun hno => absurd hno hl
    · rw [haim]
      exact fun hno => absurd hno hl

theorem pass2Layout_keepsOffset (cfg : Config) (t : SymTab) {ir : List IrEntry}
    (h : ∀ e ∈ ir, e.Fresh) : ∀ e ∈ pass2Layout cfg t ir, e.KeepsOffset :=
  pass2Layout_induction cfg t (fun _ _ _ h => h) (fun _ h => h.plan cfg)
    (fun _ h => h.validate t) fun e he hl =>
      ⟨(h e he).noLabel hl, fun hc => by rw [(h e he).noChoice] at hc; cases hc⟩

structure IrEntry.Final (cfg : Config) (e : IrEntry) : Prop where
  built : e.Built
  sound : e.Sound
  mapped : e.Mapped cfg
  parts : e.reloc = .hi20 ∨ e.reloc = .lo12 → e.hasCChoice = false
  offset : e.KeepsOffset

theorem pass2Layout_final (cfg : Config) (prog : Program) :
    ∀ e ∈ pass2Layout cfg (pass1Run prog).symtab (pass1Run prog).ir, e.Final cfg := by
  have hfresh := (pass1Run_good prog).ir
  intro e he
  exact {
    built := pass2Layout_built cfg prog e he
    sound := (pass2Layout_laidOut cfg (pass1Run prog).symtab hfresh).1.sound e he
    mapped := pass2Layout_mapped cfg (pass1Run prog).symtab hfresh e he
    parts := pass2Layout_parts cfg (pass1Run prog).symtab hfresh e he
    offset := pass2Layout_keepsOffset cfg (pass1Run prog).symtab hfresh e he }

/-- If an entry is emitted as a halfword, its operands are ones the encoder gets right. -/
def IrEntry.ReadsBack (t : SymTab) (e : IrEntry) : Prop :=
  ∀ d, encoderImm t (nodeArgs e) e.addr e.line = .ok d → isCFmt (nodeArgs e).fmt = true →
    CExact (nodeArgs e).op (nodeArgs e).rs2 d

instance (t : SymTab) (e : IrEntry) : Decidable (e.ReadsBack t) :=
  decidable_of_iff (∀ d ∈ (encoderImm t (nodeArgs e) e.addr e.line).toOption,
    isCFmt (nodeArgs e).fmt = true → CExact (nodeArgs e).op (nodeArgs e).rs2 d) (by
      unfold IrEntry.ReadsBack
      cases encoderImm t (nodeArgs e) e.addr e.line <;> simp [Except.toOption])

/-- The call of an entry is the machine instruction recorded for the entry, with the offset it
is encoded with for a label. -/
theorem IrEntry.Final.machine {cfg : Config} {t : SymTab} {e : IrEntry} (h : e.Final cfg) {d : ℤ}
    (hd : encoderImm t (nodeArgs e) e.addr e.line = .ok d) :
    ∃ imm, (e.label = none → imm = e.imm) ∧ (e.label ≠ none → imm = d) ∧
      (nodeArgs e).machine d = e.args.machine imm := by
  cases hc : e.hasCChoice with
  | false =>
    rw [IrEntry.nodeArgs_of_noChoice hc] at hd ⊢
    refine ⟨d, fun hl => ?_, fun _ => rfl, rfl⟩
    rw [encoderImm, show ({ e.args with imm := _ } : InstrArgs).label = none from hl] at hd
    rw [← Except.ok.inj hd, hl]
    rfl
  | true =>
    obtain ⟨-, ch, x, hmap, hform, hplain⟩ := h.mapped hc
    have hch := h.sound.chosen hc
    have hrule := cTryMap_rule hmap
    have hatt := IrEntry.attempted_of_chosen h.built h.sound h.mapped
      (fun hlo => by rw [h.parts (.inr hlo)] at hc; cases hc) hc
    have hoffset := h.offset
    simp only [IrEntry.KeepsOffset, hc, hform, true_implies] at hoffset
    -- the call of a chosen form has no label left
    have hd' : x = d := by
      have hlabel : isPcRel ch.op = false → ch.label = none := fun hpc => by
        have := (hch.plain (by rw [hform]; exact hpc)).1
        rwa [hform] at this
      cases hpc : isPcRel ch.op with
      | true => simpa [nodeArgs, cMaterialize, hc, hform, hpc, encoderImm] using hd
      | false => simpa [nodeArgs, cMaterialize, hc, hform, hpc, encoderImm, hlabel hpc] using hd
    subst hd'
    have hsame : (nodeArgs e).machine x = InstrArgs.machine
        { op := ch.op, fmt := ch.fmt, rd := ch.rd, rs1 := ch.rs1, rs2 := ch.rs2 } x := by
      simp only [nodeArgs, cMaterialize, hc, hform, ↓reduceIte, InstrArgs.machine]
    rw [hsame, hrule.machine hatt hplain]
    cases hpc : isPcRel ch.op with
    | true => exact ⟨x, fun hl => ((hoffset hl).2 hpc).2.2, fun _ => rfl, rfl⟩
    | false =>
      refine ⟨e.imm, fun _ => rfl, fun hl => ?_, rfl⟩
      have hlabel := CChoice.label_of_expand (hrule.expand hatt)
      exact absurd (hlabel.trans ((cTryMap_for hmap).plain hpc).1) hl

theorem IrEntry.Final.fetch_eq {cfg : Config} {t : SymTab} {e : IrEntry} (h : e.Final cfg)
    (hk : e.kind = .instr) (hcall : ∃ cs, e.call cfg t = .ok cs) (hexact : e.ReadsBack t)
    {m : Mem cfg.xlen} {pc : BitVec cfg.xlen} (hm : m.Holds pc (e.callBytes cfg t)) :
    ∃ d imm, encoderImm t (nodeArgs e) e.addr e.line = .ok d ∧
      (e.label = none → imm = e.imm) ∧ (e.label ≠ none → imm = d) ∧
      fetch m pc = (e.args.machine imm).map ((e.callBytes cfg t).length, ·) := by
  obtain ⟨cs, hcs⟩ := hcall
  obtain ⟨c, hc, rfl⟩ := (IrEntry.call_instr hk).mp hcs
  obtain ⟨d, hd, henc⟩ := instrCall_encoded hc
  obtain ⟨hregs, hform⟩ := h.built.nodeArgs_ok h.mapped hk
  obtain ⟨imm, hnone, hsome, hsame⟩ := h.machine hd
  have hbytes : e.callBytes cfg t = c.bytes := by
    rw [IrEntry.callBytes, hcs]
    exact List.append_nil _
  refine ⟨d, imm, hd, hnone, hsome, ?_⟩
  rw [hbytes] at hm ⊢
  rw [henc.fetch_eq hregs hform (hexact d hd) hm, hsame]

end RvAssembler
