import RvAssembler.Encoding
import RvAssembler.Decode

namespace RvAssembler

open Bits

theorem field_at32 {k lo a len : ℕ} (x : BitVec 32) (h1 : lo ≤ a) (h2 : a + len ≤ lo + k)
    (h3 : a + len ≤ 32) : field (at32 k lo x) a len = field x (a - lo) len :=
  field_low_shl x h1 h2 h3

theorem field_at32_below {k lo a len : ℕ} (x : BitVec 32) (h : a + len ≤ lo) :
    field (at32 k lo x) a len = 0 := field_shl_zero _ h

theorem field_at32_above {k lo a len : ℕ} (x : BitVec 32) (h1 : lo + k ≤ a)
    (h2 : a + len ≤ 32) : field (at32 k lo x) a len = 0 := field_low_shl_above x h1 h2

theorem field_tag32 {k lo : ℕ} (n : ℕ) (h : lo + k ≤ 32) (hn : n < 2 ^ k) :
    field (tag32 k lo n) lo k = n := by
  have hk : 2 ^ k ≤ 2 ^ 32 := Nat.pow_le_pow_right (by decide) (by omega)
  rw [tag32, field_at32 _ le_rfl le_rfl h, Nat.sub_self, field_ofNat, Nat.shiftRight_zero,
    Nat.mod_eq_of_lt (show n < 2 ^ 32 by omega), Nat.mod_eq_of_lt hn]

theorem field_tag32_below {k lo a len : ℕ} (n : ℕ) (h : a + len ≤ lo) :
    field (tag32 k lo n) a len = 0 := field_at32_below _ h

theorem field_tag32_above {k lo a len : ℕ} (n : ℕ) (h1 : lo + k ≤ a) (h2 : a + len ≤ 32) :
    field (tag32 k lo n) a len = 0 := field_at32_above _ h1 h2

def IsReg (r : ℤ) : Prop := 0 ≤ r ∧ r < 32

instance (r : ℤ) : Decidable (IsReg r) := inferInstanceAs (Decidable (_ ∧ _))

theorem field_reg32 {lo : ℕ} {r : ℤ} (h : IsReg r) (hlo : lo + 5 ≤ 32) :
    (field (reg32 r lo) lo 5 : ℤ) = r := by
  obtain ⟨h0, h1⟩ := h
  rw [reg32, field_at32 _ le_rfl le_rfl hlo, Nat.sub_self, field_ofInt r (by decide)]
  omega

theorem field_reg32_below {lo a len : ℕ} (r : ℤ) (h : a + len ≤ lo) :
    field (reg32 r lo) a len = 0 := field_at32_below _ h

theorem field_reg32_above {lo a len : ℕ} (r : ℤ) (h1 : lo + 5 ≤ a) (h2 : a + len ≤ 32) :
    field (reg32 r lo) a len = 0 := field_at32_above _ h1 h2

theorem field_imm32 {k lo len : ℕ} (imm : ℤ) (hk : lo + len ≤ k) (h32 : lo + len ≤ 32) :
    (field (imm32 k imm) lo len : ℤ) = imm / 2 ^ lo % 2 ^ len := by
  rw [imm32, field_setWidth _ h32, field_low _ hk, field_ofInt imm (by omega)]

theorem signed_of_emod {n : ℕ} {x : ℤ} {k : ℕ} (hn : (n : ℤ) = x % 2 ^ (k + 1))
    (hlo : -2 ^ k ≤ x) (hhi : x < 2 ^ k) : signed (k + 1) n = x := by
  have h2 : (2 : ℤ) ^ (k + 1) = 2 * 2 ^ k := by ring
  have hlt : n < 2 ^ (k + 1 - 1) ↔ (n : ℤ) < 2 ^ k := by
    rw [Nat.add_sub_cancel]
    exact_mod_cast Iff.rfl
  rw [signed, hn]
  simp only [hlt, hn, h2]
  generalize (2 : ℤ) ^ k = m at hlo hhi
  by_cases hx : 0 ≤ x
  · rw [Int.emod_eq_of_lt hx (by omega), if_pos hhi]
  · have hm : x % (2 * m) = x + 2 * m := by
      rw [← Int.add_emod_right, Int.emod_eq_of_lt (by omega) (by omega)]
    rw [hm, if_neg (by omega)]
    omega

/-- The format the grammar pairs a base or M opcode with. -/
def baseFmt : Opcode → Option IrFmt
  | .add | .sub | .sll | .slt | .sltu | .xor | .srl | .sra | .or | .and
  | .mul | .mulh | .mulhsu | .mulhu | .div | .divu | .rem | .remu
  | .addw | .subw | .sllw | .srlw | .sraw | .mulw | .divw | .divuw | .remw | .remuw => some .r
  | .addi | .slli | .lw | .slti | .sltiu | .xori | .ori | .andi | .srli | .srai | .jalr
  | .lb | .lh | .lbu | .lhu | .ecall | .ebreak | .addiw | .slliw | .srliw | .sraiw
  | .lwu | .ld => some .i
  | .auipc | .lui => some .ui
  | .sw | .sh | .sb | .sd => some .s
  | .beq | .bne | .blt | .bge | .bltu | .bgeu => some .b
  | .jal => some .j
  | _ => none

theorem isCFmt_of_baseFmt {op : Opcode} {fmt : IrFmt} (hfmt : baseFmt op = some fmt) :
    isCFmt fmt = false := by
  have h : (baseFmt op).all (fun f => !isCFmt f) := by cases op <;> rfl
  simpa [hfmt] using h

/-- The immediates an instruction can carry. -/
def LegalImm (xlen : ℕ) (op : Opcode) (fmt : IrFmt) (imm : ℤ) : Prop :=
  match fmt with
  | .i =>
    if isSystem op then True
    else if isWordShift op then 0 ≤ imm ∧ imm ≤ 31
    else if isShiftImm op then 0 ≤ imm ∧ imm < xlen
    else -2048 ≤ imm ∧ imm ≤ 2047
  | .s => -2048 ≤ imm ∧ imm ≤ 2047
  | .b => imm % 2 = 0 ∧ -4096 ≤ imm ∧ imm ≤ 4094
  | .j => imm % 2 = 0 ∧ -1048576 ≤ imm ∧ imm ≤ 1048574
  | .ui => imm % 4096 = 0 ∧ -2 ^ 31 ≤ imm ∧ imm < 2 ^ 31
  | _ => True

def operandsOf (op : Opcode) (fmt : IrFmt) (rd rs1 rs2 imm : ℤ) : Operands :=
  match fmt with
  | .r => .r rd rs1 rs2
  | .i => if isSystem op then .none else .i rd rs1 imm
  | .s => .s rs1 rs2 imm
  | .b => .b rs1 rs2 imm
  | .j => .j rd imm
  | .ui => .u rd imm
  | _ => .none

def isRv64 : Opcode → Bool
  | .addw | .subw | .sllw | .srlw | .sraw | .addiw | .srliw | .sraiw | .slliw | .lwu | .ld | .sd
  | .mulw | .divw | .divuw | .remw | .remuw => true
  | _ => false

theorem requireXlen_ok {cfg : Config} {need : ℕ} {line : ℤ} :
    requireXlen cfg need line = .ok () ↔ cfg.xlen = need := by
  by_cases h : cfg.xlen = need <;> simp [requireXlen, h]

theorem xlen_of_requireForOp {cfg : Config} {op : Opcode} {line : ℤ}
    (h : requireForOp cfg op line = .ok ()) (hop : isRv64 op) : cfg.xlen = 64 := by
  cases op <;> simp only [isRv64, Bool.false_eq_true] at hop <;>
    simp only [requireForOp] at h <;> first
    | exact requireXlen_ok.mp h
    | (cases hM : requireM cfg line with
        | error e => simp [hM, bind, Except.bind] at h
        | ok u => exact requireXlen_ok.mp (by simpa [hM, bind, Except.bind] using h))

theorem encodingTable_lt (op : Opcode) : (encodingTable op).opcode < 2 ^ 7 ∧
    (encodingTable op).funct3 < 2 ^ 3 ∧ (encodingTable op).funct7 < 2 ^ 7 := by
  cases op <;> decide

theorem encodeRtype_fields (op : Opcode) {rd rs1 rs2 : ℤ} (hd : IsReg rd) (h1 : IsReg rs1)
    (h2 : IsReg rs2) :
    argsR (encodeRtype op rd rs1 rs2) = .r rd rs1 rs2 ∧
      field (encodeRtype op rd rs1 rs2) 0 7 = (encodingTable op).opcode ∧
      field (encodeRtype op rd rs1 rs2) 12 3 = (encodingTable op).funct3 ∧
      field (encodeRtype op rd rs1 rs2) 25 7 = (encodingTable op).funct7 := by
  obtain ⟨ho, h3, h7⟩ := encodingTable_lt op
  simp (disch := omega) only [encodeRtype, argsR, rdOf, rs1Of, rs2Of, field_or, field_reg32_below,
    field_reg32_above, field_reg32, field_tag32, field_tag32_below, field_tag32_above,
    Nat.zero_or, Nat.or_zero, true_and]

theorem regOp_encodingTable (op : Opcode) (hfmt : baseFmt op = some .r) :
    let info := encodingTable op
    (info.opcode = 0x33 ∧ regOp info.funct7 info.funct3 = some op) ∨
      (info.opcode = 0x3B ∧ isRv64 op ∧ regOpW info.funct7 info.funct3 = some op) := by
  revert hfmt
  cases op <;> decide

theorem decode_encodeRtype {xlen : ℕ} {op : Opcode} {rd rs1 rs2 : ℤ} (hfmt : baseFmt op = some .r)
    (hx : isRv64 op → xlen = 64) (hd : IsReg rd) (h1 : IsReg rs1) (h2 : IsReg rs2) :
    decode xlen (encodeRtype op rd rs1 rs2) = some (op, .r rd rs1 rs2) := by
  obtain ⟨hargs, ho, h3, h7⟩ := encodeRtype_fields op hd h1 h2
  simp only [decode, ho, h3, h7, hargs]
  rcases regOp_encodingTable op hfmt with ⟨h, hop⟩ | ⟨h, h64, hop⟩
  · simp only [h, hop, Option.map_some]
  · simp only [h, hop, hx h64, ↓reduceIte, Option.map_some]

theorem encodeItype_fields (op : Opcode) {rd rs1 imm : ℤ} (hd : IsReg rd) (h1 : IsReg rs1)
    (hlo : -2048 ≤ imm) (hhi : imm ≤ 2047) :
    let w := imm32 12 imm <<< 20 ||| reg32 rs1 15 ||| tag32 3 12 (encodingTable op).funct3 |||
      reg32 rd 7 ||| tag32 7 0 (encodingTable op).opcode
    argsI w = .i rd rs1 imm ∧ field w 0 7 = (encodingTable op).opcode ∧
      field w 12 3 = (encodingTable op).funct3 := by
  intro w
  obtain ⟨ho, h3, -⟩ := encodingTable_lt op
  have himm : (field w 20 12 : ℤ) = imm % 2 ^ 12 := by
    simp (disch := omega) only [w, field_or, field_shl, field_reg32_above, field_tag32_above,
      Nat.or_zero, field_imm32]
    norm_num
  have hsigned : immI w = imm := signed_of_emod himm (by omega) (by omega)
  refine ⟨?_, ?_, ?_⟩
  · simp (disch := omega) only [argsI, hsigned, rdOf, rs1Of, w, field_or, field_shl_zero,
      field_reg32_below, field_reg32_above, field_reg32, field_tag32_below, field_tag32_above,
      Nat.zero_or, Nat.or_zero]
  · simp (disch := omega) only [w, field_or, field_shl_zero, field_reg32_below, field_tag32_below,
      field_tag32, Nat.zero_or]
  · simp (disch := omega) only [w, field_or, field_shl_zero, field_reg32_below, field_reg32_above,
      field_tag32_above, field_tag32, Nat.zero_or, Nat.or_zero]

theorem immOp_encodingTable (op : Opcode) (hfmt : baseFmt op = some .i) (hsh : isShiftImm op = false)
    (hsys : isSystem op = false) :
    let info := encodingTable op
    (info.opcode = 0x03 ∧ loadOp true info.funct3 = some op ∧
        (loadOp false info.funct3 = some op ∨ isRv64 op)) ∨
      (info.opcode = 0x13 ∧ immOp info.funct3 = some op ∧ ¬ (info.funct3 = 1 ∨ info.funct3 = 5)) ∨
      (info.opcode = 0x1B ∧ isRv64 op ∧ info.funct3 = 0 ∧ op = .addiw) ∨
      (info.opcode = 0x67 ∧ info.funct3 = 0 ∧ op = .jalr) := by
  revert hfmt hsh hsys
  cases op <;> decide

theorem decode_encodeItype_imm {xlen : ℕ} {op : Opcode} {rd rs1 imm : ℤ}
    (hfmt : baseFmt op = some .i) (hsh : isShiftImm op = false)
    (hsys : isSystem op = false) (hx : isRv64 op → xlen = 64) (hd : IsReg rd)
    (h1 : IsReg rs1) (hlo : -2048 ≤ imm) (hhi : imm ≤ 2047) :
    decode xlen (imm32 12 imm <<< 20 ||| reg32 rs1 15 ||| tag32 3 12 (encodingTable op).funct3 |||
      reg32 rd 7 ||| tag32 7 0 (encodingTable op).opcode) = some (op, .i rd rs1 imm) := by
  obtain ⟨hargs, ho, h3⟩ := encodeItype_fields op hd h1 hlo hhi
  simp only [decode, decodeOpImm, decodeOpImm32, ho, h3, hargs]
  rcases immOp_encodingTable op hfmt hsh hsys with
    ⟨h, hop, hop'⟩ | ⟨h, hop, h15⟩ | ⟨h, h64, h0, rfl⟩ | ⟨h, h0, rfl⟩
  · have hload : loadOp (xlen = 64) (encodingTable op).funct3 = some op := by
      by_cases h64 : xlen = 64
      · simpa only [h64, decide_true] using hop
      · simpa only [h64, decide_false] using hop'.resolve_right fun h => h64 (hx h)
    simp only [h, hload, Option.map_some]
  · simp only [h, hop, if_neg h15, Option.map_some]
  · simp only [h, h0, hx h64, ↓reduceIte]
  · simp only [h, h0, ↓reduceIte]

theorem shiftOp_encodingTable (op : Opcode) (hsh : isShiftImm op = true) :
    let info := encodingTable op
    (info.opcode = 0x13 ∧ isWordShift op = false ∧ (info.funct3 = 1 ∨ info.funct3 = 5) ∧
        shiftOp info.funct3 (info.funct7 / 2) = some op ∧ info.funct7 % 2 = 0 ∧
        shiftOp info.funct3 (if op = .srai then 0x10 else info.funct7 % 64) = some op) ∨
      (info.opcode = 0x1B ∧ isWordShift op = true ∧ isRv64 op ∧ info.funct3 ≠ 0 ∧
        shiftOpW info.funct3 info.funct7 = some op) := by
  revert hsh
  cases op <;> decide

def shiftWord (op : Opcode) (b : ℕ) (tag : BitVec 32) (rd rs1 imm : ℤ) : BitVec 32 :=
  at32 (12 - b) (20 + b) tag ||| at32 b 20 (BitVec.ofInt 32 imm) ||| reg32 rs1 15 |||
    tag32 3 12 (encodingTable op).funct3 ||| reg32 rd 7 ||| tag32 7 0 (encodingTable op).opcode

theorem shiftWord_fields (op : Opcode) {b : ℕ} (hb : b ≤ 12) (tag : BitVec 32) {rd rs1 imm : ℤ}
    (hd : IsReg rd) (h1 : IsReg rs1) (hlo : 0 ≤ imm) (hhi : imm < 2 ^ b) :
    let w := shiftWord op b tag rd rs1 imm
    (rdOf w = rd ∧ rs1Of w = rs1 ∧ (field w 20 b : ℤ) = imm) ∧
      field w 0 7 = (encodingTable op).opcode ∧ field w 12 3 = (encodingTable op).funct3 ∧
      field w (20 + b) (12 - b) = field tag 0 (12 - b) := by
  intro w
  obtain ⟨ho, h3, -⟩ := encodingTable_lt op
  have hsha : (field (BitVec.ofInt 32 imm) 0 b : ℤ) = imm := by
    rw [field_ofInt imm (by omega), pow_zero, Int.ediv_one, Int.emod_eq_of_lt hlo hhi]
  refine ⟨⟨?_, ?_, ?_⟩, ?_, ?_, ?_⟩ <;>
    simp (disch := omega) only [w, shiftWord, rdOf, rs1Of, field_or, field_at32, field_at32_below,
      field_at32_above, field_reg32_below, field_reg32_above, field_reg32, field_tag32_below,
      field_tag32_above, field_tag32, Nat.zero_or, Nat.or_zero, Nat.sub_self, hsha]

/-- The tag of a shift with a six-bit amount is not that of the table for `srai`. -/
def shiftTag (op : Opcode) (b : ℕ) : BitVec 32 :=
  if b = 6 ∧ op = .srai then 0x10 else BitVec.ofNat 32 (encodingTable op).funct7

theorem field_shiftTag (op : Opcode) (b : ℕ) : field (shiftTag op b) 0 (12 - b) =
    if b = 6 ∧ op = .srai then 0x10 else (encodingTable op).funct7 % 2 ^ (12 - b) := by
  have h7 : (encodingTable op).funct7 < 2 ^ 7 := (encodingTable_lt op).2.2
  rw [shiftTag]
  split_ifs with hsrai
  · rw [hsrai.1]
    rfl
  · rw [field_ofNat, Nat.shiftRight_zero, Nat.mod_eq_of_lt (show _ < 2 ^ 32 by omega)]

/-- The amount has six bits on RV64, but for the shifts of words, and five otherwise. -/
theorem decode_encodeItype_shift {xlen b : ℕ} {op : Opcode} {rd rs1 imm : ℤ}
    (hsh : isShiftImm op = true) (hx : isRv64 op → xlen = 64)
    (hb : b = if isWordShift op = false ∧ xlen = 64 then 6 else 5) (hd : IsReg rd)
    (h1 : IsReg rs1) (hlo : 0 ≤ imm) (hhi : imm < 2 ^ b) :
    decode xlen (shiftWord op b (shiftTag op b) rd rs1 imm) = some (op, .i rd rs1 imm) := by
  have hb12 : b ≤ 12 := by
    rw [hb]
    split_ifs <;> decide
  have h7 : (encodingTable op).funct7 < 2 ^ 7 := (encodingTable_lt op).2.2
  obtain ⟨⟨hrd, hrs1, hsha⟩, ho, h3, htag⟩ :=
    shiftWord_fields op hb12 (shiftTag op b) hd h1 hlo hhi
  rw [field_shiftTag] at htag
  generalize shiftWord op b (shiftTag op b) rd rs1 imm = w at *
  simp only [decode, ho]
  rcases shiftOp_encodingTable op hsh with ⟨h, hw, h15, hop, heven, hop6⟩ | ⟨h, hw, h64, h0, hop⟩
  · by_cases h64 : xlen = 64
    · obtain rfl : b = 6 := by rw [hb, if_pos ⟨hw, h64⟩]
      simp only [true_and, Nat.reduceAdd, Nat.reduceSub, Nat.reducePow] at htag
      simp only [h, decodeOpImm, h3, if_pos h15, h64, decide_true, ↓reduceIte, htag, hop6, hrd,
        hrs1, hsha, Option.map_some]
    · obtain rfl : b = 5 := by rw [hb, if_neg fun h => h64 h.2]
      have hsplit : field w 25 7 = field w 25 1 + 2 ^ 1 * field w 26 6 := field_add _ 25 1 6
      have hlt := field_lt w 25 1
      have h25 : field w 25 7 = (encodingTable op).funct7 := htag.trans (Nat.mod_eq_of_lt h7)
      simp only [h, decodeOpImm, h3, if_pos h15, h64, decide_false, Bool.false_eq_true, ↓reduceIte,
        show field w 25 1 = 0 by omega, show field w 26 6 = (encodingTable op).funct7 / 2 by omega,
        hop, hrd, hrs1, hsha, Option.map_some]
  · obtain rfl : b = 5 := by rw [hb, if_neg (by simp [hw])]
    have h25 : field w 25 7 = (encodingTable op).funct7 := htag.trans (Nat.mod_eq_of_lt h7)
    simp only [h, hx h64, ↓reduceIte, decodeOpImm32, h3, if_neg h0, h25, hop, hrd, hrs1, hsha,
      Option.map_some]

theorem decode_encodeItype_sys {xlen : ℕ} {op : Opcode} (hsys : isSystem op = true) :
    decode xlen (imm32 12 (if op = .ebreak then 1 else 0) <<< 20 ||| reg32 0 15 |||
      tag32 3 12 (encodingTable op).funct3 ||| reg32 0 7 ||| tag32 7 0 (encodingTable op).opcode) =
      some (op, .none) := by
  obtain rfl | rfl : op = .ebreak ∨ op = .ecall := by simpa [isSystem] using hsys
  all_goals rfl

theorem not_isSystem_of_isShiftImm {op : Opcode} (hsh : isShiftImm op = true) :
    isSystem op = false := by
  revert hsh
  cases op <;> decide

theorem isWordShift_le_isShiftImm {op : Opcode} (hsh : ¬ isShiftImm op = true) :
    isWordShift op = false := by
  revert hsh
  cases op <;> decide

theorem decode_encodeItype {cfg : Config} {op : Opcode} {rd rs1 imm line : ℤ} {w : BitVec 32}
    (hfmt : baseFmt op = some .i) (hx : isRv64 op → cfg.xlen = 64) (hd : IsReg rd)
    (h1 : IsReg rs1) (h : encodeItype cfg op rd rs1 imm line = .ok w) :
    decode cfg.xlen w = some (op, operandsOf op .i rd rs1 0 imm) := by
  by_cases hsh : isShiftImm op = true
  · have hsys := not_isSystem_of_isShiftImm hsh
    simp only [encodeItype, hsh, ↓reduceIte] at h
    simp only [operandsOf, hsys, Bool.false_eq_true, ↓reduceIte]
    by_cases h6 : isWordShift op = false ∧ cfg.xlen = 64
    · simp only [h6.1, h6.2, Bool.false_eq_true, ↓reduceIte, Bool.not_false, decide_true,
        Bool.and_self] at h
      split_ifs at h with hr hsrai
      all_goals
        have hdec := decode_encodeItype_shift hsh hx (if_pos h6).symm hd h1 (show 0 ≤ imm by omega)
          (by omega)
        rw [← Except.ok.inj h]
      · rwa [shiftTag, if_pos ⟨rfl, hsrai⟩] at hdec
      · rwa [shiftTag, if_neg fun h => hsrai h.2] at hdec
    · have h5 : (!isWordShift op && decide (cfg.xlen = 64)) = false := by simpa using h6
      have hmax : (if isWordShift op then (31 : ℤ) else if cfg.xlen = 64 then 63 else 31) = 31 := by
        cases hw : isWordShift op <;> simp_all
      rw [h5, hmax] at h
      simp only [Bool.false_eq_true, ↓reduceIte] at h
      split_ifs at h with hr
      have hdec := decode_encodeItype_shift hsh hx (if_neg h6).symm hd h1 (show 0 ≤ imm by omega)
        (by omega)
      rw [← Except.ok.inj h]
      rwa [shiftTag, if_neg (by simp)] at hdec
  · simp only [encodeItype, hsh, Bool.false_eq_true, ↓reduceIte] at h
    by_cases hsys : isSystem op = true
    · simp only [hsys, ↓reduceIte] at h
      rw [if_neg (by split_ifs <;> omega)] at h
      rw [← Except.ok.inj h, operandsOf, if_pos hsys]
      exact decode_encodeItype_sys hsys
    · simp only [hsys, Bool.false_eq_true, ↓reduceIte] at h
      split_ifs at h with hr
      rw [← Except.ok.inj h, operandsOf, if_neg hsys]
      exact decode_encodeItype_imm hfmt (by simpa using hsh) (by simpa using hsys) hx hd h1
        (by omega) (by omega)

theorem storeOp_encodingTable (op : Opcode) (hfmt : baseFmt op = some .s) :
    let info := encodingTable op
    info.opcode = 0x23 ∧ storeOp true info.funct3 = some op ∧
      (storeOp false info.funct3 = some op ∨ isRv64 op) := by
  revert hfmt
  cases op <;> decide

theorem decode_encodeStype {xlen : ℕ} {op : Opcode} {rs1 rs2 imm line : ℤ} {w : BitVec 32}
    (hfmt : baseFmt op = some .s) (hx : isRv64 op → xlen = 64) (h1 : IsReg rs1) (h2 : IsReg rs2)
    (h : encodeStype op rs1 rs2 imm line = .ok w) :
    decode xlen w = some (op, .s rs1 rs2 imm) := by
  rw [encodeStype] at h
  split_ifs at h with hr
  rw [Except.ok.injEq] at h
  subst h
  obtain ⟨ho, h3, -⟩ := encodingTable_lt op
  simp (disch := omega) only [decode, argsS, immS, rs1Of, rs2Of, field_or, field_at32,
    field_at32_below, field_at32_above, field_reg32_below, field_reg32_above, field_reg32,
    field_tag32_below, field_tag32_above, field_tag32, field_ushiftRight, Nat.zero_or, Nat.or_zero,
    Nat.sub_self]
  have hsigned : signed 12 (field (imm32 12 imm) (0 + 5) 7 * 2 ^ 5 + field (imm32 12 imm) 0 5) =
      imm := by
    refine signed_of_emod ?_ (by omega) (by omega)
    push_cast
    rw [field_imm32 _ (by decide) (by decide), field_imm32 _ (by decide) (by decide)]
    omega
  obtain ⟨h, hop, hop'⟩ := storeOp_encodingTable op hfmt
  have hstore : storeOp (xlen = 64) (encodingTable op).funct3 = some op := by
    by_cases h64 : xlen = 64
    · simpa only [h64, decide_true] using hop
    · simpa only [h64, decide_false] using hop'.resolve_right fun h => h64 (hx h)
  simp only [h, hstore, hsigned, Option.map_some]

theorem branchOp_encodingTable (op : Opcode) (hfmt : baseFmt op = some .b) :
    (encodingTable op).opcode = 0x63 ∧ branchOp (encodingTable op).funct3 = some op := by
  revert hfmt
  cases op <;> decide

theorem decode_encodeBtype {xlen : ℕ} {op : Opcode} {rs1 rs2 imm line : ℤ} {w : BitVec 32}
    (hfmt : baseFmt op = some .b) (h1 : IsReg rs1) (h2 : IsReg rs2)
    (h : encodeBtype op rs1 rs2 imm line = .ok w) :
    decode xlen w = some (op, .b rs1 rs2 imm) := by
  rw [encodeBtype] at h
  split_ifs at h with heven hr
  rw [Except.ok.injEq] at h
  subst h
  obtain ⟨ho, h3, -⟩ := encodingTable_lt op
  simp (disch := omega) only [decode, argsB, immB, rs1Of, rs2Of, field_or, field_at32,
    field_at32_below, field_at32_above, field_reg32_below, field_reg32_above, field_reg32,
    field_tag32_below, field_tag32_above, field_tag32, field_ushiftRight, Nat.zero_or, Nat.or_zero,
    Nat.sub_self]
  have hsigned : signed 13 (field (imm32 12 (imm >>> (1 : ℕ))) (0 + 11) 1 * 2 ^ 12 +
      field (imm32 12 (imm >>> (1 : ℕ))) (0 + 10) 1 * 2 ^ 11 +
      field (imm32 12 (imm >>> (1 : ℕ))) (0 + 4) 6 * 2 ^ 5 + field (imm32 12 (imm >>> (1 : ℕ))) 0 4 * 2) =
      imm := by
    refine signed_of_emod ?_ (by omega) (by omega)
    push_cast
    simp (disch := omega) only [field_imm32, Int.shiftRight_eq_div_pow]
    omega
  obtain ⟨h, hop⟩ := branchOp_encodingTable op hfmt
  simp only [h, hop, hsigned, Option.map_some]

theorem decode_encodeJtype {xlen : ℕ} {rd imm line : ℤ} {w : BitVec 32} (hd : IsReg rd)
    (h : encodeJtype .jal rd imm line = .ok w) : decode xlen w = some (.jal, .j rd imm) := by
  rw [encodeJtype] at h
  split_ifs at h with heven hr
  rw [Except.ok.injEq] at h
  subst h
  obtain ⟨ho, -, -⟩ := encodingTable_lt .jal
  simp (disch := omega) only [decode, argsJ, immJ, rdOf, field_or, field_at32,
    field_at32_below, field_at32_above, field_reg32_below, field_reg32_above, field_reg32,
    field_tag32_above, field_tag32, field_ushiftRight, Nat.zero_or, Nat.or_zero, Nat.sub_self]
  have hsigned : signed 21 (field (imm32 20 (imm >>> (1 : ℕ))) (0 + 19) 1 * 2 ^ 20 +
      field (imm32 20 (imm >>> (1 : ℕ))) (0 + 11) 8 * 2 ^ 12 +
      field (imm32 20 (imm >>> (1 : ℕ))) (0 + 10) 1 * 2 ^ 11 +
      field (imm32 20 (imm >>> (1 : ℕ))) 0 10 * 2) = imm := by
    refine signed_of_emod ?_ (by omega) (by omega)
    push_cast
    simp (disch := omega) only [field_imm32, Int.shiftRight_eq_div_pow]
    omega
  have hopcode : (encodingTable .jal).opcode = 0x6F := rfl
  simp only [hopcode, hsigned]

theorem field_mask_fffff000 (x : BitVec 32) {lo len : ℕ} (h1 : 12 ≤ lo) (h2 : lo + len ≤ 32) :
    field (x &&& 0xFFFFF000) lo len = field x lo len := by
  apply Nat.eq_of_testBit_eq
  intro i
  by_cases hi : i < len
  · have hmask : ∀ j, 12 ≤ j → j < 32 → (0xFFFFF000 : BitVec 32).getLsbD j = true := by decide
    rw [testBit_field, testBit_field, BitVec.getLsbD_and, hmask _ (by omega) (by omega),
      Bool.and_true]
  · simp [testBit_field, hi]

theorem field_mask_fffff000_low (x : BitVec 32) {lo len : ℕ} (h : lo + len ≤ 12) :
    field (x &&& 0xFFFFF000) lo len = 0 := by
  apply Nat.eq_of_testBit_eq
  intro i
  by_cases hi : i < len
  · have hmask : ∀ j < 12, (0xFFFFF000 : BitVec 32).getLsbD j = false := by decide
    rw [testBit_field, BitVec.getLsbD_and, hmask _ (by omega)]
    simp
  · simp [testBit_field, hi]

theorem decode_encodeUitype {xlen : ℕ} {op : Opcode} {rd imm line : ℤ} {w : BitVec 32}
    (hfmt : baseFmt op = some .ui) (hd : IsReg rd) (h : encodeUitype op rd imm line = .ok w) :
    decode xlen w = some (op, .u rd imm) := by
  rw [encodeUitype] at h
  split_ifs at h with hmul hr
  rw [Except.ok.injEq] at h
  subst h
  obtain ⟨ho, -, -⟩ := encodingTable_lt op
  simp (disch := omega) only [decode, argsU, immU, rdOf, field_or, field_mask_fffff000,
    field_mask_fffff000_low, field_reg32_below, field_reg32_above, field_reg32, field_tag32_above,
    field_tag32, Nat.zero_or, Nat.or_zero]
  have hsigned : signed 32 (field (BitVec.ofInt 32 imm) 12 20 * 2 ^ 12) = imm := by
    refine signed_of_emod ?_ (by omega) (by omega)
    push_cast
    rw [field_ofInt imm (by decide)]
    omega
  have hop : op = .auipc ∨ op = .lui := by
    revert hfmt
    cases op <;> decide
  have hauipc : (encodingTable .auipc).opcode = 0x17 := rfl
  have hlui : (encodingTable .lui).opcode = 0x37 := rfl
  rcases hop with rfl | rfl <;> simp only [hauipc, hlui, hsigned]

theorem encodeItype_accepts (cfg : Config) (op : Opcode) (rd rs1 imm line : ℤ) :
    (∃ w, encodeItype cfg op rd rs1 imm line = .ok w) ↔ LegalImm cfg.xlen op .i imm := by
  simp only [encodeItype, LegalImm]
  by_cases hsh : isShiftImm op = true
  · have hsys := not_isSystem_of_isShiftImm hsh
    rcases cfg.xlenOk with h | h <;> by_cases hw : isWordShift op = true <;>
      simp only [hsh, hsys, hw, h, Bool.false_eq_true, ↓reduceIte] <;>
      split_ifs <;> simp <;> omega
  · have hw := isWordShift_le_isShiftImm hsh
    by_cases hsys : isSystem op = true
    · have hr : ¬ ((if op = .ebreak then (1 : ℤ) else 0) < -2048 ∨
          (if op = .ebreak then (1 : ℤ) else 0) > 2047) := by split_ifs <;> omega
      simp only [hsh, hsys, hr, Bool.false_eq_true, ↓reduceIte]
      simp
    · simp only [hsh, hw, hsys, Bool.false_eq_true, ↓reduceIte]
      split_ifs with hr <;> simp <;> omega

/-- For every instruction the target admits, the encoder accepts exactly the legal
immediates, and the decoder recovers what was encoded. -/
theorem encodeInstruction_exact (cfg : Config) (op : Opcode) (fmt : IrFmt)
    (rd rs1 rs2 imm line : ℤ) (hfmt : baseFmt op = some fmt)
    (hadm : requireForOp cfg op line = .ok ()) (hd : IsReg rd) (h1 : IsReg rs1) (h2 : IsReg rs2) :
    ((∃ w, encodeInstruction cfg op fmt rd rs1 rs2 imm line = .ok w) ↔
        LegalImm cfg.xlen op fmt imm) ∧
      ∀ w, encodeInstruction cfg op fmt rd rs1 rs2 imm line = .ok w →
        decode cfg.xlen w = some (op, operandsOf op fmt rd rs1 rs2 imm) := by
  have hx := xlen_of_requireForOp hadm
  cases fmt with
  | r =>
    refine ⟨by simp [encodeInstruction, LegalImm], fun w h => ?_⟩
    rw [← Except.ok.inj h]
    exact decode_encodeRtype hfmt hx hd h1 h2
  | i => exact ⟨encodeItype_accepts .., fun w h => decode_encodeItype hfmt hx hd h1 h⟩
  | s =>
    refine ⟨?_, fun w h => decode_encodeStype hfmt hx h1 h2 h⟩
    simp only [encodeInstruction, encodeStype, LegalImm]
    split_ifs <;> simp <;> omega
  | b =>
    refine ⟨?_, fun w h => decode_encodeBtype hfmt h1 h2 h⟩
    simp only [encodeInstruction, encodeBtype, LegalImm]
    split_ifs <;> simp <;> omega
  | j =>
    obtain rfl : op = .jal := by
      revert hfmt
      cases op <;> decide
    refine ⟨?_, fun w h => decode_encodeJtype hd h⟩
    simp only [encodeInstruction, encodeJtype, LegalImm]
    split_ifs <;> simp <;> omega
  | ui =>
    refine ⟨?_, fun w h => decode_encodeUitype hfmt hd h⟩
    simp only [encodeInstruction, encodeUitype, LegalImm]
    split_ifs <;> simp <;> omega
  | cr | ci | cl | cs | css | cb | cj | ca =>
    exact absurd (isCFmt_of_baseFmt hfmt) (by decide)

theorem encodeInstruction_exact_sraiw :
    ((∃ w, encodeInstruction (passSetArch 64 true false false) .sraiw .i 5 6 0 31 1 = .ok w) ↔
        LegalImm 64 .sraiw .i 31) ∧
      ∀ w, encodeInstruction (passSetArch 64 true false false) .sraiw .i 5 6 0 31 1 = .ok w →
        decode 64 w = some (.sraiw, .i 5 6 31) :=
  encodeInstruction_exact (passSetArch 64 true false false) .sraiw .i 5 6 0 31 1 rfl rfl
    (by decide) (by decide) (by decide)

end RvAssembler
