import RvAssembler.CFields

namespace RvAssembler

open Bits

theorem signed_eq_iff {n k : ℕ} {x : ℤ} (hn : n < 2 ^ (k + 1)) (hlo : -2 ^ k ≤ x)
    (hhi : x < 2 ^ k) : signed (k + 1) n = x ↔ (n : ℤ) = x % 2 ^ (k + 1) := by
  constructor
  · intro h
    have hn' : (n : ℤ) < 2 ^ (k + 1) := by exact_mod_cast hn
    rw [← h, signed]
    split_ifs
    · rw [Int.emod_eq_of_lt (by omega) hn']
    · rw [Int.sub_emod_right, Int.emod_eq_of_lt (by omega) hn']
  · exact fun h => signed_of_emod h hlo hhi

def CBLegal (cfg : Config) (op : Opcode) (rs1 imm : ℤ) : Prop :=
  CAvailable cfg op ∧ IsPrime rs1 ∧ imm % 2 = 0 ∧ -256 ≤ imm ∧ imm ≤ 254

theorem encodeCbtype_accepts {cfg : Config} {op : Opcode} {rs1 imm line : ℤ} :
    (∃ w, encodeCbtype cfg op rs1 imm line = .ok w) ↔ CBLegal cfg op rs1 imm := by
  simp only [encodeCbtype, requireCForOp_bind, cRegp_neg, exists_and_left, CBLegal]
  refine and_congr_right fun _ => ?_
  split_ifs <;> simp_all
  omega

/-- The nine offset bits as the decoder finds them. -/
def cbScramble (n : ℕ) : ℕ :=
  n / 2 ^ 8 % 2 ^ 1 * 2 ^ 8 + n / 2 ^ 6 % 2 ^ 2 * 2 ^ 3 + n / 2 ^ 3 % 2 ^ 2 * 2 ^ 6 +
    n / 2 ^ 1 % 2 ^ 2 * 2 + n / 2 ^ 5 % 2 ^ 1 * 2 ^ 5

theorem cbScramble_field (x : BitVec 32) : cbScramble (field x 0 9) = field x 8 1 * 2 ^ 8 +
    field x 6 2 * 2 ^ 3 + field x 3 2 * 2 ^ 6 + field x 1 2 * 2 + field x 5 1 * 2 ^ 5 := by
  simp (disch := omega) only [cbScramble, ← field_of_low_field]

theorem encodeCbtype_reads {cfg : Config} {op : Opcode} {rs1 imm line : ℤ} {w : BitVec 16}
    (hop : op = .cBeqz ∨ op = .cBnez) (h : encodeCbtype cfg op rs1 imm line = .ok w) :
    decodeC cfg.xlen w =
      some (op, .branch rs1 (signed 9 (cbScramble (field (toU32 imm) 0 9)))) := by
  obtain ⟨-, hr, -⟩ := encodeCbtype_accepts.mp ⟨w, h⟩
  rw [encodeCbtype, requireCForOp_bind] at h
  replace h := h.2
  simp only [cRegp_neg, not_not.mpr hr, ↓reduceIte] at h
  split_ifs at h
  rw [← Except.ok.inj h]
  have h1 := field_cRegp hr
  rw [cbScramble_field]
  simp (disch := omega) only [decodeC, crs1', immCB, field_put, field_put_of_disjoint,
    field_low, field_ushiftRight, field_half_offset, Nat.sub_self, cBuildTags_quadrant,
    cBuildTags_funct3] at h1 ⊢
  rcases hop with rfl | rfl <;> simp only [cEncodingTable, cRvAny, h1]

theorem cbScramble_eq_iff : ∀ a < 16, ∀ b < 16, cbScramble (32 * a + 2 * b) < 2 ^ 9 ∧
    (cbScramble (32 * a + 2 * b) = 32 * a + 2 * b ↔
      (32 * a + 2 * b) / 64 % 4 = (32 * a + 2 * b) / 8 % 4) := by
  decide +kernel

theorem cb_offset_eq_iff {imm : ℤ} (heven : imm % 2 = 0) (hlo : -256 ≤ imm) (hhi : imm ≤ 254) :
    signed 9 (cbScramble (field (toU32 imm) 0 9)) = imm ↔ imm / 64 % 4 = imm / 8 % 4 := by
  have hn : (field (toU32 imm) 0 9 : ℤ) = imm / 2 ^ 0 % 2 ^ 9 := field_toU32 imm (by decide)
  have hlt := field_lt (toU32 imm) 0 9
  generalize field (toU32 imm) 0 9 = n at hn hlt
  obtain ⟨a, b, ha, hb, rfl⟩ : ∃ a b, a < 16 ∧ b < 16 ∧ n = 32 * a + 2 * b :=
    ⟨n / 32, n % 32 / 2, by omega, by omega, by omega⟩
  obtain ⟨hs, h⟩ := cbScramble_eq_iff a ha b hb
  rw [signed_eq_iff (k := 8) hs (by omega) (by omega)]
  generalize hm : 32 * a + 2 * b = n at *
  have h1 : imm / 64 % 4 = (n / 64 % 4 : ℕ) := by omega
  have h2 : imm / 8 % 4 = (n / 8 % 4 : ℕ) := by omega
  have h3 : imm % 2 ^ (8 + 1) = (n : ℕ) := by omega
  rw [h1, h2, h3]
  exact_mod_cast h

def CJLegal (cfg : Config) (op : Opcode) (imm : ℤ) : Prop :=
  CAvailable cfg op ∧ imm % 2 = 0 ∧ -2048 ≤ imm ∧ imm ≤ 2046

theorem encodeCjtype_accepts {cfg : Config} {op : Opcode} {imm line : ℤ} :
    (∃ w, encodeCjtype cfg op imm line = .ok w) ↔ CJLegal cfg op imm := by
  simp only [encodeCjtype, requireCForOp_bind, exists_and_left, CJLegal]
  refine and_congr_right fun _ => ?_
  split_ifs <;> simp_all
  omega

def cjScramble (n : ℕ) : ℕ :=
  n / 2 ^ 11 % 2 ^ 1 * 2 ^ 11 + n / 2 ^ 4 % 2 ^ 1 * 2 ^ 4 + n / 2 ^ 9 % 2 ^ 2 * 2 ^ 8 +
    n / 2 ^ 10 % 2 ^ 1 * 2 ^ 10 + n / 2 ^ 7 % 2 ^ 1 * 2 ^ 6 + n / 2 ^ 8 % 2 ^ 1 * 2 ^ 7 +
    n / 2 ^ 2 % 2 ^ 3 * 2 + n / 2 ^ 6 % 2 ^ 1 * 2 ^ 5

theorem cjScramble_field (x : BitVec 32) : cjScramble (field x 0 12) = field x 11 1 * 2 ^ 11 +
    field x 4 1 * 2 ^ 4 + field x 9 2 * 2 ^ 8 + field x 10 1 * 2 ^ 10 + field x 7 1 * 2 ^ 6 +
    field x 8 1 * 2 ^ 7 + field x 2 3 * 2 + field x 6 1 * 2 ^ 5 := by
  simp (disch := omega) only [cjScramble, ← field_of_low_field]

theorem encodeCjtype_reads {cfg : Config} {op : Opcode} {imm line : ℤ} {w : BitVec 16}
    (hop : op = .cJ ∨ op = .cJal) (h : encodeCjtype cfg op imm line = .ok w) :
    decodeC cfg.xlen w =
      some (op, .offset (signed 12 (cjScramble (field (toU32 imm) 0 12)))) := by
  obtain ⟨hav, -⟩ := encodeCjtype_accepts.mp ⟨w, h⟩
  rw [encodeCjtype, requireCForOp_bind] at h
  replace h := h.2
  split_ifs at h
  rw [← Except.ok.inj h]
  rw [cjScramble_field]
  simp (disch := omega) only [decodeC, immCJ, field_put, field_put_of_disjoint, field_low,
    field_ushiftRight, field_half_offset, Nat.sub_self, cBuildTags_quadrant, cBuildTags_funct3]
  rcases hop with rfl | rfl
  · simp only [cEncodingTable, cRvAny]
  · have h32 := hav.xlen_ne_64 rfl
    simp only [cEncodingTable, cRv32, h32, ↓reduceIte]

theorem cjScramble_eq_iff : ∀ a < 64, ∀ b < 32, cjScramble (64 * a + 2 * b) < 2 ^ 12 ∧
    (cjScramble (64 * a + 2 * b) = 64 * a + 2 * b ↔
      ((64 * a + 2 * b) / 32 % 64 = 0 ∨ (64 * a + 2 * b) / 32 % 64 = 63) ∧
        ((64 * a + 2 * b) / 2 % 16 = 0 ∨ (64 * a + 2 * b) / 2 % 16 = 15)) := by
  decide +kernel

theorem cj_offset_eq_iff {imm : ℤ} (heven : imm % 2 = 0) (hlo : -2048 ≤ imm) (hhi : imm ≤ 2046) :
    signed 12 (cjScramble (field (toU32 imm) 0 12)) = imm ↔
      (imm / 32 % 64 = 0 ∨ imm / 32 % 64 = 63) ∧ (imm / 2 % 16 = 0 ∨ imm / 2 % 16 = 15) := by
  have hn : (field (toU32 imm) 0 12 : ℤ) = imm / 2 ^ 0 % 2 ^ 12 := field_toU32 imm (by decide)
  have hlt := field_lt (toU32 imm) 0 12
  generalize field (toU32 imm) 0 12 = n at hn hlt
  obtain ⟨a, b, ha, hb, rfl⟩ : ∃ a b, a < 64 ∧ b < 32 ∧ n = 64 * a + 2 * b :=
    ⟨n / 64, n % 64 / 2, by omega, by omega, by omega⟩
  obtain ⟨hs, h⟩ := cjScramble_eq_iff a ha b hb
  rw [signed_eq_iff (k := 11) hs (by omega) (by omega)]
  generalize hm : 64 * a + 2 * b = n at *
  have h1 : imm / 32 % 64 = (n / 32 % 64 : ℕ) := by omega
  have h2 : imm / 2 % 16 = (n / 2 % 16 : ℕ) := by omega
  have h3 : imm % 2 ^ (11 + 1) = (n : ℕ) := by omega
  rw [h1, h2, h3]
  exact_mod_cast h

/-- A compressed branch reads back exactly when `offset[7:6]` and `offset[4:3]` agree, a
compressed jump exactly when `offset[10:5]` are all equal and `offset[4:1]` are all equal. -/
theorem c_jump_roundtrip_iff (cfg : Config) (op : Opcode) (rs1 imm line : ℤ) :
    (op = .cBeqz ∨ op = .cBnez →
      ((∀ w, encodeCbtype cfg op rs1 imm line = .ok w →
          decodeC cfg.xlen w = some (op, .branch rs1 imm)) ↔
        (CBLegal cfg op rs1 imm → imm / 64 % 4 = imm / 8 % 4))) ∧
    (op = .cJ ∨ op = .cJal →
      ((∀ w, encodeCjtype cfg op imm line = .ok w →
          decodeC cfg.xlen w = some (op, .offset imm)) ↔
        (CJLegal cfg op imm → (imm / 32 % 64 = 0 ∨ imm / 32 % 64 = 63) ∧
          (imm / 2 % 16 = 0 ∨ imm / 2 % 16 = 15)))) := by
  constructor
  · intro hop
    refine forall_ok_iff encodeCbtype_accepts fun w hw => ?_
    obtain ⟨-, -, heven, hlo, hhi⟩ := encodeCbtype_accepts.mp ⟨w, hw⟩
    rw [encodeCbtype_reads hop hw, ← cb_offset_eq_iff heven hlo hhi]
    simp only [Option.some.injEq, Prod.mk.injEq, COperands.branch.injEq, true_and]
  · intro hop
    refine forall_ok_iff encodeCjtype_accepts fun w hw => ?_
    obtain ⟨-, heven, hlo, hhi⟩ := encodeCjtype_accepts.mp ⟨w, hw⟩
    rw [encodeCjtype_reads hop hw, ← cj_offset_eq_iff heven hlo hhi]
    simp only [Option.some.injEq, Prod.mk.injEq, COperands.offset.injEq, true_and]

theorem c_jump_roundtrip_iff_examples :
    ((∀ w, encodeCbtype (passSetArch 32 false true false) .cBeqz 8 8 1 = .ok w →
        decodeC 32 w = some (.cBeqz, .branch 8 8)) ↔
      (CBLegal (passSetArch 32 false true false) .cBeqz 8 8 → (8 : ℤ) / 64 % 4 = 8 / 8 % 4)) ∧
    ((∀ w, encodeCjtype (passSetArch 64 false true false) .cJ 30 1 = .ok w →
        decodeC 64 w = some (.cJ, .offset 30)) ↔
      (CJLegal (passSetArch 64 false true false) .cJ 30 →
        ((30 : ℤ) / 32 % 64 = 0 ∨ (30 : ℤ) / 32 % 64 = 63) ∧
          ((30 : ℤ) / 2 % 16 = 0 ∨ (30 : ℤ) / 2 % 16 = 15))) :=
  ⟨(c_jump_roundtrip_iff (passSetArch 32 false true false) .cBeqz 8 8 1).1 (.inl rfl),
    (c_jump_roundtrip_iff (passSetArch 64 false true false) .cJ 0 30 1).2 (.inl rfl)⟩

/-- `c.beqz x8, 8` reads back as a branch by 64. -/
theorem c_beqz_8_misread :
    ¬ ∀ w, encodeCbtype (passSetArch 32 false true false) .cBeqz 8 8 1 = .ok w →
      decodeC 32 w = some (.cBeqz, .branch 8 8) := by
  intro h
  have h64 : decodeC 32 0xC021 = some (.cBeqz, .branch 8 64) := by decide
  exact absurd (h64.symm.trans (h 0xC021 rfl)) (by decide)

end RvAssembler
