import RvAssembler.Encoding

namespace RvAssembler

open Bits

/-- A `uint8_t` of the compressed table that may be `C_ANY`. -/
abbrev CTag := Option ℕ

/-- `c_encoding_info_t`; `rv_req` is split into its two bits. -/
structure CEncodingInfo where
  fmt : IrFmt
  quadrant : ℕ
  funct3 : ℕ
  op12 : CTag
  op11_10 : CTag
  op6_5 : CTag
  rv32 : Bool
  rv64 : Bool
  needsC : Bool

def cRvAny (fmt : IrFmt) (quadrant funct3 : ℕ) (op12 op11_10 op6_5 : CTag) : CEncodingInfo :=
  ⟨fmt, quadrant, funct3, op12, op11_10, op6_5, true, true, true⟩

def cRv64 (fmt : IrFmt) (quadrant funct3 : ℕ) (op12 op11_10 op6_5 : CTag) : CEncodingInfo :=
  ⟨fmt, quadrant, funct3, op12, op11_10, op6_5, false, true, true⟩

def cRv32 (fmt : IrFmt) (quadrant funct3 : ℕ) (op12 op11_10 op6_5 : CTag) : CEncodingInfo :=
  ⟨fmt, quadrant, funct3, op12, op11_10, op6_5, true, false, true⟩

/-- `c_encoding_table`; entries it does not name are zero. -/
def cEncodingTable : Opcode → CEncodingInfo
  | .cSub => cRvAny .ca 0x1 0x4 (some 0x1) (some 0x3) (some 0x0)
  | .cXor => cRvAny .ca 0x1 0x4 (some 0x1) (some 0x3) (some 0x1)
  | .cOr => cRvAny .ca 0x1 0x4 (some 0x1) (some 0x3) (some 0x2)
  | .cAnd => cRvAny .ca 0x1 0x4 (some 0x1) (some 0x3) (some 0x3)
  | .cSubw => cRv64 .ca 0x1 0x4 (some 0x1) (some 0x1) (some 0x0)
  | .cAddw => cRv64 .ca 0x1 0x4 (some 0x1) (some 0x1) (some 0x1)
  | .cAdd => cRvAny .cr 0x2 0x4 (some 0x1) none none
  | .cJalr => cRvAny .cr 0x2 0x4 (some 0x1) none none
  | .cEbreak => cRvAny .cr 0x2 0x4 (some 0x1) none none
  | .cJr => cRvAny .cr 0x2 0x4 (some 0x0) none none
  | .cMv => cRvAny .cr 0x2 0x4 (some 0x0) none none
  | .cAddi => cRvAny .ci 0x1 0x0 none none none
  | .cAddiw => cRv64 .ci 0x1 0x1 none none none
  | .cSrli => cRvAny .ci 0x1 0x4 none (some 0x0) none
  | .cSrai => cRvAny .ci 0x1 0x4 none (some 0x1) none
  | .cAndi => cRvAny .ci 0x1 0x4 none (some 0x2) none
  | .cLui => cRvAny .ci 0x1 0x3 none none none
  | .cLwsp => cRvAny .ci 0x2 0x2 none none none
  | .cLdsp => cRv64 .ci 0x2 0x3 none none none
  | .cSlli => cRvAny .ci 0x2 0x0 none none none
  | .cLi => cRvAny .ci 0x1 0x2 none none none
  | .cLw => cRvAny .cl 0x0 0x2 none none none
  | .cLd => cRv64 .cl 0x0 0x3 none none none
  | .cSw => cRvAny .cs 0x0 0x6 none none none
  | .cSd => cRv64 .cs 0x0 0x7 none none none
  | .cBeqz => cRvAny .cb 0x1 0x6 none none none
  | .cBnez => cRvAny .cb 0x1 0x7 none none none
  | .cJal => cRv32 .cj 0x1 0x1 none none none
  | .cJ => cRvAny .cj 0x1 0x5 none none none
  | .cSwsp => cRvAny .css 0x2 0x6 none none none
  | .cSdsp => cRv64 .css 0x2 0x7 none none none
  | _ => ⟨.r, 0, 0, some 0, some 0, some 0, false, false, false⟩

def requireC (cfg : Config) (line : ℤ) : Except String Unit :=
  if cfg.extC then .ok ()
  else .error s!"Error (line {line}): C-extension instruction used but C not enabled"

def requireCForOp (cfg : Config) (op : Opcode) (line : ℤ) : Except String Unit := do
  requireC cfg line
  let ci := cEncodingTable op
  if !ci.needsC then
    .error s!"Internal error (line {line}): opcode {op.ctorIdx} has no c-encoding table entry"
  else if !(if cfg.xlen = 64 then ci.rv64 else ci.rv32) then
    .error s!"Error (line {line}): compressed instruction not available for RV{cfg.xlen}"
  else .ok ()

/-- `put`: sets bits `hi … lo` of a halfword to the low bits of `v`. -/
def put (w : BitVec 16) (hi lo : ℕ) (v : BitVec 32) : BitVec 16 :=
  if hi < lo ∨ hi > 15 then w
  else
    let width := hi - lo + 1
    let mask := BitVec.ofNat 32 (2 ^ width - 1) <<< lo
    let vbits := low width v <<< lo
    ((w.setWidth 32 &&& ~~~mask) ||| vbits).setWidth 16

def tag16 (k lo n : ℕ) : BitVec 16 := low k (BitVec.ofNat 16 n) <<< lo

def ctag16 (k lo : ℕ) : CTag → BitVec 16
  | some n => tag16 k lo n
  | none => 0

/-- `C_ANY` read as the number it is. -/
def CTag.val (t : CTag) : ℕ := t.getD 0xFF

def cBuildTags (i : CEncodingInfo) : BitVec 16 :=
  tag16 3 13 i.funct3 ||| tag16 2 0 i.quadrant ||| ctag16 1 12 i.op12 ||| ctag16 2 10 i.op11_10 |||
    ctag16 2 5 i.op6_5

def cRegp (x : ℤ) : ℤ := if x < 8 ∨ x > 15 then -1 else x - 8

def reg16 (k : ℕ) (r : ℤ) (lo : ℕ) : BitVec 16 := low k (BitVec.ofInt 16 r) <<< lo

def toU32 (x : ℤ) : BitVec 32 := BitVec.ofInt 32 x

def putImm5_0Ci (w : BitVec 16) (u6 : BitVec 32) : BitVec 16 :=
  put (put w 12 12 (low 1 (u6 >>> 5))) 6 2 (low 5 u6)

def encodeCrtype (cfg : Config) (op : Opcode) (rd rs1 rs2 : ℤ) (line : ℤ) :
    Except String (BitVec 16) := do
  requireCForOp cfg op line
  let invalid :=
    s!"Error: (line {line}): Invalid register value(s) for rd (x{rd}), rs1 (x{rs1}), rs2 (x{rs2})"
  let info := cEncodingTable op
  let pack (rd : ℤ) : BitVec 16 :=
    tag16 3 13 info.funct3 ||| tag16 1 12 info.op12.val ||| reg16 5 rd 7 ||| reg16 5 rs2 2 |||
      tag16 2 0 info.quadrant
  if op = .cMv ∧ (rd = 0 ∨ rs2 = 0 ∨ rs1 ≠ 0) then .error invalid
  else if op = .cAdd ∧ (rd = 0 ∨ rs2 = 0 ∨ rs1 ≠ rd) then .error invalid
  else if op = .cJr ∨ op = .cJalr then
    if rs1 = 0 ∨ rs2 ≠ 0 then .error invalid else .ok (pack rs1)
  else if op = .cEbreak ∧ (rd ≠ 0 ∨ rs1 ≠ 0 ∨ rs2 ≠ 0) then .error invalid
  else .ok (pack rd)

/-- `encode_catype`; its message shows the three-bit register numbers. -/
def encodeCatype (cfg : Config) (op : Opcode) (rd rs1 rs2 : ℤ) (line : ℤ) :
    Except String (BitVec 16) := do
  requireCForOp cfg op line
  let rd := cRegp rd
  let rs1 := cRegp rs1
  let rs2 := cRegp rs2
  if rd = -1 ∨ rs1 = -1 ∨ rs2 = -1 ∨ rd ≠ rs1 then
    .error s!"Error: (line {line}): Invalid register(s) rd (x{rd}), rs1 (x{rs1}), rs2 (x{rs2})"
  else
    let info := cEncodingTable op
    .ok (tag16 3 13 info.funct3 ||| tag16 1 12 info.op12.val ||| tag16 2 10 info.op11_10.val |||
      reg16 3 rd 7 ||| tag16 2 5 info.op6_5.val ||| reg16 3 rs2 2 ||| tag16 2 0 info.quadrant)

def ciMaxSh (cfg : Config) : ℕ := if cfg.xlen = 64 then 63 else 31

def encodeCitype (cfg : Config) (op : Opcode) (rd rs1 imm : ℤ) (line : ℤ) :
    Except String (BitVec 16) := do
  requireCForOp cfg op line
  let w := cBuildTags (cEncodingTable op)
  match op with
  | .cAddi =>
    if rd = 0 ∧ imm = 0 then .ok (putImm5_0Ci (put w 11 7 0) 0)
    else if rd = 0 then
      .error s!"Error (line {line}): c.addi rd cannot be x0 unless imm==0 (c.nop)."
    else if imm < -32 ∨ imm > 31 then
      .error s!"Error (line {line}): c.addi imm out of range (-32..31): {imm}"
    else .ok (putImm5_0Ci (put w 11 7 (low 5 (toU32 rd))) (low 6 (toU32 imm)))
  | .cAddiw =>
    if cfg.xlen ≠ 64 then .error s!"Error (line {line}): c.addiw requires RV64."
    else if rd = 0 then .error s!"Error (line {line}): c.addiw rd cannot be x0."
    else if imm < -32 ∨ imm > 31 then
      .error s!"Error (line {line}): c.addiw imm out of range (-32..31): {imm}"
    else .ok (putImm5_0Ci (put w 11 7 (low 5 (toU32 rd))) (low 6 (toU32 imm)))
  | .cLui =>
    if rd = 0 ∨ rd = 2 then .error s!"Error (line {line}): c.lui rd cannot be x0 or x2."
    else if imm = 0 ∨ imm < -32 ∨ imm > 31 then
      .error s!"Error (line {line}): c.lui imm must be in [-32..-1] or [1..31]."
    else .ok (putImm5_0Ci (put w 11 7 (low 5 (toU32 rd))) (low 6 (toU32 imm)))
  | .cSlli =>
    if rd = 0 then .error s!"Error (line {line}): c.slli rd cannot be x0."
    else if imm < 0 ∨ imm > ciMaxSh cfg then
      .error s!"Error (line {line}): c.slli shamt out of range (0..{ciMaxSh cfg}): {imm}"
    else .ok (putImm5_0Ci (put w 11 7 (low 5 (toU32 rd))) (low 6 (toU32 imm)))
  | .cSrli | .cSrai =>
    let rp := cRegp rd
    let name := if op = .cSrli then "c.srli" else "c.srai"
    if rp < 0 then .error s!"Error (line {line}): {name} requires rd in x8..x15."
    else if imm < 0 ∨ imm > ciMaxSh cfg then
      .error s!"Error (line {line}): {name} shamt out of range (0..{ciMaxSh cfg}): {imm}"
    else .ok (putImm5_0Ci (put w 9 7 (low 3 (toU32 rp))) (low 6 (toU32 imm)))
  | .cAndi =>
    let rp := cRegp rd
    if rp < 0 then .error s!"Error (line {line}): c.andi requires rd in x8..x15."
    else if imm < -32 ∨ imm > 31 then
      .error s!"Error (line {line}): c.andi imm out of range (-32..31): {imm}"
    else .ok (putImm5_0Ci (put w 9 7 (low 3 (toU32 rp))) (low 6 (toU32 imm)))
  | .cLwsp =>
    if rs1 ≠ 2 then .error s!"Error (line {line}): c.lwsp base must be x2 (sp), got x{rs1}"
    else if rd = 0 then .error s!"Error (line {line}): c.lwsp rd cannot be x0"
    else if imm < 0 ∨ imm % 4 ≠ 0 ∨ imm > 252 then
      .error
        s!"Error (line {line}): c.lwsp offset must be 0..252 and multiple of 4 (got {imm})"
    else
      let u := toU32 imm
      let w := put w 11 7 (low 5 (toU32 rd))
      let w := put w 12 12 (low 1 (u >>> 5))
      let w := put w 6 4 (low 3 (u >>> 2))
      .ok (put w 3 2 (low 2 (u >>> 6)))
  | .cLdsp =>
    if cfg.xlen ≠ 64 then .error s!"Error (line {line}): c.ldsp requires RV64"
    else if rs1 ≠ 2 then .error s!"Error (line {line}): c.ldsp base must be x2 (sp), got x{rs1}"
    else if rd = 0 then .error s!"Error (line {line}): c.ldsp rd cannot be x0"
    else if imm < 0 ∨ imm % 8 ≠ 0 ∨ imm > 504 then
      .error
        s!"Error (line {line}): c.ldsp offset must be 0..504 and multiple of 8 (got {imm})"
    else
      -- `rd` is checked but never packed
      let u := toU32 imm
      let w := put w 12 12 (low 1 (u >>> 5))
      let w := put w 6 5 (low 2 (u >>> 3))
      .ok (put w 4 2 (low 3 (u >>> 6)))
  | .cLi =>
    if rd = 0 then .error s!"Error (line {line}): c.li rd cannot be x0."
    else if imm < -32 ∨ imm > 31 ∨ imm = 0 then
      .error s!"Error (line {line}): c.li imm must be in [-32..-1] or [1..31], got {imm}"
    else .ok (putImm5_0Ci (put w 11 7 (low 5 (toU32 rd))) (low 6 (toU32 imm)))
  | _ => .error s!"Error (line {line}): encode_citype(): unhandled CI op."

def putImmW (w : BitVec 16) (u : BitVec 32) : BitVec 16 :=
  put (put (put w 12 10 (low 3 (u >>> 3))) 6 6 (low 1 (u >>> 2))) 5 5 (low 1 (u >>> 6))

def putImmD (w : BitVec 16) (u : BitVec 32) : BitVec 16 :=
  put (put w 12 10 (low 3 (u >>> 3))) 6 5 (low 2 (u >>> 6))

def encodeCltype (cfg : Config) (op : Opcode) (rd rs1 imm : ℤ) (line : ℤ) :
    Except String (BitVec 16) := do
  requireCForOp cfg op line
  let rdp := cRegp rd
  let r1p := cRegp rs1
  if rdp < 0 ∨ r1p < 0 then
    .error s!"Error (line {line}): CL requires rd, rs1 in x8..x15 (got x{rd}, x{rs1})"
  else
    let w := cBuildTags (cEncodingTable op)
    let u := toU32 imm
    let regs (w : BitVec 16) := put (put w 9 7 (low 3 (toU32 r1p))) 4 2 (low 3 (toU32 rdp))
    if op = .cLw then
      if imm < 0 ∨ u.toNat % 4 ≠ 0 ∨ u.toNat > 124 then
        .error
          s!"Error (line {line}): c.lw offset must be 0..124 and multiple of 4 (got {imm})"
      else .ok (regs (putImmW w u))
    else if op = .cLd then
      if imm < 0 ∨ u.toNat % 8 ≠ 0 ∨ u.toNat > 248 then
        .error
          s!"Error (line {line}): c.ld offset must be 0..248 and multiple of 8 (got {imm})"
      else .ok (regs (putImmD w u))
    else .error s!"Error (line {line}): encode_cltype only handles C.LW/C.LD"

def encodeCstype (cfg : Config) (op : Opcode) (rs1 rs2 imm : ℤ) (line : ℤ) :
    Except String (BitVec 16) := do
  requireCForOp cfg op line
  let r2p := cRegp rs2
  let r1p := cRegp rs1
  if r1p < 0 ∨ r2p < 0 then
    .error s!"Error (line {line}): CS requires rs1, rs2 in x8..x15 (got x{rs1}, x{rs2})"
  else
    let w := cBuildTags (cEncodingTable op)
    let u := toU32 imm
    let regs (w : BitVec 16) := put (put w 9 7 (low 3 (toU32 r1p))) 4 2 (low 3 (toU32 r2p))
    if op = .cSw then
      if imm < 0 ∨ u.toNat % 4 ≠ 0 ∨ u.toNat > 124 then
        .error
          s!"Error (line {line}): c.sw offset must be 0..124 and multiple of 4 (got {imm})"
      else .ok (regs (putImmW w u))
    else if op = .cSd then
      if imm < 0 ∨ u.toNat % 8 ≠ 0 ∨ u.toNat > 248 then
        .error
          s!"Error (line {line}): c.sd offset must be 0..248 and multiple of 8 (got {imm})"
      else .ok (regs (putImmD w u))
    else .error s!"Error (line {line}): encode_cstype only handles C.SW/C.SD"

def encodeCsstype (cfg : Config) (op : Opcode) (rs1 rs2 imm : ℤ) (line : ℤ) :
    Except String (BitVec 16) := do
  requireCForOp cfg op line
  if rs1 ≠ 2 then .error s!"Error (line {line}): CSS base must be x2 (sp), got x{rs1}"
  else
    let w := cBuildTags (cEncodingTable op)
    let u := toU32 imm
    let reg (w : BitVec 16) := put w 11 7 (low 5 (toU32 rs2))
    if op = .cSwsp then
      if imm < 0 ∨ u.toNat % 4 ≠ 0 ∨ u.toNat > 252 then
        .error
          s!"Error (line {line}): c.swsp offset must be 0..252 and multiple of 4 (got {imm})"
      else .ok (reg (put (put w 12 12 (low 1 (u >>> 7))) 6 2 (low 5 (u >>> 2))))
    else if op = .cSdsp then
      if imm < 0 ∨ u.toNat % 8 ≠ 0 ∨ u.toNat > 504 then
        .error
          s!"Error (line {line}): c.sdsp offset must be 0..504 and multiple of 8 (got {imm})"
      else .ok (reg (put (put w 12 10 (low 3 (u >>> 6))) 6 2 (low 5 (u >>> 3))))
    else .error s!"Error (line {line}): encode_csstype only handles C.SWSP/C.SDSP"

def encodeCbtype (cfg : Config) (op : Opcode) (rs1 imm : ℤ) (line : ℤ) :
    Except String (BitVec 16) := do
  requireCForOp cfg op line
  let r1p := cRegp rs1
  let name := if op = .cBeqz then "c.beqz" else "c.bnez"
  if r1p < 0 then .error s!"Error (line {line}): {name} requires rs1 in x8..x15 (got x{rs1})"
  else if imm % 2 ≠ 0 ∨ imm < -256 ∨ imm > 254 then
    .error s!"Error (line {line}): CB offset must be even and in [-256, 254], got {imm}"
  else
    let w := cBuildTags (cEncodingTable op)
    let u := low 8 ((BitVec.ofInt 32 imm).sshiftRight 1)
    let w := put w 12 12 (low 1 (u >>> 7))
    let w := put w 11 10 (low 2 (u >>> 5))
    let w := put w 9 7 (low 3 (toU32 r1p))
    let w := put w 6 3 (low 4 u)
    .ok (put w 2 2 (low 1 (u >>> 4)))

def encodeCjtype (cfg : Config) (op : Opcode) (imm : ℤ) (line : ℤ) :
    Except String (BitVec 16) := do
  requireCForOp cfg op line
  if imm % 2 ≠ 0 ∨ imm < -2048 ∨ imm > 2046 then
    .error s!"Error (line {line}): CJ offset must be even and in [-2048, 2046], got {imm}"
  else
    let w := cBuildTags (cEncodingTable op)
    let u := low 11 ((BitVec.ofInt 32 imm).sshiftRight 1)
    let w := put w 12 12 (low 1 (u >>> 10))
    let w := put w 11 11 (low 1 (u >>> 3))
    let w := put w 10 9 (low 2 (u >>> 8))
    let w := put w 8 8 (low 1 (u >>> 9))
    let w := put w 7 7 (low 1 (u >>> 6))
    let w := put w 6 6 (low 1 (u >>> 7))
    let w := put w 5 3 (low 3 (u >>> 1))
    .ok (put w 2 2 (low 1 (u >>> 5)))

def cEncodeInstruction (cfg : Config) (op : Opcode) (fmt : IrFmt) (rd rs1 rs2 imm : ℤ)
    (line : ℤ) : Except String (BitVec 16) :=
  match fmt with
  | .ca => encodeCatype cfg op rd rs1 rs2 line
  | .ci => encodeCitype cfg op rd rs1 imm line
  | .cr => encodeCrtype cfg op rd rs1 rs2 line
  | .cs => encodeCstype cfg op rs1 rs2 imm line
  | .css => encodeCsstype cfg op rs1 rs2 imm line
  | .cb => encodeCbtype cfg op rs1 imm line
  | .cj => encodeCjtype cfg op imm line
  | .cl => encodeCltype cfg op rd rs1 imm line
  | _ => .error s!"Error (line {line}): Unknown C format"

end RvAssembler
