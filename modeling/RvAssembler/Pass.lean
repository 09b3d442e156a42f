import RvAssembler.Ir

namespace RvAssembler

/-- The target: the width of the registers, the M and C extensions, and whether
32-bit instructions are compressed automatically. -/
structure Config where
  xlen : ℕ
  extM : Bool
  extC : Bool
  autoC : Bool
  xlenOk : xlen = 32 ∨ xlen = 64
deriving DecidableEq

/-- `pass_set_arch`: any other width means 32. -/
def passSetArch (len : ℕ) (hasM extC autoC : Bool) : Config where
  xlen := if len = 64 then 64 else 32
  extM := hasM
  extC := extC
  autoC := autoC
  xlenOk := by split_ifs <;> decide

def Config.compresses (cfg : Config) : Bool := cfg.extC && cfg.autoC

def not32 (x : ℕ) : ℕ := 2 ^ 32 - 1 - x

/-- `pass_align_to_pow2`.  Shifting by 32 or more is undefined in C; the shift count is
taken modulo 32, as the target machines do. -/
def passAlignToPow2 (addr pow2 : ℕ) : ℕ :=
  let a := 1 <<< (pow2 % 32)
  u32 (addr + (a - 1)) &&& not32 (a - 1)

def passAlignPad (addr pow2 : ℕ) : ℕ := u32 (passAlignToPow2 addr pow2 + 2 ^ 32 - addr)

structure Counters where
  curSection : Section := .text
  pcText : ℕ := 0
  pcData : ℕ := 0
deriving DecidableEq, Repr

def Counters.pc (c : Counters) : Section → ℕ
  | .text => c.pcText
  | .data => c.pcData

def passCurrentPc (c : Counters) : ℕ := c.pc c.curSection

def passAdvancePc (c : Counters) (bytes : ℕ) : Counters :=
  match c.curSection with
  | .text => { c with pcText := u32 (c.pcText + bytes) }
  | .data => { c with pcData := u32 (c.pcData + bytes) }

def passSetSection (c : Counters) (s : Section) : Counters := { c with curSection := s }

/-- `pass_align_current_pc`: moves the counter up and returns where it then stands. -/
def passAlignCurrentPc (c : Counters) (pow2 : ℕ) : Counters × ℕ :=
  match c.curSection with
  | .text =>
    let pc := u32 (c.pcText + passAlignPad c.pcText pow2)
    ({ c with pcText := pc }, pc)
  | .data =>
    let pc := u32 (c.pcData + passAlignPad c.pcData pow2)
    ({ c with pcData := pc }, pc)

end RvAssembler
