import Mathlib.Data.BitVec
import RvAssembler.Lib.Bytes

namespace RvAssembler

/-- A byte for every address of `w` bits. -/
abbrev Mem (w : ℕ) := BitVec w → UInt8

namespace Mem

open Bytes

variable {w : ℕ}

def window (m : Mem w) (a : BitVec w) (n : ℕ) : List UInt8 :=
  (List.range n).map fun i => m (a + BitVec.ofNat w i)

/-- A run of bytes lies at an address. -/
def Holds (m : Mem w) (a : BitVec w) (bs : List UInt8) : Prop := m.window a bs.length = bs

instance (m : Mem w) (a : BitVec w) (bs : List UInt8) : Decidable (m.Holds a bs) :=
  inferInstanceAs (Decidable (_ = _))

def load (n : ℕ) (m : Mem w) (a : BitVec w) : ℕ := unle (m.window a n)

def loadInt (n : ℕ) (m : Mem w) (a : BitVec w) : ℤ := unleInt (m.window a n)

def store (n : ℕ) (m : Mem w) (a : BitVec w) (v : ℕ) : Mem w := fun b =>
  (le n v)[(b - a).toNat]?.getD (m b)

@[simp] theorem length_window (m : Mem w) (a : BitVec w) (n : ℕ) : (m.window a n).length = n := by
  simp [window]

theorem window_add (m : Mem w) (a : BitVec w) (n k : ℕ) :
    m.window a (n + k) = m.window a n ++ m.window (a + BitVec.ofNat w n) k := by
  unfold window
  rw [List.range_add, List.map_append, List.map_map]
  congr 1
  apply List.map_congr_left
  intro i _
  rw [Function.comp_apply, BitVec.ofNat_add, BitVec.add_assoc]

theorem holds_append {m : Mem w} {a : BitVec w} {bs cs : List UInt8} :
    m.Holds a (bs ++ cs) ↔ m.Holds a bs ∧ m.Holds (a + BitVec.ofNat w bs.length) cs := by
  unfold Holds
  rw [List.length_append, window_add]
  constructor
  · intro h
    exact List.append_inj h (length_window m a bs.length)
  · rintro ⟨h, h'⟩
    rw [h, h']

theorem Holds.congr {m m' : Mem w} {a : BitVec w} {bs : List UInt8} (h : m.Holds a bs)
    (hsame : m'.window a bs.length = m.window a bs.length) : m'.Holds a bs := by
  unfold Holds
  rw [hsame]
  exact h

/-- The number a run of little-endian bytes is loaded as. -/
theorem load_of_holds {m : Mem w} {a : BitVec w} {n v : ℕ} (h : m.Holds a (le n v)) :
    m.load n a = v % 256 ^ n := by
  unfold Holds at h
  rw [length_le] at h
  rw [load, h, unle_le]

theorem Holds.head {m : Mem w} {a : BitVec w} {b : UInt8} {bs : List UInt8}
    (h : m.Holds a (b :: bs)) : m a = b := by
  have hfirst := (holds_append.mp (show m.Holds a ([b] ++ bs) from h)).1
  have hbyte : m (a + BitVec.ofNat w 0) = b := (List.cons.inj hfirst).1
  simpa using hbyte

end Mem

end RvAssembler
