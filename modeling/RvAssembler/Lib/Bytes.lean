import Mathlib.Data.Nat.Notation
import Mathlib.Algebra.Ring.Nat
import Mathlib.Algebra.Ring.Int.Defs
import Mathlib.Data.List.Basic

namespace RvAssembler.Bytes

/-- The low `n` bytes of a number, least significant first. -/
def le : ℕ → ℕ → List UInt8
  | 0, _ => []
  | n + 1, v => UInt8.ofNat v :: le n (v / 256)

def unle : List UInt8 → ℕ
  | [] => 0
  | b :: bs => b.toNat + 256 * unle bs

@[simp] theorem length_le (n v : ℕ) : (le n v).length = n := by
  induction n generalizing v with
  | zero => rfl
  | succ n ih => rw [le, List.length_cons, ih]

theorem unle_le (n v : ℕ) : unle (le n v) = v % 256 ^ n := by
  induction n generalizing v with
  | zero => rw [pow_zero, Nat.mod_one, le, unle]
  | succ n ih =>
    have hsplit : v % 256 ^ (n + 1) = v % 256 + 256 * (v / 256 % 256 ^ n) := by
      rw [pow_succ', Nat.mod_mul]
    rw [le, unle, ih, UInt8.toNat_ofNat', hsplit]

theorem le_congr {n x y : ℕ} (h : x % 256 ^ n = y % 256 ^ n) : le n x = le n y := by
  induction n generalizing x y with
  | zero => rfl
  | succ n ih =>
    rw [pow_succ', Nat.mod_mul, Nat.mod_mul] at h
    have hx := Nat.mod_lt x (y := 256) (by decide)
    have hy := Nat.mod_lt y (y := 256) (by decide)
    have hbyte : UInt8.ofNat x = UInt8.ofNat y := by
      apply UInt8.toNat_inj.mp
      rw [UInt8.toNat_ofNat', UInt8.toNat_ofNat']
      omega
    have hrest : x / 256 % 256 ^ n = y / 256 % 256 ^ n := by omega
    rw [le, le, hbyte, ih hrest]

/-- The two's-complement bytes of an integer, least significant first. -/
def leInt (n : ℕ) (v : ℤ) : List UInt8 := le n (v % 256 ^ n).toNat

def unleInt (bs : List UInt8) : ℤ := Int.bmod (unle bs) (256 ^ bs.length)

@[simp] theorem length_leInt (n : ℕ) (v : ℤ) : (leInt n v).length = n := length_le n _

/-- An integer reads back from as many bytes as its two's complement needs. -/
theorem unleInt_leInt {n : ℕ} {v : ℤ} (hlo : -256 ^ n ≤ 2 * v) (hhi : 2 * v < 256 ^ n) :
    unleInt (leInt n v) = v := by
  have hpos : (0 : ℤ) < 256 ^ n := Int.pow_pos (by decide)
  have hread : (unle (leInt n v) : ℤ) = v % (256 ^ n : ℕ) := by
    rw [leInt, unle_le, Int.natCast_emod, Int.toNat_of_nonneg (Int.emod_nonneg v (by omega))]
    push_cast
    exact Int.emod_emod v _
  rw [unleInt, length_leInt, hread, Int.emod_bmod]
  apply Int.bmod_eq_of_le
  · push_cast
    omega
  · push_cast
    omega

/-- Consecutive fields, each a width and a value. -/
def pack (fields : List (ℕ × ℕ)) : List UInt8 := fields.flatMap fun f => le f.1 f.2

def unpack : List ℕ → List UInt8 → List ℕ
  | [], _ => []
  | w :: ws, bs => unle (bs.take w) :: unpack ws (bs.drop w)

@[simp] theorem pack_nil : pack [] = [] := rfl

@[simp] theorem pack_cons (f : ℕ × ℕ) (fields : List (ℕ × ℕ)) :
    pack (f :: fields) = le f.1 f.2 ++ pack fields := List.flatMap_cons

theorem length_pack (fields : List (ℕ × ℕ)) :
    (pack fields).length = (fields.map Prod.fst).sum := by
  induction fields with
  | nil => rfl
  | cons f fields ih =>
    rw [pack_cons, List.length_append, length_le, ih, List.map_cons, List.sum_cons]

/-- Reading a packed record back gives its fields, cut to their widths. -/
theorem unpack_pack (fields : List (ℕ × ℕ)) :
    unpack (fields.map Prod.fst) (pack fields) = fields.map fun f => f.2 % 256 ^ f.1 := by
  induction fields with
  | nil => rfl
  | cons f fields ih =>
    have hlen : (le f.1 f.2).length = f.1 := length_le f.1 f.2
    rw [List.map_cons, List.map_cons, pack_cons, unpack, List.take_left' hlen,
      List.drop_left' hlen, unle_le, ih]

end RvAssembler.Bytes
