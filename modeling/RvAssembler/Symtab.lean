import Mathlib.Data.Nat.Find
import Mathlib.Data.Nat.Prime.Infinite
import RvAssembler.Lib.Chains

namespace RvAssembler

/-- A C string: bytes up to the terminating NUL. -/
structure CString where
  bytes : List UInt8
  nulFree : 0 ∉ bytes
deriving DecidableEq, Repr

def CString.chars (s : CString) : String := String.ofList (s.bytes.map fun b => Char.ofNat b.toNat)

/-- A key and its value; the order of a chain's list is its `next` order. -/
abbrev Kvp := CString × ℤ

structure SymTab where
  hashTable : List (List Kvp)
  count : ℕ
  size : ℕ

def initialSize : ℕ := 53

def createSymtab : SymTab where
  hashTable := List.replicate initialSize []
  count := 0
  size := initialSize

/-- A `char` as the `unsigned long` it is converted to; plain `char` is signed. -/
def charWord (b : UInt8) : ℕ := if b.toNat < 128 then b.toNat else 2 ^ 64 - 256 + b.toNat

/-- djb2, reduced to a bucket index. -/
def hash (key : CString) (tableSize : ℕ) : ℕ :=
  key.bytes.foldl (fun h b => (h * 33 + charWord b) % 2 ^ 64) 5381 % tableSize

/-- The trial divisions of `is_prime` from the odd divisor `i` up. -/
def oddTrial (n limit i : ℕ) : Bool :=
  if i ≤ limit then
    if n % i = 0 then false else oddTrial n limit (i + 2)
  else true
termination_by limit + 1 - i

def isPrime (n : ℤ) : Bool :=
  if n < 2 then false
  else if n ≤ 3 then true
  else if n % 2 = 0 then false
  else oddTrial n.toNat (Nat.sqrt n.toNat) 3

theorem oddTrial_of_coprime (n limit i : ℕ) (h : ∀ j, i ≤ j → j ≤ limit → n % j ≠ 0) :
    oddTrial n limit i = true := by
  fun_induction oddTrial n limit i with
  | case1 i hi hd => exact absurd hd (h i le_rfl hi)
  | case2 i hi hd ih => exact ih fun j hj hl => h j (by omega) hl
  | case3 i hi => rfl

theorem isPrime_of_prime {p : ℕ} (hp : p.Prime) : isPrime p = true := by
  have h2 := hp.two_le
  unfold isPrime
  rw [if_neg (by omega)]
  split_ifs with h3 he
  · rfl
  · have hd : 2 ∣ p := by omega
    have := (Nat.prime_dvd_prime_iff_eq Nat.prime_two hp).mp hd
    omega
  · rw [Int.toNat_natCast]
    apply oddTrial_of_coprime
    intro j hj hl hd
    have hlt : j < p := hl.trans_lt (Nat.sqrt_lt_self (by omega))
    rcases hp.eq_one_or_self_of_dvd j (Nat.dvd_of_mod_eq_zero hd) with h | h <;> omega

/-- The first prime from `n` up; it bounds the search of `find_next_prime`. -/
def primeAbove (n : ℤ) : ℕ := Nat.find (Nat.exists_infinite_primes n.toNat)

theorem primeAbove_spec (n : ℤ) : n.toNat ≤ primeAbove n ∧ (primeAbove n).Prime :=
  Nat.find_spec (Nat.exists_infinite_primes n.toNat)

theorem lt_primeAbove {n : ℤ} (h : ¬ isPrime n = true) : n < primeAbove n := by
  obtain ⟨hle, hp⟩ := primeAbove_spec n
  refine lt_of_le_of_ne (by omega) fun he => h ?_
  rw [he]
  exact isPrime_of_prime hp

theorem primeAbove_succ_le {n : ℤ} (h : ¬ isPrime n = true) : primeAbove (n + 1) ≤ primeAbove n := by
  have hlt := lt_primeAbove h
  exact Nat.find_min' _ ⟨by omega, (primeAbove_spec n).2⟩

def findNextPrime (n : ℤ) : ℤ :=
  if isPrime n then n else findNextPrime (n + 1)
termination_by ((primeAbove n : ℤ) - n).toNat
decreasing_by
  have h1 := lt_primeAbove ‹_›
  have h2 := primeAbove_succ_le ‹_›
  omega

theorem le_findNextPrime (n : ℤ) : n ≤ findNextPrime n := by
  fun_induction findNextPrime n with
  | case1 n h => exact le_rfl
  | case2 n h ih => omega

/-- Whether an insertion first resizes: `(float)count / size >= LOAD_FACTOR`. -/
def loadReached (t : SymTab) : Bool := t.size ≤ 2 * t.count

/-- The walk of `insert_sym` down a chain: the new node goes after the last one,
unless the key is met on the way. -/
def chainInsert (key : CString) (value : ℤ) : List Kvp → Option (List Kvp)
  | [] => some [(key, value)]
  | node :: next =>
    if node.1 = key then none else (chainInsert key value next).map (node :: ·)

def resizedTable (t : SymTab) : SymTab :=
  let newSize := (findNextPrime (2 * t.size)).toNat
  { hashTable := List.replicate newSize [], count := 0, size := newSize }

/-- `resize_symtab` on top of a given `insert_sym`: every node of the old table is
inserted again, chain by chain. -/
def resizeSymtab (insert : SymTab → CString → ℤ → Option (SymTab × Bool)) (t : SymTab) :
    Option SymTab :=
  (t.hashTable.take t.size).flatten.foldlM
    (fun new node => (insert new node.1 node.2).map Prod.fst) (resizedTable t)

def insertInBucket (t : SymTab) (key : CString) (value : ℤ) : SymTab × Bool :=
  let index := hash key t.size
  match chainInsert key value (Chains.chainAt t.hashTable index) with
  | none => (t, false)
  | some bucket =>
    ({ t with hashTable := t.hashTable.set index bucket, count := t.count + 1 }, true)

/-- `insert_sym` with at most `depth` activations of itself on the stack; `none` when
they do not suffice. -/
def insertSymAt : ℕ → SymTab → CString → ℤ → Option (SymTab × Bool)
  | 0, _, _, _ => none
  | depth + 1, t, key, value =>
    (if loadReached t then resizeSymtab (insertSymAt depth) t else some t).map
      (insertInBucket · key value)

def insertSym (t : SymTab) (key : CString) (value : ℤ) : SymTab × Bool :=
  (insertSymAt 2 t key value).getD (t, false)

def chainSearch (key : CString) : List Kvp → ℤ
  | [] => -1
  | node :: next => if node.1 = key then node.2 else chainSearch key next

def searchSym (t : SymTab) (key : CString) : ℤ :=
  chainSearch key (Chains.chainAt t.hashTable (hash key t.size))

def chainRemove (key : CString) : List Kvp → Option (List Kvp)
  | [] => none
  | node :: next => if node.1 = key then some next else (chainRemove key next).map (node :: ·)

def removeSym (t : SymTab) (key : CString) : SymTab × Bool :=
  let index := hash key t.size
  match chainRemove key (Chains.chainAt t.hashTable index) with
  | none => (t, false)
  | some bucket =>
    ({ t with hashTable := t.hashTable.set index bucket, count := t.count - 1 }, true)

def removeAllSym (t : SymTab) : SymTab × Bool :=
  ({ t with hashTable := t.hashTable.map fun _ => [], count := 0 }, true)

end RvAssembler
