import Mathlib.NumberTheory.LucasLehmer
import RvAssembler.SymtabMap

namespace RvAssembler

open Relation

theorem oddTrial_iff (n limit i : ℕ) :
    oddTrial n limit i = true ↔ ∀ j, i ≤ j → j ≤ limit → j % 2 = i % 2 → ¬ j ∣ n := by
  fun_induction oddTrial n limit i with
  | case1 i hi hd =>
    refine iff_of_false Bool.false_ne_true fun h => ?_
    exact h i le_rfl hi rfl (Nat.dvd_of_mod_eq_zero hd)
  | case2 i hi hd ih =>
    rw [ih]
    constructor
    · intro h j hj hl hpar
      rcases eq_or_ne j i with rfl | hne
      · exact fun hdvd => hd (Nat.mod_eq_zero_of_dvd hdvd)
      · exact h j (by omega) hl (by omega)
    · exact fun h j hj hl hpar => h j (by omega) hl (by omega)
  | case3 i hi => exact iff_of_true rfl fun j hj hl => absurd (hj.trans hl) hi

/-- The smallest factor of an odd composite number is an odd divisor up to its root. -/
theorem prime_of_oddTrial {n : ℕ} (h1 : n ≠ 1) (hodd : n % 2 = 1)
    (h : oddTrial n (Nat.sqrt n) 3 = true) : n.Prime := by
  by_contra hcomp
  have hdvd := n.minFac_dvd
  have hsq := Nat.minFac_sq_le_self (by omega) hcomp
  have hle : n.minFac ≤ Nat.sqrt n := Nat.le_sqrt.mpr (by rwa [← pow_two])
  have hmin := (Nat.minFac_prime h1).two_le
  have hfac : n.minFac % 2 = 1 := Nat.odd_iff.mp ((Nat.odd_iff.mpr hodd).of_dvd_nat hdvd)
  exact (oddTrial_iff n (Nat.sqrt n) 3).mp h n.minFac (by omega) hle hfac hdvd

/-- `is_prime` decides primality. -/
theorem isPrime_iff (n : ℤ) : isPrime n = true ↔ n.toNat.Prime := by
  constructor
  · intro h
    rw [isPrime] at h
    split_ifs at h with h2 h3 heven
    · have hn : n.toNat = 2 ∨ n.toNat = 3 := by omega
      rcases hn with hn | hn <;> rw [hn] <;> decide
    · exact prime_of_oddTrial (by omega) (by omega) h
  · intro h
    have hpos := h.two_le
    rw [← Int.toNat_of_nonneg (show 0 ≤ n by omega)]
    exact isPrime_of_prime h

theorem findNextPrime_isLeast (n : ℤ) :
    IsLeast {p : ℤ | n ≤ p ∧ p.toNat.Prime} (findNextPrime n) := by
  fun_induction findNextPrime n with
  | case1 n h => exact ⟨⟨le_rfl, (isPrime_iff n).mp h⟩, fun p hp => hp.1⟩
  | case2 n h ih =>
    obtain ⟨⟨hle, hprime⟩, hleast⟩ := ih
    refine ⟨⟨by omega, hprime⟩, fun p hp => hleast ⟨?_, hp.2⟩⟩
    -- `n` itself is not among the primes
    have hne : p ≠ n := fun he => h ((isPrime_iff n).mpr (he ▸ hp.2))
    have := hp.1
    omega

/-- One turn of the loop of `find_next_prime`. -/
def searchStep (n m : ℤ) : Prop := isPrime n = false ∧ m = n + 1

theorem findNextPrime_of_step {n m : ℤ} (h : searchStep n m) : findNextPrime n = findNextPrime m := by
  obtain ⟨hn, rfl⟩ := h
  rw [findNextPrime, hn]
  rfl

theorem reaches_findNextPrime (n : ℤ) : ReflTransGen searchStep n (findNextPrime n) := by
  fun_induction findNextPrime n with
  | case1 n h => exact .refl
  | case2 n h ih => exact ih.head ⟨Bool.eq_false_of_not_eq_true h, rfl⟩

theorem le_findNextPrime_of_reaches {n m : ℤ} (h : ReflTransGen searchStep n m) :
    m ≤ findNextPrime n := by
  have hsame : findNextPrime n = findNextPrime m := by
    induction h with
    | refl => rfl
    | tail _ hstep ih => exact ih.trans (findNextPrime_of_step hstep)
  rw [hsame]
  exact le_findNextPrime m

/-- `INT_MAX` is a Mersenne prime. -/
theorem prime_intMax : Nat.Prime 2147483647 := lucas_lehmer_sufficiency 31 (by simp) (by norm_num)

theorem findNextPrime_le {n : ℤ} (h : n ≤ 2 ^ 31 - 1) : findNextPrime n ≤ 2 ^ 31 - 1 :=
  (findNextPrime_isLeast n).2 ⟨h, prime_intMax⟩

theorem SymTab.Sound.resized_size {t : SymTab} (h : t.Sound) :
    t.resized.size = (RvAssembler.resizedTable t).size := by
  have hroom := h.nodes_room
  exact (reinsert_spec 0 t.nodes _ h.resizedTable h.nodes_nodup
    (fun b _ => congrFun (resizedTable_toMap t) b.1) (by rw [resizedTable_count]; omega)).2.2.1

theorem resizedTable_size_prime (t : SymTab) : (resizedTable t).size.Prime :=
  (findNextPrime_isLeast (2 * t.size)).1.2

/-- `is_prime` is exact, and from every `int` up `find_next_prime` comes to the least prime
without leaving the range of an `int`, which also holds of the divisors it tries; a resize to
twice the size makes the size such a prime. -/
theorem findNextPrime_finds (n : ℤ) (hmax : n ≤ 2 ^ 31 - 1) :
    (∀ m : ℤ, isPrime m = true ↔ m.toNat.Prime) ∧
      IsLeast {p : ℤ | n ≤ p ∧ p.toNat.Prime} (findNextPrime n) ∧
      ReflTransGen searchStep n (findNextPrime n) ∧
      (∀ m, ReflTransGen searchStep n m →
        m ≤ 2 ^ 31 - 1 ∧ (Nat.sqrt m.toNat : ℤ) + 2 ≤ 2 ^ 31 - 1) ∧
      ∀ t : SymTab, t.Sound → 2 * t.size = n →
        ∃ t', resizeSymtab (insertSymAt 1) t = some t' ∧ t'.size.Prime ∧
          2 * t.size ≤ t'.size ∧ t'.size ≤ 2 ^ 31 - 1 := by
  have hint : ∀ m, ReflTransGen searchStep n m → m ≤ 2 ^ 31 - 1 := fun m hm =>
    (le_findNextPrime_of_reaches hm).trans (findNextPrime_le hmax)
  refine ⟨isPrime_iff, findNextPrime_isLeast n, reaches_findNextPrime n, fun m hm => ?_, ?_⟩
  · have hm' := hint m hm
    have hroot : Nat.sqrt m.toNat < 46341 := Nat.sqrt_lt.mpr (by omega)
    omega
  · intro t ht hn
    obtain ⟨hresize, -⟩ := ht.resize 0
    have hsize := ht.resized_size
    have hle := le_resizedTable_size t
    have hmost : ((resizedTable t).size : ℤ) ≤ 2 ^ 31 - 1 := by
      have := findNextPrime_le hmax
      simp only [resizedTable, hn]
      omega
    refine ⟨_, hresize, ?_, ?_, ?_⟩
    · rw [hsize]
      exact resizedTable_size_prime t
    · omega
    · omega

theorem findNextPrime_finds_twice_53 :
    IsLeast {p : ℤ | 106 ≤ p ∧ p.toNat.Prime} (findNextPrime 106) ∧
      ∃ t', resizeSymtab (insertSymAt 1) createSymtab = some t' ∧ t'.size.Prime ∧
        106 ≤ t'.size ∧ t'.size ≤ 2 ^ 31 - 1 := by
  obtain ⟨-, hleast, -, -, hresize⟩ := findNextPrime_finds 106 (by decide)
  exact ⟨hleast, hresize createSymtab createSymtab_sound rfl⟩

end RvAssembler
