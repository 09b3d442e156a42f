import RvAssembler.ElfLayout
import RvAssembler.Labels

namespace RvAssembler

theorem isLeast_roundUp {a : ℕ} (ha : 0 < a) (x : ℕ) :
    IsLeast {m | x ≤ m ∧ a ∣ m} (roundUp x a) := by
  refine ⟨⟨?_, Dvd.intro_left _ rfl⟩, ?_⟩
  · have := Nat.lt_div_mul_add (a := x + (a - 1)) ha
    rw [roundUp]
    omega
  · rintro m ⟨hle, b, rfl⟩
    have hlt : (x + (a - 1)) / a < b + 1 := by
      rw [Nat.div_lt_iff_lt_mul ha, Nat.add_mul, Nat.one_mul, Nat.mul_comm b a]
      omega
    rw [roundUp, Nat.mul_comm a b]
    exact Nat.mul_le_mul_right a (Nat.le_of_lt_succ hlt)

theorem roundUp_mod_eq {a n : ℕ} (h : a ∣ n) (x : ℕ) :
    (x % n + (a - 1)) % n / a * a = roundUp x a % n := by
  obtain ⟨b, rfl⟩ := h
  rw [Nat.mod_add_mod, Nat.mod_mul_right_div_self, roundUp, Nat.mul_comm, Nat.mul_comm _ a,
    Nat.mul_mod_mul_left]

theorem u32_add_u32_sub {x y : ℕ} (hx : x < 2 ^ 32) (hy : y < 2 ^ 32) :
    u32 (x + u32 (y + 2 ^ 32 - x)) = y := by
  simp only [u32]
  omega

theorem u32_add_passAlignPad (x : ℕ) {k : ℕ} (hk : k < 32) :
    u32 (u32 x + passAlignPad (u32 x) k) = u32 (roundUp x (2 ^ k)) := by
  have hlt : ∀ y, u32 y < 2 ^ 32 := fun y => Nat.mod_lt y (by decide)
  have halign : passAlignToPow2 (u32 x) k = u32 (roundUp x (2 ^ k)) := by
    simp only [passAlignToPow2, Nat.mod_eq_of_lt hk, Nat.one_shiftLeft, not32]
    rw [Bits.and_compl_low (hlt _) (by omega)]
    exact roundUp_mod_eq (Nat.pow_dvd_pow 2 (by omega)) x
  rw [passAlignPad, halign]
  exact u32_add_u32_sub (hlt x) (hlt _)

/-- The counter after an item.  There is none after an `.align` to a power of two that a
`uint32_t` has no room for. -/
def Item.countFrom (x : ℕ) : Item → Option ℕ
  | .align pow2 =>
    if 0 ≤ pow2.toInt ∧ pow2.toInt ≤ 31 then some (roundUp x (2 ^ pow2.toInt.toNat)) else none
  | .space n => some (x + n.toInt.toNat)
  | it => some (x + it.bytes)

def countIn (s : Section) : Section → ℕ → Program → Option ℕ
  | _, x, [] => some x
  | cur, x, p :: prog =>
    (if cur = s then p.2.countFrom x else some x).bind fun y =>
      countIn s (p.2.nextSection cur) y prog

theorem Item.u32_countFrom {c : Counters} {x y : ℕ} {it : Item}
    (hc : passCurrentPc c = u32 x) (h : it.countFrom x = some y) :
    u32 (passCurrentPc c + it.moves c) = u32 y := by
  cases it
  case align pow2 =>
    simp only [countFrom] at h
    split_ifs at h with hk
    obtain rfl := Option.some.inj h
    have hpow : (pow2.toBitVec.setWidth 32).toNat = pow2.toInt.toNat := by
      have hval : pow2.toInt = pow2.toBitVec.toInt := rfl
      have hcond := BitVec.toInt_eq_toNat_cond pow2.toBitVec
      rw [BitVec.toNat_setWidth]
      split_ifs at hcond <;> omega
    rw [moves, alignPad, hpow, hc]
    exact u32_add_passAlignPad x (by omega)
  case space n =>
    obtain rfl := Option.some.inj h
    rw [moves, hc]
    split_ifs with hn
    · simp only [Int.toNat_of_nonpos hn.le, Nat.add_zero, u32, Nat.mod_mod]
    · simp only [u32, Nat.add_mod_mod, Nat.mod_add_mod]
  all_goals
    obtain rfl := Option.some.inj h
    rw [hc, u32_u32_add]
    rfl

theorem pc_execItem {st : Pass1} (h : st.Good) (line : ℤ) {it : Item} {s : Section} {x y : ℕ}
    (hx : st.counters.pc s = u32 x)
    (hy : (if st.counters.curSection = s then it.countFrom x else some x) = some y) :
    (execItem st line it).counters.pc s = u32 y := by
  rw [execItem_pc h.counters]
  by_cases hs : st.counters.curSection = s
  · rw [if_pos hs] at hy
    rw [if_pos hs.symm]
    subst hs
    exact Item.u32_countFrom hx hy
  · rw [if_neg hs] at hy
    rw [if_neg (Ne.symm hs), hx, Option.some.inj hy]

theorem pc_countIn {st : Pass1} (h : st.Good) {s : Section} {prog : Program} {x y : ℕ}
    (hx : st.counters.pc s = u32 x) (hy : countIn s st.counters.curSection x prog = some y) :
    (execAll st prog).counters.pc s = u32 y := by
  induction prog generalizing st x with
  | nil =>
    obtain rfl := Option.some.inj hy
    exact hx
  | cons p prog ih =>
    obtain ⟨z, hz, hy⟩ := Option.bind_eq_some_iff.mp hy
    rw [execAll_cons]
    refine ih (h.exec p.1 p.2) (pc_execItem h p.1 hx hz) ?_
    rw [execItem_curSection h]
    exact hy

theorem pc_pass1Run {s : Section} {prog : Program} {x : ℕ} (h : countIn s .text 0 prog = some x) :
    (pass1Run prog).counters.pc s = u32 x :=
  pc_countIn good_start (by cases s <;> rfl) h

/-- The location counters, and what the symbol table holds for the labels, are those of
unbounded integers. -/
structure CountsExactly (prog : Program) : Prop where
  counters : ∀ s, countIn s .text 0 prog = some ((pass1Run prog).counters.pc s)
  labels : ∀ pre name, Defines prog pre name → ∃ x : ℕ,
    countIn (sectionAfter .text pre) .text 0 pre = some x ∧
      searchSym (pass1Run prog).symtab name.toCString = x

/-- Either pass 1 reports an error or its counters and labels are exact, if and only if it
reports one or no `.align` goes by more than 31, the counters end below `2 ^ 32` and every label
stands below `2 ^ 31`. -/
theorem countsExactly_iff_below (prog : Program) :
    ((pass1Run prog).stderr ≠ [] ∨ CountsExactly prog) ↔
      (pass1Run prog).stderr ≠ [] ∨
        (∀ s, ∃ x < 2 ^ 32, countIn s .text 0 prog = some x) ∧
        ∀ pre name, Defines prog pre name →
          ∃ x < 2 ^ 31, countIn (sectionAfter .text pre) .text 0 pre = some x := by
  refine or_congr Iff.rfl ⟨fun h => ⟨fun s => ?_, fun pre name hdef => ?_⟩, ?_⟩
  · exact ⟨_, (pass1Run_good prog).counters s, h.counters s⟩
  · obtain ⟨x, hx, hvalue⟩ := h.labels pre name hdef
    rw [hdef.searchSym, i32_eq] at hvalue
    exact ⟨x, by omega, hx⟩
  · rintro ⟨hcounters, hlabels⟩
    refine ⟨fun s => ?_, fun pre name hdef => ?_⟩
    · obtain ⟨x, hlt, hx⟩ := hcounters s
      rw [pc_pass1Run hx, u32, Nat.mod_eq_of_lt hlt, hx]
    · obtain ⟨x, hlt, hx⟩ := hlabels pre name hdef
      refine ⟨x, hx, ?_⟩
      rw [hdef.searchSym, passCurrentPc, pass1Run_curSection, pc_pass1Run hx, i32_eq, u32]
      omega

def wholeSpace : Program := [(1, .data), (2, .space 4294967296), (3, .label (letter 0))]

/-- The counter and the label behind it are back at zero, and nothing is reported. -/
theorem wholeSpace_not_countsExactly :
    (pass1Run wholeSpace).stderr = [] ∧
      ¬ ((pass1Run wholeSpace).stderr ≠ [] ∨ CountsExactly wholeSpace) := by
  have hquiet : (pass1Run wholeSpace).stderr = [] := by decide +kernel
  refine ⟨hquiet, ?_⟩
  rintro (h | h)
  · exact h hquiet
  · have hdata := h.counters .data
    have hexact : countIn .data .text 0 wholeSpace = some 4294967296 := by decide +kernel
    have hpc : (pass1Run wholeSpace).counters.pc .data = 0 := by decide +kernel
    rw [hexact, hpc] at hdata
    cases hdata

end RvAssembler
