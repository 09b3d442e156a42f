import RvAssembler.Elf

namespace RvAssembler

open Bytes Image

def roundUp (x a : ℕ) : ℕ := (x + (a - 1)) / a * a

/-- The plan in unbounded arithmetic. -/
def idealPlan (is64 : Bool) (textSize dataSize : ℕ) : ElfPlan :=
  planWith roundUp is64 textSize dataSize

theorem alignUp_eq (is64 : Bool) {x a : ℕ} (ha : a = 4 ∨ a = 8 ∨ a = 4096)
    (h : roundUp x a < 2 ^ 32) : alignUp is64 x a = roundUp x a := by
  obtain ⟨k, hk, rfl⟩ : ∃ k ≤ 12, a = 2 ^ k := by
    rcases ha with rfl | rfl | rfl
    · exact ⟨2, by decide, rfl⟩
    · exact ⟨3, by decide, rfl⟩
    · exact ⟨12, by decide, rfl⟩
  have hlt : x + (2 ^ k - 1) < 2 ^ 32 := by
    simp only [roundUp] at h
    rcases ha with h2 | h2 | h2 <;> rw [h2] at h ⊢ <;> omega
  rw [roundUp, alignUp]
  split_ifs
  · rw [alignUpU64, Nat.mod_eq_of_lt (by omega), Bits.and_compl_low (by omega) (by omega)]
  · rw [alignUpU32, u32, Nat.mod_eq_of_lt (a := x) (by omega), Nat.mod_eq_of_lt hlt,
      Bits.and_compl_low hlt (by omega)]

theorem le_roundUp {a : ℕ} (ha : a = 4 ∨ a = 8 ∨ a = 4096) (x : ℕ) : x ≤ roundUp x a := by
  rw [roundUp]
  rcases ha with rfl | rfl | rfl <;> omega

theorem shdr_align (is64 : Bool) : (if is64 = true then 8 else 4) = 4 ∨
    (if is64 = true then 8 else 4) = 8 ∨ (if is64 = true then 8 else 4) = 4096 := by
  cases is64 <;> simp

/-- No offset of a plan whose parts start below 4 GiB wraps around. -/
theorem elfPlan_eq {is64 : Bool} {textSize dataSize : ℕ}
    (h : (idealPlan is64 textSize dataSize).shoff < 2 ^ 32) :
    elfPlan is64 textSize dataSize = idealPlan is64 textSize dataSize := by
  have hsz : 0 < shdrSz is64 := by cases is64 <;> decide
  have ha := shdr_align is64
  have hp : (4096 : ℕ) = 4 ∨ (4096 : ℕ) = 8 ∨ (4096 : ℕ) = 4096 := .inr (.inr rfl)
  simp only [elfPlan, idealPlan, planWith] at h ⊢
  by_cases ht : textSize = 0 <;> by_cases hd : dataSize = 0 <;>
    simp only [ht, hd, ne_eq, not_true_eq_false, not_false_eq_true, ↓reduceIte] at h ⊢
  · rw [alignUp_eq is64 ha (by omega)]
  · have h1 := le_roundUp ha (roundUp (ehdrSz is64 + phdrSz is64 * (0 + 1)) 4096 + dataSize +
      (shstrtab False True).length)
    rw [alignUp_eq is64 hp (by omega), alignUp_eq is64 ha (by omega)]
  · have h1 := le_roundUp ha (roundUp (ehdrSz is64 + phdrSz is64 * (1 + 0)) 4096 + textSize +
      (shstrtab True False).length)
    rw [alignUp_eq is64 hp (by omega), alignUp_eq is64 ha (by omega)]
  · have h1 := le_roundUp hp (roundUp (ehdrSz is64 + phdrSz is64 * (1 + 1)) 4096 + textSize)
    have h2 := le_roundUp ha (roundUp (roundUp (ehdrSz is64 + phdrSz is64 * (1 + 1)) 4096 +
      textSize) 4096 + dataSize + (shstrtab True True).length)
    rw [alignUp_eq is64 hp (by omega), alignUp_eq is64 hp (by omega), alignUp_eq is64 ha (by omega)]

structure ElfPlan.Ordered (plan : ElfPlan) (is64 : Bool) (textSize dataSize : ℕ) : Prop where
  text : textSize ≠ 0 → ehdrSz is64 + phdrSz is64 * plan.phnum ≤ plan.textOff ∧
    plan.textOff % 4096 = 0
  data : dataSize ≠ 0 → ehdrSz is64 + phdrSz is64 * plan.phnum ≤ plan.dataOff ∧
    plan.dataOff % 4096 = 0
  text_data : textSize ≠ 0 → dataSize ≠ 0 → plan.textOff + textSize ≤ plan.dataOff
  text_end : textSize ≠ 0 → plan.textOff + textSize ≤ plan.shstrOff
  data_end : dataSize ≠ 0 → plan.dataOff + dataSize ≤ plan.shstrOff
  headers_end : ehdrSz is64 + phdrSz is64 * plan.phnum ≤ plan.shstrOff
  strtab_end : plan.shstrOff + (shstrtab (textSize ≠ 0) (dataSize ≠ 0)).length ≤ plan.shoff
  phnum : plan.phnum = (if textSize ≠ 0 then 1 else 0) + (if dataSize ≠ 0 then 1 else 0)
  shnum : plan.shnum = 2 + (if textSize ≠ 0 then 1 else 0) + (if dataSize ≠ 0 then 1 else 0)
  fileEnd : plan.fileEnd = plan.shoff + shdrSz is64 * plan.shnum

theorem roundUp_mod (x a : ℕ) : roundUp x a % a = 0 := Nat.mul_mod_left _ _

theorem idealPlan_ordered (is64 : Bool) (textSize dataSize : ℕ) :
    (idealPlan is64 textSize dataSize).Ordered is64 textSize dataSize := by
  have ha := shdr_align is64
  have hp : (4096 : ℕ) = 4 ∨ (4096 : ℕ) = 8 ∨ (4096 : ℕ) = 4096 := .inr (.inr rfl)
  have h01 := le_roundUp hp (ehdrSz is64 + phdrSz is64 * (0 + 1))
  have h10 := le_roundUp hp (ehdrSz is64 + phdrSz is64 * (1 + 0))
  have h11 := le_roundUp hp (ehdrSz is64 + phdrSz is64 * (1 + 1))
  have h11' := le_roundUp hp (roundUp (ehdrSz is64 + phdrSz is64 * (1 + 1)) 4096 + textSize)
  by_cases ht : textSize = 0 <;> by_cases hd : dataSize = 0 <;>
    constructor <;>
    simp only [idealPlan, planWith, ht, hd, ne_eq, not_true_eq_false, not_false_eq_true, ↓reduceIte,
      IsEmpty.forall_iff, forall_const, roundUp_mod, and_true, le_roundUp ha, le_refl]
  all_goals omega

theorem length_pack_phdr (is64 : Bool) (h : Phdr) :
    (pack (h.fields is64)).length = phdrSz is64 := by
  rw [length_pack]
  cases is64 <;> rfl

theorem length_pack_shdr (is64 : Bool) (h : Shdr) :
    (pack (h.fields is64)).length = shdrSz is64 := by
  rw [length_pack]
  cases is64 <;> rfl

theorem length_pack_ehdr (is64 : Bool) (g : OutCtx) (plan : ElfPlan) (entryAddr : ℕ) :
    (pack ((elfEhdr is64 g plan entryAddr).fields is64)).length = ehdrSz is64 := by
  rw [length_pack]
  cases is64 <;> simp [Ehdr.fields, elfEhdr, addrSize, ehdrSz]

theorem pack_append (fs fs' : List (ℕ × ℕ)) : pack (fs ++ fs') = pack fs ++ pack fs' :=
  List.flatMap_append

theorem elfWritesOf_apart {is64 : Bool} {g : OutCtx} {plan : ElfPlan} (entryAddr : ℕ)
    (hord : plan.Ordered is64 g.text.length g.data.length) :
    ((elfWritesOf is64 g plan entryAddr).map span).Pairwise Apart := by
  obtain ⟨h1, h2, h3, h4, h5, h6, h7, h8, h9, -⟩ := hord
  rw [h8] at h1 h2 h6
  by_cases ht : g.text.length = 0 <;> by_cases hd : g.data.length = 0 <;>
    simp only [ht, hd, ne_eq, not_true_eq_false, not_false_eq_true, ↓reduceIte, forall_const,
      IsEmpty.forall_iff, decide_true, decide_false] at h1 h2 h3 h4 h5 h6 h7 h8 h9 <;>
    simp [elfWritesOf, elfPhdrs, elfShdrs, ht, hd, h8, List.zipIdx_cons, span, length_pack_shdr,
      length_pack_ehdr, length_pack_phdr, pack_append, Apart]
  all_goals omega

end RvAssembler
