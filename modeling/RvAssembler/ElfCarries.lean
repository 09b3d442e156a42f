import RvAssembler.ElfLayout
import RvAssembler.ElfRead
import RvAssembler.OutOps

namespace RvAssembler

open Bytes Image

theorem writeAllAt_allOps (ws : List (ℕ × List UInt8)) {g : OutCtx} {f : OutFile}
    (hfp : g.fp = some f) :
    (writeAllAt allOps g ws).2 = true ∧
      (writeAllAt allOps g ws).1.fp = some { f with bytes := overwriteAll 0 f.bytes ws } := by
  have hok : (writeAllAt allOps g ws).2 = true :=
    (writeAllAt_uses allOps (by rw [hfp]; rfl) ws).ok.mpr fun _ _ => rfl
  exact ⟨hok, writeAllAt_bytes hfp hok⟩

theorem readRecord_of_slice {img : List UInt8} {off : ℕ} {fields : List (ℕ × ℕ)}
    (h : slice 0 img off (pack fields).length = pack fields) :
    readRecord img off (fields.map Prod.fst) = fields.map fun f => f.2 % 256 ^ f.1 := by
  rw [readRecord, ← length_pack, h, unpack_pack]

/-- Whether every field of a structure has room for its value. -/
def Fits (fields : List (ℕ × ℕ)) : Prop := ∀ f ∈ fields, f.2 < 256 ^ f.1

theorem readRecord_eq {img : List UInt8} {off : ℕ} {fields : List (ℕ × ℕ)} (hfit : Fits fields)
    (h : slice 0 img off (pack fields).length = pack fields) :
    readRecord img off (fields.map Prod.fst) = fields.map Prod.snd := by
  rw [readRecord_of_slice h]
  exact List.map_congr_left fun f hf => Nat.mod_eq_of_lt (hfit f hf)

theorem Phdr.map_fst_fields (is64 : Bool) (h : Phdr) :
    (h.fields is64).map Prod.fst = phdrWidths is64 := by
  cases is64 <;> rfl

theorem Phdr.ofList_fields (is64 : Bool) (h : Phdr) :
    Phdr.ofList is64 ((h.fields is64).map Prod.snd) = h := by
  cases is64 <;> rfl

theorem Shdr.map_fst_fields (is64 : Bool) (h : Shdr) :
    (h.fields is64).map Prod.fst = shdrWidths is64 := by
  cases is64 <;> rfl

theorem Shdr.ofList_fields (is64 : Bool) (h : Shdr) :
    Shdr.ofList ((h.fields is64).map Prod.snd) = h := by
  cases is64 <;> rfl

theorem readRecord_phdrs (is64 : Bool) {img : List UInt8} (phs : List Phdr) (off : ℕ)
    (hfit : ∀ ph ∈ phs, Fits (ph.fields is64))
    (h : slice 0 img off (pack (phs.flatMap (Phdr.fields is64))).length =
      pack (phs.flatMap (Phdr.fields is64))) :
    ((List.range phs.length).map fun i =>
      Phdr.ofList is64 (readRecord img (off + i * phdrSz is64) (phdrWidths is64))) = phs := by
  induction phs generalizing off with
  | nil => rfl
  | cons ph phs ih =>
    rw [List.flatMap_cons, pack_append, List.length_append, slice_add] at h
    obtain ⟨hhead, htail⟩ := List.append_inj h (length_slice ..)
    rw [length_pack_phdr] at htail
    have hph : Phdr.ofList is64 (readRecord img off (phdrWidths is64)) = ph := by
      rw [← ph.map_fst_fields is64, readRecord_eq (hfit ph List.mem_cons_self) hhead,
        ph.ofList_fields]
    have hphs := ih (off + phdrSz is64) (fun p hp => hfit p (List.mem_cons_of_mem _ hp)) htail
    rw [List.length_cons, List.range_succ_eq_map, List.map_cons, List.map_map, Nat.zero_mul,
      Nat.add_zero, hph]
    congr 1
    refine Eq.trans (List.map_congr_left fun i _ => ?_) hphs
    simp only [Function.comp_apply, Nat.succ_mul]
    congr 2
    omega

section Written

variable {is64 : Bool} {g : OutCtx} {plan : ElfPlan} {entryAddr : ℕ} {img : List UInt8}

structure ElfPlan.Small (plan : ElfPlan) (g : OutCtx) : Prop where
  textOff : plan.textOff < 2 ^ 32
  dataOff : plan.dataOff < 2 ^ 32
  shstrOff : plan.shstrOff < 2 ^ 32
  shoff : plan.shoff < 2 ^ 32
  textSize : g.text.length < 2 ^ 32
  dataSize : g.data.length < 2 ^ 32
  textBase : g.vaddrTextBase < 2 ^ 32
  dataBase : g.vaddrDataBase < 2 ^ 32

theorem ElfPlan.Ordered.phnum_le {textSize dataSize : ℕ}
    (h : plan.Ordered is64 textSize dataSize) : plan.phnum ≤ 2 ∧ 2 ≤ plan.shnum ∧ plan.shnum ≤ 4 := by
  rw [h.phnum, h.shnum]
  split_ifs <;> omega

/-- The ELF header as it can be read: the entry address is cut to the width of an address. -/
def shownEhdr (is64 : Bool) (g : OutCtx) (plan : ElfPlan) (entryAddr : ℕ) : Ehdr :=
  let eh := elfEhdr is64 g plan entryAddr
  { eh with entry := eh.entry % 256 ^ addrSize is64 }

theorem Fits_loadPhdr {flags base off size : ℕ} (hf : flags < 2 ^ 32) (hb : base < 2 ^ 32)
    (ho : off < 2 ^ 32) (hs : size < 2 ^ 32) : Fits ((loadPhdr flags base off size).fields is64) := by
  cases is64 <;>
    simp only [Fits, Phdr.fields, loadPhdr, Bool.false_eq_true, ↓reduceIte, List.forall_mem_cons,
      List.not_mem_nil, IsEmpty.forall_iff, implies_true, and_true] <;>
    omega

theorem fits_elfPhdrs (h : plan.Small g) : ∀ ph ∈ elfPhdrs g plan, Fits (ph.fields is64) := by
  intro ph hph
  simp only [elfPhdrs, List.mem_append, List.mem_ite_nil_right, List.mem_singleton] at hph
  rcases hph with ⟨-, rfl⟩ | ⟨-, rfl⟩
  · exact Fits_loadPhdr (by decide) h.textBase h.textOff h.textSize
  · exact Fits_loadPhdr (by decide) h.dataBase h.dataOff h.dataSize

theorem fits_shdr {sh : Shdr} (hn : sh.name < 2 ^ 32) (ht : sh.type < 2 ^ 32)
    (hf : sh.flags < 2 ^ 32) (ha : sh.addr < 2 ^ 32) (ho : sh.offset < 2 ^ 32)
    (hs : sh.size < 2 ^ 32) (hl : sh.link < 2 ^ 32) (hi : sh.info < 2 ^ 32)
    (hal : sh.addralign < 2 ^ 32) (he : sh.entsize < 2 ^ 32) : Fits (sh.fields is64) := by
  cases is64 <;>
    simp only [Fits, Shdr.fields, addrSize, Bool.false_eq_true, ↓reduceIte, List.forall_mem_cons,
      List.not_mem_nil, IsEmpty.forall_iff, implies_true, and_true] <;>
    omega

theorem fits_elfShdrs (h : plan.Small g) : ∀ sh ∈ elfShdrs g plan, Fits (sh.fields is64) := by
  have hstr : ∀ t d, (shstrtab t d).length < 2 ^ 32 := by decide
  intro sh hsh
  simp only [elfShdrs, List.mem_append, List.mem_ite_nil_right, List.mem_singleton] at hsh
  rcases hsh with ((rfl | ⟨-, rfl⟩) | ⟨-, rfl⟩) | rfl
  all_goals apply fits_shdr <;> dsimp only
  all_goals first
    | exact h.textBase | exact h.textOff | exact h.textSize
    | exact h.dataBase | exact h.dataOff | exact h.dataSize
    | exact h.shstrOff | exact hstr _ _
    | decide
    | split_ifs <;> decide

def Written (img : List UInt8) (ws : List (ℕ × List UInt8)) : Prop :=
  ∀ w ∈ ws, slice 0 img w.1 w.2.length = w.2

theorem map_fst_elfEhdr (is64 : Bool) (g : OutCtx) (plan : ElfPlan) (entryAddr : ℕ) :
    ((elfEhdr is64 g plan entryAddr).fields is64).map Prod.fst = ehdrWidths is64 := by
  cases is64 <;> rfl

theorem shows_ehdr (h : plan.Small g) (hord : plan.Ordered is64 g.text.length g.data.length)
    (hw : Written img (elfWritesOf is64 g plan entryAddr)) :
    readRecord img 0 (ehdrWidths is64) =
      ((shownEhdr is64 g plan entryAddr).fields is64).map Prod.snd := by
  have hslice := hw (0, pack ((elfEhdr is64 g plan entryAddr).fields is64)) (by simp [elfWritesOf])
  have := hord.phnum_le
  have := h.shoff
  rw [← map_fst_elfEhdr is64 g plan entryAddr, readRecord_of_slice hslice]
  have hphoff : (if plan.phnum ≠ 0 then ehdrSz is64 else 0) ≤ 64 := by
    cases is64 <;> split_ifs <;> decide
  have hflags : (if g.hasRvc = true then 1 else 0) ≤ 1 := by split_ifs <;> omega
  generalize hp : (if plan.phnum ≠ 0 then ehdrSz is64 else 0) = phoff at hphoff
  generalize hr : (if g.hasRvc = true then 1 else 0) = flags at hflags
  simp only [shownEhdr, elfEhdr, hp, hr]
  cases is64 <;>
    simp [Ehdr.fields, addrSize, ehdrSz, phdrSz, shdrSz]
  all_goals omega

theorem readClass_of_slice
    (hslice : slice 0 img 0 (pack ((elfEhdr is64 g plan entryAddr).fields is64)).length =
      pack ((elfEhdr is64 g plan entryAddr).fields is64)) : readClass img = is64 := by
  have hlen : 4 + 1 ≤ (pack ((elfEhdr is64 g plan entryAddr).fields is64)).length := by
    rw [length_pack_ehdr]
    cases is64 <;> decide
  have hbyte := slice_slice 0 img 0 _ 4 1 hlen
  rw [hslice, Nat.zero_add] at hbyte
  rw [readClass, readRecord, List.sum_singleton, hbyte]
  cases is64 <;> simp [Ehdr.fields, elfEhdr, le, unpack, unle]

theorem readClass_eq (hw : Written img (elfWritesOf is64 g plan entryAddr)) :
    readClass img = is64 :=
  readClass_of_slice
    (hw (0, pack ((elfEhdr is64 g plan entryAddr).fields is64)) (by simp [elfWritesOf]))

theorem readEhdr_eq (h : plan.Small g) (hord : plan.Ordered is64 g.text.length g.data.length)
    (hw : Written img (elfWritesOf is64 g plan entryAddr)) :
    readEhdr img = shownEhdr is64 g plan entryAddr := by
  rw [readEhdr, readClass_eq hw, shows_ehdr h hord hw]
  rfl

theorem length_elfPhdrs (hord : plan.Ordered is64 g.text.length g.data.length) :
    (elfPhdrs g plan).length = plan.phnum := by
  rw [hord.phnum, elfPhdrs, List.length_append]
  split_ifs <;> rfl

theorem length_elfShdrs (hord : plan.Ordered is64 g.text.length g.data.length) :
    (elfShdrs g plan).length = plan.shnum := by
  rw [hord.shnum, elfShdrs]
  simp only [List.length_append]
  split_ifs <;> rfl

theorem readPhdrs_eq (h : plan.Small g) (hord : plan.Ordered is64 g.text.length g.data.length)
    (hw : Written img (elfWritesOf is64 g plan entryAddr)) :
    readPhdrs img = elfPhdrs g plan := by
  simp only [readPhdrs, readEhdr_eq h hord hw, readClass_eq hw]
  by_cases hph : plan.phnum = 0
  · have hnil := List.length_eq_zero_iff.mp ((length_elfPhdrs hord).trans hph)
    simp [shownEhdr, elfEhdr, hph, hnil]
  · have hslice := hw (ehdrSz is64, pack ((elfPhdrs g plan).flatMap (Phdr.fields is64)))
      (by simp [elfWritesOf, Nat.pos_iff_ne_zero, hph])
    simp only [shownEhdr, elfEhdr, ne_eq, hph, not_false_eq_true, ↓reduceIte]
    rw [← length_elfPhdrs hord]
    exact readRecord_phdrs is64 _ _ (fits_elfPhdrs h) hslice

theorem readShdr_eq (h : plan.Small g) (hord : plan.Ordered is64 g.text.length g.data.length)
    (hw : Written img (elfWritesOf is64 g plan entryAddr)) {i : ℕ}
    (hi : i < (elfShdrs g plan).length) : readShdr img i = (elfShdrs g plan)[i] := by
  have hmem : (plan.shoff + i * shdrSz is64, pack ((elfShdrs g plan)[i].fields is64)) ∈
      elfWritesOf is64 g plan entryAddr := by
    rw [elfWritesOf, List.mem_append, List.mem_append]
    refine .inl (.inr (List.mem_map.mpr ⟨((elfShdrs g plan)[i], i), ?_, rfl⟩))
    exact List.mk_mem_zipIdx_iff_getElem?.mpr (List.getElem?_eq_getElem hi)
  have hfit : Fits ((elfShdrs g plan)[i].fields is64) := fits_elfShdrs h _ (List.getElem_mem hi)
  simp only [readShdr, readEhdr_eq h hord hw, readClass_eq hw]
  rw [← Shdr.map_fst_fields is64 (elfShdrs g plan)[i]]
  simp only [shownEhdr, elfEhdr]
  rw [readRecord_eq hfit (hw _ hmem), Shdr.ofList_fields]

theorem readShdrs_eq (h : plan.Small g) (hord : plan.Ordered is64 g.text.length g.data.length)
    (hw : Written img (elfWritesOf is64 g plan entryAddr)) :
    readShdrs img = elfShdrs g plan := by
  have hnum : (readEhdr img).shnum = (elfShdrs g plan).length := by
    rw [readEhdr_eq h hord hw, length_elfShdrs hord]
    rfl
  apply List.ext_getElem
  · rw [readShdrs, List.length_map, List.length_range, hnum]
  · intro i h1 h2
    simp only [readShdrs, List.getElem_map, List.getElem_range]
    exact readShdr_eq h hord hw h2

theorem readShdr_strtab (h : plan.Small g) (hord : plan.Ordered is64 g.text.length g.data.length)
    (hw : Written img (elfWritesOf is64 g plan entryAddr)) :
    (readShdr img (readEhdr img).shstrndx).offset = plan.shstrOff ∧
      (readShdr img (readEhdr img).shstrndx).size =
        (shstrtab (g.text.length ≠ 0) (g.data.length ≠ 0)).length := by
  have hidx : (readEhdr img).shstrndx = (elfShdrs g plan).length - 1 := by
    rw [readEhdr_eq h hord hw, length_elfShdrs hord]
    rfl
  have hpos : (elfShdrs g plan).length - 1 < (elfShdrs g plan).length := by
    have := hord.phnum_le
    rw [length_elfShdrs hord]
    omega
  rw [hidx, readShdr_eq h hord hw hpos, ← List.getLast_eq_getElem (by grind)]
  simp [elfShdrs]

theorem readName_eq (h : plan.Small g) (hord : plan.Ordered is64 g.text.length g.data.length)
    (hw : Written img (elfWritesOf is64 g plan entryAddr)) (sh : Shdr)
    (hname : sh.name ≤ (shstrtab (g.text.length ≠ 0) (g.data.length ≠ 0)).length) :
    readName img sh = ((shstrtab (g.text.length ≠ 0) (g.data.length ≠ 0)).drop sh.name).takeWhile
      (· ≠ 0) := by
  obtain ⟨hoff, hsize⟩ := readShdr_strtab h hord hw
  have hslice := hw (plan.shstrOff, shstrtab (g.text.length ≠ 0) (g.data.length ≠ 0))
    (by simp [elfWritesOf])
  simp only [readName, hoff, hsize]
  rw [slice_slice 0 img _ (shstrtab (g.text.length ≠ 0) (g.data.length ≠ 0)).length _ _ (by omega),
    hslice, List.take_of_length_le (by rw [List.length_drop])]

theorem loadedSections_eq (text data : List UInt8) :
    loadedSections text data =
      (if text.length ≠ 0 then [⟨ascii ['.', 't', 'e', 'x', 't'], 0x00100000, text⟩] else []) ++
      (if data.length ≠ 0 then [⟨ascii ['.', 'd', 'a', 't', 'a'], 0x00200000, data⟩] else []) := by
  by_cases ht : text.length = 0 <;> by_cases hd : data.length = 0 <;>
    simp only [loadedSections, List.filter_cons, List.filter_nil, ht, hd, ne_eq, not_true_eq_false,
      not_false_eq_true, decide_true, decide_false, Bool.false_eq_true, ↓reduceIte,
      List.cons_append, List.nil_append]

theorem segments_hold (hord : plan.Ordered is64 g.text.length g.data.length)
    (hw : Written img (elfWritesOf is64 g plan entryAddr)) (htb : g.vaddrTextBase = 0x00100000)
    (hdb : g.vaddrDataBase = 0x00200000) :
    List.Forall₂ (SegmentHolds img) (elfPhdrs g plan) (loadedSections g.text g.data) := by
  have hsegment : ∀ {flags base off : ℕ} {bytes name : List UInt8},
      (off, bytes) ∈ elfWritesOf is64 g plan entryAddr → base % 4096 = 0 → off % 4096 = 0 →
      SegmentHolds img (loadPhdr flags base off bytes.length) ⟨name, base, bytes⟩ :=
    fun hmem hbase hoff =>
      ⟨rfl, hw _ hmem, rfl, rfl, rfl, Nat.succ_pos 4095, hoff.trans hbase.symm⟩
  rw [loadedSections_eq, elfPhdrs, htb, hdb]
  refine List.rel_append ?_ ?_
  · split_ifs with ht
    · exact .cons (hsegment (by simp [elfWritesOf, List.length_eq_zero_iff.not.mp ht])
        (by decide) (hord.text ht).2) .nil
    · exact .nil
  · split_ifs with hd
    · exact .cons (hsegment (by simp [elfWritesOf, List.length_eq_zero_iff.not.mp hd])
        (by decide) (hord.data hd).2) .nil
    · exact .nil

theorem sections_hold (h : plan.Small g) (hord : plan.Ordered is64 g.text.length g.data.length)
    (hw : Written img (elfWritesOf is64 g plan entryAddr)) :
    ∃ shs strtab, elfShdrs g plan = {} :: shs ++ [strtab] ∧ plan.shnum - 1 = shs.length + 1 ∧
      readName img strtab = ascii ['.', 's', 'h', 's', 't', 'r', 't', 'a', 'b'] ∧
      List.Forall₂ (HeaderHolds img) shs
        ((elfPhdrs g plan).zip (loadedSections g.text g.data)) := by
  have hname : ∀ {sh : Shdr} (n : ℕ) (name : List UInt8), sh.name = n →
      n ≤ (shstrtab (g.text.length ≠ 0) (g.data.length ≠ 0)).length ∧
        ((shstrtab (g.text.length ≠ 0) (g.data.length ≠ 0)).drop n).takeWhile (· ≠ 0) = name →
      readName img sh = name := by
    rintro sh n name rfl ⟨hle, hname⟩
    exact (readName_eq h hord hw sh hle).trans hname
  rw [← length_elfShdrs hord, loadedSections_eq]
  by_cases ht : g.text.length = 0 <;> by_cases hd : g.data.length = 0 <;>
    simp only [elfShdrs, elfPhdrs, ht, hd, ne_eq, not_true_eq_false, not_false_eq_true, decide_true,
      decide_false, ↓reduceIte, List.cons_append, List.nil_append, List.append_nil,
      Nat.add_zero] at hname ⊢
  · exact ⟨[], _, rfl, rfl, hname 1 _ rfl (by decide), .nil⟩
  · exact ⟨[_], _, rfl, rfl, hname 7 _ rfl (by decide),
      .cons ⟨rfl, rfl, rfl, hname 1 (ascii ['.', 'd', 'a', 't', 'a']) rfl (by decide)⟩ .nil⟩
  · exact ⟨[_], _, rfl, rfl, hname 7 _ rfl (by decide),
      .cons ⟨rfl, rfl, rfl, hname 1 (ascii ['.', 't', 'e', 'x', 't']) rfl (by decide)⟩ .nil⟩
  · exact ⟨[_, _], _, rfl, rfl, hname 13 _ rfl (by decide),
      .cons ⟨rfl, rfl, rfl, hname 1 (ascii ['.', 't', 'e', 'x', 't']) rfl (by decide)⟩
        (.cons ⟨rfl, rfl, rfl, hname 7 (ascii ['.', 'd', 'a', 't', 'a']) rfl (by decide)⟩ .nil)⟩

/-- The headers lay claim to the ranges that were written. -/
theorem ranges_apart (h : plan.Small g) (hord : plan.Ordered is64 g.text.length g.data.length)
    (hw : Written img (elfWritesOf is64 g plan entryAddr)) :
    (elfRanges img).Pairwise Apart := by
  obtain ⟨hoff, hsize⟩ := readShdr_strtab h hord hw
  have hpn : plan.phnum * phdrSz is64 = phdrSz is64 * plan.phnum := Nat.mul_comm ..
  simp only [elfRanges, hoff, hsize]
  rw [readPhdrs_eq h hord hw, readEhdr_eq h hord hw]
  simp only [shownEhdr, elfEhdr, hpn]
  obtain ⟨h1, h2, h3, h4, h5, h6, h7, h8, h9, -⟩ := hord
  rw [h8] at h1 h2 h6 ⊢
  by_cases ht : g.text.length = 0 <;> by_cases hd : g.data.length = 0 <;>
    simp only [ht, hd, ne_eq, not_true_eq_false, not_false_eq_true, ↓reduceIte, forall_const,
      IsEmpty.forall_iff, decide_true, decide_false] at h1 h2 h3 h4 h5 h6 h7 h8 h9 <;>
    simp [elfPhdrs, ht, hd, loadPhdr, Apart]
  all_goals omega

end Written

theorem idealPlan_small {is64 : Bool} {g : OutCtx}
    (h : (idealPlan is64 g.text.length g.data.length).shoff < 2 ^ 32)
    (htb : g.vaddrTextBase < 2 ^ 32) (hdb : g.vaddrDataBase < 2 ^ 32) :
    (idealPlan is64 g.text.length g.data.length).Small g := by
  have hord := idealPlan_ordered is64 g.text.length g.data.length
  have hstr : (idealPlan is64 g.text.length g.data.length).shstrOff < 2 ^ 32 := by
    have := hord.strtab_end
    omega
  have htext : g.text.length = 0 → (idealPlan is64 g.text.length g.data.length).textOff = 0 :=
    fun h0 => by simp only [idealPlan, planWith, h0, ne_eq, not_true_eq_false, ↓reduceIte]
  have hdata : g.data.length = 0 → (idealPlan is64 g.text.length g.data.length).dataOff = 0 :=
    fun h0 => by simp only [idealPlan, planWith, h0, ne_eq, not_true_eq_false, ↓reduceIte]
  have htend := hord.text_end
  have hdend := hord.data_end
  constructor
  case shstrOff | shoff | textBase | dataBase => assumption
  all_goals
    by_cases ht : g.text.length = 0 <;> by_cases hd : g.data.length = 0 <;> grind

theorem outFinish_elf {g : OutCtx} {f : OutFile} (entryAddr : ℕ) (hfmt : g.fmt = .elf)
    (hfp : g.fp = some f) (htb : g.vaddrTextBase = 0x00100000)
    (hdb : g.vaddrDataBase = 0x00200000)
    (hfit : (idealPlan (g.xlen = 64) g.text.length g.data.length).shoff < 2 ^ 32) :
    ∃ g' f', outFinish allOps g entryAddr = (g', true) ∧ g'.fp = some f' ∧
      ElfCarries f'.bytes g.text g.data (g.xlen = 64) g.hasRvc := by
  have hord := idealPlan_ordered (g.xlen = 64) g.text.length g.data.length
  have hsmall := idealPlan_small hfit (by omega) (by omega)
  have hrun : outFinish allOps g entryAddr = writeAllAt allOps g (elfWrites g entryAddr) := by
    simp only [outFinish, hfmt, hfp, Option.isNone_some, Bool.false_eq_true, ↓reduceIte]
  obtain ⟨hok, hfile⟩ := writeAllAt_allOps (elfWrites g entryAddr) hfp
  refine ⟨_, _, hrun.trans (Prod.ext rfl hok), hfile, ?_⟩
  -- the writes are apart, so the file keeps each of them
  have hw : Written (overwriteAll 0 f.bytes (elfWrites g entryAddr)) (elfWrites g entryAddr) :=
    fun w hmem => slice_overwriteAll 0 f.bytes
      (by rw [elfWrites, elfPlan_eq hfit]; exact elfWritesOf_apart entryAddr hord) hmem
  have hwrites : elfWrites g entryAddr = elfWritesOf (g.xlen = 64) g
      (idealPlan (g.xlen = 64) g.text.length g.data.length) entryAddr := by
    rw [elfWrites, elfPlan_eq hfit]
  generalize overwriteAll 0 f.bytes (elfWrites g entryAddr) = img at hw ⊢
  rw [hwrites] at hw
  have heh := readEhdr_eq hsmall hord hw
  have hph := readPhdrs_eq hsmall hord hw
  have hsh := readShdrs_eq hsmall hord hw
  constructor
  case ident => rw [heh]; rfl
  case apart => exact ranges_apart hsmall hord hw
  case segments =>
    rw [hph]
    exact segments_hold hord hw htb hdb
  case sections =>
    rw [hsh, heh, hph]
    exact sections_hold hsmall hord hw
  case flags => rw [heh]; rfl

/-- For any calls of the sinks, `out_finish` leaves a well-formed file that carries what they
wrote to the sections. -/
theorem outFinish_carries (xlen : ℕ) (f : OutFile) (calls : List SinkCall) (entryAddr : ℕ)
    (hfit : (idealPlan (xlen = 64) (sectionBytes .text .text calls).length
      (sectionBytes .data .text calls).length).shoff < 2 ^ 32) :
    ∃ g f', outFinish allOps
        (runSinkCalls allOps (outSetFile (outBegin .elf xlen) f) calls) entryAddr = (g, true) ∧
      g.fp = some f' ∧
      ElfCarries f'.bytes (sectionBytes .text .text calls) (sectionBytes .data .text calls)
        (xlen = 64) (writesTextHalf .text calls) := by
  have hclass : decide ((outSetFile (outBegin .elf xlen) f).xlen = 64) = decide (xlen = 64) := by
    by_cases hx : xlen = 64 <;> simp [outSetFile, outBegin, hx]
  rw [runSinkCalls_elf allOps calls _ rfl, ← hclass]
  exact outFinish_elf entryAddr rfl rfl rfl rfl (by rw [← hclass] at hfit; exact hfit)

def bothSections : List SinkCall :=
  [.enter .data, .value (-2) 4, .value 7 1, .enter .text, .half 0x0001, .word 0x007302B3]

theorem outFinish_carries_bothSections :
    ∃ g f', outFinish allOps (runSinkCalls allOps (outSetFile (outBegin .elf 64) {}) bothSections)
        0 = (g, true) ∧
      g.fp = some f' ∧
      ElfCarries f'.bytes [0x01, 0x00, 0xB3, 0x02, 0x73, 0x00] [0xFE, 0xFF, 0xFF, 0xFF, 0x07]
        true true :=
  outFinish_carries 64 {} bothSections 0 (by decide)

end RvAssembler
