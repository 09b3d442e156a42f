import RvAssembler.Stream

namespace RvAssembler

open Bytes

/-- Labels, and the data directives with a value the grammar accepts. -/
def Item.InData : Item → Prop
  | .byte v => -128 ≤ v.toInt ∧ v.toInt ≤ 127
  | .half v => -32768 ≤ v.toInt ∧ v.toInt ≤ 32767
  | .word v => -2147483648 ≤ v.toInt ∧ v.toInt ≤ 2147483647
  | .label _ | .dword _ | .ascii _ | .asciiz _ => True
  | _ => False

def Item.scalar : Item → Option (ℕ × ℤ)
  | .byte v => some (1, v.toInt)
  | .half v => some (2, v.toInt)
  | .word v => some (4, v.toInt)
  | .dword v => some (8, v.toInt)
  | _ => none

def Item.image : Item → List UInt8
  | .byte v => leInt 1 v.toInt
  | .half v => leInt 2 v.toInt
  | .word v => leInt 4 v.toInt
  | .dword v => leInt 8 v.toInt
  | .ascii s => s.bytes
  | .asciiz s => s.bytes ++ [0]
  | _ => []

def imageOf (items : Program) : List UInt8 := items.flatMap fun p => p.2.image

theorem imageOf_append (items items' : Program) :
    imageOf (items ++ items') = imageOf items ++ imageOf items' := List.flatMap_append

theorem imageOf_cons (p : ℤ × Item) (items : Program) :
    imageOf (p :: items) = p.2.image ++ imageOf items := List.flatMap_cons

theorem Item.InData.nextSection {it : Item} (h : it.InData) (s : Section) :
    it.nextSection s = s := by
  cases it
  case text | data => cases h
  all_goals rfl

theorem Item.InData.moves {it : Item} (h : it.InData) (c : Counters) :
    it.moves c = it.image.length ∧ it.bytes = it.image.length := by
  cases it
  case instruction | text | data | align | space => cases h
  case byte | half | word =>
    have hrange := not_or.mpr ⟨not_lt.mpr h.1, not_lt.mpr h.2⟩
    simp only [Item.moves, Item.bytes, Item.image, length_leInt]
    exact ⟨if_neg hrange, if_neg hrange⟩
  all_goals simp [Item.moves, Item.bytes, Item.image]

theorem Item.InData.unleInt_image {it : Item} (h : it.InData) {w : ℕ} {v : ℤ}
    (hs : it.scalar = some (w, v)) : it.image.length = w ∧ unleInt it.image = v := by
  cases it
  case byte | half | word =>
    cases hs
    have hlo := h.1
    have hhi := h.2
    exact ⟨length_leInt _ _, unleInt_leInt (by omega) (by omega)⟩
  case dword x =>
    cases hs
    have hlo := x.le_toInt
    have hhi := x.toInt_lt
    exact ⟨length_leInt _ _, unleInt_leInt (by omega) (by omega)⟩
  all_goals cases hs

def IrEntry.image (e : IrEntry) : List UInt8 :=
  if e.kind = .data ∧ e.sect = .data then leInt e.size e.imm else []

def imageIn (ir : List IrEntry) : List UInt8 := ir.flatMap IrEntry.image

theorem imageIn_append (ir ir' : List IrEntry) :
    imageIn (ir ++ ir') = imageIn ir ++ imageIn ir' := List.flatMap_append

/-- No step of the layout changes the image. -/
theorem imageIn_eq_of_core {ir lay : List IrEntry}
    (h : lay.map IrEntry.core = ir.map IrEntry.core) : imageIn lay = imageIn ir := by
  have hcore : ∀ e : IrEntry, e.core.image = e.image := by
    intro e
    unfold IrEntry.image IrEntry.core
    dsimp only
    split_ifs with hdata hkind
    · rfl
    · exact absurd hdata.1 hkind
    · rfl
  have hmap : ∀ es : List IrEntry, imageIn es = (es.map IrEntry.core).flatMap IrEntry.image := by
    intro es
    rw [imageIn, List.flatMap_map]
    simp only [hcore]
  rw [hmap, hmap, h]

theorem valueBytes_eq {n : ℕ} (hn : n ≤ 8) (v : ℤ) : valueBytes v n = leInt n v := by
  unfold valueBytes leInt
  apply le_congr
  have hdvd : (256 ^ n : ℤ) ∣ 2 ^ 64 := by
    have h256 : (2 ^ 64 : ℤ) = 256 ^ 8 := by norm_num
    rw [h256]
    exact pow_dvd_pow 256 hn
  have hpos : (0 : ℤ) < 256 ^ n := by positivity
  apply Int.natCast_inj.mp
  push_cast
  rw [BitVec.toNat_ofInt, Int.toNat_of_nonneg (Int.emod_nonneg _ (by decide)),
    Int.toNat_of_nonneg (Int.emod_nonneg _ hpos.ne'), Int.emod_emod]
  exact Int.emod_emod_of_dvd v hdvd

/-- In `.data` there is nothing but data. -/
def DataOnly (ir : List IrEntry) : Prop := ∀ e ∈ ir, e.sect = .data → e.kind = .data

theorem flatMap_callBytes_data {cfg : Config} {t : SymTab} {ir : List IrEntry}
    (hs : ∀ e ∈ ir, e.Sound) (hd : DataOnly ir) :
    (ir.filter fun e => e.sect = .data).flatMap (IrEntry.callBytes cfg t) = imageIn ir := by
  induction ir with
  | nil => rfl
  | cons e es ih =>
    obtain ⟨he, hes⟩ := List.forall_mem_cons.mp hs
    obtain ⟨hkind, hds⟩ := List.forall_mem_cons.mp hd
    rw [imageIn, List.flatMap_cons, ← imageIn, ← ih hes hds]
    by_cases hsect : e.sect = .data
    · have hk := hkind hsect
      have hsize := he.data hk
      have hbytes : e.callBytes cfg t = e.image := by
        rw [IrEntry.image, if_pos ⟨hk, hsect⟩, ← valueBytes_eq (by omega), IrEntry.callBytes,
          IrEntry.call_data hk hsect]
        simp only [Except.toOption, Option.getD_some, List.flatMap_cons, List.flatMap_nil,
          List.append_nil, SinkCall.bytes]
        exact if_neg (by omega)
      rw [List.filter_cons_of_pos (by simpa using hsect), List.flatMap_cons, hbytes]
    · have himage : e.image = [] := by
        rw [IrEntry.image, if_neg fun h => hsect h.2]
      rw [List.filter_cons_of_neg (by simpa using hsect), himage, List.nil_append]

structure AddsImage (st st' : Pass1) (bs : List UInt8) : Prop where
  curSection : st'.counters.curSection = .data
  image : imageIn st'.ir = imageIn st.ir ++ bs
  dataOnly : DataOnly st.ir → DataOnly st'.ir

theorem AddsImage.trans {st st' st'' : Pass1} {bs bs' : List UInt8} (h : AddsImage st st' bs)
    (h' : AddsImage st' st'' bs') : AddsImage st st'' (bs ++ bs') := by
  refine ⟨h'.curSection, ?_, fun hd => h'.dataOnly (h.dataOnly hd)⟩
  rw [h'.image, h.image, List.append_assoc]

theorem AddsImage.nothing {st st' : Pass1} (hs : st.counters.curSection = .data)
    (hc : st'.counters = st.counters) (hir : st'.ir = st.ir) : AddsImage st st' [] := by
  refine ⟨by rw [hc, hs], by rw [hir, List.append_nil], fun hd => ?_⟩
  rwa [hir]

theorem pass1EmitData_image {st : Pass1} (hs : st.counters.curSection = .data) (v : ℤ) (size : ℕ)
    (line : ℤ) : AddsImage st (pass1EmitData st v size line) (leInt size v) := by
  constructor
  case curSection =>
    unfold pass1EmitData
    rw [passAdvancePc_curSection, hs]
  case image =>
    unfold pass1EmitData irAppendData
    rw [imageIn_append, hs]
    simp only [imageIn, List.flatMap_cons, List.flatMap_nil, List.append_nil, IrEntry.image,
      and_self, ↓reduceIte]
  case dataOnly =>
    intro hd
    unfold pass1EmitData irAppendData DataOnly
    rw [List.forall_mem_append, List.forall_mem_singleton]
    exact ⟨hd, fun _ => rfl⟩

theorem leInt_toNat (b : UInt8) : leInt 1 b.toNat = [b] := by
  have hlt := b.toNat_lt
  have hbyte : ((b.toNat : ℤ) % 256 ^ 1).toNat = b.toNat := by omega
  rw [leInt, hbyte, le, le, UInt8.ofNat_toNat]

theorem stringData_image {st : Pass1} (hs : st.counters.curSection = .data) (s : CString)
    (line : ℤ) : AddsImage st (stringData st s line) s.bytes := by
  unfold stringData
  generalize s.bytes = bs
  induction bs generalizing st with
  | nil => exact .nothing hs rfl rfl
  | cons b bs ih =>
    have hb := pass1EmitData_image hs b.toNat 1 line
    rw [leInt_toNat] at hb
    exact hb.trans (ih hb.curSection)

theorem rangedData_image {st : Pass1} (hs : st.counters.curSection = .data) (name : String)
    {lo hi : ℤ} {v : Int64} (hv : lo ≤ v.toInt ∧ v.toInt ≤ hi) (size : ℕ) (line : ℤ) :
    AddsImage st (rangedData st name lo hi size v line) (leInt size v.toInt) := by
  unfold rangedData
  rw [if_neg (not_or.mpr ⟨not_lt.mpr hv.1, not_lt.mpr hv.2⟩)]
  exact pass1EmitData_image hs _ _ _

theorem execItem_image {st : Pass1} (hs : st.counters.curSection = .data) (line : ℤ) {it : Item}
    (h : it.InData) : AddsImage st (execItem st line it) it.image := by
  cases it with
  | label name => exact .nothing hs rfl rfl
  | byte v => exact rangedData_image hs _ h 1 line
  | half v => exact rangedData_image hs _ h 2 line
  | word v => exact rangedData_image hs _ h 4 line
  | dword v => exact pass1EmitData_image hs _ 8 line
  | ascii s => exact stringData_image hs s line
  | asciiz s =>
    have hstring := stringData_image hs s line
    exact hstring.trans (pass1EmitData_image hstring.curSection 0 1 line)
  | instruction | text | data | align | space => cases h

theorem execAll_image {st : Pass1} (hs : st.counters.curSection = .data) {items : Program}
    (h : ∀ p ∈ items, p.2.InData) : AddsImage st (execAll st items) (imageOf items) := by
  induction items generalizing st with
  | nil => exact .nothing hs rfl rfl
  | cons p items ih =>
    obtain ⟨hp, hitems⟩ := List.forall_mem_cons.mp h
    have hitem := execItem_image hs p.1 hp
    rw [imageOf_cons, execAll_cons]
    exact hitem.trans (ih hitem.curSection hitems)

def dataThenText (dataLine : ℤ) (items : Program) (textLine : ℤ) (code : Program) : Program :=
  (dataLine, .data) :: items ++ (textLine, .text) :: code

theorem dataThenText_image {items code : Program} (h : ∀ p ∈ items, p.2.InData)
    (hcode : ∀ p ∈ code, p.2 ≠ .data) (dataLine textLine : ℤ) :
    imageIn (pass1Run (dataThenText dataLine items textLine code)).ir = imageOf items ∧
      DataOnly (pass1Run (dataThenText dataLine items textLine code)).ir := by
  have hdata := execAll_image (show (execItem {} dataLine .data).counters.curSection = .data from rfl) h
  have hgood : (execAll (execItem {} dataLine .data) items).Good :=
    (good_start.exec dataLine .data).execAll items
  obtain ⟨es, hir, hes⟩ := execAll_text (hgood.exec textLine .text) rfl hcode
  have hprog : (pass1Run (dataThenText dataLine items textLine code)).ir =
      (execAll (execItem {} dataLine .data) items).ir ++ es := by
    rw [dataThenText, pass1Run, execAll_append, execAll_cons, execAll_cons]
    exact hir
  have hnone : imageIn es = [] := by
    apply List.flatMap_eq_nil_iff.mpr
    intro e he
    rw [IrEntry.image, if_neg]
    rintro ⟨-, hsect⟩
    rw [hes e he] at hsect
    cases hsect
  rw [hprog, imageIn_append, hdata.image, hnone, List.append_nil]
  refine ⟨rfl, List.forall_mem_append.mpr ⟨hdata.dataOnly ?_, ?_⟩⟩
  · intro e he
    cases he
  · intro e he hsect
    rw [hes e he] at hsect
    cases hsect

def labelsOf (prog : Program) : List Identifier :=
  prog.filterMap fun p => match p.2 with
    | .label name => some name
    | _ => none

theorem sectionAfter_inData {items : Program} (h : ∀ p ∈ items, p.2.InData) :
    sectionAfter .data items = .data := by
  induction items with
  | nil => rfl
  | cons p items ih =>
    obtain ⟨hp, hitems⟩ := List.forall_mem_cons.mp h
    rw [sectionAfter, List.foldl_cons, hp.nextSection]
    exact ih hitems

theorem bytesIn_inData {items : Program} (h : ∀ p ∈ items, p.2.InData) :
    bytesIn .data .data items = (imageOf items).length := by
  induction items with
  | nil => rfl
  | cons p items ih =>
    obtain ⟨hp, hitems⟩ := List.forall_mem_cons.mp h
    rw [bytesIn, if_pos rfl, hp.nextSection, ih hitems, imageOf_cons, List.length_append,
      (hp.moves {}).2]

theorem steady_inData {items : Program} (h : ∀ p ∈ items, p.2.InData) (line : ℤ) :
    Steady ((line, .data) :: items) := by
  intro pre p post hsplit
  have hp : p ∈ (line, .data) :: items := by
    rw [hsplit]
    simp
  rcases List.mem_cons.mp hp with rfl | hp
  · rfl
  · obtain ⟨hmoves, hbytes⟩ := (h p hp).moves (pass1Run pre).counters
    rw [hmoves, hbytes]

theorem searchSym_dataThenText {items pre post code : Program} {line : ℤ} {name : Identifier}
    (h : ∀ p ∈ items, p.2.InData) (hdistinct : (labelsOf items).Nodup)
    (hsize : (imageOf items).length < 2 ^ 31) (hsplit : items = pre ++ (line, .label name) :: post)
    (dataLine textLine : ℤ) :
    searchSym (pass1Run (dataThenText dataLine items textLine code)).symtab name.toCString =
      (imageOf pre).length := by
  have hpre : ∀ p ∈ pre, p.2.InData := by
    intro p hp
    apply h
    rw [hsplit]
    exact List.mem_append_left _ hp
  have hdef : Defines (dataThenText dataLine items textLine code) ((dataLine, .data) :: pre) name := by
    refine ⟨⟨line, post ++ (textLine, .text) :: code, by simp [dataThenText, hsplit]⟩, ?_⟩
    rw [List.forall_mem_cons]
    refine ⟨fun hlabel => (by cases hlabel), fun p hp hlabel => ?_⟩
    have hmem : name ∈ labelsOf pre := List.mem_filterMap.mpr ⟨p, hp, by rw [hlabel]⟩
    rw [hsplit, labelsOf, List.filterMap_append, List.filterMap_cons] at hdistinct
    exact (List.nodup_append.mp hdistinct).2.2 name hmem name List.mem_cons_self rfl
  have hsect : sectionAfter .text ((dataLine, .data) :: pre) = .data := sectionAfter_inData hpre
  have hbytes : bytesIn .data .text ((dataLine, .data) :: pre) = (imageOf pre).length := by
    rw [bytesIn, if_neg (by decide), Nat.zero_add]
    exact bytesIn_inData hpre
  have hle : (imageOf pre).length ≤ (imageOf items).length := by
    rw [hsplit, imageOf_append, List.length_append]
    exact Nat.le_add_right _ _
  rw [hdef.searchSym_of_steady (steady_inData hpre dataLine), hsect, hbytes, i32_eq, u32]
  omega

/-- The bytes of the data, the numbers read back from them and the labels are those of the
directives. -/
structure FaithfulData (items : Program) (t : SymTab) (bs : List UInt8) : Prop where
  bytes : bs = imageOf items
  scalars : ∀ pre line it post w v, items = pre ++ (line, it) :: post → it.scalar = some (w, v) →
    unleInt ((bs.drop (imageOf pre).length).take w) = v
  labels : ∀ pre line name post, items = pre ++ (line, .label name) :: post →
    searchSym t name.toCString = (imageOf pre).length

/-- Data that is followed by code is written as its directives say, and its labels stand where
they are among them. -/
theorem data_image_faithful (cfg : Config) (ops : FileOps) (out : OutCtx) (dataLine : ℤ)
    (items : Program) (textLine : ℤ) (code : Program) (hitems : ∀ p ∈ items, p.2.InData)
    (hdistinct : (labelsOf items).Nodup) (hsize : (imageOf items).length < 2 ^ 31)
    (hcode : ∀ p ∈ code, p.2 ≠ .data)
    (hrun : (pass2Run cfg (pass1Run (dataThenText dataLine items textLine code)).symtab ops
      (pass2Start out) (pass1Run (dataThenText dataLine items textLine code)).ir).2 = true) :
    FaithfulData items (pass1Run (dataThenText dataLine items textLine code)).symtab
      (sectionBytes .data .text (pass2Run cfg
        (pass1Run (dataThenText dataLine items textLine code)).symtab ops (pass2Start out)
        (pass1Run (dataThenText dataLine items textLine code)).ir).1.calls) := by
  obtain ⟨himage, honly⟩ := dataThenText_image hitems hcode dataLine textLine
  have hlabels : ∀ pre line name post, items = pre ++ (line, .label name) :: post →
      searchSym (pass1Run (dataThenText dataLine items textLine code)).symtab name.toCString =
        (imageOf pre).length := by
    intro pre line name post hsplit
    exact searchSym_dataThenText hitems hdistinct hsize hsplit dataLine textLine
  have hfresh := (pass1Run_good (dataThenText dataLine items textLine code)).ir
  generalize pass1Run (dataThenText dataLine items textLine code) = st at *
  obtain ⟨hlaid, hcore⟩ := pass2Layout_laidOut cfg st.symtab hfresh
  have honly' : DataOnly (pass2Layout cfg st.symtab st.ir) := by
    intro e he hsect
    obtain ⟨e', he', heq⟩ := exists_core_of_mem hcore he
    rw [IrEntry.kind_eq_of_core heq]
    exact honly e' he' ((IrEntry.sect_eq_of_core heq).symm.trans hsect)
  have hbytes : sectionBytes .data .text
      (pass2Run cfg st.symtab ops (pass2Start out) st.ir).1.calls = imageOf items := by
    rw [pass2Run_writes hfresh hrun, flatMap_callBytes_data hlaid.sound honly',
      imageIn_eq_of_core hcore, himage]
  refine ⟨hbytes, fun pre line it post w v hsplit hs => ?_, hlabels⟩
  have hit : it.InData := hitems (line, it) (by rw [hsplit]; simp)
  obtain ⟨hwidth, hvalue⟩ := hit.unleInt_image hs
  rw [hbytes, hsplit, imageOf_append, imageOf_cons, List.drop_left, List.take_left' hwidth, hvalue]

def extremes : Program :=
  [(2, .word (-2147483648)), (3, .label (letter 0)), (4, .byte (-1)),
    (5, .asciiz (letter 1).toCString), (6, .label (letter 2))]

theorem data_image_faithful_extremes :
    FaithfulData extremes
      (pass1Run (dataThenText 1 extremes 7 [(8, .instruction .nop)])).symtab
      (sectionBytes .data .text (pass2Run (passSetArch 32 false false false)
        (pass1Run (dataThenText 1 extremes 7 [(8, .instruction .nop)])).symtab allOps
        (pass2Start (outSetFile (outBegin .raw 32) {}))
        (pass1Run (dataThenText 1 extremes 7 [(8, .instruction .nop)])).ir).1.calls) :=
  data_image_faithful (passSetArch 32 false false false) allOps
    (outSetFile (outBegin .raw 32) {}) 1 extremes 7 [(8, .instruction .nop)]
    (by simp [extremes, Item.InData]) (by decide) (by decide) (by simp) (by decide +kernel)

end RvAssembler
