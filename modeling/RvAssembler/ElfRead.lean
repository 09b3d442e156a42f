import RvAssembler.Elf
import Mathlib.Data.List.Forall2

namespace RvAssembler

open Bytes Image

def readRecord (img : List UInt8) (off : ℕ) (widths : List ℕ) : List ℕ :=
  unpack widths (slice 0 img off widths.sum)

def readClass (img : List UInt8) : Bool := readRecord img 4 [1] = [2]

def ehdrWidths (is64 : Bool) : List ℕ :=
  let a := addrSize is64
  List.replicate 16 1 ++ [2, 2, 4, a, a, a, 4, 2, 2, 2, 2, 2, 2]

def phdrWidths (is64 : Bool) : List ℕ := if is64 then [4, 4, 8, 8, 8, 8, 8, 8] else List.replicate 8 4

def shdrWidths (is64 : Bool) : List ℕ :=
  let a := addrSize is64
  [4, 4, a, a, a, a, 4, 4, a, a]

def Ehdr.ofList (l : List ℕ) : Ehdr where
  ident := l.take 16
  type := l.getD 16 0
  machine := l.getD 17 0
  version := l.getD 18 0
  entry := l.getD 19 0
  phoff := l.getD 20 0
  shoff := l.getD 21 0
  flags := l.getD 22 0
  ehsize := l.getD 23 0
  phentsize := l.getD 24 0
  phnum := l.getD 25 0
  shentsize := l.getD 26 0
  shnum := l.getD 27 0
  shstrndx := l.getD 28 0

def Phdr.ofList (is64 : Bool) (l : List ℕ) : Phdr where
  type := l.getD 0 0
  flags := l.getD (if is64 then 1 else 6) 0
  offset := l.getD (if is64 then 2 else 1) 0
  vaddr := l.getD (if is64 then 3 else 2) 0
  paddr := l.getD (if is64 then 4 else 3) 0
  filesz := l.getD (if is64 then 5 else 4) 0
  memsz := l.getD (if is64 then 6 else 5) 0
  align := l.getD 7 0

def Shdr.ofList (l : List ℕ) : Shdr where
  name := l.getD 0 0
  type := l.getD 1 0
  flags := l.getD 2 0
  addr := l.getD 3 0
  offset := l.getD 4 0
  size := l.getD 5 0
  link := l.getD 6 0
  info := l.getD 7 0
  addralign := l.getD 8 0
  entsize := l.getD 9 0

def readEhdr (img : List UInt8) : Ehdr := Ehdr.ofList (readRecord img 0 (ehdrWidths (readClass img)))

/-- The program headers, through `e_phoff`, `e_phnum` and `e_phentsize`. -/
def readPhdrs (img : List UInt8) : List Phdr :=
  let eh := readEhdr img
  (List.range eh.phnum).map fun i =>
    Phdr.ofList (readClass img)
      (readRecord img (eh.phoff + i * eh.phentsize) (phdrWidths (readClass img)))

def readShdr (img : List UInt8) (i : ℕ) : Shdr :=
  let eh := readEhdr img
  Shdr.ofList (readRecord img (eh.shoff + i * eh.shentsize) (shdrWidths (readClass img)))

def readShdrs (img : List UInt8) : List Shdr :=
  (List.range (readEhdr img).shnum).map (readShdr img)

/-- The name of a section, in the string table `e_shstrndx` points to. -/
def readName (img : List UInt8) (sh : Shdr) : List UInt8 :=
  let strtab := readShdr img (readEhdr img).shstrndx
  (slice 0 img (strtab.offset + sh.name) (strtab.size - sh.name)).takeWhile (· ≠ 0)

/-- The ranges of the file the headers lay claim to. -/
def elfRanges (img : List UInt8) : List (ℕ × ℕ) :=
  let eh := readEhdr img
  let strtab := readShdr img eh.shstrndx
  [(0, eh.ehsize), (eh.phoff, eh.phnum * eh.phentsize)] ++
    (readPhdrs img).map (fun ph => (ph.offset, ph.filesz)) ++
    [(strtab.offset, strtab.size), (eh.shoff, eh.shnum * eh.shentsize)]

def ascii (s : List Char) : List UInt8 := s.map fun c => UInt8.ofNat c.toNat

structure Loaded where
  name : List UInt8
  base : ℕ
  bytes : List UInt8

def loadedSections (text data : List UInt8) : List Loaded :=
  [⟨ascii ['.', 't', 'e', 'x', 't'], 0x00100000, text⟩,
    ⟨ascii ['.', 'd', 'a', 't', 'a'], 0x00200000, data⟩].filter fun s => s.bytes.length ≠ 0

/-- A `PT_LOAD` segment that holds a section. -/
structure SegmentHolds (img : List UInt8) (ph : Phdr) (s : Loaded) : Prop where
  type : ph.type = 1
  content : slice 0 img ph.offset ph.filesz = s.bytes
  filesz : ph.filesz = s.bytes.length
  memsz : ph.memsz = ph.filesz
  vaddr : ph.vaddr = s.base
  congruent : 0 < ph.align ∧ ph.offset % ph.align = ph.vaddr % ph.align

/-- A section header that agrees with the segment of a section. -/
structure HeaderHolds (img : List UInt8) (sh : Shdr) (seg : Phdr × Loaded) : Prop where
  offset : sh.offset = seg.1.offset
  size : sh.size = seg.1.filesz
  addr : sh.addr = seg.1.vaddr
  name : readName img sh = seg.2.name

/-- A well-formed file that carries the given sections. -/
structure ElfCarries (img text data : List UInt8) (is64 rvc : Bool) : Prop where
  ident : (readEhdr img).ident.take 5 = [0x7f, 0x45, 0x4c, 0x46, if is64 then 2 else 1]
  apart : (elfRanges img).Pairwise Apart
  segments : List.Forall₂ (SegmentHolds img) (readPhdrs img) (loadedSections text data)
  sections : ∃ shs strtab, readShdrs img = {} :: shs ++ [strtab] ∧
    (readEhdr img).shstrndx = shs.length + 1 ∧
    readName img strtab = ascii ['.', 's', 'h', 's', 't', 'r', 't', 'a', 'b'] ∧
    List.Forall₂ (HeaderHolds img) shs ((readPhdrs img).zip (loadedSections text data))
  flags : (readEhdr img).flags = if rvc then 1 else 0

end RvAssembler
