import RvAssembler.Out
import RvAssembler.Lib.Bits

namespace RvAssembler

open Bytes Image

structure Ehdr where
  ident : List ℕ
  type : ℕ
  machine : ℕ
  version : ℕ
  entry : ℕ
  phoff : ℕ
  shoff : ℕ
  flags : ℕ
  ehsize : ℕ
  phentsize : ℕ
  phnum : ℕ
  shentsize : ℕ
  shnum : ℕ
  shstrndx : ℕ
deriving DecidableEq, Repr

structure Phdr where
  type : ℕ
  flags : ℕ
  offset : ℕ
  vaddr : ℕ
  paddr : ℕ
  filesz : ℕ
  memsz : ℕ
  align : ℕ
deriving DecidableEq, Repr

/-- `elf32_shdr` and `elf64_shdr`; the defaults are those of a zeroed structure. -/
structure Shdr where
  name : ℕ := 0
  type : ℕ := 0
  flags : ℕ := 0
  addr : ℕ := 0
  offset : ℕ := 0
  size : ℕ := 0
  link : ℕ := 0
  info : ℕ := 0
  addralign : ℕ := 0
  entsize : ℕ := 0
deriving DecidableEq, Repr

def addrSize (is64 : Bool) : ℕ := if is64 then 8 else 4

def Ehdr.fields (is64 : Bool) (h : Ehdr) : List (ℕ × ℕ) :=
  let a := addrSize is64
  h.ident.map (1, ·) ++ [(2, h.type), (2, h.machine), (4, h.version), (a, h.entry), (a, h.phoff),
    (a, h.shoff), (4, h.flags), (2, h.ehsize), (2, h.phentsize), (2, h.phnum), (2, h.shentsize),
    (2, h.shnum), (2, h.shstrndx)]

/-- The 64-bit structure has its flags further up. -/
def Phdr.fields (is64 : Bool) (h : Phdr) : List (ℕ × ℕ) :=
  if is64 then
    [(4, h.type), (4, h.flags), (8, h.offset), (8, h.vaddr), (8, h.paddr), (8, h.filesz),
      (8, h.memsz), (8, h.align)]
  else
    [(4, h.type), (4, h.offset), (4, h.vaddr), (4, h.paddr), (4, h.filesz), (4, h.memsz),
      (4, h.flags), (4, h.align)]

def Shdr.fields (is64 : Bool) (h : Shdr) : List (ℕ × ℕ) :=
  let a := addrSize is64
  [(4, h.name), (4, h.type), (a, h.flags), (a, h.addr), (a, h.offset), (a, h.size), (4, h.link),
    (4, h.info), (a, h.addralign), (a, h.entsize)]

def ehdrSz (is64 : Bool) : ℕ := if is64 then 64 else 52

def phdrSz (is64 : Bool) : ℕ := if is64 then 56 else 32

def shdrSz (is64 : Bool) : ℕ := if is64 then 64 else 40

def alignUpU64 (x a : ℕ) : ℕ := (x + (a - 1)) % 2 ^ 64 &&& (2 ^ 64 - 1 - (a - 1))

def alignUpU32 (x a : ℕ) : ℕ := (x + (a - 1)) % 2 ^ 32 &&& (2 ^ 32 - 1 - (a - 1))

/-- The rounding of the running offset: on RV32 it is first narrowed. -/
def alignUp (is64 : Bool) (off a : ℕ) : ℕ := if is64 then alignUpU64 off a else alignUpU32 (u32 off) a

def shstrtab (hasText hasData : Bool) : List UInt8 :=
  let asciiz (s : List Char) : List UInt8 := s.map (fun c => UInt8.ofNat c.toNat) ++ [0]
  [0] ++ (if hasText then asciiz ['.', 't', 'e', 'x', 't'] else []) ++
    (if hasData then asciiz ['.', 'd', 'a', 't', 'a'] else []) ++
    asciiz ['.', 's', 'h', 's', 't', 'r', 't', 'a', 'b']

/-- The counts and offsets `out_finish` computes before it writes anything. -/
structure ElfPlan where
  phnum : ℕ
  shnum : ℕ
  textOff : ℕ
  dataOff : ℕ
  shstrOff : ℕ
  shoff : ℕ
  fileEnd : ℕ
deriving DecidableEq, Repr

/-- The running offset, for a way of rounding it up. -/
def planWith (roundUp : ℕ → ℕ → ℕ) (is64 : Bool) (textSize dataSize : ℕ) : ElfPlan :=
  let phnum := (if textSize ≠ 0 then 1 else 0) + (if dataSize ≠ 0 then 1 else 0)
  let shnum := 2 + (if textSize ≠ 0 then 1 else 0) + (if dataSize ≠ 0 then 1 else 0)
  let off := ehdrSz is64 + phdrSz is64 * phnum
  let textOff := if textSize ≠ 0 then roundUp off 0x1000 else 0
  let off := if textSize ≠ 0 then textOff + textSize else off
  let dataOff := if dataSize ≠ 0 then roundUp off 0x1000 else 0
  let off := if dataSize ≠ 0 then dataOff + dataSize else off
  let shstrOff := off
  let off := off + (shstrtab (textSize ≠ 0) (dataSize ≠ 0)).length
  let shoff := roundUp off (if is64 then 8 else 4)
  { phnum, shnum, textOff, dataOff, shstrOff, shoff, fileEnd := shoff + shdrSz is64 * shnum }

def elfPlan (is64 : Bool) (textSize dataSize : ℕ) : ElfPlan :=
  planWith (alignUp is64) is64 textSize dataSize

def loadPhdr (flags base off size : ℕ) : Phdr where
  type := 1
  flags := flags
  offset := off
  vaddr := base
  paddr := base
  filesz := size
  memsz := size
  align := 0x1000

def elfPhdrs (g : OutCtx) (plan : ElfPlan) : List Phdr :=
  (if g.text.length ≠ 0 then [loadPhdr (0x4 ||| 0x1) g.vaddrTextBase plan.textOff g.text.length]
    else []) ++
  (if g.data.length ≠ 0 then [loadPhdr (0x4 ||| 0x2) g.vaddrDataBase plan.dataOff g.data.length]
    else [])

def elfShdrs (g : OutCtx) (plan : ElfPlan) : List Shdr :=
  let nmText := 1
  let nmData := if g.text.length ≠ 0 then 7 else 1
  let nmShstr := 1 + (if g.text.length ≠ 0 then 6 else 0) + (if g.data.length ≠ 0 then 6 else 0)
  [({} : Shdr)] ++
  (if g.text.length ≠ 0 then
    [{ name := nmText, type := 1, flags := 0x2 ||| 0x4, addr := g.vaddrTextBase
       offset := plan.textOff, size := g.text.length, addralign := 2 }]
    else []) ++
  (if g.data.length ≠ 0 then
    [{ name := nmData, type := 1, flags := 0x2 ||| 0x1, addr := g.vaddrDataBase
       offset := plan.dataOff, size := g.data.length, addralign := 4 }]
    else []) ++
  [{ name := nmShstr, type := 3, offset := plan.shstrOff
     size := (shstrtab (g.text.length ≠ 0) (g.data.length ≠ 0)).length, addralign := 1 }]

def elfEhdr (is64 : Bool) (g : OutCtx) (plan : ElfPlan) (entryAddr : ℕ) : Ehdr :=
  let defaultEntry := if g.text.length ≠ 0 then g.vaddrTextBase else g.vaddrDataBase
  { ident := [0x7f, 0x45, 0x4c, 0x46, if is64 then 2 else 1, 1, 1, 0, 0, 0, 0, 0, 0, 0, 0, 0]
    type := 2
    machine := 243
    version := 1
    entry := if entryAddr ≠ 0 then entryAddr else defaultEntry
    phoff := if plan.phnum ≠ 0 then ehdrSz is64 else 0
    shoff := plan.shoff
    flags := if g.hasRvc then 1 else 0
    ehsize := ehdrSz is64
    phentsize := phdrSz is64
    phnum := plan.phnum
    shentsize := shdrSz is64
    shnum := plan.shnum
    shstrndx := plan.shnum - 1 }

/-- The positioned writes of `out_finish` under a plan, in order. -/
def elfWritesOf (is64 : Bool) (g : OutCtx) (plan : ElfPlan) (entryAddr : ℕ) :
    List (ℕ × List UInt8) :=
  (if g.text.length ≠ 0 then [(plan.textOff, g.text)] else []) ++
  (if g.data.length ≠ 0 then [(plan.dataOff, g.data)] else []) ++
  [(plan.shstrOff, shstrtab (g.text.length ≠ 0) (g.data.length ≠ 0))] ++
  (if plan.phnum > 0 then
    [(ehdrSz is64, pack ((elfPhdrs g plan).flatMap (Phdr.fields is64)))] else []) ++
  ((elfShdrs g plan).zipIdx.map fun s =>
    (plan.shoff + s.2 * shdrSz is64, pack (s.1.fields is64))) ++
  [(0, pack ((elfEhdr is64 g plan entryAddr).fields is64))]

def elfWrites (g : OutCtx) (entryAddr : ℕ) : List (ℕ × List UInt8) :=
  let is64 : Bool := g.xlen = 64
  elfWritesOf is64 g (elfPlan is64 g.text.length g.data.length) entryAddr

def writeAllAt (ops : FileOps) : OutCtx → List (ℕ × List UInt8) → OutCtx × Bool
  | g, [] => (g, true)
  | g, w :: ws => andThen (writeAt ops g w.1 w.2) fun g => writeAllAt ops g ws

def outFinish (ops : FileOps) (g : OutCtx) (entryAddr : ℕ) : OutCtx × Bool :=
  match g.fmt with
  | .raw => (g, g.fp.isSome)
  | .elf => if g.fp.isNone then (g, false) else writeAllAt ops g (elfWrites g entryAddr)

end RvAssembler
