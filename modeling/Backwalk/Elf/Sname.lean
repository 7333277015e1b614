import Backwalk.DwarfLine.Cursor
import Backwalk.Support.CString

/-!
Contract: `bw_elf_sname` of `src/backwalk.c`, the symbol lookup in an ELF file.

Owns the layouts that `ElfW` stands for, the mapping of a file, and the function
itself, which reads the mapping field by field. Every read is logged with its
offset and length before it is made, and one that is not in the mapping ends the
run.

What the C library does is a parameter: the mapping of the file at a path, `none`
where the file cannot be opened or mapped or is empty. Fields are little-endian.
-/

namespace Backwalk.Elf

open Backwalk.DwarfLine

/-! ### Layouts -/

/-- The class of the process, which `ElfW` selects. -/
inductive ElfClass where
  | elf32
  | elf64
deriving DecidableEq, Repr

namespace ElfClass

/-- Bits of `uintptr_t` and `size_t`. -/
def bits : ElfClass → Nat
  | elf32 => 32
  | elf64 => 64

/-- Bytes of an address, an offset or a size. -/
def wordSize : ElfClass → Nat
  | elf32 => 4
  | elf64 => 8

/-- `sizeof(ElfW(Ehdr))`. -/
def ehdrSize : ElfClass → Nat
  | elf32 => 52
  | elf64 => 64

/-- `sizeof(ElfW(Shdr))`. -/
def shdrSize : ElfClass → Nat
  | elf32 => 40
  | elf64 => 64

/-- `sizeof(ElfW(Sym))`. -/
def symSize : ElfClass → Nat
  | elf32 => 16
  | elf64 => 24

def eShoff : ElfClass → Nat
  | elf32 => 32
  | elf64 => 40

def eShentsize : ElfClass → Nat
  | elf32 => 46
  | elf64 => 58

def eShnum : ElfClass → Nat
  | elf32 => 48
  | elf64 => 60

def shOffset : ElfClass → Nat
  | elf32 => 16
  | elf64 => 24

def shSize : ElfClass → Nat
  | elf32 => 20
  | elf64 => 32

def shLink : ElfClass → Nat
  | elf32 => 24
  | elf64 => 40

def shEntsize : ElfClass → Nat
  | elf32 => 36
  | elf64 => 56

def stValue : ElfClass → Nat
  | elf32 => 4
  | elf64 => 8

def stSize : ElfClass → Nat
  | elf32 => 8
  | elf64 => 16

def stInfo : ElfClass → Nat
  | elf32 => 12
  | elf64 => 4

def stShndx : ElfClass → Nat
  | elf32 => 14
  | elf64 => 6

end ElfClass

def shtSymtab : Nat := 2
def sttFunc : Nat := 2
def shnUndef : Nat := 0

/-! ### The mapping -/

/-- A file that is mapped. -/
structure ElfFile (c : ElfClass) where
  bytes : List UInt8
  fits : bytes.length < 2 ^ c.bits

/-- A read of `len` bytes at `base + off`. -/
structure Read where
  off : Nat
  len : Nat
deriving DecidableEq, Repr

/-- Runs with a log of reads; one that stops has read at this offset outside the
mapping. -/
abbrev Reader := EStateM Nat (List Read)

section Sname

variable {c : ElfClass} (f : ElfFile c)

def ElfFile.size : Nat := f.bytes.length

/-- The bytes `[off, off + n)` of the file. -/
def ElfFile.slice (off n : Nat) : List UInt8 := (f.bytes.drop off).take n

/-- Copy `n` bytes from `base + off`. -/
def readBytes (off n : Nat) : Reader (List UInt8) := fun log =>
  if off + n ≤ f.size then .ok (f.slice off n) (log ++ [⟨off, n⟩])
  else .error off (log ++ [⟨off, n⟩])

/-- A field of `n` bytes at `base + off`. -/
def readField (off n : Nat) : Reader Nat := do
  let bytes ← readBytes f off n
  pure (leNat bytes)

/-! ### Sections -/

/-- A symbol table and its string table, as far as they are used: offsets of both,
the number of symbols and the size of the strings. -/
structure SymTab where
  symOff : Nat
  nsym : Nat
  strOff : Nat
  strSize : Nat
deriving DecidableEq, Repr

/-- `base + sh[i].sh_offset` and `sh[i].sh_size` of the section header at `at_`, if
the section lies in the file. -/
def readExtent (at_ : Nat) : Reader (Option (Nat × Nat)) := do
  let off ← readField f (at_ + c.shOffset) c.wordSize
  if f.size < off then pure none
  else
    let size ← readField f (at_ + c.shSize) c.wordSize
    if f.size - off < size then pure none else pure (some (off, size))

/-- The checks that section `i` is a symbol table with a string table, both in the
file. -/
def readSymTab (shoff shnum i : Nat) : Reader (Option SymTab) := do
  let sh := shoff + i * c.shdrSize
  let type ← readField f (sh + 4) 4
  if type ≠ shtSymtab then pure none
  else
    let entsize ← readField f (sh + c.shEntsize) c.wordSize
    if entsize ≠ c.symSize then pure none
    else
      let link ← readField f (sh + c.shLink) 4
      if shnum ≤ link then pure none
      else
        let syms ← readExtent f sh
        match syms with
        | none => pure none
        | some (symOff, symSize) =>
            let strs ← readExtent f (shoff + link * c.shdrSize)
            match strs with
            | none => pure none
            | some (strOff, strSize) => pure (some ⟨symOff, symSize / c.symSize, strOff, strSize⟩)

/-! ### Symbols -/

/-- `bias + (uintptr_t)st_value` of the symbol at `sym`. -/
def readStart (bias sym : Nat) : Reader Nat := do
  let value ← readField f (sym + c.stValue) c.wordSize
  pure ((bias + value) % 2 ^ c.bits)

/-- The checks that the symbol at `sym` is a defined function with a name and that
`ip` is in it. -/
def readCovers (bias ip strSize sym : Nat) : Reader Bool := do
  let info ← readField f (sym + c.stInfo) 1
  if info &&& 0xf ≠ sttFunc then pure false
  else
    let shndx ← readField f (sym + c.stShndx) 2
    if shndx = shnUndef then pure false
    else
      let size ← readField f (sym + c.stSize) c.wordSize
      if size = 0 then pure false
      else
        let name ← readField f sym 4
        if name = 0 ∨ strSize ≤ name then pure false
        else
          let start ← readStart f bias sym
          if ip < start ∨ (start + size) % 2 ^ c.bits ≤ ip then pure false else pure true

/-- The better one of `best` and a symbol that covers `ip`; symbols stand for
themselves by their offset. -/
def readBetter (bias : Nat) (best : Option Nat) (sym : Nat) : Reader (Option Nat) :=
  match best with
  | none => pure (some sym)
  | some old => do
      let start ← readStart f bias sym
      let oldStart ← readStart f bias old
      if oldStart ≤ start then pure (some sym) else pure best

/-- The loop over the symbols of a table, from symbol `s` on. -/
def bwElfSymbols (bias ip : Nat) (tab : SymTab) : Nat → Nat → Option Nat → Reader (Option Nat)
  | 0, _, best => pure best
  | n + 1, s, best => do
      let sym := tab.symOff + s * c.symSize
      let covers ← readCovers f bias ip tab.strSize sym
      if covers then
        let best ← readBetter f bias best sym
        bwElfSymbols bias ip tab n (s + 1) best
      else bwElfSymbols bias ip tab n (s + 1) best

/-- `best`, and `strtab` with `strtab_sz`; `none` for `NULL`. -/
structure Found where
  best : Option Nat
  strtab : Option (Nat × Nat)
deriving DecidableEq, Repr

/-- The loop over the sections, from section `i` on. -/
def bwElfSections (bias ip shoff shnum : Nat) : Nat → Nat → Found → Reader Found
  | 0, _, found => pure found
  | n + 1, i, found => do
      let tab ← readSymTab f shoff shnum i
      match tab with
      | none => bwElfSections bias ip shoff shnum n (i + 1) found
      | some tab => do
          let best ← bwElfSymbols f bias ip tab tab.nsym 0 found.best
          bwElfSections bias ip shoff shnum n (i + 1) ⟨best, some (tab.strOff, tab.strSize)⟩

/-! ### The name -/

/-- The number of characters from `off` on up to a NUL, at most `n`. -/
def elfNameLen : Nat → Nat → Reader Nat
  | 0, _ => pure 0
  | n + 1, off => do
      let ch ← readField f off 1
      if ch = 0 then pure 0
      else
        let len ← elfNameLen n (off + 1)
        pure (len + 1)

/-- Copy the name of the symbol that was found to `out`; `out_sz` is the length of
`out`. -/
def bwElfCopyName (found : Found) (out : List UInt8) : Reader (Bool × List UInt8) :=
  match found.best, found.strtab with
  | some best, some (strOff, strSize) => do
      let name ← readField f best 4
      if name < strSize then
        let len ← elfNameLen f (strSize - name) (strOff + name)
        if 0 < len then
          let len := if out.length ≤ len then out.length - 1 else len
          let text ← readBytes f (strOff + name) len
          pure (true, text ++ 0 :: out.drop (len + 1))
        else pure (false, out)
      else pure (false, out)
  | _, _ => pure (false, out)

/-- The four bytes of `ELFMAG`. -/
def readMagic : Reader Bool := do
  let mag0 ← readField f 0 1
  if mag0 ≠ 0x7f then pure false
  else
    let mag1 ← readField f 1 1
    if mag1 ≠ 0x45 then pure false
    else
      let mag2 ← readField f 2 1
      if mag2 ≠ 0x4c then pure false
      else
        let mag3 ← readField f 3 1
        pure (mag3 = 0x46)

/-- The header checks: `e_shoff` and `e_shnum` of a file with a section table. -/
def readEhdr : Reader (Option (Nat × Nat)) :=
  if f.size < c.ehdrSize then pure none
  else do
    let magic ← readMagic f
    if !magic then pure none
    else
      let shentsize ← readField f c.eShentsize 2
      if shentsize ≠ c.shdrSize then pure none
      else
        let shoff ← readField f c.eShoff c.wordSize
        if shoff = 0 then pure none
        else
          let shnum ← readField f c.eShnum 2
          if f.size < shoff ∨ f.size - shoff < shnum * c.shdrSize then pure none
          else pure (some (shoff, shnum))

/-- The work on a file that is mapped. -/
def bwElfMapped (bias ip : Nat) (out : List UInt8) : Reader (Bool × List UInt8) := do
  let ehdr ← readEhdr f
  match ehdr with
  | none => pure (false, out)
  | some (shoff, shnum) => do
      let found ← bwElfSections f bias ip shoff shnum shnum 0 ⟨none, none⟩
      bwElfCopyName f found out

end Sname

/-- `bw_elf_sname`: whether it found a name, and what is in `out`, whose length is
`out_sz`, afterwards. -/
def bwElfSname {c : ElfClass} (mapFile : List UInt8 → Option (ElfFile c))
    (path : Option (List UInt8)) (bias ip : Nat) (out : List UInt8) : Reader (Bool × List UInt8) :=
  if path.getD [] = [] ∨ out.length = 0 then pure (false, out)
  else
    match mapFile (path.getD []) with
    | none => pure (false, out)
    | some f => bwElfMapped f bias ip out

end Backwalk.Elf
