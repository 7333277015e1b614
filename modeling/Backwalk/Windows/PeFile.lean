import Backwalk.DwarfLine.Growth

/-!
Contract: how `src/win.c` reads a mapped PE file: the headers, the COFF string
table, section names and section data.

Owns the view of a file, the globals that a load fills, the monad of the loader,
and the reads. Every read of memory is logged with its address and length, and
every look at a character of a section header's name with its index.

The loader leaves its work in the middle with `break`, which is `Halt.leave`;
what it has written stays. A step that C leaves undefined or that kills the
process is `Halt.crash`. Sums of the source are reduced as its types do: `DWORD`
to 32 bits, `size_t`, `uintptr_t` and pointers to the width of the process.
-/

namespace Backwalk.Windows

open Backwalk.DwarfLine

def bwPeSymMax : Nat := 4096
def bwPeNameMax : Nat := 256 * 1024
/-- `BW_COFF_SYM_SIZE`. -/
def bwCoffSymSize : Nat := 18
/-- `sizeof(IMAGE_SECTION_HEADER)`. -/
def sectionHeaderSize : Nat := 40
/-- `sizeof(IMAGE_FILE_HEADER)`. -/
def fileHeaderSize : Nat := 20
/-- `sizeof(IMAGE_DOS_HEADER)`. -/
def dosHeaderSize : Nat := 64

/-! ### Globals -/

/-- `bw_pe_sym_t`. -/
structure Sym where
  addr : Nat
  nameOff : Nat
deriving DecidableEq, Repr

/-- The values of `bw_pe_state`. -/
inductive PeState where
  | empty
  | loaded
  | none
deriving DecidableEq, Repr

/-- The static variables of `src/win.c` that hold the module read last. The
arrays `bw_pe_syms` and `bw_pe_names` keep what an earlier load left behind the
counts. -/
structure Globals where
  mod : Nat
  state : PeState
  syms : Nat → Sym
  nsym : Nat
  names : Nat → UInt8
  nlen : Nat
  imageBase : Nat
  dwarf : Tab
  dwarfReady : Bool

/-- The variables when the process starts. -/
def Globals.zeroed : Globals :=
  ⟨0, .empty, fun _ => ⟨0, 0⟩, 0, fun _ => 0, 0, 0, Tab.zeroed, false⟩

/-- A `qsort` with `bw_pe_sym_cmp`. -/
structure SymQsort where
  sort : List Sym → List Sym
  perm : ∀ syms, (sort syms).Perm syms
  sorted : ∀ syms, (sort syms).Pairwise fun first second => first.addr ≤ second.addr

/-! ### The view of a file -/

/-- What `MapViewOfFile` shows: the memory of a process with pointers of `bits`
bits in which `size` bytes from `base` on are the file. -/
structure View (bits : Nat) where
  mem : Nat → Option UInt8
  base : Nat
  size : Nat
  width : bits = 32 ∨ bits = 64
  mapped : base ≠ 0
  placed : (Section.mk base size).Placed bits mem

/-- Sections that lie in memory. -/
def View.image {bits : Nat} (v : View bits) (line lineStr debugStr : Section)
    (placed : line.Placed bits v.mem ∧ lineStr.Placed bits v.mem ∧ debugStr.Placed bits v.mem) :
    Image where
  bits := bits
  mem := v.mem
  line := line
  lineStr := lineStr
  debugStr := debugStr
  width := v.width
  linePlaced := placed.1
  lineStrPlaced := placed.2.1
  debugStrPlaced := placed.2.2

/-- The view as memory only. -/
def View.memory {bits : Nat} (v : View bits) : Image :=
  v.image ⟨0, 0⟩ ⟨0, 0⟩ ⟨0, 0⟩
    ⟨absent_placed _ _, absent_placed _ _, absent_placed _ _⟩

/-- Conversion to `DWORD`. -/
def dword (n : Nat) : Nat := n % 2 ^ 32

/-- Conversion to `size_t` or `uintptr_t`. -/
def sizeT (bits n : Nat) : Nat := n % 2 ^ bits

/-- `base + off`. -/
def View.ptr {bits : Nat} (v : View bits) (off : Nat) : Nat := (v.base + off) % 2 ^ bits

/-- The bytes at `base + off`, if they are mapped. -/
def View.bytesAt {bits : Nat} (v : View bits) (off n : Nat) : Except Nat (List UInt8) :=
  peek v.memory (v.ptr off) n

/-! ### The loader's monad -/

/-- Why the loader did not go on. -/
inductive Halt where
  | leave
  | crash (why : Stop)
deriving DecidableEq, Repr

/-- What was looked at: bytes of memory, or a character of `sh->Name`. -/
inductive Access where
  | memory (addr len : Nat)
  | name (index : Nat)
deriving DecidableEq, Repr

structure LoadState where
  globals : Globals
  accesses : List Access

abbrev Loader := EStateM Halt LoadState

def getGlobals : Loader Globals := fun s => .ok s.globals s

def modifyGlobals (f : Globals → Globals) : Loader Unit :=
  fun s => .ok () { s with globals := f s.globals }

def logAccess (access : Access) : Loader Unit :=
  fun s => .ok () { s with accesses := s.accesses ++ [access] }

def halt {α : Type} (why : Halt) : Loader α := fun s => .error why s

section Reads

variable {bits : Nat} (v : View bits)

/-- Copy `n` bytes from `base + off`. -/
def readBytes (off n : Nat) : Loader (List UInt8) := do
  logAccess (.memory (v.ptr off) n)
  match v.bytesAt off n with
  | .ok bytes => pure bytes
  | .error last => halt (.crash (.fault (.segv last)))

/-- A little-endian value at `base + off`. -/
def readUint (off n : Nat) : Loader Nat := do
  let bytes ← readBytes v off n
  pure (leNat bytes)

/-- The character at `base + off`. -/
def readChar (off : Nat) : Loader UInt8 := do
  let c ← readUint v off 1
  pure (UInt8.ofNat c)

/-- A field of a structure that was copied. -/
def field (bytes : List UInt8) (off n : Nat) : Nat := leNat ((bytes.drop off).take n)

/-! ### Headers -/

/-- What the loader uses of the headers: `e_lfanew`, the fields of the
`IMAGE_FILE_HEADER`, and where the section headers begin. -/
structure PeHeaders where
  lfanew : Nat
  nsec : Nat
  symOff : Nat
  nsym : Nat
  optSize : Nat
  secOff : Nat
deriving DecidableEq, Repr

/-- The `IMAGE_FILE_HEADER` and the place of the section headers. -/
def bwPeFileHeader (lfanew : Nat) : Loader PeHeaders := do
  let fh ← readBytes v (lfanew + 4) fileHeaderSize
  let nsec := field fh 2 2
  if nsec = 0 ∨ 96 < nsec then halt .leave
  else
    let optSize := field fh 16 2
    let secOff := dword (lfanew + 4 + fileHeaderSize + optSize)
    if v.size < sizeT bits (secOff + nsec * sectionHeaderSize) then halt .leave
    else pure ⟨lfanew, nsec, field fh 8 4, field fh 12 4, optSize, secOff⟩

/-- The header checks of `bw_pe_load`. -/
def bwPeHeaders : Loader PeHeaders :=
  if v.size < dosHeaderSize then halt .leave
  else do
    let dos ← readBytes v 0 dosHeaderSize
    let lfanew := field dos 60 4
    if field dos 0 2 ≠ 0x5a4d ∨ 2 ^ 31 ≤ lfanew then halt .leave
    else if v.size < sizeT bits (lfanew + 4 + fileHeaderSize) then halt .leave
    else
      let signature ← readUint v lfanew 4
      if signature ≠ 0x00004550 then halt .leave else bwPeFileHeader v lfanew

/-- `ImageBase` of the optional header. -/
def bwPeImageBase (h : PeHeaders) : Loader Unit :=
  let opt := h.lfanew + 4 + fileHeaderSize
  if 28 ≤ h.optSize then do
    let magic ← readUint v opt 2
    if magic = 0x20b ∧ 32 ≤ h.optSize then
      let ib ← readUint v (opt + 24) 8
      modifyGlobals fun g => { g with imageBase := sizeT bits ib }
    else if magic = 0x10b then
      let ib ← readUint v (opt + 28) 4
      modifyGlobals fun g => { g with imageBase := sizeT bits ib }
    else pure ()
  else pure ()

/-- `str_off` and `str_sz`; the size is 0 for a table that is absent or does not
fit. -/
structure StrTab where
  off : Nat
  size : Nat
deriving DecidableEq, Repr

def bwPeStrTab (h : PeHeaders) : Loader StrTab :=
  if h.symOff ≠ 0 ∧ h.nsym ≠ 0 ∧ sizeT bits (h.symOff + h.nsym * bwCoffSymSize + 4) ≤ v.size then do
    let off := dword (h.symOff + h.nsym * bwCoffSymSize)
    let size ← readUint v off 4
    if size < 4 ∨ v.size < sizeT bits (off + size) then pure ⟨off, 0⟩ else pure ⟨off, size⟩
  else pure ⟨0, 0⟩

/-! ### Sections -/

/-- A copy of an `IMAGE_SECTION_HEADER`. -/
structure SectionHeader where
  bytes : List UInt8
deriving DecidableEq, Repr

namespace SectionHeader

variable (sh : SectionHeader)

def virtualAddress : Nat := field sh.bytes 12 4
def sizeOfRawData : Nat := field sh.bytes 16 4
def pointerToRawData : Nat := field sh.bytes 20 4

end SectionHeader

/-- The section header with index `index`. -/
def readSectionHeader (h : PeHeaders) (index : Nat) : Loader SectionHeader := do
  let bytes ← readBytes v (h.secOff + index * sectionHeaderSize) sectionHeaderSize
  pure ⟨bytes⟩

/-- `sh->Name[index]`. -/
def nameChar (sh : SectionHeader) (index : Nat) : Loader UInt8 := do
  logAccess (.name index)
  pure ((sh.bytes[index]?).getD 0)

/-- The decimal digits of `Name` from index `d` on, at most `n` of them. -/
def sectionDigits (sh : SectionHeader) : Nat → Nat → Nat → Loader Nat
  | 0, _, off => pure off
  | n + 1, d, off => do
      let c ← nameChar sh d
      if 0x30 ≤ c ∧ c ≤ 0x39 then sectionDigits sh n (d + 1) (dword (off * 10 + (c.toNat - 0x30)))
      else pure off

/-- The copy loop of `bw_section_name`. The character is looked at before its
index is compared with 8. -/
def sectionChars (charAt : Nat → Loader UInt8) (inHeader : Bool) (outLen : Nat) :
    Nat → Nat → Loader (List UInt8)
  | 0, _ => pure []
  | fuel + 1, i =>
      if i + 1 < outLen then do
        let c ← charAt i
        if c ≠ 0 ∧ (inHeader = false ∨ i < 8) then
          let rest ← sectionChars charAt inHeader outLen fuel (i + 1)
          pure (c :: rest)
        else pure []
      else pure []

/-- Where the characters of a section name are: an offset into the string table
if `Name` is a slash and a number that the table has room for. -/
def sectionNameOff (sh : SectionHeader) (strTab : StrTab) : Loader (Option Nat) := do
  let first ← nameChar sh 0
  if first = 0x2f then
    let off ← sectionDigits sh 7 1 0
    if 4 < strTab.size ∧ off < strTab.size then pure (some off) else pure none
  else pure none

/-- `bw_section_name`: what it leaves in `out` before the terminator. -/
def bwSectionName (sh : SectionHeader) (strTab : StrTab) (outLen : Nat) : Loader (List UInt8) := do
  match ← sectionNameOff sh strTab with
  | some off => sectionChars (fun i => readChar v (strTab.off + off + i)) false outLen outLen 0
  | none => sectionChars (nameChar sh) true outLen outLen 0

/-- `bw_section_data`: pointer, `0` for `NULL`, and length. -/
def bwSectionData (sh : SectionHeader) : Section :=
  if sh.pointerToRawData = 0 ∨ sh.sizeOfRawData = 0 then ⟨0, 0⟩
  else if v.size < sizeT bits (sh.pointerToRawData + sh.sizeOfRawData) then ⟨0, 0⟩
  else ⟨v.ptr sh.pointerToRawData, sh.sizeOfRawData⟩

end Reads

end Backwalk.Windows
