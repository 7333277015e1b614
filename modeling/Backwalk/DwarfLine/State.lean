import Mathlib.Algebra.Group.Int.Defs
import Mathlib.Algebra.Group.Nat.Defs

/-!
Contract: the data that `src/dwarf_line.c` works on, and the monad its
functions are written in.

Owns the process image a parse is given (pointer width, memory, the three
sections), the cursor, the table with its string pool, the reasons for which a
function gives up, and the elementary effects.

A C function that returns 0 is an action that stops. The source has one failure
value; `Stop` keeps apart a read refused for lack of bytes (`short`) and a
value the code rejects (`malformed`). A step that C leaves undefined or that
kills the process is a `fault`. Two logs that no function reads record the
string scans and the table after each change.

Little-endian hosts only, as all supported ones are.
-/

namespace Backwalk.DwarfLine

/-! ### Limits -/

def bwDwarfRowMax : Nat := 65536
def bwDwarfStrMax : Nat := 256 * 1024
def bwDwarfFilesMax : Nat := 512
def bwDwarfDirsMax : Nat := 256
def bwDwarfFmtMax : Nat := 16
/-- `sizeof(joined)`. -/
def bwJoinedLen : Nat := 512

/-! ### The process image -/

/-- A section as the parser receives it: pointer, `0` for `NULL`, and length. -/
structure Section where
  ptr : Nat
  len : Nat
deriving DecidableEq, Repr

/-- The sections `bw_dwarf_tab_parse` is given. -/
inductive SectionId where
  | line
  | lineStr
  | debugStr
deriving DecidableEq, Repr

/-- The bytes of a section are mapped and do not wrap around the address
space. -/
def Section.Placed (sec : Section) (bits : Nat) (mem : Nat → Option UInt8) : Prop :=
  sec.ptr ≠ 0 → sec.ptr + sec.len < 2 ^ bits ∧
    ∀ index < sec.len, (mem (sec.ptr + index)).isSome = true

instance (sec : Section) (bits : Nat) (mem : Nat → Option UInt8) :
    Decidable (sec.Placed bits mem) :=
  inferInstanceAs (Decidable (sec.ptr ≠ 0 → sec.ptr + sec.len < 2 ^ bits ∧
    ∀ index < sec.len, (mem (sec.ptr + index)).isSome = true))

/-- What a parse can see: the width of a pointer and of `size_t`, the mapped
bytes of the address space, and the three sections in it. What lies around the
sections is arbitrary. -/
structure Image where
  bits : Nat
  mem : Nat → Option UInt8
  line : Section
  lineStr : Section
  debugStr : Section
  width : bits = 32 ∨ bits = 64
  linePlaced : line.Placed bits mem
  lineStrPlaced : lineStr.Placed bits mem
  debugStrPlaced : debugStr.Placed bits mem

def Image.sec (img : Image) : SectionId → Section
  | .line => img.line
  | .lineStr => img.lineStr
  | .debugStr => img.debugStr

/-- Conversion to `size_t` or `uintptr_t`. -/
def Image.size (img : Image) (n : Nat) : Nat := n % 2 ^ img.bits

/-- `p + n` on pointers. -/
def Image.ptrAdd (img : Image) (p n : Nat) : Nat := (p + n) % 2 ^ img.bits

/-- Memory that holds `bytes` from `base` on. -/
def memAt (base : Nat) (bytes : List UInt8) : Nat → Option UInt8 :=
  fun addr => if base ≤ addr then bytes[addr - base]? else none

/-- Bytes at `0x10000`, 4 GiB at most, lie in memory. -/
theorem memAt_placed (bytes : List UInt8) :
    (Section.mk 0x10000 (min bytes.length (2 ^ 32))).Placed 64 (memAt 0x10000 bytes) := by
  intro _
  refine ⟨by dsimp only; omega, fun index below => ?_⟩
  have inside : index < bytes.length := Nat.lt_of_lt_of_le below (Nat.min_le_left _ _)
  simp [memAt, inside]

theorem wide : 64 = 32 ∨ 64 = 64 := Or.inr rfl

/-- A section that was not found lies nowhere. -/
theorem absent_placed (bits : Nat) (mem : Nat → Option UInt8) : (Section.mk 0 0).Placed bits mem :=
  fun present => absurd rfl present

/-- A 64-bit image with a line section at `0x10000`, of 4 GiB at most, and
nothing else. -/
def lineImage (bytes : List UInt8) : Image where
  bits := 64
  mem := memAt 0x10000 bytes
  line := ⟨0x10000, min bytes.length (2 ^ 32)⟩
  lineStr := ⟨0, 0⟩
  debugStr := ⟨0, 0⟩
  width := wide
  linePlaced := memAt_placed bytes
  lineStrPlaced := absent_placed _ _
  debugStrPlaced := absent_placed _ _

/-! ### Table and cursor -/

/-- `bw_dwarf_row_t`. -/
structure Row where
  addr : Nat
  nameOff : Nat
  line : Nat
deriving DecidableEq, Repr

/-- `bw_dwarf_tab_t`; `rows` is `rows[0, nrow)`. -/
structure Tab where
  rows : List Row
  strs : Nat → UInt8
  nstr : Nat

def Tab.nrow (tab : Tab) : Nat := tab.rows.length

/-- A zero-initialised table. -/
def Tab.zeroed : Tab := ⟨[], fun _ => 0, 0⟩

/-- `bw_cur_t`. -/
structure Cur where
  p : Nat
  endp : Nat
  dwarf64 : Bool
deriving DecidableEq, Repr

/-! ### Actions -/

/-- The fixed-size arrays of the parser. -/
inductive ArrayName where
  | stdLen
  | lnct
  | form
  | dirOff
  | fileOff
  | joined
  | rows
  | strs
deriving DecidableEq, Repr

/-- What a C program must not do. `fuel` is the model's own: a loop went on for
longer than its bound. -/
inductive Fault where
  | segv (addr : Nat)
  | index (array : ArrayName) (index : Nat)
  | divZero
  | fuel
deriving DecidableEq, Repr

/-- Why an action ended without a value. -/
inductive Stop where
  | short
  | malformed
  | fault (fault : Fault)
deriving DecidableEq, Repr

/-- One string scan: the bytes `[lo, hi)` were examined, in the scan of a string
of `sec`, and the cursor was at `after` once it was over. -/
structure Scan where
  sec : SectionId
  lo : Nat
  hi : Nat
  after : Nat
deriving DecidableEq, Repr

structure State where
  tab : Tab
  cur : Cur
  scans : List Scan
  tabs : List Tab

abbrev Parser := EStateM Stop State

def getCur : Parser Cur := fun s => .ok s.cur s

def getTab : Parser Tab := fun s => .ok s.tab s

def setP (p : Nat) : Parser Unit := fun s => .ok () { s with cur := { s.cur with p := p } }

def setDwarf64 (flag : Bool) : Parser Unit :=
  fun s => .ok () { s with cur := { s.cur with dwarf64 := flag } }

/-- Change the table, and log it. -/
def setTab (tab : Tab) : Parser Unit :=
  fun s => .ok () { s with tab := tab, tabs := s.tabs ++ [tab] }

def logScan (scan : Scan) : Parser Unit :=
  fun s => .ok () { s with scans := s.scans ++ [scan] }

def stop {α : Type} (why : Stop) : Parser α := fun s => .error why s

/-- An access to `array[index]`. -/
def checkIndex (array : ArrayName) (index size : Nat) : Parser Unit :=
  if index < size then pure () else stop (.fault (.index array index))

/-- C division. -/
def cDiv (a b : Nat) : Parser Nat :=
  if b = 0 then stop (.fault .divZero) else pure (a / b)

/-- C remainder. -/
def cMod (a b : Nat) : Parser Nat :=
  if b = 0 then stop (.fault .divZero) else pure (a % b)

/-! ### Local arrays -/

/-- A local array of the parser. -/
structure CArray (α : Type) where
  name : ArrayName
  size : Nat
  cell : Nat → α

def CArray.read {α : Type} (a : CArray α) (index : Nat) : Parser α := do
  checkIndex a.name index a.size
  pure (a.cell index)

def CArray.write {α : Type} (a : CArray α) (index : Nat) (value : α) : Parser (CArray α) := do
  checkIndex a.name index a.size
  pure { a with cell := fun other => if other = index then value else a.cell other }

end Backwalk.DwarfLine
