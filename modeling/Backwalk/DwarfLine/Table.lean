import Backwalk.DwarfLine.State

/-!
Contract: the functions of `src/dwarf_line.c` that touch the table: interning
(`bwAddStr`), path joining, row emission, reset and lookup.

`qsort` is a parameter: any function that returns a sorted permutation of the
rows. The C standard does not say more, in particular not that it is stable.
-/

namespace Backwalk.DwarfLine

/-! ### The string pool -/

/-- `strs` with `bytes` written from index `start` on. -/
def writeBytes (strs : Nat → UInt8) (start : Nat) (bytes : List UInt8) : Nat → UInt8 :=
  fun index =>
    if start ≤ index then (bytes[index - start]?).getD (strs index) else strs index

/-- The bytes that `bw_add_str` copies: at most `n`, up to a NUL, where `n` is
first cut to what the pool can still hold with a terminator. -/
def addStrBytes (nstr : Nat) (s : List UInt8) : List UInt8 :=
  let n := if bwDwarfStrMax - nstr ≤ s.length then bwDwarfStrMax - nstr - 1 else s.length
  (s.take n).takeWhile (· ≠ 0)

/-- `bw_add_str(tab, s, n)` where `s` points to `n` bytes. The terminator has
the largest index that is written. -/
def bwAddStr (s : List UInt8) : Parser Int := do
  let tab ← getTab
  if bwDwarfStrMax < tab.nstr + 1 then pure (-1)
  else
    let bytes := addStrBytes tab.nstr s
    checkIndex .strs (tab.nstr + bytes.length) bwDwarfStrMax
    setTab { tab with
      strs := writeBytes tab.strs tab.nstr (bytes ++ [0])
      nstr := tab.nstr + bytes.length + 1 }
    pure tab.nstr

/-- The bytes from `off` to the next NUL, `none` if `fuel` bytes hold none. -/
def cstrFrom (strs : Nat → UInt8) : Nat → Nat → Option (List UInt8)
  | 0, _ => none
  | fuel + 1, off =>
      if strs off = 0 then some []
      else (cstrFrom strs fuel (off + 1)).map (strs off :: ·)

/-- The C string at `tab->strs + off`, if it ends inside the array. -/
def Tab.cstr (tab : Tab) (off : Nat) : Option (List UInt8) :=
  cstrFrom tab.strs (bwDwarfStrMax - off) off

/-- The file name text that a name offset denotes. -/
def Tab.text (tab : Tab) (off : Nat) : List UInt8 := (tab.cstr off).getD []

/-- Read the C string at `tab->strs + off`. -/
def poolStr (off : Nat) : Parser (List UInt8) := do
  let tab ← getTab
  match tab.cstr off with
  | some text => pure text
  | none => stop (.fault (.index .strs bwDwarfStrMax))

/-! ### Paths -/

/-- `'/'` or `'\\'`. -/
def isSeparator (c : UInt8) : Bool := c == 0x2f || c == 0x5c

/-- The condition of `abs_file`: a separator, or a drive letter and `':'`. -/
def isAbsolute : List UInt8 → Bool
  | [] => false
  | c :: rest =>
      isSeparator c ||
        (((0x41 ≤ c && c ≤ 0x5a) || (0x61 ≤ c && c ≤ 0x7a)) && rest.head? == some 0x3a)

/-- Append `src` to `dst` while a byte and a terminator still fit. -/
def joinCopy (dstLen : Nat) : List UInt8 → List UInt8 → List UInt8
  | dst, [] => dst
  | dst, c :: rest => if dst.length + 1 < dstLen then joinCopy dstLen (dst ++ [c]) rest else dst

/-- `bw_join_path(dst, dst_len, dir, file)` for `dst_len >= 1`: what it leaves
in `dst` before the terminator. It returns whether this is not empty. -/
def bwJoinPath (dstLen : Nat) (dir file : List UInt8) : List UInt8 :=
  let front :=
    if !isAbsolute file && !dir.isEmpty then
      let copied := joinCopy dstLen [] dir
      match copied.getLast? with
      | some last =>
          if !isSeparator last && copied.length + 1 < dstLen then copied ++ [0x2f] else copied
      | none => copied
    else []
  joinCopy dstLen front file

/-! ### Rows -/

/-- `bw_emit`. -/
def bwEmit (addr : Nat) (fileOff : Int) (line : Nat) : Parser Unit := do
  let tab ← getTab
  if bwDwarfRowMax ≤ tab.nrow || fileOff < 0 || addr = 0 || line = 0 || 0xffffffff < line then
    pure ()
  else
    checkIndex .rows tab.nrow bwDwarfRowMax
    setTab { tab with rows := tab.rows ++ [⟨addr, fileOff.toNat, line⟩] }

/-- `bw_dwarf_tab_reset`. The bytes of the pool stay where they are. -/
def bwDwarfTabReset (tab : Tab) : Tab := { tab with rows := [], nstr := 0 }

/-- A `qsort` with `bw_row_cmp`. -/
structure Qsort where
  sort : List Row → List Row
  perm : ∀ rows, (sort rows).Perm rows
  sorted : ∀ rows, (sort rows).Pairwise fun first second => first.addr ≤ second.addr

/-- The loop of `bw_dwarf_tab_lookup`; `best` is `none` for `(size_t)-1`. -/
def lookupLoop (rows : List Row) (addr : Nat) : Nat → Nat → Nat → Option Nat → Option Nat
  | 0, _, _, best => best
  | fuel + 1, lo, hi, best =>
      if lo < hi then
        let mid := lo + (hi - lo) / 2
        if ((rows[mid]?).map Row.addr).getD 0 ≤ addr then
          lookupLoop rows addr fuel (mid + 1) hi (some mid)
        else lookupLoop rows addr fuel lo mid best
      else best

/-- `bw_dwarf_tab_lookup`: the file name text and the line, or `none` for
`false`. -/
def bwDwarfTabLookup (tab : Tab) (addr : Nat) : Option (List UInt8 × Nat) :=
  match lookupLoop tab.rows addr tab.nrow 0 tab.nrow none with
  | none => none
  | some best => (tab.rows[best]?).map fun row => (tab.text row.nameOff, row.line)

end Backwalk.DwarfLine
