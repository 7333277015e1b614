import Backwalk.DwarfLine.Table

/-!
Contract: the reads of `src/dwarf_line.c`: `bw_cur_ok` and the fixed-size and
LEB128 readers over it, `strlen`, and the attribute forms of a version 5 header.

All bounds checks go through `bwCurOk`, which compares with the end of the
section and computes the room as an unsigned difference: a cursor past the end
has room for nearly everything. `strlen` is not checked at all; it examines
mapped memory until it finds a NUL, and faults where the mapping ends.
-/

namespace Backwalk.DwarfLine

variable (img : Image)

/-! ### Fixed-size reads -/

/-- The room `(size_t)(c->end - c->p)`. -/
def curRoom (c : Cur) : Nat := (c.endp + 2 ^ img.bits - c.p) % 2 ^ img.bits

/-- `bw_cur_ok`. -/
def bwCurOk (c : Cur) (n : Nat) : Bool := c.p ≠ 0 && c.endp ≠ 0 && n ≤ curRoom img c

/-- Read one byte of memory. -/
def load (addr : Nat) : Parser UInt8 :=
  match img.mem addr with
  | some byte => pure byte
  | none => stop (.fault (.segv addr))

/-- Read `n` bytes of memory. -/
def loadBytes : Nat → Nat → Parser (List UInt8)
  | _, 0 => pure []
  | addr, n + 1 => do
      let byte ← load img addr
      let rest ← loadBytes (img.ptrAdd addr 1) n
      pure (byte :: rest)

/-- Little-endian value. -/
def leNat : List UInt8 → Nat
  | [] => 0
  | byte :: rest => byte.toNat + 256 * leNat rest

/-- `memcpy(out, c->p, n); c->p += n` after a check of `n` bytes. -/
def bwUint (n : Nat) : Parser Nat := do
  let c ← getCur
  if bwCurOk img c n then
    let bytes ← loadBytes img c.p n
    setP (img.ptrAdd c.p n)
    pure (leNat bytes)
  else stop .short

/-- `bw_u8`. -/
def bwU8 : Parser Nat := bwUint img 1

/-- `bw_u16`. -/
def bwU16 : Parser Nat := bwUint img 2

/-- `bw_u32`. -/
def bwU32 : Parser Nat := bwUint img 4

/-- `bw_u64`. -/
def bwU64 : Parser Nat := bwUint img 8

/-- `bw_skip`. -/
def bwSkip (n : Nat) : Parser Unit := do
  let c ← getCur
  if bwCurOk img c n then setP (img.ptrAdd c.p n) else stop .short

/-! ### LEB128 -/

/-- `(int64_t)v` of a `uint64_t`. -/
def toI64 (v : Nat) : Int := if v < 2 ^ 63 then v else (v : Int) - 2 ^ 64

/-- `(uint64_t)v` of an `int64_t`. -/
def ofI64 (v : Int) : Nat := (v % 2 ^ 64).toNat

/-- One 7-bit group at its place: `(uint64_t)(b & 0x7f) << shift`. -/
def lebGroup (b shift : Nat) : Nat := ((b &&& 0x7f) <<< shift) % 2 ^ 64

/-- The loop of `bw_uleb`. -/
def bwUlebFrom : Nat → Nat → Nat → Parser Nat
  | 0, _, _ => stop (.fault .fuel)
  | fuel + 1, r, shift => do
      let b ← bwU8 img
      let r := r ||| lebGroup b shift
      if b &&& 0x80 = 0 then pure r
      else if 64 ≤ shift + 7 then stop .malformed
      else bwUlebFrom fuel r (shift + 7)

/-- `bw_uleb`. -/
def bwUleb : Parser Nat := bwUlebFrom img 10 0 0

/-- The loop of `bw_sleb`. The two halves of its guard are tested the other way
round, which tells an over-long encoding from a short one. -/
def bwSlebFrom : Nat → Nat → Nat → Parser Int
  | 0, _, _ => stop (.fault .fuel)
  | fuel + 1, r, shift =>
      if 64 ≤ shift then stop .malformed
      else do
        let b ← bwU8 img
        let r := r ||| lebGroup b shift
        let shift := shift + 7
        if b &&& 0x80 ≠ 0 then bwSlebFrom fuel r shift
        else if shift < 64 ∧ b &&& 0x40 ≠ 0 then
          pure (toI64 (r ||| ((2 ^ 64 - 1) <<< shift) % 2 ^ 64))
        else pure (toI64 r)

/-- `bw_sleb`. -/
def bwSleb : Parser Int := bwSlebFrom img 11 0 0

/-! ### Strings -/

/-- The bytes at `addr` up to a NUL, or the address at which memory ended. -/
def cstrIn (mem : Nat → Option UInt8) : Nat → Nat → Except Nat (List UInt8)
  | 0, addr => .error addr
  | fuel + 1, addr =>
      match mem addr with
      | none => .error addr
      | some byte => if byte = 0 then .ok [] else (cstrIn mem fuel (addr + 1)).map (byte :: ·)

/-- `strlen` of a string that is taken to lie in `sec`, returning the bytes it
counted. `after` is where the cursor stands once a string of that length has
been dealt with. -/
def strlen (sec : SectionId) (addr : Nat) (after : Nat → Nat) : Parser (List UInt8) :=
  match cstrIn img.mem (2 ^ img.bits - addr) addr with
  | .ok bytes => do
      logScan ⟨sec, addr, addr + bytes.length + 1, after bytes.length⟩
      pure bytes
  | .error last => do
      logScan ⟨sec, addr, last + 1, last + 1⟩
      stop (.fault (.segv last))

/-! ### Forms -/

/-- The attribute forms the parser knows. -/
inductive Form where
  | addr | block2 | block4 | data2 | data4 | data8 | string | block | block1 | data1 | flag
  | sdata | strp | udata | refAddr | secOffset | exprloc | flagPresent | data16 | lineStrp
  | implicitConst | unknown
deriving DecidableEq, Repr

/-- The `BW_FORM_*` codes. -/
def Form.ofCode (code : Nat) : Form :=
  if code = 0x01 then .addr
  else if code = 0x03 then .block2
  else if code = 0x04 then .block4
  else if code = 0x05 then .data2
  else if code = 0x06 then .data4
  else if code = 0x07 then .data8
  else if code = 0x08 then .string
  else if code = 0x09 then .block
  else if code = 0x0a then .block1
  else if code = 0x0b then .data1
  else if code = 0x0c then .flag
  else if code = 0x0d then .sdata
  else if code = 0x0e then .strp
  else if code = 0x0f then .udata
  else if code = 0x10 then .refAddr
  else if code = 0x17 then .secOffset
  else if code = 0x18 then .exprloc
  else if code = 0x19 then .flagPresent
  else if code = 0x1e then .data16
  else if code = 0x1f then .lineStrp
  else if code = 0x21 then .implicitConst
  else .unknown

/-- More steps than a cursor can make, one address at a time, before it is
`NULL`. -/
def scanFuel : Nat := 2 ^ img.bits + 1

/-- The loop that skips a `DW_FORM_string`. -/
def skipString : Nat → Parser Unit
  | 0 => stop (.fault .fuel)
  | fuel + 1 => do
      let c ← getCur
      if bwCurOk img c 1 then
        let byte ← load img c.p
        setP (img.ptrAdd c.p 1)
        if byte = 0 then pure () else skipString fuel
      else stop .short

/-- `bw_form_skip`. -/
def bwFormSkip (form offsetSize : Nat) : Parser Unit :=
  match Form.ofCode form with
  | .flagPresent => pure ()
  | .data1 | .flag => bwSkip img 1
  | .data2 => bwSkip img 2
  | .data4 => bwSkip img 4
  | .strp | .lineStrp | .secOffset => bwSkip img offsetSize
  | .data8 | .addr => bwSkip img 8
  | .data16 => bwSkip img 16
  | .udata => do
      let _ ← bwUleb img
      pure ()
  | .sdata => do
      let _ ← bwSleb img
      pure ()
  | .string => skipString img (scanFuel img)
  | .block1 => do
      let len ← bwU8 img
      bwSkip img len
  | .block2 => do
      let len ← bwU16 img
      bwSkip img len
  | .block4 => do
      let len ← bwU32 img
      bwSkip img len
  | .block | .exprloc => do
      let len ← bwUleb img
      bwSkip img (img.size len)
  | .implicitConst => pure ()
  | .refAddr => bwSkip img offsetSize
  | .unknown => stop .malformed

/-- The loop that reads a `DW_FORM_string`, and the step over its NUL. -/
def pathString : Nat → Parser (List UInt8)
  | 0 => stop (.fault .fuel)
  | fuel + 1 => do
      let c ← getCur
      if bwCurOk img c 1 then
        let byte ← load img c.p
        setP (img.ptrAdd c.p 1)
        if byte = 0 then pure []
        else
          let rest ← pathString fuel
          pure (byte :: rest)
      else stop .short

/-- A section offset of `offset_size` bytes. -/
def bwOffset (offsetSize : Nat) : Parser Nat :=
  if offsetSize = 8 then bwU64 img else bwU32 img

/-- The `strp` and `line_strp` branch of `bw_form_path`. An offset outside its
section is accepted and denotes the empty string. -/
def pathStrp (sec : SectionId) (offsetSize : Nat) : Parser (List UInt8) := do
  let off ← bwOffset img offsetSize
  if (img.sec sec).ptr = 0 ∨ (img.sec sec).len ≤ off then pure []
  else
    let c ← getCur
    strlen img sec ((img.sec sec).ptr + off) fun _ => c.p

/-- `bw_form_path`: the bytes of `*out`. -/
def bwFormPath (form offsetSize : Nat) : Parser (List UInt8) :=
  match Form.ofCode form with
  | .string => pathString img (scanFuel img)
  | .lineStrp => pathStrp img .lineStr offsetSize
  | .strp => pathStrp img .debugStr offsetSize
  | _ => do
      bwFormSkip img form offsetSize
      pure []

/-- `bw_form_udata`. -/
def bwFormUdata (form : Nat) : Parser Nat :=
  match Form.ofCode form with
  | .udata => bwUleb img
  | .data1 => bwU8 img
  | .data2 => bwU16 img
  | .data4 => bwU32 img
  | _ => stop .malformed

end Backwalk.DwarfLine
