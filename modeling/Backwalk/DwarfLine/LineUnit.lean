import Backwalk.DwarfLine.LineProgram

/-!
Contract: `bw_parse_unit` on a unit whose header and program are given.

Owns the bytes of a line-number unit, in both formats and all four versions, the
header that the parser reads from them, and the rows that it appends: those of
the line-number state machine that the table takes.

The directory and file tables are bytes here, and what is asked of them is that
the parser accepts them.
-/

namespace Backwalk.DwarfLine

open Backwalk.Support

/-! ### Little-endian fields -/

/-- The `n` bytes of a value, the lowest first. -/
def leBytes : Nat → Nat → List UInt8
  | 0, _ => []
  | n + 1, value => UInt8.ofNat value :: leBytes n (value / 256)

@[simp]
theorem leBytes_length (n value : Nat) : (leBytes n value).length = n := by
  induction n generalizing value with
  | zero => rfl
  | succ n inductionHypothesis => rw [leBytes, List.length_cons, inductionHypothesis]

theorem leNat_leBytes {n value : Nat} (fits : value < 256 ^ n) :
    leNat (leBytes n value) = value := by
  induction n generalizing value with
  | zero =>
      rw [Nat.pow_zero] at fits
      rw [leBytes, leNat]
      omega
  | succ n inductionHypothesis =>
      have high : value / 256 < 256 ^ n := by
        apply Nat.div_lt_of_lt_mul
        rwa [Nat.mul_comm, ← Nat.pow_succ]
      rw [leBytes, leNat, inductionHypothesis high, UInt8.toNat_ofNat']
      omega

/-! ### Units -/

/-- The header of a line-number unit; `max_ops` is written from version 4 on,
`addr_size` in version 5 only. -/
structure LineHeader where
  dwarf64 : Bool
  version : Nat
  addrSize : UInt8
  minInst : UInt8
  maxOps : UInt8
  defaultIsStmt : UInt8
  lineBase : UInt8
  lineRange : UInt8
  opcodeBase : UInt8
  stdLens : List UInt8
  tables : List UInt8
  known : 2 ≤ version ∧ version ≤ 5
  minInstPos : minInst ≠ 0
  maxOpsPos : maxOps ≠ 0
  lineRangePos : lineRange ≠ 0
  opcodeBasePos : opcodeBase ≠ 0
  stdLensCount : stdLens.length = opcodeBase.toNat - 1

namespace LineHeader

variable (h : LineHeader)

def offsetSize : Nat := if h.dwarf64 then 8 else 4

/-- The number of operations of an instruction. -/
def opsPerInsn : Nat := if 4 ≤ h.version then h.maxOps.toNat else 1

/-- The size of the operand of `set_address`. -/
def addressSize : Nat := if h.version = 5 then h.addrSize.toNat else 8

/-- The number of operands of a standard opcode. -/
def stdLen (op : Nat) : Nat :=
  if 1 ≤ op ∧ op < 1 + h.stdLens.length then ((h.stdLens[op - 1]?).getD 0).toNat else 0

def coding : Coding := ⟨h.opcodeBase.toNat, h.addressSize, h.stdLen⟩

/-- The machine that the header describes. -/
def params (width : Nat) : LineParams where
  width := width
  minInst := h.minInst.toNat
  maxOps := h.opsPerInsn
  lineBase := toI8 h.lineBase.toNat
  lineRange := h.lineRange.toNat
  opcodeBase := h.opcodeBase.toNat

/-- `addr_size` and `seg_size`, the latter 0. -/
def addrSegBytes : List UInt8 := if h.version = 5 then [h.addrSize, 0] else []

def maxOpsBytes : List UInt8 := if 4 ≤ h.version then [h.maxOps] else []

/-- The fields from `default_is_stmt` to `standard_opcode_lengths`. -/
def opcodeBytes : List UInt8 :=
  h.defaultIsStmt :: h.lineBase :: h.lineRange :: h.opcodeBase :: h.stdLens

/-- The part that `header_length` counts. -/
def counted : List UInt8 := h.minInst :: (h.maxOpsBytes ++ (h.opcodeBytes ++ h.tables))

/-- The part in front of it. -/
def front : List UInt8 :=
  leBytes 2 h.version ++ (h.addrSegBytes ++ leBytes h.offsetSize h.counted.length)

/-- What `unit_length` counts of the header. -/
def bytes : List UInt8 := h.front ++ h.counted

/-- `unit_length` of a unit with this many bytes behind the header. -/
def lengthBytes (len : Nat) : List UInt8 :=
  if h.dwarf64 then [0xff, 0xff, 0xff, 0xff] ++ leBytes 8 len else leBytes 4 len

end LineHeader

/-- A unit: header and program. In the 32-bit format the length is not one of
the reserved values. -/
structure LineUnit where
  header : LineHeader
  program : List (Insn header.coding)
  short : header.dwarf64 = false →
    (header.bytes ++ insnBytes program).length < 0xfffffff0

namespace LineUnit

variable (unit : LineUnit)

/-- What `unit_length` counts. -/
def body : List UInt8 := unit.header.bytes ++ insnBytes unit.program

def lengthBytes : List UInt8 := unit.header.lengthBytes unit.body.length

def bytes : List UInt8 := unit.lengthBytes ++ unit.body

/-- The operations of the program. -/
def ops : List LineOp := unit.program.map Insn.op

/-- The rows of the line-number state machine. -/
def rows (width : Nat) : List LineRegs := (unit.header.params width).rows LineRegs.init unit.ops

/-- The header as the parser has it when the unit is at `p`. -/
def prologue (p : Nat) : Prologue where
  unitEnd := p + unit.bytes.length
  prog := p + (unit.lengthBytes.length + unit.header.bytes.length)
  offsetSize := unit.header.offsetSize
  version := unit.header.version
  addrSize := unit.header.addressSize
  minInst := unit.header.minInst.toNat
  maxOps := unit.header.opsPerInsn
  lineBase := toI8 unit.header.lineBase.toNat
  lineRange := unit.header.lineRange.toNat
  opcodeBase := unit.header.opcodeBase.toNat
  stdLen := ⟨.stdLen, 256, unit.header.stdLen⟩

/-- The state when the parser comes to the tables. -/
def atTables (s : State) : State :=
  { s with cur :=
    { s.cur with
      p := s.cur.p + (unit.lengthBytes.length + (unit.header.bytes.length -
        unit.header.tables.length))
      dwarf64 := unit.header.dwarf64 } }

end LineUnit

/-! ### The header -/

section Header

variable {img : Image} {s t : State} {xs ys : List UInt8}

def State.flagged (s : State) (flag : Bool) : State :=
  { s with cur := { s.cur with dwarf64 := flag } }

theorem Ahead.flagged {c : Cur} (ahead : Ahead img xs c) (flag : Bool) :
    Ahead img xs { c with dwarf64 := flag } :=
  ⟨ahead.started, ahead.fits, ahead.below, ahead.mem⟩

theorem Ahead.next {x : UInt8} (ahead : Ahead img (x :: ys) s.cur) :
    Ahead img ys (s.advance 1).cur :=
  (show Ahead img ([x] ++ ys) s.cur from ahead).rest

theorem Ahead.behind (ahead : Ahead img (xs ++ ys) s.cur) :
    Ahead img ys (s.advance xs.length).cur :=
  ahead.rest

/-- Lengths of what is in memory keep their value in a `size_t`. -/
theorem Ahead.size {c : Cur} (ahead : Ahead img xs c) : img.size xs.length = xs.length := by
  have fits := ahead.fits
  have below := ahead.below
  exact Nat.mod_eq_of_lt (by omega)

theorem Ahead.length_lt {c : Cur} (ahead : Ahead img xs c) : xs.length < 2 ^ 64 := by
  have fits := ahead.fits
  have below := ahead.below
  have width : 2 ^ img.bits ≤ 2 ^ 64 := by
    rcases img.width with bits | bits
    · rw [bits]
      decide
    · rw [bits]
  omega

theorem bwUnitEnd_ahead {offsetSize : Nat} (ahead : Ahead img (xs ++ ys) s.cur)
    (some : 2 ≤ xs.length) :
    bwUnitEnd img xs.length offsetSize s = .ok (s.cur.p + xs.length, offsetSize) s := by
  rw [bwUnitEnd, bind_of_ok (show getCur s = .ok s.cur s from rfl), if_neg (by omega),
    ahead.front.size, if_pos ahead.okay, ahead.ptrAdd]
  rfl

theorem LineUnit.body_length (unit : LineUnit) : 2 ≤ unit.body.length := by
  simp only [body, LineHeader.bytes, LineHeader.front, List.length_append, leBytes_length]
  omega

theorem bwUnitLength_ahead (unit : LineUnit) (ahead : Ahead img (unit.bytes ++ ys) s.cur) :
    bwUnitLength img s = .ok (s.cur.p + unit.bytes.length, unit.header.offsetSize)
      ((s.flagged unit.header.dwarf64).advance unit.lengthBytes.length) := by
  rw [LineUnit.bytes, List.append_assoc] at ahead
  have some := unit.body_length
  have rest := ahead.rest
  have whole : unit.bytes.length = unit.lengthBytes.length + unit.body.length :=
    List.length_append
  rw [whole]
  cases format : unit.header.dwarf64 with
  | false =>
      have short : unit.body.length < 0xfffffff0 := unit.short format
      have field : unit.lengthBytes = leBytes 4 unit.body.length := by
        rw [LineUnit.lengthBytes, LineHeader.lengthBytes, format]
        rfl
      have value : leNat (leBytes 4 unit.body.length) = unit.body.length :=
        leNat_leBytes (lt_trans short (by decide))
      rw [field, leBytes_length] at rest ⊢
      rw [field] at ahead
      have read := bwUint_ahead ahead (leBytes_length 4 _)
      have atBody : Ahead img (unit.body ++ ys) ((s.flagged false).advance 4).cur :=
        rest.flagged false
      have ends := @bwUnitEnd_ahead img _ _ _ 4 atBody some
      rw [value] at read
      rw [bwUnitLength, bind_of_ok (show bwU32 img s = _ from read),
        if_neg (show ¬ unit.body.length = 0xffffffff by omega),
        bind_of_ok
          (show setDwarf64 false (s.advance 4) = .ok () ((s.flagged false).advance 4) from rfl),
        ends, LineHeader.offsetSize, format, ← Nat.add_assoc]
      rfl
  | true =>
      have field : unit.lengthBytes = [0xff, 0xff, 0xff, 0xff] ++ leBytes 8 unit.body.length := by
        rw [LineUnit.lengthBytes, LineHeader.lengthBytes, format]
        rfl
      have value : leNat (leBytes 8 unit.body.length) = unit.body.length :=
        leNat_leBytes (show unit.body.length < 256 ^ 8 from Ahead.length_lt rest.front)
      have length : unit.lengthBytes.length = 4 + 8 := by
        rw [field, List.length_append, leBytes_length]
        rfl
      rw [length] at rest ⊢
      rw [field, List.append_assoc] at ahead
      have flag := bwUint_ahead ahead (show [0xff, 0xff, 0xff, 0xff].length = 4 from rfl)
      have atLength :
          Ahead img (leBytes 8 unit.body.length ++ (unit.body ++ ys)) (s.advance 4).cur :=
        ahead.rest
      have read := bwUint_ahead atLength (leBytes_length 8 _)
      have atBody : Ahead img (unit.body ++ ys) ((s.flagged true).advance (4 + 8)).cur :=
        rest.flagged true
      have ends := @bwUnitEnd_ahead img _ _ _ 8 atBody some
      rw [value] at read
      rw [bwUnitLength, bind_of_ok (show bwU32 img s = .ok 0xffffffff _ from flag), if_pos rfl,
        bind_of_ok (show bwU64 img (s.advance 4) = _ from read),
        bind_of_ok (show setDwarf64 true ((s.advance 4).advance 8) =
          .ok () ((s.flagged true).advance (4 + 8)) from rfl),
        ends, LineHeader.offsetSize, format, ← Nat.add_assoc]
      rfl

theorem bwAddrSeg_ahead (h : LineHeader) (ahead : Ahead img (h.addrSegBytes ++ ys) s.cur) :
    bwAddrSeg img h.version s =
      .ok (h.addressSize, 0) (s.advance h.addrSegBytes.length) := by
  by_cases five : h.version = 5
  · have field : h.addrSegBytes = [h.addrSize, 0] := if_pos five
    rw [field] at ahead ⊢
    rw [bwAddrSeg, if_pos five, LineHeader.addressSize, if_pos five,
      bind_of_ok (bwU8_ahead ahead), bind_of_ok (bwU8_ahead ahead.next), State.advance_advance]
    rfl
  · have field : h.addrSegBytes = [] := if_neg five
    rw [field, bwAddrSeg, if_neg five, LineHeader.addressSize, if_neg five]
    rfl

theorem bwHeaderLength_ahead (h : LineHeader) {n : Nat} (fits : n < 256 ^ h.offsetSize)
    (flag : s.cur.dwarf64 = h.dwarf64) (ahead : Ahead img (leBytes h.offsetSize n ++ ys) s.cur) :
    bwHeaderLength img s = .ok n (s.advance h.offsetSize) := by
  have read := bwUint_ahead ahead (leBytes_length _ _)
  rw [leNat_leBytes fits] at read
  rw [bwHeaderLength, bind_of_ok (show getCur s = .ok s.cur s from rfl), flag]
  cases format : h.dwarf64 with
  | false =>
      have size : h.offsetSize = 4 := by rw [LineHeader.offsetSize, format]; rfl
      rw [size] at read ⊢
      exact read
  | true =>
      have size : h.offsetSize = 8 := by rw [LineHeader.offsetSize, format]; rfl
      rw [size] at read ⊢
      exact read

theorem bwMaxOps_ahead (h : LineHeader) (ahead : Ahead img (h.maxOpsBytes ++ ys) s.cur) :
    bwMaxOps img h.version s = .ok h.opsPerInsn (s.advance h.maxOpsBytes.length) := by
  by_cases four : 4 ≤ h.version
  · have field : h.maxOpsBytes = [h.maxOps] := if_pos four
    rw [field] at ahead ⊢
    rw [bwMaxOps, if_pos four, LineHeader.opsPerInsn, if_pos four]
    exact bwU8_ahead ahead
  · have field : h.maxOpsBytes = [] := if_neg four
    rw [field, bwMaxOps, if_neg four, LineHeader.opsPerInsn, if_neg four]
    rfl

/-- The loop over the operand counts fills the cells in turn. -/
theorem bwStdLens_ahead {lens : List UInt8} {op : Nat} {counts : CArray Nat}
    (fits : op + lens.length ≤ counts.size) (ahead : Ahead img (lens ++ ys) s.cur) :
    bwStdLens img lens.length op counts s =
      .ok { counts with cell := fun other =>
          if op ≤ other ∧ other < op + lens.length then ((lens[other - op]?).getD 0).toNat
          else counts.cell other } (s.advance lens.length) := by
  induction lens generalizing op counts s with
  | nil =>
      have none : ∀ other, ¬ (op ≤ other ∧ other < op + 0) := fun other within => by omega
      simp only [List.length_nil, bwStdLens, if_neg (none _)]
      rfl
  | cons len lens inductionHypothesis =>
      rw [List.length_cons] at fits
      have written : counts.write op len.toNat (s.advance 1) =
          .ok
            { counts with
              cell := fun other => if other = op then len.toNat else counts.cell other }
            (s.advance 1) :=
        write_of_lt (by omega) len.toNat (s.advance 1)
      have rest : Ahead img (lens ++ ys) (s.advance 1).cur := Ahead.next ahead
      rw [List.length_cons, bwStdLens, bind_of_ok (bwU8_ahead ahead), bind_of_ok written,
        inductionHypothesis (by dsimp only; omega) rest, State.advance_advance, Nat.add_comm 1]
      congr 2
      funext other
      dsimp only
      rcases Nat.lt_trichotomy other op with below | rfl | above
      · rw [if_neg (by omega), if_neg (by omega), if_neg (by omega)]
      · rw [if_neg (by omega), if_pos rfl, if_pos (by omega), Nat.sub_self]
        rfl
      · by_cases within : other < op + 1 + lens.length
        · rw [if_pos (by omega), if_pos (by omega),
            show other - op = other - (op + 1) + 1 by omega]
          rfl
        · rw [if_neg (by omega), if_neg (by omega), if_neg (by omega)]

theorem toNat_ne_zero {x : UInt8} (nonzero : x ≠ 0) : x.toNat ≠ 0 :=
  fun zero => nonzero (UInt8.toNat_inj.mp zero)

theorem bwOpcodeHeader_ahead (h : LineHeader) {unitEnd prog offsetSize version addrSize minInst
    maxOps : Nat} (ahead : Ahead img (h.opcodeBytes ++ ys) s.cur) :
    bwOpcodeHeader img unitEnd prog offsetSize version addrSize minInst maxOps s =
      .ok ⟨unitEnd, prog, offsetSize, version, addrSize, minInst, maxOps, toI8 h.lineBase.toNat,
        h.lineRange.toNat, h.opcodeBase.toNat, ⟨.stdLen, 256, h.stdLen⟩⟩
        (s.advance h.opcodeBytes.length) := by
  have atLineBase : Ahead img (h.lineBase :: (h.lineRange :: h.opcodeBase :: h.stdLens ++ ys))
      (s.advance 1).cur := Ahead.next ahead
  have atLineRange : Ahead img (h.lineRange :: (h.opcodeBase :: h.stdLens ++ ys))
      ((s.advance 1).advance 1).cur := atLineBase.next
  have atOpcodeBase : Ahead img (h.opcodeBase :: (h.stdLens ++ ys))
      (((s.advance 1).advance 1).advance 1).cur := atLineRange.next
  have byte := h.opcodeBase.toNat_lt
  have count := h.stdLensCount
  have room : 1 + h.stdLens.length ≤ stdLenInit.size := by
    show 1 + h.stdLens.length ≤ 256
    omega
  have lens : bwStdLens img (h.opcodeBase.toNat - 1) 1 stdLenInit
      ((((s.advance 1).advance 1).advance 1).advance 1) = .ok ⟨.stdLen, 256, h.stdLen⟩
        (((((s.advance 1).advance 1).advance 1).advance 1).advance h.stdLens.length) := by
    rw [← count]
    exact bwStdLens_ahead room atOpcodeBase.next
  rw [bwOpcodeHeader, bind_of_ok (bwU8_ahead ahead), bind_of_ok (bwU8_ahead atLineBase),
    bind_of_ok (bwU8_ahead atLineRange), if_neg (toNat_ne_zero h.lineRangePos),
    bind_of_ok (bwU8_ahead atOpcodeBase), if_neg (toNat_ne_zero h.opcodeBasePos),
    bind_of_ok lens]
  simp only [State.advance_advance, LineHeader.opcodeBytes, List.length_cons]
  rw [show 1 + 1 + 1 + 1 + h.stdLens.length = h.stdLens.length + 1 + 1 + 1 + 1 by omega]
  rfl

theorem LineHeader.opsPerInsn_pos (h : LineHeader) : h.opsPerInsn ≠ 0 := by
  rw [opsPerInsn]
  split_ifs
  · exact toNat_ne_zero h.maxOpsPos
  · decide

theorem bwHeaderRest_ahead (h : LineHeader) {unitEnd prog offsetSize addrSize : Nat}
    (ahead : Ahead img (h.counted ++ ys) s.cur) :
    bwHeaderRest img unitEnd prog offsetSize h.version addrSize s =
      .ok (.go ⟨unitEnd, prog, offsetSize, h.version, addrSize, h.minInst.toNat, h.opsPerInsn,
        toI8 h.lineBase.toNat, h.lineRange.toNat, h.opcodeBase.toNat, ⟨.stdLen, 256, h.stdLen⟩⟩)
        (s.advance (h.counted.length - h.tables.length)) := by
  have atMinInst : Ahead img (h.minInst :: (h.maxOpsBytes ++ (h.opcodeBytes ++ (h.tables ++ ys))))
      s.cur := by
    simpa [LineHeader.counted] using ahead
  have atMaxOps := atMinInst.next
  have positive : ¬ (h.minInst.toNat = 0 ∨ h.opsPerInsn = 0) :=
    not_or.mpr ⟨toNat_ne_zero h.minInstPos, h.opsPerInsn_pos⟩
  have length : h.counted.length - h.tables.length =
      1 + (h.maxOpsBytes.length + h.opcodeBytes.length) := by
    simp only [LineHeader.counted, List.length_cons, List.length_append]
    omega
  rw [bwHeaderRest, bind_of_ok (bwU8_ahead atMinInst), bind_of_ok (bwMaxOps_ahead h atMaxOps),
    if_neg positive, bind_of_ok (bwOpcodeHeader_ahead h atMaxOps.rest), State.advance_advance,
    State.advance_advance, length]
  rfl

/-- The header of a unit, up to the tables. -/
theorem bwPrologue_ahead (unit : LineUnit) (ahead : Ahead img (unit.bytes ++ ys) s.cur) :
    bwPrologue img s = .ok (.go (unit.prologue s.cur.p)) (unit.atTables s) := by
  have atVersion : Ahead img (leBytes 2 unit.header.version ++ (unit.header.addrSegBytes ++
      (leBytes unit.header.offsetSize unit.header.counted.length ++
        (unit.header.counted ++ (insnBytes unit.program ++ ys)))))
      ((s.flagged unit.header.dwarf64).advance unit.lengthBytes.length).cur := by
    have whole := ahead
    rw [LineUnit.bytes, List.append_assoc] at whole
    have body : Ahead img (unit.body ++ ys)
        ((s.flagged unit.header.dwarf64).advance unit.lengthBytes.length).cur :=
      whole.rest.flagged unit.header.dwarf64
    simpa only [LineUnit.body, LineHeader.bytes, LineHeader.front, List.append_assoc] using body
  have atAddrSeg := atVersion.behind
  have atLength := atAddrSeg.behind
  have atCounted := atLength.behind
  have version : bwU16 img ((s.flagged unit.header.dwarf64).advance unit.lengthBytes.length) =
      .ok unit.header.version (((s.flagged unit.header.dwarf64).advance
        unit.lengthBytes.length).advance 2) := by
    have read := bwUint_ahead atVersion (leBytes_length 2 _)
    have known := unit.header.known
    rwa [leNat_leBytes (show unit.header.version < 256 ^ 2 by omega)] at read
  have addrSeg := bwAddrSeg_ahead unit.header atAddrSeg
  have fits : unit.header.counted.length < 256 ^ unit.header.offsetSize := by
    rw [LineHeader.offsetSize]
    cases format : unit.header.dwarf64 with
    | false =>
        have short := unit.short format
        simp only [LineHeader.bytes, List.length_append] at short
        simp only [Bool.false_eq_true, if_false]
        omega
    | true => exact atCounted.front.length_lt
  have headerLength := bwHeaderLength_ahead unit.header fits rfl atLength
  simp only [leBytes_length] at addrSeg headerLength atCounted
  rw [bwPrologue, bind_of_ok (bwUnitLength_ahead unit ahead)]
  dsimp only
  rw [bind_of_ok version, bind_of_ok addrSeg]
  dsimp only
  rw [if_neg (not_not.mpr rfl), bind_of_ok headerLength]
  have moved := atCounted.ptrAdd
  have front : unit.header.bytes.length =
      2 + unit.header.addrSegBytes.length + unit.header.offsetSize +
        unit.header.counted.length := by
    simp only [LineHeader.bytes, LineHeader.front, List.length_append, leBytes_length]
    omega
  have whole : unit.bytes.length =
      unit.lengthBytes.length + (unit.header.bytes.length + (insnBytes unit.program).length) := by
    rw [LineUnit.bytes, LineUnit.body, List.length_append, List.length_append]
  have tables : unit.header.tables.length ≤ unit.header.counted.length := by
    simp only [LineHeader.counted, List.length_cons, List.length_append]
    omega
  have prog :
      (((((s.flagged unit.header.dwarf64).advance unit.lengthBytes.length).advance 2).advance
          unit.header.addrSegBytes.length).advance unit.header.offsetSize).cur.p +
        unit.header.counted.length =
      s.cur.p + (unit.lengthBytes.length + unit.header.bytes.length) := by
    simp only [State.advance_cur, Cur.advance_p, front]
    show s.cur.p + _ + _ + _ + _ + _ = _
    omega
  rw [bind_of_ok (show getCur _ = .ok _ _ from rfl), atCounted.front.size, moved, prog,
    if_neg (by omega), bwHeaderRest_ahead unit.header atCounted, LineUnit.prologue,
    LineUnit.atTables]
  simp only [State.advance_advance]
  congr 1
  rw [show unit.lengthBytes.length + (unit.header.bytes.length - unit.header.tables.length) =
    unit.lengthBytes.length + 2 + unit.header.addrSegBytes.length + unit.header.offsetSize +
      (unit.header.counted.length - unit.header.tables.length) by omega]
  rfl

end Header

/-! ### Units -/

section Units

variable {img : Image} {s t : State} {ys : List UInt8} (unit : LineUnit) {files : Files}

theorem LineUnit.programHeader (p : Nat) : ProgramHeader (unit.prologue p) where
  maxOps := Nat.pos_of_ne_zero unit.header.opsPerInsn_pos
  maxOpsByte := by
    have byte := unit.header.maxOps.toNat_lt
    show unit.header.opsPerInsn < 256
    rw [LineHeader.opsPerInsn]
    split_ifs <;> omega
  lineRange := Nat.pos_of_ne_zero (toNat_ne_zero unit.header.lineRangePos)
  opcodeBase := Nat.pos_of_ne_zero (toNat_ne_zero unit.header.opcodeBasePos)
  stdLen := rfl

/-- What the tables hold is what the parser reads from them, at its place. -/
def LineUnit.Accepted (img : Image) (s : State) (files : Files) (t : State) : Prop :=
  bwTables img (unit.prologue s.cur.p) (unit.atTables s) = .ok files t

/-- All sums of the program fit in the 64 bits they are taken in. -/
def LineUnit.SumsFit (width : Nat) : Prop :=
  AllSumsFit (unit.header.params width) LineRegs.init unit.ops

instance (width : Nat) : Decidable (unit.SumsFit width) :=
  inferInstanceAs (Decidable (AllSumsFit _ _ _))

/-- A unit whose tables are accepted appends the rows of the machine that the
table takes, and nothing else. -/
theorem bwParseUnit_machine (ok : StateOk s) (ahead : Ahead img (unit.bytes ++ ys) s.cur)
    (accepted : unit.Accepted img s files t) (sums : unit.SumsFit img.bits) :
    ∃ exit u, bwParseUnit img s = .ok exit u ∧
      u.tab = t.tab.withRows ((unit.rows img.bits).filterMap files.taken) ∧
      u.cur.p = s.cur.p + unit.bytes.length := by
  have okTables : StateOk (unit.atTables s) := ⟨ok.tab, ok.tabs, ok.later, ok.chain⟩
  have filesOk : FilesOk t.tab files := ((bwTables_safe okTables).ok accepted).2
  have collects : Collects img (unit.atTables s) t := Develops.ok accepted
  have filesFit : files.nfile ≤ files.fileOff.size := filesOk.size ▸ filesOk.fits
  have room : t.tab.nrow ≤ bwDwarfRowMax := by
    rw [Tab.nrow, collects.rows]
    exact ok.tab.nrow
  have start : Ahead img (insnBytes unit.program ++ ys)
      (State.cur { t with cur := { t.cur with p := (unit.prologue s.cur.p).prog } }) := by
    have whole : Ahead img (unit.lengthBytes ++ unit.header.bytes ++ (insnBytes unit.program ++ ys))
        s.cur := by
      simpa only [LineUnit.bytes, LineUnit.body, List.append_assoc] using ahead
    have rest := whole.rest
    rw [List.length_append] at rest
    have endp : t.cur.endp = s.cur.endp := collects.endp
    exact ⟨rest.started, endp ▸ rest.fits, endp ▸ rest.below, rest.mem⟩
  have ends : (unit.prologue s.cur.p).prog + (insnBytes unit.program).length =
      (unit.prologue s.cur.p).unitEnd := by
    simp only [LineUnit.prologue, LineUnit.bytes, LineUnit.body, List.length_append]
    omega
  have enough : (insnBytes unit.program).length <
      (unit.prologue s.cur.p).unitEnd - (unit.prologue s.cur.p).prog + 1 := by
    rw [← ends, Nat.add_sub_cancel_left]
    exact Nat.lt_succ_self _
  obtain ⟨u, loops, ran⟩ := @bwOpcodeLoop_coded img (unit.prologue s.cur.p) files
    { t with cur := { t.cur with p := (unit.prologue s.cur.p).prog } } ys unit.program LineRegs.init
    ((unit.prologue s.cur.p).unitEnd - (unit.prologue s.cur.p).prog + 1)
    (unit.programHeader s.cur.p) codable_init sums filesFit room start ends enough
  refine ⟨⟨t.cur.p, (unit.prologue s.cur.p).prog, some .unitEnd⟩,
    { u with cur := { u.cur with p := (unit.prologue s.cur.p).unitEnd } }, ?_, ran.tab, rfl⟩
  rw [bwParseUnit, bind_of_ok (bwPrologue_ahead unit ahead)]
  dsimp only
  rw [bwUnitBody, bind_of_ok accepted, bind_of_ok (show getCur t = .ok t.cur t from rfl),
    bind_of_ok (show setP (unit.prologue s.cur.p).prog t = .ok () _ from rfl)]
  exact bind_of_ok loops

/-- What `bw_parse_unit` appends are the rows of the line-number state machine
that the table takes, in order, as long as there is room. Where it rejects the
tables it rejects the unit, and appends nothing. -/
theorem bwParseUnit_rows (unit : LineUnit) (ok : StateOk s)
    (ahead : Ahead img (unit.bytes ++ ys) s.cur) (sums : unit.SumsFit img.bits) :
    (∀ files t, unit.Accepted img s files t → ∃ exit u, bwParseUnit img s = .ok exit u ∧
        u.tab.rows =
          (s.tab.rows ++ (unit.rows img.bits).filterMap files.taken).take bwDwarfRowMax) ∧
      ∀ why t, bwTables img (unit.prologue s.cur.p) (unit.atTables s) = .error why t →
        bwParseUnit img s = .error why t ∧ t.tab.rows = s.tab.rows := by
  constructor
  · intro files t accepted
    have collects : Collects img (unit.atTables s) t := Develops.ok accepted
    obtain ⟨exit, u, parsed, tab, -⟩ := bwParseUnit_machine unit ok ahead accepted sums
    refine ⟨exit, u, parsed, ?_⟩
    rw [tab, Tab.withRows, collects.rows]
    rfl
  · intro why t rejected
    have collects : Collects img (unit.atTables s) t := Develops.error rejected
    refine ⟨?_, collects.rows⟩
    rw [bwParseUnit, bind_of_ok (bwPrologue_ahead unit ahead)]
    dsimp only
    rw [bwUnitBody]
    exact bind_of_error rejected

end Units

/-! ### Small units -/

theorem smallOperand (n : Nat) (small : n < 128) : UnsignedOperand n [UInt8.ofNat n] := by
  have value : (UInt8.ofNat n).toNat = n := by
    rw [UInt8.toNat_ofNat']
    omega
  refine ⟨?_, Nat.le_of_ble_eq_true rfl, ?_, by omega⟩
  · show (UInt8.ofNat n).toNat < 128
    rwa [value]
  · rw [unsignedLeb, unsignedLeb, value]
    omega

/-- A version 2 header: file 1 is `a`. -/
def smallHeader : LineHeader where
  dwarf64 := false
  version := 2
  addrSize := 8
  minInst := 1
  maxOps := 1
  defaultIsStmt := 1
  lineBase := 0
  lineRange := 4
  opcodeBase := 5
  stdLens := [0, 1, 1, 1]
  tables := [0, 0x61, 0, 0, 0, 0, 0]
  known := by decide
  minInstPos := by decide
  maxOpsPos := by decide
  lineRangePos := by decide
  opcodeBasePos := by decide
  stdLensCount := rfl

/-- `set_address 0x401000`. -/
def placedInsn : Insn smallHeader.coding where
  op := .setAddress 0x401000
  bytes := [0, 9, 2, 0, 0x10, 0x40, 0, 0, 0, 0, 0]
  encodes := @Encodes.setAddress smallHeader.coding [9] [0, 0x10, 0x40, 0, 0, 0, 0, 0] rfl
    (Or.inr rfl) (smallOperand 9 (by decide))

/-- `advance_line 2`. -/
def movedInsn : Insn smallHeader.coding where
  op := .advanceLine 2
  bytes := [3, 2]
  encodes := .advanceLine (by decide) ⟨by decide, by decide, by decide, by decide⟩

/-- `set_file 7`. -/
def otherFileInsn : Insn smallHeader.coding where
  op := .setFile 7
  bytes := [4, 7]
  encodes := .setFile (by decide) (smallOperand 7 (by decide))

def copyInsn : Insn smallHeader.coding := ⟨.copy, [1], .copy (by decide)⟩

def endInsn : Insn smallHeader.coding :=
  ⟨.endSequence, [0, 1, 1], .endSequence (smallOperand 1 (by decide))⟩

/-- One row, at line 3. -/
def lineThreeUnit : LineUnit where
  header := smallHeader
  program := [placedInsn, movedInsn, copyInsn, endInsn]
  short := fun _ => by decide

/-- One row, with a file that the tables do not have. -/
def otherFileUnit : LineUnit where
  header := smallHeader
  program := [placedInsn, otherFileInsn, copyInsn, endInsn]
  short := fun _ => by decide

/-- The parser appends those rows of the machine that satisfy `keep`. -/
def KeepsRows (keep : LineRegs → Bool) : Prop :=
  ∀ (img : Image) (s t : State) (ys : List UInt8) (unit : LineUnit) (files : Files),
    StateOk s → Ahead img (unit.bytes ++ ys) s.cur → unit.Accepted img s files t →
      unit.SumsFit img.bits → ∃ exit u, bwParseUnit img s = .ok exit u ∧
        u.tab.rows.map Row.line = s.tab.rows.map Row.line ++
          ((unit.rows img.bits).filter keep).map fun row => row.line.toNat

/-- The unit alone. -/
abbrev LineUnit.alone (unit : LineUnit) : Image := lineImage unit.bytes

abbrev LineUnit.first (unit : LineUnit) : State := startState unit.alone Tab.zeroed

theorem LineUnit.ahead_first (unit : LineUnit) (short : unit.bytes.length ≤ 2 ^ 32) :
    Ahead unit.alone (unit.bytes ++ []) unit.first.cur := by
  rw [List.append_nil]
  exact ahead_lineImage Tab.zeroed short

/-- The parser gets past the tables. -/
def LineUnit.accepts (unit : LineUnit) (img : Image) (s : State) : Bool :=
  match bwTables img (unit.prologue s.cur.p) (unit.atTables s) with
  | .ok _ _ => true
  | .error _ _ => false

theorem LineUnit.accepted_of_accepts {unit : LineUnit} {img : Image} {s : State}
    (accepts : unit.accepts img s = true) : ∃ files t, unit.Accepted img s files t := by
  unfold LineUnit.accepts at accepts
  unfold LineUnit.Accepted
  cases ended : bwTables img (unit.prologue s.cur.p) (unit.atTables s) with
  | ok files t => exact ⟨files, t, rfl⟩
  | error why t => rw [ended] at accepts; cases accepts

theorem KeepsRows.lines {keep : LineRegs → Bool} (keeps : KeepsRows keep) (unit : LineUnit)
    (short : unit.bytes.length ≤ 2 ^ 32) (accepts : unit.accepts unit.alone unit.first = true)
    (sums : unit.SumsFit 64) :
    (stateAfter (bwParseUnit unit.alone) unit.first).tab.rows.map Row.line =
      ((unit.rows 64).filter keep).map fun row => row.line.toNat := by
  obtain ⟨files, t, accepted⟩ := LineUnit.accepted_of_accepts accepts
  obtain ⟨exit, u, parsed, lines⟩ := keeps unit.alone unit.first t [] unit files
    (stateOk_startState tabOk_zeroed) (unit.ahead_first short) accepted sums
  rw [stateAfter_of_ok parsed, lines]
  rfl

/-- The row at line 3 is not left out, and the row without a file is. -/
theorem keepsRows_bounds :
    ¬ KeepsRows (fun row => row.address ≠ 0 ∧ 1 ≤ row.line ∧ row.line ≤ 2) ∧
      ¬ KeepsRows fun row => row.address ≠ 0 ∧ 1 ≤ row.line ∧ row.line ≤ 0xffffffff := by
  constructor
  · intro keeps
    have lines := keeps.lines lineThreeUnit (by decide +kernel) (by decide +kernel)
      (by decide +kernel)
    revert lines
    decide +kernel
  · intro keeps
    have lines := keeps.lines otherFileUnit (by decide +kernel) (by decide +kernel)
      (by decide +kernel)
    revert lines
    decide +kernel

theorem LineUnit.lines_of_rows {unit : LineUnit} {rows : List Row} {lines : List Nat}
    (appended : ∃ exit u, bwParseUnit unit.alone unit.first = .ok exit u ∧ u.tab.rows = rows)
    (evaluated : (stateAfter (bwParseUnit unit.alone) unit.first).tab.rows.map Row.line = lines) :
    ∃ exit u, bwParseUnit unit.alone unit.first = .ok exit u ∧ u.tab.rows.map Row.line = lines := by
  obtain ⟨exit, u, parsed, -⟩ := appended
  rw [stateAfter_of_ok parsed] at evaluated
  exact ⟨exit, u, parsed, evaluated⟩

/-- The row at line 3 is appended. -/
theorem lineThreeUnit_row : ∃ exit u,
    bwParseUnit lineThreeUnit.alone lineThreeUnit.first = .ok exit u ∧
      u.tab.rows.map Row.line = [3] := by
  have accepts : lineThreeUnit.accepts lineThreeUnit.alone lineThreeUnit.first = true := by
    decide +kernel
  have short : lineThreeUnit.bytes.length ≤ 2 ^ 32 := by
    decide +kernel
  have sums : lineThreeUnit.SumsFit 64 := by
    decide +kernel
  have evaluated : (stateAfter (bwParseUnit lineThreeUnit.alone)
      lineThreeUnit.first).tab.rows.map Row.line = [3] := by
    decide +kernel
  obtain ⟨files, t, accepted⟩ := LineUnit.accepted_of_accepts accepts
  exact LineUnit.lines_of_rows ((bwParseUnit_rows lineThreeUnit (stateOk_startState tabOk_zeroed)
    (lineThreeUnit.ahead_first short) sums).1 files t accepted) evaluated

end Backwalk.DwarfLine
