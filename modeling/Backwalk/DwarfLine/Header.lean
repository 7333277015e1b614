import Backwalk.DwarfLine.Sections

/-!
Contract: the header fields of a unit as a function of its bytes, and where the
program of a unit is taken to lie.

Owns the fields, what the reads of a header return in terms of them, and the
condition under which the unit end and the program start are the sums that the
header states. The lengths of the file are narrowed to `size_t` and added to
pointers before they are compared with anything.
-/

namespace Backwalk.DwarfLine

open Backwalk.Support

/-! ### Header fields -/

/-- The little-endian value of the `n` bytes at `off`. -/
def fieldAt (bytes : List UInt8) (off n : Nat) : Nat := leNat ((bytes.drop off).take n)

namespace Header

variable (bytes : List UInt8)

def dwarf64 : Bool := fieldAt bytes 0 4 = 0xffffffff

def offsetSize : Nat := if dwarf64 bytes then 8 else 4

def unitLength : Nat := if dwarf64 bytes then fieldAt bytes 4 8 else fieldAt bytes 0 4

def versionOff : Nat := if dwarf64 bytes then 12 else 4

def version : Nat := fieldAt bytes (versionOff bytes) 2

def segSize : Nat := if version bytes = 5 then fieldAt bytes (versionOff bytes + 3) 1 else 0

def headerLengthOff : Nat :=
  if version bytes = 5 then versionOff bytes + 4 else versionOff bytes + 2

def headerLength : Nat := fieldAt bytes (headerLengthOff bytes) (offsetSize bytes)

def minInstOff : Nat := headerLengthOff bytes + offsetSize bytes

def minInst : Nat := fieldAt bytes (minInstOff bytes) 1

def maxOps : Nat := if 4 ≤ version bytes then fieldAt bytes (minInstOff bytes + 1) 1 else 1

/-- Behind `min_inst` and `max_ops`. -/
def maxOpsEnd : Nat := if 4 ≤ version bytes then minInstOff bytes + 2 else minInstOff bytes + 1

def lineRange : Nat := fieldAt bytes (maxOpsEnd bytes + 2) 1

def opcodeBase : Nat := fieldAt bytes (maxOpsEnd bytes + 3) 1

/-- Behind `standard_opcode_lengths`. -/
def stdLensEnd : Nat := maxOpsEnd bytes + 4 + (opcodeBase bytes - 1)

/-- `unit_length` covers the rest of the bytes. -/
def Exact : Prop := versionOff bytes + unitLength bytes = bytes.length

instance : Decidable (Exact bytes) := inferInstanceAs (Decidable (_ = _))

theorem versionOff_pos : 4 ≤ versionOff bytes := by
  unfold versionOff
  split_ifs <;> omega

theorem minInstOff_lt : minInstOff bytes < maxOpsEnd bytes := by
  unfold maxOpsEnd
  split_ifs <;> omega

theorem maxOpsEnd_lt : maxOpsEnd bytes < stdLensEnd bytes := by
  unfold stdLensEnd
  omega

end Header

section Fields

variable {img : Image} {s : State} {base off : Nat} {flag : Bool} {bytes : List UInt8}

/-- The cursor is at `off` of the line section. -/
structure OnLine (img : Image) (off : Nat) (flag : Bool) (s : State) : Prop where
  cur : s.cur = ⟨img.line.ptr + off, img.line.ptr + img.line.len, flag⟩
  within : off ≤ img.line.len

theorem peek_line {n : Nat} (present : img.line.ptr ≠ 0) (fits : off + n ≤ img.line.len) :
    peek img (img.line.ptr + off) n = .ok ((img.lineBytes.drop off).take n) := by
  induction n generalizing off with
  | zero => simp [peek]
  | succ n inductionHypothesis =>
      have ends := (img.linePlaced present).1
      have below : off < img.lineBytes.length := by
        rw [Image.lineBytes_length]
        omega
      have next : img.ptrAdd (img.line.ptr + off) 1 = img.line.ptr + (off + 1) :=
        Nat.mod_eq_of_lt (by omega)
      rw [peek, Image.mem_line present (by omega), next, inductionHypothesis (by omega),
        List.drop_eq_getElem_cons below, List.take_succ_cons, List.getD_eq_getElem?_getD,
        List.getElem?_eq_getElem below, Option.getD_some]
      rfl

theorem OnLine.inside (on : OnLine img off flag s) (present : img.line.ptr ≠ 0) :
    Inside img s.cur := by
  have ends := (img.linePlaced present).1
  have within := on.within
  rw [on.cur]
  exact ⟨by simp only; omega, ends⟩

/-- A read of `n` bytes gives the field there, unless the section ends before. -/
theorem bwUint_field (n : Nat) (present : img.line.ptr ≠ 0) (on : OnLine img off flag s) :
    Outcome (fun value t => value = fieldAt img.lineBytes off n ∧ OnLine img (off + n) flag t)
      (fun why _ => why = .short ∧ img.line.len < off + n) (bwUint img n s) := by
  have inside := on.inside present
  rw [bwUint_run]
  by_cases room : bwCurOk img s.cur n = true
  · obtain ⟨moved, fits⟩ := ptrAdd_of_inside inside room
    rw [on.cur] at fits
    simp only at fits
    have peeked : peek img s.cur.p n = .ok ((img.lineBytes.drop off).take n) := by
      rw [on.cur]
      exact peek_line present (by omega)
    rw [if_pos room, peeked]
    refine ⟨rfl, ?_, by omega⟩
    rw [moved, on.cur, Nat.add_assoc]
  · rw [if_neg room]
    refine ⟨rfl, ?_⟩
    have within := on.within
    simp only [bwCurOk, ne_eq, Bool.and_eq_true, decide_eq_true_eq, curRoom_of_inside inside]
      at room
    rw [on.cur] at room
    simp only at room
    omega

/-- A read at a place of a unit that starts at `base`. -/
theorem bwUint_unit (place n : Nat) (present : img.line.ptr ≠ 0)
    (starts : bytes = img.lineBytes.drop base) (on : OnLine img (base + place) flag s) :
    Outcome (fun value t => value = fieldAt bytes place n ∧ OnLine img (base + (place + n)) flag t)
      (fun why _ => why = .short ∧ bytes.length < place + n) (bwUint img n s) := by
  refine (bwUint_field n present on).mono ?_ fun _ _ _ ⟨refused, short⟩ => ⟨refused, ?_⟩
  · rintro value t - ⟨rfl, onT⟩
    rw [starts, fieldAt, fieldAt, List.drop_drop, ← Nat.add_assoc]
    exact ⟨rfl, onT⟩
  · have within := on.within
    rw [starts, List.length_drop, Image.lineBytes_length]
    omega

/-- The same read, and what is done with the field. -/
theorem bwUint_unit_bind {α : Type} (place n : Nat) {f : Nat → Parser α} {good : α → State → Prop}
    {bad : Stop → State → Prop} (present : img.line.ptr ≠ 0)
    (starts : bytes = img.lineBytes.drop base) (on : OnLine img (base + place) flag s)
    (stops : bytes.length < place + n → ∀ t, bad .short t)
    (next : ∀ t, OnLine img (base + (place + n)) flag t →
      Outcome good bad (f (fieldAt bytes place n) t)) :
    Outcome good bad ((bwUint img n >>= f) s) := by
  refine (bwUint_unit place n present starts on).sequence ?_ ?_
  · rintro why t - ⟨rfl, short⟩
    exact stops short t
  · rintro value t - ⟨rfl, onT⟩
    exact next t onT

/-- A cursor in a unit has not passed the end of the section. -/
theorem OnLine.place_le {place : Nat} (starts : bytes = img.lineBytes.drop base)
    (on : OnLine img (base + place) flag s) : place ≤ bytes.length := by
  have within := on.within
  rw [starts, List.length_drop, Image.lineBytes_length]
  omega

/-- The unit end is computed with the narrowed length, and is in the section. -/
theorem bwUnitEnd_field {unitLen offsetSize : Nat} (present : img.line.ptr ≠ 0)
    (on : OnLine img off flag s) :
    Outcome (fun ends t => ends = (img.line.ptr + off + img.size unitLen, offsetSize) ∧
        2 ≤ unitLen ∧ ends.1 ≤ img.line.ptr + img.line.len ∧ t = s)
      (fun why _ => (why = .malformed ∧ unitLen < 2) ∨
        (why = .short ∧ img.line.len < off + unitLen))
      (bwUnitEnd img unitLen offsetSize s) := by
  have within := on.within
  have inside := on.inside present
  rw [bwUnitEnd, bind_of_ok (show getCur s = .ok s.cur s from rfl)]
  split_ifs with small room
  · exact Or.inl ⟨rfl, small⟩
  · obtain ⟨moved, fits⟩ := ptrAdd_of_inside inside room
    rw [on.cur] at moved fits
    rw [on.cur, moved]
    exact ⟨rfl, Nat.le_of_not_lt small, fits, rfl⟩
  · have narrow : img.size unitLen ≤ unitLen := Nat.mod_le _ _
    simp only [bwCurOk, ne_eq, Bool.and_eq_true, decide_eq_true_eq, curRoom_of_inside inside]
      at room
    rw [on.cur] at room
    simp only at room
    exact Or.inr ⟨rfl, by omega⟩

theorem bwUnitLength_field (present : img.line.ptr ≠ 0) (starts : bytes = img.lineBytes.drop base)
    (on : OnLine img base flag s) :
    Outcome (fun ends t =>
        ends = (img.line.ptr + base + Header.versionOff bytes + img.size (Header.unitLength bytes),
            Header.offsetSize bytes) ∧
          2 ≤ Header.unitLength bytes ∧ ends.1 ≤ img.line.ptr + img.line.len ∧
          OnLine img (base + Header.versionOff bytes) (Header.dwarf64 bytes) t)
      (fun why _ => (why = .malformed ∧ Header.unitLength bytes < 2) ∨
        (why = .short ∧ bytes.length < Header.versionOff bytes + Header.unitLength bytes))
      (bwUnitLength img s) := by
  have length : bytes.length = img.line.len - base := by
    rw [starts, List.length_drop, Image.lineBytes_length]
  have within := on.within
  have far := Header.versionOff_pos bytes
  unfold bwUnitLength
  refine bwUint_unit_bind 0 4 present starts on (fun _ _ => Or.inr ⟨rfl, by omega⟩) fun t onT => ?_
  by_cases wide : fieldAt bytes 0 4 = 0xffffffff
  · have is64 : Header.dwarf64 bytes = true := by
      simp [Header.dwarf64, wide]
    simp only [Header.unitLength, Header.offsetSize, Header.versionOff, is64, if_true]
    rw [if_pos wide]
    refine bwUint_unit_bind 4 8 present starts onT (fun _ _ => Or.inr ⟨rfl, by omega⟩)
      fun u onU => ?_
    have onFlag : OnLine img (base + 12) true { u with cur := { u.cur with dwarf64 := true } } :=
      ⟨by rw [onU.cur], onU.within⟩
    rw [bind_of_ok (show setDwarf64 true u = .ok () _ from rfl)]
    refine (bwUnitEnd_field present onFlag).mono ?_ fun _ _ _ =>
      Or.imp_right fun ⟨refused, short⟩ => ⟨refused, by omega⟩
    rintro ends v - ⟨rfl, size, fits, rfl⟩
    exact ⟨by rw [← Nat.add_assoc img.line.ptr base], size, fits, onFlag⟩
  · have is32 : Header.dwarf64 bytes = false := by
      simp [Header.dwarf64, wide]
    have onFlag : OnLine img (base + 4) false { t with cur := { t.cur with dwarf64 := false } } :=
      ⟨by rw [onT.cur], onT.within⟩
    rw [if_neg wide, bind_of_ok (show setDwarf64 false t = .ok () _ from rfl)]
    simp only [Header.unitLength, Header.offsetSize, Header.versionOff, is32, if_false,
      Bool.false_eq_true]
    refine (bwUnitEnd_field present onFlag).mono ?_ fun _ _ _ =>
      Or.imp_right fun ⟨refused, short⟩ => ⟨refused, by omega⟩
    rintro ends v - ⟨rfl, size, fits, rfl⟩
    exact ⟨by rw [← Nat.add_assoc img.line.ptr base], size, fits, onFlag⟩

theorem bwAddrSeg_field (present : img.line.ptr ≠ 0) (starts : bytes = img.lineBytes.drop base)
    (on : OnLine img (base + (Header.versionOff bytes + 2)) flag s) :
    Outcome (fun sizes t => sizes.2 = Header.segSize bytes ∧
        OnLine img (base + Header.headerLengthOff bytes) flag t)
      (fun why _ => why = .short ∧ bytes.length < Header.headerLengthOff bytes)
      (bwAddrSeg img (Header.version bytes) s) := by
  unfold bwAddrSeg
  by_cases five : Header.version bytes = 5
  · simp only [Header.segSize, Header.headerLengthOff, if_pos five]
    refine bwUint_unit_bind _ 1 present starts on (fun _ _ => ⟨rfl, by omega⟩) fun t onT => ?_
    refine bwUint_unit_bind _ 1 present starts onT (fun _ _ => ⟨rfl, by omega⟩) fun u onU => ?_
    exact ⟨rfl, onU⟩
  · simp only [Header.segSize, Header.headerLengthOff, if_neg five]
    exact ⟨rfl, on⟩

theorem bwHeaderLength_field (present : img.line.ptr ≠ 0) (starts : bytes = img.lineBytes.drop base)
    (on : OnLine img (base + Header.headerLengthOff bytes) (Header.dwarf64 bytes) s) :
    Outcome (fun value t => value = Header.headerLength bytes ∧
        OnLine img (base + Header.minInstOff bytes) (Header.dwarf64 bytes) t)
      (fun why _ => why = .short ∧ bytes.length < Header.minInstOff bytes)
      (bwHeaderLength img s) := by
  rw [bwHeaderLength, bind_of_ok (show getCur s = .ok s.cur s from rfl), on.cur]
  simp only [Header.headerLength, Header.minInstOff, Header.offsetSize]
  split_ifs with wide
  · exact bwUint_unit _ 8 present starts on
  · exact bwUint_unit _ 4 present starts on

theorem bwMaxOps_field (present : img.line.ptr ≠ 0) (starts : bytes = img.lineBytes.drop base)
    (on : OnLine img (base + (Header.minInstOff bytes + 1)) flag s) :
    Outcome (fun value t => value = Header.maxOps bytes ∧
        OnLine img (base + Header.maxOpsEnd bytes) flag t)
      (fun why _ => why = .short ∧ bytes.length < Header.maxOpsEnd bytes)
      (bwMaxOps img (Header.version bytes) s) := by
  unfold bwMaxOps Header.maxOps Header.maxOpsEnd
  split_ifs
  · exact bwUint_unit _ 1 present starts on
  · exact ⟨rfl, on⟩

/-- The unit end and the program start that a prologue leaves, as they are
computed. -/
structure Computed (img : Image) (base : Nat) (bytes : List UInt8) (prologue : Prologue) :
    Prop where
  unitEnd : prologue.unitEnd =
    img.line.ptr + base + Header.versionOff bytes + img.size (Header.unitLength bytes)
  within : prologue.unitEnd ≤ img.line.ptr + img.line.len
  prog : prologue.prog = img.ptrAdd (img.line.ptr + base + Header.minInstOff bytes)
    (img.size (Header.headerLength bytes))
  beforeEnd : prologue.prog ≤ prologue.unitEnd

theorem bwHeaderRest_go {unitEnd prog offsetSize version addrSize : Nat} {prologue : Prologue}
    {t : State}
    (ended : bwHeaderRest img unitEnd prog offsetSize version addrSize s = .ok (.go prologue) t) :
    prologue.unitEnd = unitEnd ∧ prologue.prog = prog := by
  rcases bwHeaderRest_eq_ok ended with isSkip | ⟨prologue', isGo, places⟩
  · cases isSkip
  · cases isGo
    exact places

theorem bwPrologue_computed {prologue : Prologue} {t : State} (present : img.line.ptr ≠ 0)
    (starts : bytes = img.lineBytes.drop base) (on : OnLine img base flag s)
    (ended : bwPrologue img s = .ok (.go prologue) t) : Computed img base bytes prologue := by
  obtain ⟨ends, s₁, length, rest⟩ := bind_eq_ok.mp ended
  obtain ⟨rfl, -, within, on₁⟩ := (bwUnitLength_field present starts on).ok length
  obtain ⟨version, s₂, read, rest⟩ := bind_eq_ok.mp rest
  obtain ⟨rfl, on₂⟩ := (bwUint_unit _ 2 present starts on₁).ok read
  obtain ⟨⟨addrSize, segSize⟩, s₃, read, rest⟩ := bind_eq_ok.mp rest
  obtain ⟨-, on₃⟩ := (bwAddrSeg_field present starts on₂).ok read
  dsimp only at rest within
  by_cases segmented : segSize ≠ 0
  · rw [if_pos segmented] at rest
    cases rest
  rw [if_neg segmented] at rest
  obtain ⟨headerLen, s₄, read, rest⟩ := bind_eq_ok.mp rest
  obtain ⟨rfl, on₄⟩ := (bwHeaderLength_field present starts on₃).ok read
  rw [bind_of_ok (show getCur s₄ = .ok s₄.cur s₄ from rfl), on₄.cur] at rest
  dsimp only at rest
  split_ifs at rest with beyond
  · cases rest
  obtain ⟨sameEnd, sameProg⟩ := bwHeaderRest_go rest
  rw [← Nat.add_assoc] at sameProg beyond
  refine ⟨sameEnd, sameEnd ▸ within, sameProg, ?_⟩
  rw [sameEnd, sameProg]
  exact Nat.le_of_not_lt beyond

end Fields

/-! ### Extents -/

/-- What `bw_parse_unit` has when it enters its opcode loop. -/
structure Program where
  prologue : Prologue
  files : Files
  start : State

/-- How `bw_parse_unit` enters its opcode loop, if it does. -/
def programOf (img : Image) (s : State) : Option Program :=
  match bwPrologue img s with
  | .ok (.go prologue) s₁ =>
      match bwTables img prologue s₁ with
      | .ok files s₂ =>
          some ⟨prologue, files, { s₂ with cur := { s₂.cur with p := prologue.prog } }⟩
      | .error _ _ => none
  | _ => none

theorem programOf_eq_some {img : Image} {s : State} {program : Program} :
    programOf img s = some program ↔
      ∃ s₁ s₂, bwPrologue img s = .ok (.go program.prologue) s₁ ∧
        bwTables img program.prologue s₁ = .ok program.files s₂ ∧
        program.start = { s₂ with cur := { s₂.cur with p := program.prologue.prog } } := by
  constructor
  · intro found
    unfold programOf at found
    cases opened : bwPrologue img s with
    | error why s₁ => rw [opened] at found; cases found
    | ok opening s₁ =>
        rw [opened] at found
        cases opening with
        | skip unitEnd headerEnd prog => cases found
        | go prologue =>
            dsimp only at found
            cases read : bwTables img prologue s₁ with
            | error why s₂ => rw [read] at found; cases found
            | ok files s₂ =>
                rw [read] at found
                cases found
                exact ⟨s₁, s₂, rfl, read, rfl⟩
  · rintro ⟨s₁, s₂, opened, read, start⟩
    unfold programOf
    rw [opened]
    dsimp only
    rw [read]
    exact congrArg (fun entry => some (Program.mk program.prologue program.files entry)) start.symm

/-- The extents of a unit at `base` are the sums that its header states, and lie
where they should. -/
structure ExactExtents (img : Image) (base : Nat) (bytes : List UInt8) (prologue : Prologue) :
    Prop where
  unitEnd : prologue.unitEnd =
    img.line.ptr + base + Header.versionOff bytes + Header.unitLength bytes
  within : prologue.unitEnd ≤ img.line.ptr + img.line.len
  prog : prologue.prog =
    img.line.ptr + base + Header.minInstOff bytes + Header.headerLength bytes
  beforeEnd : prologue.prog ≤ prologue.unitEnd
  afterHeader : img.line.ptr + base + Header.minInstOff bytes ≤ prologue.prog

/-- Whenever the opcode loop of a unit is reached, its extents are exact iff its
length fits a `size_t` and its program start does not wrap around. -/
theorem bwParseUnit_extents_iff (img : Image) (base : Nat) (s : State) (program : Program)
    (present : img.line.ptr ≠ 0) (within : base ≤ img.line.len)
    (at_ : s.cur.p = img.line.ptr + base) (ends : s.cur.endp = img.line.ptr + img.line.len)
    (reaches : programOf img s = some program) :
    ExactExtents img base (img.lineBytes.drop base) program.prologue ↔
      Header.unitLength (img.lineBytes.drop base) < 2 ^ img.bits ∧
        img.line.ptr + base + Header.minInstOff (img.lineBytes.drop base) +
          Header.headerLength (img.lineBytes.drop base) < 2 ^ img.bits := by
  obtain ⟨s₁, s₂, opened, -, -⟩ := programOf_eq_some.mp reaches
  have on : OnLine img base s.cur.dwarf64 s := ⟨by rw [← at_, ← ends], within⟩
  have computed := bwPrologue_computed present rfl on opened
  have positive : 0 < 2 ^ img.bits := Nat.two_pow_pos _
  constructor
  · intro exact
    have unitEnd := exact.unitEnd
    rw [computed.unitEnd] at unitEnd
    have whole := Nat.add_left_cancel unitEnd
    have prog := exact.prog
    rw [computed.prog] at prog
    constructor
    · rw [← whole]
      exact Nat.mod_lt _ positive
    · rw [← prog]
      exact Nat.mod_lt _ positive
  · rintro ⟨unitFits, progFits⟩
    have unitEnd := computed.unitEnd
    rw [Image.size, Nat.mod_eq_of_lt unitFits] at unitEnd
    have prog := computed.prog
    rw [Image.size, Nat.mod_eq_of_lt (by omega), Image.ptrAdd, Nat.mod_eq_of_lt progFits] at prog
    exact ⟨unitEnd, computed.within, prog, computed.beforeEnd, by omega⟩

theorem unitV5_exact_extents : ∃ program,
    programOf (lineImage unitV5) (startState (lineImage unitV5) Tab.zeroed) = some program ∧
      ExactExtents (lineImage unitV5) 0 ((lineImage unitV5).lineBytes.drop 0) program.prologue := by
  have entered : (programOf (lineImage unitV5)
      (startState (lineImage unitV5) Tab.zeroed)).isSome = true := by
    decide +kernel
  obtain ⟨program, reaches⟩ := Option.isSome_iff_exists.mp entered
  refine ⟨program, reaches, ?_⟩
  refine (bwParseUnit_extents_iff (lineImage unitV5) 0 _ program (by decide) (Nat.zero_le _) rfl rfl
    reaches).mpr ?_
  rw [lineImage_lineBytes (by decide)]
  exact ⟨by decide +kernel, by decide +kernel⟩

/-- `unitV5` with a `header_length` of -8. -/
def wrappedUnit : List UInt8 :=
  [0xff, 0xff, 0xff, 0xff, 54, 0, 0, 0, 0, 0, 0, 0, 5, 0, 8, 0,
    0xf8, 0xff, 0xff, 0xff, 0xff, 0xff, 0xff, 0xff,
    1, 1, 1, 0, 4, 4, 0, 1, 1, 1, 1, 8, 1, 0x64, 0, 2, 1, 8, 2, 0xb, 2, 0x78, 0, 0, 0x79, 0, 0,
    0, 9, 2, 0, 0x20, 0x40, 0, 0, 0, 0, 0, 1, 0, 1, 1]

/-- The program of `wrappedUnit` is run from inside its header. -/
theorem wrappedUnit_runs_its_header : ∃ program,
    programOf (lineImage wrappedUnit) (startState (lineImage wrappedUnit) Tab.zeroed) =
        some program ∧
      ¬ ExactExtents (lineImage wrappedUnit) 0 ((lineImage wrappedUnit).lineBytes.drop 0)
        program.prologue := by
  have entered : (programOf (lineImage wrappedUnit)
      (startState (lineImage wrappedUnit) Tab.zeroed)).map (·.prologue.prog) =
        some (0x10000 + 16) := by
    decide +kernel
  obtain ⟨program, reaches, start⟩ := Option.map_eq_some_iff.mp entered
  refine ⟨program, reaches, fun exact => ?_⟩
  have prog := exact.prog
  rw [start, lineImage_lineBytes (by decide)] at prog
  revert prog
  decide +kernel

end Backwalk.DwarfLine
