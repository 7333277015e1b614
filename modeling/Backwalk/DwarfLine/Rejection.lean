import Backwalk.DwarfLine.Emission
import Backwalk.DwarfLine.TableVisits

/-!
Contract: which units `bw_parse_unit` turns away or rejects before it comes to
their program.

Owns the conditions on the header fields. With the visits of the tables, a
rejection is a fact about one field of the header or about one step of the
tables, in the state before it.
-/

namespace Backwalk.DwarfLine

open Backwalk.Support

/-! ### Headers -/

section Headers

variable (img : Image) (offset len : Nat)

/-- `header_length` leads to a place that is not behind the end of the unit of
`len` bytes at `offset`. -/
def HeaderFits : Prop :=
  img.ptrAdd (img.line.ptr + offset + Header.minInstOff (img.lineBytes.drop offset))
    (img.size (Header.headerLength (img.lineBytes.drop offset))) ≤ img.line.ptr + offset + len

instance : Decidable (HeaderFits img offset len) := inferInstanceAs (Decidable (_ ≤ _))

/-- The header of the unit of `len` bytes at `offset` makes the parser step over
it. Each field that this rests on is in the section: in a unit that is too short
for its header, the fields are bytes of what follows. -/
def TurnedAway : Prop :=
  2 ≤ Header.unitLength (img.lineBytes.drop offset) ∧
    ((Header.headerLengthOff (img.lineBytes.drop offset) ≤ (img.lineBytes.drop offset).length ∧
        Header.segSize (img.lineBytes.drop offset) ≠ 0) ∨
      (Header.maxOpsEnd (img.lineBytes.drop offset) ≤ (img.lineBytes.drop offset).length ∧
        HeaderFits img offset len ∧
        (Header.minInst (img.lineBytes.drop offset) = 0 ∨
          Header.maxOps (img.lineBytes.drop offset) = 0)))

instance : Decidable (TurnedAway img offset len) := inferInstanceAs (Decidable (_ ∧ _))

/-- The header of the unit of `len` bytes at `offset` leads to its tables: it is
in the section, and no field of it is one that the parser does not handle. -/
structure HeaderTaken : Prop where
  size : 2 ≤ Header.unitLength (img.lineBytes.drop offset)
  there : Header.stdLensEnd (img.lineBytes.drop offset) ≤ (img.lineBytes.drop offset).length
  segSize : Header.segSize (img.lineBytes.drop offset) = 0
  fits : HeaderFits img offset len
  minInst : Header.minInst (img.lineBytes.drop offset) ≠ 0
  maxOps : Header.maxOps (img.lineBytes.drop offset) ≠ 0
  lineRange : Header.lineRange (img.lineBytes.drop offset) ≠ 0
  opcodeBase : Header.opcodeBase (img.lineBytes.drop offset) ≠ 0

/-- The unit of `len` bytes at `offset` has an in-bounds `unit_length` that
covers the rest of it. -/
structure Bounded : Prop where
  present : img.line.ptr ≠ 0
  covers : Header.versionOff (img.lineBytes.drop offset) +
    Header.unitLength (img.lineBytes.drop offset) = len
  fits : len ≤ (img.lineBytes.drop offset).length

end Headers

section Fields

variable {img : Image} {s : State} {offset len place : Nat} {flag : Bool} {bytes : List UInt8}

theorem fieldAt_byte_lt (bytes : List UInt8) (off : Nat) : fieldAt bytes off 1 < 256 := by
  have small := leNat_lt ((bytes.drop off).take 1)
  refine small.trans_le ?_
  calc 256 ^ ((bytes.drop off).take 1).length
      ≤ 256 ^ 1 := Nat.pow_le_pow_right (by decide) (List.length_take_le _ _)
    _ = 256 := rfl

theorem bwStdLens_field {n op : Nat} {stdLen : CArray Nat} (present : img.line.ptr ≠ 0)
    (starts : bytes = img.lineBytes.drop offset) (on : OnLine img (offset + place) flag s)
    (size : op + n ≤ stdLen.size) :
    Outcome (fun _ t => OnLine img (offset + (place + n)) flag t)
      (fun why _ => why = .short ∧ bytes.length < place + n) (bwStdLens img n op stdLen s) := by
  induction n generalizing op place stdLen s with
  | zero => exact on
  | succ n inductionHypothesis =>
      unfold bwStdLens
      refine bwUint_unit_bind place 1 present starts on (fun _ _ => ⟨rfl, by omega⟩) fun t onT => ?_
      rw [bind_of_ok (write_of_lt (show op < stdLen.size by omega) _ t)]
      refine (inductionHypothesis onT ?_).mono (fun _ _ _ after => ?_) fun _ _ _ short => ?_
      · show op + 1 + n ≤ stdLen.size
        omega
      · rwa [Nat.add_assoc place 1 n, Nat.add_comm 1 n] at after
      · exact ⟨short.1, by omega⟩

theorem bwOpcodeHeader_field {unitEnd prog offsetSize version addrSize minInst maxOps : Nat}
    (present : img.line.ptr ≠ 0) (starts : bytes = img.lineBytes.drop offset)
    (on : OnLine img (offset + Header.maxOpsEnd bytes) flag s) :
    Outcome (fun _ _ => Header.lineRange bytes ≠ 0 ∧ Header.opcodeBase bytes ≠ 0 ∧
        Header.stdLensEnd bytes ≤ bytes.length)
      (fun why _ => Refusal why ∧ (Header.lineRange bytes ≠ 0 → Header.opcodeBase bytes ≠ 0 →
        bytes.length < Header.stdLensEnd bytes))
      (bwOpcodeHeader img unitEnd prog offsetSize version addrSize minInst maxOps s) := by
  have small := fieldAt_byte_lt bytes (Header.maxOpsEnd bytes + 3)
  unfold bwOpcodeHeader Header.stdLensEnd
  refine bwUint_unit_bind _ 1 present starts on
    (fun _ _ => ⟨Or.inl rfl, fun _ _ => by omega⟩) fun s₁ on₁ => ?_
  refine bwUint_unit_bind _ 1 present starts on₁
    (fun _ _ => ⟨Or.inl rfl, fun _ _ => by omega⟩) fun s₂ on₂ => ?_
  refine bwUint_unit_bind _ 1 present starts on₂
    (fun _ _ => ⟨Or.inl rfl, fun _ _ => by omega⟩) fun s₃ on₃ => ?_
  by_cases noRange : fieldAt bytes (Header.maxOpsEnd bytes + 1 + 1) 1 = 0
  · rw [if_pos noRange]
    exact ⟨Or.inr rfl, fun range => absurd noRange range⟩
  rw [if_neg noRange]
  refine bwUint_unit_bind _ 1 present starts on₃
    (fun _ _ => ⟨Or.inl rfl, fun _ _ => by omega⟩) fun s₄ on₄ => ?_
  by_cases noBase : fieldAt bytes (Header.maxOpsEnd bytes + 1 + 1 + 1) 1 = 0
  · rw [if_pos noBase]
    exact ⟨Or.inr rfl, fun _ base => absurd noBase base⟩
  rw [if_neg noBase]
  have counts : 1 + (fieldAt bytes (Header.maxOpsEnd bytes + 1 + 1 + 1) 1 - 1) ≤ stdLenInit.size :=
    show 1 + (fieldAt bytes (Header.maxOpsEnd bytes + 3) 1 - 1) ≤ 256 by omega
  refine (bwStdLens_field present starts on₄ counts).sequence ?_ ?_
  · rintro why t - ⟨refused, short⟩
    exact ⟨Or.inl refused, fun _ _ => short⟩
  · intro stdLen s₅ _ on₅
    exact ⟨noRange, noBase, on₅.place_le starts⟩

theorem headerTaken_iff : HeaderTaken img offset len ↔
    2 ≤ Header.unitLength (img.lineBytes.drop offset) ∧
      Header.stdLensEnd (img.lineBytes.drop offset) ≤ (img.lineBytes.drop offset).length ∧
      Header.segSize (img.lineBytes.drop offset) = 0 ∧ HeaderFits img offset len ∧
      Header.minInst (img.lineBytes.drop offset) ≠ 0 ∧
      Header.maxOps (img.lineBytes.drop offset) ≠ 0 ∧
      Header.lineRange (img.lineBytes.drop offset) ≠ 0 ∧
      Header.opcodeBase (img.lineBytes.drop offset) ≠ 0 :=
  ⟨fun ⟨size, there, segSize, fits, minInst, maxOps, lineRange, opcodeBase⟩ =>
      ⟨size, there, segSize, fits, minInst, maxOps, lineRange, opcodeBase⟩,
    fun ⟨size, there, segSize, fits, minInst, maxOps, lineRange, opcodeBase⟩ =>
      ⟨size, there, segSize, fits, minInst, maxOps, lineRange, opcodeBase⟩⟩

instance : Decidable (HeaderTaken img offset len) := decidable_of_iff _ headerTaken_iff.symm

/-- The header from `min_inst` on. -/
theorem bwHeaderRest_field {unitEnd prog offsetSize addrSize : Nat} (present : img.line.ptr ≠ 0)
    (starts : bytes = img.lineBytes.drop offset)
    (on : OnLine img (offset + Header.minInstOff bytes) flag s) :
    Outcome (fun opening _ => Header.maxOpsEnd bytes ≤ bytes.length ∧ opening.unitEnd = unitEnd ∧
        match opening with
        | .skip _ _ _ => Header.minInst bytes = 0 ∨ Header.maxOps bytes = 0
        | .go _ => Header.minInst bytes ≠ 0 ∧ Header.maxOps bytes ≠ 0 ∧
            Header.lineRange bytes ≠ 0 ∧ Header.opcodeBase bytes ≠ 0 ∧
            Header.stdLensEnd bytes ≤ bytes.length)
      (fun why _ => Refusal why ∧ (Header.maxOpsEnd bytes ≤ bytes.length →
        Header.minInst bytes ≠ 0 ∧ Header.maxOps bytes ≠ 0 ∧
          (Header.lineRange bytes ≠ 0 → Header.opcodeBase bytes ≠ 0 →
            bytes.length < Header.stdLensEnd bytes)))
      (bwHeaderRest img unitEnd prog offsetSize (Header.version bytes) addrSize s) := by
  have minEnd := Header.minInstOff_lt bytes
  unfold bwHeaderRest
  refine bwUint_unit_bind _ 1 present starts on
    (fun _ _ => ⟨Or.inl rfl, fun _ => by omega⟩) fun s₁ on₁ => ?_
  refine (bwMaxOps_field present starts on₁).sequence ?_ ?_
  · rintro why t - ⟨refused, short⟩
    exact ⟨Or.inl refused, fun _ => by omega⟩
  rintro maxOps s₂ - ⟨rfl, on₂⟩
  have opsThere := on₂.place_le starts
  by_cases zero : fieldAt bytes (Header.minInstOff bytes) 1 = 0 ∨ Header.maxOps bytes = 0
  · rw [if_pos zero]
    exact ⟨opsThere, rfl, zero⟩
  rw [if_neg zero]
  obtain ⟨minInst, maxOps⟩ := not_or.mp zero
  refine (bwOpcodeHeader_field present starts on₂).sequence ?_ ?_
  · rintro why t - ⟨refusal, fields⟩
    exact ⟨refusal, fun _ => ⟨minInst, maxOps, fields⟩⟩
  · rintro prologue t ended ⟨lineRange, opcodeBase, there⟩
    exact ⟨opsThere, (bwOpcodeHeader_places ended).1, minInst, maxOps, lineRange, opcodeBase, there⟩

/-- What becomes of a header is a matter of its fields. -/
theorem bwPrologue_field (bounded : Bounded img offset len) (on : OnLine img offset flag s) :
    Outcome (fun opening _ => opening.unitEnd = img.line.ptr + offset + len ∧
        match opening with
        | .skip _ _ _ => TurnedAway img offset len
        | .go _ => HeaderTaken img offset len)
      (fun why _ => Refusal why ∧ ¬ TurnedAway img offset len ∧ ¬ HeaderTaken img offset len)
      (bwPrologue img s) := by
  obtain ⟨present, covers, fits⟩ := bounded
  unfold TurnedAway
  rw [headerTaken_iff]
  unfold HeaderFits
  obtain ⟨bytes, starts⟩ : ∃ bytes, bytes = img.lineBytes.drop offset := ⟨_, rfl⟩
  rw [← starts] at covers fits ⊢
  have whole :
      img.line.ptr + offset + Header.versionOff bytes + img.size (Header.unitLength bytes) =
        img.line.ptr + offset + len := by
    have ends := (img.linePlaced present).1
    have within := on.within
    rw [starts, List.length_drop, Image.lineBytes_length] at fits
    rw [Image.size, Nat.mod_eq_of_lt (by omega)]
    omega
  have segEnd : Header.headerLengthOff bytes ≤ Header.minInstOff bytes := Nat.le_add_right _ _
  have minEnd := Header.minInstOff_lt bytes
  have stdEnd := Header.maxOpsEnd_lt bytes
  unfold bwPrologue
  refine (bwUnitLength_field present starts on).sequence ?_ ?_
  · rintro why t - (⟨rfl, small⟩ | ⟨rfl, short⟩)
    · exact ⟨Or.inr rfl, by omega, by omega⟩
    · exact absurd short (by omega)
  rintro lengths s₁ - ⟨rfl, size, -, on₁⟩
  dsimp only
  rw [whole]
  refine bwUint_unit_bind _ 2 present starts on₁ (fun short _ => absurd short (by omega))
    fun s₂ on₂ => ?_
  refine (bwAddrSeg_field present starts on₂).sequence ?_ ?_
  · rintro why t - ⟨refused, short⟩
    exact ⟨Or.inl refused, by omega, by omega⟩
  rintro ⟨addrSize, segSize⟩ s₃ read ⟨seg, on₃⟩
  have segThere := on₃.place_le starts
  dsimp only at seg ⊢
  subst seg
  by_cases segmented : Header.segSize bytes ≠ 0
  · rw [if_pos segmented]
    exact ⟨rfl, size, Or.inl ⟨segThere, segmented⟩⟩
  rw [if_neg segmented]
  refine (bwHeaderLength_field present starts on₃).sequence ?_ ?_
  · rintro why t - ⟨refused, short⟩
    exact ⟨Or.inl refused, by omega, by omega⟩
  rintro headerLen s₄ - ⟨rfl, on₄⟩
  rw [bind_of_ok (show getCur s₄ = .ok s₄.cur s₄ from rfl), on₄.cur, ← Nat.add_assoc]
  dsimp only
  by_cases beyond : img.line.ptr + offset + len < img.ptrAdd
      (img.line.ptr + offset + Header.minInstOff bytes) (img.size (Header.headerLength bytes))
  · rw [if_pos beyond]
    exact ⟨Or.inr rfl, by omega, by omega⟩
  rw [if_neg beyond]
  refine (bwHeaderRest_field present starts on₄).mono ?_ ?_
  · rintro opening s₅ - ⟨opsThere, unitEnd, fields⟩
    refine ⟨unitEnd, ?_⟩
    cases opening with
    | skip unitEnd headerEnd prog =>
        exact ⟨size, Or.inr ⟨opsThere, Nat.le_of_not_lt beyond, fields⟩⟩
    | go prologue =>
        obtain ⟨minInst, maxOps, lineRange, opcodeBase, there⟩ := fields
        exact ⟨size, there, not_not.mp segmented, Nat.le_of_not_lt beyond, minInst, maxOps,
          lineRange, opcodeBase⟩
  · rintro why s₅ - ⟨refusal, fields⟩
    exact ⟨refusal, by omega, by omega⟩

end Fields

/-! ### Units -/

section Units

variable {img : Image} {s : State} {program : Program} {offset len : Nat} {flag : Bool}

theorem TurnedAway.not_taken (away : TurnedAway img offset len) : ¬ HeaderTaken img offset len := by
  intro taken
  rcases away.2 with ⟨-, segmented⟩ | ⟨-, -, zero | zero⟩
  · exact segmented taken.segSize
  · exact taken.minInst zero
  · exact taken.maxOps zero

theorem TurnedAway.programOf (away : TurnedAway img offset len) (bounded : Bounded img offset len)
    (on : OnLine img offset flag s) : DwarfLine.programOf img s = none := by
  have field := bwPrologue_field bounded on
  unfold DwarfLine.programOf
  cases opened : bwPrologue img s with
  | error why t => rfl
  | ok opening t =>
      cases opening with
      | skip unitEnd headerEnd prog => rfl
      | go prologue => exact absurd (field.ok opened).2 away.not_taken

end Units

end Backwalk.DwarfLine
