import Backwalk.DwarfLine.Rejection

/-!
Contract: what a unit that the parser cannot handle does to the rest of its
section.

Owns the rule that decides whether the units after it are still read. A unit that
is turned away for its segment selector size, its minimum instruction length or
its maximum number of operations is stepped over. Any other unit that is rejected
ends the section; and a version that the parser does not know is not looked at.
-/

namespace Backwalk.DwarfLine

open Backwalk.Support

/-! ### The header of a unit in a section -/

section Prefix

variable {unit rest : List UInt8}

theorem fieldAt_append {off n : Nat} (fits : off + n ≤ unit.length) :
    fieldAt (unit ++ rest) off n = fieldAt unit off n := by
  have room : n ≤ (unit.drop off).length := by
    rw [List.length_drop]
    omega
  rw [fieldAt, fieldAt, List.drop_append_of_le_length (by omega),
    List.take_append_of_le_length room]

/-- What follows a unit does not change where it ends. -/
theorem Header.Exact.append (exact : Header.Exact unit) :
    Header.versionOff (unit ++ rest) + Header.unitLength (unit ++ rest) = unit.length := by
  have far := Header.versionOff_pos unit
  rw [Header.Exact] at exact
  have first : fieldAt (unit ++ rest) 0 4 = fieldAt unit 0 4 := fieldAt_append (by omega)
  have sameFormat : Header.dwarf64 (unit ++ rest) = Header.dwarf64 unit := by
    rw [Header.dwarf64, Header.dwarf64, first]
  by_cases wide : Header.dwarf64 unit = true
  · have wideToo : Header.dwarf64 (unit ++ rest) = true := sameFormat.trans wide
    simp only [Header.versionOff, Header.unitLength, wide, wideToo, if_true] at exact ⊢
    rw [fieldAt_append (by omega)]
    exact exact
  · have shortToo : ¬ Header.dwarf64 (unit ++ rest) = true := sameFormat ▸ wide
    simp only [Header.versionOff, Header.unitLength, wide, shortToo] at exact ⊢
    rw [first]
    exact exact

end Prefix

/-! ### Units that are not handled -/

/-- A section of well-formed units around one that need not be, in a table with
room for all of it. -/
structure Surrounded (before : List Image) (unit : List UInt8) (after : List Image)
    (whole : Image) (tab : Tab) : Prop where
  present : whole.line.ptr ≠ 0
  bytes : whole.lineBytes = unitBytes before ++ (unit ++ unitBytes after)
  exact : Header.Exact unit
  wellFormed : ∀ other ∈ before ++ after, WellFormed other tab ∧ Kin other whole
  rowsFit : (soloRows before tab).length +
      ((headState whole tab (before.length + 1)).tab.nrow -
        (headState whole tab before.length).tab.nrow) +
    (soloRows after tab).length ≤ bwDwarfRowMax
  strsFit : soloStrs before tab +
      ((headState whole tab (before.length + 1)).tab.nstr -
        (headState whole tab before.length).tab.nstr) +
    soloStrs after tab ≤ bwDwarfStrMax

namespace Surrounded

variable {before after : List Image} {unit : List UInt8} {whole : Image} {tab : Tab}

theorem drop (around : Surrounded before unit after whole tab) :
    whole.lineBytes.drop (unitBytes before).length = unit ++ unitBytes after := by
  rw [around.bytes, List.drop_left]

theorem bounded (around : Surrounded before unit after whole tab) :
    Bounded whole (unitBytes before).length unit.length where
  present := around.present
  covers := by
    rw [around.drop]
    exact around.exact.append
  fits := by
    rw [around.drop, List.length_append]
    exact Nat.le_add_right _ _

theorem nonempty (around : Surrounded before unit after whole tab) : 0 < unit.length := by
  have exact := around.exact
  have far := Header.versionOff_pos unit
  rw [Header.Exact] at exact
  omega

theorem len (around : Surrounded before unit after whole tab) :
    whole.line.len = (unitBytes before).length + (unit.length + (unitBytes after).length) := by
  rw [← Image.lineBytes_length whole, around.bytes, List.length_append, List.length_append]

/-- The loop comes to the unit with the rows of those before it. -/
theorem reaches (around : Surrounded before unit after whole (bwDwarfTabReset tab)) :
    ∃ fuel, bwParseUnits whole (bwDwarfTabReset tab) =
        bwUnits whole (fuel + 1) (headState whole (bwDwarfTabReset tab) before.length) ∧
      At whole (unitBytes before).length
        (headState whole (bwDwarfTabReset tab) before.length) ∧
      Adds (startState whole (bwDwarfTabReset tab))
        (headState whole (bwDwarfTabReset tab) before.length)
        (soloRows before (bwDwarfTabReset tab)) (soloStrs before (bwDwarfTabReset tab)) ∧
      whole.line.len ≤ (unitBytes before).length + fuel := by
  have rowsFit := around.rowsFit
  have strsFit := around.strsFit
  have bytes : unitBytes before <+: whole.lineBytes.drop 0 := by
    rw [around.bytes]
    exact List.prefix_append _ _
  obtain ⟨fuel, t, loops, rfl, there, adds, enough⟩ := bwUnits_wellFormed around.present
    (fun other member => around.wellFormed other (List.mem_append_left _ member)) bytes
    (at_startState tabOk_reset) (room_startState (by omega) (by omega))
    (show whole.line.len < 0 + (whole.line.len + 1) by omega)
  rw [Nat.zero_add] at there enough
  have len := around.len
  have some := around.nonempty
  obtain ⟨fuel, rfl⟩ : ∃ n, fuel = n + 1 := ⟨fuel - 1, by omega⟩
  exact ⟨fuel, loops, there, adds, by omega⟩

theorem more (around : Surrounded before unit after whole (bwDwarfTabReset tab)) :
    (headState whole (bwDwarfTabReset tab) before.length).cur.p <
      (headState whole (bwDwarfTabReset tab) before.length).cur.endp := by
  obtain ⟨fuel, -, there, -⟩ := around.reaches
  have len := around.len
  have some := around.nonempty
  rw [there.p, there.endp]
  omega

end Surrounded

end Backwalk.DwarfLine
