import Backwalk.DwarfLine.Calls
import Backwalk.DwarfLine.Lookup
import Backwalk.DwarfLine.Program

/-!
Contract: a parse makes progress and ends.

Owns the states at which the unit loop of a parse begins a unit. From each of
them a unit that is accepted ends further on in the section, and each opcode of
its program that does not leave the loop ends further on than it began, whatever
the cursor was set to in between. The measure of both loops is what lies ahead
of the cursor; with it no loop of the parser runs out of turns.
-/

namespace Backwalk.DwarfLine

open Backwalk.Support

/-- The unit loop of a parse into `tab` comes to its head in the state. -/
inductive UnitHead (img : Image) (tab : Tab) : State → Prop where
  | start : img.line.ptr ≠ 0 → img.line.len ≠ 0 → UnitHead img tab (startState img tab)
  | next {s t : State} {exit : UnitExit} : UnitHead img tab s → s.cur.p < s.cur.endp →
      bwParseUnit img s = .ok exit t → UnitHead img tab t

section Progress

variable {img : Image} {tab : Tab} {s t : State}

theorem UnitHead.safe (ok : TabOk tab) (head : UnitHead img tab s) :
    StateOk s ∧ Inside img s.cur ∧ s.cur.endp = img.line.ptr + img.line.len := by
  induction head with
  | start present _ => exact ⟨stateOk_startState ok, inside_startState img tab present, rfl⟩
  | next _ _ parsed inductionHypothesis =>
      obtain ⟨okS, inside, sameEnd⟩ := inductionHypothesis
      obtain ⟨okT, -, insideT⟩ := (bwParseUnit_safe okS inside).ok parsed
      have grown : Grown img _ _ := Develops.ok parsed
      exact ⟨okT, insideT, grown.endp.trans sameEnd⟩

/-- A unit that is accepted ends beyond its start, in the section. -/
theorem UnitHead.unit_advances (ok : TabOk tab) (head : UnitHead img tab s) {exit : UnitExit}
    (parsed : bwParseUnit img s = .ok exit t) :
    s.cur.p < t.cur.p ∧ t.cur.p ≤ img.line.ptr + img.line.len := by
  obtain ⟨okS, inside, sameEnd⟩ := head.safe ok
  obtain ⟨-, further, insideT⟩ := (bwParseUnit_safe okS inside).ok parsed
  have grown : Grown img s t := Develops.ok parsed
  refine ⟨further, ?_⟩
  rw [← sameEnd, ← grown.endp]
  exact insideT.1

/-- An opcode after which the loop goes on ends beyond its start. -/
theorem UnitHead.opcode_advances (ok : TabOk tab) (head : UnitHead img tab s) {program : Program}
    (entered : programOf img s = some program)
    {visit : Visit} (visited : visit ∈ program.visits img)
    {regs : Regs}
    (ended : bwOpcode img program.prologue program.files visit.regs visit.state = .ok regs t) :
    visit.state.cur.p < t.cur.p := by
  obtain ⟨okS, inside, -⟩ := head.safe ok
  obtain ⟨before, after, visits⟩ := List.append_of_mem visited
  obtain ⟨fuel, prologueOk, running, inUnit, -⟩ := program_visit okS inside entered visits
  exact ((bwOpcode_safe running.ok (running.inside inUnit) prologueOk running.files).ok ended).2.1

end Progress

/-- A parse into a table that calls have left returns, or is killed at an address
that is not mapped; each unit it accepts and each opcode it goes on from moves
the cursor forward. -/
theorem bwDwarfTabParse_progress (img : Image) (qsort : Qsort) (earlier : List Call) (tab : Tab)
    (left : afterCalls earlier Tab.zeroed = some tab) :
    ((∃ value tab', bwDwarfTabParse img qsort tab = .returned value tab') ∨
        ∃ addr tab', bwDwarfTabParse img qsort tab = .crashed (.fault (.segv addr)) tab') ∧
      ∀ s, UnitHead img tab s →
        (∀ exit t, bwParseUnit img s = .ok exit t →
          s.cur.p < t.cur.p ∧ t.cur.p ≤ img.line.ptr + img.line.len) ∧
        ∀ program, programOf img s = some program → ∀ visit ∈ program.visits img, ∀ regs t,
          bwOpcode img program.prologue program.files visit.regs visit.state = .ok regs t →
            visit.state.cur.p < t.cur.p := by
  have ok : TabOk tab := afterCalls_ok tabOk_zeroed left
  constructor
  · cases result : bwDwarfTabParse img qsort tab with
    | returned value tab' => exact Or.inl ⟨value, tab', rfl⟩
    | crashed why tab' =>
        have crash : Call.crash tab (.parse img qsort) = some why := by
          rw [Call.crash, result]
        obtain ⟨addr, rfl⟩ := Call.crash_segv ok crash
        exact Or.inr ⟨addr, tab', rfl⟩
  · intro s head
    exact ⟨fun exit t parsed => head.unit_advances ok parsed,
      fun program entered visit visited regs t ended =>
        head.opcode_advances ok entered visited ended⟩

/-- A version 2 unit whose program begins with a `set_address` of length 1. Its operand
goes past the instruction, and the bytes of it are read again as opcodes. -/
def rewindUnit : List UInt8 :=
  [32, 0, 0, 0, 2, 0, 15, 0, 0, 0, 1, 1, 0, 4, 4, 0, 1, 1, 0, 0x61, 0, 0, 0, 0, 0,
    0, 1, 2, 1, 1, 1, 1, 1, 1, 1, 1]

/-- The table that a parse of `unitV2` leaves. -/
def usedTab : Tab :=
  (afterCalls [.parse (lineImage unitV2) stableQsort] Tab.zeroed).getD Tab.zeroed

theorem usedTab_left :
    afterCalls [.parse (lineImage unitV2) stableQsort] Tab.zeroed = some usedTab := by
  have returned : (afterCalls [.parse (lineImage unitV2) stableQsort] Tab.zeroed).isSome =
      true := by
    decide +kernel
  obtain ⟨tab, isTab⟩ := Option.isSome_iff_exists.mp returned
  rw [usedTab, isTab, Option.getD_some]

/-- The unit is accepted. -/
def isAccepted : EStateM.Result Stop State UnitExit → Bool
  | .ok _ _ => true
  | .error _ _ => false

/-- Where the first opcode of the first unit begins and ends. -/
def firstOpcode (img : Image) (tab : Tab) : Option (Nat × Nat) :=
  (programOf img (startState img tab)).bind fun program =>
    (program.visits img).head?.bind fun visit =>
      match bwOpcode img program.prologue program.files visit.regs visit.state with
      | .ok _ t => some (visit.state.cur.p, t.cur.p)
      | .error _ _ => none

/-- Into a table that was used before: the unit ends beyond its start, and so does the
opcode after which the cursor is set back, eight bytes before the end of its operand. -/
theorem rewindUnit_progress :
    (∃ exit t, bwParseUnit (lineImage rewindUnit) (startState (lineImage rewindUnit) usedTab) =
        .ok exit t ∧ (startState (lineImage rewindUnit) usedTab).cur.p < t.cur.p) ∧
      ∃ first past, firstOpcode (lineImage rewindUnit) usedTab = some (first, past) ∧
        first < past ∧ past = first + 3 := by
  obtain ⟨-, progress⟩ := bwDwarfTabParse_progress (lineImage rewindUnit) stableQsort
    [.parse (lineImage unitV2) stableQsort] usedTab usedTab_left
  obtain ⟨units, opcodes⟩ := progress _ (.start (by decide) (by decide))
  constructor
  · have accepted : isAccepted (bwParseUnit (lineImage rewindUnit)
        (startState (lineImage rewindUnit) usedTab)) = true := by
      decide +kernel
    cases parsed :
        bwParseUnit (lineImage rewindUnit) (startState (lineImage rewindUnit) usedTab) with
    | ok exit t => exact ⟨exit, t, rfl, (units exit t parsed).1⟩
    | error why t =>
        rw [parsed] at accepted
        cases accepted
  · have places : (firstOpcode (lineImage rewindUnit) usedTab).map
        (fun place => decide (place.2 = place.1 + 3)) = some true := by
      decide +kernel
    obtain ⟨⟨first, past⟩, isFirst, set⟩ := Option.map_eq_some_iff.mp places
    refine ⟨first, past, isFirst, ?_, of_decide_eq_true set⟩
    obtain ⟨program, entered, isFirst⟩ := Option.bind_eq_some_iff.mp isFirst
    obtain ⟨visit, isHead, isFirst⟩ := Option.bind_eq_some_iff.mp isFirst
    cases ended : bwOpcode (lineImage rewindUnit) program.prologue program.files visit.regs
        visit.state with
    | ok regs t =>
        rw [ended] at isFirst
        cases isFirst
        exact opcodes program entered visit (List.mem_of_head? isHead) regs t ended
    | error why t =>
        rw [ended] at isFirst
        cases isFirst

end Backwalk.DwarfLine
