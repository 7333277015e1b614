import Backwalk.DwarfLine.Sections
import Backwalk.Support.Search

/-!
Contract: `bw_dwarf_tab_lookup` against what was emitted.

Owns the specification of a lookup in a sorted table, its agreement with a
linear scan over the rows that a parse builds, and the dependence of its answer
on how the sort arranges rows with equal addresses.

`bw_row_cmp` compares addresses only and `qsort` is not stable, so of several
rows at one address any may come last.
-/

namespace Backwalk.DwarfLine

open Backwalk.Support

/-- The address of a row by its index. -/
def addrAt (rows : List Row) (index : Nat) : Nat := ((rows[index]?).map Row.addr).getD 0

theorem addrAt_of_getElem? {rows : List Row} {index : Nat} {row : Row}
    (there : rows[index]? = some row) : addrAt rows index = row.addr := by
  rw [addrAt, there]
  rfl

theorem lookupLoop_eq_searchLe (rows : List Row) (addr fuel lo hi : Nat) (best : Option Nat) :
    lookupLoop rows addr fuel lo hi best = searchLe (addrAt rows) addr fuel lo hi best := by
  induction fuel generalizing lo hi best with
  | zero => rfl
  | succ fuel inductionHypothesis =>
      rw [lookupLoop, searchLe]
      dsimp only
      rw [inductionHypothesis, inductionHypothesis]
      rfl

theorem addrAt_sorted {rows : List Row} (sorted : rows.Pairwise (KeyLe Row.addr)) (i j : Nat)
    (ordered : i ≤ j) (below : j < rows.length) : addrAt rows i ≤ addrAt rows j := by
  rcases Nat.eq_or_lt_of_le ordered with rfl | before
  · exact le_refl _
  · have later := List.pairwise_iff_getElem.mp sorted i j (before.trans below) below before
    rw [addrAt_of_getElem? (List.getElem?_eq_getElem (before.trans below)),
      addrAt_of_getElem? (List.getElem?_eq_getElem below)]
    exact later

/-! ### A lookup in a sorted table -/

/-- What a lookup says when it ends on `row`. -/
def Tab.answer (tab : Tab) (row : Row) : List UInt8 × Nat := (tab.text row.nameOff, row.line)

/-- The last row that is not above the address, in a sorted table. -/
structure LastRow (rows : List Row) (addr : Nat) (row : Row) : Prop where
  notAbove : row.addr ≤ addr
  last : ∃ before after, rows = before ++ row :: after ∧ ∀ later ∈ after, addr < later.addr

theorem LastRow.lastLe {rows : List Row} {addr : Nat} {row : Row} (last : LastRow rows addr row) :
    LastLe Row.addr rows addr row :=
  ⟨last.notAbove, last.last⟩

/-- A lookup ends on the last row that is not above the address, unless all are
above it. -/
theorem bwDwarfTabLookup_sorted (tab : Tab) (addr : Nat)
    (sorted : tab.rows.Pairwise (KeyLe Row.addr)) :
    (bwDwarfTabLookup tab addr = none ∧ ∀ row ∈ tab.rows, addr < row.addr) ∨
      ∃ row, LastRow tab.rows addr row ∧ bwDwarfTabLookup tab addr = some (tab.answer row) := by
  have keys : ∀ i (inside : i < tab.rows.length), addrAt tab.rows i = tab.rows[i].addr :=
    fun i inside => addrAt_of_getElem? (List.getElem?_eq_getElem inside)
  have found : IsLast (addrAt tab.rows) addr tab.rows.length _ :=
    searchLe_whole (addrAt_sorted sorted)
  rw [← lookupLoop_eq_searchLe] at found
  unfold bwDwarfTabLookup Tab.nrow
  cases ended : lookupLoop tab.rows addr tab.rows.length 0 tab.rows.length none with
  | none =>
      rw [ended] at found
      exact Or.inl ⟨rfl, above_of_isLast_none Row.addr keys found⟩
  | some best =>
      rw [ended] at found
      have below := found.1
      have last := lastLe_of_isLast Row.addr below keys found
      refine Or.inr ⟨tab.rows[best], ⟨last.notAbove, last.last⟩, ?_⟩
      dsimp only
      rw [List.getElem?_eq_getElem below]
      rfl

/-- The last row not above the address is one of those at the greatest address. -/
theorem LastRow.atTop {rows : List Row} {addr : Nat} {row : Row}
    (sorted : rows.Pairwise (KeyLe Row.addr)) (last : LastRow rows addr row) :
    AtTop Row.addr rows addr row :=
  last.lastLe.atTop Row.addr sorted

/-! ### A lookup after a parse -/

/-- A parse that returns true has sorted the rows that the unit loop left. -/
theorem bwDwarfTabParse_true {img : Image} {qsort : Qsort} {tab tab' : Tab}
    (parsed : bwDwarfTabParse img qsort tab = .returned true tab') :
    ∃ s, bwParseUnits img tab = .ok () s ∧ tab' = { s.tab with rows := qsort.sort s.tab.rows } := by
  unfold bwDwarfTabParse at parsed
  by_cases absent : img.line.ptr = 0 ∨ img.line.len = 0
  · rw [if_pos absent] at parsed
    cases parsed
  · rw [if_neg absent] at parsed
    cases ended : bwParseUnits img tab with
    | error why s => rw [ended] at parsed; cases parsed
    | ok _ s =>
        rw [ended] at parsed
        dsimp only at parsed
        split_ifs at parsed with empty
        · cases parsed
        · cases parsed
          exact ⟨s, rfl, rfl⟩

/-- The text of a row does not decide whether it is at the top. -/
theorem atTop_textRow {tab : Tab} {addr : Nat} {row : Row} (member : row ∈ tab.rows) :
    AtTop TextRow.addr tab.textRows addr (tab.textRow row) ↔ AtTop Row.addr tab.rows addr row := by
  have keys : tab.textRows.map TextRow.addr = tab.rows.map Row.addr := by
    rw [Tab.textRows, List.map_map]
    rfl
  have inText : tab.textRow row ∈ tab.textRows := List.mem_map_of_mem member
  rw [atTop_iff_keys TextRow.addr, atTop_iff_keys Row.addr, keys]
  exact ⟨fun top => ⟨member, top.2⟩, fun top => ⟨inText, top.2⟩⟩

/-- After a parse that returns true, a lookup agrees with a linear scan over the
rows that were emitted. -/
theorem bwDwarfTabLookup_emitted (img : Image) (qsort : Qsort) (tab tab' : Tab) (addr : Nat)
    (parsed : bwDwarfTabParse img qsort (bwDwarfTabReset tab) = .returned true tab') :
    ∃ rows, builtRows img (bwDwarfTabReset tab) = some rows ∧
      ((bwDwarfTabLookup tab' addr).isSome = true ↔ ∃ row ∈ rows, row.addr ≤ addr) ∧
      ∀ file line, bwDwarfTabLookup tab' addr = some (file, line) →
        ∃ row, AtTop TextRow.addr rows addr row ∧ row.file = file ∧ row.line = line := by
  obtain ⟨rows, built, perm⟩ := bwDwarfTabParse_perm parsed
  have sorted : tab'.rows.Pairwise (KeyLe Row.addr) := by
    obtain ⟨s, _, rfl⟩ := bwDwarfTabParse_true parsed
    exact qsort.sorted s.tab.rows
  refine ⟨rows, built, ?_⟩
  rcases bwDwarfTabLookup_sorted tab' addr sorted with ⟨missing, above⟩ | ⟨row, last, found⟩
  · rw [missing]
    refine ⟨⟨fun some => absurd some (by simp), ?_⟩, fun _ _ found => absurd found (by simp)⟩
    intro ⟨row, member, notAbove⟩
    obtain ⟨source, inTable, rfl⟩ := List.mem_map.mp (perm.mem_iff.mpr member)
    exact absurd (above source inTable) (not_lt_of_ge notAbove)
  · have top := last.atTop sorted
    have emitted : AtTop TextRow.addr rows addr (tab'.textRow row) :=
      ((atTop_textRow top.mem).mpr top).of_perm TextRow.addr perm
    rw [found]
    refine ⟨⟨fun _ => ⟨_, emitted.mem, emitted.notAbove⟩, fun _ => rfl⟩, ?_⟩
    intro file line answered
    cases answered
    exact ⟨_, emitted, rfl, rfl⟩

/-- A stable `qsort`. -/
def stableQsort : Qsort where
  sort := fun rows => rows.insertionSort (KeyLe Row.addr)
  perm := fun rows => List.perm_insertionSort _ rows
  sorted := fun rows => List.pairwise_insertionSort _ rows

/-- The parse returned true. -/
def ParseResult.succeeded : ParseResult → Bool
  | .returned value _ => value
  | .crashed _ _ => false

theorem ParseResult.eq_returned {result : ParseResult} (succeeded : result.succeeded = true) :
    ∃ tab, result = .returned true tab := by
  cases result with
  | returned value tab => exact ⟨tab, by rw [show value = true from succeeded]⟩
  | crashed why tab => cases succeeded

theorem unitV2_lookup_emitted : ∃ tab',
    bwDwarfTabParse (lineImage unitV2) stableQsort (bwDwarfTabReset Tab.zeroed) =
      .returned true tab' ∧
    ∃ rows, builtRows (lineImage unitV2) (bwDwarfTabReset Tab.zeroed) = some rows ∧
      ((bwDwarfTabLookup tab' 0x401000).isSome = true ↔ ∃ row ∈ rows, row.addr ≤ 0x401000) ∧
      ∀ file line, bwDwarfTabLookup tab' 0x401000 = some (file, line) →
        ∃ row, AtTop TextRow.addr rows 0x401000 row ∧ row.file = file ∧ row.line = line := by
  have succeeded : (bwDwarfTabParse (lineImage unitV2) stableQsort
      (bwDwarfTabReset Tab.zeroed)).succeeded = true := by
    decide +kernel
  obtain ⟨tab', parsed⟩ := ParseResult.eq_returned succeeded
  exact ⟨tab', parsed, bwDwarfTabLookup_emitted _ _ _ _ _ parsed⟩

/-! ### Rows at one address -/

theorem LastRow.unique {rows : List Row} {addr : Nat} {row other : Row}
    (one : LastRow rows addr row) (two : LastRow rows addr other) : row = other :=
  one.lastLe.unique Row.addr two.lastLe

/-- The table after a sort that has arranged its rows so. -/
def Tab.sortedAs (tab : Tab) (arranged : List Row) : Tab := { tab with rows := arranged }

/-- The answer for the last emitted of the rows at the greatest address that is
not above `addr`. -/
def Tab.lastEmitted (tab : Tab) (addr : Nat) : Option (List UInt8 × Nat) :=
  (scanLe Row.addr addr none tab.rows).map tab.answer

section Arrangements

variable {tab : Tab} {addr : Nat}

/-- The last emitted row is at the top, unless all rows are above the address. -/
theorem lastEmitted_atTop :
    (tab.lastEmitted addr = none ∧ ∀ row ∈ tab.rows, addr < row.addr) ∨
      ∃ row, AtTop Row.addr tab.rows addr row ∧ tab.lastEmitted addr = some (tab.answer row) := by
  have scanned : (∀ row ∈ scanLe Row.addr addr none tab.rows,
        AtTop Row.addr ([] ++ tab.rows) addr row) ∧
      (scanLe Row.addr addr none tab.rows = none → ∀ row ∈ [] ++ tab.rows, addr < row.addr) :=
    scanLe_atTop Row.addr (fun row held => by cases held) (fun _ row member => by cases member)
  unfold Tab.lastEmitted
  cases ended : scanLe Row.addr addr none tab.rows with
  | none => exact Or.inl ⟨rfl, scanned.2 ended⟩
  | some row => exact Or.inr ⟨row, scanned.1 row ended, rfl⟩

/-- Whatever the arrangement, a lookup ends on a row at the top. -/
theorem bwDwarfTabLookup_arranged {arranged : List Row}
    (arrangement : Arrangement Row.addr tab.rows arranged) :
    (bwDwarfTabLookup (tab.sortedAs arranged) addr = none ∧ ∀ row ∈ tab.rows, addr < row.addr) ∨
      ∃ row, AtTop Row.addr tab.rows addr row ∧
        bwDwarfTabLookup (tab.sortedAs arranged) addr = some (tab.answer row) := by
  rcases bwDwarfTabLookup_sorted (tab.sortedAs arranged) addr arrangement.sorted with
    ⟨missing, above⟩ | ⟨row, last, found⟩
  · exact Or.inl ⟨missing, fun row member => above row (arrangement.perm.mem_iff.mpr member)⟩
  · exact Or.inr ⟨row, (last.atTop arrangement.sorted).of_perm Row.addr arrangement.perm, found⟩

/-- Each row at the top is what a lookup ends on after some sort. -/
theorem bwDwarfTabLookup_atTop {row : Row} (top : AtTop Row.addr tab.rows addr row) :
    ∃ arranged, Arrangement Row.addr tab.rows arranged ∧
      bwDwarfTabLookup (tab.sortedAs arranged) addr = some (tab.answer row) := by
  obtain ⟨before, after, arrangement, later⟩ := Arrangement.exists_last Row.addr top
  have last : LastRow (before ++ row :: after) addr row := ⟨top.notAbove, before, after, rfl, later⟩
  refine ⟨_, arrangement, ?_⟩
  have looked :=
    bwDwarfTabLookup_sorted (tab.sortedAs (before ++ row :: after)) addr arrangement.sorted
  rcases looked with ⟨missing, above⟩ | ⟨other, otherLast, found⟩
  · exact absurd (above row (by simp [Tab.sortedAs])) (not_lt_of_ge top.notAbove)
  · rw [found, last.unique otherLast]
    rfl

end Arrangements

/-- All arrangements that a sort may produce answer alike, and as the last
emitted row says, exactly when the rows at the greatest address that is not
above the query agree. -/
theorem bwDwarfTabLookup_arrangements_iff (tab : Tab) (addr : Nat) :
    (∀ one two, Arrangement Row.addr tab.rows one → Arrangement Row.addr tab.rows two →
      bwDwarfTabLookup (tab.sortedAs one) addr = bwDwarfTabLookup (tab.sortedAs two) addr ∧
        bwDwarfTabLookup (tab.sortedAs one) addr = tab.lastEmitted addr) ↔
      ∀ row other, AtTop Row.addr tab.rows addr row → AtTop Row.addr tab.rows addr other →
        tab.answer row = tab.answer other := by
  constructor
  · intro alike row other top otherTop
    obtain ⟨one, arrangementOne, foundOne⟩ := bwDwarfTabLookup_atTop top
    obtain ⟨two, arrangementTwo, foundTwo⟩ := bwDwarfTabLookup_atTop otherTop
    have same := (alike one two arrangementOne arrangementTwo).1
    rw [foundOne, foundTwo] at same
    exact Option.some_inj.mp same
  · intro agree
    have settled : ∀ arranged, Arrangement Row.addr tab.rows arranged →
        bwDwarfTabLookup (tab.sortedAs arranged) addr = tab.lastEmitted addr := by
      intro arranged arrangement
      rcases bwDwarfTabLookup_arranged arrangement with ⟨missing, above⟩ | ⟨row, top, found⟩
      · rw [missing]
        rcases lastEmitted_atTop with ⟨absent, _⟩ | ⟨other, otherTop, _⟩
        · exact absent.symm
        · exact absurd (above other otherTop.mem) (not_lt_of_ge otherTop.notAbove)
      · rw [found]
        rcases lastEmitted_atTop with ⟨_, above⟩ | ⟨other, otherTop, emitted⟩
        · exact absurd (above row top.mem) (not_lt_of_ge top.notAbove)
        · rw [emitted, agree row other top otherTop]
    intro one two arrangementOne arrangementTwo
    rw [settled one arrangementOne, settled two arrangementTwo]
    exact ⟨rfl, rfl⟩

/-- `unitV2` with a second row at the same address, for line 2. -/
def twoLineUnit : List UInt8 :=
  [39, 0, 0, 0, 2, 0, 15, 0, 0, 0, 1, 1, 0, 4, 4, 0, 1, 1, 0, 0x61, 0, 0, 0, 0, 0,
    0, 9, 2, 0, 0x10, 0x40, 0, 0, 0, 0, 0, 1, 3, 1, 1, 0, 1, 1]

/-- The table that `twoLineUnit` builds, before it is sorted. -/
def twoLineTab : Tab := (unitsEnd (lineImage twoLineUnit) (bwDwarfTabReset Tab.zeroed)).tab

/-- Two rows at one address, for lines 1 and 2: a sort may leave either last. -/
theorem twoLineTab_ambiguous :
    ¬ ∀ one two, Arrangement Row.addr twoLineTab.rows one →
      Arrangement Row.addr twoLineTab.rows two →
      bwDwarfTabLookup (twoLineTab.sortedAs one) 0x401000 =
          bwDwarfTabLookup (twoLineTab.sortedAs two) 0x401000 ∧
        bwDwarfTabLookup (twoLineTab.sortedAs one) 0x401000 = twoLineTab.lastEmitted 0x401000 := by
  have rows : twoLineTab.rows = [⟨0x401000, 1, 1⟩, ⟨0x401000, 1, 2⟩] := by
    decide +kernel
  intro alike
  have same := (alike [⟨0x401000, 1, 1⟩, ⟨0x401000, 1, 2⟩] [⟨0x401000, 1, 2⟩, ⟨0x401000, 1, 1⟩]
    (by rw [rows]; exact ⟨List.Perm.refl _, by decide⟩)
    (by rw [rows]; exact ⟨List.Perm.swap _ _ _, by decide⟩)).1
  revert same
  decide +kernel

end Backwalk.DwarfLine
