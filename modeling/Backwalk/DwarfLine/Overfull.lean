import Backwalk.DwarfLine.Sequences

/-!
Contract: sections with more rows than the table has room for.

Owns sections of units whatever number of rows the parser keeps of them, what
of these the table has at the end of a unit, of the section and of a parse, and
what a lookup answers then.

A full table takes no more rows, and the parser goes on as if it had taken them:
the table has the first rows that are kept, and no unit behind them is missed. A
linker pads the sections of a file, so bytes may follow the units in which no
unit begins: there the parser gives up, with the rows that it has.
-/

namespace Backwalk.DwarfLine

open Backwalk.Support

/-! ### Tables that fill up -/

/-- A run has offered these rows to the table, which took those it had room for. -/
structure Offers (s t : State) (rows : List TextRow) (nstr : Nat) : Prop where
  rows : t.tab.textRows = (s.tab.textRows ++ rows).take bwDwarfRowMax
  nstr : t.tab.nstr = s.tab.nstr + nstr

namespace Offers

variable {s t u : State} {rows others : List TextRow} {nstr more : Nat}

/-- No rows, to a table that is not overfull. -/
theorem nil (ok : StateOk s) (same : t.tab = s.tab) : Offers s t [] 0 where
  rows := by
    have fits : s.tab.textRows.length ≤ bwDwarfRowMax := by
      rw [Tab.textRows, List.length_map]
      exact ok.tab.nrow
    rw [same, List.append_nil, List.take_of_length_le fits]
  nstr := congrArg Tab.nstr same

/-- Rows that did not fit leave no room for the rows behind them. -/
theorem take_append_take {α : Type*} (limit : Nat) (first second : List α) :
    (first.take limit ++ second).take limit = (first ++ second).take limit := by
  rw [List.take_append, List.take_append, List.take_take, Nat.min_self, List.length_take]
  rcases Nat.le_total first.length limit with short | long
  · rw [Nat.min_eq_right short]
  · rw [Nat.min_eq_left long, Nat.sub_self, Nat.sub_eq_zero_of_le long]

theorem trans (one : Offers s t rows nstr) (two : Offers t u others more) :
    Offers s u (rows ++ others) (nstr + more) where
  rows := by
    rw [two.rows, one.rows, take_append_take, List.append_assoc]
  nstr := by
    rw [two.nstr, one.nstr, Nat.add_assoc]

end Offers

section Unit

variable {img : Image} {s : State} {ys : List UInt8}

/-- A unit offers the rows that are kept of it, and goes to its end. -/
theorem SectionUnit.offers (u : SectionUnit img) (ok : StateOk s)
    (ahead : Ahead img (u.unit.bytes ++ ys) s.cur)
    (room : s.tab.nstr + u.tables.pool ≤ bwDwarfStrMax) :
    ∃ exit t, bwParseUnit img s = .ok exit t ∧ StateOk t ∧ Ahead img ys t.cur ∧
      t.cur.p = s.cur.p + u.unit.bytes.length ∧ t.cur.endp = s.cur.endp ∧
        Offers s t u.kept u.tables.pool := by
  obtain ⟨files, t, accepted, nstr, names⟩ := u.tables.read ahead room
  have collects : Collects img (u.unit.atTables s) t := Develops.ok accepted
  obtain ⟨exit, v, parsed, tab, moved⟩ := bwParseUnit_machine u.unit ok ahead accepted u.sums
  have grown : Grown img s v := Develops.ok parsed
  have okV : StateOk v := ((bwParseUnit_safe ok ahead.inside).ok parsed).1
  have rest := ahead.rest
  have aheadV : Ahead img ys v.cur :=
    ⟨moved ▸ rest.started, moved ▸ grown.endp ▸ rest.fits, grown.endp ▸ rest.below,
      moved ▸ rest.mem⟩
  -- The texts are those of the pool after the tables: the program adds none.
  have textRow : v.tab.textRow = t.tab.textRow := by
    rw [tab]
    rfl
  have text : ((u.unit.rows img.bits).filterMap files.taken).map t.tab.textRow = u.kept := by
    rw [List.map_filterMap, kept]
    exact List.filterMap_congr fun row _ => u.taken_text names row
  have before : s.tab.rows.map t.tab.textRow = s.tab.textRows :=
    textRows_of_extends collects.tab ok.tab
  have sameRows : t.tab.rows = s.tab.rows := collects.rows
  have rows : v.tab.rows =
      (s.tab.rows ++ (u.unit.rows img.bits).filterMap files.taken).take bwDwarfRowMax := by
    rw [tab, Tab.withRows, sameRows]
  have offers : Offers s v u.kept u.tables.pool := by
    constructor
    · rw [Tab.textRows, rows, textRow, List.map_take, List.map_append, before, text]
    · rw [tab]
      exact nstr
  exact ⟨exit, v, parsed, okV, aheadV, moved, grown.endp, offers⟩

end Unit

/-! ### Padding -/

/-- No unit begins with these bytes: they are too few for a `unit_length`, or its
value is too small. -/
def Padding (bytes : List UInt8) : Prop := bytes.length < 4 ∨ leNat (bytes.take 4) < 2

theorem padding_nil : Padding [] := Or.inl (by decide)

/-- A section is padded with zeros. -/
theorem padding_zeros (n : Nat) : Padding (List.replicate n 0) := by
  rcases Nat.lt_or_ge n 4 with few | many
  · exact Or.inl (by rwa [List.length_replicate])
  · refine Or.inr ?_
    rw [List.take_replicate, Nat.min_eq_left many]
    decide

section Padding

variable {img : Image} {s : State} {padding : List UInt8}

/-- At padding the parser gives up, with the table as it was. -/
theorem bwUnitLength_padding (ahead : Ahead img padding s.cur)
    (ends : s.cur.p + padding.length = s.cur.endp) (isPadding : Padding padding) :
    ∃ why t, bwUnitLength img s = .error why t ∧ (why = .short ∨ why = .malformed) ∧
      t.tab = s.tab := by
  rcases Nat.lt_or_ge padding.length 4 with few | many
  · have noRoom : ¬ bwCurOk img s.cur 4 = true := by
      intro room
      have fits := (ptrAdd_of_inside ahead.inside room).2
      omega
    have short : bwU32 img s = .error .short s := (bwUint_run img 4 s).trans (if_neg noRoom)
    exact ⟨.short, s, bind_of_error short, Or.inl rfl, rfl⟩
  · have small := isPadding.resolve_left (Nat.not_lt.mpr many)
    have split : Ahead img (padding.take 4 ++ padding.drop 4) s.cur := by
      rwa [List.take_append_drop]
    have read : bwU32 img s = .ok (leNat (padding.take 4)) (s.advance 4) :=
      bwUint_ahead split (List.length_take_of_le many)
    rw [bwUnitLength, bind_of_ok read, if_neg (by omega),
      bind_of_ok (show setDwarf64 false (s.advance 4) = .ok () _ from rfl), bwUnitEnd,
      bind_of_ok (show getCur _ = .ok _ _ from rfl), if_pos small]
    exact ⟨.malformed, _, rfl, Or.inr rfl, rfl⟩

theorem bwUnits_padding {fuel : Nat} (ahead : Ahead img padding s.cur)
    (ends : s.cur.p + padding.length = s.cur.endp) (isPadding : Padding padding) :
    ∃ t, bwUnits img (fuel + 1) s = .ok () t ∧ t.tab = s.tab := by
  by_cases more : s.cur.p < s.cur.endp
  · obtain ⟨why, t, refused, reason, same⟩ := bwUnitLength_padding ahead ends isPadding
    have unit : bwParseUnit img s = .error why t := bind_of_error (bind_of_error refused)
    refine ⟨t, ?_, same⟩
    unfold bwUnits
    rw [if_pos more, unit]
    rcases reason with rfl | rfl <;> rfl
  · exact ⟨s, bwUnits_done more, rfl⟩

end Padding

/-! ### Sections -/

section Section

variable {img : Image} {units : List (SectionUnit img)} {s : State}

/-- The line section consists of these units, whose names fit in the pool, and of
padding. -/
structure SectionWithin (img : Image) (units : List (SectionUnit img)) : Prop where
  present : img.line.ptr ≠ 0
  bytes : ∃ padding, Padding padding ∧ img.lineBytes = sectionBytes units ++ padding
  strsFit : sectionPool units ≤ bwDwarfStrMax

/-- The unit loop from the first of these units on. -/
theorem bwUnits_offers {fuel : Nat} {padding : List UInt8} (isPadding : Padding padding)
    (ok : StateOk s) (ahead : Ahead img (sectionBytes units ++ padding) s.cur)
    (ends : s.cur.p + (sectionBytes units ++ padding).length = s.cur.endp)
    (room : s.tab.nstr + sectionPool units ≤ bwDwarfStrMax)
    (enough : (sectionBytes units).length < fuel) :
    ∃ t, bwUnits img fuel s = .ok () t ∧ Offers s t (keptRows units) (sectionPool units) := by
  induction units generalizing s fuel with
  | nil =>
      obtain ⟨fuel, rfl⟩ : ∃ n, fuel = n + 1 := ⟨fuel - 1, by omega⟩
      obtain ⟨t, loops, same⟩ := @bwUnits_padding img s padding fuel ahead ends isPadding
      exact ⟨t, loops, Offers.nil ok same⟩
  | cons u units inductionHypothesis =>
      obtain ⟨fuel, rfl⟩ : ∃ n, fuel = n + 1 := ⟨fuel - 1, by omega⟩
      have bytes : sectionBytes (u :: units) = u.unit.bytes ++ sectionBytes units := rfl
      have pool : sectionPool (u :: units) = u.tables.pool + sectionPool units := rfl
      have some : 2 ≤ u.unit.bytes.length := by
        have body := u.unit.body_length
        rw [LineUnit.bytes, List.length_append]
        omega
      rw [bytes, List.append_assoc] at ahead ends
      rw [List.length_append] at ends
      rw [bytes, List.length_append] at enough
      rw [pool] at room
      obtain ⟨exit, t, parsed, okT, aheadT, moved, endp, offers⟩ := u.offers ok ahead (by omega)
      have roomT : t.tab.nstr + sectionPool units ≤ bwDwarfStrMax := by
        rw [offers.nstr]
        omega
      obtain ⟨v, loops, offersRest⟩ :=
        @inductionHypothesis t fuel okT aheadT (by omega) roomT (by omega)
      refine ⟨v, ?_, offers.trans offersRest⟩
      rw [bwUnits_of_ok (by omega) parsed]
      exact loops

/-- The rows of the table of such a section. -/
def firstRows (units : List (SectionUnit img)) : List TextRow :=
  (keptRows units).take bwDwarfRowMax

/-- A parse of the section builds the first rows that are kept of its units. -/
theorem bwParseUnits_first (holds : SectionWithin img units) (tab : Tab) :
    ∃ s, bwParseUnits img (bwDwarfTabReset tab) = .ok () s ∧ s.tab.textRows = firstRows units := by
  obtain ⟨padding, isPadding, bytes⟩ := holds.bytes
  have length : (sectionBytes units ++ padding).length = img.line.len := by
    rw [← bytes, Image.lineBytes_length]
  have placed := (img.linePlaced holds.present).1
  have ahead : Ahead img (sectionBytes units ++ padding)
      (startState img (bwDwarfTabReset tab)).cur := by
    refine ⟨Nat.pos_of_ne_zero holds.present, ?_, placed, ?_⟩
    · rw [length]
      exact le_refl _
    · intro i inside
      have read := Image.mem_line holds.present (show i < img.line.len from length ▸ inside)
      rw [bytes] at read
      exact read.trans (congrArg some (List.getD_eq_getElem _ _ inside))
  have room : (startState img (bwDwarfTabReset tab)).tab.nstr + sectionPool units ≤
      bwDwarfStrMax := by
    have none : (startState img (bwDwarfTabReset tab)).tab.nstr = 0 := rfl
    rw [none, Nat.zero_add]
    exact holds.strsFit
  have enough : (sectionBytes units).length < img.line.len + 1 := by
    rw [List.length_append] at length
    omega
  obtain ⟨s, loops, offers⟩ := @bwUnits_offers img units _ (img.line.len + 1) padding isPadding
    (stateOk_startState tabOk_reset) ahead (by rw [length]; rfl) room enough
  exact ⟨s, loops, offers.rows⟩

/-- A parse whose units are read returns, with their rows in the order that `qsort`
gives them: where there are none nothing is sorted. -/
theorem bwDwarfTabParse_of_units {tab : Tab}
    (parsed : bwParseUnits img (bwDwarfTabReset tab) = .ok () s)
    (present : img.line.ptr ≠ 0) (qsort : Qsort) :
    ∃ value, bwDwarfTabParse img qsort (bwDwarfTabReset tab) =
      .returned value (s.tab.sortedAs (qsort.sort s.tab.rows)) := by
  have unsorted : s.tab.rows = [] → s.tab.sortedAs (qsort.sort s.tab.rows) = s.tab := by
    intro empty
    rw [empty, qsort.sort_nil, Tab.sortedAs, ← empty]
  unfold bwDwarfTabParse
  by_cases empty : img.line.len = 0
  · have started : bwParseUnits img (bwDwarfTabReset tab) =
        .ok () (startState img (bwDwarfTabReset tab)) :=
      bwUnits_done (by simp only [startState]; omega)
    rw [started] at parsed
    cases parsed
    rw [if_pos (Or.inr empty), unsorted rfl]
    exact ⟨false, rfl⟩
  · rw [if_neg (not_or.mpr ⟨present, empty⟩), parsed]
    dsimp only
    by_cases none : s.tab.nrow = 0
    · rw [if_pos none, unsorted (List.length_eq_zero_iff.mp none)]
      exact ⟨false, rfl⟩
    · rw [if_neg none]
      exact ⟨true, rfl⟩

/-- A parse of the section returns, with its first rows. -/
theorem bwDwarfTabParse_first (holds : SectionWithin img units) (tab : Tab) :
    ∃ built : Tab, built.textRows = firstRows units ∧ ∀ qsort : Qsort, ∃ value,
      bwDwarfTabParse img qsort (bwDwarfTabReset tab) =
        .returned value (built.sortedAs (qsort.sort built.rows)) := by
  obtain ⟨s, parsed, rows⟩ := bwParseUnits_first holds tab
  exact ⟨s.tab, rows, bwDwarfTabParse_of_units parsed holds.present⟩

/-! ### Lookups -/

/-- A lookup in sorted rows comes to one of them. -/
theorem bwDwarfTabLookup_topmost (built : Tab) (qsort : Qsort) (addr : Nat) :
    ∃ row, Topmost TextRow.addr built.textRows addr row ∧
      bwDwarfTabLookup (built.sortedAs (qsort.sort built.rows)) addr =
        row.map fun row => (row.file, row.line) := by
  rcases @bwDwarfTabLookup_arranged built addr _ (qsort.arrangement _) with
    ⟨missing, above⟩ | ⟨row, top, found⟩
  · refine ⟨none, ?_, missing⟩
    intro text member
    obtain ⟨row, inTable, rfl⟩ := List.mem_map.mp member
    exact above row inTable
  · exact ⟨some (built.textRow row), (atTop_textRow top.mem).mpr top, found⟩

/-- However many rows are kept of the units of a section, a parse returns with the
first 65536 of them, and each lookup comes to one of these. -/
theorem bwDwarfTabLookup_first {img : Image} {units : List (SectionUnit img)}
    (holds : SectionWithin img units) (qsort : Qsort) (tab : Tab) :
    ∃ value tab', bwDwarfTabParse img qsort (bwDwarfTabReset tab) = .returned value tab' ∧
      tab'.nrow = min bwDwarfRowMax (keptRows units).length ∧
        ∀ addr, ∃ row, Topmost TextRow.addr (firstRows units) addr row ∧
          bwDwarfTabLookup tab' addr = row.map fun row => (row.file, row.line) := by
  obtain ⟨built, rows, parses⟩ := bwDwarfTabParse_first holds tab
  obtain ⟨value, parsed⟩ := parses qsort
  refine ⟨value, _, parsed, ?_, ?_⟩
  · have sorted := (qsort.perm built.rows).length_eq
    have first := congrArg List.length rows
    rw [Tab.textRows, List.length_map, firstRows, List.length_take] at first
    exact sorted.trans first
  · intro addr
    have looked := bwDwarfTabLookup_topmost built qsort addr
    rw [rows] at looked
    exact looked

end Section

/-! ### One unit over and over -/

theorem smallTables_valid : ∀ name ∈ ([] : List (List UInt8)), name ≠ [] ∧ NoNul name :=
  fun _ member => nomatch member

def smallTables : TablesV2 := ⟨[], [smallFile], smallTables_valid⟩

theorem shortUnit_version : shortUnit.header.version < 5 := by
  decide

theorem smallTables_dirs : smallTables.dirs.length < bwDwarfDirsMax := by
  decide

theorem smallTables_files : smallTables.files.length < bwDwarfFilesMax := by
  decide

theorem shortUnit_tables : shortUnit.header.tables = smallTables.bytes ++ [] := by
  decide

theorem shortUnit_sums : shortUnit.SumsFit 64 := shortSection.sums

/-- The tables of `shortUnit`, for any image. -/
def shortTables (img : Image) : HeaderTables img shortUnit.header :=
  .old smallTables [] shortUnit_version smallTables_dirs smallTables_files shortUnit_tables

/-- One unit so many times, padded as a section of a file is. -/
def repeatedBytes (count : Nat) : List UInt8 :=
  (List.replicate count shortUnit.bytes).flatten ++ List.replicate 16 0

def repeatedUnit (count : Nat) : SectionUnit (lineImage (repeatedBytes count)) where
  unit := shortUnit
  tables := shortTables _
  sums := shortUnit_sums

abbrev repeatedSection (count : Nat) : List (SectionUnit (lineImage (repeatedBytes count))) :=
  List.replicate count (repeatedUnit count)

theorem shortUnit_length : shortUnit.bytes.length = 43 := by
  decide +kernel

theorem repeatedSection_within {count : Nat} (few : count ≤ 80000) :
    SectionWithin (lineImage (repeatedBytes count)) (repeatedSection count) where
  present := by
    rw [lineImage_ptr]
    decide
  bytes := by
    have length : (repeatedBytes count).length = count * 43 + 16 := by
      rw [repeatedBytes, List.length_append, List.length_flatten, List.map_replicate,
        List.sum_replicate_nat, List.length_replicate, shortUnit_length]
    have same : sectionBytes (repeatedSection count) =
        (List.replicate count shortUnit.bytes).flatten := by
      rw [sectionBytes, List.flatMap_def, List.map_replicate]
      rfl
    refine ⟨List.replicate 16 0, padding_zeros 16, ?_⟩
    rw [lineImage_lineBytes (by omega), same, repeatedBytes]
  strsFit := by
    have pool : (repeatedUnit count).tables.pool = 3 := rfl
    rw [sectionPool, List.map_replicate, List.sum_replicate_nat, pool, bwDwarfStrMax]
    omega

theorem repeatedSection_rows (count : Nat) :
    keptRows (repeatedSection count) = List.replicate count ⟨0x401000, [0x61], 1⟩ := by
  have name : (repeatedUnit count).tables.name = shortSection.tables.name := by
    funext file
    simp only [repeatedUnit, shortTables, shortSection, HeaderTables.name]
    rfl
  have keptRow : (repeatedUnit count).keptRow = shortSection.keptRow := by
    funext row
    rw [SectionUnit.keptRow, SectionUnit.keptRow, name]
  have one : (shortUnit.rows 64).filterMap shortSection.keptRow = [⟨0x401000, [0x61], 1⟩] := by
    decide +kernel
  have kept : (repeatedUnit count).kept = [⟨0x401000, [0x61], 1⟩] := by
    rw [SectionUnit.kept, keptRow]
    exact one
  rw [keptRows, List.flatMap_def, List.map_replicate, kept, List.flatten_replicate_singleton]

/-- The table has no room for the row of the last unit. -/
theorem repeatedSection_first : ∃ value tab',
    bwDwarfTabParse (lineImage (repeatedBytes 65537)) stableQsort (bwDwarfTabReset Tab.zeroed) =
        .returned value tab' ∧
      tab'.nrow = 65536 ∧ bwDwarfTabLookup tab' 0x401004 = some ([0x61], 1) := by
  obtain ⟨value, tab', parsed, nrow, answers⟩ := bwDwarfTabLookup_first
    (repeatedSection_within (show 65537 ≤ 80000 by decide)) stableQsort Tab.zeroed
  refine ⟨value, tab', parsed, ?_, ?_⟩
  · rw [nrow, repeatedSection_rows, List.length_replicate]
    rfl
  · obtain ⟨row, top, found⟩ := answers 0x401004
    rw [firstRows, repeatedSection_rows, List.take_replicate] at top
    rw [found]
    cases row with
    | none =>
        have above := top _ (List.mem_replicate.mpr ⟨by decide, rfl⟩)
        exact absurd above (by decide)
    | some row =>
        rw [(List.mem_replicate.mp top.mem).2]
        rfl

end Backwalk.DwarfLine
