import Backwalk.DwarfLine.EntryFormats
import Backwalk.DwarfLine.LineUnit
import Backwalk.DwarfLine.Lookup

/-!
Contract: lookups against the sequences of a line section.

Owns sections of units whose headers, tables and programs are given, the
sequences that the line-number state machine makes of them, the rows that the
parser keeps of these, and when a lookup in the table of such a section says
what its sequences say.

The table has no ends of sequences: `end_sequence` resets the registers and
emits nothing, so that the last row of a sequence reaches up to the next row of
any other.
-/

namespace Backwalk.DwarfLine

open Backwalk.Support

/-! ### Units with tables -/

/-- What the table bytes of a header encode, within what the parser has room
for. Behind them the header may go on. -/
inductive HeaderTables (img : Image) (h : LineHeader) where
  | old (tables : TablesV2) (rest : List UInt8) (version : h.version < 5)
      (dirsFit : tables.dirs.length < bwDwarfDirsMax)
      (filesFit : tables.files.length < bwDwarfFilesMax)
      (bytes : h.tables = tables.bytes ++ rest)
  | recent (tables : TablesV5 img h.offsetSize) (rest : List UInt8) (version : h.version = 5)
      (joins : tables.Joins) (bytes : h.tables = tables.bytes ++ rest)

namespace HeaderTables

variable {img : Image} {h : LineHeader}

/-- What a file number denotes. -/
def name : HeaderTables img h → Nat → Option (List UInt8)
  | old tables _ _ _ _ _, k => tables.name k
  | recent tables _ _ _ _, k => tables.names[k]?

/-- The pool bytes that the tables take. -/
def pool : HeaderTables img h → Nat
  | old tables _ _ _ _ _ => tables.pool
  | recent tables _ _ _ _ => tables.pool

end HeaderTables

/-- A unit of a section: what it encodes, and that the sums of its program fit in
the 64 bits they are taken in. -/
structure SectionUnit (img : Image) where
  unit : LineUnit
  tables : HeaderTables img unit.header
  sums : unit.SumsFit img.bits

namespace SectionUnit

variable {img : Image} (u : SectionUnit img)

/-- The sequences of the program. -/
def sequences : List LineSequence :=
  (u.unit.header.params img.bits).sequences LineRegs.init [] u.unit.ops

/-- What the parser keeps of a row: nothing of one without address, without a
line number of 32 bits, or with a file that has no name. -/
def keptRow (row : LineRegs) : Option TextRow :=
  if row.address ≠ 0 ∧ 1 ≤ row.line ∧ row.line ≤ 0xffffffff then
    (u.tables.name row.file).map fun file => ⟨row.address, file, row.line.toNat⟩
  else none

def kept : List TextRow := (u.unit.rows img.bits).filterMap u.keptRow

/-- A sequence covers the address, and its last row that is not above it is for
this line of this file. -/
def Gives (addr : Nat) (file : List UInt8) (line : Nat) : Prop :=
  ∃ sequence ∈ u.sequences, sequence.Covers addr ∧ ∃ row, sequence.rowAt addr = some row ∧
    u.tables.name row.file = some file ∧ row.line = line

end SectionUnit

/-! ### One unit -/

section Unit

variable {img : Image} {s t : State} {ys : List UInt8}

/-- The cursor comes to the tables. -/
theorem LineUnit.ahead_tables (unit : LineUnit) (ahead : Ahead img (unit.bytes ++ ys) s.cur) :
    Ahead img (unit.header.tables ++ (insnBytes unit.program ++ ys)) (unit.atTables s).cur := by
  have split : Ahead img ((unit.lengthBytes ++ (unit.header.front ++ (unit.header.minInst ::
      (unit.header.maxOpsBytes ++ unit.header.opcodeBytes)))) ++
        (unit.header.tables ++ (insnBytes unit.program ++ ys))) s.cur := by
    simpa only [LineUnit.bytes, LineUnit.body, LineHeader.bytes, LineHeader.counted,
      List.append_assoc, List.cons_append] using ahead
  have moved := split.rest.flagged unit.header.dwarf64
  have length : (unit.lengthBytes ++ (unit.header.front ++ (unit.header.minInst ::
      (unit.header.maxOpsBytes ++ unit.header.opcodeBytes)))).length =
        unit.lengthBytes.length + (unit.header.bytes.length - unit.header.tables.length) := by
    simp only [LineHeader.bytes, LineHeader.counted, List.length_append, List.length_cons]
    omega
  rw [length] at moved
  exact moved

/-- The parser accepts the tables, and file numbers resolve to their names. -/
theorem HeaderTables.read {unit : LineUnit} (tables : HeaderTables img unit.header)
    (ahead : Ahead img (unit.bytes ++ ys) s.cur) (room : s.tab.nstr + tables.pool ≤ bwDwarfStrMax) :
    ∃ files t, unit.Accepted img s files t ∧ t.tab.nstr = s.tab.nstr + tables.pool ∧
      ∀ k, files.name t.tab k = tables.name k := by
  have atTables := unit.ahead_tables ahead
  cases tables with
  | old tables rest version dirsFit filesFit bytes =>
      rw [bytes, List.append_assoc] at atTables
      obtain ⟨files, t, ended, nstr, names⟩ := tables.read dirsFit atTables room
      have accepted : unit.Accepted img s files t := by
        rw [LineUnit.Accepted, bwTables_old (show (unit.prologue s.cur.p).version < 5 from version)]
        exact ended
      exact ⟨files, t, accepted, nstr, names⟩
  | recent tables rest version joins bytes =>
      rw [bytes, List.append_assoc] at atTables
      have width : unit.header.offsetSize = 4 ∨ unit.header.offsetSize = 8 := by
        rw [LineHeader.offsetSize]
        split_ifs
        · exact Or.inr rfl
        · exact Or.inl rfl
      obtain ⟨files, t, ended, -, nstr, names⟩ :=
        @TablesV5.read img (unit.atTables s) (unit.prologue s.cur.p) _ tables version.ge width
          atTables joins room
      exact ⟨files, t, ended, nstr, names⟩

/-- What the table takes of a row is what is kept of it. -/
theorem SectionUnit.taken_text (u : SectionUnit img) {files : Files} {tab : Tab}
    (names : ∀ k, files.name tab k = u.tables.name k) (row : LineRegs) :
    (files.taken row).map tab.textRow = u.keptRow row := by
  have name := names row.file
  unfold SectionUnit.keptRow
  unfold Files.name at name
  unfold Files.taken
  by_cases plain : row.address ≠ 0 ∧ 1 ≤ row.line ∧ row.line ≤ 0xffffffff
  · by_cases known : row.file < files.nfile ∧ 0 ≤ files.fileOff.cell row.file
    · rw [if_pos known] at name
      rw [if_pos plain, ← name, if_pos ⟨plain.1, plain.2.1, plain.2.2, known⟩]
      rfl
    · rw [if_neg known] at name
      rw [if_pos plain, ← name, if_neg fun all => known all.2.2.2]
      rfl
  · rw [if_neg plain, if_neg fun all => plain ⟨all.1, all.2.1, all.2.2.1⟩]
    rfl

/-- A unit adds the rows that are kept of it, and goes to its end. -/
theorem SectionUnit.adds (u : SectionUnit img) (ok : StateOk s)
    (ahead : Ahead img (u.unit.bytes ++ ys) s.cur) (room : Room s u.kept.length u.tables.pool) :
    ∃ exit t, bwParseUnit img s = .ok exit t ∧ StateOk t ∧ Ahead img ys t.cur ∧
      t.cur.p = s.cur.p + u.unit.bytes.length ∧ t.cur.endp = s.cur.endp ∧
        Adds s t u.kept u.tables.pool := by
  obtain ⟨files, t, accepted, nstr, names⟩ := u.tables.read ahead room.strs
  have collects : Collects img (u.unit.atTables s) t := Develops.ok accepted
  obtain ⟨exit, v, parsed, tab, moved⟩ := bwParseUnit_machine u.unit ok ahead accepted u.sums
  have grown : Grown img s v := Develops.ok parsed
  have okV : StateOk v := ((bwParseUnit_safe ok ahead.inside).ok parsed).1
  have rest := ahead.rest
  have aheadV : Ahead img ys v.cur :=
    ⟨moved ▸ rest.started, moved ▸ grown.endp ▸ rest.fits, grown.endp ▸ rest.below,
      moved ▸ rest.mem⟩
  have text : ((u.unit.rows img.bits).filterMap files.taken).map t.tab.textRow = u.kept := by
    rw [List.map_filterMap, kept]
    exact List.filterMap_congr fun row _ => u.taken_text names row
  have before : s.tab.rows.map t.tab.textRow = s.tab.textRows :=
    textRows_of_extends collects.tab ok.tab
  have length := congrArg List.length text
  rw [List.length_map] at length
  have sameRows : t.tab.rows = s.tab.rows := collects.rows
  have rows : v.tab.rows = s.tab.rows ++ (u.unit.rows img.bits).filterMap files.taken := by
    rw [tab, Tab.withRows, sameRows, List.take_of_length_le]
    rw [List.length_append, length]
    exact room.rows
  have textRow : v.tab.textRow = t.tab.textRow := by
    rw [tab]
    rfl
  have adds : Adds s v u.kept u.tables.pool := by
    constructor
    · rw [Tab.textRows, rows, textRow, List.map_append, before, text]
    · rw [tab]
      exact nstr
  exact ⟨exit, v, parsed, okV, aheadV, moved, grown.endp, adds⟩

end Unit

/-! ### Sections -/

section Section

variable {img : Image} {units : List (SectionUnit img)} {s : State}

def sectionBytes (units : List (SectionUnit img)) : List UInt8 := units.flatMap (·.unit.bytes)

def keptRows (units : List (SectionUnit img)) : List TextRow := units.flatMap (·.kept)

def sectionPool (units : List (SectionUnit img)) : Nat := (units.map (·.tables.pool)).sum

/-- The line section consists of these units, and the table has room for all that
is kept of them. -/
structure SectionOf (img : Image) (units : List (SectionUnit img)) : Prop where
  present : img.line.ptr ≠ 0
  bytes : img.lineBytes = sectionBytes units
  rowsFit : (keptRows units).length ≤ bwDwarfRowMax
  strsFit : sectionPool units ≤ bwDwarfStrMax

/-- The unit loop from the first of these units on. -/
theorem bwUnits_adds {fuel : Nat} (ok : StateOk s) (ahead : Ahead img (sectionBytes units) s.cur)
    (ends : s.cur.p + (sectionBytes units).length = s.cur.endp)
    (room : Room s (keptRows units).length (sectionPool units))
    (enough : (sectionBytes units).length < fuel) :
    ∃ t, bwUnits img fuel s = .ok () t ∧ Adds s t (keptRows units) (sectionPool units) := by
  induction units generalizing s fuel with
  | nil =>
      obtain ⟨fuel, rfl⟩ : ∃ n, fuel = n + 1 := ⟨fuel - 1, by omega⟩
      have atEnd : ¬ s.cur.p < s.cur.endp := Nat.not_lt_of_le ends.ge
      exact ⟨s, bwUnits_done atEnd, (List.append_nil _).symm, rfl⟩
  | cons u units inductionHypothesis =>
      obtain ⟨fuel, rfl⟩ : ∃ n, fuel = n + 1 := ⟨fuel - 1, by omega⟩
      have bytes : sectionBytes (u :: units) = u.unit.bytes ++ sectionBytes units := rfl
      have rows : keptRows (u :: units) = u.kept ++ keptRows units := rfl
      have pool : sectionPool (u :: units) = u.tables.pool + sectionPool units := rfl
      have some : 2 ≤ u.unit.bytes.length := by
        have body := u.unit.body_length
        rw [LineUnit.bytes, List.length_append]
        omega
      have roomRows := room.rows
      have roomStrs := room.strs
      rw [bytes] at ahead
      rw [bytes, List.length_append] at ends enough
      rw [rows, List.length_append] at roomRows
      rw [pool] at roomStrs
      obtain ⟨exit, t, parsed, okT, aheadT, moved, endp, adds⟩ :=
        u.adds ok ahead ⟨by omega, by omega⟩
      have roomT : Room t (keptRows units).length (sectionPool units) := by
        constructor
        · rw [adds.nrow]
          omega
        · rw [adds.nstr]
          omega
      obtain ⟨v, loops, addsRest⟩ := @inductionHypothesis t fuel okT aheadT (by omega) roomT
        (by omega)
      refine ⟨v, ?_, adds.trans addsRest⟩
      rw [bwUnits_of_ok (by omega) parsed]
      exact loops

/-- A parse of the section builds the rows that are kept of its units, in order. -/
theorem bwParseUnits_section (holds : SectionOf img units) (tab : Tab) :
    ∃ s, bwParseUnits img (bwDwarfTabReset tab) = .ok () s ∧ s.tab.textRows = keptRows units := by
  have length : (sectionBytes units).length = img.line.len := by
    rw [← holds.bytes, Image.lineBytes_length]
  have placed := (img.linePlaced holds.present).1
  have ahead : Ahead img (sectionBytes units) (startState img (bwDwarfTabReset tab)).cur := by
    refine ⟨Nat.pos_of_ne_zero holds.present, ?_, placed, ?_⟩
    · rw [length]
      exact le_refl _
    · intro i inside
      have read := Image.mem_line holds.present (show i < img.line.len from length ▸ inside)
      rw [holds.bytes] at read
      exact read.trans (by simp [inside])
  obtain ⟨s, loops, adds⟩ := @bwUnits_adds img units _ (img.line.len + 1)
    (stateOk_startState tabOk_reset) ahead (by rw [length]; rfl)
    (room_startState holds.rowsFit holds.strsFit) (by omega)
  exact ⟨s, loops, adds.rows⟩

/-! ### Lookups -/

theorem Qsort.sort_nil (qsort : Qsort) : qsort.sort [] = [] := (qsort.perm []).eq_nil

theorem Qsort.arrangement (qsort : Qsort) (rows : List Row) :
    Arrangement Row.addr rows (qsort.sort rows) :=
  ⟨qsort.perm rows, qsort.sorted rows⟩

/-- The `qsort` that arranges these rows so. -/
def Qsort.pinned {rows arranged : List Row} (arrangement : Arrangement Row.addr rows arranged) :
    Qsort where
  sort others := if others = rows then arranged else others.insertionSort (KeyLe Row.addr)
  perm others := (arrangement.pinned _ others).perm
  sorted others := (arrangement.pinned _ others).sorted

/-- A parse of the section returns, with the rows that are kept of its units in the
order that `qsort` gives them. -/
theorem bwDwarfTabParse_section (holds : SectionOf img units) (tab : Tab) :
    ∃ built : Tab, built.textRows = keptRows units ∧ ∀ qsort : Qsort, ∃ value,
      bwDwarfTabParse img qsort (bwDwarfTabReset tab) =
        .returned value (built.sortedAs (qsort.sort built.rows)) := by
  obtain ⟨s, parsed, rows⟩ := bwParseUnits_section holds tab
  -- Rows that are not sorted are none.
  have unsorted : ∀ (none : Tab) (qsort : Qsort), none.rows = [] →
      none.sortedAs (qsort.sort none.rows) = none := by
    intro none qsort empty
    rw [empty, qsort.sort_nil, Tab.sortedAs, ← empty]
  refine ⟨s.tab, rows, ?_⟩
  intro qsort
  by_cases empty : img.line.len = 0
  · have started : bwParseUnits img (bwDwarfTabReset tab) =
        .ok () (startState img (bwDwarfTabReset tab)) :=
      bwUnits_done (by simp only [startState]; omega)
    rw [started] at parsed
    cases parsed
    refine ⟨false, ?_⟩
    rw [bwDwarfTabParse, if_pos (Or.inr empty), unsorted _ _ rfl]
    rfl
  · have present : ¬ (img.line.ptr = 0 ∨ img.line.len = 0) := not_or.mpr ⟨holds.present, empty⟩
    unfold bwDwarfTabParse
    rw [if_neg present, parsed]
    dsimp only
    by_cases none : s.tab.nrow = 0
    · rw [if_pos none, unsorted _ _ (List.length_eq_zero_iff.mp none)]
      exact ⟨false, rfl⟩
    · rw [if_neg none]
      exact ⟨true, rfl⟩

/-- Whatever the order of rows with equal addresses, and whatever was in the table,
a lookup after a parse says what the sequences of the section say, and nothing of
an address that none of them covers. -/
def LookupsSound (img : Image) (units : List (SectionUnit img)) (addr : Nat) : Prop :=
  ∀ (qsort : Qsort) (tab : Tab), ∃ value tab',
    bwDwarfTabParse img qsort (bwDwarfTabReset tab) = .returned value tab' ∧
      (∀ file line, bwDwarfTabLookup tab' addr = some (file, line) →
        ∃ u ∈ units, u.Gives addr file line) ∧
      ((∀ u ∈ units, ∀ sequence ∈ u.sequences, ¬ sequence.Covers addr) →
        bwDwarfTabLookup tab' addr = none)

/-- Each kept row at the top is what some lookup answers. -/
theorem LookupsSound.gives (holds : SectionOf img units) {addr : Nat}
    (sound : LookupsSound img units addr) {row : TextRow}
    (top : AtTop TextRow.addr (keptRows units) addr row) :
    ∃ u ∈ units, u.Gives addr row.file row.line := by
  obtain ⟨built, rows, parses⟩ := bwDwarfTabParse_section holds Tab.zeroed
  rw [← rows] at top
  obtain ⟨source, member, rfl⟩ := List.mem_map.mp top.mem
  obtain ⟨arranged, arrangement, found⟩ := bwDwarfTabLookup_atTop ((atTop_textRow member).mp top)
  obtain ⟨value, parsed⟩ := parses (.pinned arrangement)
  obtain ⟨value', tab', parsed', given, -⟩ := sound (.pinned arrangement) Tab.zeroed
  have pinned : (Qsort.pinned arrangement).sort built.rows = arranged := if_pos rfl
  rw [parsed, pinned] at parsed'
  cases parsed'
  exact given _ _ found

/-- Every lookup answers with a kept row at the top. -/
theorem lookupsSound_of_top (holds : SectionOf img units) {addr : Nat}
    (agree : ∀ row, AtTop TextRow.addr (keptRows units) addr row →
      ∃ u ∈ units, u.Gives addr row.file row.line) :
    LookupsSound img units addr := by
  intro qsort tab
  obtain ⟨built, rows, parses⟩ := bwDwarfTabParse_section holds tab
  obtain ⟨value, parsed⟩ := parses qsort
  refine ⟨value, _, parsed, ?_⟩
  rcases @bwDwarfTabLookup_arranged built addr _ (qsort.arrangement _) with
    ⟨missing, -⟩ | ⟨row, top, found⟩
  · rw [missing]
    exact ⟨fun _ _ answered => (nomatch answered), fun _ => rfl⟩
  · have kept : AtTop TextRow.addr (keptRows units) addr (built.textRow row) :=
      rows ▸ (atTop_textRow top.mem).mpr top
    have given := agree _ kept
    rw [found]
    constructor
    · intro file line answered
      cases answered
      exact given
    · intro uncovered
      obtain ⟨u, member, sequence, isSequence, covers, -⟩ := given
      exact absurd covers (uncovered u member sequence isSequence)

/-- A lookup says what the sequences say exactly when each row that is kept at the
greatest address not above the query does. -/
theorem bwDwarfTabLookup_sound_iff {img : Image} {units : List (SectionUnit img)}
    (holds : SectionOf img units) (addr : Nat) :
    LookupsSound img units addr ↔
      ∀ row, AtTop TextRow.addr (keptRows units) addr row →
        ∃ u ∈ units, u.Gives addr row.file row.line :=
  ⟨fun sound _ top => sound.gives holds top, lookupsSound_of_top holds⟩

/-- At an address that no sequence covers this means: unless all rows that are kept lie
above it, a lookup answers with the last row of some sequence that has ended. -/
theorem lookupsSound_uncovered_iff (holds : SectionOf img units) {addr : Nat}
    (uncovered : ∀ u ∈ units, ∀ sequence ∈ u.sequences, ¬ sequence.Covers addr) :
    LookupsSound img units addr ↔ ∀ row ∈ keptRows units, addr < row.addr := by
  constructor
  · intro sound row member
    obtain ⟨built, rows, parses⟩ := bwDwarfTabParse_section holds Tab.zeroed
    obtain ⟨value, parsed⟩ := parses stableQsort
    obtain ⟨value', tab', parsed', -, silent⟩ := sound stableQsort Tab.zeroed
    rw [parsed] at parsed'
    cases parsed'
    rw [← rows] at member
    obtain ⟨source, inTable, rfl⟩ := List.mem_map.mp member
    rcases @bwDwarfTabLookup_arranged built addr _ (stableQsort.arrangement _) with
      ⟨-, above⟩ | ⟨_, -, found⟩
    · exact above source inTable
    · cases (silent uncovered).symm.trans found
  · intro above
    apply lookupsSound_of_top holds
    intro row top
    exact absurd (above row top.mem) (not_lt_of_ge top.notAbove)

end Section

/-! ### A section of one unit -/

/-- `advance_pc 16`. -/
def advancedInsn : Insn smallHeader.coding where
  op := .advancePc 16
  bytes := [2, 16]
  encodes := .advancePc (by decide) (smallOperand 16 (by decide))

/-- One sequence, from `0x401000` to `0x401010`, with a row at its start. -/
def shortUnit : LineUnit where
  header := smallHeader
  program := [placedInsn, copyInsn, advancedInsn, endInsn]
  short := fun _ => by decide

theorem zero_small : (0 : UInt8).toNat < 128 := by decide

/-- The file `a`, in the directory of the compilation. -/
def smallFile : FileV2 :=
  { sampleFile 0 zero_small with
    name := [0x61]
    nonempty := List.cons_ne_nil _ _
    noNul := by decide }

def shortSection : SectionUnit shortUnit.alone where
  unit := shortUnit
  tables := .old ⟨[], [smallFile], nofun⟩ [] (by decide) (by decide) (by decide) (by decide)
  sums := by decide +kernel

theorem shortSection_holds : SectionOf shortUnit.alone [shortSection] where
  present := by decide
  bytes := by decide +kernel
  rowsFit := by decide +kernel
  strsFit := by decide +kernel

theorem shortSection_rows : keptRows [shortSection] = [⟨0x401000, [0x61], 1⟩] := by
  decide +kernel

theorem shortSection_sequences :
    shortSection.sequences = [⟨[⟨0x401000, 0, 1, 1⟩], 0x401010⟩] := by
  decide +kernel

/-- Inside the sequence a lookup is right. -/
theorem shortSection_inside : LookupsSound shortUnit.alone [shortSection] 0x401004 := by
  apply (bwDwarfTabLookup_sound_iff shortSection_holds 0x401004).mpr
  intro row top
  have member := top.mem
  rw [shortSection_rows, List.mem_singleton] at member
  subst member
  refine ⟨shortSection, List.mem_singleton_self _, ⟨[⟨0x401000, 0, 1, 1⟩], 0x401010⟩, ?_, ?_⟩
  · rw [shortSection_sequences]
    exact List.mem_singleton_self _
  · exact ⟨by decide, ⟨0x401000, 0, 1, 1⟩, by decide, by decide, rfl⟩

/-- The table that a parse leaves. -/
def ParseResult.tab : ParseResult → Tab
  | .returned _ tab => tab
  | .crashed _ tab => tab

/-- At its end, where no sequence covers the address, a lookup answers. -/
theorem shortSection_end : SectionOf shortUnit.alone [shortSection] ∧
    ¬ LookupsSound shortUnit.alone [shortSection] 0x401010 ∧
      ∃ tab', bwDwarfTabParse shortUnit.alone stableQsort (bwDwarfTabReset Tab.zeroed) =
          .returned true tab' ∧
        bwDwarfTabLookup tab' 0x401010 = some ([0x61], 1) := by
  have uncovered : ∀ u ∈ [shortSection], ∀ sequence ∈ u.sequences, ¬ sequence.Covers 0x401010 := by
    intro u member sequence isSequence
    rw [List.mem_singleton.mp member, shortSection_sequences] at isSequence
    rw [List.mem_singleton.mp isSequence]
    decide
  refine ⟨shortSection_holds, ?_, ?_⟩
  · intro sound
    have above := (lookupsSound_uncovered_iff shortSection_holds uncovered).mp sound
    rw [shortSection_rows] at above
    exact absurd (above _ (List.mem_singleton_self _)) (by decide)
  · have succeeded : (bwDwarfTabParse shortUnit.alone stableQsort
        (bwDwarfTabReset Tab.zeroed)).succeeded = true := by
      decide +kernel
    have answered : bwDwarfTabLookup (bwDwarfTabParse shortUnit.alone stableQsort
        (bwDwarfTabReset Tab.zeroed)).tab 0x401010 = some ([0x61], 1) := by
      decide +kernel
    obtain ⟨tab', parsed⟩ := ParseResult.eq_returned succeeded
    rw [parsed] at answered
    exact ⟨tab', parsed, answered⟩

end Backwalk.DwarfLine
