import Backwalk.DwarfLine.ProgramOverrun

/-!
Contract: when what a unit contributes depends on its own bytes only.

Reads are checked against the end of the section and not against the end of the
unit. Where the end of the unit would refuse one, the section may go on with a
byte, and the unit with it. That shows in the rows exactly if a row is taken
after such a read.
-/

namespace Backwalk.DwarfLine

open Backwalk.Support

/-! ### Units in a section -/

/-- The state in which the unit at `offset` of the section is parsed, over the
table `tab`. -/
def unitStart (img : Image) (offset : Nat) (tab : Tab) : State :=
  ⟨tab, ⟨img.line.ptr + offset, img.line.ptr + img.line.len, false⟩, [], [tab]⟩

/-- The rows that `bw_parse_unit` contributes for the unit at `offset`. -/
def unitRows (img : Image) (offset : Nat) (tab : Tab) : List TextRow :=
  (stateAfter (bwParseUnit img) (unitStart img offset tab)).tab.textRows.drop tab.nrow

/-- A unit as a section of its own: its `unit_length` covers the rest of it, and
nothing is mapped before it and right behind it. -/
structure LoneUnit (unit : Image) : Prop where
  present : unit.line.ptr ≠ 0
  exact : Header.Exact unit.lineBytes
  before : ∀ addr < unit.line.ptr, unit.mem addr = none
  behind : unit.mem (unit.line.ptr + unit.line.len) = none

/-- The unit is at `offset` of a section, at the same address, and the section
goes on behind it. -/
structure Continues (unit whole : Image) (offset : Nat) : Prop where
  kin : Kin unit whole
  kinBack : Kin whole unit
  present : whole.line.ptr ≠ 0
  address : whole.line.ptr + offset = unit.line.ptr
  bytes : unit.lineBytes <+: whole.lineBytes.drop offset

/-- Where the tables of a unit were read to. -/
def tablesEnd (img : Image) (s : State) : Nat := (stateAfter (bwUnitTables img) s).cur.p

/-- The unit between `start` and `stop` takes no row once a byte outside it has
been read: none in a program that is run from before the unit or after the tables
were read to a place outside it, and none behind an instruction with operands
from behind it. -/
structure Secluded (img : Image) (s : State) (start stop : Nat) : Prop where
  header : ∀ program, programOf img s = some program →
    (program.prologue.prog < start ∨ tablesEnd img s < start ∨ stop < tablesEnd img s) →
      ∀ visit ∈ program.visits img, ¬ TakesRow img program visit
  operands : ∀ program, programOf img s = some program →
    SilentBehind img program stop (program.visits img)

section Units

variable {img : Image} {s : State} {program : Program}

theorem stateOk_unitStart {offset : Nat} {tab : Tab} (ok : TabOk tab) :
    StateOk (unitStart img offset tab) where
  tab := ok
  tabs := fun _ member => List.mem_singleton.mp member ▸ ok
  later := fun _ member => List.mem_singleton.mp member ▸ Extends.refl tab
  chain := List.pairwise_singleton _ _

theorem programOf_of_tables {prologue : Prologue} {files : Files} {t : State}
    (ended : bwUnitTables img s = .ok (some (prologue, files)) t) :
    programOf img s = some ⟨prologue, files, { t with cur := { t.cur with p := prologue.prog } }⟩ ∧
      tablesEnd img s = t.cur.p := by
  refine ⟨?_, by rw [tablesEnd, stateAfter_of_ok ended]⟩
  obtain ⟨opening, s₁, opened, rest⟩ := bind_eq_ok.mp ended
  cases opening with
  | skip unitEnd headerEnd prog => cases rest
  | go found =>
      obtain ⟨files', s₂, tables, done⟩ := bind_eq_ok.mp rest
      cases done
      exact programOf_eq_some.mpr ⟨s₁, t, opened, tables, rfl⟩

theorem tables_of_programOf (entered : programOf img s = some program) :
    ∃ t, bwUnitTables img s = .ok (some (program.prologue, program.files)) t := by
  obtain ⟨s₁, s₂, opened, tables, -⟩ := programOf_eq_some.mp entered
  refine ⟨s₂, ?_⟩
  rw [bwUnitTables, bind_of_ok opened, bwOpeningTables, bind_of_ok tables]
  rfl

theorem programOf_of_missed (missed : ∀ prologue files t,
    bwUnitTables img s ≠ .ok (some (prologue, files)) t) : programOf img s = none := by
  cases entered : programOf img s with
  | none => rfl
  | some program =>
      obtain ⟨t, tables⟩ := tables_of_programOf entered
      exact absurd tables (missed _ _ _)

theorem bwUnitTables_benign {why : Stop} {t : State} (ok : StateOk s)
    (stopped : bwUnitTables img s = .error why t) : Benign why := by
  rcases bind_eq_error.mp stopped with early | ⟨opening, s₁, opened, late⟩
  · exact ((bwPrologue_safe ok).error early).2
  · have ok₁ := ((bwPrologue_safe ok).ok opened).1
    cases opening with
    | skip unitEnd headerEnd prog => cases late
    | go prologue =>
        rcases bind_eq_error.mp late with early | ⟨_, _, _, done⟩
        · exact ((bwTables_safe ok₁).error early).2
        · cases done

/-- The rows of a unit are those that the table has more. -/
theorem unitRows_length {offset : Nat} {tab : Tab} :
    (unitRows img offset tab).length =
      (stateAfter (bwParseUnit img) (unitStart img offset tab)).tab.nrow - tab.nrow := by
  rw [unitRows, List.length_drop, Tab.textRows, List.length_map, Tab.nrow, Tab.nrow]

theorem unitRows_more (img : Image) (offset : Nat) (tab : Tab) :
    tab.rows <+: (stateAfter (bwParseUnit img) (unitStart img offset tab)).tab.rows := by
  have grown : Grown img (unitStart img offset tab)
    (stateAfter (bwParseUnit img) (unitStart img offset tab)) := Develops.after _
  exact grown.tab.rows

theorem unitRows_eq_nil_iff {offset : Nat} {tab : Tab} :
    unitRows img offset tab = [] ↔
      (stateAfter (bwParseUnit img) (unitStart img offset tab)).tab.rows = tab.rows := by
  have more := unitRows_more img offset tab
  rw [← List.length_eq_zero_iff, unitRows_length, Nat.sub_eq_zero_iff_le]
  constructor
  · intro short
    exact (more.eq_of_length (Nat.le_antisymm more.length_le short)).symm
  · intro same
    rw [Tab.nrow, same]
    exact Nat.le_refl _

theorem unitRows_of_none {offset : Nat} {tab : Tab}
    (missed : programOf img (unitStart img offset tab) = none) : unitRows img offset tab = [] :=
  unitRows_eq_nil_iff.mpr (bwParseUnit_of_none missed)

/-- A program without rows is secluded anyhow. -/
theorem Secluded.of_drops {start stop : Nat} (drops : TakesNone img s) :
    Secluded img s start stop :=
  ⟨fun program entered _ => drops program entered,
    fun program entered => silentBehind_of_drops (drops program entered)⟩

end Units

/-! ### The unit by itself -/

section Isolation

variable {unit whole : Image} {offset : Nat} {tab : Tab}

theorem LoneUnit.nonempty (lone : LoneUnit unit) : 0 < unit.line.len := by
  have exact := lone.exact
  rw [Header.Exact, Image.lineBytes_length] at exact
  have far := Header.versionOff_pos unit.lineBytes
  omega

theorem Continues.within (continues : Continues unit whole offset) (lone : LoneUnit unit) :
    Within unit whole offset :=
  ⟨continues.kin, lone.present, continues.present, continues.bytes⟩

/-- The unit by itself goes on with nothing. -/
theorem LoneUnit.continues (lone : LoneUnit unit) : Continues unit unit 0 where
  kin := ⟨rfl, fun _ _ => ⟨Iff.rfl, rfl, fun _ _ _ found => found⟩⟩
  kinBack := ⟨rfl, fun _ _ => ⟨Iff.rfl, rfl, fun _ _ _ found => found⟩⟩
  present := lone.present
  address := rfl
  bytes := List.prefix_refl _

/-- The unit by itself, and in the section. -/
def Continues.placement (continues : Continues unit whole offset) (lone : LoneUnit unit) :
    Placement :=
  (continues.within lone).placement lone.nonempty [] 0

theorem Continues.alone (continues : Continues unit whole offset) (lone : LoneUnit unit) :
    (continues.placement lone).Alone where
  same := continues.address.symm
  base := rfl
  shift := rfl
  above := lone.behind
  strings := continues.kinBack.strings

theorem Continues.moved (continues : Continues unit whole offset) (lone : LoneUnit unit)
    (tabOk : TabOk tab) :
    (continues.placement lone).Moved (unitStart unit 0 tab) (unitStart whole offset tab) := by
  refine ⟨stateOk_unitStart tabOk, rfl, le_refl _, Nat.le_add_right _ _, ?_, ?_, rfl,
    fun _ _ => rfl⟩
  · rw [(continues.alone lone).move_eq]
    simp only [unitStart, placement, Within.placement, continues.address, Nat.add_zero]
  · have unshifted : (continues.placement lone).shiftRow = id := rfl
    rw [unshifted, List.map_id]
    rfl

theorem Continues.contained (continues : Continues unit whole offset) (lone : LoneUnit unit) :
    (continues.placement lone).Contained (unitStart unit 0 tab) :=
  ⟨rfl, le_refl _, Nat.le_add_right _ _, fun _ member => nomatch member⟩

theorem onLine_unitStart : OnLine unit 0 false (unitStart unit 0 tab) :=
  ⟨rfl, Nat.zero_le _⟩

/-- The length field is not refused. -/
theorem LoneUnit.length (lone : LoneUnit unit) {why : Stop} {s : State}
    (stopped : bwUnitTables unit (unitStart unit 0 tab) = .error why s) (refused : Refused why) :
    ∃ ends t, bwUnitLength unit (unitStart unit 0 tab) = .ok ends t := by
  have start : OnLine unit 0 false (unitStart unit 0 tab) := onLine_unitStart
  have field := bwUnitLength_field lone.present
    (show unit.lineBytes = unit.lineBytes.drop 0 from rfl) start
  cases read : bwUnitLength unit (unitStart unit 0 tab) with
  | ok ends t => exact ⟨ends, t, rfl⟩
  | error other t =>
      cases stopped.symm.trans (bind_of_error (bind_of_error read))
      rcases field.error read with ⟨rfl, -⟩ | ⟨-, short⟩
      · rcases refused with other | ⟨_, other⟩ <;> cases other
      · exact absurd lone.exact.le (Nat.not_le_of_lt short)

/-- The unit end is the end of the section. -/
theorem LoneUnit.unitEnd (lone : LoneUnit unit) {prologue : Prologue} {s : State}
    (opened : bwPrologue unit (unitStart unit 0 tab) = .ok (.go prologue) s) :
    prologue.unitEnd = unit.line.ptr + unit.line.len := by
  have ends := (unit.linePlaced lone.present).1
  have computed := (bwPrologue_computed lone.present (List.drop_zero).symm onLine_unitStart
    opened).unitEnd
  have exact := lone.exact
  rw [Header.Exact, Image.lineBytes_length] at exact
  rw [computed, Image.size, Nat.mod_eq_of_lt (by omega)]
  omega

theorem unitRows_eq_nil_iff_drops {program : Program} (tabOk : TabOk tab)
    (continues : Continues unit whole offset) (lone : LoneUnit unit)
    (entered : programOf whole (unitStart whole offset tab) = some program) :
    unitRows whole offset tab = [] ↔
      ∀ visit ∈ program.visits whole, ¬ TakesRow whole program visit :=
  unitRows_eq_nil_iff.trans
    (bwParseUnit_rows_iff (stateOk_unitStart tabOk) (continues.moved lone tabOk).inside_two entered)

/-- A program that begins before the unit takes no row in the unit by itself. -/
theorem LoneUnit.drops_before (lone : LoneUnit unit) {program : Program}
    (start : program.start.cur.p = program.prologue.prog)
    (before : program.prologue.prog < unit.line.ptr) :
    ∀ visit ∈ program.visits unit, ¬ TakesRow unit program visit := by
  obtain ⟨why, t, refused⟩ : ∃ why t, bwU8 unit program.start = .error why t := by
    rw [bwU8, bwUint_run, peek, start, lone.before _ before]
    split_ifs
    · exact ⟨_, _, rfl⟩
    · exact ⟨_, _, rfl⟩
  have silent : emitted unit program.prologue ⟨Regs.init, program.start⟩ = none := by
    unfold emitted
    rw [refused]
  have stopped : bwOpcode unit program.prologue program.files Regs.init program.start =
      .error why t := bind_of_error refused
  intro visit member
  rw [Program.visits] at member
  by_cases inUnit : program.start.cur.p < program.prologue.unitEnd
  · rw [opcodeVisits_of_error inUnit stopped, List.mem_singleton] at member
    rintro ⟨regs, emits, -⟩
    rw [member, silent] at emits
    cases emits
  · rw [opcodeVisits_done inUnit] at member
    cases member

theorem Placement.Alike.textRows {w : Placement} {tab tab' : Tab} (alike : w.Alike tab tab')
    (alone : w.Alone) : tab'.textRows = tab.textRows := by
  obtain ⟨s, t, related, rfl, rfl⟩ := alike
  have limit : t.tab.nstr ≤ bwDwarfStrMax := by
    rw [related.nstr, alone.shift]
    exact related.ok.tab.nstr
  rw [related.textRows limit, alone.base]
  rfl

/-- A unit that comes to its program by itself comes to the same program in the
section. What it contributes there is what it contributes by itself iff it is
secluded. -/
theorem unitRows_of_entered {prologue : Prologue} {files : Files} {s : State}
    (tabOk : TabOk tab) (lone : LoneUnit unit) (continues : Continues unit whole offset)
    (tables : bwUnitTables unit (unitStart unit 0 tab) = .ok (some (prologue, files)) s) :
    unitRows whole offset tab = unitRows unit 0 tab ↔
      Secluded whole (unitStart whole offset tab) unit.line.ptr
        (unit.line.ptr + unit.line.len) := by
  have alone := continues.alone lone
  have start := continues.moved lone tabOk
  have contained := bwUnitTables_contained alone (continues.contained lone) tables
  obtain ⟨_, t, tablesTwo, related, rfl⟩ :=
    (bwUnitTables_follows alone start).ok tables (contained.fits alone)
  obtain ⟨enteredOne, -⟩ := programOf_of_tables tables
  obtain ⟨enteredTwo, placeTwo⟩ :=
    programOf_of_tables (show bwUnitTables whole _ = _ from tablesTwo)
  obtain ⟨prologueOk, runningOne⟩ := programOf_running start.ok start.inside enteredOne
  obtain ⟨-, runningTwo⟩ := programOf_running (stateOk_unitStart tabOk) start.inside_two enteredTwo
  by_cases before : prologue.prog < unit.line.ptr
  · have drops := @LoneUnit.drops_before unit lone
      ⟨prologue, files, { s with cur := { s.cur with p := prologue.prog } }⟩ rfl before
    rw [(unitRows_eq_nil_iff_drops tabOk lone.continues lone enteredOne).mpr drops,
      unitRows_eq_nil_iff_drops tabOk continues lone enteredTwo]
    constructor
    · intro dropsTwo
      refine Secluded.of_drops fun program entered => ?_
      cases enteredTwo.symm.trans entered
      exact dropsTwo
    · intro secluded
      exact secluded.header _ enteredTwo (Or.inl before)
  · have unitEnd : prologue.unitEnd = unit.line.ptr + unit.line.len := by
      obtain ⟨s₁, s₂, opened, -, -⟩ := programOf_eq_some.mp enteredOne
      exact lone.unitEnd opened
    have stop : whole.line.ptr + offset + unit.line.len = unit.line.ptr + unit.line.len := by
      rw [continues.address]
    have inUnit : prologue.prog ≤ unit.line.ptr + unit.line.len := by
      obtain ⟨s₁, s₂, opened, -, -⟩ := programOf_eq_some.mp enteredOne
      exact unitEnd ▸ ((bwPrologue_safe start.ok).ok opened).2.2
    have atProg := related.setP (Nat.le_of_not_lt before) inUnit
    rw [alone.move_eq] at atProg
    have runs := @loop_lockstep _ _ _
      ⟨prologue, files, { t with cur := { t.cur with p := prologue.prog } }⟩
      (prologue.unitEnd - prologue.prog + 1) Regs.init alone prologueOk unitEnd (Or.inl atProg)
      contained.scans runningOne.files runningTwo.files
    have tabOne := bwParseUnit_tab enteredOne
    have tabTwo := bwParseUnit_tab enteredTwo
    have sameTables : t.cur.p = s.cur.p := by rw [related.cur, alone.move_eq]
    rcases runs with ⟨silent, alike⟩ | ⟨loud, more⟩
    · have same : unitRows whole offset tab = unitRows unit 0 tab := by
        rw [unitRows, unitRows, tabOne, tabTwo]
        exact congrArg (List.drop tab.nrow) (alike.textRows alone)
      refine iff_of_true same ⟨fun program entered outside => ?_, fun program entered => ?_⟩
      · cases enteredTwo.symm.trans entered
        rw [placeTwo, sameTables] at outside
        rcases outside with early | early | late
        · exact absurd early before
        · exact absurd early (Nat.not_lt.mpr contained.start)
        · exact absurd late (Nat.not_lt.mpr contained.within)
      · cases enteredTwo.symm.trans entered
        rw [← stop]
        exact silent
    · refine iff_of_false (fun same => ?_) fun secluded => ?_
      · have lengths := congrArg List.length same
        have least := (unitRows_more unit 0 tab).length_le
        rw [unitRows_length, unitRows_length, tabOne, tabTwo] at lengths
        rw [tabOne] at least
        unfold Tab.nrow at lengths more
        have grows : ∀ {base one two : Nat}, base ≤ one → one < two → two - base ≠ one - base := by
          omega
        exact grows least more lengths
      · have silent := secluded.operands _ enteredTwo
        rw [← stop] at silent
        exact loud silent

/-- A unit that does not come to its program by itself contributes nothing. It
contributes nothing in the section iff it is secluded there. -/
theorem unitRows_of_refused {why : Stop} {s : State} (tabOk : TabOk tab) (lone : LoneUnit unit)
    (continues : Continues unit whole offset)
    (stopped : bwUnitTables unit (unitStart unit 0 tab) = .error why s) (refused : Refused why) :
    unitRows whole offset tab = [] ↔
      Secluded whole (unitStart whole offset tab) unit.line.ptr
        (unit.line.ptr + unit.line.len) := by
  have alone := continues.alone lone
  have start := continues.moved lone tabOk
  cases entered : programOf whole (unitStart whole offset tab) with
  | none =>
      refine iff_of_true (unitRows_of_none entered) (Secluded.of_drops fun program reached => ?_)
      cases entered.symm.trans reached
  | some program =>
      obtain ⟨t, tablesTwo⟩ := tables_of_programOf entered
      obtain ⟨ends, s₁, length⟩ := lone.length stopped refused
      have outside := bwUnitTables_overruns alone start (continues.contained lone) length stopped
        refused (show bwUnitTables (continues.placement lone).two _ = _ from tablesTwo)
      have place : tablesEnd whole (unitStart whole offset tab) = t.cur.p := by
        rw [tablesEnd, stateAfter_of_ok tablesTwo]
      have left : t.cur.p < unit.line.ptr ∨ unit.line.ptr + unit.line.len < t.cur.p := by
        rcases outside with wrapped | ⟨past, -⟩
        · exact Or.inl (wrapped ▸ Nat.pos_of_ne_zero lone.present)
        · exact Or.inr (continues.address ▸ past)
      rw [unitRows_eq_nil_iff_drops tabOk continues lone entered]
      constructor
      · intro drops
        refine Secluded.of_drops fun program' reached => ?_
        cases entered.symm.trans reached
        exact drops
      · intro secluded
        exact secluded.header program entered (Or.inr (place ▸ left))

/-- What a unit contributes in a section is what it contributes by itself iff it
is secluded there. -/
theorem unitRows_followed_iff (tabOk : TabOk tab) (lone : LoneUnit unit)
    (continues : Continues unit whole offset) :
    unitRows whole offset tab = unitRows unit 0 tab ↔
      Secluded whole (unitStart whole offset tab) unit.line.ptr
        (unit.line.ptr + unit.line.len) := by
  have alone := continues.alone lone
  have start := continues.moved lone tabOk
  have follows := bwUnitTables_follows alone start
  have neither : programOf unit (unitStart unit 0 tab) = none →
      programOf whole (unitStart whole offset tab) = none →
        (unitRows whole offset tab = unitRows unit 0 tab ↔
          Secluded whole (unitStart whole offset tab) unit.line.ptr
            (unit.line.ptr + unit.line.len)) := by
    intro missedOne missedTwo
    refine iff_of_true ?_ (Secluded.of_drops fun program reached => ?_)
    · rw [unitRows_of_none missedOne, unitRows_of_none missedTwo]
    · cases missedTwo.symm.trans reached
  cases tables : bwUnitTables unit (unitStart unit 0 tab) with
  | ok found s =>
      cases found with
      | some reached => exact unitRows_of_entered tabOk lone continues tables
      | none =>
          have contained := bwUnitTables_contained alone (continues.contained lone) tables
          obtain ⟨_, t, tablesTwo, -, rfl⟩ := follows.ok tables (contained.fits alone)
          exact neither (programOf_of_missed fun _ _ _ other => by cases tables.symm.trans other)
            (programOf_of_missed fun _ _ _ other => by cases tablesTwo.symm.trans other)
  | error why s =>
      have missedOne : programOf unit (unitStart unit 0 tab) = none :=
        programOf_of_missed fun _ _ _ other => by cases tables.symm.trans other
      rcases (bwUnitTables_benign start.ok tables).cases with rfl | refused
      · have scans := bwUnitTables_rejected alone (continues.contained lone) tables
        obtain ⟨t, tablesTwo, -⟩ := follows.error tables
          ⟨Or.inl alone.shift, Or.inl alone.base, scans⟩ fun excused => excused rfl
        exact neither missedOne
          (programOf_of_missed fun _ _ _ other => by cases tablesTwo.symm.trans other)
      · rw [unitRows_of_none missedOne]
        exact unitRows_of_refused tabOk lone continues tables refused

/-- A unit that by itself is refused nothing contributes the same rows in the
section. -/
theorem unitRows_followed {exit : UnitExit} {s : State} (tabOk : TabOk tab) (lone : LoneUnit unit)
    (continues : Continues unit whole offset)
    (parsed : bwParseUnit unit (unitStart unit 0 tab) = .ok exit s)
    (program : exit.exit ≠ some .short) (start : unit.line.ptr ≤ exit.prog)
    (scans : ScansWithin unit s) : unitRows whole offset tab = unitRows unit 0 tab := by
  have alone := continues.alone lone
  obtain ⟨exit', t, parsedTwo, related⟩ := bwParseUnit_moves (continues.moved lone tabOk) parsed
    (Or.inl ⟨alone.same, fun _ => start⟩) program ⟨Or.inl rfl, Or.inl rfl, scans⟩
  have alike : (continues.placement lone).Alike s.tab t.tab := ⟨s, t, related, rfl, rfl⟩
  rw [unitRows, unitRows, stateAfter_of_ok parsed,
    stateAfter_of_ok (show bwParseUnit whole _ = _ from parsedTwo), alike.textRows alone]

end Isolation

/-- What a unit contributes, over any table, does not depend on what is around it
iff, whatever that is, no row is taken once a byte outside the unit has been
read. -/
theorem unitRows_isolated_iff (unit : Image) (tab : Tab) (tabOk : TabOk tab)
    (lone : LoneUnit unit) :
    (∀ one two offset₁ offset₂, Continues unit one offset₁ → Continues unit two offset₂ →
        unitRows one offset₁ tab = unitRows two offset₂ tab) ↔
      ∀ whole offset, Continues unit whole offset →
        Secluded whole (unitStart whole offset tab) unit.line.ptr
          (unit.line.ptr + unit.line.len) := by
  constructor
  · intro isolated whole offset continues
    exact (unitRows_followed_iff tabOk lone continues).mp
      (isolated whole unit offset 0 continues lone.continues)
  · intro secluded one two offset₁ offset₂ continues₁ continues₂
    rw [(unitRows_followed_iff tabOk lone continues₁).mpr (secluded one offset₁ continues₁),
      (unitRows_followed_iff tabOk lone continues₂).mpr (secluded two offset₂ continues₂)]

theorem loneUnit_lineImage {bytes : List UInt8} (small : bytes.length ≤ 2 ^ 32)
    (exact : Header.Exact bytes) : LoneUnit (lineImage bytes) where
  present := by simp [lineImage]
  exact := by rwa [lineImage_lineBytes small]
  before := fun addr before => if_neg (Nat.not_le_of_lt before)
  behind := by
    have length : (lineImage bytes).line.len = bytes.length := Nat.min_eq_left small
    rw [length]
    simp [lineImage, memAt]

/-- Its program ends at its end, and nothing behind it was read. -/
theorem unitV2_contained :
    (match bwParseUnit (lineImage unitV2) (unitStart (lineImage unitV2) 0 Tab.zeroed) with
    | .ok exit s => decide (exit.exit ≠ some .short ∧ (lineImage unitV2).line.ptr ≤ exit.prog ∧
        ScansWithin (lineImage unitV2) s)
    | .error _ _ => false) = true := by
  decide +kernel

/-- A whole unit is secluded. -/
theorem unitV2_secluded : LoneUnit (lineImage unitV2) ∧
    ∀ whole offset, Continues (lineImage unitV2) whole offset →
      Secluded whole (unitStart whole offset Tab.zeroed) 0x10000 (0x10000 + 40) := by
  have lone : LoneUnit (lineImage unitV2) := loneUnit_lineImage (by decide) (by decide)
  obtain ⟨exit, s, parsed, program, start, scans⟩ : ∃ exit s,
      bwParseUnit (lineImage unitV2) (unitStart (lineImage unitV2) 0 Tab.zeroed) = .ok exit s ∧
        exit.exit ≠ some .short ∧ (lineImage unitV2).line.ptr ≤ exit.prog ∧
          ScansWithin (lineImage unitV2) s := by
    have run := unitV2_contained
    cases parsed : bwParseUnit (lineImage unitV2) (unitStart (lineImage unitV2) 0 Tab.zeroed) with
    | ok exit s => rw [parsed] at run; exact ⟨exit, s, rfl, of_decide_eq_true run⟩
    | error why s => rw [parsed] at run; cases run
  refine ⟨lone, (unitRows_isolated_iff (lineImage unitV2) Tab.zeroed tabOk_zeroed lone).mp
    fun one two offset₁ offset₂ continues₁ continues₂ => ?_⟩
  rw [unitRows_followed tabOk_zeroed lone continues₁ parsed program start scans,
    unitRows_followed tabOk_zeroed lone continues₂ parsed program start scans]

/-- A version 2 unit whose program is `set_address`, with a length that covers
the opcode and no operand, and `copy`. -/
def leakUnit : List UInt8 :=
  [25, 0, 0, 0, 2, 0, 15, 0, 0, 0, 1, 1, 0, 4, 4, 0, 1, 1, 0, 0x61, 0, 0, 0, 0, 0, 0, 1, 2, 1]

/-- Its `unit_length` covers the rest of it, and the address of its row is read
from what follows. -/
theorem leakUnit_not_isolated :
    leNat (leakUnit.take 4) = (leakUnit.drop 4).length ∧
    unitRows (lineImage (leakUnit ++ [0x10, 0, 0, 0, 0, 0, 0])) 0 Tab.zeroed =
      [⟨0x1001, [0x61], 1⟩] ∧
    unitRows (lineImage (leakUnit ++ [0x20, 0, 0, 0, 0, 0, 0])) 0 Tab.zeroed =
      [⟨0x2001, [0x61], 1⟩] := by
  refine ⟨?_, ?_, ?_⟩
  · decide
  · decide +kernel
  · decide +kernel

end Backwalk.DwarfLine
