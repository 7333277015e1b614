import Backwalk.DwarfLine.Calls
import Backwalk.DwarfLine.UnitRelocation

/-!
Contract: what a line section contributes, unit by unit.

Owns the rows of a table as text, the rows that a parse builds from a section
before it sorts them, well-formed units in sections of their own, and the
composition of such units: parsed one after the other in one section they
build what each of them builds alone.
-/

namespace Backwalk.DwarfLine

open Backwalk.Support

/-! ### Rows as text -/

/-- A row with the text of its file name. -/
structure TextRow where
  addr : Nat
  file : List UInt8
  line : Nat
deriving DecidableEq, Repr

def Tab.textRow (tab : Tab) (row : Row) : TextRow := ⟨row.addr, tab.text row.nameOff, row.line⟩

def Tab.textRows (tab : Tab) : List TextRow := tab.rows.map tab.textRow

/-- The rows that `bw_dwarf_tab_parse` builds before it sorts them, `none` if
the process is killed. -/
def builtRows (img : Image) (tab : Tab) : Option (List TextRow) :=
  if img.line.ptr = 0 ∨ img.line.len = 0 then some tab.textRows
  else
    match bwParseUnits img tab with
    | .ok _ s => some s.tab.textRows
    | .error _ _ => none

/-- A parse that returns leaves the rows it has built, in some order. -/
theorem bwDwarfTabParse_perm {img : Image} {qsort : Qsort} {tab tab' : Tab} {value : Bool}
    (parsed : bwDwarfTabParse img qsort tab = .returned value tab') :
    ∃ rows, builtRows img tab = some rows ∧ tab'.textRows.Perm rows := by
  unfold bwDwarfTabParse at parsed
  unfold builtRows
  split_ifs at parsed ⊢ with absent
  · cases parsed
    exact ⟨_, rfl, List.Perm.refl _⟩
  · cases ended : bwParseUnits img tab with
    | error why s => rw [ended] at parsed; cases parsed
    | ok _ s =>
        rw [ended] at parsed
        refine ⟨_, rfl, ?_⟩
        dsimp only at parsed
        split_ifs at parsed with none
        · cases parsed
          exact List.Perm.refl _
        · cases parsed
          exact (qsort.perm _).map _

/-- Rows keep their text while the table grows. -/
theorem textRows_of_extends {tab tab' : Tab} (more : Extends tab tab') (ok : TabOk tab) :
    tab.rows.map tab'.textRow = tab.textRows := by
  refine List.map_congr_left fun row member => ?_
  rw [Tab.textRow, Tab.textRow, text_of_extends more ok.nstr (ok.rows row member).name]

/-! ### Bytes of a section -/

/-- The bytes of the line section. -/
def Image.lineBytes (img : Image) : List UInt8 :=
  (List.range img.line.len).map fun index => (img.mem (img.line.ptr + index)).getD 0

@[simp]
theorem Image.lineBytes_length (img : Image) : img.lineBytes.length = img.line.len := by
  simp [lineBytes]

theorem Image.mem_line {img : Image} {index : Nat} (present : img.line.ptr ≠ 0)
    (below : index < img.line.len) :
    img.mem (img.line.ptr + index) = some (img.lineBytes.getD index 0) := by
  obtain ⟨byte, there⟩ := Option.isSome_iff_exists.mp ((img.linePlaced present).2 index below)
  simp [lineBytes, below, there]

/-- Two images with the same pointers and the same strings around their line
sections. -/
structure Kin (one two : Image) : Prop where
  bits : two.bits = one.bits
  strings : ∀ sec, sec ≠ .line → SameStrings one two sec

/-- The bytes of the section `one` are in the section `two`, from `offset` on. -/
structure Within (one two : Image) (offset : Nat) : Prop where
  kin : Kin one two
  presentOne : one.line.ptr ≠ 0
  presentTwo : two.line.ptr ≠ 0
  bytes : one.lineBytes <+: two.lineBytes.drop offset

namespace Within

variable {one two : Image} {offset : Nat}

theorem fits (within : Within one two offset) (some : 0 < one.line.len) :
    offset + one.line.len ≤ two.line.len := by
  have short := within.bytes.length_le
  simp only [Image.lineBytes_length, List.length_drop] at short
  omega

theorem mem (within : Within one two offset) {index : Nat} (below : index < one.line.len) :
    two.mem (two.line.ptr + offset + index) = one.mem (one.line.ptr + index) := by
  have fits := within.fits (by omega)
  have same := within.bytes.getElem (by simpa using below)
  rw [Nat.add_assoc, Image.mem_line within.presentTwo (by omega),
    Image.mem_line within.presentOne below]
  rw [List.getElem_drop] at same
  have belowOne : index < one.lineBytes.length := by simpa using below
  have belowTwo : offset + index < two.lineBytes.length := by
    rw [Image.lineBytes_length]
    omega
  simp only [List.getD_eq_getElem?_getD, Option.some.injEq]
  rw [List.getElem?_eq_getElem belowOne, List.getElem?_eq_getElem belowTwo, same]

/-- The placement of a unit in a larger section, after `base` and `shift` bytes
of strings. -/
def placement (within : Within one two offset) (some : 0 < one.line.len) (base : List Row)
    (shift : Nat) : Placement where
  one := one
  two := two
  src := one.line.ptr
  dst := two.line.ptr + offset
  len := one.line.len
  lim := two.line.ptr + two.line.len
  base := base
  shift := shift
  bits := within.kin.bits
  srcPos := Nat.pos_of_ne_zero within.presentOne
  dstPos := by
    have := within.presentTwo
    omega
  srcFits := (one.linePlaced within.presentOne).1
  dstFits := by
    have := within.fits some
    omega
  limFits := within.kin.bits ▸ (two.linePlaced within.presentTwo).1
  bytes := fun _ below => within.mem below
  mapped := fun addr start below => by
    have mapped := (two.linePlaced within.presentTwo).2 (addr - two.line.ptr) (by omega)
    rwa [show two.line.ptr + (addr - two.line.ptr) = addr by omega] at mapped
  strings := within.kin.strings

end Within

/-! ### Rows in another table -/

section Moved

variable {w : Placement} {s t : State}

theorem Placement.Moved.text {off : Nat} (related : w.Moved s t) (ok : OffOk s.tab off)
    (limit : t.tab.nstr ≤ bwDwarfStrMax) : t.tab.text (off + w.shift) = s.tab.text off := by
  rw [Tab.text, Tab.text, related.cstr ok limit]

/-- The rows of the first table are the last rows of the second. -/
theorem Placement.Moved.textRows (related : w.Moved s t) (limit : t.tab.nstr ≤ bwDwarfStrMax) :
    t.tab.textRows = w.base.map t.tab.textRow ++ s.tab.textRows := by
  rw [Tab.textRows, related.rows, List.map_append, List.map_map, Tab.textRows]
  congr 1
  refine List.map_congr_left fun row member => ?_
  simp only [Function.comp_apply, Tab.textRow, Placement.shiftRow, TextRow.mk.injEq, true_and,
    and_true]
  exact related.text (related.ok.tab.rows row member).name limit

end Moved

/-! ### The unit loop -/

section Loop

variable {img : Image} {s t : State} {fuel : Nat}

theorem bwUnits_done (atEnd : ¬ s.cur.p < s.cur.endp) : bwUnits img (fuel + 1) s = .ok () s := by
  unfold bwUnits
  exact if_neg atEnd

theorem bwUnits_of_ok {exit : UnitExit} (more : s.cur.p < s.cur.endp)
    (unit : bwParseUnit img s = .ok exit t) : bwUnits img (fuel + 1) s = bwUnits img fuel t := by
  conv => lhs; unfold bwUnits
  rw [if_pos more, unit]

/-- The rows of a parse that answers, the one of an empty section included. -/
theorem builtRows_of_ok {tab : Tab} (present : img.line.ptr ≠ 0)
    (parsed : bwParseUnits img tab = .ok () t) : builtRows img tab = some t.tab.textRows := by
  unfold builtRows
  split_ifs with empty
  · -- A section without bytes is at its end.
    have none : bwParseUnits img tab = .ok () (startState img tab) :=
      bwUnits_done (by simp only [startState]; omega)
    rw [none] at parsed
    cases parsed
    rfl
  · rw [parsed]

end Loop

/-! ### Units in sections of their own -/

/-- `s` with another format of the unit before. -/
def State.withFlag (s : State) (flag : Bool) : State :=
  { s with cur := { s.cur with dwarf64 := flag } }

/-- A read does not depend on the format. -/
theorem bwUint_flag {img : Image} {n value : Nat} {s s' : State} (flag : Bool)
    (read : bwUint img n s = .ok value s') :
    bwUint img n (s.withFlag flag) = .ok value (s'.withFlag flag) := by
  have sameRoom : bwCurOk img (s.withFlag flag).cur n = bwCurOk img s.cur n := rfl
  have samePlace : (s.withFlag flag).cur.p = s.cur.p := rfl
  rw [bwUint_run] at read ⊢
  rw [sameRoom, samePlace]
  split_ifs at read ⊢
  cases peeked : peek img s.cur.p n with
  | error last => rw [peeked] at read; cases read
  | ok bytes => rw [peeked] at read; cases read; rfl

/-- The length field decides the format of a unit, once it could be read. -/
theorem bwUnitLength_flag (img : Image) (s : State) (flag : Bool) :
    bwUnitLength img (s.withFlag flag) = bwUnitLength img s ∨
      ∃ why s', bwUnitLength img s = .error why s' ∧ why ≠ .malformed := by
  have unread : ∀ {n : Nat} {u u' : State} {why : Stop}, bwUint img n u = .error why u' →
      why ≠ .malformed := by
    intro n u u' why read isMalformed
    subst isMalformed
    rw [bwUint_run] at read
    split_ifs at read
    · cases peeked : peek img u.cur.p n <;> rw [peeked] at read <;> cases read
    · cases read
  unfold bwUnitLength
  cases first : bwU32 img s with
  | error why s' => exact Or.inr ⟨why, s', bind_of_error first, unread first⟩
  | ok unit32 s₁ =>
      rw [bind_of_ok first, bind_of_ok (show bwU32 img _ = _ from bwUint_flag flag first)]
      split_ifs
      · cases second : bwU64 img s₁ with
        | error why s' => exact Or.inr ⟨why, s', bind_of_error second, unread second⟩
        | ok unitLen s₂ =>
            rw [bind_of_ok second, bind_of_ok (show bwU64 img _ = _ from bwUint_flag flag second)]
            exact Or.inl rfl
      · exact Or.inl rfl

/-- What the format was before a unit does not matter to it. -/
theorem bwParseUnit_flag {img : Image} {s : State} (flag : Bool)
    (ended : ∀ why s', bwParseUnit img s = .error why s' → why = .malformed) :
    bwParseUnit img (s.withFlag flag) = bwParseUnit img s := by
  rcases bwUnitLength_flag img s flag with same | ⟨why, s', unread, other⟩
  · have header : bwPrologue img (s.withFlag flag) = bwPrologue img s := by
      unfold bwPrologue
      cases length : bwUnitLength img s with
      | ok ends s₁ => rw [bind_of_ok length, bind_of_ok (same.trans length)]
      | error why s₁ => rw [bind_of_error length, bind_of_error (same.trans length)]
    unfold bwParseUnit
    cases opened : bwPrologue img s with
    | ok opening s₁ => rw [bind_of_ok opened, bind_of_ok (header.trans opened)]
    | error why s₁ => rw [bind_of_error opened, bind_of_error (header.trans opened)]
  · exact absurd (ended why s' (bind_of_error (bind_of_error unread))) other

/-- The line strings that were scanned end in the section. -/
def ScansWithin (img : Image) (s : State) : Prop :=
  ∀ scan ∈ s.scans, scan.sec = .line → scan.hi ≤ img.line.ptr + img.line.len

instance (img : Image) (s : State) : Decidable (ScansWithin img s) :=
  inferInstanceAs (Decidable (∀ scan ∈ s.scans, scan.sec = .line →
    scan.hi ≤ img.line.ptr + img.line.len))

/-- A section that is one well-formed unit, parsed alone: the parser returns 1
at the end that the unit states, what it read of the header tables lies before
the start of the program, and no read of the program was refused for lack of
bytes. -/
structure Accepted (img : Image) (tab : Tab) (exit : UnitExit) (s : State) : Prop where
  present : img.line.ptr ≠ 0
  parsed : bwParseUnit img (startState img tab) = .ok exit s
  toEnd : s.cur.p = img.line.ptr + img.line.len
  header : exit.headerEnd ≤ exit.prog
  strings : ∀ scan ∈ s.scans, scan.sec = .line → scan.hi ≤ exit.prog
  program : exit.exit ≠ some .short

def WellFormed (img : Image) (tab : Tab) : Prop := ∃ exit s, Accepted img tab exit s

theorem wellFormed_iff {img : Image} {tab : Tab} :
    WellFormed img tab ↔
      match bwParseUnit img (startState img tab) with
      | .ok exit s => img.line.ptr ≠ 0 ∧ s.cur.p = img.line.ptr + img.line.len ∧
          exit.headerEnd ≤ exit.prog ∧
          (∀ scan ∈ s.scans, scan.sec = .line → scan.hi ≤ exit.prog) ∧ exit.exit ≠ some .short
      | .error _ _ => False := by
  constructor
  · rintro ⟨exit, s, present, parsed, toEnd, header, strings, program⟩
    rw [parsed]
    exact ⟨present, toEnd, header, strings, program⟩
  · intro checked
    cases parsed : bwParseUnit img (startState img tab) with
    | error why s => rw [parsed] at checked; exact checked.elim
    | ok exit s =>
        rw [parsed] at checked
        obtain ⟨present, toEnd, header, strings, program⟩ := checked
        exact ⟨exit, s, present, parsed, toEnd, header, strings, program⟩

instance (img : Image) (tab : Tab) : Decidable (WellFormed img tab) :=
  @decidable_of_iff _ _ wellFormed_iff.symm <|
    match bwParseUnit img (startState img tab) with
    | .ok _ _ => inferInstance
    | .error _ _ => inferInstance

namespace Accepted

variable {img : Image} {tab : Tab} {exit : UnitExit} {s : State}

theorem nonempty (accepted : Accepted img tab exit s) (tabOk : TabOk tab) : 0 < img.line.len := by
  have further := ((bwParseUnit_safe (stateOk_startState tabOk)
    (inside_startState img tab accepted.present)).ok accepted.parsed).2.1
  have toEnd := accepted.toEnd
  simp only [startState] at further
  omega

/-- The strings of the tables are in the section. -/
theorem scans_within (accepted : Accepted img tab exit s) (tabOk : TabOk tab) :
    ScansWithin img s := by
  have inside := inside_startState img tab accepted.present
  intro scan member ofLine
  rcases bwParseUnit_eq_ok accepted.parsed with
    ⟨unitEnd, headerEnd, prog, s₁, header, rfl, rfl⟩ | ⟨prologue, s₁, header, body⟩
  · -- A skipped unit has scanned nothing.
    have reads : Reads img (startState img tab) s₁ := Develops.ok header
    have none : s₁.scans = [] := reads.scans
    rw [show ({ s₁ with cur := { s₁.cur with p := unitEnd } } : State).scans = [] from none]
      at member
    cases member
  · have openingOk := ((bwPrologue_safe (stateOk_startState tabOk)).ok header).2
    have ends := (bwPrologue_ends inside header).2
    have below := accepted.strings scan member ofLine
    obtain ⟨_, _, _, _, -, -, rfl, -⟩ := bwUnitBody_eq_ok.mp body
    exact (below.trans openingOk.2).trans ends

/-- The parse of the whole section is the parse of its unit. -/
theorem parseUnits (accepted : Accepted img tab exit s) (tabOk : TabOk tab) :
    bwParseUnits img tab = .ok () s := by
  have some := accepted.nonempty tabOk
  have grown : Grown img (startState img tab) s := Develops.ok accepted.parsed
  have endp : s.cur.endp = img.line.ptr + img.line.len := grown.endp
  obtain ⟨fuel, enough⟩ : ∃ n, img.line.len = n + 1 := ⟨img.line.len - 1, by omega⟩
  rw [bwParseUnits, enough, bwUnits_of_ok (by simp only [startState]; omega) accepted.parsed,
    bwUnits_done (by rw [accepted.toEnd, endp]; omega)]

theorem unitsEnd (accepted : Accepted img tab exit s) (tabOk : TabOk tab) :
    DwarfLine.unitsEnd img tab = s :=
  stateAfter_of_ok (accepted.parseUnits tabOk)

theorem builtRows (accepted : Accepted img tab exit s) (tabOk : TabOk tab) :
    DwarfLine.builtRows img tab = some s.tab.textRows :=
  builtRows_of_ok accepted.present (accepted.parseUnits tabOk)

end Accepted

/-! ### Composition -/

/-- The unit loop over `whole` is at `offset`. -/
structure At (whole : Image) (offset : Nat) (t : State) : Prop where
  ok : StateOk t
  p : t.cur.p = whole.line.ptr + offset
  endp : t.cur.endp = whole.line.ptr + whole.line.len

theorem at_startState {whole : Image} {tab : Tab} (tabOk : TabOk tab) :
    At whole 0 (startState whole tab) :=
  ⟨stateOk_startState tabOk, rfl, rfl⟩

/-- What a run adds to the table. -/
structure Adds (t t' : State) (rows : List TextRow) (nstr : Nat) : Prop where
  rows : t'.tab.textRows = t.tab.textRows ++ rows
  nstr : t'.tab.nstr = t.tab.nstr + nstr

theorem Adds.trans {t u v : State} {rows rows' : List TextRow} {nstr nstr' : Nat}
    (one : Adds t u rows nstr) (two : Adds u v rows' nstr') :
    Adds t v (rows ++ rows') (nstr + nstr') :=
  ⟨by rw [two.rows, one.rows, List.append_assoc], by rw [two.nstr, one.nstr, Nat.add_assoc]⟩

theorem Adds.nrow {t t' : State} {rows : List TextRow} {nstr : Nat} (adds : Adds t t' rows nstr) :
    t'.tab.nrow = t.tab.nrow + rows.length := by
  have same := congrArg List.length adds.rows
  simpa only [Tab.textRows, List.length_append, List.length_map, Tab.nrow] using same

/-- There is room in the tables of `t` for that many more rows and strings. -/
structure Room (t : State) (nrow nstr : Nat) : Prop where
  rows : t.tab.nrow + nrow ≤ bwDwarfRowMax
  strs : t.tab.nstr + nstr ≤ bwDwarfStrMax

/-- A reset table has room for all that fits. -/
theorem room_startState {img : Image} {tab : Tab} {nrow nstr : Nat}
    (rows : nrow ≤ bwDwarfRowMax) (strs : nstr ≤ bwDwarfStrMax) :
    Room (startState img (bwDwarfTabReset tab)) nrow nstr := by
  constructor
  · have none : (startState img (bwDwarfTabReset tab)).tab.nrow = 0 := rfl
    rwa [none, Nat.zero_add]
  · have none : (startState img (bwDwarfTabReset tab)).tab.nstr = 0 := rfl
    rwa [none, Nat.zero_add]

section Compose

variable {one whole : Image} {tab : Tab} {t : State} {offset : Nat}

/-- A unit alone in a reset table and the same unit in a section, at the start
of both. -/
theorem Within.moved (within : Within one whole offset) (some : 0 < one.line.len)
    (there : At whole offset t) :
    (within.placement some t.tab.rows t.tab.nstr).Moved
      ((startState one (bwDwarfTabReset tab)).withFlag t.cur.dwarf64) t := by
  have start : StateOk (startState one (bwDwarfTabReset tab)) := stateOk_startState tabOk_reset
  refine ⟨⟨start.tab, start.tabs, start.later, start.chain⟩, rfl, le_refl _,
    Nat.le_add_right _ _, ?_, ?_, ?_, fun index below => absurd below (Nat.not_lt_zero index)⟩
  · have p := there.p
    have endp := there.endp
    cases same : t.cur
    simp only [same] at p endp
    simp only [State.withFlag, startState, Within.placement, Placement.move, Cur.mk.injEq,
      and_true]
    omega
  · simp [State.withFlag, startState, bwDwarfTabReset, Within.placement]
  · simp [State.withFlag, startState, bwDwarfTabReset, Within.placement]

/-- A unit that is not refused a byte, and begins its program after its header
or is at the same address, adds in a section what it adds alone. -/
theorem Within.step {exit : UnitExit} {s : State} (within : Within one whole offset)
    (there : At whole offset t)
    (parsed : bwParseUnit one (startState one (bwDwarfTabReset tab)) = .ok exit s)
    (placed : (one.line.ptr = whole.line.ptr + offset ∧
      (exit.exit ≠ none → one.line.ptr ≤ exit.prog)) ∨ exit.headerEnd ≤ exit.prog)
    (program : exit.exit ≠ some .short) (scans : ScansWithin one s)
    (room : Room t s.tab.nrow s.tab.nstr) :
    ∃ exit' t', bwParseUnit whole t = .ok exit' t' ∧ At whole (s.cur.p - one.line.ptr + offset) t' ∧
      Adds t t' s.tab.textRows s.tab.nstr := by
  have safe := (bwParseUnit_safe (stateOk_startState tabOk_reset)
    (inside_startState one (bwDwarfTabReset tab) within.presentOne)).ok parsed
  have grownOne : Grown one (startState one (bwDwarfTabReset tab)) s := Develops.ok parsed
  have endp : s.cur.endp = one.line.ptr + one.line.len := grownOne.endp
  have after : one.line.ptr < s.cur.p := safe.2.1
  have within' : s.cur.p ≤ s.cur.endp := safe.2.2.1
  have some : 0 < one.line.len := by omega
  have answered : ∀ why s', bwParseUnit one (startState one (bwDwarfTabReset tab)) =
      .error why s' → why = .malformed := fun why s' stopped => nomatch parsed.symm.trans stopped
  have fits : (within.placement some t.tab.rows t.tab.nstr).Fits s := by
    refine ⟨Or.inr ?_, Or.inr room.rows, scans⟩
    rw [Nat.add_comm]
    exact room.strs
  obtain ⟨exit', t', (parsedTwo : bwParseUnit whole t = .ok exit' t'), related⟩ :=
    bwParseUnit_moves (within.moved some there) ((bwParseUnit_flag _ answered).trans parsed) placed
      program fits
  have inside : Inside whole t.cur := by
    rw [Inside, there.p, there.endp]
    have := within.fits some
    exact ⟨by omega, (whole.linePlaced within.presentTwo).1⟩
  have okAfter := ((bwParseUnit_safe there.ok inside).ok parsedTwo).1
  have grown : Grown whole t t' := Develops.ok parsedTwo
  refine ⟨exit', t', parsedTwo, ⟨okAfter, ?_, grown.endp.trans there.endp⟩, ?_, ?_⟩
  · rw [related.cur]
    simp only [Placement.move, Within.placement]
    omega
  · rw [related.textRows okAfter.tab.nstr]
    congr 1
    exact textRows_of_extends grown.tab there.ok.tab
  · rw [related.nstr, Nat.add_comm]
    rfl

/-- A well-formed unit adds in a section what it adds alone. -/
theorem Accepted.step {exit : UnitExit} {s : State}
    (accepted : Accepted one (bwDwarfTabReset tab) exit s) (within : Within one whole offset)
    (there : At whole offset t) (room : Room t s.tab.nrow s.tab.nstr) :
    ∃ exit' t', bwParseUnit whole t = .ok exit' t' ∧ At whole (offset + one.line.len) t' ∧
      Adds t t' s.tab.textRows s.tab.nstr := by
  have stepped := within.step there accepted.parsed (Or.inr accepted.header) accepted.program
    (accepted.scans_within tabOk_reset) room
  have toEnd : s.cur.p - one.line.ptr + offset = offset + one.line.len := by
    rw [accepted.toEnd]
    omega
  rw [toEnd] at stepped
  exact stepped

/-- The rows and the string bytes that each of the units builds alone. -/
def soloRows (units : List Image) (tab : Tab) : List TextRow :=
  (units.map fun unit => (unitsEnd unit tab).tab.textRows).flatten

def soloStrs (units : List Image) (tab : Tab) : Nat :=
  (units.map fun unit => (unitsEnd unit tab).tab.nstr).sum

/-- The bytes of units one after the other. -/
def unitBytes (units : List Image) : List UInt8 := (units.map Image.lineBytes).flatten

/-- The state in which a parse into `tab` begins the unit with that number, as
long as it gets there. -/
def headState (img : Image) (tab : Tab) (number : Nat) : State :=
  (stateAfter (bwParseUnit img))^[number] (startState img tab)

/-- The unit loop goes over a list of well-formed units, and adds what each adds
alone. -/
theorem bwUnits_wellFormed {units : List Image} {fuel : Nat} (present : whole.line.ptr ≠ 0)
    (wellFormed : ∀ unit ∈ units, WellFormed unit (bwDwarfTabReset tab) ∧ Kin unit whole)
    (bytes : unitBytes units <+: whole.lineBytes.drop offset) (there : At whole offset t)
    (room : Room t (soloRows units (bwDwarfTabReset tab)).length
      (soloStrs units (bwDwarfTabReset tab)))
    (enough : whole.line.len < offset + fuel) :
    ∃ fuel' t', bwUnits whole fuel t = bwUnits whole fuel' t' ∧
      t' = (stateAfter (bwParseUnit whole))^[units.length] t ∧
      At whole (offset + (unitBytes units).length) t' ∧
      Adds t t' (soloRows units (bwDwarfTabReset tab)) (soloStrs units (bwDwarfTabReset tab)) ∧
      whole.line.len < offset + (unitBytes units).length + fuel' := by
  induction units generalizing t offset fuel with
  | nil => exact ⟨fuel, t, rfl, rfl, there, ⟨by simp [soloRows], rfl⟩, enough⟩
  | cons unit rest inductionHypothesis =>
      obtain ⟨⟨exit, s, accepted⟩, kin⟩ := wellFormed unit List.mem_cons_self
      have some := accepted.nonempty tabOk_reset
      have split : unitBytes (unit :: rest) = unit.lineBytes ++ unitBytes rest := rfl
      have rowsSplit : soloRows (unit :: rest) (bwDwarfTabReset tab) =
          s.tab.textRows ++ soloRows rest (bwDwarfTabReset tab) := by
        rw [← accepted.unitsEnd tabOk_reset]
        rfl
      have strsSplit : soloStrs (unit :: rest) (bwDwarfTabReset tab) =
          s.tab.nstr + soloStrs rest (bwDwarfTabReset tab) := by
        rw [← accepted.unitsEnd tabOk_reset]
        rfl
      have rowCount : s.tab.textRows.length = s.tab.nrow := List.length_map _
      rw [split] at bytes
      have within : Within unit whole offset :=
        ⟨kin, accepted.present, present, (List.prefix_append _ _).trans bytes⟩
      have fits := within.fits some
      rw [rowsSplit, strsSplit] at room ⊢
      have roomRows := room.rows
      have roomStrs := room.strs
      rw [List.length_append] at roomRows
      obtain ⟨exit', t₁, parsed, there₁, adds₁⟩ :=
        accepted.step within there ⟨by omega, by omega⟩
      have nrow₁ := adds₁.nrow
      have nstr₁ := adds₁.nstr
      have restBytes : unitBytes rest <+: whole.lineBytes.drop (offset + unit.line.len) := by
        obtain ⟨tail, whole'⟩ := bytes
        rw [← List.drop_drop, ← whole', List.append_assoc,
          List.drop_left' (Image.lineBytes_length unit)]
        exact List.prefix_append _ _
      obtain ⟨fuel, rfl⟩ : ∃ n, fuel = n + 1 := ⟨fuel - 1, by omega⟩
      obtain ⟨fuel', t', loops, same, there', adds', enough'⟩ := inductionHypothesis
        (fun other member => wellFormed other (List.mem_cons_of_mem _ member)) restBytes there₁
        ⟨by omega, by omega⟩ (show whole.line.len < offset + unit.line.len + fuel by omega)
      rw [split, List.length_append, Image.lineBytes_length, ← Nat.add_assoc]
      refine ⟨fuel', t', ?_, ?_, there', adds₁.trans adds', enough'⟩
      · rw [bwUnits_of_ok (by rw [there.p, there.endp]; omega) parsed, loops]
      · rw [same, List.length_cons, Function.iterate_succ_apply, stateAfter_of_ok parsed]

/-- A section of well-formed units is parsed to its end. -/
theorem bwParseUnits_wellFormed {units : List Image} (present : whole.line.ptr ≠ 0)
    (bytes : whole.lineBytes = unitBytes units)
    (wellFormed : ∀ unit ∈ units, WellFormed unit (bwDwarfTabReset tab) ∧ Kin unit whole)
    (rowsFit : (soloRows units (bwDwarfTabReset tab)).length ≤ bwDwarfRowMax)
    (strsFit : soloStrs units (bwDwarfTabReset tab) ≤ bwDwarfStrMax) :
    ∃ t, bwParseUnits whole (bwDwarfTabReset tab) = .ok () t ∧
      t.tab.textRows = soloRows units (bwDwarfTabReset tab) := by
  obtain ⟨fuel, t, loops, -, there, adds, enough⟩ := bwUnits_wellFormed present wellFormed
    (show unitBytes units <+: whole.lineBytes.drop 0 by rw [bytes]; exact List.prefix_refl _)
    (at_startState tabOk_reset) (room_startState rowsFit strsFit)
    (show whole.line.len < 0 + (whole.line.len + 1) by omega)
  have toEnd : (unitBytes units).length = whole.line.len := by
    rw [← bytes, Image.lineBytes_length]
  obtain ⟨fuel, rfl⟩ : ∃ n, fuel = n + 1 := ⟨fuel - 1, by omega⟩
  refine ⟨t, ?_, adds.rows⟩
  rw [bwParseUnits, loops, bwUnits_done (by rw [there.p, there.endp]; omega)]

/-- The rows that a section of well-formed units builds in a reset table are
those that the units build alone, one after the other. -/
theorem builtRows_units (whole : Image) (units : List Image) (tab : Tab)
    (present : whole.line.ptr ≠ 0) (bytes : whole.lineBytes = unitBytes units)
    (wellFormed : ∀ unit ∈ units, WellFormed unit (bwDwarfTabReset tab) ∧ Kin unit whole)
    (rowsFit : (soloRows units (bwDwarfTabReset tab)).length ≤ bwDwarfRowMax)
    (strsFit : soloStrs units (bwDwarfTabReset tab) ≤ bwDwarfStrMax) :
    builtRows whole (bwDwarfTabReset tab) =
      (units.mapM fun unit => builtRows unit (bwDwarfTabReset tab)).map List.flatten := by
  obtain ⟨t, parsed, rows⟩ := bwParseUnits_wellFormed present bytes wellFormed rowsFit strsFit
  rw [builtRows_of_ok present parsed, rows]
  clear bytes rowsFit strsFit rows
  induction units with
  | nil => rfl
  | cons unit rest inductionHypothesis =>
      obtain ⟨exit, s, accepted⟩ := (wellFormed unit List.mem_cons_self).1
      have tail := inductionHypothesis fun other member =>
        wellFormed other (List.mem_cons_of_mem _ member)
      have head : soloRows (unit :: rest) (bwDwarfTabReset tab) =
          s.tab.textRows ++ soloRows rest (bwDwarfTabReset tab) := by
        rw [← accepted.unitsEnd tabOk_reset]
        rfl
      rw [List.mapM_cons, accepted.builtRows tabOk_reset, head]
      cases collected : rest.mapM fun unit => builtRows unit (bwDwarfTabReset tab) with
      | none => rw [collected] at tail; cases tail
      | some lists =>
          rw [collected] at tail
          simp only [Option.map_some, Option.some.injEq] at tail
          rw [tail]
          rfl

end Compose

/-! ### Images with a line section only -/

theorem kin_lineImage (one two : List UInt8) : Kin (lineImage one) (lineImage two) where
  bits := rfl
  strings := fun sec other => by
    cases sec with
    | line => exact absurd rfl other
    | lineStr => exact ⟨Iff.rfl, rfl, fun _ below => absurd below (Nat.not_lt_zero _)⟩
    | debugStr => exact ⟨Iff.rfl, rfl, fun _ below => absurd below (Nat.not_lt_zero _)⟩

theorem lineImage_ptr (bytes : List UInt8) : (lineImage bytes).line.ptr = 0x10000 := rfl

theorem lineImage_lineBytes {bytes : List UInt8} (small : bytes.length ≤ 2 ^ 32) :
    (lineImage bytes).lineBytes = bytes := by
  have len : (lineImage bytes).line.len = bytes.length := Nat.min_eq_left small
  refine List.ext_getElem ((Image.lineBytes_length _).trans len) fun index below inside => ?_
  simp [Image.lineBytes, lineImage, memAt, inside]

/-- A version 2 unit in the 32-bit format: file `a`, one row. -/
def unitV2 : List UInt8 :=
  [36, 0, 0, 0, 2, 0, 15, 0, 0, 0, 1, 1, 0, 4, 4, 0, 1, 1, 0, 0x61, 0, 0, 0, 0, 0,
    0, 9, 2, 0, 0x10, 0x40, 0, 0, 0, 0, 0, 1, 0, 1, 1]

/-- A version 5 unit in the 64-bit format: files `d/x` and `d/y`, one row. -/
def unitV5 : List UInt8 :=
  [0xff, 0xff, 0xff, 0xff, 54, 0, 0, 0, 0, 0, 0, 0, 5, 0, 8, 0, 27, 0, 0, 0, 0, 0, 0, 0,
    1, 1, 1, 0, 4, 4, 0, 1, 1, 1, 1, 8, 1, 0x64, 0, 2, 1, 8, 2, 0xb, 2, 0x78, 0, 0, 0x79, 0, 0,
    0, 9, 2, 0, 0x20, 0x40, 0, 0, 0, 0, 0, 1, 0, 1, 1]

/-- A section of two units, of different versions and formats. -/
theorem unitV5_unitV2_compose :
    builtRows (lineImage (unitV5 ++ unitV2)) (bwDwarfTabReset Tab.zeroed) =
      ([lineImage unitV5, lineImage unitV2].mapM fun unit =>
        builtRows unit (bwDwarfTabReset Tab.zeroed)).map List.flatten := by
  have bytes : (lineImage (unitV5 ++ unitV2)).lineBytes =
      unitBytes [lineImage unitV5, lineImage unitV2] := by
    rw [lineImage_lineBytes (by decide), unitBytes, List.map_cons, List.map_cons, List.map_nil,
      lineImage_lineBytes (by decide), lineImage_lineBytes (by decide)]
    rfl
  refine builtRows_units _ _ _ (by decide) bytes ?_ (by decide +kernel) (by decide +kernel)
  intro unit member
  rcases List.mem_pair.mp member with rfl | rfl
  · exact ⟨by decide +kernel, kin_lineImage _ _⟩
  · exact ⟨by decide +kernel, kin_lineImage _ _⟩

end Backwalk.DwarfLine
