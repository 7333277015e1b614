import Backwalk.DwarfLine.Enclosure
import Backwalk.DwarfLine.Header

/-!
Contract: parses of sections that end in a NUL, as the padded sections of a file
do.

There every string has an end, whatever the bytes before it are. So all that can
take a parse out of its sections is a `header_length` that wraps around. Owns the
runs that scan only strings with an end, the sections and headers for which that
is enough, and what follows for any sequence of calls on a table.
-/

namespace Backwalk.DwarfLine

open Backwalk.Support

/-! ### Strings with an end -/

/-- Every section with bytes ends in a NUL. -/
class NulEnded (img : Image) : Prop where
  last : ∀ sec, (img.sec sec).ptr ≠ 0 → 0 < (img.sec sec).len →
    img.mem (secEnd img sec - 1) = some 0

/-- In order, with no string that has not ended. -/
structure Settled (img : Image) (s : State) : Prop extends Tidy img s where
  terminated : AllTerminated img s

def SettledAfter (img : Image) (s t : State) : Prop := Settled img s → Settled img t

instance (img : Image) : Std.Refl (SettledAfter img) := ⟨fun _ settled => settled⟩

instance (img : Image) : IsTrans State (SettledAfter img) :=
  ⟨fun _ _ _ one two settled => two (one settled)⟩

/-- No string was scanned. -/
def Quiet (_img : Image) (s t : State) : Prop := t.scans = s.scans

instance (img : Image) : Std.Refl (Quiet img) := ⟨fun _ => rfl⟩

instance (img : Image) : IsTrans State (Quiet img) := ⟨fun _ _ _ one two => Eq.trans two one⟩

section Rules

variable {img : Image} {s : State} {α β : Type}

instance (priority := low) quiet_of_runs (img : Image) (m : Parser α)
    [runs : Develops (Runs img) m] : Develops (Quiet img) m :=
  ⟨fun s => (runs.after s).scans⟩

instance (text : List UInt8) : Develops (Quiet img) (bwAddStr text) where
  after s := by
    unfold stateAfter
    rw [bwAddStr_run]
    split_ifs <;> rfl

instance (dirs : Dirs) (hasDir : Bool) (dirIdx : Nat) (path : List UInt8) :
    Develops (Quiet img) (bwAddFile dirs hasDir dirIdx path) := by
  unfold bwAddFile
  infer_instance

theorem AllTerminated.quiet {t : State} (terminated : AllTerminated img s) (quiet : Quiet img s t) :
    AllTerminated img t :=
  terminated.of_scans quiet

instance (priority := low) settled_of_quiet (m : Parser α) [tidy : Develops (TidyAfter img) m]
    [quiet : Develops (Quiet img) m] : Develops (SettledAfter img) m :=
  ⟨fun s settled => ⟨tidy.after s settled.toTidy, settled.terminated.quiet (quiet.after s)⟩⟩

/-- What a sequence scans, when its second part scans nothing. -/
theorem terminated_bind {m : Parser α} {f : α → Parser β} [quiet : ∀ a, Develops (Quiet img) (f a)]
    (first : AllTerminated img (stateAfter m s)) : AllTerminated img (stateAfter (m >>= f) s) := by
  cases ended : m s with
  | ok a t =>
      rw [stateAfter_of_ok ended] at first
      rw [stateAfter_bind_of_ok ended]
      exact first.quiet ((quiet a).after t)
  | error why t =>
      rw [stateAfter_of_error ended] at first
      rw [stateAfter_of_error (bind_of_error ended)]
      exact first

theorem outcome_of_settled {m : Parser α} [Develops (SettledAfter img) m]
    (settled : Settled img s) :
    Outcome (fun _ t => Settled img t) (fun _ t => Settled img t) (m s) :=
  Outcome.intro (fun _ _ ended => Develops.ok (R := SettledAfter img) ended settled)
    fun _ _ ended => Develops.error (R := SettledAfter img) ended settled

theorem settled_of_outcome {m : Parser α}
    (outcome : ∀ s, Settled img s →
      Outcome (fun _ t => Settled img t) (fun _ t => Settled img t) (m s)) :
    Develops (SettledAfter img) m :=
  ⟨fun s settled => by
    have result := outcome s settled
    cases ended : m s with
    | ok a t => exact stateAfter_of_ok ended ▸ result.ok ended
    | error why t => exact stateAfter_of_error ended ▸ result.error ended⟩

/-- A function that keeps order, and here scans strings with an end only. -/
theorem Settled.outcome {m : Parser α} [Develops (TidyAfter img) m] (settled : Settled img s)
    (terminated : AllTerminated img (stateAfter m s)) :
    Outcome (fun _ t => Settled img t) (fun _ t => Settled img t) (m s) := by
  refine Outcome.intro (fun a t ended => ?_) fun why t ended => ?_
  · exact ⟨Develops.ok (R := TidyAfter img) ended settled.toTidy,
      stateAfter_of_ok ended ▸ terminated⟩
  · exact ⟨Develops.error (R := TidyAfter img) ended settled.toTidy,
      stateAfter_of_error ended ▸ terminated⟩

end Rules

/-! ### The scans -/

section Scans

variable {img : Image} [NulEnded img] {s : State}

theorem Scan.terminated_of_start {scan : Scan} (present : (img.sec scan.sec).ptr ≠ 0)
    (start : (img.sec scan.sec).ptr ≤ scan.lo) (below : scan.lo < secEnd img scan.sec) :
    scan.Terminated img := by
  refine ⟨secEnd img scan.sec - 1, by omega, by omega, ?_⟩
  exact NulEnded.last scan.sec present (by unfold secEnd at below; omega)

/-- A `strlen` that starts in a section. -/
theorem strlen_terminated {sec : SectionId} {addr : Nat} {after : Nat → Nat}
    (terminated : AllTerminated img s) (present : (img.sec sec).ptr ≠ 0)
    (start : (img.sec sec).ptr ≤ addr) (below : addr < secEnd img sec) :
    AllTerminated img (stateAfter (strlen img sec addr after) s) := by
  have logged : ∀ scan : Scan, scan.sec = sec → scan.lo = addr →
      AllTerminated img { s with scans := s.scans ++ [scan] } := by
    intro scan ofSec fromAddr other member
    rcases List.mem_append.mp member with before | isLast
    · exact terminated other before
    · rw [List.mem_singleton.mp isLast]
      subst ofSec fromAddr
      exact scan.terminated_of_start present start below
  unfold stateAfter
  rw [strlen_run]
  cases cstrIn img.mem (2 ^ img.bits - addr) addr with
  | ok bytes => exact logged _ rfl rfl
  | error last => exact logged _ rfl rfl

/-- A `strlen` at the cursor. -/
theorem Settled.strlen_line (settled : Settled img s) (more : s.cur.p < s.cur.endp)
    (after : Nat → Nat) : AllTerminated img (stateAfter (strlen img .line s.cur.p after) s) :=
  strlen_terminated settled.terminated settled.present (settled.ranged settled.terminated).1
    (settled.endp ▸ more)

instance (sec : SectionId) (offsetSize : Nat) :
    Develops (SettledAfter img) (pathStrp img sec offsetSize) := by
  refine settled_of_outcome fun s settled => settled.outcome ?_
  unfold pathStrp
  cases ended : bwOffset img offsetSize s with
  | error why t =>
      rw [stateAfter_of_error (bind_of_error ended)]
      exact settled.terminated.quiet (Develops.error (R := Quiet img) ended)
  | ok off t =>
      have terminated : AllTerminated img t :=
        settled.terminated.quiet (Develops.ok (R := Quiet img) ended)
      rw [stateAfter_bind_of_ok ended]
      split_ifs with outside
      · exact terminated
      · rw [not_or, Nat.not_le] at outside
        rw [stateAfter_bind_of_ok (show getCur t = .ok t.cur t from rfl)]
        exact strlen_terminated terminated outside.1 (Nat.le_add_right _ _)
          (Nat.add_lt_add_left outside.2 _)

instance (form offsetSize : Nat) :
    Develops (SettledAfter img) (bwFormPath img form offsetSize) := by
  unfold bwFormPath
  split <;> infer_instance

theorem bwDirV2_terminated (settled : Settled img s) (more : s.cur.p < s.cur.endp) :
    AllTerminated img (stateAfter (bwDirV2 img) s) := by
  rw [bwDirV2, stateAfter_bind_of_ok (show getCur s = .ok s.cur s from rfl)]
  exact terminated_bind (settled.strlen_line more _)

theorem bwFileV2_terminated {dirs : Dirs} (settled : Settled img s)
    (more : s.cur.p < s.cur.endp) : AllTerminated img (stateAfter (bwFileV2 img dirs) s) := by
  rw [bwFileV2, stateAfter_bind_of_ok (show getCur s = .ok s.cur s from rfl)]
  exact terminated_bind (settled.strlen_line more _)

end Scans

/-! ### Tables -/

section Tables

variable {img : Image} {s : State}

/-- The loops look for a string only before the end. -/
theorem listHead_settled {α : Type} (list : α) (more : UInt8 → Prop)
    [∀ byte, Decidable (more byte)] {one : Parser α} (settled : Settled img s)
    (next : s.cur.p < s.cur.endp →
      Outcome (fun _ t => Settled img t) (fun _ t => Settled img t) (one s)) :
    Outcome (fun _ t => Settled img t) (fun _ t => Settled img t)
      ((do
        let c ← getCur
        if bwCurOk img c 1 then
          let first ← load img c.p
          if more first then one else bwListEnd img list
        else bwListEnd img list) s) := by
  rw [bind_of_ok (show getCur s = .ok s.cur s from rfl)]
  refine Outcome.ite (fun room => ?_) fun _ => outcome_of_settled settled
  have fits := (ptrAdd_of_inside (settled.inside settled.terminated) room).2
  refine Outcome.bind (outcome_of_settled settled) fun first t loaded _ => ?_
  rw [load_unmoved loaded]
  exact Outcome.ite (fun _ => next fits) fun _ => outcome_of_settled settled

variable [NulEnded img]

instance settled_bwDirsV2 (fuel : Nat) (dirs : Dirs) :
    Develops (SettledAfter img) (bwDirsV2 img fuel dirs) := by
  induction fuel generalizing dirs with
  | zero => unfold bwDirsV2; infer_instance
  | succ fuel inductionHypothesis =>
      refine settled_of_outcome fun s settled => ?_
      refine listHead_settled dirs (fun first => first ≠ 0 ∧ dirs.ndir < bwDwarfDirsMax) settled
        fun more => ?_
      refine Outcome.bind (settled.outcome (bwDirV2_terminated settled more))
        fun off t _ settledT => ?_
      exact outcome_of_settled settledT

instance settled_bwFilesV2 (dirs : Dirs) (fuel : Nat) (files : Files) :
    Develops (SettledAfter img) (bwFilesV2 img dirs fuel files) := by
  induction fuel generalizing files with
  | zero => unfold bwFilesV2; infer_instance
  | succ fuel inductionHypothesis =>
      refine settled_of_outcome fun s settled => ?_
      refine listHead_settled files (fun first => first ≠ 0 ∧ files.nfile < bwDwarfFilesMax) settled
        fun more => ?_
      refine Outcome.bind (settled.outcome (bwFileV2_terminated settled more))
        fun off t _ settledT => ?_
      exact outcome_of_settled settledT

instance : Develops (SettledAfter img) (bwTablesV2 img) := by unfold bwTablesV2; infer_instance

instance settled_bwDirEntry (formats : Formats) (offsetSize n f : Nat) (path : List UInt8) :
    Develops (SettledAfter img) (bwDirEntry img formats offsetSize n f path) := by
  induction n generalizing f path with
  | zero => unfold bwDirEntry; infer_instance
  | succ n inductionHypothesis => unfold bwDirEntry; infer_instance

instance settled_bwDirsV5 (formats : Formats) (offsetSize n : Nat) (dirs : Dirs) :
    Develops (SettledAfter img) (bwDirsV5 img formats offsetSize n dirs) := by
  induction n generalizing dirs with
  | zero => unfold bwDirsV5; infer_instance
  | succ n inductionHypothesis => unfold bwDirsV5; infer_instance

instance settled_bwFileEntry (formats : Formats) (offsetSize n f : Nat) (entry : FileEntry) :
    Develops (SettledAfter img) (bwFileEntry img formats offsetSize n f entry) := by
  induction n generalizing f entry with
  | zero => unfold bwFileEntry; infer_instance
  | succ n inductionHypothesis => unfold bwFileEntry; infer_instance

instance settled_bwFilesV5 (formats : Formats) (offsetSize : Nat) (dirs : Dirs) (n : Nat)
    (files : Files) :
    Develops (SettledAfter img) (bwFilesV5 img formats offsetSize dirs n files) := by
  induction n generalizing files with
  | zero => unfold bwFilesV5; infer_instance
  | succ n inductionHypothesis => unfold bwFilesV5; infer_instance

set_option synthInstance.maxSize 512 in
instance (offsetSize : Nat) : Develops (SettledAfter img) (bwTablesV5 img offsetSize) := by
  unfold bwTablesV5
  infer_instance

instance (prologue : Prologue) : Develops (SettledAfter img) (bwTables img prologue) := by
  unfold bwTables
  infer_instance

end Tables

/-! ### Units -/

section Units

variable {img : Image} [NulEnded img] {s : State} {tab : Tab}

theorem bwUnitBody_terminated {prologue : Prologue} (settled : Settled img s) :
    AllTerminated img (stateAfter (bwUnitBody img prologue) s) := by
  unfold bwUnitBody
  exact terminated_bind (Develops.after (R := SettledAfter img) s settled).terminated

theorem bwParseUnit_terminated (settled : Settled img s) :
    AllTerminated img (stateAfter (bwParseUnit img) s) := by
  unfold bwParseUnit
  cases ended : bwPrologue img s with
  | error why t =>
      rw [stateAfter_of_error (bind_of_error ended)]
      exact settled.terminated.quiet (Develops.error (R := Quiet img) ended)
  | ok opening t =>
      have settledT : Settled img t := Develops.ok (R := SettledAfter img) ended settled
      rw [stateAfter_bind_of_ok ended]
      cases opening with
      | skip unitEnd headerEnd prog => exact settledT.terminated
      | go prologue => exact bwUnitBody_terminated settledT

theorem bwUnits_terminated {fuel : Nat} (settled : Settled img s) :
    AllTerminated img (stateAfter (bwUnits img fuel) s) := by
  induction fuel generalizing s with
  | zero => exact settled.terminated
  | succ fuel inductionHypothesis =>
      unfold stateAfter bwUnits
      split_ifs
      · have terminated := bwParseUnit_terminated settled
        cases parsed : bwParseUnit img s with
        | ok exit t =>
            rw [stateAfter_of_ok parsed] at terminated
            exact inductionHypothesis ⟨(bwParseUnit_tidy settled.toTidy).ok parsed, terminated⟩
        | error why t =>
            rw [stateAfter_of_error parsed] at terminated
            cases why <;> exact terminated
      · exact settled.terminated

/-- No string of a parse goes on past its section. -/
theorem parseScans_terminated (img : Image) [NulEnded img] (tab : Tab) :
    ∀ scan ∈ parseScans img tab, scan.Terminated img := by
  unfold parseScans
  split_ifs with absent
  · exact fun _ member => nomatch member
  · exact bwUnits_terminated
      ⟨tidy_startState tab fun isNull => absent (Or.inl isNull), fun _ member => nomatch member⟩

end Units

/-! ### Headers that fit -/

/-- The places of a section at which units begin, as `unit_length` links them. -/
inductive UnitStart (img : Image) : Nat → Prop where
  | first : UnitStart img 0
  | next {base : Nat} : UnitStart img base →
      base + Header.versionOff (img.lineBytes.drop base) +
        img.size (Header.unitLength (img.lineBytes.drop base)) ≤ img.line.len →
      UnitStart img (base + Header.versionOff (img.lineBytes.drop base) +
        img.size (Header.unitLength (img.lineBytes.drop base)))

/-- No unit states a `header_length` that wraps around. -/
def HeadersFit (img : Image) : Prop :=
  ∀ base, UnitStart img base →
    img.line.ptr + base + Header.minInstOff (img.lineBytes.drop base) +
      Header.headerLength (img.lineBytes.drop base) < 2 ^ img.bits

section Heads

variable {img : Image} {s t : State} {tab : Tab} {base : Nat} {flag : Bool}

theorem bwPrologue_unitEnd {opening : Opening} (present : img.line.ptr ≠ 0)
    (on : OnLine img base flag s) (ended : bwPrologue img s = .ok opening t) :
    opening.unitEnd = img.line.ptr + base + Header.versionOff (img.lineBytes.drop base) +
        img.size (Header.unitLength (img.lineBytes.drop base)) ∧
      opening.unitEnd ≤ img.line.ptr + img.line.len := by
  obtain ⟨unitEnd, offsetSize, u, length, rest⟩ := bwPrologue_eq_ok ended
  obtain ⟨ends, -, within, -⟩ := (bwUnitLength_field present rfl on).ok length
  have isEnd : opening.unitEnd = unitEnd := by
    rcases rest with rfl | ⟨prog, version, addrSize, v, rest⟩
    · rfl
    · exact bwHeaderRest_unitEnd rest
  rw [isEnd]
  exact ⟨congrArg Prod.fst ends, within⟩

theorem bwParseUnit_unitEnd {exit : UnitExit} (ended : bwParseUnit img s = .ok exit t) :
    ∃ opening u, bwPrologue img s = .ok opening u ∧ t.cur.p = opening.unitEnd := by
  rcases bwParseUnit_eq_ok ended with
    ⟨unitEnd, headerEnd, prog, u, header, -, rfl⟩ | ⟨prologue, u, header, body⟩
  · exact ⟨_, u, header, rfl⟩
  · obtain ⟨_, _, _, _, -, -, -, rfl⟩ := bwUnitBody_eq_ok.mp body
    exact ⟨_, u, header, rfl⟩

/-- The unit loop begins a unit at such places only. -/
theorem UnitHead.unitStart (head : UnitHead img tab s) :
    img.line.ptr ≠ 0 ∧ ∃ base, UnitStart img base ∧ OnLine img base s.cur.dwarf64 s := by
  induction head with
  | start present _ => exact ⟨present, 0, .first, rfl, Nat.zero_le _⟩
  | @next s t exit _ _ parsed inductionHypothesis =>
      obtain ⟨present, base, starts, on⟩ := inductionHypothesis
      obtain ⟨opening, u, header, atEnd⟩ := bwParseUnit_unitEnd parsed
      obtain ⟨ends, within⟩ := bwPrologue_unitEnd present on header
      have grown : Grown img s t := Develops.ok parsed
      have sameEnd : t.cur.endp = img.line.ptr + img.line.len := by rw [grown.endp, on.cur]
      refine ⟨present, _, .next starts (by omega), ?_, by omega⟩
      rw [← sameEnd, ← Nat.add_assoc, ← Nat.add_assoc, ← ends, ← atEnd]

/-- Units may begin at the start of the section and at `second`, and not behind. -/
theorem headersFit_of_one (second : Nat)
    (first : Header.versionOff img.lineBytes + img.size (Header.unitLength img.lineBytes) = second)
    (last : img.line.len < second + Header.versionOff (img.lineBytes.drop second) +
      img.size (Header.unitLength (img.lineBytes.drop second)))
    (fits : img.line.ptr + Header.minInstOff img.lineBytes + Header.headerLength img.lineBytes <
      2 ^ img.bits)
    (fits' : img.line.ptr + second + Header.minInstOff (img.lineBytes.drop second) +
      Header.headerLength (img.lineBytes.drop second) < 2 ^ img.bits) : HeadersFit img := by
  have places : ∀ base, UnitStart img base → base = 0 ∨ base = second := by
    intro base starts
    induction starts with
    | first => exact Or.inl rfl
    | @next base _ within inductionHypothesis =>
        rcases inductionHypothesis with rfl | rfl
        · rw [List.drop_zero, Nat.zero_add]
          exact Or.inr first
        · omega
  intro base starts
  rcases places base starts with rfl | rfl
  · simpa using fits
  · exact fits'

theorem HeadersFit.programsInside (fit : HeadersFit img) (tab : Tab) : ProgramsInside img tab := by
  intro s head program entered
  obtain ⟨present, base, starts, on⟩ := head.unitStart
  obtain ⟨_, _, opened, -, -⟩ := programOf_eq_some.mp entered
  have computed := bwPrologue_computed present rfl on opened
  have noWrap := fit base starts
  rw [computed.prog, Image.size, Nat.mod_eq_of_lt (by omega), Image.ptrAdd, Nat.mod_eq_of_lt noWrap]
  omega

end Heads

/-! ### Calls -/

/-- The same call, of a parse in other memory around its sections. -/
inductive SameCall : Call → Call → Prop where
  | reset : SameCall .reset .reset
  | parse (img : Image) (qsort : Qsort) (mem : Nat → Option UInt8) (same : SameBytes img mem) :
      SameCall (.parse img qsort) (.parse (img.around mem same) qsort)

/-- Sections that end in a NUL, and headers that do not wrap around. -/
structure ClosedImage (img : Image) : Prop where
  ended : NulEnded img
  fit : HeadersFit img

/-- A parse of such sections returns, and depends on nothing around them. -/
theorem ClosedImage.returns {img : Image} (closed : ClosedImage img) (qsort : Qsort) {tab : Tab}
    (ok : TabOk tab) :
    ∃ value tab', bwDwarfTabParse img qsort tab = .returned value tab' ∧
      ∀ mem (same : SameBytes img mem),
        bwDwarfTabParse (img.around mem same) qsort tab = .returned value tab' := by
  have ended := closed.ended
  exact ok.parse_enclosed qsort (parseScans_terminated img tab) (closed.fit.programsInside tab)

def Call.Closed : Call → Prop
  | .reset => True
  | .parse img _ => ClosedImage img

theorem SameCall.after {call other : Call} (same : SameCall call other) {tab : Tab}
    (ok : TabOk tab) (closed : call.Closed) :
    ∃ tab', call.after tab = some tab' ∧ other.after tab = some tab' := by
  cases same with
  | reset => exact ⟨_, rfl, rfl⟩
  | parse img qsort mem same =>
      obtain ⟨value, tab', here, elsewhere⟩ := ClosedImage.returns closed qsort ok
      refine ⟨tab', ?_, ?_⟩
      · rw [Call.after, here]
      · rw [Call.after, elsewhere mem same]

theorem afterCalls_same {calls others : List Call} (alike : List.Forall₂ SameCall calls others)
    {tab : Tab} (ok : TabOk tab) (closed : ∀ call ∈ calls, call.Closed) :
    ∃ tab', afterCalls calls tab = some tab' ∧ afterCalls others tab = some tab' := by
  induction alike generalizing tab with
  | nil => exact ⟨tab, rfl, rfl⟩
  | @cons call other calls others same _ inductionHypothesis =>
      obtain ⟨mid, first, firstToo⟩ := same.after ok (closed call List.mem_cons_self)
      obtain ⟨tab', rest, restToo⟩ := inductionHypothesis (Call.after_ok ok first)
        fun next member => closed next (List.mem_cons_of_mem _ member)
      refine ⟨tab', ?_, ?_⟩
      · rw [afterCalls, first]
        exact rest
      · rw [afterCalls, firstToo]
        exact restToo

/-- Any sequence of calls on a zeroed table returns from each of them, if the
sections of its parses end in a NUL and no `header_length` wraps around. The table
it leaves is the same whatever lies around the sections. -/
theorem calls_enclosed (calls others : List Call) (closed : ∀ call ∈ calls, call.Closed)
    (alike : List.Forall₂ SameCall calls others) :
    ∃ tab, afterCalls calls Tab.zeroed = some tab ∧ afterCalls others Tab.zeroed = some tab :=
  afterCalls_same alike tabOk_zeroed closed

/-- `unitV2` with a byte of padding. -/
def paddedUnit : List UInt8 := unitV2 ++ [0]

theorem paddedUnit_ended : NulEnded (lineImage paddedUnit) where
  last sec present _ := by
    cases sec with
    | line => decide +kernel
    | lineStr => exact absurd rfl present
    | debugStr => exact absurd rfl present

/-- `paddedUnit` before other bytes. -/
theorem paddedUnit_same :
    SameBytes (lineImage paddedUnit) (memAt 0x10000 (paddedUnit ++ [7, 7])) := by
  intro sec present
  cases sec with
  | line => decide +kernel
  | lineStr => exact absurd rfl present
  | debugStr => exact absurd rfl present

theorem paddedUnit_fit : HeadersFit (lineImage paddedUnit) := by
  have bytes : (lineImage paddedUnit).lineBytes = paddedUnit := lineImage_lineBytes (by decide)
  refine headersFit_of_one 40 ?_ ?_ ?_ ?_ <;> rw [bytes] <;> decide +kernel

theorem paddedUnit_enclosed : ∃ tab,
    afterCalls [.reset, .parse (lineImage paddedUnit) stableQsort] Tab.zeroed = some tab ∧
      afterCalls [.reset, .parse ((lineImage paddedUnit).around _ paddedUnit_same) stableQsort]
        Tab.zeroed = some tab := by
  refine calls_enclosed _ _ ?_ (.cons .reset (.cons (.parse _ _ _ paddedUnit_same) .nil))
  intro call member
  rcases List.mem_pair.mp member with rfl | rfl
  · exact trivial
  · exact ⟨paddedUnit_ended, paddedUnit_fit⟩

end Backwalk.DwarfLine
