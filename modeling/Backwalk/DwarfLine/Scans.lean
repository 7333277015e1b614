import Backwalk.DwarfLine.Calls

/-!
Contract: which string scans of `bw_dwarf_tab_parse` stay in their section.

`strlen` looks for a NUL and not for the end of the section. So a run keeps its
scans, and its cursor after them, inside the sections exactly when every string
it scans has a NUL at or after its first byte in its own section.

Owns the log invariant `Tidy`, which the readers and tables keep; the line
program scans no string.
-/

namespace Backwalk.DwarfLine

open Backwalk.Support

/-! ### Scans -/

/-- The end of a section. -/
def secEnd (img : Image) (sec : SectionId) : Nat := (img.sec sec).ptr + (img.sec sec).len

/-- Every byte the scan examined lies in its section, and so does the cursor
after it. -/
structure Scan.Confined (img : Image) (scan : Scan) : Prop where
  lo : (img.sec scan.sec).ptr ≤ scan.lo
  hi : scan.hi ≤ secEnd img scan.sec
  after : scan.after ≤ secEnd img .line

/-- There is a NUL in the section, at the first byte of the scan or after it. -/
def Scan.Terminated (img : Image) (scan : Scan) : Prop :=
  ∃ index, scan.lo ≤ index ∧ index < secEnd img scan.sec ∧ img.mem index = some 0

/-- A scan is of a section that is there, and ends at a NUL or where memory
does. -/
structure Scan.Examined (img : Image) (scan : Scan) : Prop where
  present : (img.sec scan.sec).ptr ≠ 0
  nonempty : scan.lo < scan.hi
  last : img.mem (scan.hi - 1) = some 0 ∨ img.mem (scan.hi - 1) = none ∨
    2 ^ img.bits ≤ scan.hi - 1

/-- The log of a run: if all scans start before a NUL of their section, they are
confined. -/
structure Logged (img : Image) (s : State) : Prop where
  examined : ∀ scan ∈ s.scans, scan.Examined img
  confined : (∀ scan ∈ s.scans, scan.Terminated img) → ∀ scan ∈ s.scans, scan.Confined img

/-- Under the same condition the cursor is in the section too. -/
structure Tidy (img : Image) (s : State) : Prop extends Logged img s where
  present : img.line.ptr ≠ 0
  endp : s.cur.endp = secEnd img .line
  ranged : (∀ scan ∈ s.scans, scan.Terminated img) →
    img.line.ptr ≤ s.cur.p ∧ s.cur.p ≤ s.cur.endp

theorem Tidy.inside {img : Image} {s : State} (tidy : Tidy img s)
    (terminated : ∀ scan ∈ s.scans, scan.Terminated img) : Inside img s.cur :=
  ⟨(tidy.ranged terminated).2, tidy.endp ▸ (img.linePlaced tidy.present).1⟩

/-- The relation that a function keeps when it keeps `Tidy`. -/
def TidyAfter (img : Image) (s t : State) : Prop := Tidy img s → Tidy img t

instance (img : Image) : Std.Refl (TidyAfter img) := ⟨fun _ tidy => tidy⟩

instance (img : Image) : IsTrans State (TidyAfter img) :=
  ⟨fun _ _ _ one two tidy => two (one tidy)⟩

/-! ### Readers and writers -/

section Instances

variable (img : Image)

theorem Reads.tidy {img : Image} {s t : State} (reads : Reads img s t) : TidyAfter img s t := by
  intro tidy
  have sameScans := reads.scans
  refine ⟨⟨sameScans ▸ tidy.examined, sameScans ▸ tidy.confined⟩, tidy.present,
    reads.endp.trans tidy.endp, fun terminated => ?_⟩
  rw [sameScans] at terminated
  have forward := reads.forward (tidy.inside terminated)
  rw [reads.endp]
  exact ⟨(tidy.ranged terminated).1.trans forward.1, forward.2⟩

instance (priority := low) tidy_of_reads {α : Type} (m : Parser α)
    [reads : Develops (Reads img) m] : Develops (TidyAfter img) m :=
  ⟨fun s => (reads.after s).tidy⟩

instance (text : List UInt8) : Develops (TidyAfter img) (bwAddStr text) where
  after s := by
    intro tidy
    unfold stateAfter
    rw [bwAddStr_run]
    split_ifs
    · exact tidy
    · exact ⟨⟨tidy.examined, tidy.confined⟩, tidy.present, tidy.endp, tidy.ranged⟩
    · exact tidy

instance (dirs : Dirs) (hasDir : Bool) (dirIdx : Nat) (path : List UInt8) :
    Develops (TidyAfter img) (bwAddFile dirs hasDir dirIdx path) := by
  unfold bwAddFile
  infer_instance

end Instances

/-! ### The scan itself -/

section Strlen

variable {img : Image}

/-- A string that was found ends with a NUL. -/
theorem cstrIn_ok {mem : Nat → Option UInt8} {fuel addr : Nat} {bytes : List UInt8}
    (found : cstrIn mem fuel addr = .ok bytes) : mem (addr + bytes.length) = some 0 := by
  induction fuel generalizing addr bytes with
  | zero => cases found
  | succ fuel inductionHypothesis =>
      obtain ⟨zero, rfl⟩ | ⟨byte, tail, -, -, rest, rfl⟩ := cstrIn_succ_eq_ok.mp found
      · exact zero
      · have ending := inductionHypothesis rest
        rwa [List.length_cons, show addr + (tail.length + 1) = addr + 1 + tail.length by omega]

/-- What was counted is mapped, and shorter than the bound. -/
theorem cstrIn_mapped {mem : Nat → Option UInt8} {fuel addr : Nat} {text : List UInt8}
    (found : cstrIn mem fuel addr = .ok text) :
    text.length < fuel ∧
      ∀ other, addr ≤ other → other < addr + text.length → (mem other).isSome = true := by
  induction fuel generalizing addr text with
  | zero => cases found
  | succ fuel inductionHypothesis =>
      obtain ⟨-, rfl⟩ | ⟨byte, tail, byteThere, -, rest, rfl⟩ := cstrIn_succ_eq_ok.mp found
      · refine ⟨Nat.succ_pos fuel, ?_⟩
        intro other from' before
        simp only [List.length_nil] at before
        omega
      · obtain ⟨short, mapped⟩ := inductionHypothesis rest
        refine ⟨Nat.succ_lt_succ short, ?_⟩
        intro other from' before
        rw [List.length_cons] at before
        rcases Nat.eq_or_lt_of_le from' with rfl | later
        · simp [byteThere]
        · exact mapped other later (by omega)

/-- A scan that found no NUL came to an unmapped address or to its bound. -/
theorem cstrIn_error {mem : Nat → Option UInt8} {fuel addr last : Nat}
    (missed : cstrIn mem fuel addr = .error last) :
    addr ≤ last ∧ (mem last = none ∨ last = addr + fuel) := by
  induction fuel generalizing addr with
  | zero => cases missed; exact ⟨le_refl _, Or.inr rfl⟩
  | succ fuel inductionHypothesis =>
      rw [cstrIn] at missed
      cases byteThere : mem addr with
      | none => rw [byteThere] at missed; cases missed; exact ⟨le_refl _, Or.inl byteThere⟩
      | some byte =>
          rw [byteThere] at missed
          dsimp only at missed
          split_ifs at missed
          cases rest : cstrIn mem fuel (addr + 1) with
          | ok tail => rw [rest] at missed; cases missed
          | error end' =>
              rw [rest] at missed
              cases missed
              obtain ⟨after, ending⟩ := inductionHypothesis rest
              exact ⟨by omega, ending.imp_right fun bound => by omega⟩

/-- A NUL ahead, with mapped bytes up to it, ends the scan there or before. -/
theorem cstrIn_stops {mem : Nat → Option UInt8} (fuel : Nat) {addr index : Nat}
    (after : addr ≤ index) (below : index < addr + fuel) (zero : mem index = some 0)
    (mapped : ∀ other, addr ≤ other → other < index → (mem other).isSome = true) :
    ∃ bytes, cstrIn mem fuel addr = .ok bytes ∧ addr + bytes.length ≤ index := by
  induction fuel generalizing addr with
  | zero => omega
  | succ fuel inductionHypothesis =>
      rw [cstrIn]
      by_cases atIndex : addr = index
      · rw [atIndex, zero]
        exact ⟨[], rfl, by simp⟩
      · obtain ⟨byte, byteThere⟩ := Option.isSome_iff_exists.mp (mapped addr (le_refl _) (by omega))
        rw [byteThere]
        dsimp only
        split_ifs
        · exact ⟨[], rfl, by simpa using after⟩
        · obtain ⟨tail, found, ends⟩ := inductionHypothesis (show addr + 1 ≤ index by omega)
            (by omega)
            fun other from' before => mapped other (by omega) before
          exact ⟨byte :: tail, by rw [found]; rfl, by simp only [List.length_cons]; omega⟩

theorem Image.placed (img : Image) (sec : SectionId) :
    (img.sec sec).Placed img.bits img.mem := by
  cases sec
  · exact img.linePlaced
  · exact img.lineStrPlaced
  · exact img.debugStrPlaced

/-- A scan from inside its section that has a NUL ahead stays inside. -/
theorem cstrIn_confined {sec : SectionId} {addr index : Nat} (present : (img.sec sec).ptr ≠ 0)
    (start : (img.sec sec).ptr ≤ addr) (after : addr ≤ index) (below : index < secEnd img sec)
    (zero : img.mem index = some 0) :
    ∃ bytes, cstrIn img.mem (2 ^ img.bits - addr) addr = .ok bytes ∧
      addr + bytes.length + 1 ≤ secEnd img sec := by
  obtain ⟨noWrap, mapped⟩ := img.placed sec present
  have ends : secEnd img sec < 2 ^ img.bits := noWrap
  obtain ⟨bytes, found, fits⟩ := cstrIn_stops (2 ^ img.bits - addr) after (by omega) zero
    fun other from' before => by
      have byteThere := mapped (other - (img.sec sec).ptr) (by unfold secEnd at below; omega)
      rwa [show (img.sec sec).ptr + (other - (img.sec sec).ptr) = other by omega] at byteThere
  exact ⟨bytes, found, by omega⟩

/-- All logged scans start before a NUL of their section. -/
def AllTerminated (img : Image) (s : State) : Prop := ∀ scan ∈ s.scans, scan.Terminated img

/-- One more scan in the log. -/
theorem Tidy.log {s : State} {scan : Scan} (tidy : Tidy img s) (examined : scan.Examined img)
    (confined : AllTerminated img s → scan.Terminated img → scan.Confined img) :
    Tidy img { s with scans := s.scans ++ [scan] } := by
  have earlier : AllTerminated img { s with scans := s.scans ++ [scan] } → AllTerminated img s :=
    fun terminated other member => terminated other (List.mem_append_left _ member)
  refine ⟨⟨fun other member => ?_, fun terminated other member => ?_⟩, tidy.present, tidy.endp,
    fun terminated => tidy.ranged (earlier terminated)⟩
  · rcases List.mem_append.mp member with before | isLast
    · exact tidy.examined other before
    · exact List.mem_singleton.mp isLast ▸ examined
  · rcases List.mem_append.mp member with before | isLast
    · exact tidy.confined (earlier terminated) other before
    · rw [List.mem_singleton.mp isLast]
      exact confined (earlier terminated)
        (terminated scan (List.mem_append_right _ (List.mem_singleton_self _)))

/-- `strlen` of a string that starts in a section, and lands in the line section
if it ends in its own. -/
theorem strlen_tidy {s : State} (sec : SectionId) {addr : Nat} {after : Nat → Nat}
    (tidy : Tidy img s) (present : (img.sec sec).ptr ≠ 0)
    (start : AllTerminated img s → (img.sec sec).ptr ≤ addr)
    (lands : AllTerminated img s → ∀ n, addr + n + 1 ≤ secEnd img sec →
      after n ≤ secEnd img .line) :
    Outcome (fun bytes t => Tidy img t ∧ t.cur = s.cur ∧
        (AllTerminated img t → AllTerminated img s ∧ addr + bytes.length + 1 ≤ secEnd img sec))
      (fun _ t => Tidy img t) (strlen img sec addr after s) := by
  rw [strlen_run]
  cases scanned : cstrIn img.mem (2 ^ img.bits - addr) addr with
  | ok bytes =>
      have examined : (⟨sec, addr, addr + bytes.length + 1, after bytes.length⟩ : Scan).Examined
          img := ⟨present, by simp only; omega, Or.inl (by simpa using cstrIn_ok scanned)⟩
      have ends : AllTerminated img s →
          (⟨sec, addr, addr + bytes.length + 1, after bytes.length⟩ : Scan).Terminated img →
          addr + bytes.length + 1 ≤ secEnd img sec := by
        rintro terminated ⟨index, from', below, zero⟩
        obtain ⟨bytes', found, fits⟩ := cstrIn_confined present (start terminated) from' below zero
        cases found.symm.trans scanned
        exact fits
      refine ⟨tidy.log examined fun terminated own => ?_, rfl, fun terminated => ?_⟩
      · exact ⟨start terminated, ends terminated own, lands terminated _ (ends terminated own)⟩
      · have earlier : AllTerminated img s :=
          fun other member => terminated other (List.mem_append_left _ member)
        exact ⟨earlier, ends earlier (terminated _ (List.mem_append_right _
          (List.mem_singleton_self _)))⟩
  | error last =>
      obtain ⟨from', ending⟩ := cstrIn_error scanned
      refine tidy.log ⟨present, by simp only; omega, Or.inr ?_⟩ fun terminated own => ?_
      · simp only [Nat.add_sub_cancel]
        exact ending.imp_right fun bound => by omega
      · -- A string with a NUL ahead is found, so this scan is not one of those.
        obtain ⟨index, further, below, zero⟩ := own
        obtain ⟨bytes, found, -⟩ := cstrIn_confined present (start terminated) further below zero
        cases found.symm.trans scanned

end Strlen

/-! ### Tables -/

section Tables

variable (img : Image)

/-- A function that ends in a tidy state however it ends. -/
theorem develops_of_outcome {α : Type} {m : Parser α}
    (outcome : ∀ s, Tidy img s → Outcome (fun _ t => Tidy img t) (fun _ t => Tidy img t) (m s)) :
    Develops (TidyAfter img) m :=
  ⟨fun s tidy => by
    have result := outcome s tidy
    cases ended : m s with
    | ok a t => exact stateAfter_of_ok ended ▸ result.ok ended
    | error why t => exact stateAfter_of_error ended ▸ result.error ended⟩

theorem outcome_of_develops {α : Type} {m : Parser α} [Develops (TidyAfter img) m] {s : State}
    (tidy : Tidy img s) : Outcome (fun _ t => Tidy img t) (fun _ t => Tidy img t) (m s) :=
  Outcome.intro (fun _ _ ended => Develops.ok (R := TidyAfter img) ended tidy)
    fun _ _ ended => Develops.error (R := TidyAfter img) ended tidy

instance (sec : SectionId) (offsetSize : Nat) :
    Develops (TidyAfter img) (pathStrp img sec offsetSize) := by
  refine develops_of_outcome img fun s tidy => ?_
  unfold pathStrp
  refine Outcome.bind (outcome_of_develops img tidy) fun off t _ tidyT => ?_
  refine Outcome.ite (fun _ => tidyT) fun inSection => ?_
  rw [not_or, Nat.not_le] at inSection
  rw [bind_of_ok (show getCur t = .ok t.cur t from rfl)]
  refine (strlen_tidy sec tidyT inSection.1 (fun _ => Nat.le_add_right _ _)
    fun terminated _ _ => ?_).mono (fun _ _ _ facts => facts.1) fun _ _ _ facts => facts
  exact tidyT.endp ▸ (tidyT.ranged terminated).2

instance (form offsetSize : Nat) : Develops (TidyAfter img) (bwFormPath img form offsetSize) := by
  unfold bwFormPath
  split <;> infer_instance

theorem Tidy.setP {img : Image} {s : State} {p : Nat} (tidy : Tidy img s)
    (ranged : AllTerminated img s → img.line.ptr ≤ p ∧ p ≤ s.cur.endp) :
    Tidy img { s with cur := { s.cur with p := p } } :=
  ⟨⟨tidy.examined, tidy.confined⟩, tidy.present, tidy.endp, ranged⟩

/-- `strlen` at the cursor. -/
theorem strlen_line_tidy {img : Image} {s : State} (tidy : Tidy img s) :
    Outcome (fun bytes t => Tidy img t ∧ t.cur = s.cur ∧ (AllTerminated img t →
        img.line.ptr ≤ img.ptrAdd s.cur.p (bytes.length + 1) ∧
          img.ptrAdd s.cur.p (bytes.length + 1) ≤ s.cur.endp))
      (fun _ t => Tidy img t)
      (strlen img .line s.cur.p (fun n => img.ptrAdd s.cur.p (n + 1)) s) := by
  have below : secEnd img .line < 2 ^ img.bits := (img.linePlaced tidy.present).1
  have stepped : ∀ n, s.cur.p + n + 1 ≤ secEnd img .line →
      img.ptrAdd s.cur.p (n + 1) = s.cur.p + n + 1 :=
    fun n fits => Nat.mod_eq_of_lt (by omega)
  refine (strlen_tidy .line tidy tidy.present (fun terminated => (tidy.ranged terminated).1)
    fun _ n fits => ?_).mono (fun bytes t _ facts => ?_) fun _ _ _ facts => facts
  · rw [stepped n fits]
    exact fits
  · refine ⟨facts.1, facts.2.1, fun terminated => ?_⟩
    obtain ⟨earlier, fits⟩ := facts.2.2 terminated
    have start := (tidy.ranged earlier).1
    rw [stepped _ fits, tidy.endp]
    exact ⟨by omega, fits⟩

instance : Develops (TidyAfter img) (bwDirV2 img) := by
  refine develops_of_outcome img fun s tidy => ?_
  rw [bwDirV2, bind_of_ok (show getCur s = .ok s.cur s from rfl)]
  refine Outcome.bind (strlen_line_tidy tidy) fun name t _ facts => ?_
  obtain ⟨tidyT, sameCur, ranged⟩ := facts
  refine Outcome.bind (outcome_of_develops img tidyT) fun off u ended tidyU => ?_
  obtain ⟨sameCurU, sameScans⟩ := bwAddStr_keeps ended
  refine tidyU.setP fun terminated => ?_
  rw [sameCurU, sameCur]
  exact ranged fun scan member => terminated scan (sameScans ▸ member)

instance tidy_bwDirsV2 (fuel : Nat) (dirs : Dirs) :
    Develops (TidyAfter img) (bwDirsV2 img fuel dirs) := by
  induction fuel generalizing dirs with
  | zero => unfold bwDirsV2; infer_instance
  | succ fuel inductionHypothesis => unfold bwDirsV2; infer_instance

instance (dirs : Dirs) : Develops (TidyAfter img) (bwFileV2 img dirs) := by
  refine develops_of_outcome img fun s tidy => ?_
  rw [bwFileV2, bind_of_ok (show getCur s = .ok s.cur s from rfl)]
  refine Outcome.bind (strlen_line_tidy tidy) fun name t _ facts => ?_
  obtain ⟨tidyT, sameCur, ranged⟩ := facts
  rw [bind_of_ok (show setP (img.ptrAdd s.cur.p (name.length + 1)) t = .ok () _ from rfl)]
  have moved := tidyT.setP (p := img.ptrAdd s.cur.p (name.length + 1)) fun terminated => by
    rw [sameCur]
    exact ranged terminated
  exact Outcome.intro (fun _ _ ended => Develops.ok (R := TidyAfter img) ended moved)
    fun _ _ ended => Develops.error (R := TidyAfter img) ended moved

instance tidy_bwFilesV2 (dirs : Dirs) (fuel : Nat) (files : Files) :
    Develops (TidyAfter img) (bwFilesV2 img dirs fuel files) := by
  induction fuel generalizing files with
  | zero => unfold bwFilesV2; infer_instance
  | succ fuel inductionHypothesis => unfold bwFilesV2; infer_instance

instance : Develops (TidyAfter img) (bwTablesV2 img) := by unfold bwTablesV2; infer_instance

instance tidy_bwDirEntry (formats : Formats) (offsetSize n f : Nat) (path : List UInt8) :
    Develops (TidyAfter img) (bwDirEntry img formats offsetSize n f path) := by
  induction n generalizing f path with
  | zero => unfold bwDirEntry; infer_instance
  | succ n inductionHypothesis => unfold bwDirEntry; infer_instance

instance tidy_bwDirsV5 (formats : Formats) (offsetSize n : Nat) (dirs : Dirs) :
    Develops (TidyAfter img) (bwDirsV5 img formats offsetSize n dirs) := by
  induction n generalizing dirs with
  | zero => unfold bwDirsV5; infer_instance
  | succ n inductionHypothesis => unfold bwDirsV5; infer_instance

instance tidy_bwFileEntry (formats : Formats) (offsetSize n f : Nat) (entry : FileEntry) :
    Develops (TidyAfter img) (bwFileEntry img formats offsetSize n f entry) := by
  induction n generalizing f entry with
  | zero => unfold bwFileEntry; infer_instance
  | succ n inductionHypothesis => unfold bwFileEntry; infer_instance

instance tidy_bwFilesV5 (formats : Formats) (offsetSize : Nat) (dirs : Dirs) (n : Nat)
    (files : Files) :
    Develops (TidyAfter img) (bwFilesV5 img formats offsetSize dirs n files) := by
  induction n generalizing files with
  | zero => unfold bwFilesV5; infer_instance
  | succ n inductionHypothesis => unfold bwFilesV5; infer_instance

instance (offsetSize : Nat) : Develops (TidyAfter img) (bwTablesV5 img offsetSize) := by
  unfold bwTablesV5
  infer_instance

instance (prologue : Prologue) : Develops (TidyAfter img) (bwTables img prologue) := by
  unfold bwTables
  infer_instance

end Tables

/-! ### Units -/

section Units

variable {img : Image} {s : State}

theorem Runs.logged {t : State} (runs : Runs img s t) (logged : Logged img s) : Logged img t :=
  ⟨runs.scans ▸ logged.examined, runs.scans ▸ logged.confined⟩

theorem logged_of_develops {α : Type} {m : Parser α} [Develops (TidyAfter img) m]
    (tidy : Tidy img s) : Outcome (fun _ t => Tidy img t) (fun _ t => Logged img t) (m s) :=
  (outcome_of_develops img tidy).mono (fun _ _ _ tidyT => tidyT) fun _ _ _ tidyT => tidyT.toLogged

/-- Tables and program of a unit whose end is in the section. -/
theorem bwUnitBody_tidy {prologue : Prologue} (tidy : Tidy img s)
    (ranged : AllTerminated img s → img.line.ptr ≤ prologue.unitEnd ∧
      prologue.unitEnd ≤ s.cur.endp) :
    Outcome (fun _ t => Tidy img t) (fun _ t => Logged img t) (bwUnitBody img prologue s) := by
  unfold bwUnitBody
  refine Outcome.bind (logged_of_develops tidy) fun files t ended tidyT => ?_
  have grownT : Grown img s t := Develops.ok ended
  -- From here on the cursor is the program's, and no string is scanned.
  refine Outcome.intro (fun exit u rest => ?_) fun why u rest => ?_
  · have runs : Runs img t u := Develops.ok rest
    have atEnd : u.cur.p = prologue.unitEnd := by
      obtain ⟨_, _, -, rest⟩ := bind_eq_ok.mp rest
      obtain ⟨_, _, -, rest⟩ := bind_eq_ok.mp rest
      obtain ⟨_, _, -, rest⟩ := bind_eq_ok.mp rest
      cases rest
      rfl
    refine ⟨runs.logged tidyT.toLogged, tidy.present, runs.endp.trans tidyT.endp,
      fun terminated => ?_⟩
    rw [atEnd, runs.endp, grownT.endp]
    exact ranged fun scan member =>
      terminated scan (runs.scans ▸ grownT.scans.subset member)
  · have runs : Runs img t u := Develops.error rest
    exact runs.logged tidyT.toLogged

theorem bwParseUnit_tidy (tidy : Tidy img s) :
    Outcome (fun _ t => Tidy img t) (fun _ t => Logged img t) (bwParseUnit img s) := by
  unfold bwParseUnit
  refine Outcome.bind (logged_of_develops tidy) fun opening t ended tidyT => ?_
  have reads : Reads img s t := Develops.ok ended
  have ranged : AllTerminated img t → img.line.ptr ≤ opening.unitEnd ∧
      opening.unitEnd ≤ t.cur.endp := by
    intro terminated
    have before : AllTerminated img s :=
      fun scan member => terminated scan (reads.scans ▸ member)
    obtain ⟨after, fits⟩ := bwPrologue_ends (tidy.inside before) ended
    have start := (tidy.ranged before).1
    exact ⟨by omega, reads.endp ▸ fits⟩
  cases opening with
  | skip unitEnd headerEnd prog => exact tidyT.setP ranged
  | go prologue => exact bwUnitBody_tidy tidyT ranged

theorem bwUnits_logged {fuel : Nat} (tidy : Tidy img s) :
    Outcome (fun _ t => Logged img t) (fun _ t => Logged img t) (bwUnits img fuel s) := by
  induction fuel generalizing s with
  | zero => exact tidy.toLogged
  | succ fuel inductionHypothesis =>
      unfold bwUnits
      split_ifs
      · have unit := bwParseUnit_tidy tidy
        cases ended : bwParseUnit img s with
        | ok exit t => exact inductionHypothesis (unit.ok ended)
        | error why t => cases why <;> exact unit.error ended
      · exact tidy.toLogged

end Units

/-! ### Whole parses -/

/-- The string scans of a parse. -/
def parseScans (img : Image) (tab : Tab) : List Scan :=
  if img.line.ptr = 0 ∨ img.line.len = 0 then [] else (unitsEnd img tab).scans

/-- A scan that stayed in its section found a NUL there. -/
theorem Scan.terminated_of_confined {img : Image} {scan : Scan} (examined : scan.Examined img)
    (confined : scan.Confined img) : scan.Terminated img := by
  obtain ⟨noWrap, mapped⟩ := img.placed scan.sec examined.present
  have nonempty := examined.nonempty
  have start := confined.lo
  have ends := confined.hi
  unfold secEnd at ends
  rcases examined.last with zero | unmapped | beyond
  · exact ⟨scan.hi - 1, by omega, by unfold secEnd; omega, zero⟩
  · have byteThere := mapped (scan.hi - 1 - (img.sec scan.sec).ptr) (by omega)
    rw [show (img.sec scan.sec).ptr + (scan.hi - 1 - (img.sec scan.sec).ptr) = scan.hi - 1 by omega,
      unmapped] at byteThere
    cases byteThere
  · omega

theorem logged_unitsEnd (img : Image) (tab : Tab) (present : img.line.ptr ≠ 0) :
    Logged img (unitsEnd img tab) := by
  have start : Tidy img (startState img tab) :=
    ⟨⟨(fun _ member => nomatch member), (fun _ _ member => nomatch member)⟩, present, rfl,
      fun _ => ⟨le_refl _, Nat.le_add_right _ _⟩⟩
  unfold unitsEnd
  cases ended : bwUnits img (img.line.len + 1) (startState img tab) with
  | ok _ t => exact stateAfter_of_ok ended ▸ (bwUnits_logged start).ok ended
  | error why t => exact stateAfter_of_error ended ▸ (bwUnits_logged start).error ended

/-- The string scans of a parse stay in their sections, and leave the cursor in
the line section, exactly when each of them starts at or before a NUL of its
section. -/
theorem parseScans_confined_iff (img : Image) (tab : Tab) :
    (∀ scan ∈ parseScans img tab, scan.Confined img) ↔
      ∀ scan ∈ parseScans img tab, scan.Terminated img := by
  unfold parseScans
  split_ifs with absent
  · simp
  · have logged := logged_unitsEnd img tab fun none => absent (Or.inl none)
    constructor
    · intro confined scan member
      exact Scan.terminated_of_confined (logged.examined scan member) (confined scan member)
    · exact logged.confined

/-- A version 2 unit of 16 bytes whose directory name `a` has no NUL before the
section ends. Two bytes further on there is one. -/
def overrunBytes : List UInt8 :=
  [12, 0, 0, 0, 2, 0, 6, 0, 0, 0, 1, 1, 0, 1, 1, 0x61, 0x62, 0, 0, 0]

theorem overrunBytes_placed : (Section.mk 0x1000 16).Placed 64 (memAt 0x1000 overrunBytes) := by
  decide

def overrunImage : Image where
  bits := 64
  mem := memAt 0x1000 overrunBytes
  line := ⟨0x1000, 16⟩
  lineStr := ⟨0, 0⟩
  debugStr := ⟨0, 0⟩
  width := wide
  linePlaced := overrunBytes_placed
  lineStrPlaced := absent_placed _ _
  debugStrPlaced := absent_placed _ _

/-- The scan of that name examines two bytes past the section and leaves the
cursor past its end. -/
theorem overrunImage_leaves_section :
    parseScans overrunImage Tab.zeroed = [⟨.line, 0x100f, 0x1012, 0x1012⟩] ∧
      ¬ ∀ scan ∈ parseScans overrunImage Tab.zeroed, scan.Confined overrunImage := by
  have scans : parseScans overrunImage Tab.zeroed = [⟨.line, 0x100f, 0x1012, 0x1012⟩] := by
    decide +kernel
  refine ⟨scans, fun confined => ?_⟩
  have ends := (confined ⟨.line, 0x100f, 0x1012, 0x1012⟩ (by rw [scans]; simp)).hi
  exact absurd ends (by decide)

end Backwalk.DwarfLine
