import Backwalk.DwarfLine.Enclosure
import Backwalk.DwarfLine.UnitRelocation

/-!
Contract: what becomes of a read that the end of a unit refuses, where the
section goes on.

Two runs are compared: one on a unit that is a section of its own, with nothing
mapped behind it, and one on the same bytes at the start of a longer section.
Where a function of the header or of the tables is refused in the first run, it
either stops in the second one too or leaves the cursor outside the unit.

Does not own the runs that are not refused: these go the same way.
-/

namespace Backwalk.DwarfLine

open Backwalk.Support

/-! ### A unit by itself -/

namespace Placement

variable (w : Placement)

/-- The first section is the unit by itself, at the address that it has in the
other one: nothing is mapped right behind it. The tables and the strings of the
other sections are the same. -/
structure Alone : Prop where
  same : w.src = w.dst
  base : w.base = []
  shift : w.shift = 0
  above : w.one.mem (w.src + w.len) = none
  strings : ∀ sec, sec ≠ .line → SameStrings w.two w.one sec

/-- The first run has kept to the unit. -/
structure Contained (s : State) : Prop where
  endp : s.cur.endp = w.src + w.len
  start : w.src ≤ s.cur.p
  within : s.cur.p ≤ w.src + w.len
  scans : ∀ scan ∈ s.scans, scan.sec = .line → scan.hi ≤ w.src + w.len

/-- The second run has read behind the unit, in its section. -/
def Behind (t : State) : Prop := Inside w.two t.cur ∧ w.dst + w.len < t.cur.p

/-- The second run has left the unit. What comes behind the last address is
`NULL`. -/
def Outside (t : State) : Prop :=
  t.cur.p = 0 ∨ (w.dst + w.len < t.cur.p ∧ t.cur.p < 2 ^ w.two.bits)

/-- The second run has come to the end of the unit, at least. -/
def AtLeast (t : State) : Prop :=
  t.cur.p = 0 ∨ (w.dst + w.len ≤ t.cur.p ∧ t.cur.p < 2 ^ w.two.bits)

end Placement

/-- A read is refused, at the end of the section or of what is mapped. -/
def Refused (why : Stop) : Prop := why = .short ∨ Segv why

theorem Benign.cases {why : Stop} (benign : Benign why) : why = .malformed ∨ Refused why := by
  rcases benign.refusal_or_segv with (isShort | isMalformed) | segv
  · exact Or.inr (Or.inl isShort)
  · exact Or.inl isMalformed
  · exact Or.inr (Or.inr segv)

section Rules

variable {w : Placement} {s t : State}

open Placement

theorem Placement.Contained.fits (alone : w.Alone) (contained : w.Contained s) : w.Fits s :=
  ⟨Or.inl alone.shift, Or.inl alone.base, contained.scans⟩

theorem Placement.Contained.inside (contained : w.Contained s) : Inside w.one s.cur :=
  ⟨contained.endp ▸ contained.within, contained.endp ▸ w.srcFits⟩

theorem Placement.Contained.setP {p : Nat} (contained : w.Contained s) (start : w.src ≤ p)
    (within : p ≤ w.src + w.len) :
    w.Contained { s with cur := { s.cur with p := p } } :=
  ⟨contained.endp, start, within, contained.scans⟩

theorem Placement.Behind.outside (behind : w.Behind t) : w.Outside t :=
  Or.inr ⟨behind.2, behind.1.1.trans_lt behind.1.2⟩

theorem Placement.Outside.atLeast (outside : w.Outside t) : w.AtLeast t :=
  outside.imp_right fun ⟨past, below⟩ => ⟨past.le, below⟩

end Rules

/-! ### Forward in the section -/

/-- The cursor has moved forward in its section, if at all, and no line string
was scanned. -/
structure Advances (img : Image) (s s' : State) : Prop where
  endp : s'.cur.endp = s.cur.endp
  forward : Inside img s.cur → s.cur.p ≤ s'.cur.p ∧ s'.cur.p ≤ s.cur.endp
  scans : ∀ scan ∈ s'.scans, scan.sec = .line → scan ∈ s.scans

theorem Advances.inside {img : Image} {s s' : State} (advances : Advances img s s')
    (inside : Inside img s.cur) : Inside img s'.cur :=
  ⟨advances.endp ▸ (advances.forward inside).2, advances.endp ▸ inside.2⟩

instance (img : Image) : Std.Refl (Advances img) :=
  ⟨fun _ => ⟨rfl, fun inside => ⟨le_refl _, inside.1⟩, fun _ member _ => member⟩⟩

instance (img : Image) : IsTrans State (Advances img) where
  trans _ _ _ one two :=
    { endp := two.endp.trans one.endp
      forward := fun inside =>
        ⟨(one.forward inside).1.trans (two.forward (one.inside inside)).1,
          one.endp ▸ (two.forward (one.inside inside)).2⟩
      scans := fun scan member ofLine => one.scans scan (two.scans scan member ofLine) ofLine }

section Forward

variable (img : Image)

instance (priority := low) advances_of_reads {α : Type} (m : Parser α)
    [reads : Develops (Reads img) m] : Develops (Advances img) m :=
  ⟨fun s => ⟨(reads.after s).endp, (reads.after s).forward, fun _ member _ =>
    (reads.after s).scans ▸ member⟩⟩

instance (text : List UInt8) : Develops (Advances img) (bwAddStr text) where
  after s := by
    unfold stateAfter
    rw [bwAddStr_run]
    split_ifs
    · exact refl_of (Advances img) s
    · exact ⟨rfl, fun inside => ⟨le_refl _, inside.1⟩, fun _ member _ => member⟩
    · exact refl_of (Advances img) s

instance (dirs : Dirs) (hasDir : Bool) (dirIdx : Nat) (path : List UInt8) :
    Develops (Advances img) (bwAddFile dirs hasDir dirIdx path) := by
  unfold bwAddFile
  infer_instance

/-- A string of another section. -/
theorem advances_strlen {sec : SectionId} (other : sec ≠ .line) (addr : Nat) (after : Nat → Nat) :
    Develops (Advances img) (strlen img sec addr after) where
  after s := by
    have logged : ∀ scan : Scan, scan.sec = sec →
        Advances img s { s with scans := s.scans ++ [scan] } := by
      intro scan ofSec
      refine ⟨rfl, fun inside => ⟨le_refl _, inside.1⟩, fun found member ofLine => ?_⟩
      rcases List.mem_append.mp member with earlier | last
      · exact earlier
      · rw [List.mem_singleton.mp last, ofSec] at ofLine
        exact absurd ofLine other
    unfold stateAfter
    rw [strlen_run]
    cases cstrIn img.mem (2 ^ img.bits - addr) addr <;> exact logged _ rfl

theorem advances_pathStrp {sec : SectionId} (other : sec ≠ .line) (offsetSize : Nat) :
    Develops (Advances img) (pathStrp img sec offsetSize) := by
  have scan := fun addr after => advances_strlen img other addr after
  unfold pathStrp
  infer_instance

instance (form offsetSize : Nat) : Develops (Advances img) (bwFormPath img form offsetSize) := by
  have lineStrp := advances_pathStrp img (show SectionId.lineStr ≠ .line by decide) offsetSize
  have strp := advances_pathStrp img (show SectionId.debugStr ≠ .line by decide) offsetSize
  unfold bwFormPath
  cases Form.ofCode form <;> infer_instance

instance advances_bwDirEntry (formats : Formats) (offsetSize n f : Nat) (path : List UInt8) :
    Develops (Advances img) (bwDirEntry img formats offsetSize n f path) := by
  induction n generalizing f path with
  | zero => unfold bwDirEntry; infer_instance
  | succ n inductionHypothesis => unfold bwDirEntry; infer_instance

instance advances_bwDirsV5 (formats : Formats) (offsetSize n : Nat) (dirs : Dirs) :
    Develops (Advances img) (bwDirsV5 img formats offsetSize n dirs) := by
  induction n generalizing dirs with
  | zero => unfold bwDirsV5; infer_instance
  | succ n inductionHypothesis => unfold bwDirsV5; infer_instance

instance advances_bwFileEntry (formats : Formats) (offsetSize n f : Nat) (entry : FileEntry) :
    Develops (Advances img) (bwFileEntry img formats offsetSize n f entry) := by
  induction n generalizing f entry with
  | zero => unfold bwFileEntry; infer_instance
  | succ n inductionHypothesis => unfold bwFileEntry; infer_instance

instance advances_bwFilesV5 (formats : Formats) (offsetSize : Nat) (dirs : Dirs) (n : Nat)
    (files : Files) : Develops (Advances img) (bwFilesV5 img formats offsetSize dirs n files) := by
  induction n generalizing files with
  | zero => unfold bwFilesV5; infer_instance
  | succ n inductionHypothesis => unfold bwFilesV5; infer_instance

instance (offsetSize : Nat) : Develops (Advances img) (bwTablesV5 img offsetSize) := by
  unfold bwTablesV5
  infer_instance

end Forward

section Forward

variable {w : Placement} {α : Type}

open Placement

instance (m : Parser α) [advances : Develops (Advances w.one) m] : Preserves w.Contained m where
  answer {s s' _} contained ended := by
    have moved : Advances w.one s s' := Develops.ok ended
    obtain ⟨further, within⟩ := moved.forward contained.inside
    refine ⟨moved.endp.trans contained.endp, contained.start.trans further,
      contained.endp ▸ within, fun scan member ofLine => ?_⟩
    exact contained.scans scan (moved.scans scan member ofLine) ofLine

instance (m : Parser α) [advances : Develops (Advances w.two) m] : Preserves w.Behind m where
  answer {t t' _} behind ended := by
    have moved : Advances w.two t t' := Develops.ok ended
    exact ⟨moved.inside behind.1, behind.2.trans_le (moved.forward behind.1).1⟩

end Forward

/-! ### Actions that are not refused -/

section Unrefused

variable {α : Type}

theorem not_refused_stop {why : Stop} (notShort : why ≠ .short)
    (noSegv : ∀ addr, why ≠ .fault (.segv addr)) :
    StopsFor (fun why => ¬ Refused why) (stop why : Parser α) :=
  ⟨fun ended => by
    cases ended
    rintro (isShort | ⟨addr, isSegv⟩)
    · exact notShort isShort
    · exact noSegv addr isSegv⟩

instance : StopsFor (fun why => ¬ Refused why) (stop .malformed : Parser α) :=
  not_refused_stop nofun nofun

instance (array : ArrayName) (index : Nat) :
    StopsFor (fun why => ¬ Refused why) (stop (.fault (.index array index)) : Parser α) :=
  not_refused_stop nofun nofun

instance : StopsFor (fun why => ¬ Refused why) (stop (.fault .divZero) : Parser α) :=
  not_refused_stop nofun nofun

instance : StopsFor (fun why => ¬ Refused why) (stop (.fault .fuel) : Parser α) :=
  not_refused_stop nofun nofun

instance : StopsFor (fun why => ¬ Refused why) getTab :=
  StopsFor.of_answers fun s => ⟨_, s, rfl⟩

instance (tab : Tab) : StopsFor (fun why => ¬ Refused why) (setTab tab) :=
  StopsFor.of_answers fun _ => ⟨_, _, rfl⟩

instance (flag : Bool) : StopsFor (fun why => ¬ Refused why) (setDwarf64 flag) :=
  StopsFor.of_answers fun _ => ⟨_, _, rfl⟩

instance (array : ArrayName) (index size : Nat) :
    StopsFor (fun why => ¬ Refused why) (checkIndex array index size) := by
  unfold checkIndex
  infer_instance

instance (a b : Nat) : StopsFor (fun why => ¬ Refused why) (cDiv a b) := by
  unfold cDiv
  infer_instance

instance (a b : Nat) : StopsFor (fun why => ¬ Refused why) (cMod a b) := by
  unfold cMod
  infer_instance

instance (a : CArray α) (index : Nat) : StopsFor (fun why => ¬ Refused why) (a.read index) := by
  unfold CArray.read
  infer_instance

instance (a : CArray α) (index : Nat) (value : α) :
    StopsFor (fun why => ¬ Refused why) (a.write index value) := by
  unfold CArray.write
  infer_instance

instance (text : List UInt8) : StopsFor (fun why => ¬ Refused why) (bwAddStr text) := by
  unfold bwAddStr
  infer_instance

instance (off : Nat) : StopsFor (fun why => ¬ Refused why) (poolStr off) := by
  unfold poolStr
  refine @StopsFor.bind _ _ _ _ _ _ _ inferInstance fun tab => ?_
  split <;> infer_instance

instance (dirs : Dirs) (hasDir : Bool) (dirIdx : Nat) (path : List UInt8) :
    StopsFor (fun why => ¬ Refused why) (bwAddFile dirs hasDir dirIdx path) := by
  unfold bwAddFile
  infer_instance

instance (prologue : Prologue) (img : Image) (regs : Regs) (opAdvance : Nat) :
    StopsFor (fun why => ¬ Refused why) (bwAdvance img prologue regs opAdvance) := by
  unfold bwAdvance
  infer_instance

end Unrefused

/-! ### Readers -/

/-- Where the first action is refused in a unit by itself, the second does not
answer or has read behind the unit. -/
class Overrun (w : Placement) {α : Type} (m₁ m₂ : Parser α) : Prop where
  overruns : ∀ {s t}, w.Alone → w.Moved s t → w.Contained s →
    Overruns Refused w.Behind (m₁ s) (m₂ t)

section Readers

variable {w : Placement} {s t : State} {α β γ δ : Type}

open Placement

/-- A part of the first run that kept to the unit, and its counterpart. -/
theorem Placement.Alone.paired {result₁ : EStateM.Result Stop State α}
    {result₂ : EStateM.Result Stop State β} {a : α} {b : β} {s' t' : State}
    {post : α → β → State → State → Prop} (alone : w.Alone) (contained : w.Contained s')
    (follows : Follows w.pairing post result₁ result₂) (ended : result₁ = .ok a s')
    (endedTwo : result₂ = .ok b t') : w.Moved s' t' ∧ post a b s' t' := by
  obtain ⟨b', u, endedTwo', related, atEnd⟩ := follows.ok ended (contained.fits alone)
  cases endedTwo.symm.trans endedTwo'
  exact ⟨related, atEnd⟩

/-- A run that was not refused is followed. -/
theorem Placement.Alone.next {m₁ : Parser α} (m₂ : Parser α) [tracks : w.Tracks m₁ m₂]
    [contains : Preserves w.Contained m₁] {a : α} {s' : State} (alone : w.Alone)
    (related : w.Moved s t) (contained : w.Contained s) (ended : m₁ s = .ok a s') :
    ∃ t', m₂ t = .ok a t' ∧ w.Moved s' t' ∧ w.Contained s' := by
  have contained' := contains.answer contained ended
  obtain ⟨b, t', endedTwo, related', same⟩ :=
    (tracks.follows related).ok ended (contained'.fits alone)
  subst same
  exact ⟨t', endedTwo, related', contained'⟩

/-- The rule for a first action that answers in the unit and is followed. -/
theorem Placement.Alone.sequence {late : State → Prop} {m₁ : Parser α} {m₂ : Parser β}
    {f₁ : α → Parser γ} {f₂ : β → Parser δ} {post : α → β → State → State → Prop}
    [contains : Preserves w.Contained m₁] [∀ b, Preserves late (f₂ b)] (alone : w.Alone)
    (contained : w.Contained s) (first : Overruns Refused late (m₁ s) (m₂ t))
    (follows : Follows w.pairing post (m₁ s) (m₂ t))
    (next : ∀ a b s' t', m₁ s = .ok a s' → w.Moved s' t' → w.Contained s' → post a b s' t' →
      Overruns Refused late (f₁ a s') (f₂ b t')) :
    Overruns Refused late ((m₁ >>= f₁) s) ((m₂ >>= f₂) t) := by
  refine Overruns.bind first fun a b s' t' ended endedTwo => ?_
  have contained' := contains.answer contained ended
  obtain ⟨related', atEnd⟩ := alone.paired contained' follows ended endedTwo
  exact next a b s' t' ended related' contained' atEnd

/-- The first action reads the same value in both runs. -/
theorem Placement.Alone.bind {m₁ m₂ : Parser α} {f₁ : α → Parser β} {f₂ : α → Parser γ}
    [tracks : w.Tracks m₁ m₂] [Preserves w.Contained m₁] [first : Overrun w m₁ m₂]
    [∀ a, Preserves w.Behind (f₂ a)] (alone : w.Alone) (related : w.Moved s t)
    (contained : w.Contained s)
    (next : ∀ a s' t', m₁ s = .ok a s' → w.Moved s' t' → w.Contained s' →
      Overruns Refused w.Behind (f₁ a s') (f₂ a t')) :
    Overruns Refused w.Behind ((m₁ >>= f₁) s) ((m₂ >>= f₂) t) := by
  refine alone.sequence contained (first.overruns alone related contained)
    (tracks.follows related) ?_
  rintro _ a s' t' ended related' contained' rfl
  exact next a s' t' ended related' contained'

/-- The first action is never refused. -/
theorem Placement.Alone.unrefused {late : State → Prop} {m₁ : Parser α} {m₂ : Parser β}
    {f₁ : α → Parser γ} {f₂ : β → Parser δ} {post : α → β → State → State → Prop}
    [StopsFor (fun why => ¬ Refused why) m₁] [Preserves w.Contained m₁]
    [∀ b, Preserves late (f₂ b)] (alone : w.Alone) (contained : w.Contained s)
    (follows : Follows w.pairing post (m₁ s) (m₂ t))
    (next : ∀ a b s' t', m₁ s = .ok a s' → w.Moved s' t' → w.Contained s' → post a b s' t' →
      Overruns Refused late (f₁ a s') (f₂ b t')) :
    Overruns Refused late ((m₁ >>= f₁) s) ((m₂ >>= f₂) t) :=
  alone.sequence contained (Overruns.of_stopsFor m₁ s _) follows next

instance (priority := low) overrun_of_stopsFor (m₁ m₂ : Parser α)
    [StopsFor (fun why => ¬ Refused why) m₁] : Overrun w m₁ m₂ :=
  ⟨fun _ _ _ => Overruns.of_stopsFor m₁ _ _⟩

instance (why : Stop) : Overrun w (stop why : Parser α) (stop why) :=
  ⟨fun _ _ _ => Overruns.of_error rfl⟩

instance Overrun.bind (m₁ m₂ : Parser α) (f₁ f₂ : α → Parser β) [w.Tracks m₁ m₂]
    [Preserves w.Contained m₁] [first : Overrun w m₁ m₂] [next : ∀ a, Overrun w (f₁ a) (f₂ a)]
    [∀ a, Preserves w.Behind (f₂ a)] : Overrun w (m₁ >>= f₁) (m₂ >>= f₂) where
  overruns alone related contained :=
    alone.bind related contained fun a _ _ _ related' contained' =>
      (next a).overruns alone related' contained'

instance {c : Prop} {dec₁ dec₂ : Decidable c} (m₁ m₂ n₁ n₂ : Parser α) [yes : Overrun w m₁ m₂]
    [no : Overrun w n₁ n₂] : Overrun w (@ite _ c dec₁ m₁ n₁) (@ite _ c dec₂ m₂ n₂) := by
  by_cases holds : c
  · rw [if_pos holds, if_pos holds]
    exact yes
  · rw [if_neg holds, if_neg holds]
    exact no

/-- Bytes that the unit has not. -/
theorem Placement.Moved.no_room {n : Nat} (related : w.Moved s t)
    (refused : ¬ bwCurOk w.one s.cur n = true) : w.src + w.len < s.cur.p + n := by
  have start := related.start
  have within := related.within
  have srcPos := w.srcPos
  simp only [bwCurOk, ne_eq, Bool.and_eq_true, decide_eq_true_eq,
    curRoom_of_inside related.inside, related.endp] at refused
  omega

/-- A step over bytes that the unit has not leads behind it. -/
theorem Placement.Moved.behind {n : Nat} (related : w.Moved s t)
    (refused : ¬ bwCurOk w.one s.cur n = true) (room : bwCurOk w.two t.cur n = true) :
    w.Behind { t with cur := { t.cur with p := w.two.ptrAdd t.cur.p n } } := by
  have start := related.start
  have short := related.no_room refused
  have inside := related.inside_two
  obtain ⟨stepped, fits⟩ := ptrAdd_of_inside inside room
  refine ⟨⟨by simp only [stepped]; exact fits, inside.2⟩, ?_⟩
  simp only [stepped]
  rw [related.cur]
  simp only [move]
  omega

/-- The bytes of the unit can be read. -/
theorem Placement.peek_unit {addr n : Nat} (start : w.src ≤ addr)
    (fits : addr + n ≤ w.src + w.len) :
    ∃ bytes, peek w.one addr n = .ok bytes := by
  induction n generalizing addr with
  | zero => exact ⟨[], rfl⟩
  | succ n inductionHypothesis =>
      have srcFits := w.srcFits
      have dstFits := w.dstFits
      have next : w.one.ptrAdd addr 1 = addr + 1 := Nat.mod_eq_of_lt (by omega)
      have mapped : (w.one.mem addr).isSome = true := by
        rw [← mem_move start (by omega)]
        exact w.mapped _ (by unfold move; omega) (by unfold move; omega)
      obtain ⟨byte, there⟩ := Option.isSome_iff_exists.mp mapped
      obtain ⟨bytes, rest⟩ := inductionHypothesis (show w.src ≤ addr + 1 by omega) (by omega)
      exact ⟨byte :: bytes, by rw [peek, there, next]; dsimp only; rw [rest]; rfl⟩

instance (n : Nat) : Overrun w (bwUint w.one n) (bwUint w.two n) where
  overruns {s t} _ related _ := by
    rw [bwUint_run, bwUint_run]
    by_cases room : bwCurOk w.one s.cur n = true
    · obtain ⟨bytes, peeked⟩ := peek_unit related.start (related.room room).1
      rw [if_pos room, peeked]
      exact fun _ _ stopped => nomatch stopped
    · intro _ _ _ _ value t' answered
      split_ifs at answered with roomTwo
      cases peeked : peek w.two t.cur.p n with
      | error last => rw [peeked] at answered; cases answered
      | ok bytes =>
          rw [peeked] at answered
          cases answered
          exact related.behind room roomTwo

instance : Overrun w (bwU8 w.one) (bwU8 w.two) := by unfold bwU8; infer_instance
instance : Overrun w (bwU16 w.one) (bwU16 w.two) := by unfold bwU16; infer_instance
instance : Overrun w (bwU32 w.one) (bwU32 w.two) := by unfold bwU32; infer_instance
instance : Overrun w (bwU64 w.one) (bwU64 w.two) := by unfold bwU64; infer_instance

instance (n : Nat) : Overrun w (bwSkip w.one n) (bwSkip w.two n) where
  overruns {s t} _ related _ := by
    rw [bwSkip_run, bwSkip_run]
    by_cases room : bwCurOk w.one s.cur n = true
    · rw [if_pos room]
      exact fun _ _ stopped => nomatch stopped
    · intro _ _ _ _ _ t' answered
      split_ifs at answered with roomTwo
      cases answered
      exact related.behind room roomTwo

instance overrun_bwUlebFrom (fuel r shift : Nat) :
    Overrun w (bwUlebFrom w.one fuel r shift) (bwUlebFrom w.two fuel r shift) := by
  induction fuel generalizing r shift with
  | zero => unfold bwUlebFrom; infer_instance
  | succ fuel inductionHypothesis => unfold bwUlebFrom; infer_instance

instance : Overrun w (bwUleb w.one) (bwUleb w.two) := by unfold bwUleb; infer_instance

instance overrun_bwSlebFrom (fuel r shift : Nat) :
    Overrun w (bwSlebFrom w.one fuel r shift) (bwSlebFrom w.two fuel r shift) := by
  induction fuel generalizing r shift with
  | zero => unfold bwSlebFrom; infer_instance
  | succ fuel inductionHypothesis => unfold bwSlebFrom; infer_instance

instance : Overrun w (bwSleb w.one) (bwSleb w.two) := by unfold bwSleb; infer_instance

instance overrun_pathString (fuel : Nat) :
    Overrun w (pathString w.one fuel) (pathString w.two fuel) := by
  induction fuel with
  | zero => unfold pathString; infer_instance
  | succ fuel inductionHypothesis =>
      rw [pathString_succ, pathString_succ]
      infer_instance

instance (fuel : Nat) : Overrun w (skipString w.one fuel) (skipString w.two fuel) := by
  rw [skipString_eq, skipString_eq]
  infer_instance

instance (form offsetSize : Nat) :
    Overrun w (bwFormSkip w.one form offsetSize) (bwFormSkip w.two form offsetSize) := by
  unfold bwFormSkip
  simp only [size_two, scanFuel_two]
  cases Form.ofCode form <;> infer_instance

instance (form : Nat) : Overrun w (bwFormUdata w.one form) (bwFormUdata w.two form) := by
  unfold bwFormUdata
  cases Form.ofCode form <;> infer_instance

instance (offsetSize : Nat) :
    Overrun w (bwOffset w.one offsetSize) (bwOffset w.two offsetSize) := by
  unfold bwOffset
  infer_instance

end Readers

/-! ### Tables of version 5 -/

section TablesV5

variable {w : Placement} {s t : State}

open Placement

/-- The strings of the other sections end or do not end in both images. -/
theorem overrun_pathStrp {sec : SectionId} (other : sec ≠ .line) (offsetSize : Nat) :
    Overrun w (pathStrp w.one sec offsetSize) (pathStrp w.two sec offsetSize) where
  overruns {s t} alone related contained := by
    have strings := alone.strings sec other
    have advances := fun addr after => advances_strlen w.two other addr after
    unfold pathStrp
    refine alone.bind related contained fun off s₁ t₁ _ _ _ => ?_
    by_cases outside : (w.two.sec sec).ptr = 0 ∨ (w.two.sec sec).len ≤ off
    · rw [if_pos outside, if_pos (by rwa [strings.absent, strings.len])]
      exact fun _ _ stopped => nomatch stopped
    · rw [if_neg outside, if_neg (by rwa [strings.absent, strings.len]),
        bind_of_ok (show getCur s₁ = .ok s₁.cur s₁ from rfl),
        bind_of_ok (show getCur t₁ = .ok t₁.cur t₁ from rfl), strlen_run, strlen_run]
      rw [not_or, Nat.not_le] at outside
      cases scanned : cstrIn w.two.mem (2 ^ w.two.bits - ((w.two.sec sec).ptr + off))
          ((w.two.sec sec).ptr + off) with
      | error last => exact Overruns.of_error rfl
      | ok bytes =>
          rw [strings.text off outside.2 bytes scanned]
          exact fun _ _ stopped => nomatch stopped

instance (form offsetSize : Nat) :
    Overrun w (bwFormPath w.one form offsetSize) (bwFormPath w.two form offsetSize) := by
  have lineStrp : Overrun w (pathStrp w.one .lineStr offsetSize)
    (pathStrp w.two .lineStr offsetSize) := overrun_pathStrp (by decide) offsetSize
  have strp : Overrun w (pathStrp w.one .debugStr offsetSize)
    (pathStrp w.two .debugStr offsetSize) := overrun_pathStrp (by decide) offsetSize
  unfold bwFormPath
  simp only [scanFuel_two]
  cases Form.ofCode form <;> infer_instance

set_option synthInstance.maxSize 512 in
instance overrun_bwFormatPairs (n i : Nat) (lnct form : CArray Nat) :
    Overrun w (bwFormatPairs w.one n i lnct form) (bwFormatPairs w.two n i lnct form) := by
  induction n generalizing i lnct form with
  | zero => unfold bwFormatPairs; infer_instance
  | succ n inductionHypothesis => unfold bwFormatPairs; infer_instance

instance (lnct form : CArray Nat) :
    Overrun w (bwFormats w.one lnct form) (bwFormats w.two lnct form) := by
  unfold bwFormats
  infer_instance

instance overrun_bwDirEntry (formats : Formats) (offsetSize n f : Nat) (path : List UInt8) :
    Overrun w (bwDirEntry w.one formats offsetSize n f path)
      (bwDirEntry w.two formats offsetSize n f path) := by
  induction n generalizing f path with
  | zero => unfold bwDirEntry; infer_instance
  | succ n inductionHypothesis => unfold bwDirEntry; infer_instance

set_option synthInstance.maxSize 512 in
instance overrun_bwFileEntry (formats : Formats) (offsetSize n f : Nat) (entry : FileEntry) :
    Overrun w (bwFileEntry w.one formats offsetSize n f entry)
      (bwFileEntry w.two formats offsetSize n f entry) := by
  induction n generalizing f entry with
  | zero => unfold bwFileEntry; infer_instance
  | succ n inductionHypothesis => unfold bwFileEntry; infer_instance

theorem bwDirsV5_overruns {formats : Formats} {offsetSize n : Nat} {dirs : Dirs}
    (alone : w.Alone) (related : w.Moved s t) (contained : w.Contained s) :
    Overruns Refused w.Behind (bwDirsV5 w.one formats offsetSize n dirs s)
      (bwDirsV5 w.two formats offsetSize n (w.shiftDirs dirs) t) := by
  induction n generalizing s t dirs with
  | zero => exact fun _ _ stopped => nomatch stopped
  | succ n inductionHypothesis =>
      unfold bwDirsV5
      refine alone.bind related contained fun path s₁ t₁ _ related₁ contained₁ => ?_
      refine alone.unrefused contained₁ (bwAddStr_follows path related₁) ?_
      rintro off _ s₂ t₂ - related₂ contained₂ rfl
      refine alone.unrefused contained₂ (writeSlot_follows related₂) ?_
      rintro slots _ s₃ t₃ - related₃ contained₃ ⟨rfl, -, -⟩
      exact inductionHypothesis related₃ contained₃

theorem bwFilesV5_overruns {formats : Formats} {offsetSize n : Nat} {dirs : Dirs} {files : Files}
    (alone : w.Alone) (related : w.Moved s t) (contained : w.Contained s)
    (dirsOk : DirsOk s.tab dirs) :
    Overruns Refused w.Behind (bwFilesV5 w.one formats offsetSize dirs n files s)
      (bwFilesV5 w.two formats offsetSize (w.shiftDirs dirs) n (w.shiftFiles files) t) := by
  induction n generalizing s t files with
  | zero => exact fun _ _ stopped => nomatch stopped
  | succ n inductionHypothesis =>
      unfold bwFilesV5
      refine alone.bind related contained fun entry s₁ t₁ ended₁ related₁ contained₁ => ?_
      have grown₁ : Grown w.one s s₁ := Develops.ok ended₁
      have dirs₁ := dirsOk.mono grown₁.tab
      refine alone.unrefused contained₁ (bwAddFile_follows related₁ dirs₁) ?_
      rintro off _ s₂ t₂ ended₂ related₂ contained₂ rfl
      have grown₂ : Grown w.one s₁ s₂ := Develops.ok ended₂
      refine alone.unrefused contained₂ (writeSlot_follows related₂) ?_
      rintro slots _ s₃ t₃ - related₃ contained₃ ⟨rfl, rfl, -⟩
      exact inductionHypothesis related₃ contained₃ (dirs₁.mono grown₂.tab)

theorem bwTablesV5_overruns {offsetSize : Nat} (alone : w.Alone) (related : w.Moved s t)
    (contained : w.Contained s) :
    Overruns Refused w.Behind (bwTablesV5 w.one offsetSize s) (bwTablesV5 w.two offsetSize t) := by
  have noDirs : w.shiftDirs ⟨dirOffInit, 0⟩ = ⟨dirOffInit, 0⟩ := by
    rw [shiftDirs, shiftArray_init fun _ => rfl]
  have noFiles : w.shiftFiles ⟨fileOffInit, 0⟩ = ⟨fileOffInit, 0⟩ := by
    rw [shiftFiles, shiftArray_init fun _ => rfl]
  unfold bwTablesV5
  refine alone.bind related contained fun dirFormats s₁ t₁ ended₁ related₁ contained₁ => ?_
  have dirFormatsOk := ((bwFormats_safe related.ok rfl rfl).ok ended₁).2
  refine alone.bind related₁ contained₁ fun dirCount s₂ t₂ _ related₂ contained₂ => ?_
  split_ifs with tooMany
  · exact Overruns.of_error rfl
  have startDirs : DirsOk s₂.tab ⟨dirOffInit, 0⟩ :=
    ⟨rfl, Nat.zero_le _, fun _ below => absurd below (Nat.not_lt_zero _)⟩
  have dirsFollow := @bwDirsV5_follows w s₂ t₂ dirFormats offsetSize dirCount ⟨dirOffInit, 0⟩
    related₂
  have dirsOverrun := @bwDirsV5_overruns w s₂ t₂ dirFormats offsetSize dirCount ⟨dirOffInit, 0⟩
    alone related₂ contained₂
  rw [noDirs] at dirsFollow dirsOverrun
  refine alone.sequence contained₂ dirsOverrun dirsFollow ?_
  rintro dirs _ s₃ t₃ ended₃ related₃ contained₃ rfl
  have dirsOk := ((bwDirsV5_safe related₂.ok dirFormatsOk startDirs
    (by simp only; omega)).ok ended₃).2
  refine alone.bind related₃ contained₃ fun fileFormats s₄ t₄ ended₄ related₄ contained₄ => ?_
  have grown₄ : Grown w.one s₃ s₄ := Develops.ok ended₄
  refine alone.bind related₄ contained₄ fun fileCount s₅ t₅ ended₅ related₅ contained₅ => ?_
  have grown₅ : Grown w.one s₄ s₅ := Develops.ok ended₅
  split_ifs
  · exact Overruns.of_error rfl
  · exact noFiles ▸ bwFilesV5_overruns alone related₅ contained₅
      ((dirsOk.mono grown₄.tab).mono grown₅.tab)

end TablesV5

/-! ### Tables of versions 2 to 4 -/

section Outside

variable {w : Placement} {t : State} {α : Type}

open Placement

/-- A step that leads behind the unit. -/
theorem Placement.outside_of_step {p n : Nat} (past : w.dst + w.len < p + n)
    (fits : p + n ≤ 2 ^ w.two.bits) :
    w.Outside { t with cur := { t.cur with p := w.two.ptrAdd p n } } := by
  unfold Placement.Outside
  simp only [Image.ptrAdd]
  rcases Nat.eq_or_lt_of_le fits with wraps | small
  · exact Or.inl (by rw [wraps, Nat.mod_self])
  · rw [Nat.mod_eq_of_lt small]
    exact Or.inr ⟨past, small⟩

/-- One more byte, from the end of the unit on. -/
theorem Placement.AtLeast.step (atLeast : w.AtLeast t) (nonzero : t.cur.p ≠ 0) :
    w.Outside { t with cur := { t.cur with p := w.two.ptrAdd t.cur.p 1 } } := by
  obtain ⟨atEnd, below⟩ := atLeast.resolve_left nonzero
  exact outside_of_step (by omega) below

theorem preserves_outside_of_cur {m : Parser α}
    (keeps : ∀ {s t a}, m s = .ok a t → t.cur = s.cur) : Preserves w.Outside m where
  answer {s s' _} outside ended := by
    unfold Placement.Outside
    rw [keeps ended]
    exact outside

instance (why : Stop) : Preserves w.Outside (stop why : Parser α) := ⟨fun _ ended => nomatch ended⟩

instance : Preserves w.Outside getTab :=
  preserves_outside_of_cur fun ended => by cases ended; rfl

instance (array : ArrayName) (index size : Nat) :
    Preserves w.Outside (checkIndex array index size) := by
  unfold checkIndex
  infer_instance

instance (a : CArray α) (index : Nat) : Preserves w.Outside (a.read index) := by
  unfold CArray.read
  infer_instance

instance (a : CArray α) (index : Nat) (value : α) : Preserves w.Outside (a.write index value) := by
  unfold CArray.write
  infer_instance

instance (text : List UInt8) : Preserves w.Outside (bwAddStr text) :=
  preserves_outside_of_cur fun ended => (bwAddStr_keeps ended).1

instance (off : Nat) : Preserves w.Outside (poolStr off) := by
  unfold poolStr
  refine @Preserves.bind _ _ _ _ _ _ _ inferInstance fun tab => ?_
  split <;> infer_instance

instance (dirs : Dirs) (hasDir : Bool) (dirIdx : Nat) (path : List UInt8) :
    Preserves w.Outside (bwAddFile dirs hasDir dirIdx path) := by
  unfold bwAddFile
  infer_instance

instance : Preserves w.Outside (bwU8 w.two) where
  answer {t t' _} outside ended := by
    rw [bwU8, bwUint_run] at ended
    split_ifs at ended with room
    cases peeked : peek w.two t.cur.p 1 with
    | error last => rw [peeked] at ended; cases ended
    | ok bytes =>
        rw [peeked] at ended
        cases ended
        exact outside.atLeast.step (bwCurOk_nonzero room)

instance preserves_outside_bwUlebFrom (fuel r shift : Nat) :
    Preserves w.Outside (bwUlebFrom w.two fuel r shift) := by
  induction fuel generalizing r shift with
  | zero => unfold bwUlebFrom; infer_instance
  | succ fuel inductionHypothesis => unfold bwUlebFrom; infer_instance

instance : Preserves w.Outside (bwUleb w.two) := by unfold bwUleb; infer_instance

/-- A list that goes on to the end of the unit ends behind it. -/
theorem bwListEnd_outside {list list' : α} {t' : State} (atLeast : w.AtLeast t)
    (ended : bwListEnd w.two list t = .ok list' t') : w.Outside t' := by
  obtain ⟨_, u, skipped, rest⟩ := bind_eq_ok.mp ended
  cases rest
  rw [bwSkip_run] at skipped
  split_ifs at skipped with room
  cases skipped
  exact atLeast.step (bwCurOk_nonzero room)

/-- The step over a string that ends behind the unit. -/
theorem Placement.outside_of_string {bytes : List UInt8} {p : Nat} (below : p < 2 ^ w.two.bits)
    (found : cstrIn w.two.mem (2 ^ w.two.bits - p) p = .ok bytes)
    (past : w.dst + w.len < p + (bytes.length + 1)) :
    w.Outside { t with cur := { t.cur with p := w.two.ptrAdd p (bytes.length + 1) } } := by
  have short := (cstrIn_mapped found).1
  exact outside_of_step past (by omega)

theorem Placement.AtLeast.over {bytes : List UInt8} {u : State} (atLeast : w.AtLeast t)
    (nonzero : t.cur.p ≠ 0)
    (found : cstrIn w.two.mem (2 ^ w.two.bits - t.cur.p) t.cur.p = .ok bytes) :
    w.Outside { u with cur := { u.cur with p := w.two.ptrAdd t.cur.p (bytes.length + 1) } } := by
  obtain ⟨atEnd, below⟩ := atLeast.resolve_left nonzero
  exact outside_of_string below found (by omega)

/-- A string that was counted, and the rest of what is done with it. -/
theorem strlen_eq_ok {img : Image} {sec : SectionId} {addr : Nat} {after : Nat → Nat}
    {bytes : List UInt8} {u : State} (ended : strlen img sec addr after t = .ok bytes u) :
    cstrIn img.mem (2 ^ img.bits - addr) addr = .ok bytes ∧
      u = { t with scans := t.scans ++
        [⟨sec, addr, addr + bytes.length + 1, after bytes.length⟩] } := by
  rw [strlen_run] at ended
  cases scanned : cstrIn img.mem (2 ^ img.bits - addr) addr with
  | error last => rw [scanned] at ended; cases ended
  | ok found => rw [scanned] at ended; cases ended; exact ⟨rfl, rfl⟩

theorem strlen_of_found {img : Image} {sec : SectionId} {addr : Nat} (after : Nat → Nat)
    {bytes : List UInt8} (found : cstrIn img.mem (2 ^ img.bits - addr) addr = .ok bytes) :
    strlen img sec addr after t = .ok bytes { t with scans := t.scans ++
      [⟨sec, addr, addr + bytes.length + 1, after bytes.length⟩] } := by
  rw [strlen_run, found]

/-- What an entry of `include_directories` does to the cursor. -/
theorem bwDirV2_eq_ok {img : Image} {off : Int} {t' : State}
    (ended : bwDirV2 img t = .ok off t') :
    ∃ (bytes : List UInt8) (u : State),
      cstrIn img.mem (2 ^ img.bits - t.cur.p) t.cur.p = .ok bytes ∧ u.cur = t.cur ∧
      u.scans = t.scans ++ [⟨.line, t.cur.p, t.cur.p + bytes.length + 1,
        img.ptrAdd t.cur.p (bytes.length + 1)⟩] ∧
      t' = { u with cur := { u.cur with p := img.ptrAdd t.cur.p (bytes.length + 1) } } := by
  rw [bwDirV2, bind_of_ok (show getCur t = .ok t.cur t from rfl)] at ended
  obtain ⟨bytes, u, scanned, ended⟩ := bind_eq_ok.mp ended
  obtain ⟨found, rfl⟩ := strlen_eq_ok scanned
  obtain ⟨off', v, added, ended⟩ := bind_eq_ok.mp ended
  obtain ⟨sameCur, sameScans⟩ := bwAddStr_keeps added
  cases ended
  exact ⟨bytes, v, found, sameCur, sameScans, rfl⟩

theorem bwDirsV2_outside {fuel : Nat} {dirs dirs' : Dirs} {t' : State} (atLeast : w.AtLeast t)
    (ended : bwDirsV2 w.two fuel dirs t = .ok dirs' t') : w.Outside t' := by
  induction fuel generalizing t dirs with
  | zero => cases ended
  | succ fuel inductionHypothesis =>
      rw [bwDirsV2, bind_of_ok (show getCur t = .ok t.cur t from rfl)] at ended
      split_ifs at ended with room
      · obtain ⟨first, u, loaded, ended⟩ := bind_eq_ok.mp ended
        rw [load_unmoved loaded] at ended
        split_ifs at ended
        · obtain ⟨off, t₁, entry, rest⟩ := bind_eq_ok.mp ended
          obtain ⟨bytes, v, found, -, -, rfl⟩ := bwDirV2_eq_ok entry
          obtain ⟨slots, t₂, written, rest⟩ := bind_eq_ok.mp rest
          have outside := atLeast.over (u := v) (bwCurOk_nonzero room) found
          exact inductionHypothesis (Preserves.answer outside written).atLeast rest
        · exact bwListEnd_outside atLeast ended
      · exact bwListEnd_outside atLeast ended

instance (fuel : Nat) (dirs : Dirs) : Preserves w.Outside (bwDirsV2 w.two fuel dirs) :=
  ⟨fun outside ended => bwDirsV2_outside outside.atLeast ended⟩

/-- An entry of `file_names` behind its name. -/
def fileTail (img : Image) (dirs : Dirs) (name : List UInt8) : Parser Int := do
  let dirIdx ← bwUleb img
  let _mtime ← bwUleb img
  let _length ← bwUleb img
  bwAddFile dirs true dirIdx name

theorem bwFileV2_eq (img : Image) (dirs : Dirs) : bwFileV2 img dirs = (do
    let c ← getCur
    let name ← strlen img .line c.p fun n => img.ptrAdd c.p (n + 1)
    setP (img.ptrAdd c.p (name.length + 1))
    fileTail img dirs name) := rfl

instance (dirs : Dirs) (name : List UInt8) : Preserves w.Outside (fileTail w.two dirs name) := by
  unfold fileTail
  infer_instance

/-- What an entry of `file_names` does up to its name. -/
theorem bwFileV2_eq_ok {img : Image} {dirs : Dirs} {off : Int} {t' : State}
    (ended : bwFileV2 img dirs t = .ok off t') :
    ∃ (bytes : List UInt8) (u : State),
      cstrIn img.mem (2 ^ img.bits - t.cur.p) t.cur.p = .ok bytes ∧ u.cur = t.cur ∧
      u.scans = t.scans ++ [⟨.line, t.cur.p, t.cur.p + bytes.length + 1,
        img.ptrAdd t.cur.p (bytes.length + 1)⟩] ∧
      fileTail img dirs bytes
        { u with cur := { u.cur with p := img.ptrAdd t.cur.p (bytes.length + 1) } } =
          .ok off t' := by
  rw [bwFileV2_eq, bind_of_ok (show getCur t = .ok t.cur t from rfl)] at ended
  obtain ⟨bytes, u, scanned, rest⟩ := bind_eq_ok.mp ended
  obtain ⟨found, same⟩ := strlen_eq_ok scanned
  exact ⟨bytes, u, found, by rw [same], by rw [same], by rw [same] at rest ⊢; exact rest⟩

theorem bwFilesV2_outside {fuel : Nat} {dirs : Dirs} {files files' : Files} {t' : State}
    (atLeast : w.AtLeast t) (ended : bwFilesV2 w.two dirs fuel files t = .ok files' t') :
    w.Outside t' := by
  induction fuel generalizing t files with
  | zero => cases ended
  | succ fuel inductionHypothesis =>
      rw [bwFilesV2, bind_of_ok (show getCur t = .ok t.cur t from rfl)] at ended
      split_ifs at ended with room
      · obtain ⟨first, u, loaded, ended⟩ := bind_eq_ok.mp ended
        rw [load_unmoved loaded] at ended
        split_ifs at ended
        · obtain ⟨off, t₁, entry, ended⟩ := bind_eq_ok.mp ended
          obtain ⟨slots, t₂, written, ended⟩ := bind_eq_ok.mp ended
          obtain ⟨bytes, v, found, -, -, tail⟩ := bwFileV2_eq_ok entry
          have outside := Preserves.answer (atLeast.over (bwCurOk_nonzero room) found) tail
          exact inductionHypothesis (Preserves.answer outside written).atLeast ended
        · exact bwListEnd_outside atLeast ended
      · exact bwListEnd_outside atLeast ended

instance (dirs : Dirs) (fuel : Nat) (files : Files) :
    Preserves w.Outside (bwFilesV2 w.two dirs fuel files) :=
  ⟨fun outside ended => bwFilesV2_outside outside.atLeast ended⟩

end Outside

section TablesV2

variable {w : Placement} {s t : State}

open Placement

/-- A string of a unit by itself ends in the unit, or not at all. -/
theorem Placement.Alone.string {bytes : List UInt8} (alone : w.Alone) {fuel addr : Nat}
    (within : addr ≤ w.src + w.len) (found : cstrIn w.one.mem fuel addr = .ok bytes) :
    addr + bytes.length + 1 ≤ w.src + w.len := by
  have nul := cstrIn_ok found
  obtain ⟨-, mapped⟩ := cstrIn_mapped found
  by_contra beyond
  rcases Nat.eq_or_lt_of_le (show w.src + w.len ≤ addr + bytes.length by omega) with atEnd | after
  · rw [← atEnd, alone.above] at nul
    cases nul
  · have there := mapped (w.src + w.len) within after
    rw [alone.above] at there
    cases there

theorem Placement.Contained.string {bytes : List UInt8} {u : State} (alone : w.Alone)
    (contained : w.Contained s)
    (found : cstrIn w.one.mem (2 ^ w.one.bits - s.cur.p) s.cur.p = .ok bytes)
    (sameCur : u.cur = s.cur)
    (scans : u.scans = s.scans ++ [⟨.line, s.cur.p, s.cur.p + bytes.length + 1,
      w.one.ptrAdd s.cur.p (bytes.length + 1)⟩]) :
    w.Contained { u with cur := { u.cur with p := w.one.ptrAdd s.cur.p (bytes.length + 1) } } := by
  have fits := alone.string contained.within found
  have srcFits := w.srcFits
  have start := contained.start
  have stepped : w.one.ptrAdd s.cur.p (bytes.length + 1) = s.cur.p + (bytes.length + 1) :=
    Nat.mod_eq_of_lt (by omega)
  have here : w.Contained u := by
    refine ⟨sameCur ▸ contained.endp, sameCur ▸ start, sameCur ▸ contained.within, ?_⟩
    intro scan member ofLine
    rw [scans] at member
    rcases List.mem_append.mp member with earlier | last
    · exact contained.scans scan earlier ofLine
    · rw [List.mem_singleton.mp last]
      exact fits
  exact here.setP (by omega) (by omega)

theorem bwDirV2_contained {off : Int} {s' : State} (alone : w.Alone) (contained : w.Contained s)
    (ended : bwDirV2 w.one s = .ok off s') : w.Contained s' := by
  obtain ⟨bytes, u, found, sameCur, scans, rfl⟩ := bwDirV2_eq_ok ended
  exact contained.string alone found sameCur scans

theorem bwFileV2_contained {dirs : Dirs} {off : Int} {s' : State} (alone : w.Alone)
    (contained : w.Contained s) (ended : bwFileV2 w.one dirs s = .ok off s') :
    w.Contained s' := by
  have tails : ∀ name, Develops (Advances w.one) (fileTail w.one dirs name) := by
    intro name
    unfold fileTail
    infer_instance
  obtain ⟨bytes, u, found, sameCur, scans, tail⟩ := bwFileV2_eq_ok ended
  exact Preserves.answer (contained.string alone found sameCur scans) tail

theorem bwDirsV2_contained {fuel : Nat} {dirs dirs' : Dirs} {s' : State} (alone : w.Alone)
    (contained : w.Contained s) (ended : bwDirsV2 w.one fuel dirs s = .ok dirs' s') :
    w.Contained s' := by
  induction fuel generalizing s dirs with
  | zero => cases ended
  | succ fuel inductionHypothesis =>
      rw [bwDirsV2, bind_of_ok (show getCur s = .ok s.cur s from rfl)] at ended
      split_ifs at ended
      · obtain ⟨first, u, loaded, ended⟩ := bind_eq_ok.mp ended
        rw [load_unmoved loaded] at ended
        split_ifs at ended
        · obtain ⟨off, s₁, entry, ended⟩ := bind_eq_ok.mp ended
          obtain ⟨slots, s₂, written, ended⟩ := bind_eq_ok.mp ended
          have contained₁ := bwDirV2_contained alone contained entry
          exact inductionHypothesis (Preserves.answer contained₁ written) ended
        · exact Preserves.answer contained ended
      · exact Preserves.answer contained ended

theorem bwFilesV2_contained {fuel : Nat} {dirs : Dirs} {files files' : Files} {s' : State}
    (alone : w.Alone) (contained : w.Contained s)
    (ended : bwFilesV2 w.one dirs fuel files s = .ok files' s') : w.Contained s' := by
  induction fuel generalizing s files with
  | zero => cases ended
  | succ fuel inductionHypothesis =>
      rw [bwFilesV2, bind_of_ok (show getCur s = .ok s.cur s from rfl)] at ended
      split_ifs at ended
      · obtain ⟨first, u, loaded, ended⟩ := bind_eq_ok.mp ended
        rw [load_unmoved loaded] at ended
        split_ifs at ended
        · obtain ⟨off, s₁, entry, ended⟩ := bind_eq_ok.mp ended
          obtain ⟨slots, s₂, written, ended⟩ := bind_eq_ok.mp ended
          have contained₁ := bwFileV2_contained alone contained entry
          exact inductionHypothesis (Preserves.answer contained₁ written) ended
        · exact Preserves.answer contained ended
      · exact Preserves.answer contained ended

theorem bwTablesV2_contained {files : Files} {s' : State} (alone : w.Alone)
    (contained : w.Contained s) (ended : bwTablesV2 w.one s = .ok files s') : w.Contained s' := by
  obtain ⟨off, s₁, added, ended⟩ := bind_eq_ok.mp ended
  obtain ⟨slots, s₂, written, ended⟩ := bind_eq_ok.mp ended
  obtain ⟨dirs, s₃, read, ended⟩ := bind_eq_ok.mp ended
  obtain ⟨slots', s₄, written', ended⟩ := bind_eq_ok.mp ended
  have contained₂ := Preserves.answer (Preserves.answer contained added) written
  have contained₄ := Preserves.answer (bwDirsV2_contained alone contained₂ read) written'
  exact bwFilesV2_contained alone contained₄ ended

theorem bwTables_contained {prologue : Prologue} {files : Files} {s' : State} (alone : w.Alone)
    (contained : w.Contained s) (ended : bwTables w.one prologue s = .ok files s') :
    w.Contained s' := by
  unfold bwTables at ended
  split_ifs at ended
  · exact Preserves.answer contained ended
  · exact bwTablesV2_contained alone contained ended

/-- A string that ends in the unit ends there in the first run too. -/
theorem Placement.Moved.found {bytes : List UInt8} (related : w.Moved s t)
    (found : cstrIn w.two.mem (2 ^ w.two.bits - t.cur.p) t.cur.p = .ok bytes)
    (inUnit : t.cur.p + (bytes.length + 1) ≤ w.dst + w.len) :
    ∃ text, cstrIn w.one.mem (2 ^ w.one.bits - s.cur.p) s.cur.p = .ok text := by
  have start := related.start
  have srcFits := w.srcFits
  have place : t.cur.p = w.move s.cur.p := by rw [related.cur]
  rw [place] at inUnit
  simp only [move] at inUnit
  have nul : w.one.mem (s.cur.p + bytes.length) = some 0 := by
    rw [← mem_move (by omega) (by omega), move_add start, ← place]
    exact cstrIn_ok found
  obtain ⟨text, foundOne, -⟩ := cstrIn_stops (2 ^ w.one.bits - s.cur.p)
    (Nat.le_add_right s.cur.p bytes.length) (by omega) nul fun other from' before => by
      rw [← mem_move (w := w) (by omega) (by omega)]
      exact w.mapped _ (by unfold move; omega) (by have := w.dstFits; unfold move; omega)
  exact ⟨text, foundOne⟩

/-- A string that does not end in the unit leads behind it. -/
theorem Placement.Moved.unterminated {bytes : List UInt8} {last : Nat} {u : State}
    (related : w.Moved s t)
    (missed : cstrIn w.one.mem (2 ^ w.one.bits - s.cur.p) s.cur.p = .error last)
    (found : cstrIn w.two.mem (2 ^ w.two.bits - t.cur.p) t.cur.p = .ok bytes) :
    w.Outside { u with cur := { u.cur with p := w.two.ptrAdd t.cur.p (bytes.length + 1) } } := by
  refine outside_of_string (related.inside_two.1.trans_lt related.inside_two.2) found ?_
  by_contra inUnit
  obtain ⟨text, foundOne⟩ := related.found found (Nat.le_of_not_lt inUnit)
  cases missed.symm.trans foundOne

theorem bwDirV2_overruns (related : w.Moved s t) :
    Overruns Refused w.Outside (bwDirV2 w.one s) (bwDirV2 w.two t) := by
  intro e s' stopped refused off t' answered
  obtain ⟨bytes, u, found, -, -, rfl⟩ := bwDirV2_eq_ok answered
  rw [bwDirV2, bind_of_ok (show getCur s = .ok s.cur s from rfl)] at stopped
  cases scanned : cstrIn w.one.mem (2 ^ w.one.bits - s.cur.p) s.cur.p with
  | error last => exact related.unterminated scanned found
  | ok text =>
      -- Once the string is counted nothing is refused.
      exfalso
      rcases bind_eq_error.mp stopped with early | ⟨name, u, -, late⟩
      · rw [strlen_run, scanned] at early
        cases early
      rcases bind_eq_error.mp late with early | ⟨_, _, -, late⟩
      · have unrefused : StopsFor (fun why => ¬ Refused why) (bwAddStr name) := inferInstance
        exact unrefused.reason early refused
      · cases late

instance (dirs : Dirs) (name : List UInt8) :
    Overrun w (fileTail w.one dirs name) (fileTail w.two (w.shiftDirs dirs) name) := by
  unfold fileTail
  infer_instance

theorem bwFileV2_overruns {dirs : Dirs} (alone : w.Alone) (related : w.Moved s t)
    (contained : w.Contained s) :
    Overruns Refused w.Outside (bwFileV2 w.one dirs s) (bwFileV2 w.two (w.shiftDirs dirs) t) := by
  intro e s' stopped refused off t' answered
  cases scanned : cstrIn w.one.mem (2 ^ w.one.bits - s.cur.p) s.cur.p with
  | error last =>
      obtain ⟨bytes, u, found, -, -, tail⟩ := bwFileV2_eq_ok answered
      exact Preserves.answer (related.unterminated scanned found) tail
  | ok text =>
      have counted : strlen w.one .line s.cur.p (fun n => w.one.ptrAdd s.cur.p (n + 1)) s = _ :=
        strlen_of_found _ scanned
      have contained₁ := contained.string (u := { s with scans := s.scans ++ [_] }) alone scanned
        rfl rfl
      obtain ⟨name, t₁, countedTwo, related₁, rfl, -, curTwo, inUnit⟩ :=
        (@strlen_follows w s t _ (fun n => w.two.ptrAdd t.cur.p (n + 1)) related).ok counted
          ⟨Or.inl alone.shift, Or.inl alone.base, contained₁.scans⟩
      rw [bwFileV2_eq, bind_of_ok (show getCur s = .ok s.cur s from rfl), bind_of_ok counted]
        at stopped
      rw [bwFileV2_eq, bind_of_ok (show getCur t = .ok t.cur t from rfl), bind_of_ok countedTwo]
        at answered
      have moved := related₁.step (n := name.length + 1) inUnit
      rw [curTwo] at moved
      have overruns : Overruns Refused w.Behind (fileTail w.one dirs name _)
        (fileTail w.two (w.shiftDirs dirs) name _) := Overrun.overruns alone moved contained₁
      rw [bind_of_ok (show setP (w.two.ptrAdd t.cur.p (name.length + 1)) t₁ = .ok () _ from rfl),
        curTwo] at answered
      exact (overruns e s' stopped refused off t' answered).outside

/-- A cursor for which the unit has no byte left is at the end of the unit. -/
theorem Placement.Moved.atLeast (related : w.Moved s t) (refused : ¬ bwCurOk w.one s.cur 1 = true) :
    w.AtLeast t := by
  have short := related.no_room refused
  have start := related.start
  have inside := related.inside_two
  refine Or.inr ⟨?_, inside.1.trans_lt inside.2⟩
  rw [related.cur]
  simp only [move]
  omega

/-- The head of the two string list loops: where the unit has no byte left, the
other loop starts at its end. -/
theorem listHead_overruns {α : Type} (list list' : α) (more : UInt8 → Prop)
    [∀ byte, Decidable (more byte)] {one two : Parser α} (related : w.Moved s t)
    (next : Overruns Refused w.Outside (one s) (two t))
    (past : ∀ list'' t', w.AtLeast t → (do
      let c ← getCur
      if bwCurOk w.two c 1 then
        let first ← load w.two c.p
        if more first then two else bwListEnd w.two list'
      else bwListEnd w.two list') t = .ok list'' t' → w.Outside t') :
    Overruns Refused w.Outside
      ((do
        let c ← getCur
        if bwCurOk w.one c 1 then
          let first ← load w.one c.p
          if more first then one else bwListEnd w.one list
        else bwListEnd w.one list) s)
      ((do
        let c ← getCur
        if bwCurOk w.two c 1 then
          let first ← load w.two c.p
          if more first then two else bwListEnd w.two list'
        else bwListEnd w.two list') t) := by
  by_cases room : bwCurOk w.one s.cur 1 = true
  · obtain ⟨fits, roomTwo⟩ := related.room room
    obtain ⟨bytes, peeked⟩ := peek_unit related.start fits
    have sameByte : w.two.mem t.cur.p = w.one.mem s.cur.p := by
      rw [related.cur]
      exact mem_move related.start fits
    rw [bind_of_ok (show getCur s = .ok s.cur s from rfl),
      bind_of_ok (show getCur t = .ok t.cur t from rfl), if_pos room, if_pos roomTwo]
    cases byteThere : w.one.mem s.cur.p with
    | none => rw [peek, byteThere] at peeked; cases peeked
    | some first =>
        have readOne : load w.one s.cur.p s = .ok first s := by rw [load_run, byteThere]
        have readTwo : load w.two t.cur.p t = .ok first t := by rw [load_run, sameByte, byteThere]
        have skipped : ∀ e u, bwListEnd w.one list s ≠ .error e u := by
          intro e u stopped
          rw [bwListEnd, bind_of_ok (show bwSkip w.one 1 s = .ok () _ by
            rw [bwSkip_run, if_pos room])] at stopped
          cases stopped
        rw [bind_of_ok readOne, bind_of_ok readTwo]
        split_ifs
        · exact next
        · exact fun e u stopped => absurd stopped (skipped e u)
  · exact fun _ _ _ _ list'' t' answered => past list'' t' (related.atLeast room) answered

theorem bwDirsV2_overruns {fuel : Nat} {dirs : Dirs} (alone : w.Alone) (related : w.Moved s t)
    (contained : w.Contained s) :
    Overruns Refused w.Outside (bwDirsV2 w.one fuel dirs s)
      (bwDirsV2 w.two fuel (w.shiftDirs dirs) t) := by
  induction fuel generalizing s t dirs with
  | zero => exact Overruns.of_error rfl
  | succ fuel inductionHypothesis =>
      refine listHead_overruns dirs (w.shiftDirs dirs)
        (fun first => first ≠ 0 ∧ dirs.ndir < bwDwarfDirsMax) related ?_
        fun _ _ atLeast ended =>
          @bwDirsV2_outside w t (fuel + 1) (w.shiftDirs dirs) _ _ atLeast ended
      refine Overruns.bind (bwDirV2_overruns related) fun off off' s₁ t₁ ended₁ ended₁' => ?_
      have contained₁ := bwDirV2_contained alone contained ended₁
      obtain ⟨related₁, rfl⟩ := alone.paired contained₁ (bwDirV2_follows related) ended₁ ended₁'
      refine alone.unrefused contained₁ (writeSlot_follows related₁) ?_
      rintro slots _ s₂ t₂ - related₂ contained₂ ⟨rfl, -, -⟩
      exact inductionHypothesis related₂ contained₂

theorem bwFilesV2_overruns {fuel : Nat} {dirs : Dirs} {files : Files} (alone : w.Alone)
    (related : w.Moved s t) (contained : w.Contained s) (dirsOk : DirsOk s.tab dirs) :
    Overruns Refused w.Outside (bwFilesV2 w.one dirs fuel files s)
      (bwFilesV2 w.two (w.shiftDirs dirs) fuel (w.shiftFiles files) t) := by
  induction fuel generalizing s t files with
  | zero => exact Overruns.of_error rfl
  | succ fuel inductionHypothesis =>
      refine listHead_overruns files (w.shiftFiles files)
        (fun first => first ≠ 0 ∧ files.nfile < bwDwarfFilesMax) related ?_
        fun _ _ atLeast ended =>
          @bwFilesV2_outside w t (fuel + 1) _ (w.shiftFiles files) _ _ atLeast ended
      refine Overruns.bind (bwFileV2_overruns alone related contained)
        fun off off' s₁ t₁ ended₁ ended₁' => ?_
      have contained₁ := bwFileV2_contained alone contained ended₁
      have grown₁ : Grown w.one s s₁ := Develops.ok ended₁
      obtain ⟨related₁, rfl⟩ :=
        alone.paired contained₁ (bwFileV2_follows related dirsOk) ended₁ ended₁'
      refine alone.unrefused contained₁ (writeSlot_follows related₁) ?_
      rintro slots _ s₂ t₂ - related₂ contained₂ ⟨rfl, rfl, -⟩
      exact inductionHypothesis related₂ contained₂ (dirsOk.mono grown₁.tab)

theorem bwTablesV2_overruns (alone : w.Alone) (related : w.Moved s t)
    (contained : w.Contained s) :
    Overruns Refused w.Outside (bwTablesV2 w.one s) (bwTablesV2 w.two t) := by
  have initDirs : w.shiftArray dirOffInit = dirOffInit := shiftArray_init fun _ => rfl
  have initFiles : w.shiftArray fileOffInit = fileOffInit := shiftArray_init fun _ => rfl
  have hole : w.shiftOff (-1) = -1 := rfl
  have noDirs : ∀ tab, SlotsOk tab dirOffInit 0 bwDwarfDirsMax :=
    fun _ => ⟨rfl, Nat.zero_le _, fun _ below => nomatch below⟩
  unfold bwTablesV2
  refine alone.unrefused contained (bwAddStr_follows [] related) ?_
  rintro off _ s₁ t₁ ended₁ related₁ contained₁ rfl
  have slot := ((bwAddStr_safe [] related.ok).ok ended₁).2.1
  refine alone.unrefused contained₁ (initDirs ▸ writeSlot_follows related₁) ?_
  rintro slots _ s₂ t₂ ended₂ related₂ contained₂ ⟨rfl, rfl, -⟩
  have filled := ((writeSlot_safe related₁.ok (noDirs _) (by decide) slot).ok ended₂).2.2
  refine Overruns.bind (@bwDirsV2_overruns w s₂ t₂ _ ⟨slots, 1⟩ alone related₂ contained₂)
    fun dirs dirs' s₃ t₃ ended₃ ended₃' => ?_
  have contained₃ := bwDirsV2_contained alone contained₂ ended₃
  obtain ⟨related₃, same⟩ := alone.paired contained₃
    (@bwDirsV2_follows w s₂ t₂ _ ⟨slots, 1⟩ related₂) ended₃ ended₃'
  subst same
  have dirsOk := ((bwDirsV2_safe related₂.ok (show DirsOk s₂.tab ⟨slots, 1⟩ from filled)
    (by simp only; omega)).ok ended₃).2
  refine alone.unrefused contained₃ (initFiles ▸ hole ▸ writeSlot_follows related₃) ?_
  rintro slots₂ _ s₄ t₄ - related₄ contained₄ ⟨rfl, rfl, -⟩
  exact @bwFilesV2_overruns _ _ _ _ _ ⟨slots₂, 1⟩ alone related₄ contained₄ dirsOk

/-- Where the tables of a unit by itself are refused, the other run stops in them
or leaves the unit. -/
theorem bwTables_overruns {prologue prologue' : Prologue} (alone : w.Alone)
    (related : w.Moved s t) (contained : w.Contained s)
    (version : prologue'.version = prologue.version)
    (offsetSize : prologue'.offsetSize = prologue.offsetSize) :
    Overruns Refused w.Outside (bwTables w.one prologue s) (bwTables w.two prologue' t) := by
  unfold bwTables
  rw [version, offsetSize]
  split_ifs
  · exact (bwTablesV5_overruns alone related contained).mono fun _ => Behind.outside
  · exact bwTablesV2_overruns alone related contained

end TablesV2

/-! ### Headers -/

section Header

variable {w : Placement} {s t : State}

open Placement

instance : StopsFor (fun why => ¬ Refused why) getCur :=
  StopsFor.of_answers fun s => ⟨_, s, rfl⟩

instance (version : Nat) : Overrun w (bwAddrSeg w.one version) (bwAddrSeg w.two version) := by
  unfold bwAddrSeg
  infer_instance

instance (version : Nat) : Overrun w (bwMaxOps w.one version) (bwMaxOps w.two version) := by
  unfold bwMaxOps
  infer_instance

instance : Overrun w (bwHeaderLength w.one) (bwHeaderLength w.two) where
  overruns {s t} alone related contained := by
    rw [bwHeaderLength, bwHeaderLength, bind_of_ok (show getCur s = .ok s.cur s from rfl),
      bind_of_ok (show getCur t = .ok t.cur t from rfl), related.cur]
    split_ifs
    · exact Overrun.overruns alone related contained
    · exact Overrun.overruns alone related contained

instance overrun_bwStdLens (n op : Nat) (stdLen : CArray Nat) :
    Overrun w (bwStdLens w.one n op stdLen) (bwStdLens w.two n op stdLen) := by
  induction n generalizing op stdLen with
  | zero => unfold bwStdLens; infer_instance
  | succ n inductionHypothesis => unfold bwStdLens; infer_instance

set_option synthInstance.maxSize 512 in
instance (unitEnd prog unitEnd' prog' offsetSize version addrSize minInst maxOps : Nat) :
    Overrun w (bwOpcodeHeader w.one unitEnd prog offsetSize version addrSize minInst maxOps)
      (bwOpcodeHeader w.two unitEnd' prog' offsetSize version addrSize minInst maxOps) := by
  unfold bwOpcodeHeader
  infer_instance

instance (unitEnd prog unitEnd' prog' offsetSize version addrSize : Nat) :
    Overrun w (bwHeaderRest w.one unitEnd prog offsetSize version addrSize)
      (bwHeaderRest w.two unitEnd' prog' offsetSize version addrSize) where
  overruns {s t} alone related contained := by
    unfold bwHeaderRest
    refine alone.bind related contained fun minInst s₁ t₁ _ related₁ contained₁ => ?_
    refine alone.bind related₁ contained₁ fun maxOps s₂ t₂ _ related₂ contained₂ => ?_
    split_ifs
    · exact Overruns.of_stopsFor _ _ _
    · exact Overruns.bind (Overrun.overruns alone related₂ contained₂)
        fun _ _ _ _ _ _ => Overruns.of_stopsFor _ _ _

/-- Where the header of a unit by itself is refused behind its `unit_length`, the
other run stops in the header or has read behind the unit. -/
theorem bwPrologue_overruns {ends : Nat × Nat} {s₁ : State} (alone : w.Alone)
    (related : w.Moved s t) (contained : w.Contained s)
    (length : bwUnitLength w.one s = .ok ends s₁) :
    Overruns Refused w.Behind (bwPrologue w.one s) (bwPrologue w.two t) := by
  have grown : Reads w.one s s₁ := Develops.ok length
  have contained₁ : w.Contained s₁ := Preserves.answer contained length
  obtain ⟨ends', t₁, lengthTwo, related₁, rfl, -, -⟩ :=
    (bwUnitLength_follows related).ok length (contained₁.fits alone)
  unfold bwPrologue
  rw [bind_of_ok length, bind_of_ok lengthTwo]
  dsimp only
  refine alone.bind related₁ contained₁ fun version s₂ t₂ _ related₂ contained₂ => ?_
  refine alone.bind related₂ contained₂ fun sizes s₃ t₃ _ related₃ contained₃ => ?_
  split_ifs
  · exact Overruns.of_stopsFor _ _ _
  refine alone.bind related₃ contained₃ fun headerLen s₄ t₄ _ related₄ contained₄ => ?_
  rw [bind_of_ok (show getCur s₄ = .ok s₄.cur s₄ from rfl),
    bind_of_ok (show getCur t₄ = .ok t₄.cur t₄ from rfl)]
  split_ifs
  · exact Overruns.of_error rfl
  · exact Overruns.of_stopsFor _ _ _
  · exact Overruns.of_error rfl
  · exact Overrun.overruns alone related₄ contained₄

instance : Preserves w.Outside (bwTablesV2 w.two) := by
  unfold bwTablesV2
  infer_instance

/-- Behind the unit the tables are outside it. -/
theorem bwTables_behind {prologue : Prologue} {files : Files} {t' : State} (behind : w.Behind t)
    (ended : bwTables w.two prologue t = .ok files t') : w.Outside t' := by
  unfold bwTables at ended
  split_ifs at ended
  · exact (Preserves.answer behind ended).outside
  · exact Preserves.answer behind.outside ended

end Header

/-! ### Rejections -/

section Excuses

variable (img : Image)

open Placement

instance (array : ArrayName) (index size : Nat) :
    StopsFor Excused (checkIndex array index size) := by
  have index : StopsFor Excused (stop (.fault (.index array index)) : Parser Unit) :=
    ⟨fun ended => by cases ended; exact excused_fault _⟩
  unfold checkIndex
  infer_instance

instance {α : Type} (a : CArray α) (index : Nat) (value : α) :
    StopsFor Excused (a.write index value) := by
  unfold CArray.write
  infer_instance

instance : StopsFor Excused getCur := ⟨fun ended => nomatch ended⟩

instance (p : Nat) : StopsFor Excused (setP p) := ⟨fun ended => nomatch ended⟩

instance (text : List UInt8) : StopsFor Excused (bwAddStr text) where
  reason ended := by
    rw [bwAddStr_run] at ended
    split_ifs at ended
    cases ended
    exact excused_fault _

instance (sec : SectionId) (addr : Nat) (after : Nat → Nat) :
    StopsFor Excused (strlen img sec addr after) where
  reason ended := by
    rw [strlen_run] at ended
    cases scanned : cstrIn img.mem (2 ^ img.bits - addr) addr with
    | ok bytes => rw [scanned] at ended; cases ended
    | error last => rw [scanned] at ended; cases ended; exact excused_fault _

instance (addr : Nat) : StopsFor Excused (load img addr) where
  reason ended := by
    rw [load_run] at ended
    cases there : img.mem addr with
    | some byte => rw [there] at ended; cases ended
    | none => rw [there] at ended; cases ended; exact excused_fault _

instance (n : Nat) : StopsFor Excused (bwSkip img n) where
  reason ended := by
    rw [bwSkip_run] at ended
    split_ifs at ended
    cases ended
    exact excused_short

instance {α : Type} (list : α) : StopsFor Excused (bwListEnd img list) := by
  unfold bwListEnd
  infer_instance

instance : StopsFor Excused (bwDirV2 img) := by
  unfold bwDirV2
  infer_instance

instance excused_bwDirsV2 (fuel : Nat) (dirs : Dirs) :
    StopsFor Excused (bwDirsV2 img fuel dirs) := by
  have fuelOut : StopsFor Excused (stop (.fault .fuel) : Parser Dirs) :=
    ⟨fun ended => by cases ended; exact excused_fault _⟩
  induction fuel generalizing dirs with
  | zero => exact fuelOut
  | succ fuel inductionHypothesis =>
      unfold bwDirsV2
      infer_instance

end Excuses

section Rejections

variable {w : Placement} {s s' : State}

open Placement

/-- No string was scanned past the end of the unit. -/
def Placement.ScansEnd (w : Placement) (s : State) : Prop :=
  ∀ scan ∈ s.scans, scan.sec = .line → scan.hi ≤ w.src + w.len

theorem Advances.scansEnd (advances : Advances w.one s s') (ends : w.ScansEnd s) :
    w.ScansEnd s' :=
  fun scan member ofLine => ends scan (advances.scans scan member ofLine) ofLine

theorem not_excused {α : Type} {m : Parser α} [excused : StopsFor Excused m]
    (stopped : m s = .error .malformed s') : False :=
  excused.reason stopped rfl

theorem bwFileV2_rejected {dirs : Dirs} (alone : w.Alone) (contained : w.Contained s)
    (stopped : bwFileV2 w.one dirs s = .error .malformed s') : w.ScansEnd s' := by
  have tails : ∀ name, Develops (Advances w.one) (fileTail w.one dirs name) := by
    intro name
    unfold fileTail
    infer_instance
  rw [bwFileV2_eq, bind_of_ok (show getCur s = .ok s.cur s from rfl)] at stopped
  rcases bind_eq_error.mp stopped with early | ⟨name, u, scanned, late⟩
  · exact (not_excused early).elim
  rcases bind_eq_error.mp late with early | ⟨_, v, placed, last⟩
  · exact (not_excused early).elim
  cases placed
  obtain ⟨found, same⟩ := strlen_eq_ok scanned
  have contained₁ := contained.string (u := u) alone found (by rw [same]) (by rw [same])
  have advances : Advances w.one _ s' := Develops.error last
  exact advances.scansEnd contained₁.scans

theorem bwFilesV2_rejected {dirs : Dirs} {fuel : Nat} {files : Files} (alone : w.Alone)
    (contained : w.Contained s)
    (stopped : bwFilesV2 w.one dirs fuel files s = .error .malformed s') : w.ScansEnd s' := by
  induction fuel generalizing s files with
  | zero => cases stopped
  | succ fuel inductionHypothesis =>
      rw [bwFilesV2, bind_of_ok (show getCur s = .ok s.cur s from rfl)] at stopped
      split_ifs at stopped
      · rcases bind_eq_error.mp stopped with early | ⟨first, u, loaded, late⟩
        · exact (not_excused early).elim
        rw [load_unmoved loaded] at late
        split_ifs at late
        · rcases bind_eq_error.mp late with early | ⟨off, s₁, entry, late⟩
          · exact bwFileV2_rejected alone contained early
          rcases bind_eq_error.mp late with early | ⟨slots, s₂, written, last⟩
          · exact (not_excused early).elim
          have contained₁ := bwFileV2_contained alone contained entry
          exact inductionHypothesis (Preserves.answer contained₁ written) last
        · exact (not_excused late).elim
      · exact (not_excused stopped).elim

/-- Tables that are rejected for a value have scanned no string past the end of
the unit. -/
theorem bwTables_rejected {prologue : Prologue} (alone : w.Alone) (contained : w.Contained s)
    (stopped : bwTables w.one prologue s = .error .malformed s') : w.ScansEnd s' := by
  unfold bwTables at stopped
  split_ifs at stopped
  · have advances : Advances w.one s s' := Develops.error stopped
    exact advances.scansEnd contained.scans
  · rcases bind_eq_error.mp stopped with early | ⟨off, s₁, added, stopped⟩
    · exact (not_excused early).elim
    rcases bind_eq_error.mp stopped with early | ⟨slots, s₂, written, stopped⟩
    · exact (not_excused early).elim
    have contained₂ := Preserves.answer (Preserves.answer contained added) written
    rcases bind_eq_error.mp stopped with early | ⟨dirs, s₃, read, stopped⟩
    · exact (not_excused early).elim
    rcases bind_eq_error.mp stopped with early | ⟨slots', s₄, written', stopped⟩
    · exact (not_excused early).elim
    have contained₄ := Preserves.answer (bwDirsV2_contained alone contained₂ read) written'
    exact bwFilesV2_rejected alone contained₄ stopped

end Rejections

/-! ### Headers with their tables -/

/-- The tables of a unit. One that is skipped has none. -/
def bwOpeningTables (img : Image) : Opening → Parser (Option (Prologue × Files))
  | .skip _ _ _ => pure none
  | .go prologue => do
      let files ← bwTables img prologue
      pure (some (prologue, files))

/-- A unit up to the end of its tables. -/
def bwUnitTables (img : Image) : Parser (Option (Prologue × Files)) := do
  let opening ← bwPrologue img
  bwOpeningTables img opening

instance (img : Image) (opening : Opening) :
    Develops (Collects img) (bwOpeningTables img opening) := by
  cases opening <;> unfold bwOpeningTables <;> infer_instance

section UnitTables

variable {w : Placement} {s t : State}

open Placement

theorem Placement.Alone.move_eq (alone : w.Alone) (addr : Nat) : w.move addr = addr := by
  rw [move, alone.same, Nat.add_sub_cancel]

theorem Placement.Alone.movePrologue_eq (alone : w.Alone) (prologue : Prologue) :
    w.movePrologue prologue = prologue := by
  rw [movePrologue, alone.move_eq, alone.move_eq]

theorem Placement.Alone.moveOpening_eq (alone : w.Alone) (opening : Opening) :
    w.moveOpening opening = opening := by
  cases opening with
  | skip unitEnd headerEnd prog =>
      rw [moveOpening, alone.move_eq, alone.move_eq, alone.move_eq]
  | go prologue => rw [moveOpening, alone.movePrologue_eq]

theorem Placement.Alone.shiftFiles_eq (alone : w.Alone) (files : Files) :
    w.shiftFiles files = files := by
  have unshifted : w.shiftOff = id := by
    funext off
    unfold shiftOff
    rw [alone.shift]
    split_ifs
    · rfl
    · exact Int.add_zero off
  rw [shiftFiles, shiftArray, unshifted]
  rfl

theorem bwUnitTables_follows (alone : w.Alone) (related : w.Moved s t) :
    Follows w.pairing (fun found found' _ _ => found' = found) (bwUnitTables w.one s)
      (bwUnitTables w.two t) := by
  unfold bwUnitTables
  refine Follows.bind (bwPrologue_follows related (Or.inl alone.same)) ?_
  rintro opening _ s₁ t₁ - - related₁ ⟨rfl, -, -⟩
  rw [alone.moveOpening_eq]
  cases opening with
  | skip unitEnd headerEnd prog => exact Follows.pure related₁ rfl
  | go prologue =>
      refine Follows.bind (bwTables_follows related₁ rfl rfl) ?_
      rintro files _ s₂ t₂ - - related₂ rfl
      rw [alone.shiftFiles_eq]
      exact Follows.pure related₂ rfl

theorem bwUnitTables_contained {found : Option (Prologue × Files)} {s' : State} (alone : w.Alone)
    (contained : w.Contained s) (ended : bwUnitTables w.one s = .ok found s') :
    w.Contained s' := by
  obtain ⟨opening, s₁, opened, ended⟩ := bind_eq_ok.mp ended
  have contained₁ : w.Contained s₁ := Preserves.answer contained opened
  cases opening with
  | skip unitEnd headerEnd prog =>
      cases ended
      exact contained₁
  | go prologue =>
      obtain ⟨files, s₂, tables, ended⟩ := bind_eq_ok.mp ended
      cases ended
      exact bwTables_contained alone contained₁ tables

theorem bwUnitTables_rejected {s' : State} (alone : w.Alone) (contained : w.Contained s)
    (stopped : bwUnitTables w.one s = .error .malformed s') : w.ScansEnd s' := by
  rcases bind_eq_error.mp stopped with early | ⟨opening, s₁, opened, late⟩
  · have advances : Advances w.one s s' := Develops.error early
    exact advances.scansEnd contained.scans
  · have contained₁ : w.Contained s₁ := Preserves.answer contained opened
    cases opening with
    | skip unitEnd headerEnd prog => cases late
    | go prologue =>
        rcases bind_eq_error.mp late with early | ⟨_, _, _, done⟩
        · exact bwTables_rejected alone contained₁ early
        · cases done

/-- Where a unit by itself is refused behind its `unit_length`, the other run
stops before the end of the tables or leaves the unit. -/
theorem bwUnitTables_overruns {ends : Nat × Nat} {s₁ : State} (alone : w.Alone)
    (related : w.Moved s t) (contained : w.Contained s)
    (length : bwUnitLength w.one s = .ok ends s₁) {why : Stop} {s' : State}
    (stopped : bwUnitTables w.one s = .error why s') (refused : Refused why)
    {prologue : Prologue} {files : Files} {t' : State}
    (answered : bwUnitTables w.two t = .ok (some (prologue, files)) t') : w.Outside t' := by
  obtain ⟨opening, t₁, opened, answered⟩ := bind_eq_ok.mp answered
  cases opening with
  | skip unitEnd headerEnd prog => cases answered
  | go found =>
      obtain ⟨files', t₂, tables, answered⟩ := bind_eq_ok.mp answered
      cases answered
      rcases bind_eq_error.mp stopped with early | ⟨openingOne, s₂, openedOne, late⟩
      · have behind :=
          bwPrologue_overruns alone related contained length _ _ early refused _ _ opened
        exact bwTables_behind behind tables
      · have contained₂ : w.Contained s₂ := Preserves.answer contained openedOne
        obtain ⟨related₂, same, -, -⟩ := alone.paired contained₂
          (bwPrologue_follows related (Or.inl alone.same)) openedOne opened
        rw [alone.moveOpening_eq] at same
        cases same
        rcases bind_eq_error.mp late with early | ⟨_, _, _, done⟩
        · exact bwTables_overruns alone related₂ contained₂ rfl rfl _ _ early refused _ _ tables
        · cases done

end UnitTables

end Backwalk.DwarfLine
