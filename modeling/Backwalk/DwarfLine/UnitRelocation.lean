import Backwalk.DwarfLine.Relocation
import Mathlib.Tactic.Simps.Basic

/-!
Contract: relocation of the line program and of a whole unit.

Owns the relation for the opcode loop, which is weaker than `Moved` in one
place: the operands of an opcode the parser does not know may be cut off by the
end of the unit, and then the second cursor is somewhere past it. Nothing is
read from there: the loop ends.
-/

namespace Backwalk.DwarfLine

open Backwalk.Support

namespace Placement

variable (w : Placement)

@[simps]
def movePrologue (prologue : Prologue) : Prologue :=
  { prologue with unitEnd := w.move prologue.unitEnd, prog := w.move prologue.prog }

/-- The first run is at the end of the unit, the second one past it. -/
structure Past (s t : State) : Prop where
  atEnd : s.cur.p = w.src + w.len
  past : w.dst + w.len ≤ t.cur.p
  moved : w.Moved s { t with cur := { t.cur with p := w.move s.cur.p } }

/-- The relation between two runs of the opcode loop. -/
def InLoop (s t : State) : Prop := w.Moved s t ∨ w.Past s t

def loopPairing : Pairing Stop State State (Grown w.one) :=
  { w.pairing with Rel := w.InLoop }

end Placement

open Placement

/-! ### Opcodes -/

section Opcodes

variable {w : Placement} {s t : State} {prologue : Prologue} {files : Files}

theorem Placement.Moved.setP {p : Nat} (related : w.Moved s t) (start : w.src ≤ p)
    (within : p ≤ w.src + w.len) :
    w.Moved { s with cur := { s.cur with p := p } }
      { t with cur := { t.cur with p := w.move p } } :=
  ⟨related.ok.setP, related.endp, start, within, by rw [related.cur], related.rows, related.nstr,
    related.strs⟩

theorem follows_inLoop {α β : Type} {result₁ : EStateM.Result Stop State α}
    {result₂ : EStateM.Result Stop State β} {post : α → β → State → State → Prop}
    (follows : Follows w.pairing post result₁ result₂) :
    Follows w.loopPairing post result₁ result₂ :=
  Follows.relax (P := w.pairing) Or.inl id id follows

instance (regs : Regs) (opAdvance : Nat) :
    w.Tracks (bwAdvance w.one prologue regs opAdvance)
      (bwAdvance w.two (w.movePrologue prologue) regs opAdvance) := by
  unfold bwAdvance
  simp only [size_two, movePrologue_maxOps, movePrologue_minInst]
  infer_instance

theorem bwEmit_follows {addr line : Nat} {off : Int} (related : w.Moved s t)
    (slot : SlotOk s.tab off) :
    Follows w.pairing (fun _ _ _ _ => True) (bwEmit addr off line s)
      (bwEmit addr (w.shiftOff off) line t) := by
  have safe : Safe _ (bwEmit addr off line s) := bwEmit_safe related.ok slot
  have sameSign : w.shiftOff off < 0 ↔ off < 0 := by
    have : 0 ≤ w.shiftOff off ↔ 0 ≤ off := shiftOff_nonneg
    omega
  have rowCount : t.tab.nrow = w.base.length + s.tab.nrow := by
    rw [Tab.nrow, related.rows, List.length_append, List.length_map, Tab.nrow]
  refine Follows.intro (fun _ s' ended fits => ?_) fun why s' ended => ?_
  · have okAfter := (safe.ok ended).1
    rw [bwEmit_run] at ended ⊢
    split_ifs at ended with dropped
    · cases ended
      refine ⟨(), t, if_pos ?_, related, trivial⟩
      simp only [Bool.or_eq_true, decide_eq_true_eq, sameSign, rowCount] at dropped ⊢
      rcases dropped with (((full | absent) | noAddr) | noLine) | wide
      · exact Or.inl (Or.inl (Or.inl (Or.inl (by omega))))
      · exact Or.inl (Or.inl (Or.inl (Or.inr absent)))
      · exact Or.inl (Or.inl (Or.inr noAddr))
      · exact Or.inl (Or.inr noLine)
      · exact Or.inr wide
    · cases ended
      have room : w.base.length + s.tab.nrow < bwDwarfRowMax := by
        rcases fits.rows with none | room
        · simp only [Bool.or_eq_true, decide_eq_true_eq, not_or] at dropped
          rw [none, List.length_nil]
          omega
        · simp only [Tab.nrow, List.length_append, List.length_singleton] at room ⊢
          omega
      rw [if_neg]
      · refine ⟨(), _, rfl, ⟨okAfter, related.endp, related.start, related.within, related.cur, ?_,
          related.nstr, related.strs⟩, trivial⟩
        simp only [Bool.or_eq_true, decide_eq_true_eq, not_or] at dropped
        have present : 0 ≤ off := by omega
        simp only [related.rows, List.map_append, List.map_cons, List.map_nil, List.append_assoc,
          shiftRow, shiftOff_toNat present]
      · simp only [Bool.or_eq_true, decide_eq_true_eq, not_or, sameSign, rowCount] at dropped ⊢
        exact ⟨⟨⟨⟨by omega, dropped.1.1.1.2⟩, dropped.1.1.2⟩, dropped.1.2⟩, dropped.2⟩
  · rw [bwEmit_run] at ended
    split_ifs at ended

theorem bwEmitRegs_follows {regs : Regs} (related : w.Moved s t) (filesOk : FilesOk s.tab files) :
    Follows w.pairing (fun _ _ _ _ => True) (bwEmitRegs files regs s)
      (bwEmitRegs (w.shiftFiles files) regs t) := by
  unfold bwEmitRegs
  by_cases known : regs.fileIdx < files.nfile
  · have below : regs.fileIdx < files.fileOff.size := by
      rw [filesOk.size]
      exact known.trans_le filesOk.fits
    rw [if_pos known, if_pos (show regs.fileIdx < (w.shiftFiles files).nfile from known)]
    have readOne := read_of_lt below s
    have readTwo : (w.shiftFiles files).fileOff.read regs.fileIdx t =
        .ok (w.shiftOff (files.fileOff.cell regs.fileIdx)) t :=
      read_of_lt (show regs.fileIdx < (w.shiftFiles files).fileOff.size from below) t
    rw [bind_of_ok readOne, bind_of_ok readTwo]
    exact bwEmit_follows related (filesOk.slot _ known)
  · rw [if_neg known, if_neg (show ¬ regs.fileIdx < (w.shiftFiles files).nfile from known)]
    exact Follows.pure related trivial

theorem bwSpecial_follows {op : Nat} {regs : Regs} (related : w.Moved s t)
    (filesOk : FilesOk s.tab files) :
    Follows w.pairing (fun regs' regs'' _ _ => regs'' = regs')
      (bwSpecial w.one prologue files op regs s)
      (bwSpecial w.two (w.movePrologue prologue) (w.shiftFiles files) op regs t) := by
  unfold bwSpecial
  simp only [movePrologue_opcodeBase, movePrologue_lineRange, movePrologue_lineBase]
  refine Follows.bind (Tracks.follows related) fun _ opAdvance s₁ t₁ ended₁ _ related₁ same => ?_
  subst same
  refine Follows.bind (Tracks.follows related₁) fun _ lineAdvance s₂ t₂ ended₂ _ related₂ same => ?_
  subst same
  refine Follows.bind (Tracks.follows related₂) fun regs' _ s₃ t₃ ended₃ _ related₃ same => ?_
  subst same
  have reads₁ : Reads w.one s s₁ := Develops.ok ended₁
  have reads₂ : Reads w.one s₁ s₂ := Develops.ok ended₂
  have reads₃ : Reads w.one s₂ s₃ := Develops.ok ended₃
  have files₃ : FilesOk s₃.tab files := by
    rw [reads₃.tab, reads₂.tab, reads₁.tab]
    exact filesOk
  refine Follows.bind (bwEmitRegs_follows related₃ files₃) fun _ _ s₄ t₄ _ _ related₄ _ => ?_
  exact Follows.pure related₄ rfl

instance : w.Tracks (bwSetAddressOperand w.one prologue)
    (bwSetAddressOperand w.two (w.movePrologue prologue)) := by
  unfold bwSetAddressOperand
  simp only [movePrologue_addrSize]
  infer_instance

theorem bwExtended_follows {regs : Regs} (related : w.Moved s t) :
    Follows w.pairing (fun regs' regs'' _ _ => regs'' = regs') (bwExtended w.one prologue regs s)
      (bwExtended w.two (w.movePrologue prologue) regs t) := by
  unfold bwExtended
  refine Follows.bind (Tracks.follows related) fun _ insnLen s₁ t₁ _ _ related₁ same => ?_
  subst same
  rw [bind_of_ok (show getCur s₁ = .ok s₁.cur s₁ from rfl),
    bind_of_ok (show getCur t₁ = .ok t₁.cur t₁ from rfl), size_two]
  by_cases empty : insnLen = 0
  · rw [if_pos empty, if_pos empty]
    exact stop_follows related₁
  · rw [if_neg empty, if_neg empty]
    by_cases room : bwCurOk w.one s₁.cur (w.one.size insnLen) = true
    · obtain ⟨fits, roomTwo⟩ := related₁.room room
      have start := related₁.start
      have endOne := (ptrAdd_of_inside related₁.inside room).1
      have endTwo : w.two.ptrAdd t₁.cur.p (w.one.size insnLen) =
          w.move (s₁.cur.p + w.one.size insnLen) := by
        rw [(ptrAdd_of_inside related₁.inside_two roomTwo).1, related₁.cur, move_add start]
      rw [if_pos room, if_pos roomTwo, endOne, endTwo]
      refine Follows.bind (Tracks.follows related₁) fun _ ext s₂ t₂ _ _ related₂ same => ?_
      subst same
      split_ifs
      · exact fun _ => ⟨_, _, rfl, related₂.setP (by omega) fits, rfl⟩
      · refine Follows.bind (Tracks.follows related₂) fun _ addr s₃ t₃ _ _ related₃ same => ?_
        subst same
        rw [size_two]
        exact fun _ => ⟨_, _, rfl, related₃.setP (by omega) fits, rfl⟩
      · exact fun _ => ⟨_, _, rfl, related₂.setP (by omega) fits, rfl⟩
    · rw [if_neg room]
      exact Follows.excused rfl excused_short

end Opcodes

/-! ### Unknown opcodes -/

section Operands

variable {w : Placement} {s t : State}

/-- The second cursor is somewhere in the mapped part of its section. -/
structure Placement.Mapped (w : Placement) (t : State) : Prop where
  endp : t.cur.endp = w.lim
  start : w.dst ≤ t.cur.p
  within : t.cur.p ≤ w.lim

theorem Placement.Mapped.inside (mapped : w.Mapped t) : Inside w.two t.cur :=
  ⟨mapped.endp ▸ mapped.within, by rw [mapped.endp, w.bits]; exact w.limFits⟩

theorem Placement.Mapped.reads {t' : State} (mapped : w.Mapped t) (reads : Reads w.two t t') :
    w.Mapped t' := by
  have forward := reads.forward mapped.inside
  have start := mapped.start
  refine ⟨reads.endp.trans mapped.endp, by omega, ?_⟩
  rw [← mapped.endp]
  exact forward.2

theorem Placement.Moved.mapped (related : w.Moved s t) : w.Mapped t := by
  have dstFits := w.dstFits
  have start := related.start
  have within := related.within
  refine ⟨by rw [related.cur], ?_, ?_⟩ <;> rw [related.cur] <;> simp only [move] <;> omega

/-- A read of one byte of a mapped section does not fault. -/
theorem bwU8_mapped {fault : Fault} {t' : State} (mapped : w.Mapped t)
    (faulted : bwU8 w.two t = .error (.fault fault) t') : False := by
  rw [bwU8, bwUint_run] at faulted
  split_ifs at faulted with room
  · have fits := (ptrAdd_of_inside mapped.inside room).2
    rw [mapped.endp] at fits
    obtain ⟨byte, byteThere⟩ := Option.isSome_iff_exists.mp
      (w.mapped t.cur.p mapped.start (by omega))
    rw [peek, byteThere, peek] at faulted
    cases faulted
  · cases faulted

theorem bwUlebFrom_mapped {fuel r shift : Nat} {fault : Fault} {t' : State} (mapped : w.Mapped t)
    (faulted : bwUlebFrom w.two fuel r shift t = .error (.fault fault) t') : fault = .fuel := by
  induction fuel generalizing t r shift with
  | zero => cases faulted; rfl
  | succ fuel inductionHypothesis =>
      rw [bwUlebFrom] at faulted
      rcases bind_eq_error.mp faulted with early | ⟨b, u, read, late⟩
      · exact (bwU8_mapped mapped early).elim
      · have reads : Reads w.two t u := Develops.ok read
        split_ifs at late
        · cases late
        · cases late
        · exact inductionHypothesis (mapped.reads reads) late

theorem bwUleb_mapped {fault : Fault} {t' : State} (mapped : w.Mapped t)
    (faulted : bwUleb w.two t = .error (.fault fault) t') : False := by
  have benign := (inferInstance : Reader w.two (bwUleb w.two)).benign.reason faulted
  rw [bwUlebFrom_mapped mapped faulted] at benign
  exact benign

/-- Skipping operands in a mapped section always comes to an end. -/
theorem bwSkipOperands_mapped {n : Nat} (mapped : w.Mapped t) :
    ∃ t', bwSkipOperands w.two n t = .ok () t' := by
  induction n generalizing t with
  | zero => exact ⟨t, rfl⟩
  | succ n inductionHypothesis =>
      unfold bwSkipOperands
      cases ended : bwUleb w.two t with
      | ok value u =>
          have reads : Reads w.two t u := Develops.ok ended
          exact inductionHypothesis (mapped.reads reads)
      | error why u =>
          cases why with
          | short => exact ⟨u, rfl⟩
          | malformed => exact ⟨u, rfl⟩
          | fault fault => exact (bwUleb_mapped mapped ended).elim

theorem Placement.Fits.reads {s' : State} (fits : w.Fits s) (reads : Reads w.one s s') :
    w.Fits s' := by
  obtain ⟨strs, rows, scans⟩ := fits
  exact ⟨reads.tab ▸ strs, reads.tab ▸ rows, reads.scans ▸ scans⟩

/-- A read refused at the end of the unit leaves the first cursor there, and the
second one there or past it. -/
theorem bwUlebFrom_short {fuel r shift : Nat} {s' : State} (related : w.Moved s t)
    (fits : w.Fits s) (ended : bwUlebFrom w.one fuel r shift s = .error .short s') :
    s'.cur.p = w.src + w.len ∧
      w.dst + w.len ≤ (stateAfter (bwUlebFrom w.two fuel r shift) t).cur.p := by
  induction fuel generalizing s t r shift with
  | zero => cases ended
  | succ fuel inductionHypothesis =>
      rw [bwUlebFrom] at ended
      rcases bind_eq_error.mp ended with early | ⟨b, s₁, read, late⟩
      · rw [bwU8, bwUint_run] at early
        split_ifs at early with room
        · cases peeked : peek w.one s.cur.p 1 <;> rw [peeked] at early <;> cases early
        · cases early
          have inside := related.inside
          have start := related.start
          have within := related.within
          have srcPos := w.srcPos
          have atEnd : s'.cur.p = w.src + w.len := by
            simp only [bwCurOk, ne_eq, Bool.and_eq_true, decide_eq_true_eq,
              curRoom_of_inside inside, related.endp] at room
            omega
          have reads : Reads w.two t (stateAfter (bwUlebFrom w.two (fuel + 1) r shift) t) :=
            Develops.after t
          have forward := (reads.forward related.inside_two).1
          rw [related.cur] at forward
          simp only [move, atEnd] at forward
          exact ⟨atEnd, by omega⟩
      · have reads : Reads w.one s s₁ := Develops.ok read
        have tracks : Follows w.pairing _ (bwU8 w.one s) (bwU8 w.two t) := Tracks.follows related
        obtain ⟨b', t₁, readTwo, related₁, same⟩ := tracks.ok read (fits.reads reads)
        subst same
        split_ifs at late with last long
        · cases late
        · cases late
        · have rest := inductionHypothesis related₁ (fits.reads reads) late
          have unfolded : stateAfter (bwUlebFrom w.two (fuel + 1) r shift) t =
              stateAfter (bwUlebFrom w.two fuel (r ||| lebGroup b' shift) (shift + 7)) t₁ := by
            simp only [stateAfter, bwUlebFrom, bind_of_ok readTwo, if_neg last, if_neg long]
          rw [unfolded]
          exact rest

/-- Operands leave the format of the unit alone. -/
def SameFlag (s s' : State) : Prop := s'.cur.dwarf64 = s.cur.dwarf64

instance : Std.Refl SameFlag := ⟨fun _ => rfl⟩

instance : IsTrans State SameFlag := ⟨fun _ _ _ one two => Eq.trans two one⟩

section Flag

variable (img : Image)

instance {α : Type} (why : Stop) : Develops SameFlag (stop why : Parser α) := ⟨fun _ => rfl⟩

instance : Develops SameFlag (bwU8 img) where
  after s := by
    unfold stateAfter bwU8
    rw [bwUint_run]
    split_ifs
    · cases peek img s.cur.p 1 <;> rfl
    · rfl

instance sameFlag_bwUlebFrom (fuel r shift : Nat) :
    Develops SameFlag (bwUlebFrom img fuel r shift) := by
  induction fuel generalizing r shift with
  | zero => unfold bwUlebFrom; infer_instance
  | succ fuel inductionHypothesis => unfold bwUlebFrom; infer_instance

theorem bwSkipOperands_after_refused {n : Nat} {why : Stop} {t t' u : State}
    (read : bwUleb img t = .error why u) (ended : bwSkipOperands img (n + 1) t = .ok () t') :
    Reads img u t' ∧ SameFlag t t' := by
  have flag : SameFlag t u := Develops.error (m := bwUlebFrom img 10 0 0) read
  have same : t' = u := by
    cases why with
    | fault fault => rw [bwSkipOperands_of_fault img read] at ended; cases ended
    | short => rw [bwSkipOperands_of_refused img read (by simp)] at ended; cases ended; rfl
    | malformed => rw [bwSkipOperands_of_refused img read (by simp)] at ended; cases ended; rfl
  rw [same]
  exact ⟨refl_of (Reads img) u, flag⟩

/-- What comes after the first operand only moves the cursor on. -/
theorem bwSkipOperands_after {n : Nat} {t' : State}
    (ended : bwSkipOperands img (n + 1) t = .ok () t') :
    Reads img (stateAfter (bwUleb img) t) t' ∧ SameFlag t t' := by
  induction n generalizing t with
  | zero =>
      cases read : bwUleb img t with
      | ok value u =>
          have flag : SameFlag t u := Develops.ok (m := bwUlebFrom img 10 0 0) read
          rw [bwSkipOperands_of_ok img read] at ended
          rw [stateAfter_of_ok read]
          cases ended
          exact ⟨refl_of (Reads img) _, flag⟩
      | error why u =>
          rw [stateAfter_of_error read]
          exact bwSkipOperands_after_refused img read ended
  | succ n inductionHypothesis =>
      cases read : bwUleb img t with
      | ok value u =>
          have flag : SameFlag t u := Develops.ok (m := bwUlebFrom img 10 0 0) read
          rw [bwSkipOperands_of_ok img read] at ended
          obtain ⟨rest, sameFlag⟩ := inductionHypothesis ended
          rw [stateAfter_of_ok read]
          exact ⟨trans_of (Reads img) (Develops.after u) rest, trans_of SameFlag flag sameFlag⟩
      | error why u =>
          rw [stateAfter_of_error read]
          exact bwSkipOperands_after_refused img read ended

end Flag

theorem bwSkipOperands_follows {n : Nat} (related : w.Moved s t) :
    Follows w.loopPairing (fun _ _ _ _ => True) (bwSkipOperands w.one n s)
      (bwSkipOperands w.two n t) := by
  induction n generalizing s t with
  | zero => exact fun _ => ⟨(), t, rfl, Or.inl related, trivial⟩
  | succ n inductionHypothesis =>
      have tracks : Follows w.pairing _ (bwUleb w.one s) (bwUleb w.two t) :=
        Tracks.follows related
      cases ended : bwUleb w.one s with
      | ok value s₁ =>
          rw [bwSkipOperands_of_ok w.one ended]
          have back : w.Fits (stateAfter (bwSkipOperands w.one n) s₁) → w.Fits s₁ :=
            Fits.before (Develops.after (R := Reads w.one) s₁).runs.grown
          refine Follows.intro (fun a s' rest fits => ?_) fun why s' rest fits held => ?_
          · rw [stateAfter_of_ok rest] at back
            obtain ⟨value', t₁, endedTwo, related₁, -⟩ := tracks.ok ended (back fits)
            rw [bwSkipOperands_of_ok w.two endedTwo]
            exact (inductionHypothesis related₁).ok rest fits
          · rw [stateAfter_of_error rest] at back
            obtain ⟨value', t₁, endedTwo, related₁, -⟩ := tracks.ok ended (back fits)
            rw [bwSkipOperands_of_ok w.two endedTwo]
            exact (inductionHypothesis related₁).error rest fits held
      | error why s₁ =>
          cases why with
          | fault fault =>
              exact Follows.excused (bwSkipOperands_of_fault w.one ended) (excused_fault _)
          | malformed =>
              rw [bwSkipOperands_of_refused w.one ended (by simp)]
              intro fits
              obtain ⟨t₁, endedTwo, related₁⟩ := tracks.error ended fits (fun held => held rfl)
              exact ⟨(), t₁, bwSkipOperands_of_refused w.two endedTwo (by simp), Or.inl related₁,
                trivial⟩
          | short =>
              -- The operand is cut off here; the second run goes on reading.
              rw [bwSkipOperands_of_refused w.one ended (by simp)]
              intro fits
              have reads : Reads w.one s s₁ := Develops.error ended
              have flag : SameFlag s s₁ := Develops.error (m := bwUlebFrom w.one 10 0 0) ended
              obtain ⟨atEnd, past⟩ := bwUlebFrom_short related (fits.before reads.runs.grown) ended
              obtain ⟨t', result⟩ := bwSkipOperands_mapped (n := n + 1) related.mapped
              obtain ⟨later, flagTwo⟩ := bwSkipOperands_after w.two result
              have readsTwo : Reads w.two t t' := Develops.ok result
              have firstMapped : w.Mapped (stateAfter (bwUleb w.two) t) :=
                related.mapped.reads (Develops.after t)
              have further := (later.forward firstMapped.inside).1
              refine ⟨(), t', result, Or.inr ⟨atEnd, le_trans past further, ?_⟩, trivial⟩
              have start : w.src ≤ s₁.cur.p := by omega
              refine ⟨related.ok.of_reads reads, reads.endp.trans related.endp, start,
                le_of_eq atEnd, ?_, ?_, ?_, ?_⟩
              · have sameEnd := readsTwo.endp
                have sameFlag : t'.cur.dwarf64 = s₁.cur.dwarf64 := by
                  rw [flagTwo, flag, related.cur]
                rw [related.cur] at sameEnd
                simp only [sameEnd, sameFlag]
              · simp only [readsTwo.tab, reads.tab]
                exact related.rows
              · simp only [readsTwo.tab, reads.tab]
                exact related.nstr
              · simp only [readsTwo.tab, reads.tab]
                exact related.strs

end Operands

/-! ### The opcode loop -/

section Loop

variable {w : Placement} {s t : State} {prologue : Prologue} {files : Files}

theorem bwStandard_follows {op : Nat} {regs : Regs} (related : w.Moved s t)
    (filesOk : FilesOk s.tab files) :
    Follows w.loopPairing (fun regs' regs'' _ _ => regs'' = regs')
      (bwStandard w.one prologue files op regs s)
      (bwStandard w.two (w.movePrologue prologue) (w.shiftFiles files) op regs t) := by
  unfold bwStandard
  simp only [movePrologue_opcodeBase, movePrologue_lineRange, movePrologue_stdLen, size_two]
  by_cases isCopy : op = bwLnsCopy
  · rw [if_pos isCopy, if_pos isCopy]
    refine follows_inLoop (Follows.bind (bwEmitRegs_follows related filesOk) ?_)
    exact fun _ _ s₁ t₁ _ _ related₁ _ => Follows.pure related₁ rfl
  rw [if_neg isCopy, if_neg isCopy]
  by_cases isAdvancePc : op = bwLnsAdvancePc
  · rw [if_pos isAdvancePc, if_pos isAdvancePc]
    exact follows_inLoop (Tracks.follows related)
  rw [if_neg isAdvancePc, if_neg isAdvancePc]
  by_cases isAdvanceLine : op = bwLnsAdvanceLine
  · rw [if_pos isAdvanceLine, if_pos isAdvanceLine]
    exact follows_inLoop (Tracks.follows related)
  rw [if_neg isAdvanceLine, if_neg isAdvanceLine]
  by_cases isSetFile : op = bwLnsSetFile
  · rw [if_pos isSetFile, if_pos isSetFile]
    exact follows_inLoop (Tracks.follows related)
  rw [if_neg isSetFile, if_neg isSetFile]
  by_cases isConstAddPc : op = bwLnsConstAddPc
  · rw [if_pos isConstAddPc, if_pos isConstAddPc]
    exact follows_inLoop (Tracks.follows related)
  rw [if_neg isConstAddPc, if_neg isConstAddPc]
  by_cases isFixed : op = bwLnsFixedAdvancePc
  · rw [if_pos isFixed, if_pos isFixed]
    exact follows_inLoop (Tracks.follows related)
  rw [if_neg isFixed, if_neg isFixed]
  by_cases below : op < prologue.stdLen.size
  · rw [bind_of_ok (read_of_lt below s), bind_of_ok (read_of_lt below t)]
    refine Follows.bind (P := w.loopPairing) (bwSkipOperands_follows related) ?_
    exact fun _ _ s₁ t₁ _ _ related₁ _ => Follows.pure (P := w.loopPairing) related₁ rfl
  · exact Follows.excused (bind_of_error (read_of_not_lt below s)) (excused_fault _)

theorem bwOpcode_follows {regs : Regs} (related : w.Moved s t) (filesOk : FilesOk s.tab files) :
    Follows w.loopPairing (fun regs' regs'' _ _ => regs'' = regs')
      (bwOpcode w.one prologue files regs s)
      (bwOpcode w.two (w.movePrologue prologue) (w.shiftFiles files) regs t) := by
  unfold bwOpcode
  have first : Follows w.pairing (fun op op' s' t' => op' = op ∧ w.Moved s' t')
      (bwU8 w.one s) (bwU8 w.two t) :=
    (Tracks.follows related).mono fun _ _ _ _ _ related' same => ⟨same, related'⟩
  refine Follows.bind (P := w.loopPairing) (follows_inLoop first) ?_
  rintro op op' s₁ t₁ ended - - ⟨rfl, related₁⟩
  have reads : Reads w.one s s₁ := Develops.ok ended
  have files₁ : FilesOk s₁.tab files := reads.tab ▸ filesOk
  rw [movePrologue_opcodeBase]
  split_ifs
  · exact follows_inLoop (bwExtended_follows related₁)
  · exact follows_inLoop (bwSpecial_follows related₁ files₁)
  · exact bwStandard_follows related₁ files₁

/-- The loop goes the same way, unless a read was refused at the end of the
unit. -/
theorem bwOpcodeLoop_moves {fuel : Nat} {regs : Regs} {exit : LoopExit} {s' : State}
    (related : w.InLoop s t) (filesOk : FilesOk s.tab files)
    (endStart : w.src ≤ prologue.unitEnd) (endWithin : prologue.unitEnd ≤ w.src + w.len)
    (ended : bwOpcodeLoop w.one prologue files fuel regs s = .ok exit s')
    (whole : exit ≠ .short) (fits : w.Fits s') :
    ∃ t', bwOpcodeLoop w.two (w.movePrologue prologue) (w.shiftFiles files) fuel regs t =
      .ok exit t' ∧ w.InLoop s' t' := by
  induction fuel generalizing s t regs with
  | zero => cases ended
  | succ fuel inductionHypothesis =>
      by_cases inUnit : s.cur.p < prologue.unitEnd
      · have moved : w.Moved s t := by
          rcases related with moved | past
          · exact moved
          · exact absurd past.atEnd (by omega)
        have inUnitTwo : t.cur.p < (w.movePrologue prologue).unitEnd := by
          have start := moved.start
          rw [moved.cur, movePrologue_unitEnd]
          simp only [move]
          omega
        have step : Follows w.loopPairing _ (bwOpcode w.one prologue files regs s)
            (bwOpcode w.two (w.movePrologue prologue) (w.shiftFiles files) regs t) :=
          bwOpcode_follows moved filesOk
        cases opcode : bwOpcode w.one prologue files regs s with
        | ok regs₁ s₁ =>
            rw [bwOpcodeLoop_of_ok w.one prologue files inUnit opcode] at ended
            have rest : Runs w.one s₁ s' := Develops.ok ended
            have runs : Runs w.one s s₁ := Develops.ok opcode
            obtain ⟨regs', t₁, opcodeTwo, related₁, same⟩ :=
              step.ok opcode (fits.before rest.grown)
            subst same
            rw [bwOpcodeLoop_of_ok w.two _ _ inUnitTwo opcodeTwo]
            exact inductionHypothesis related₁ (filesOk.mono runs.grown.tab) ended
        | error why s₁ =>
            rw [bwOpcodeLoop_of_error w.one prologue files inUnit opcode] at ended
            cases why with
            | fault fault => cases ended
            | short => cases ended; exact absurd rfl whole
            | malformed =>
                cases ended
                obtain ⟨t₁, opcodeTwo, related₁⟩ :=
                  step.error opcode fits (fun held => held rfl)
                exact ⟨t₁, bwOpcodeLoop_of_error w.two _ _ inUnitTwo opcodeTwo, related₁⟩
      · have doneTwo : ¬ t.cur.p < (w.movePrologue prologue).unitEnd := by
          rw [movePrologue_unitEnd]
          rcases related with moved | past
          · have start := moved.start
            rw [moved.cur]
            simp only [move]
            omega
          · have beyond := past.past
            simp only [move]
            omega
        rw [bwOpcodeLoop_done w.one prologue files inUnit] at ended
        cases ended
        exact ⟨t, bwOpcodeLoop_done w.two _ _ doneTwo, related⟩

end Loop

/-! ### Header -/

section Header

variable {w : Placement} {s t : State}

theorem bwUnitEnd_follows {unitLen offsetSize : Nat} (related : w.Moved s t) :
    Follows w.pairing (fun ends ends' _ _ => ends' = (w.move ends.1, ends.2) ∧
        w.src ≤ ends.1 ∧ ends.1 ≤ w.src + w.len)
      (bwUnitEnd w.one unitLen offsetSize s) (bwUnitEnd w.two unitLen offsetSize t) := by
  rw [bwUnitEnd, bwUnitEnd, bind_of_ok (show getCur s = .ok s.cur s from rfl),
    bind_of_ok (show getCur t = .ok t.cur t from rfl), size_two]
  by_cases tiny : unitLen < 2
  · rw [if_pos tiny, if_pos tiny]
    exact stop_follows related
  · rw [if_neg tiny, if_neg tiny]
    by_cases room : bwCurOk w.one s.cur (w.one.size unitLen) = true
    · obtain ⟨fits, roomTwo⟩ := related.room room
      have start := related.start
      rw [if_pos room, if_pos roomTwo, (ptrAdd_of_inside related.inside room).1,
        (ptrAdd_of_inside related.inside_two roomTwo).1, related.cur, ← move_add start]
      exact Follows.pure related ⟨rfl, by simp only; omega, fits⟩
    · rw [if_neg room]
      exact Follows.excused rfl excused_short

instance (flag : Bool) : w.Tracks (setDwarf64 flag) (setDwarf64 flag) where
  follows related := fun _ => ⟨(), _, rfl, ⟨⟨related.ok.tab, related.ok.tabs, related.ok.later,
    related.ok.chain⟩, related.endp, related.start, related.within, by rw [related.cur],
    related.rows, related.nstr, related.strs⟩, rfl⟩

theorem bwUnitLength_follows (related : w.Moved s t) :
    Follows w.pairing (fun ends ends' _ _ => ends' = (w.move ends.1, ends.2) ∧
        w.src ≤ ends.1 ∧ ends.1 ≤ w.src + w.len)
      (bwUnitLength w.one s) (bwUnitLength w.two t) := by
  unfold bwUnitLength
  refine Follows.bind (Tracks.follows related) fun _ unit32 s₁ t₁ _ _ related₁ same => ?_
  subst same
  split_ifs
  · refine Follows.bind (Tracks.follows related₁) fun _ unitLen s₂ t₂ _ _ related₂ same => ?_
    subst same
    refine Follows.bind (Tracks.follows related₂) fun _ _ s₃ t₃ _ _ related₃ _ => ?_
    exact bwUnitEnd_follows related₃
  · refine Follows.bind (Tracks.follows related₁) fun _ _ s₂ t₂ _ _ related₂ _ => ?_
    exact bwUnitEnd_follows related₂

instance (version : Nat) : w.Tracks (bwAddrSeg w.one version) (bwAddrSeg w.two version) := by
  unfold bwAddrSeg
  infer_instance

instance (version : Nat) : w.Tracks (bwMaxOps w.one version) (bwMaxOps w.two version) := by
  unfold bwMaxOps
  infer_instance

instance : w.Tracks (bwHeaderLength w.one) (bwHeaderLength w.two) where
  follows {s t} related := by
    rw [bwHeaderLength, bwHeaderLength, bind_of_ok (show getCur s = .ok s.cur s from rfl),
      bind_of_ok (show getCur t = .ok t.cur t from rfl), related.cur]
    split_ifs
    · exact Tracks.follows related
    · exact Tracks.follows related

instance tracks_bwStdLens (n op : Nat) (stdLen : CArray Nat) :
    w.Tracks (bwStdLens w.one n op stdLen) (bwStdLens w.two n op stdLen) := by
  induction n generalizing op stdLen with
  | zero => unfold bwStdLens; infer_instance
  | succ n inductionHypothesis => unfold bwStdLens; infer_instance

theorem bwOpcodeHeader_follows {unitEnd prog offsetSize version addrSize minInst maxOps : Nat}
    (related : w.Moved s t) :
    Follows w.pairing (fun prologue prologue' _ _ => prologue' = w.movePrologue prologue)
      (bwOpcodeHeader w.one unitEnd prog offsetSize version addrSize minInst maxOps s)
      (bwOpcodeHeader w.two (w.move unitEnd) (w.move prog) offsetSize version addrSize minInst
        maxOps t) := by
  unfold bwOpcodeHeader
  refine Follows.bind (Tracks.follows related) fun _ _ s₁ t₁ _ _ related₁ _ => ?_
  refine Follows.bind (Tracks.follows related₁) fun _ lb s₂ t₂ _ _ related₂ same => ?_
  subst same
  refine Follows.bind (Tracks.follows related₂) fun _ lineRange s₃ t₃ _ _ related₃ same => ?_
  subst same
  split_ifs
  · exact stop_follows related₃
  refine Follows.bind (Tracks.follows related₃) fun _ opcodeBase s₄ t₄ _ _ related₄ same => ?_
  subst same
  split_ifs
  · exact stop_follows related₄
  refine Follows.bind (Tracks.follows related₄) fun _ stdLen s₅ t₅ _ _ related₅ same => ?_
  subst same
  exact Follows.pure related₅ rfl

def Placement.moveOpening (w : Placement) : Opening → Opening
  | .skip unitEnd headerEnd prog => .skip (w.move unitEnd) (w.move headerEnd) (w.move prog)
  | .go prologue => .go (w.movePrologue prologue)

theorem bwHeaderRest_follows {unitEnd prog offsetSize version addrSize : Nat}
    (related : w.Moved s t) :
    Follows w.pairing (fun opening opening' _ _ => opening' = w.moveOpening opening)
      (bwHeaderRest w.one unitEnd prog offsetSize version addrSize s)
      (bwHeaderRest w.two (w.move unitEnd) (w.move prog) offsetSize version addrSize t) := by
  unfold bwHeaderRest
  refine Follows.bind (Tracks.follows related) fun _ minInst s₁ t₁ _ _ related₁ same => ?_
  subst same
  refine Follows.bind (Tracks.follows related₁) fun _ maxOps s₂ t₂ _ _ related₂ same => ?_
  subst same
  split_ifs
  · rw [bind_of_ok (show getCur s₂ = .ok s₂.cur s₂ from rfl),
      bind_of_ok (show getCur t₂ = .ok t₂.cur t₂ from rfl)]
    refine Follows.pure related₂ ?_
    rw [related₂.cur]
    rfl
  · refine Follows.bind (bwOpcodeHeader_follows related₂)
      fun _ prologue s₃ t₃ _ _ related₃ same => ?_
    subst same
    exact Follows.pure related₃ rfl

/-- Where the program of an opening begins. -/
def Opening.prog : Opening → Nat
  | .skip _ _ prog => prog
  | .go prologue => prologue.prog

theorem bwHeaderRest_prog {img : Image} {unitEnd prog offsetSize version addrSize : Nat}
    {opening : Opening}
    (ended : bwHeaderRest img unitEnd prog offsetSize version addrSize s = .ok opening t) :
    opening.prog = prog := by
  rcases bwHeaderRest_eq_ok ended with rfl | ⟨prologue, rfl, -, sameProg⟩
  · rfl
  · exact sameProg

/-- A program pointer that did not wrap is at the same place of the unit in both
images; one that did is not, unless the unit is at the same address. -/
theorem Placement.prog_move {p n unitEnd : Nat} (start : w.src ≤ p)
    (endWithin : unitEnd ≤ w.src + w.len)
    (placed : w.src = w.dst ∨ (p ≤ w.one.ptrAdd p n ∧ w.one.ptrAdd p n ≤ unitEnd))
    (small : n < 2 ^ w.one.bits) : w.two.ptrAdd (w.move p) n = w.move (w.one.ptrAdd p n) := by
  have dstFits := w.dstFits
  have limFits := w.limFits
  have srcFits := w.srcFits
  rcases placed with same | ⟨after, before⟩
  · simp only [move, same, Nat.add_sub_cancel, Image.ptrAdd, w.bits]
  · -- A sum that wrapped would be below `p`.
    have noWrap : w.one.ptrAdd p n = p + n := by
      unfold Image.ptrAdd at after ⊢
      rcases Nat.lt_or_ge (p + n) (2 ^ w.one.bits) with below | wrapped
      · exact Nat.mod_eq_of_lt below
      · rw [Nat.mod_eq_sub_mod wrapped, Nat.mod_eq_of_lt (by omega)] at after
        omega
    rw [noWrap, move_add start, Image.ptrAdd, w.bits]
    refine Nat.mod_eq_of_lt ?_
    rw [noWrap] at before
    simp only [move]
    omega

/-- The header of a unit that is at the same address, or whose program does not
begin before the end of what was read of the header. -/
theorem bwPrologue_follows (related : w.Moved s t)
    (placed : w.src = w.dst ∨
      ∃ opening s', bwPrologue w.one s = .ok opening s' ∧ s'.cur.p ≤ opening.prog) :
    Follows w.pairing (fun opening opening' _ _ => opening' = w.moveOpening opening ∧
        w.src ≤ opening.unitEnd ∧ opening.unitEnd ≤ w.src + w.len)
      (bwPrologue w.one s) (bwPrologue w.two t) := by
  have whole : bwPrologue w.one s = bwPrologue w.one s := rfl
  conv at whole => rhs; unfold bwPrologue
  unfold bwPrologue
  refine Follows.bind (bwUnitLength_follows related) ?_
  rintro ⟨unitEnd, offsetSize⟩ _ s₁ t₁ ended₁ - related₁ ⟨rfl, endStart, endWithin⟩
  dsimp only
  refine Follows.bind (Tracks.follows related₁) fun _ version s₂ t₂ ended₂ _ related₂ same => ?_
  subst same
  refine Follows.bind (Tracks.follows related₂) ?_
  rintro ⟨addrSize, segSize⟩ _ s₃ t₃ ended₃ - related₃ rfl
  dsimp only
  rw [bind_of_ok ended₁] at whole
  dsimp only at whole
  rw [bind_of_ok ended₂, bind_of_ok ended₃] at whole
  dsimp only at whole
  by_cases segmented : segSize ≠ 0
  · rw [if_pos segmented, if_pos segmented, bind_of_ok (show getCur s₃ = .ok s₃.cur s₃ from rfl),
      bind_of_ok (show getCur t₃ = .ok t₃.cur t₃ from rfl)]
    refine Follows.pure related₃ ⟨?_, endStart, endWithin⟩
    rw [related₃.cur]
    rfl
  · rw [if_neg segmented] at whole
    rw [if_neg segmented, if_neg segmented]
    refine Follows.bind (Tracks.follows related₃) fun _ headerLen s₄ t₄ ended₄ _ related₄ same => ?_
    subst same
    rw [bind_of_ok ended₄, bind_of_ok (show getCur s₄ = .ok s₄.cur s₄ from rfl)] at whole
    rw [bind_of_ok (show getCur s₄ = .ok s₄.cur s₄ from rfl),
      bind_of_ok (show getCur t₄ = .ok t₄.cur t₄ from rfl), size_two]
    have start := related₄.start
    have small : w.one.size headerLen < 2 ^ w.one.bits := Nat.mod_lt _ (Nat.two_pow_pos _)
    -- What the rest of the first run says about the program pointer.
    have placed' : w.src = w.dst ∨ (s₄.cur.p ≤ w.one.ptrAdd s₄.cur.p (w.one.size headerLen) ∧
        w.one.ptrAdd s₄.cur.p (w.one.size headerLen) ≤ unitEnd) := by
      refine placed.imp_right ?_
      rintro ⟨opening, s', ended, after⟩
      rw [whole] at ended
      split_ifs at ended with beyond
      · cases ended
      · have reads : Reads w.one s₄ s' := Develops.ok ended
        have forward := (reads.forward related₄.inside).1
        rw [bwHeaderRest_prog ended] at after
        exact ⟨forward.trans after, Nat.le_of_not_lt beyond⟩
    have moved := prog_move start endWithin placed' small
    have sameTest : w.move unitEnd < w.move (w.one.ptrAdd s₄.cur.p (w.one.size headerLen)) ↔
        unitEnd < w.one.ptrAdd s₄.cur.p (w.one.size headerLen) := by
      simp only [move]
      omega
    rw [related₄.cur]
    simp only [moved, sameTest]
    split_ifs
    · exact stop_follows related₄
    · refine (bwHeaderRest_follows related₄).mono fun opening opening' s₅ t₅ ended _ same => ?_
      rw [bwHeaderRest_unitEnd ended]
      exact ⟨same, endStart, endWithin⟩

end Header

/-! ### Units -/

section Units

variable {w : Placement} {s t : State}

/-- The rest of the unit from `p` on, in its own section, as a placement. -/
def Placement.here (w : Placement) (p : Nat) (start : w.src ≤ p) (within : p ≤ w.src + w.len) :
    Placement where
  one := w.one
  two := w.one
  src := p
  dst := p
  len := w.src + w.len - p
  lim := w.src + w.len
  base := []
  shift := 0
  bits := rfl
  srcPos := lt_of_lt_of_le w.srcPos start
  dstPos := lt_of_lt_of_le w.srcPos start
  srcFits := by
    have := w.srcFits
    omega
  dstFits := by omega
  limFits := w.srcFits
  bytes := fun _ _ => rfl
  mapped := fun addr from' below => by
    have dstFits := w.dstFits
    rw [← mem_move (w := w) (by omega) below]
    exact w.mapped _ (by unfold move; omega) (by unfold move; omega)
  strings := fun _ _ => ⟨Iff.rfl, rfl, fun _ _ _ found => found⟩

/-- Tables whose strings stay in the unit are read forward. -/
theorem bwTables_forward {prologue : Prologue} {files : Files} {s' : State} (ok : StateOk s)
    (endp : s.cur.endp = w.src + w.len) (start : w.src ≤ s.cur.p)
    (within : s.cur.p ≤ w.src + w.len) (ended : bwTables w.one prologue s = .ok files s')
    (fits : w.Fits s') : s.cur.p ≤ s'.cur.p := by
  have rowsSame : s.tab.rows.map (w.here s.cur.p start within).shiftRow = s.tab.rows := by
    have same : (w.here s.cur.p start within).shiftRow = id := rfl
    rw [same, List.map_id]
  have related : (w.here s.cur.p start within).Moved s s := by
    refine ⟨ok, ?_, le_refl _, ?_, ?_, ?_, rfl, fun _ _ => rfl⟩
    · rw [endp]
      simp only [here]
      omega
    · simp only [here]
      omega
    · simp only [here, move, Nat.add_sub_cancel]
      rw [← endp]
    · rw [rowsSame]
      rfl
  have fitsHere : (w.here s.cur.p start within).Fits s' := by
    refine ⟨Or.inl rfl, Or.inl rfl, fun scan member ofLine => ?_⟩
    have below := fits.scans scan member ofLine
    simp only [here]
    omega
  obtain ⟨_, _, -, related', -⟩ :=
    (bwTables_follows related rfl rfl).ok (show bwTables _ prologue s = _ from ended) fitsHere
  exact related'.start

/-- What a unit body that answers has done. -/
theorem bwUnitBody_eq_ok {img : Image} {prologue : Prologue} {exit : UnitExit} {s' : State} :
    bwUnitBody img prologue s = .ok exit s' ↔
      ∃ files s₁ loopExit s₂, bwTables img prologue s = .ok files s₁ ∧
        bwOpcodeLoop img prologue files (prologue.unitEnd - prologue.prog + 1) Regs.init
          { s₁ with cur := { s₁.cur with p := prologue.prog } } = .ok loopExit s₂ ∧
        exit = ⟨s₁.cur.p, prologue.prog, some loopExit⟩ ∧
        s' = { s₂ with cur := { s₂.cur with p := prologue.unitEnd } } := by
  unfold bwUnitBody
  constructor
  · intro ended
    obtain ⟨files, s₁, tables, rest⟩ := bind_eq_ok.mp ended
    obtain ⟨_, _, first, rest⟩ := bind_eq_ok.mp rest
    cases first
    obtain ⟨_, _, second, rest⟩ := bind_eq_ok.mp rest
    cases second
    obtain ⟨loopExit, s₂, loop, rest⟩ := bind_eq_ok.mp rest
    cases rest
    exact ⟨files, s₁, loopExit, s₂, tables, loop, rfl, rfl⟩
  · rintro ⟨files, s₁, loopExit, s₂, tables, loop, rfl, rfl⟩
    rw [bind_of_ok tables, bind_of_ok (show getCur s₁ = .ok s₁.cur s₁ from rfl),
      bind_of_ok (show setP prologue.prog s₁ = .ok () _ from rfl), bind_of_ok loop]
    rfl

theorem bwUnitBody_moves {prologue : Prologue} {exit : UnitExit} {s' : State}
    (related : w.Moved s t) (progStart : w.src ≤ prologue.prog)
    (before : prologue.prog ≤ prologue.unitEnd) (endWithin : prologue.unitEnd ≤ w.src + w.len)
    (ended : bwUnitBody w.one prologue s = .ok exit s') (whole : exit.exit ≠ some .short)
    (fits : w.Fits s') :
    ∃ exit' t', bwUnitBody w.two (w.movePrologue prologue) t = .ok exit' t' ∧ w.Moved s' t' := by
  obtain ⟨files, s₁, loopExit, s₂, tables, loop, rfl, rfl⟩ := bwUnitBody_eq_ok.mp ended
  have runs : Runs w.one { s₁ with cur := { s₁.cur with p := prologue.prog } } s₂ :=
    Develops.ok loop
  have fits₂ : w.Fits s₂ := ⟨fits.strs, fits.rows, fits.scans⟩
  have fitsMid := fits₂.before runs.grown
  have fits₁ : w.Fits s₁ := ⟨fitsMid.strs, fitsMid.rows, fitsMid.scans⟩
  obtain ⟨files', t₁, tablesTwo, related₁, rfl⟩ :=
    (bwTables_follows related (w.movePrologue_version prologue)
      (w.movePrologue_offsetSize prologue)).ok tables fits₁
  have filesOk := ((bwTables_safe related.ok).ok tables).2
  have atProg := related₁.setP progStart (by omega)
  obtain ⟨t₂, loopTwo, related₂⟩ := bwOpcodeLoop_moves (Or.inl atProg) filesOk (by omega) endWithin
    loop (fun same => whole (by rw [same])) fits₂
  have sameFuel : (w.movePrologue prologue).unitEnd - (w.movePrologue prologue).prog + 1 =
      prologue.unitEnd - prologue.prog + 1 := by
    simp only [movePrologue_unitEnd, movePrologue_prog, move]
    omega
  refine ⟨_, _, bwUnitBody_eq_ok.mpr
    ⟨w.shiftFiles files, t₁, loopExit, t₂, tablesTwo, ?_, rfl, rfl⟩, ?_⟩
  · rw [sameFuel]
    exact loopTwo
  · -- Wherever the second cursor was after the loop, both are now at the unit end.
    rcases related₂ with moved | past
    · exact moved.setP (by omega) endWithin
    · exact past.moved.setP (by omega) endWithin

/-- A header that leads to a skipped unit was read to where it says. -/
theorem bwPrologue_skip {img : Image} {unitEnd headerEnd prog : Nat} {s' : State}
    (ended : bwPrologue img s = .ok (.skip unitEnd headerEnd prog) s') : headerEnd = s'.cur.p := by
  obtain ⟨_, _, _, -, early | ⟨_, _, _, _, rest⟩⟩ := bwPrologue_eq_ok ended
  · cases early
    rfl
  · rcases bwHeaderRest_eq_ok rest with skipped | ⟨prologue, isGo, -⟩
    · cases skipped
      rfl
    · cases isGo

/-- The two ways in which a unit is accepted. -/
theorem bwParseUnit_eq_ok {img : Image} {exit : UnitExit} {s' : State}
    (ended : bwParseUnit img s = .ok exit s') :
    (∃ unitEnd headerEnd prog s₁, bwPrologue img s = .ok (.skip unitEnd headerEnd prog) s₁ ∧
      exit = ⟨headerEnd, prog, none⟩ ∧ s' = { s₁ with cur := { s₁.cur with p := unitEnd } }) ∨
    ∃ prologue s₁, bwPrologue img s = .ok (.go prologue) s₁ ∧
      bwUnitBody img prologue s₁ = .ok exit s' := by
  obtain ⟨opening, s₁, header, rest⟩ := bind_eq_ok.mp ended
  cases opening with
  | skip unitEnd headerEnd prog =>
      cases rest
      exact Or.inl ⟨unitEnd, headerEnd, prog, s₁, header, rfl, rfl⟩
  | go prologue => exact Or.inr ⟨prologue, s₁, header, rest⟩

/-- A unit whose program begins after its header does in the other section what
it does in its own. If the unit is at the same address, its program may begin
anywhere in it, and anywhere at all if it is not run. -/
theorem bwParseUnit_moves {exit : UnitExit} {s' : State} (related : w.Moved s t)
    (ended : bwParseUnit w.one s = .ok exit s')
    (placed : (w.src = w.dst ∧ (exit.exit ≠ none → w.src ≤ exit.prog)) ∨
      exit.headerEnd ≤ exit.prog)
    (whole : exit.exit ≠ some .short) (fits : w.Fits s') :
    ∃ exit' t', bwParseUnit w.two t = .ok exit' t' ∧ w.Moved s' t' := by
  rcases bwParseUnit_eq_ok ended with
    ⟨unitEnd, headerEnd, prog, s₁, header, rfl, rfl⟩ | ⟨prologue, s₁, header, body⟩
  · have headed : w.src = w.dst ∨
        ∃ opening s₂, bwPrologue w.one s = .ok opening s₂ ∧ s₂.cur.p ≤ opening.prog :=
      placed.imp And.left fun before => ⟨_, s₁, header, bwPrologue_skip header ▸ before⟩
    obtain ⟨_, t₁, headerTwo, related₁, rfl, endStart, endWithin⟩ :=
      (bwPrologue_follows related headed).ok header ⟨fits.strs, fits.rows, fits.scans⟩
    refine ⟨⟨w.move headerEnd, w.move prog, none⟩, _, ?_, related₁.setP endStart endWithin⟩
    rw [bwParseUnit, bind_of_ok headerTwo]
    rfl
  · obtain ⟨files, s₂, loopExit, s₃, tables, loop, rfl, rfl⟩ := bwUnitBody_eq_ok.mp body
    have reads : Reads w.one s s₁ := Develops.ok header
    have grownTables : Grown w.one s₁ s₂ := Develops.ok tables
    have runs : Runs w.one { s₂ with cur := { s₂.cur with p := prologue.prog } } s₃ :=
      Develops.ok loop
    have fits₃ : w.Fits s₃ := ⟨fits.strs, fits.rows, fits.scans⟩
    have fitsMid := fits₃.before runs.grown
    have fits₂ : w.Fits s₂ := ⟨fitsMid.strs, fitsMid.rows, fitsMid.scans⟩
    have openingOk := ((bwPrologue_safe related.ok).ok header).2
    have ahead := reads.forward related.inside
    have start := related.start
    have forward : s₁.cur.p ≤ s₂.cur.p :=
      bwTables_forward (related.ok.of_reads reads) (reads.endp.trans related.endp) (by omega)
        (by rw [← related.endp]; exact ahead.2) tables fits₂
    have headed : w.src = w.dst ∨
        ∃ opening s₂, bwPrologue w.one s = .ok opening s₂ ∧ s₂.cur.p ≤ opening.prog :=
      placed.imp And.left fun before => ⟨_, s₁, header, forward.trans before⟩
    have progStart : w.src ≤ prologue.prog := by
      rcases placed with ⟨-, after⟩ | before
      · exact after nofun
      · simp only at before
        omega
    obtain ⟨_, t₁, headerTwo, related₁, rfl, -, endWithin⟩ :=
      (bwPrologue_follows related headed).ok header (fits₂.before grownTables)
    obtain ⟨exit', t', bodyTwo, related'⟩ :=
      bwUnitBody_moves related₁ progStart openingOk.2 endWithin body whole fits
    refine ⟨exit', t', ?_, related'⟩
    rw [bwParseUnit, bind_of_ok headerTwo]
    exact bodyTwo

end Units

end Backwalk.DwarfLine
