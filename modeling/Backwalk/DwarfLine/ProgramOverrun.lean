import Backwalk.DwarfLine.Emission
import Backwalk.DwarfLine.Overrun

/-!
Contract: what the program of a unit does once the end of the unit has refused it
a byte, where the section goes on.

The run on the unit by itself ends there. The other one may go on: with the
operand of a `set_address` that was read from behind the unit, and the cursor
back inside it. It has one row more for each that it takes from then on.
-/

namespace Backwalk.DwarfLine

open Backwalk.Support

/-- The operands of the instruction at a visit were read to a place behind
`stop`. -/
def ReadsBehind (img : Image) (prologue : Prologue) (stop : Nat) (visit : Visit) : Prop :=
  ∃ op s t, bwU8 img visit.state = .ok op s ∧ decodeOperands img prologue op s = .ok () t ∧
    stop < t.cur.p

/-! ### Operands -/

section Operands

variable {w : Placement} {s t : State} {prologue : Prologue} {files : Files} {regs : Regs}

open Placement

instance tracks_readOperands (n : Nat) :
    w.Tracks (readOperands w.one n) (readOperands w.two n) := by
  induction n with
  | zero => unfold readOperands; infer_instance
  | succ n inductionHypothesis => unfold readOperands; infer_instance

/-- Operands that the unit has are the same in the other section. -/
theorem decodeOperands_follows {op : Nat} (related : w.Moved s t) :
    Follows w.pairing (fun _ _ _ _ => True) (decodeOperands w.one prologue op s)
      (decodeOperands w.two (w.movePrologue prologue) op t) := by
  unfold decodeOperands
  simp only [movePrologue_opcodeBase, movePrologue_stdLen]
  by_cases unknown : Unknown prologue op
  · rw [if_pos unknown, if_pos (show Unknown (w.movePrologue prologue) op from unknown)]
    refine Follows.bind (Tracks.follows related) fun _ count s₁ t₁ _ _ related₁ same => ?_
    subst same
    exact (Tracks.follows related₁).mono fun _ _ _ _ _ _ _ => trivial
  rw [if_neg unknown, if_neg (show ¬ Unknown (w.movePrologue prologue) op from unknown)]
  by_cases extended : op = 0
  · rw [if_pos extended, if_pos extended]
    refine Follows.bind (Tracks.follows related) fun _ insnLen s₁ t₁ _ _ related₁ same => ?_
    subst same
    rw [bind_of_ok (show getCur s₁ = .ok s₁.cur s₁ from rfl),
      bind_of_ok (show getCur t₁ = .ok t₁.cur t₁ from rfl), size_two]
    by_cases empty : insnLen = 0
    · rw [if_pos empty, if_pos empty]
      exact stop_follows related₁
    rw [if_neg empty, if_neg empty]
    by_cases room : bwCurOk w.one s₁.cur (w.one.size insnLen) = true
    · rw [if_pos room, if_pos (related₁.room room).2]
      refine Follows.bind (Tracks.follows related₁) fun _ ext s₂ t₂ _ _ related₂ same => ?_
      subst same
      split_ifs
      · exact Follows.bind (Tracks.follows related₂)
          fun _ _ _ _ _ _ related₃ _ => Follows.pure related₃ trivial
      · exact Follows.pure related₂ trivial
    · rw [if_neg room]
      exact Follows.excused rfl excused_short
  rw [if_neg extended, if_neg extended]
  split_ifs
  · exact Follows.pure related trivial
  · exact Follows.bind (Tracks.follows related)
      fun _ _ _ _ _ _ related₁ _ => Follows.pure related₁ trivial
  · exact Follows.bind (Tracks.follows related)
      fun _ _ _ _ _ _ related₁ _ => Follows.pure related₁ trivial
  · exact Follows.bind (Tracks.follows related)
      fun _ _ _ _ _ _ related₁ _ => Follows.pure related₁ trivial
  · exact Follows.pure related trivial

/-- A byte of the unit is read. -/
theorem Placement.Moved.byte (related : w.Moved s t) (inUnit : s.cur.p < w.src + w.len) :
    ∃ byte s', bwU8 w.one s = .ok byte s' := by
  have room : bwCurOk w.one s.cur 1 = true := by
    by_contra refused
    have short := related.no_room refused
    omega
  obtain ⟨bytes, peeked⟩ := peek_unit related.start (related.room room).1
  exact ⟨_, _, by rw [bwU8, bwUint_run, if_pos room, peeked]⟩

/-- Both runs read the same byte. -/
theorem Placement.Alone.byte (alone : w.Alone) (related : w.Moved s t) (contained : w.Contained s)
    (inUnit : s.cur.p < w.src + w.len) :
    ∃ byte s₁ t₁, bwU8 w.one s = .ok byte s₁ ∧ bwU8 w.two t = .ok byte t₁ ∧ w.Moved s₁ t₁ ∧
      w.Contained s₁ := by
  obtain ⟨byte, s₁, read⟩ := related.byte inUnit
  obtain ⟨t₁, readTwo, related₁, contained₁⟩ := alone.next (bwU8 w.two) related contained read
  exact ⟨byte, s₁, t₁, read, readTwo, related₁, contained₁⟩

/-- The rest of the unit is mapped. -/
theorem Placement.Moved.mappedHere (related : w.Moved s t) :
    (w.here s.cur.p related.start related.within).Mapped s :=
  ⟨related.endp, le_refl _, related.within⟩

theorem bwSkipOperands_grounded {n : Nat} (related : w.Moved s t) :
    ∃ s', bwSkipOperands w.one n s = .ok () s' :=
  bwSkipOperands_mapped related.mappedHere

theorem readOperands_mapped {n : Nat} {fault : Fault} {t' : State} (mapped : w.Mapped t) :
    readOperands w.two n t ≠ .error (.fault fault) t' := by
  induction n generalizing t with
  | zero => exact nofun
  | succ n inductionHypothesis =>
      intro faulted
      rcases bind_eq_error.mp faulted with early | ⟨value, u, read, late⟩
      · exact bwUleb_mapped mapped early
      · have reads : Reads w.two t u := Develops.ok read
        exact inductionHypothesis (mapped.reads reads) late

theorem readOperands_grounded {n : Nat} {fault : Fault} {s' : State} (related : w.Moved s t) :
    readOperands w.one n s ≠ .error (.fault fault) s' :=
  readOperands_mapped related.mappedHere

end Operands

/-! ### One instruction -/

section Instruction

variable {w : Placement} {s t : State} {prologue : Prologue} {files : Files} {regs : Regs}
  {why : Stop} {s' t' : State} {regs' : Regs}

open Placement

/-- Where an extended opcode is refused, the other run leaves the unit with it, or
reads its operand from behind the unit. -/
theorem bwExtended_overruns (alone : w.Alone) (related : w.Moved s t) (contained : w.Contained s)
    (stopped : bwExtended w.one prologue regs s = .error why s') (refused : Refused why)
    (answered : bwExtended w.two prologue regs t = .ok regs' t') :
    w.dst + w.len ≤ t'.cur.p ∨
      ∃ u, decodeOperands w.two prologue 0 t = .ok () u ∧ w.dst + w.len < u.cur.p := by
  obtain ⟨insnLen, t₁, lengthTwo, answered⟩ := bind_eq_ok.mp answered
  rw [bind_of_ok (show getCur t₁ = .ok t₁.cur t₁ from rfl)] at answered
  by_cases empty : insnLen = 0
  · rw [if_pos empty] at answered
    cases answered
  by_cases roomTwo : bwCurOk w.two t₁.cur (w.two.size insnLen) = true
  case neg =>
    rw [if_neg empty, if_neg roomTwo] at answered
    cases answered
  rw [if_neg empty, if_pos roomTwo] at answered
  have reads : Reads w.two t t₁ := Develops.ok lengthTwo
  obtain ⟨stepped, -⟩ := ptrAdd_of_inside (reads.inside related.inside_two) roomTwo
  -- Wherever the instruction was read to, the cursor goes to its end.
  have atEnd : t'.cur.p = t₁.cur.p + w.two.size insnLen := by
    obtain ⟨ext, t₂, -, rest⟩ := bind_eq_ok.mp answered
    split_ifs at rest
    · cases rest
      exact stepped
    · obtain ⟨addr, t₃, -, rest⟩ := bind_eq_ok.mp rest
      cases rest
      exact stepped
    · cases rest
      exact stepped
  rcases bind_eq_error.mp stopped with early | ⟨insnLen', s₁, length, late⟩
  · have overruns : Overruns Refused w.Behind (bwUleb w.one s) (bwUleb w.two t) :=
      Overrun.overruns alone related contained
    have behind := (overruns _ _ early refused _ _ lengthTwo).2
    omega
  obtain ⟨t₁', lengthTwo', related₁, contained₁⟩ :=
    alone.next (bwUleb w.two) related contained length
  cases lengthTwo.symm.trans lengthTwo'
  have place : t₁.cur.p = s₁.cur.p + w.dst - w.src := by rw [related₁.cur, move]
  have same := alone.same
  rw [bind_of_ok (show getCur s₁ = .ok s₁.cur s₁ from rfl), if_neg empty] at late
  by_cases room : bwCurOk w.one s₁.cur (w.one.size insnLen) = true
  case neg =>
    have short := related₁.no_room room
    rw [size_two] at atEnd
    omega
  rw [if_pos room] at late
  obtain ⟨ext, t₂, extTwo, rest⟩ := bind_eq_ok.mp answered
  rcases bind_eq_error.mp late with early | ⟨ext', s₂, extOne, late⟩
  · -- There is no byte left for the opcode: the instruction ends behind the unit.
    refine Or.inl ?_
    by_contra before
    obtain ⟨_, _, read⟩ := related₁.byte (by omega)
    cases early.symm.trans read
  obtain ⟨t₂', extTwo', related₂, contained₂⟩ :=
    alone.next (bwU8 w.two) related₁ contained₁ extOne
  cases extTwo.symm.trans extTwo'
  by_cases isEnd : ext = bwLneEndSequence
  · rw [if_pos isEnd] at late
    cases late
  by_cases setAddress : ext = bwLneSetAddress
  case neg =>
    rw [if_neg isEnd, if_neg setAddress] at late
    cases late
  rw [if_neg isEnd, if_pos setAddress] at late rest
  obtain ⟨addr, u, operandTwo, -⟩ := bind_eq_ok.mp rest
  refine Or.inr ⟨u, ?_, ?_⟩
  · rw [decodeOperands, if_neg (fun unknown => unknown.1 rfl), if_pos rfl, bind_of_ok lengthTwo,
      bind_of_ok (show getCur t₁ = .ok t₁.cur t₁ from rfl), if_neg empty, if_pos roomTwo,
      bind_of_ok extTwo, if_pos setAddress, bind_of_ok operandTwo]
    rfl
  · rcases bind_eq_error.mp late with early | ⟨_, _, _, done⟩
    · have operand : Overrun w (bwSetAddressOperand w.one prologue)
          (bwSetAddressOperand w.two prologue) := by
        unfold bwSetAddressOperand
        infer_instance
      exact (operand.overruns alone related₂ contained₂ _ _ early refused _ _ operandTwo).2
    · cases done

instance (addr : Nat) (off : Int) (line : Nat) :
    StopsFor (fun why => ¬ Refused why) (bwEmit addr off line) :=
  StopsFor.of_answers fun s => by
    rw [bwEmit_run]
    split_ifs
    · exact ⟨_, _, rfl⟩
    · exact ⟨_, _, rfl⟩

instance (regs : Regs) : StopsFor (fun why => ¬ Refused why) (bwEmitRegs files regs) := by
  unfold bwEmitRegs
  infer_instance

instance (img : Image) (op : Nat) (regs : Regs) :
    StopsFor (fun why => ¬ Refused why) (bwSpecial img prologue files op regs) := by
  unfold bwSpecial
  infer_instance

theorem bwStandard_overruns {op : Nat} (alone : w.Alone) (related : w.Moved s t)
    (contained : w.Contained s) :
    Overruns Refused w.Behind (bwStandard w.one prologue files op regs s)
      (bwStandard w.two prologue files op regs t) := by
  unfold bwStandard
  by_cases isCopy : op = bwLnsCopy
  · rw [if_pos isCopy, if_pos isCopy]
    exact Overruns.of_stopsFor _ _ _
  rw [if_neg isCopy, if_neg isCopy]
  by_cases isAdvancePc : op = bwLnsAdvancePc
  · rw [if_pos isAdvancePc, if_pos isAdvancePc]
    exact Overrun.overruns alone related contained
  rw [if_neg isAdvancePc, if_neg isAdvancePc]
  by_cases isAdvanceLine : op = bwLnsAdvanceLine
  · rw [if_pos isAdvanceLine, if_pos isAdvanceLine]
    exact Overrun.overruns alone related contained
  rw [if_neg isAdvanceLine, if_neg isAdvanceLine]
  by_cases isSetFile : op = bwLnsSetFile
  · rw [if_pos isSetFile, if_pos isSetFile]
    exact Overrun.overruns alone related contained
  rw [if_neg isSetFile, if_neg isSetFile]
  by_cases isConstAddPc : op = bwLnsConstAddPc
  · rw [if_pos isConstAddPc, if_pos isConstAddPc]
    exact Overruns.of_stopsFor _ _ _
  rw [if_neg isConstAddPc, if_neg isConstAddPc]
  by_cases isFixed : op = bwLnsFixedAdvancePc
  · rw [if_pos isFixed, if_pos isFixed]
    exact Overrun.overruns alone related contained
  rw [if_neg isFixed, if_neg isFixed]
  -- The operands of an unknown opcode are skipped, whatever they are.
  intro why s' stopped refused
  exfalso
  rcases bind_eq_error.mp stopped with early | ⟨count, s₁, read, late⟩
  · have unrefused : StopsFor (fun why => ¬ Refused why) (prologue.stdLen.read op) := inferInstance
    exact unrefused.reason early refused
  · obtain ⟨t₁, -, related₁, -⟩ := alone.next (prologue.stdLen.read op) related contained read
    obtain ⟨s₂, skipped⟩ := bwSkipOperands_grounded (n := count) related₁
    rw [bind_of_ok skipped] at late
    cases late

/-- Where an instruction is refused, the other run leaves the unit with it, or has
read its operands from behind the unit. -/
theorem bwOpcode_overruns (alone : w.Alone) (related : w.Moved s t) (contained : w.Contained s)
    (inUnit : s.cur.p < w.src + w.len)
    (stopped : bwOpcode w.one prologue files regs s = .error why s') (refused : Refused why)
    (answered : bwOpcode w.two prologue files regs t = .ok regs' t') :
    w.dst + w.len ≤ t'.cur.p ∨ ReadsBehind w.two prologue (w.dst + w.len) ⟨regs, t⟩ := by
  obtain ⟨op, s₁, t₁, read, readTwo, related₁, contained₁⟩ := alone.byte related contained inUnit
  rw [bwOpcode, bind_of_ok read] at stopped
  rw [bwOpcode, bind_of_ok readTwo] at answered
  by_cases extended : op = 0
  · rw [if_pos extended] at stopped answered
    refine (bwExtended_overruns alone related₁ contained₁ stopped refused answered).imp_right ?_
    rintro ⟨u, decoded, behind⟩
    exact ⟨op, t₁, u, readTwo, extended ▸ decoded, behind⟩
  rw [if_neg extended] at stopped answered
  by_cases special : prologue.opcodeBase ≤ op
  · rw [if_pos special] at stopped
    have unrefused : StopsFor (fun why => ¬ Refused why) (bwSpecial w.one prologue files op regs) :=
      inferInstance
    exact absurd refused (unrefused.reason stopped)
  · rw [if_neg special] at stopped answered
    have behind := bwStandard_overruns alone related₁ contained₁ _ _ stopped refused _ _ answered
    exact Or.inl behind.2.le

/-- The operands of an unknown opcode that was gone through do not fault. -/
theorem decodeOperands_of_unknown {op : Nat} {fault : Fault} {u : State} (related : w.Moved s t)
    (unknown : Unknown prologue op)
    (ended : bwStandard w.one prologue files op regs s = .ok regs' s') :
    decodeOperands w.one prologue op s ≠ .error (.fault fault) u := by
  intro faulted
  obtain ⟨-, -, other⟩ := id unknown
  simp only [List.mem_cons, List.not_mem_nil, or_false, not_or] at other
  obtain ⟨copy, advancePc, advanceLine, setFile, constAddPc, fixedAdvancePc⟩ := other
  rw [bwStandard, if_neg copy, if_neg advancePc, if_neg advanceLine, if_neg setFile,
    if_neg constAddPc, if_neg fixedAdvancePc] at ended
  obtain ⟨count, s₁, read, -⟩ := bind_eq_ok.mp ended
  rw [decodeOperands, if_pos unknown, bind_of_ok read] at faulted
  rw [(read_eq_ok read).2] at faulted
  exact readOperands_grounded related faulted

/-- An instruction that the unit has does not read behind it, unless it is the
last one. -/
theorem bwOpcode_within (alone : w.Alone) (related : w.Moved s t) (contained : w.Contained s)
    (inUnit : s.cur.p < w.src + w.len)
    (ended : bwOpcode w.one prologue files regs s = .ok regs' s') :
    w.src + w.len ≤ s'.cur.p ∨ ¬ ReadsBehind w.two prologue (w.dst + w.len) ⟨regs, t⟩ := by
  obtain ⟨op, s₁, t₁, read, readTwo, related₁, contained₁⟩ := alone.byte related contained inUnit
  have follows := @decodeOperands_follows w s₁ t₁ prologue op related₁
  rw [alone.movePrologue_eq] at follows
  cases decoded : decodeOperands w.one prologue op s₁ with
  | ok _ u =>
      have reads : Reads w.one s₁ u := Develops.ok decoded
      obtain ⟨_, v, decodedTwo, relatedU, -⟩ :=
        follows.ok decoded ((contained₁.fits alone).reads reads)
      refine Or.inr ?_
      rintro ⟨op', t₁', v', readTwo', decodedTwo', behind⟩
      cases readTwo.symm.trans readTwo'
      cases decodedTwo.symm.trans decodedTwo'
      have within := relatedU.within
      rw [relatedU.cur, alone.move_eq, ← alone.same] at behind
      simp only at behind
      omega
  | error why u =>
      by_cases unknown : Unknown prologue op
      case neg =>
        have stopped := @bwOpcode_of_known w.one prologue files regs s s₁ op why read u unknown
          decoded
        cases ended.symm.trans stopped
      have reads : Reads w.one s₁ u := Develops.error decoded
      cases why with
      | short =>
          have skipped := @bwOpcode_of_unknown w.one prologue files regs s s₁ op .short read u
            unknown (Or.inl rfl) decoded
          cases ended.symm.trans skipped
          have started := w.srcPos.trans_le related₁.start
          have atEnd := decodeOperands_short_atEnd related₁.inside started unknown decoded
          rw [atEnd, reads.endp, related₁.endp]
          exact Or.inl (le_refl _)
      | malformed =>
          obtain ⟨v, decodedTwo, -⟩ := follows.error decoded ((contained₁.fits alone).reads reads)
            fun excused => excused rfl
          refine Or.inr ?_
          rintro ⟨op', t₁', v', readTwo', decodedTwo', -⟩
          cases readTwo.symm.trans readTwo'
          cases decodedTwo.symm.trans decodedTwo'
      | fault fault =>
          have standard : bwStandard w.one prologue files op regs s₁ = .ok regs' s' := by
            rw [bwOpcode, bind_of_ok read, if_neg unknown.1,
              if_neg (Nat.not_le_of_lt unknown.2.1)] at ended
            exact ended
          exact absurd decoded (decodeOperands_of_unknown related₁ unknown standard)

end Instruction

/-! ### The opcode loop -/

/-- Once operands were read from behind `stop` no row is taken. -/
def SilentBehind (img : Image) (program : Program) (stop : Nat) (visits : List Visit) : Prop :=
  visits.Pairwise fun earlier later =>
    ReadsBehind img program.prologue stop earlier → ¬ TakesRow img program later

/-- Two runs that have left these tables are at one place. -/
def Placement.Alike (w : Placement) (tab tab' : Tab) : Prop :=
  ∃ s t, w.Moved s t ∧ s.tab = tab ∧ t.tab = tab'

section Loop

variable {w : Placement} {s t : State} {program : Program} {fuel : Nat} {regs : Regs}

open Placement

theorem Placement.InLoop.alike (related : w.InLoop s t) : w.Alike s.tab t.tab := by
  rcases related with moved | past
  · exact ⟨s, t, moved, rfl, rfl⟩
  · exact ⟨s, _, past.moved, rfl, rfl⟩

/-- At the end of the unit both cursors are. -/
theorem Placement.InLoop.done (alone : w.Alone) (related : w.InLoop s t)
    (last : w.src + w.len ≤ s.cur.p) : w.dst + w.len ≤ t.cur.p := by
  rcases related with moved | past
  · rw [moved.cur, alone.move_eq, ← alone.same]
    exact last
  · exact past.past

theorem silentBehind_of_drops {img : Image} {stop : Nat} {visits : List Visit}
    (drops : ∀ visit ∈ visits, ¬ TakesRow img program visit) :
    SilentBehind img program stop visits :=
  List.pairwise_of_forall_mem_list fun _ _ later member _ => drops later member

/-- The same instruction emits registers in both runs. -/
theorem Placement.Alone.silent (alone : w.Alone) (related : w.Moved s t)
    (contained : w.Contained s) (inUnit : s.cur.p < w.src + w.len) {prologue : Prologue}
    (silent : emitted w.one prologue ⟨regs, s⟩ = none) :
    emitted w.two prologue ⟨regs, t⟩ = none := by
  obtain ⟨op, s₁, t₁, read, readTwo, -, -⟩ := alone.byte related contained inUnit
  unfold emitted at silent ⊢
  rw [read] at silent
  rw [readTwo]
  dsimp only at silent ⊢
  split_ifs at silent ⊢
  · rfl
  · rfl

/-- What the two runs of a program have come to, the first of them on the unit by
itself: the same, or the second one has more rows. -/
def Placement.Outcomes (w : Placement) (program : Program) (fuel : Nat) (regs : Regs)
    (s t : State) : Prop :=
  let visits := opcodeVisits w.two program.prologue program.files fuel regs t
  let tab := (stateAfter (bwOpcodeLoop w.one program.prologue program.files fuel regs) s).tab
  let tab' := (stateAfter (bwOpcodeLoop w.two program.prologue program.files fuel regs) t).tab
  (SilentBehind w.two program (w.dst + w.len) visits ∧ w.Alike tab tab') ∨
    (¬ SilentBehind w.two program (w.dst + w.len) visits ∧ tab.nrow < tab'.nrow)

/-- An instruction that the end of the unit refuses is the last of the first run.
The second one may go on. -/
theorem loop_of_refused {why : Stop} {s₁ : State} (alone : w.Alone)
    (prologueOk : PrologueOk program.prologue)
    (unitEnd : program.prologue.unitEnd = w.src + w.len) (related : w.Moved s t)
    (contained : w.Contained s) (inUnit : s.cur.p < program.prologue.unitEnd)
    (filesOk : FilesOk s.tab program.files) (filesOkTwo : FilesOk t.tab program.files)
    (stopped : bwOpcode w.one program.prologue program.files regs s = .error why s₁)
    (refused : Refused why) : w.Outcomes program (fuel + 1) regs s t := by
  have same := alone.same
  have silent := emitted_of_error prologueOk filesOk stopped
  have tabOne := @bwOpcode_of_silent w.one program.prologue program.files regs s silent
  have tabTwo := @bwOpcode_of_silent w.two program.prologue program.files regs t
    (alone.silent related contained (unitEnd ▸ inUnit) silent)
  have inUnitTwo : t.cur.p < program.prologue.unitEnd := by
    rw [related.cur, alone.move_eq]
    exact inUnit
  rw [stateAfter_of_error stopped] at tabOne
  have alike : w.Alike s₁.tab t.tab := ⟨s, t, related, tabOne.symm, rfl⟩
  unfold Outcomes
  rw [loopAfter_of_error inUnit stopped]
  cases opcodeTwo : bwOpcode w.two program.prologue program.files regs t with
  | error why' t₁ =>
      rw [stateAfter_of_error opcodeTwo] at tabTwo
      rw [opcodeVisits_of_error inUnitTwo opcodeTwo, loopAfter_of_error inUnitTwo opcodeTwo, tabTwo]
      exact Or.inl ⟨List.pairwise_singleton _ _, alike⟩
  | ok regs' t₁ =>
      have runsTwo : Runs w.two t t₁ := Develops.ok opcodeTwo
      have filesLater := filesOkTwo.mono runsTwo.grown.tab
      rw [stateAfter_of_ok opcodeTwo] at tabTwo
      rw [opcodeVisits_of_ok inUnitTwo opcodeTwo, loopAfter_of_ok inUnitTwo opcodeTwo]
      rcases bwOpcode_overruns alone related contained (unitEnd ▸ inUnit) stopped refused opcodeTwo
        with last | behind
      · have doneTwo : ¬ t₁.cur.p < program.prologue.unitEnd := by omega
        rw [opcodeVisits_done doneTwo, loopAfter_done doneTwo, tabTwo]
        exact Or.inl ⟨List.pairwise_singleton _ _, alike⟩
      · by_cases drops : ∀ visit ∈
          opcodeVisits w.two program.prologue program.files fuel regs' t₁,
            ¬ TakesRow w.two program visit
        · refine Or.inl ⟨List.pairwise_cons.mpr ⟨fun later member _ => drops later member,
            silentBehind_of_drops drops⟩, ?_⟩
          rw [loop_of_drops prologueOk filesLater drops, tabTwo]
          exact alike
        · simp only [not_forall, not_not] at drops
          obtain ⟨visit, member, takes⟩ := drops
          refine Or.inr ⟨fun quiet => (List.pairwise_cons.mp quiet).1 visit member behind takes, ?_⟩
          have more := loop_of_takes prologueOk filesLater member takes
          have rows : t.tab.nrow = s.tab.nrow := by
            rw [Tab.nrow, related.rows, alone.base, List.nil_append, List.length_map, Tab.nrow]
          rw [tabOne, ← rows, ← tabTwo]
          exact more

/-- The two runs go through the program in lockstep, up to an instruction that the
end of the unit refuses. -/
theorem loop_lockstep (alone : w.Alone) (prologueOk : PrologueOk program.prologue)
    (unitEnd : program.prologue.unitEnd = w.src + w.len) (related : w.InLoop s t)
    (scans : ∀ scan ∈ s.scans, scan.sec = .line → scan.hi ≤ w.src + w.len)
    (filesOk : FilesOk s.tab program.files) (filesOkTwo : FilesOk t.tab program.files) :
    w.Outcomes program fuel regs s t := by
  induction fuel generalizing regs s t with
  | zero => exact Or.inl ⟨List.Pairwise.nil, related.alike⟩
  | succ fuel inductionHypothesis =>
      by_cases inUnit : s.cur.p < program.prologue.unitEnd
      case neg =>
        have doneTwo : ¬ t.cur.p < program.prologue.unitEnd := by
          rw [unitEnd, alone.same]
          exact Nat.not_lt.mpr (related.done alone (unitEnd ▸ Nat.le_of_not_lt inUnit))
        unfold Outcomes
        rw [opcodeVisits_done doneTwo, loopAfter_done inUnit, loopAfter_done doneTwo]
        exact Or.inl ⟨List.Pairwise.nil, related.alike⟩
      have moved : w.Moved s t := by
        rcases related with moved | past
        · exact moved
        · exact absurd past.atEnd (by omega)
      have contained : w.Contained s := ⟨moved.endp, moved.start, moved.within, scans⟩
      have inUnitTwo : t.cur.p < program.prologue.unitEnd := by
        rw [moved.cur, alone.move_eq]
        exact inUnit
      have step := @bwOpcode_follows w s t program.prologue program.files regs moved filesOk
      rw [alone.movePrologue_eq, alone.shiftFiles_eq] at step
      cases opcode : bwOpcode w.one program.prologue program.files regs s with
      | ok regs' s₁ =>
          have runs : Runs w.one s s₁ := Develops.ok opcode
          have scans₁ : ∀ scan ∈ s₁.scans, scan.sec = .line → scan.hi ≤ w.src + w.len :=
            runs.scans ▸ scans
          obtain ⟨regs₁, t₁, opcodeTwo, related₁, same⟩ :=
            step.ok opcode ⟨Or.inl alone.shift, Or.inl alone.base, scans₁⟩
          rw [same] at opcodeTwo
          have runsTwo : Runs w.two t t₁ := Develops.ok opcodeTwo
          have head : ∀ later ∈ opcodeVisits w.two program.prologue program.files fuel regs' t₁,
              ReadsBehind w.two program.prologue (w.dst + w.len) ⟨regs, t⟩ →
                ¬ TakesRow w.two program later := by
            rcases bwOpcode_within alone moved contained (unitEnd ▸ inUnit) opcode with
              last | within
            · have doneTwo : ¬ t₁.cur.p < program.prologue.unitEnd := by
                rw [unitEnd, alone.same]
                exact Nat.not_lt.mpr (related₁.done alone last)
              rw [opcodeVisits_done doneTwo]
              exact fun _ member => nomatch member
            · exact fun _ _ behind => absurd behind within
          have later := @inductionHypothesis s₁ t₁ regs' related₁ scans₁
            (filesOk.mono runs.grown.tab) (filesOkTwo.mono runsTwo.grown.tab)
          unfold Outcomes at later ⊢
          rw [opcodeVisits_of_ok inUnitTwo opcodeTwo, loopAfter_of_ok inUnit opcode,
            loopAfter_of_ok inUnitTwo opcodeTwo]
          refine later.imp (And.imp_left fun quiet => ?_) (And.imp_left fun loud quiet => ?_)
          · exact List.pairwise_cons.mpr ⟨head, quiet⟩
          · exact loud (List.pairwise_cons.mp quiet).2
      | error why s₁ =>
          have benign := ((bwOpcode_safe moved.ok moved.inside prologueOk filesOk).error opcode).2
          rcases benign.cases with rfl | refused
          · have runs : Runs w.one s s₁ := Develops.error opcode
            obtain ⟨t₁, opcodeTwo, related₁⟩ := step.error opcode
              ⟨Or.inl alone.shift, Or.inl alone.base, runs.scans ▸ scans⟩ fun excused => excused rfl
            unfold Outcomes
            rw [opcodeVisits_of_error inUnitTwo opcodeTwo, loopAfter_of_error inUnit opcode,
              loopAfter_of_error inUnitTwo opcodeTwo]
            exact Or.inl ⟨List.pairwise_singleton _ _, related₁.alike⟩
          · exact loop_of_refused alone prologueOk unitEnd moved contained inUnit filesOk filesOkTwo
              opcode refused

end Loop

end Backwalk.DwarfLine
