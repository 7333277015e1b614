import Backwalk.DwarfLine.Program

/-!
Contract: which instructions of a unit add a row.

Owns the registers that an instruction hands to `bw_emit`, the checks that these
pass if a row is taken, and what follows for a whole unit: it adds no row exactly
if none is taken at a visit of its program.
-/

namespace Backwalk.DwarfLine

open Backwalk.Support

/-! ### Registers of a row -/

section Registers

variable (img : Image) (prologue : Prologue)

/-- The registers after an operation advance. -/
def advancedRegs (regs : Regs) (opAdvance : Nat) : Regs :=
  let sum := (regs.opIndex + opAdvance) % 2 ^ 64
  { regs with
    address := img.size (regs.address + prologue.minInst * img.size (sum / prologue.maxOps))
    opIndex := sum % prologue.maxOps }

/-- The registers after a special opcode. -/
def specialRegs (op : Nat) (regs : Regs) : Regs :=
  let adjusted := op - prologue.opcodeBase
  let line := ofI64 (toI64 regs.line + prologue.lineBase + (adjusted % prologue.lineRange : Nat))
  advancedRegs img prologue { regs with line := line } (adjusted / prologue.lineRange)

/-- The registers that the instruction at a visit hands to `bw_emit`, if it is one
that does. -/
def emitted (visit : Visit) : Option Regs :=
  match bwU8 img visit.state with
  | .error _ _ => none
  | .ok op _ =>
      if op = 0 then none
      else if prologue.opcodeBase ≤ op then some (specialRegs img prologue op visit.regs)
      else if op = bwLnsCopy then some visit.regs
      else none

end Registers

/-- The checks on the way to a new row: there is room for it, the file has a name,
and it has an address and a line number of 32 bits. -/
structure Files.Takes (files : Files) (tab : Tab) (regs : Regs) : Prop where
  room : tab.nrow < bwDwarfRowMax
  known : regs.fileIdx < files.nfile
  named : 0 ≤ files.fileOff.cell regs.fileIdx
  address : regs.address ≠ 0
  line : regs.line ≠ 0
  width : regs.line ≤ 0xffffffff

theorem Files.takes_iff {files : Files} {tab : Tab} {regs : Regs} :
    files.Takes tab regs ↔ tab.nrow < bwDwarfRowMax ∧ regs.fileIdx < files.nfile ∧
      0 ≤ files.fileOff.cell regs.fileIdx ∧ regs.address ≠ 0 ∧ regs.line ≠ 0 ∧
      regs.line ≤ 0xffffffff :=
  ⟨fun takes => ⟨takes.room, takes.known, takes.named, takes.address, takes.line, takes.width⟩,
    fun ⟨room, known, named, address, line, width⟩ =>
      ⟨room, known, named, address, line, width⟩⟩

instance (files : Files) (tab : Tab) (regs : Regs) : Decidable (files.Takes tab regs) :=
  decidable_of_iff _ Files.takes_iff.symm

/-- A row is taken at a visit. -/
def TakesRow (img : Image) (program : Program) (visit : Visit) : Prop :=
  ∃ regs ∈ emitted img program.prologue visit, program.files.Takes visit.state.tab regs

instance (img : Image) (program : Program) (visit : Visit) :
    Decidable (TakesRow img program visit) :=
  match found : emitted img program.prologue visit with
  | none => isFalse fun ⟨_, member, _⟩ => by rw [found] at member; cases member
  | some regs => decidable_of_iff (program.files.Takes visit.state.tab regs)
      ⟨fun takes => ⟨regs, found, takes⟩, fun ⟨_, member, takes⟩ => by
        rw [found] at member
        cases member
        exact takes⟩

/-! ### One instruction -/

/-- The table has not changed. -/
def SameTab (s t : State) : Prop := t.tab = s.tab

instance : Std.Refl SameTab := ⟨fun _ => rfl⟩

instance : IsTrans State SameTab := ⟨fun _ _ _ one two => Eq.trans two one⟩

section Instruction

variable {img : Image} {prologue : Prologue} {files : Files} {regs : Regs} {s : State}

/-- Reads leave the table alone. -/
theorem sameTab_of_reads (img : Image) {α : Type} (m : Parser α)
    [reads : Develops (Reads img) m] : Develops SameTab m :=
  ⟨fun s => (reads.after s).tab⟩

instance (p : Nat) : Develops SameTab (setP p) := ⟨fun _ => rfl⟩

instance : Develops SameTab (bwExtended img prologue regs) := by
  have length : Develops SameTab (bwUleb img) := sameTab_of_reads img _
  have byte : Develops SameTab (bwU8 img) := sameTab_of_reads img _
  have cursor : Develops SameTab getCur := sameTab_of_reads img _
  have operand : Develops SameTab (bwSetAddressOperand img prologue) := sameTab_of_reads img _
  have short : Develops SameTab (stop .short : Parser Regs) := sameTab_of_reads img _
  have malformed : Develops SameTab (stop .malformed : Parser Regs) := sameTab_of_reads img _
  unfold bwExtended
  infer_instance

theorem bwStandard_tab {op : Nat} (other : op ≠ bwLnsCopy) :
    (stateAfter (bwStandard img prologue files op regs) s).tab = s.tab := by
  unfold bwStandard
  rw [if_neg other]
  split_ifs
  all_goals exact (Develops.after (R := Reads img) s).tab

theorem bwAdvance_run (opAdvance : Nat) (nonzero : prologue.maxOps ≠ 0) :
    bwAdvance img prologue regs opAdvance s =
      .ok (advancedRegs img prologue regs opAdvance) s := by
  have quotient : ∀ a, cDiv a prologue.maxOps s = .ok (a / prologue.maxOps) s := by
    intro a
    rw [cDiv, if_neg nonzero]
    rfl
  have remainder : ∀ a, cMod a prologue.maxOps s = .ok (a % prologue.maxOps) s := by
    intro a
    rw [cMod, if_neg nonzero]
    rfl
  unfold bwAdvance
  rw [bind_of_ok (quotient _), bind_of_ok (remainder _)]
  rfl

theorem bwSpecial_run (op : Nat) (prologueOk : PrologueOk prologue) :
    bwSpecial img prologue files op regs s =
      (do
        bwEmitRegs files (specialRegs img prologue op regs)
        pure (specialRegs img prologue op regs) : Parser Regs) s := by
  have quotient : cDiv (op - prologue.opcodeBase) prologue.lineRange s =
      .ok ((op - prologue.opcodeBase) / prologue.lineRange) s := by
    rw [cDiv, if_neg prologueOk.lineRange]
    rfl
  have remainder : cMod (op - prologue.opcodeBase) prologue.lineRange s =
      .ok ((op - prologue.opcodeBase) % prologue.lineRange) s := by
    rw [cMod, if_neg prologueOk.lineRange]
    rfl
  unfold bwSpecial
  rw [bind_of_ok quotient, bind_of_ok remainder]
  exact bind_of_ok (bwAdvance_run _ prologueOk.maxOps)

/-- An instruction that emits nothing leaves the table alone, however it ends. -/
theorem bwOpcode_of_silent (silent : emitted img prologue ⟨regs, s⟩ = none) :
    (stateAfter (bwOpcode img prologue files regs) s).tab = s.tab := by
  unfold emitted at silent
  cases read : bwU8 img s with
  | error why t =>
      have reads : Reads img s t := Develops.error read
      rw [bwOpcode, stateAfter_of_error (bind_of_error read), reads.tab]
  | ok op t =>
      have reads : Reads img s t := Develops.ok read
      rw [read] at silent
      dsimp only at silent
      rw [bwOpcode, stateAfter_bind_of_ok read, ← reads.tab]
      split_ifs at silent with extended special copy
      · rw [if_pos extended]
        exact Develops.after (R := SameTab) t
      · rw [if_neg extended, if_neg special]
        exact bwStandard_tab copy

/-- An instruction that emits registers does nothing else to the table. -/
theorem bwOpcode_of_emitted {regs' : Regs} (prologueOk : PrologueOk prologue)
    (emits : emitted img prologue ⟨regs, s⟩ = some regs') :
    ∃ t, Reads img s t ∧ bwOpcode img prologue files regs s =
      (do
        bwEmitRegs files regs'
        pure regs' : Parser Regs) t := by
  unfold emitted at emits
  cases read : bwU8 img s with
  | error why t => rw [read] at emits; cases emits
  | ok op t =>
      rw [read] at emits
      dsimp only at emits
      refine ⟨t, Develops.ok read, ?_⟩
      rw [bwOpcode, bind_of_ok read]
      split_ifs at emits with extended special copy
      · cases emits
        rw [if_neg extended, if_pos special, bwSpecial_run op prologueOk]
      · cases emits
        rw [if_neg extended, if_neg special, bwStandard, if_pos copy]

/-- `bw_emit` appends a row if all checks pass, and does nothing otherwise. -/
theorem bwEmitRegs_of_takes (filesOk : FilesOk s.tab files) (takes : files.Takes s.tab regs) :
    ∃ row t, bwEmitRegs files regs s = .ok () t ∧ t.tab.rows = s.tab.rows ++ [row] := by
  have below : regs.fileIdx < files.fileOff.size := by
    rw [filesOk.size]
    exact takes.known.trans_le filesOk.fits
  have read := read_of_lt below s
  have kept : ¬ (bwDwarfRowMax ≤ s.tab.nrow || files.fileOff.cell regs.fileIdx < 0 ||
      regs.address = 0 || regs.line = 0 || 0xffffffff < regs.line) = true := by
    obtain ⟨room, -, named, address, line, width⟩ := takes
    simp only [Bool.or_eq_true, decide_eq_true_eq, not_or]
    exact ⟨⟨⟨⟨by omega, by omega⟩, address⟩, line⟩, by omega⟩
  rw [bwEmitRegs, if_pos takes.known, bind_of_ok read, bwEmit_run, if_neg kept]
  exact ⟨_, _, rfl, rfl⟩

theorem bwEmitRegs_of_drops (filesOk : FilesOk s.tab files) (drops : ¬ files.Takes s.tab regs) :
    bwEmitRegs files regs s = .ok () s := by
  rw [bwEmitRegs]
  by_cases known : regs.fileIdx < files.nfile
  · have below : regs.fileIdx < files.fileOff.size := by
      rw [filesOk.size]
      exact known.trans_le filesOk.fits
    have read := read_of_lt below s
    rw [if_pos known, bind_of_ok read, bwEmit_run, if_pos]
    by_contra kept
    simp only [Bool.or_eq_true, decide_eq_true_eq, not_or] at kept
    exact drops ⟨by omega, known, by omega, kept.1.1.2, kept.1.2, by omega⟩
  · rw [if_neg known]
    rfl

/-- An instruction that emits registers is not refused. -/
theorem emitted_of_error {why : Stop} {t : State} (prologueOk : PrologueOk prologue)
    (filesOk : FilesOk s.tab files) (ended : bwOpcode img prologue files regs s = .error why t) :
    emitted img prologue ⟨regs, s⟩ = none := by
  cases emits : emitted img prologue ⟨regs, s⟩ with
  | none => rfl
  | some regs' =>
      obtain ⟨u, reads, run⟩ := @bwOpcode_of_emitted _ _ files _ _ _ prologueOk emits
      have filesHere : FilesOk u.tab files := reads.tab.symm ▸ filesOk
      have answers : ∃ v, bwEmitRegs files regs' u = .ok () v := by
        by_cases takes : files.Takes u.tab regs'
        · obtain ⟨row, v, emitted, -⟩ := bwEmitRegs_of_takes filesHere takes
          exact ⟨v, emitted⟩
        · exact ⟨u, bwEmitRegs_of_drops filesHere takes⟩
      obtain ⟨v, emitted⟩ := answers
      rw [run, bind_of_ok emitted] at ended
      cases ended

end Instruction

/-! ### The opcode loop -/

section Loop

variable {img : Image} {program : Program} {fuel : Nat} {regs : Regs} {s : State}

theorem TakesRow.opcode (prologueOk : PrologueOk program.prologue)
    (filesOk : FilesOk s.tab program.files) (takes : TakesRow img program ⟨regs, s⟩) :
    ∃ regs' t, bwOpcode img program.prologue program.files regs s = .ok regs' t ∧
      s.tab.nrow < t.tab.nrow := by
  obtain ⟨regs', emits, takes⟩ := takes
  obtain ⟨u, reads, run⟩ := bwOpcode_of_emitted prologueOk emits
  obtain ⟨row, t, ended, rows⟩ := @bwEmitRegs_of_takes program.files
    regs' u (reads.tab.symm ▸ filesOk) (reads.tab.symm ▸ takes)
  refine ⟨regs', t, ?_, ?_⟩
  · rw [run, bind_of_ok ended]
    rfl
  · rw [Tab.nrow, Tab.nrow, rows, reads.tab, List.length_append, List.length_singleton]
    exact Nat.lt_succ_self _

theorem opcode_of_drops (prologueOk : PrologueOk program.prologue)
    (filesOk : FilesOk s.tab program.files) (drops : ¬ TakesRow img program ⟨regs, s⟩) :
    (stateAfter (bwOpcode img program.prologue program.files regs) s).tab = s.tab := by
  cases emits : emitted img program.prologue ⟨regs, s⟩ with
  | none => exact bwOpcode_of_silent emits
  | some regs' =>
      obtain ⟨u, reads, run⟩ := @bwOpcode_of_emitted _ _ program.files _ _ _ prologueOk emits
      have dropsHere : ¬ program.files.Takes u.tab regs' := by
        rw [reads.tab]
        exact fun takes => drops ⟨regs', emits, takes⟩
      have ended : bwOpcode img program.prologue program.files regs s = .ok regs' u := by
        rw [run, bind_of_ok (bwEmitRegs_of_drops (reads.tab.symm ▸ filesOk) dropsHere)]
        rfl
      rw [stateAfter_of_ok ended, reads.tab]

theorem loopAfter_of_ok {prologue : Prologue} {files : Files} {regs' : Regs} {t : State}
    (inUnit : s.cur.p < prologue.unitEnd)
    (ended : bwOpcode img prologue files regs s = .ok regs' t) :
    stateAfter (bwOpcodeLoop img prologue files (fuel + 1) regs) s =
      stateAfter (bwOpcodeLoop img prologue files fuel regs') t := by
  rw [stateAfter, bwOpcodeLoop_of_ok _ _ _ inUnit ended]
  rfl

theorem loopAfter_of_error {prologue : Prologue} {files : Files} {why : Stop} {t : State}
    (inUnit : s.cur.p < prologue.unitEnd)
    (ended : bwOpcode img prologue files regs s = .error why t) :
    stateAfter (bwOpcodeLoop img prologue files (fuel + 1) regs) s = t := by
  rw [stateAfter, bwOpcodeLoop_of_error _ _ _ inUnit ended]
  cases why <;> rfl

theorem loopAfter_done {prologue : Prologue} {files : Files}
    (atEnd : ¬ s.cur.p < prologue.unitEnd) :
    stateAfter (bwOpcodeLoop img prologue files fuel regs) s = s := by
  cases fuel with
  | zero => rfl
  | succ fuel => rw [stateAfter_of_ok (bwOpcodeLoop_done _ _ _ atEnd)]

/-- A loop that takes no row leaves the table alone. -/
theorem loop_of_drops (prologueOk : PrologueOk program.prologue)
    (filesOk : FilesOk s.tab program.files)
    (drops : ∀ visit ∈ opcodeVisits img program.prologue program.files fuel regs s,
      ¬ TakesRow img program visit) :
    (stateAfter (bwOpcodeLoop img program.prologue program.files fuel regs) s).tab = s.tab := by
  induction fuel generalizing regs s with
  | zero => rfl
  | succ fuel inductionHypothesis =>
      by_cases inUnit : s.cur.p < program.prologue.unitEnd
      case neg => rw [loopAfter_done inUnit]
      cases ended : bwOpcode img program.prologue program.files regs s with
      | ok regs' t =>
          rw [opcodeVisits_of_ok inUnit ended, List.forall_mem_cons] at drops
          have same := opcode_of_drops prologueOk filesOk drops.1
          rw [stateAfter_of_ok ended] at same
          rw [loopAfter_of_ok inUnit ended, ← same]
          exact inductionHypothesis (same ▸ filesOk) drops.2
      | error why t =>
          rw [opcodeVisits_of_error inUnit ended, List.forall_mem_singleton] at drops
          have same := opcode_of_drops prologueOk filesOk drops
          rw [stateAfter_of_error ended] at same
          rw [loopAfter_of_error inUnit ended, same]

/-- A loop that takes a row has one row more, at least. -/
theorem loop_of_takes (prologueOk : PrologueOk program.prologue)
    (filesOk : FilesOk s.tab program.files) {visit : Visit}
    (member : visit ∈ opcodeVisits img program.prologue program.files fuel regs s)
    (takes : TakesRow img program visit) :
    s.tab.nrow <
      (stateAfter (bwOpcodeLoop img program.prologue program.files fuel regs) s).tab.nrow := by
  induction fuel generalizing regs s with
  | zero => cases member
  | succ fuel inductionHypothesis =>
      by_cases inUnit : s.cur.p < program.prologue.unitEnd
      case neg =>
        rw [opcodeVisits_done inUnit] at member
        cases member
      cases ended : bwOpcode img program.prologue program.files regs s with
      | ok regs' t =>
          have runs : Runs img s t := Develops.ok ended
          have more := runs.rows.length_le
          have later : Runs img t (stateAfter (bwOpcodeLoop img program.prologue program.files
            fuel regs') t) := Develops.after t
          have evenMore := later.rows.length_le
          rw [opcodeVisits_of_ok inUnit ended, List.mem_cons] at member
          rw [loopAfter_of_ok inUnit ended]
          rcases member with rfl | member
          · obtain ⟨_, _, endedHere, grows⟩ := takes.opcode prologueOk filesOk
            cases ended.symm.trans endedHere
            exact grows.trans_le evenMore
          · exact more.trans_lt
              (inductionHypothesis (filesOk.mono runs.grown.tab) member)
      | error why t =>
          rw [opcodeVisits_of_error inUnit ended, List.mem_singleton] at member
          rw [member] at takes
          obtain ⟨_, _, endedHere, -⟩ := takes.opcode prologueOk filesOk
          cases ended.symm.trans endedHere

end Loop

/-! ### Units -/

section Units

variable {img : Image} {s : State} {program : Program}

/-- Header and tables add no row. -/
theorem programOf_rows (entered : programOf img s = some program) :
    program.start.tab.rows = s.tab.rows := by
  obtain ⟨s₁, s₂, opened, tables, start⟩ := programOf_eq_some.mp entered
  have reads : Reads img s s₁ := Develops.ok opened
  have collects : Collects img s₁ s₂ := Develops.ok tables
  rw [start, ← reads.tab]
  exact collects.rows

/-- A unit whose program is not reached adds no row. -/
theorem bwParseUnit_of_none (missed : programOf img s = none) :
    (stateAfter (bwParseUnit img) s).tab.rows = s.tab.rows := by
  unfold programOf at missed
  cases opened : bwPrologue img s with
  | error why s₁ =>
      have reads : Reads img s s₁ := Develops.error opened
      rw [bwParseUnit, stateAfter_of_error (bind_of_error opened), reads.tab]
  | ok opening s₁ =>
      have reads : Reads img s s₁ := Develops.ok opened
      rw [bwParseUnit, stateAfter_bind_of_ok opened, ← reads.tab]
      cases opening with
      | skip unitEnd headerEnd prog => rfl
      | go prologue =>
          rw [opened] at missed
          dsimp only at missed ⊢
          cases tables : bwTables img prologue s₁ with
          | ok files s₂ => rw [tables] at missed; cases missed
          | error why s₂ =>
              have collects : Collects img s₁ s₂ := Develops.error tables
              rw [bwUnitBody, stateAfter_of_error (bind_of_error tables)]
              exact collects.rows

/-- A unit whose program is reached adds no row iff none is taken at a visit of
the program. -/
theorem bwParseUnit_rows_iff (ok : StateOk s) (inside : Inside img s.cur)
    (entered : programOf img s = some program) :
    (stateAfter (bwParseUnit img) s).tab.rows = s.tab.rows ↔
      ∀ visit ∈ program.visits img, ¬ TakesRow img program visit := by
  obtain ⟨prologueOk, running⟩ := programOf_running ok inside entered
  rw [bwParseUnit_tab entered, ← programOf_rows entered]
  constructor
  · intro same visit member takes
    have grows := loop_of_takes prologueOk running.files member takes
    rw [Tab.nrow, Tab.nrow, same] at grows
    exact Nat.lt_irrefl _ grows
  · intro drops
    rw [loop_of_drops prologueOk running.files drops]

/-- The unit takes no row, at no visit of a program that it comes to. -/
def TakesNone (img : Image) (s : State) : Prop :=
  ∀ program, programOf img s = some program →
    ∀ visit ∈ program.visits img, ¬ TakesRow img program visit

instance (img : Image) (s : State) : Decidable (TakesNone img s) :=
  match entered : programOf img s with
  | none => isTrue fun _ reached => nomatch entered.symm.trans reached
  | some program => decidable_of_iff (∀ visit ∈ program.visits img, ¬ TakesRow img program visit)
      ⟨fun drops _ reached => Option.some.inj (entered.symm.trans reached) ▸ drops,
        fun none => none program entered⟩

end Units

end Backwalk.DwarfLine
