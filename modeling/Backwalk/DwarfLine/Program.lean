import Backwalk.DwarfLine.Header

/-!
Contract: what the opcode loop of a unit goes through.

Owns the visits of the loop, each with the registers and the state in which an
opcode is about to be read, the additions that are made on the line register,
and what follows a bad operand.

The line register is only checked when a row is emitted, so the additions on it
are representable exactly when the running sums of the program are.
-/

namespace Backwalk.DwarfLine

open Backwalk.Support

section Visits

variable (img : Image) (prologue : Prologue) (files : Files)

/-! ### Visits -/

/-- What the loop has at hand when it reads an opcode. -/
structure Visit where
  regs : Regs
  state : State

/-- The visits of the opcode loop. -/
def opcodeVisits : Nat → Regs → State → List Visit
  | 0, _, _ => []
  | fuel + 1, regs, s =>
      if s.cur.p < prologue.unitEnd then
        ⟨regs, s⟩ :: match bwOpcode img prologue files regs s with
          | .ok regs' t => opcodeVisits fuel regs' t
          | .error _ _ => []
      else []

variable {img prologue files} {fuel : Nat} {regs regs' : Regs} {s t : State}

theorem opcodeVisits_done (atEnd : ¬ s.cur.p < prologue.unitEnd) :
    opcodeVisits img prologue files fuel regs s = [] := by
  cases fuel with
  | zero => rfl
  | succ fuel => rw [opcodeVisits, if_neg atEnd]

theorem opcodeVisits_of_ok (inUnit : s.cur.p < prologue.unitEnd)
    (ended : bwOpcode img prologue files regs s = .ok regs' t) :
    opcodeVisits img prologue files (fuel + 1) regs s =
      ⟨regs, s⟩ :: opcodeVisits img prologue files fuel regs' t := by
  rw [opcodeVisits, if_pos inUnit, ended]

theorem opcodeVisits_of_error {why : Stop} (inUnit : s.cur.p < prologue.unitEnd)
    (ended : bwOpcode img prologue files regs s = .error why t) :
    opcodeVisits img prologue files (fuel + 1) regs s = [⟨regs, s⟩] := by
  rw [opcodeVisits, if_pos inUnit, ended]

/-- The loop gets to each of its visits, with whatever its iterations keep. -/
theorem bwOpcodeLoop_visits {before after : List Visit} {visit : Visit}
    (kept : Nat → State → Prop)
    (step : ∀ {fuel regs regs' s t}, kept (fuel + 1) s → s.cur.p < prologue.unitEnd →
      bwOpcode img prologue files regs s = .ok regs' t → kept fuel t)
    (start : kept fuel s)
    (visits : opcodeVisits img prologue files fuel regs s = before ++ visit :: after) :
    ∃ fuel', kept (fuel' + 1) visit.state ∧ visit.state.cur.p < prologue.unitEnd ∧
      opcodeVisits img prologue files (fuel' + 1) visit.regs visit.state = visit :: after ∧
      bwOpcodeLoop img prologue files fuel regs s =
        bwOpcodeLoop img prologue files (fuel' + 1) visit.regs visit.state := by
  induction before generalizing fuel regs s with
  | nil =>
      cases fuel with
      | zero => cases visits
      | succ fuel =>
          by_cases inUnit : s.cur.p < prologue.unitEnd
          · have first := visits
            rw [opcodeVisits, if_pos inUnit] at first
            obtain ⟨rfl, -⟩ := List.cons.inj first
            exact ⟨fuel, start, inUnit, visits, rfl⟩
          · rw [opcodeVisits_done inUnit] at visits
            cases visits
  | cons head before inductionHypothesis =>
      cases fuel with
      | zero => cases visits
      | succ fuel =>
          by_cases inUnit : s.cur.p < prologue.unitEnd
          · cases ended : bwOpcode img prologue files regs s with
            | ok regs' t =>
                rw [opcodeVisits_of_ok inUnit ended] at visits
                rw [bwOpcodeLoop_of_ok img prologue files inUnit ended]
                exact inductionHypothesis (step start inUnit ended) (List.cons.inj visits).2
            | error why t =>
                rw [opcodeVisits_of_error inUnit ended] at visits
                cases before <;> cases (List.cons.inj visits).2
          · rw [opcodeVisits_done inUnit] at visits
            cases visits

end Visits

/-! ### Additions on the line register -/

/-- The value is an `int64_t`. -/
def InI64 (v : Int) : Prop := -2 ^ 63 ≤ v ∧ v < 2 ^ 63

instance (v : Int) : Decidable (InI64 v) := inferInstanceAs (Decidable (_ ∧ _))

theorem toI64_ofI64 {v : Int} (inRange : InI64 v) : toI64 (ofI64 v) = v := by
  obtain ⟨low, high⟩ := inRange
  unfold toI64 ofI64
  split_ifs
  · omega
  · omega

/-- The results of adding `deltas` to `v`, one after the other. -/
def partialSums (v : Int) : List Int → List Int
  | [] => []
  | delta :: deltas => (v + delta) :: partialSums (v + delta) deltas

/-- What an instruction does to the line register. -/
inductive LineEffect where
  | reset
  | add (deltas : List Int)
deriving DecidableEq, Repr

def LineEffect.deltas : LineEffect → List Int
  | .reset => []
  | .add deltas => deltas

/-- The running sums of a program, over the integers. -/
def exactSums : Int → List LineEffect → List Int
  | _, [] => []
  | _, .reset :: rest => exactSums 1 rest
  | v, .add deltas :: rest => partialSums v deltas ++ exactSums (v + deltas.sum) rest

section Effects

variable (img : Image) (prologue : Prologue)

/-- An extended opcode, after its leading zero, is `end_sequence`. -/
def endsSequence (s : State) : Bool :=
  match bwUleb img s with
  | .ok _ t =>
      match bwU8 img t with
      | .ok ext _ => ext = bwLneEndSequence
      | .error _ _ => false
  | .error _ _ => false

/-- The effect of the instruction at the cursor. A special opcode adds
`line_base` first. -/
def lineEffect (s : State) : LineEffect :=
  match bwU8 img s with
  | .error _ _ => .add []
  | .ok op t =>
      if op = 0 then if endsSequence img t then .reset else .add []
      else if prologue.opcodeBase ≤ op then
        .add [prologue.lineBase, ((op - prologue.opcodeBase) % prologue.lineRange : Nat)]
      else if op = bwLnsAdvanceLine then
        match bwSleb img t with
        | .ok d _ => .add [d]
        | .error _ _ => .add []
      else .add []

/-- The results, over the integers, of the signed additions that a visit makes on
the line register. -/
def lineSums (visit : Visit) : List Int :=
  partialSums (toI64 visit.regs.line) (lineEffect img prologue visit.state).deltas

end Effects

/-- The line register after an instruction with this effect. -/
def LineEffect.Applied (effect : LineEffect) (line line' : Nat) : Prop :=
  match effect with
  | .reset => line' = 1
  | .add deltas => (∀ v ∈ partialSums (toI64 line) deltas, InI64 v) →
      toI64 line' = toI64 line + deltas.sum

theorem LineEffect.applied_same (line : Nat) : (LineEffect.add []).Applied line line := by
  intro _
  simp

section Additions

variable {img : Image} {prologue : Prologue} {files : Files} {regs regs' : Regs} {s t : State}

theorem bwAdvance_line {opAdvance : Nat}
    (ended : bwAdvance img prologue regs opAdvance s = .ok regs' t) : regs'.line = regs.line := by
  obtain ⟨quotient, _, -, rest⟩ := bind_eq_ok.mp ended
  obtain ⟨opIndex, _, -, rest⟩ := bind_eq_ok.mp rest
  cases rest
  rfl

theorem bwSpecial_line {op : Nat} (ended : bwSpecial img prologue files op regs s = .ok regs' t) :
    regs'.line = ofI64 (toI64 regs.line + prologue.lineBase +
      ((op - prologue.opcodeBase) % prologue.lineRange : Nat)) := by
  obtain ⟨opAdvance, _, -, rest⟩ := bind_eq_ok.mp ended
  obtain ⟨lineAdvance, _, remainder, rest⟩ := bind_eq_ok.mp rest
  obtain ⟨advanced, _, advance, rest⟩ := bind_eq_ok.mp rest
  obtain ⟨_, _, -, rest⟩ := bind_eq_ok.mp rest
  cases rest
  rw [bwAdvance_line advance]
  unfold cMod at remainder
  split_ifs at remainder
  · cases remainder
  · cases remainder
    rfl

theorem bwExtended_line (ended : bwExtended img prologue regs s = .ok regs' t) :
    regs'.line = if endsSequence img s then 1 else regs.line := by
  obtain ⟨insnLen, s₁, length, rest⟩ := bind_eq_ok.mp ended
  rw [bind_of_ok (show getCur s₁ = .ok s₁.cur s₁ from rfl)] at rest
  split_ifs at rest with zero room
  · cases rest
  · obtain ⟨ext, s₂, read, rest⟩ := bind_eq_ok.mp rest
    have isEnd : endsSequence img s = decide (ext = bwLneEndSequence) := by
      unfold endsSequence
      rw [length]
      dsimp only
      rw [read]
    rw [isEnd]
    by_cases endSequence : ext = bwLneEndSequence
    · rw [if_pos endSequence] at rest
      cases rest
      simp [endSequence, Regs.init]
    · rw [if_neg endSequence] at rest
      rw [if_neg (by simpa using endSequence)]
      split_ifs at rest with setAddress
      · obtain ⟨addr, s₃, -, rest⟩ := bind_eq_ok.mp rest
        cases rest
        rfl
      · cases rest
        rfl
  · cases rest

theorem bwStandard_line {op : Nat} (other : op ≠ bwLnsAdvanceLine)
    (ended : bwStandard img prologue files op regs s = .ok regs' t) : regs'.line = regs.line := by
  unfold bwStandard at ended
  split_ifs at ended
  · obtain ⟨_, _, -, rest⟩ := bind_eq_ok.mp ended
    cases rest
    rfl
  · obtain ⟨opAdvance, _, -, rest⟩ := bind_eq_ok.mp ended
    exact bwAdvance_line rest
  · obtain ⟨fileIdx, _, -, rest⟩ := bind_eq_ok.mp ended
    cases rest
    rfl
  · obtain ⟨opAdvance, _, -, rest⟩ := bind_eq_ok.mp ended
    exact bwAdvance_line rest
  · obtain ⟨d, _, -, rest⟩ := bind_eq_ok.mp ended
    cases rest
    rfl
  · obtain ⟨count, _, -, rest⟩ := bind_eq_ok.mp ended
    obtain ⟨_, _, -, rest⟩ := bind_eq_ok.mp rest
    cases rest
    rfl

theorem bwStandard_advanceLine (ended : bwStandard img prologue files bwLnsAdvanceLine regs s =
    .ok regs' t) : ∃ d, bwSleb img s = .ok d t ∧ regs'.line = ofI64 (toI64 regs.line + d) := by
  obtain ⟨d, _, read, rest⟩ := bind_eq_ok.mp
    (show (bwSleb img >>= fun d =>
      pure { regs with line := ofI64 (toI64 regs.line + d) }) s = .ok regs' t from ended)
  cases rest
  exact ⟨d, read, rfl⟩

/-- Each instruction changes the line register as its effect says, as long as no
sum overflows. -/
theorem bwOpcode_line (ended : bwOpcode img prologue files regs s = .ok regs' t) :
    (lineEffect img prologue s).Applied regs.line regs'.line := by
  obtain ⟨op, s₁, read, rest⟩ := bind_eq_ok.mp ended
  unfold lineEffect
  rw [read]
  dsimp only
  by_cases extended : op = 0
  · rw [if_pos extended] at rest ⊢
    have line := bwExtended_line rest
    split_ifs at line ⊢
    · exact line
    · rw [line]
      exact LineEffect.applied_same _
  rw [if_neg extended] at rest ⊢
  by_cases special : prologue.opcodeBase ≤ op
  · rw [if_pos special] at rest ⊢
    intro inRange
    have whole := inRange (toI64 regs.line + prologue.lineBase +
      ((op - prologue.opcodeBase) % prologue.lineRange : Nat)) (by simp [partialSums])
    rw [bwSpecial_line rest, toI64_ofI64 whole]
    simp [Int.add_assoc]
  rw [if_neg special] at rest ⊢
  by_cases advanceLine : op = bwLnsAdvanceLine
  · subst advanceLine
    obtain ⟨d, operand, line⟩ := bwStandard_advanceLine rest
    rw [if_pos rfl, operand]
    intro inRange
    have whole := inRange (toI64 regs.line + d) (by simp [partialSums])
    rw [line, toI64_ofI64 whole]
    simp
  · rw [if_neg advanceLine, bwStandard_line advanceLine rest]
    exact LineEffect.applied_same _

/-- From here on no addition overflows iff the running sums from here on are
representable. -/
theorem lineSums_inI64_iff {fuel : Nat} {regs : Regs} {s : State} :
    (∀ visit ∈ opcodeVisits img prologue files fuel regs s,
        ∀ v ∈ lineSums img prologue visit, InI64 v) ↔
      ∀ v ∈ exactSums (toI64 regs.line) ((opcodeVisits img prologue files fuel regs s).map
        fun visit => lineEffect img prologue visit.state), InI64 v := by
  induction fuel generalizing regs s with
  | zero => simp [opcodeVisits, exactSums]
  | succ fuel inductionHypothesis =>
      by_cases inUnit : s.cur.p < prologue.unitEnd
      · cases ended : bwOpcode img prologue files regs s with
        | error why t =>
            rw [opcodeVisits_of_error inUnit ended]
            cases effect : lineEffect img prologue s <;>
              simp [lineSums, effect, LineEffect.deltas, exactSums, partialSums]
        | ok regs' t =>
            have applied := bwOpcode_line ended
            rw [opcodeVisits_of_ok inUnit ended]
            rw [List.forall_mem_cons, inductionHypothesis, List.map_cons]
            cases effect : lineEffect img prologue s with
            | reset =>
                rw [effect] at applied
                rw [show regs'.line = 1 from applied, exactSums]
                simp [lineSums, effect, LineEffect.deltas, partialSums, toI64]
            | add deltas =>
                rw [effect] at applied
                rw [exactSums, List.forall_mem_append]
                unfold lineSums
                rw [effect]
                constructor
                · rintro ⟨here, later⟩
                  rw [applied here] at later
                  exact ⟨here, later⟩
                · rintro ⟨here, later⟩
                  rw [← applied here] at later
                  exact ⟨here, later⟩
      · rw [opcodeVisits_done inUnit]
        simp [exactSums]

end Additions

/-- The visits of a program that a unit has entered. -/
def Program.visits (img : Image) (program : Program) : List Visit :=
  opcodeVisits img program.prologue program.files
    (program.prologue.unitEnd - program.prologue.prog + 1) Regs.init program.start

/-- The additions on the line register that a program makes are all
representable exactly when its running sums are: those of 1 and the line
advances since the start or the last `end_sequence`. -/
theorem program_lineSums_iff (img : Image) (program : Program) :
    (∀ visit ∈ program.visits img, ∀ v ∈ lineSums img program.prologue visit, InI64 v) ↔
      ∀ v ∈ exactSums 1 ((program.visits img).map
        fun visit => lineEffect img program.prologue visit.state), InI64 v :=
  lineSums_inI64_iff

/-- A version 2 unit whose program is `advance_line` by `INT64_MAX`. -/
def overflowUnit : List UInt8 :=
  [32, 0, 0, 0, 2, 0, 15, 0, 0, 0, 1, 1, 0, 4, 4, 0, 1, 1, 0, 0x61, 0, 0, 0, 0, 0,
    3, 0xff, 0xff, 0xff, 0xff, 0xff, 0xff, 0xff, 0xff, 0xff, 0]

/-- The first addition of that program, to the initial line, overflows. -/
theorem overflowUnit_overflows : ∃ program,
    programOf (lineImage overflowUnit) (startState (lineImage overflowUnit) Tab.zeroed) =
        some program ∧
      ¬ ∀ visit ∈ program.visits (lineImage overflowUnit),
        ∀ v ∈ lineSums (lineImage overflowUnit) program.prologue visit, InI64 v := by
  have overflows : (programOf (lineImage overflowUnit)
      (startState (lineImage overflowUnit) Tab.zeroed)).map (fun program =>
        decide (∀ visit ∈ program.visits (lineImage overflowUnit),
          ∀ v ∈ lineSums (lineImage overflowUnit) program.prologue visit, InI64 v)) =
        some false := by
    decide +kernel
  obtain ⟨program, reaches, false⟩ := Option.map_eq_some_iff.mp overflows
  exact ⟨program, reaches, of_decide_eq_false false⟩

/-! ### Bad operands -/

section Operands

variable (img : Image) (prologue : Prologue)

/-- The operands of a standard opcode that the parser does not know, each of
which has to decode. -/
def readOperands : Nat → Parser Unit
  | 0 => pure ()
  | n + 1 => do
      let _ ← bwUleb img
      readOperands n

/-- A standard opcode that the parser does not know. -/
def Unknown (op : Nat) : Prop :=
  op ≠ 0 ∧ op < prologue.opcodeBase ∧ op ∉ [bwLnsCopy, bwLnsAdvancePc, bwLnsAdvanceLine,
    bwLnsSetFile, bwLnsConstAddPc, bwLnsFixedAdvancePc]

instance (op : Nat) : Decidable (Unknown prologue op) := inferInstanceAs (Decidable (_ ∧ _))

/-- The operands of an instruction, after its opcode. -/
def decodeOperands (op : Nat) : Parser Unit :=
  if Unknown prologue op then do
    let count ← prologue.stdLen.read op
    readOperands img count
  else if op = 0 then do
    let insnLen ← bwUleb img
    let c ← getCur
    if insnLen = 0 then stop .malformed
    else if bwCurOk img c (img.size insnLen) then
      let ext ← bwU8 img
      if ext = bwLneSetAddress then
        let _ ← bwSetAddressOperand img prologue
        pure ()
      else pure ()
    else stop .short
  else if prologue.opcodeBase ≤ op then pure ()
  else if op = bwLnsAdvanceLine then do
    let _ ← bwSleb img
    pure ()
  else if op = bwLnsFixedAdvancePc then do
    let _ ← bwU16 img
    pure ()
  else if op = bwLnsAdvancePc ∨ op = bwLnsSetFile then do
    let _ ← bwUleb img
    pure ()
  else pure ()

/-- An operand of the instruction at a visit fails to decode. -/
def OperandFails (visit : Visit) : Prop :=
  ∃ op s why t, bwU8 img visit.state = .ok op s ∧ decodeOperands img prologue op s = .error why t ∧
    Refusal why

/-- The instruction is an unknown standard opcode, one of its operands is
over-long, and the unit goes on behind the bytes of it that were read. -/
def Derails (visit : Visit) : Prop :=
  ∃ op s t, bwU8 img visit.state = .ok op s ∧ Unknown prologue op ∧
    decodeOperands img prologue op s = .error .malformed t ∧ t.cur.p < prologue.unitEnd

end Operands

theorem derails_iff {img : Image} {prologue : Prologue} {visit : Visit} :
    Derails img prologue visit ↔
      (match bwU8 img visit.state with
        | .ok op s =>
            decide (Unknown prologue op) && match decodeOperands img prologue op s with
              | .error .malformed t => decide (t.cur.p < prologue.unitEnd)
              | _ => false
        | .error _ _ => false) = true := by
  constructor
  · rintro ⟨op, s, t, read, unknown, failed, inUnit⟩
    simp [read, unknown, failed, inUnit]
  · intro run
    cases read : bwU8 img visit.state with
    | error why s => rw [read] at run; cases run
    | ok op s =>
        rw [read] at run
        obtain ⟨unknown, rest⟩ := (Bool.and_eq_true _ _).mp run
        cases failed : decodeOperands img prologue op s with
        | ok _ t => rw [failed] at rest; cases rest
        | error why t =>
            rw [failed] at rest
            cases why with
            | malformed =>
                exact ⟨op, s, t, read, of_decide_eq_true unknown, failed, of_decide_eq_true rest⟩
            | short => cases rest
            | fault fault => cases rest

instance (img : Image) (prologue : Prologue) (visit : Visit) :
    Decidable (Derails img prologue visit) :=
  decidable_of_iff _ derails_iff.symm

theorem Derails.operandFails {img : Image} {prologue : Prologue} {visit : Visit}
    (derails : Derails img prologue visit) : OperandFails img prologue visit := by
  obtain ⟨op, s, t, read, _, failed, _⟩ := derails
  exact ⟨op, s, .malformed, t, read, failed, Or.inr rfl⟩

section Failure

variable {img : Image} {prologue : Prologue} {files : Files} {regs : Regs} {s t : State}

instance (n : Nat) : Develops (Reads img) (readOperands img n) := by
  induction n with
  | zero => unfold readOperands; infer_instance
  | succ n inductionHypothesis => unfold readOperands; infer_instance

instance (op : Nat) : Develops (Reads img) (decodeOperands img prologue op) := by
  unfold decodeOperands
  infer_instance

/-- Operands that all decode are skipped, and of others those up to the one that
fails. -/
theorem bwSkipOperands_of_refusal {n : Nat} {why : Stop} (refusal : Refusal why)
    (ended : readOperands img n s = .error why t) : bwSkipOperands img n s = .ok () t := by
  induction n generalizing s with
  | zero => cases ended
  | succ n inductionHypothesis =>
      rcases bind_eq_error.mp ended with here | ⟨value, u, read, later⟩
      · refine bwSkipOperands_of_refused img here fun fault isFault => ?_
        rw [isFault] at refusal
        rcases refusal with same | same <;> cases same
      · rw [bwSkipOperands_of_ok img read]
        exact inductionHypothesis later

/-- The loop goes on after a bad operand of an unknown opcode. -/
theorem bwOpcode_of_unknown {op : Nat} {why : Stop} (read : bwU8 img s = .ok op t) {u : State}
    (unknown : Unknown prologue op) (refusal : Refusal why)
    (failed : decodeOperands img prologue op t = .error why u) :
    bwOpcode img prologue files regs s = .ok regs u := by
  obtain ⟨nonzero, below, other⟩ := id unknown
  simp only [List.mem_cons, List.not_mem_nil, or_false, not_or] at other
  obtain ⟨copy, advancePc, advanceLine, setFile, constAddPc, fixedAdvancePc⟩ := other
  rw [decodeOperands, if_pos unknown] at failed
  rw [bwOpcode, bind_of_ok read, if_neg nonzero, if_neg (Nat.not_le_of_lt below), bwStandard,
    if_neg copy, if_neg advancePc, if_neg advanceLine, if_neg setFile, if_neg constAddPc,
    if_neg fixedAdvancePc]
  rcases bind_eq_error.mp failed with early | ⟨count, v, length, later⟩
  · rw [read_eq_error early] at refusal
    rcases refusal with same | same <;> cases same
  · rw [bind_of_ok length, bind_of_ok (bwSkipOperands_of_refusal refusal later)]
    rfl

theorem bwExtended_of_bad {why : Stop} (failed : (do
      let insnLen ← bwUleb img
      let c ← getCur
      if insnLen = 0 then stop .malformed
      else if bwCurOk img c (img.size insnLen) then
        let ext ← bwU8 img
        if ext = bwLneSetAddress then
          let _ ← bwSetAddressOperand img prologue
          pure ()
        else pure ()
      else stop .short : Parser Unit) s = .error why t) :
    bwExtended img prologue regs s = .error why t := by
  unfold bwExtended
  rcases bind_eq_error.mp failed with early | ⟨insnLen, u, length, later⟩
  · exact bind_of_error early
  have current : getCur u = .ok u.cur u := rfl
  rw [bind_of_ok current] at later
  rw [bind_of_ok length, bind_of_ok current]
  split_ifs at later ⊢ with zero room
  · cases later
    rfl
  · rcases bind_eq_error.mp later with early | ⟨ext, v, read, last⟩
    · exact bind_of_error early
    rw [bind_of_ok read]
    by_cases setAddress : ext = bwLneSetAddress
    · rw [if_pos setAddress] at last
      rcases bind_eq_error.mp last with operand | ⟨_, _, _, done⟩
      · have notEnd : ext ≠ bwLneEndSequence := by
          rw [setAddress]
          decide
        rw [if_neg notEnd, if_pos setAddress]
        exact bind_of_error operand
      · cases done
    · rw [if_neg setAddress] at last
      cases last
  · cases later
    rfl

/-- Any other instruction with a bad operand ends the loop. -/
theorem bwOpcode_of_known {op : Nat} {why : Stop} (read : bwU8 img s = .ok op t) {u : State}
    (known : ¬ Unknown prologue op) (failed : decodeOperands img prologue op t = .error why u) :
    bwOpcode img prologue files regs s = .error why u := by
  -- What is read for a single operand fails as a whole only if the operand does.
  have operand : ∀ {α : Type} {m : Parser α},
      (do let _ ← m; pure () : Parser Unit) t = .error why u → m t = .error why u := by
    intro α m whole
    rcases bind_eq_error.mp whole with here | ⟨_, _, _, done⟩
    · exact here
    · cases done
  rw [decodeOperands, if_neg known] at failed
  rw [bwOpcode, bind_of_ok read]
  split_ifs at failed with extended special advanceLine fixedAdvancePc uleb
  · rw [if_pos extended]
    exact bwExtended_of_bad failed
  · cases failed
  · rw [if_neg extended, if_neg special, advanceLine]
    exact bind_of_error (operand failed)
  · rw [if_neg extended, if_neg special, fixedAdvancePc]
    exact bind_of_error (operand failed)
  · rw [if_neg extended, if_neg special]
    rcases uleb with rfl | rfl
    · exact bind_of_error (operand failed)
    · exact bind_of_error (operand failed)
  · cases failed

/-! ### Where a bad operand leaves the cursor -/

theorem bwU8_short (inside : Inside img s.cur) (started : 0 < s.cur.p)
    (ended : bwU8 img s = .error .short t) : t = s ∧ s.cur.p = s.cur.endp := by
  rw [bwU8, bwUint_run] at ended
  split_ifs at ended with room
  · cases peeked : peek img s.cur.p 1 <;> rw [peeked] at ended <;> cases ended
  · cases ended
    refine ⟨rfl, ?_⟩
    have before := inside.1
    simp only [bwCurOk, ne_eq, Bool.and_eq_true, decide_eq_true_eq,
      curRoom_of_inside inside] at room
    omega

theorem bwUlebFrom_short_atEnd {fuel r shift : Nat} (inside : Inside img s.cur)
    (started : 0 < s.cur.p) (ended : bwUlebFrom img fuel r shift s = .error .short t) :
    t.cur.p = t.cur.endp := by
  induction fuel generalizing s r shift with
  | zero => cases ended
  | succ fuel inductionHypothesis =>
      rw [bwUlebFrom] at ended
      rcases bind_eq_error.mp ended with early | ⟨b, u, read, later⟩
      · obtain ⟨rfl, atEnd⟩ := bwU8_short inside started early
        exact atEnd
      · have reads : Reads img s u := Develops.ok read
        split_ifs at later with last long
        · cases later
        · cases later
        · exact inductionHypothesis (reads.inside inside)
            (started.trans_le (reads.forward inside).1) later

theorem readOperands_short_atEnd {n : Nat} (inside : Inside img s.cur) (started : 0 < s.cur.p)
    (ended : readOperands img n s = .error .short t) : t.cur.p = t.cur.endp := by
  induction n generalizing s with
  | zero => cases ended
  | succ n inductionHypothesis =>
      rcases bind_eq_error.mp ended with here | ⟨value, u, read, later⟩
      · exact bwUlebFrom_short_atEnd inside started here
      · have reads : Reads img s u := Develops.ok read
        exact inductionHypothesis (reads.inside inside)
          (started.trans_le (reads.forward inside).1) later

/-- A short operand of an unknown opcode is refused at the end of the section. -/
theorem decodeOperands_short_atEnd {op : Nat} (inside : Inside img s.cur) (started : 0 < s.cur.p)
    (unknown : Unknown prologue op)
    (ended : decodeOperands img prologue op s = .error .short t) : t.cur.p = t.cur.endp := by
  rw [decodeOperands, if_pos unknown] at ended
  rcases bind_eq_error.mp ended with early | ⟨count, u, length, later⟩
  · cases read_eq_error early
  · have reads : Reads img s u := Develops.ok length
    exact readOperands_short_atEnd (reads.inside inside)
      (started.trans_le (reads.forward inside).1) later

end Failure

/-! ### Programs of units -/

/-- What the opcode loop keeps from one opcode to the next. -/
structure Running (img : Image) (prologue : Prologue) (files : Files) (fuel : Nat) (s : State) :
    Prop where
  ok : StateOk s
  files : FilesOk s.tab files
  endInside : prologue.unitEnd ≤ s.cur.endp
  below : s.cur.endp < 2 ^ img.bits
  enough : prologue.unitEnd < s.cur.p + fuel

section Units

variable {img : Image} {prologue : Prologue} {files : Files} {s t : State} {program : Program}

theorem Running.inside {fuel : Nat} (running : Running img prologue files fuel s)
    (inUnit : s.cur.p < prologue.unitEnd) : Inside img s.cur :=
  ⟨inUnit.le.trans running.endInside, running.below⟩

theorem Running.step {fuel : Nat} {regs regs' : Regs} (prologueOk : PrologueOk prologue)
    (running : Running img prologue files (fuel + 1) s) (inUnit : s.cur.p < prologue.unitEnd)
    (ended : bwOpcode img prologue files regs s = .ok regs' t) :
    Running img prologue files fuel t := by
  obtain ⟨okT, further, -⟩ :=
    (bwOpcode_safe running.ok (running.inside inUnit) prologueOk running.files).ok ended
  have runs : Runs img s t := Develops.ok ended
  have enough := running.enough
  exact ⟨okT, running.files.mono runs.grown.tab, runs.endp ▸ running.endInside,
    runs.endp ▸ running.below, by omega⟩

/-- A unit enters its opcode loop with enough fuel for its program. -/
theorem programOf_running (ok : StateOk s) (inside : Inside img s.cur)
    (entered : programOf img s = some program) :
    PrologueOk program.prologue ∧ Running img program.prologue program.files
      (program.prologue.unitEnd - program.prologue.prog + 1) program.start := by
  obtain ⟨s₁, s₂, opened, tables, start⟩ := programOf_eq_some.mp entered
  obtain ⟨ok₁, prologueOk, before⟩ := (bwPrologue_safe ok).ok opened
  obtain ⟨ok₂, filesOk⟩ := (bwTables_safe ok₁).ok tables
  have reads : Reads img s s₁ := Develops.ok opened
  have grown : Grown img s₁ s₂ := Develops.ok tables
  have sameEnd : s₂.cur.endp = s.cur.endp := grown.endp.trans reads.endp
  obtain ⟨-, endInside⟩ := bwPrologue_ends inside opened
  refine ⟨prologueOk, ?_⟩
  rw [start]
  refine ⟨ok₂.setP, filesOk, ?_, ?_, ?_⟩
  · simp only [sameEnd]
    exact endInside
  · simp only [sameEnd]
    exact inside.2
  · simp only
    omega

/-- A unit whose program is reached ends as its opcode loop does. -/
theorem bwParseUnit_of_program (entered : programOf img s = some program) : ∃ headerEnd,
    bwParseUnit img s = (do
      let exit ← bwOpcodeLoop img program.prologue program.files
        (program.prologue.unitEnd - program.prologue.prog + 1) Regs.init
      setP program.prologue.unitEnd
      pure ⟨headerEnd, program.prologue.prog, some exit⟩ : Parser UnitExit) program.start := by
  obtain ⟨s₁, s₂, opened, tables, start⟩ := programOf_eq_some.mp entered
  refine ⟨s₂.cur.p, ?_⟩
  have body : bwParseUnit img s = bwUnitBody img program.prologue s₁ := by
    rw [bwParseUnit, bind_of_ok opened]
  rw [body, bwUnitBody, bind_of_ok tables,
    bind_of_ok (show getCur s₂ = .ok s₂.cur s₂ from rfl), start]
  rfl

/-- A unit leaves the table as its opcode loop does. -/
theorem bwParseUnit_tab (entered : programOf img s = some program) :
    (stateAfter (bwParseUnit img) s).tab =
      (stateAfter (bwOpcodeLoop img program.prologue program.files
        (program.prologue.unitEnd - program.prologue.prog + 1) Regs.init) program.start).tab := by
  obtain ⟨headerEnd, loop⟩ := bwParseUnit_of_program entered
  rw [stateAfter, loop]
  cases ended : bwOpcodeLoop img program.prologue program.files
      (program.prologue.unitEnd - program.prologue.prog + 1) Regs.init program.start with
  | ok exit t =>
      rw [bind_of_ok ended, stateAfter_of_ok ended]
      rfl
  | error why t => rw [bind_of_error ended, stateAfter_of_error ended]

/-- A visit in the middle of the program of a unit. -/
theorem program_visit {before after : List Visit} {visit : Visit} (ok : StateOk s)
    (inside : Inside img s.cur) (entered : programOf img s = some program)
    (visits : program.visits img = before ++ visit :: after) :
    ∃ fuel, PrologueOk program.prologue ∧
      Running img program.prologue program.files (fuel + 1) visit.state ∧
      visit.state.cur.p < program.prologue.unitEnd ∧
      opcodeVisits img program.prologue program.files (fuel + 1) visit.regs visit.state =
        visit :: after ∧
      (stateAfter (bwParseUnit img) s).tab =
        (stateAfter (bwOpcodeLoop img program.prologue program.files (fuel + 1) visit.regs)
          visit.state).tab := by
  obtain ⟨prologueOk, start⟩ := programOf_running ok inside entered
  obtain ⟨fuel, running, inUnit, visits', loop⟩ :=
    bwOpcodeLoop_visits (Running img program.prologue program.files)
      (fun running inUnit ended => running.step prologueOk inUnit ended) start visits
  refine ⟨fuel, prologueOk, running, inUnit, visits', ?_⟩
  rw [bwParseUnit_tab entered, stateAfter, loop]
  rfl

end Units

/-- Once an operand fails to decode the program of a unit is over, and no row is
added, exactly when no unknown standard opcode has an over-long operand that
leaves the cursor before the unit end. -/
theorem program_ends_at_bad_operand_iff (img : Image) (s : State) (program : Program)
    (ok : StateOk s) (inside : Inside img s.cur) (entered : programOf img s = some program) :
    (∀ before visit after, program.visits img = before ++ visit :: after →
      OperandFails img program.prologue visit →
        after = [] ∧ (stateAfter (bwParseUnit img) s).tab.rows = visit.state.tab.rows) ↔
      ∀ visit ∈ program.visits img, ¬ Derails img program.prologue visit := by
  constructor
  · rintro ends visit member ⟨op, u, t, read, unknown, failed, inUnit⟩
    obtain ⟨before, after, visits⟩ := List.append_of_mem member
    obtain ⟨rfl, -⟩ := ends before visit after visits
      (Derails.operandFails ⟨op, u, t, read, unknown, failed, inUnit⟩)
    obtain ⟨fuel, prologueOk, running, here, visits', -⟩ := program_visit ok inside entered visits
    have stepped : bwOpcode img program.prologue program.files visit.regs visit.state =
        .ok visit.regs t :=
      bwOpcode_of_unknown read unknown (Or.inr rfl) failed
    rw [opcodeVisits_of_ok here stepped] at visits'
    have enough := (running.step prologueOk here stepped).enough
    obtain ⟨fuel, rfl⟩ : ∃ n, fuel = n + 1 := ⟨fuel - 1, by omega⟩
    rw [opcodeVisits, if_pos inUnit] at visits'
    cases visits'
  · rintro straight before visit after visits ⟨op, u, why, t, read, failed, refusal⟩
    obtain ⟨fuel, prologueOk, running, here, visits', tab⟩ :=
      program_visit ok inside entered visits
    have readsU : Reads img visit.state u := Develops.ok read
    have readsT : Reads img u t := Develops.error failed
    have rows : t.tab.rows = visit.state.tab.rows := by rw [readsT.tab, readsU.tab]
    rw [tab, ← rows]
    by_cases unknown : Unknown program.prologue op
    · have stepped : bwOpcode img program.prologue program.files visit.regs visit.state =
          .ok visit.regs t :=
        bwOpcode_of_unknown read unknown refusal failed
      have atEnd : ¬ t.cur.p < program.prologue.unitEnd := by
        rcases refusal with rfl | rfl
        · have insideU := readsU.inside (running.inside here)
          have moved := bwUint_moves (running.inside here) read
          have last := decodeOperands_short_atEnd insideU (by omega) unknown failed
          have sameEnd := readsT.endp.trans readsU.endp
          have endInside := running.endInside
          omega
        · intro inUnit
          exact straight visit (by rw [visits]; simp)
            ⟨op, u, t, read, unknown, failed, inUnit⟩
      rw [opcodeVisits_of_ok here stepped, opcodeVisits_done atEnd] at visits'
      refine ⟨(List.cons.inj visits').2.symm, ?_⟩
      rw [stateAfter, bwOpcodeLoop_of_ok _ _ _ here stepped]
      cases fuel with
      | zero => rfl
      | succ fuel => rw [bwOpcodeLoop_done _ _ _ atEnd]
    · have stepped : bwOpcode img program.prologue program.files visit.regs visit.state =
          .error why t :=
        bwOpcode_of_known read unknown failed
      rw [opcodeVisits_of_error here stepped] at visits'
      refine ⟨(List.cons.inj visits').2.symm, ?_⟩
      rw [stateAfter, bwOpcodeLoop_of_error _ _ _ here stepped]
      rcases refusal with rfl | rfl
      · rfl
      · rfl

/-- `unitV2` with a program that ends in an `advance_pc` without its operand. -/
def truncatedUnit : List UInt8 :=
  [34, 0, 0, 0, 2, 0, 15, 0, 0, 0, 1, 1, 0, 4, 4, 0, 1, 1, 0, 0x61, 0, 0, 0, 0, 0,
    0, 9, 2, 0, 0x10, 0x40, 0, 0, 0, 0, 0, 1, 2]

theorem truncatedUnit_ends : ∃ program,
    programOf (lineImage truncatedUnit) (startState (lineImage truncatedUnit) Tab.zeroed) =
        some program ∧
      ∀ before visit after, program.visits (lineImage truncatedUnit) = before ++ visit :: after →
        OperandFails (lineImage truncatedUnit) program.prologue visit →
          after = [] ∧
            (stateAfter (bwParseUnit (lineImage truncatedUnit))
              (startState (lineImage truncatedUnit) Tab.zeroed)).tab.rows =
              visit.state.tab.rows := by
  have straight : (programOf (lineImage truncatedUnit)
      (startState (lineImage truncatedUnit) Tab.zeroed)).map (fun program =>
        decide (∀ visit ∈ program.visits (lineImage truncatedUnit),
          ¬ Derails (lineImage truncatedUnit) program.prologue visit)) = some true := by
    decide +kernel
  obtain ⟨program, entered, noneDerails⟩ := Option.map_eq_some_iff.mp straight
  exact ⟨program, entered, (program_ends_at_bad_operand_iff _ _ program
    (stateOk_startState tabOk_zeroed) (inside_startState _ _ (by decide)) entered).mpr
    (of_decide_eq_true noneDerails)⟩

/-- A version 2 unit with `opcode_base` 6. Its program is `set_address`, an
opcode 5 with an over-long operand, `copy` and `end_sequence`. -/
def derailUnit : List UInt8 :=
  [49, 0, 0, 0, 2, 0, 17, 0, 0, 0, 1, 1, 0, 4, 6, 0, 1, 1, 1, 1, 0, 0x61, 0, 0, 0, 0, 0,
    0, 9, 2, 0, 0x10, 0x40, 0, 0, 0, 0, 0,
    5, 0xff, 0xff, 0xff, 0xff, 0xff, 0xff, 0xff, 0xff, 0xff, 0xff, 1, 0, 1, 1]

/-- The program goes on behind the operand that has failed. -/
theorem derailUnit_goes_on : ∃ program,
    programOf (lineImage derailUnit) (startState (lineImage derailUnit) Tab.zeroed) =
        some program ∧
      ¬ ∀ before visit after, program.visits (lineImage derailUnit) = before ++ visit :: after →
        OperandFails (lineImage derailUnit) program.prologue visit →
          after = [] ∧
            (stateAfter (bwParseUnit (lineImage derailUnit))
              (startState (lineImage derailUnit) Tab.zeroed)).tab.rows =
              visit.state.tab.rows := by
  have run : (programOf (lineImage derailUnit)
      (startState (lineImage derailUnit) Tab.zeroed)).map (fun program =>
        (program.visits (lineImage derailUnit)).map fun visit =>
          decide (Derails (lineImage derailUnit) program.prologue visit)) =
        some [false, true, false, false] := by
    decide +kernel
  obtain ⟨program, entered, second⟩ := Option.map_eq_some_iff.mp run
  refine ⟨program, entered, fun ends => ?_⟩
  obtain ⟨first, rest, visits, -, derails⟩ := List.map_eq_cons_iff.mp second
  obtain ⟨visit, after, rfl, isTrue, more⟩ := List.map_eq_cons_iff.mp derails
  have none := (ends [first] visit after visits (of_decide_eq_true isTrue).operandFails).1
  rw [none] at more
  cases more

end Backwalk.DwarfLine
