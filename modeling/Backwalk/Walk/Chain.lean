import Backwalk.Walk.Capture

/-!
Contract: a walk over a chain of frames in memory reports that chain.

Owns the chain as memory holds it (`FrameChain`), in both slot layouts, and what
a caller sees of it: the frames of its return addresses in order, up to the one
at which the callback says stop.

The chain is described by what lies in memory, not by what the step does with
it; that the step goes along the chain is a theorem here.
-/

namespace Backwalk.Walk

open Backwalk.Support

variable {arch : Arch} {σ : Type}

/-! ### Frames in memory -/

/-- Where a frame keeps the frame pointer it was entered with. -/
def savedSlot (fp : Word arch) : Word arch :=
  match arch with
  | .x86_64 | .aarch64 => fp
  | .arm => fp - 4

/-- Where a frame keeps its return address. -/
def returnSlot (fp : Word arch) : Word arch :=
  match arch with
  | .x86_64 | .aarch64 => fp + 8
  | .arm => fp

theorem frameBase_eq_savedSlot (fp : Word arch) : frameBase fp = savedSlot fp := by
  cases arch <;> rfl

theorem frameBase_next (fp : Word arch) :
    frameBase fp + BitVec.ofNat _ arch.wordSize = returnSlot fp := by
  cases arch with
  | x86_64 => rfl
  | aarch64 => rfl
  | arm => exact BitVec.sub_add_cancel fp _

/-- Memory holds a chain of frames from `fp` on, with these return addresses. It
ends at a frame pointer from which no step is taken. -/
inductive FrameChain (machine : Machine arch) : Word arch → List (Word arch) → Prop where
  | last {fp : Word arch} : UserAddr fp → (∀ ip, contextStep machine ⟨fp, ip⟩ = none) →
      FrameChain machine fp []
  | frame {fp next ip : Word arch} {ips : List (Word arch)} : UserAddr fp →
      fp &&& BitVec.ofNat _ (arch.wordSize - 1) = 0 → machine.mem (savedSlot fp) = next →
      machine.mem (returnSlot fp) = ip → fp ≠ next → UserAddr ip → FrameChain machine next ips →
      FrameChain machine fp (ip :: ips)

theorem FrameChain.user {machine : Machine arch} {fp : Word arch} {ips : List (Word arch)}
    (chain : FrameChain machine fp ips) : UserAddr fp := by
  cases chain with
  | last user _ => exact user
  | frame user _ _ _ _ _ _ => exact user

/-- Stripping leaves an address alone that has nothing to strip. -/
def StripsNothing (machine : Machine arch) : Prop :=
  ∀ word, UserAddr word → machine.stripPac word = word

theorem returnAddress_plain {machine : Machine arch} (plain : StripsNothing machine)
    {fp ip : Word arch} (there : machine.mem (returnSlot fp) = ip) (user : UserAddr ip) :
    returnAddress machine fp = ip := by
  unfold returnAddress
  rw [frameBase_next, there]
  split_ifs
  · exact plain ip user
  · rfl

/-! ### The walk over a chain -/

/-- The step goes from one frame of a chain to the next, and has its return
address then. -/
theorem FrameChain.step {machine : Machine arch} (plain : StripsNothing machine)
    {fp ip : Word arch} {ips : List (Word arch)} (chain : FrameChain machine fp (ip :: ips))
    (start : Word arch) :
    ∃ next, contextStep machine ⟨fp, start⟩ = some ⟨next, ip⟩ ∧ FrameChain machine next ips := by
  cases chain with
  | @frame _ next _ _ user aligned saved returned moves ipUser rest =>
      have address := returnAddress_plain plain returned ipUser
      refine ⟨next, ?_, rest⟩
      apply (contextStep_eq_some_iff machine _ _).mpr
      refine ⟨⟨user, aligned, ?_, moves.symm, rest.user, ?_⟩, address.symm⟩
      · rw [frameBase_eq_savedSlot]
        exact saved
      · rw [address]
        exact ipUser

/-- The walk has the return addresses of the chain in order, and then ends. -/
theorem FrameChain.walk {machine : Machine arch} (plain : StripsNothing machine)
    {fp : Word arch} {ips : List (Word arch)} (chain : FrameChain machine fp ips)
    (start : Word arch) {n : Nat} (enough : ips.length < n) :
    walkTake machine ⟨fp, start⟩ n = ips ∧
      orbit (contextStep machine) ⟨fp, start⟩ n = none := by
  induction ips generalizing fp start n with
  | nil =>
      obtain ⟨n, rfl⟩ : ∃ m, n = m + 1 := ⟨n - 1, by omega⟩
      cases chain with
      | last _ refused =>
          rw [walkTake, orbit_succ_front, refused start]
          exact ⟨rfl, rfl⟩
  | cons ip ips inductionHypothesis =>
      obtain ⟨n, rfl⟩ : ∃ m, n = m + 1 := ⟨n - 1, by omega⟩
      obtain ⟨next, stepped, rest⟩ := chain.step plain start
      obtain ⟨taken, ended⟩ := inductionHypothesis rest ip (Nat.lt_of_succ_lt_succ enough)
      rw [walkTake, orbit_succ_front, stepped]
      exact ⟨congrArg (ip :: ·) taken, ended⟩

/-! ### What the callback sees -/

/-- What a callback answers when it is called on these frames one after the
other. -/
def answersOf (call : Callback arch σ) : List (Frame arch) → σ → List Bool
  | [], _ => []
  | frame :: frames, state =>
      (call frame state).1 :: answersOf call frames (call frame state).2

/-- The state in which such calls leave it. -/
def stateAfterCalls (call : Callback arch σ) (frames : List (Frame arch)) (state : σ) : σ :=
  frames.foldl (fun state frame => (call frame state).2) state

/-- The frames up to the first that the callback refuses, and that one. -/
def reported (call : Callback arch σ) (frames : List (Frame arch)) (state : σ) :
    List (Frame arch) :=
  frames.take (((answersOf call frames state).takeWhile id).length + 1)

theorem reported_cons_true {call : Callback arch σ} {frame : Frame arch} {state : σ}
    (frames : List (Frame arch)) (answered : (call frame state).1 = true) :
    reported call (frame :: frames) state = frame :: reported call frames (call frame state).2 := by
  simp [reported, answersOf, answered]

theorem reported_cons_false {call : Callback arch σ} {frame : Frame arch} {state : σ}
    (frames : List (Frame arch)) (answered : (call frame state).1 = false) :
    reported call (frame :: frames) state = [frame] := by
  simp [reported, answersOf, answered]

/-- Processing calls back on the frames up to the first that is refused, and
returns whether none was. -/
theorem processIps_reported (symbols : Symbols arch) (call : Callback arch σ)
    (ips : List (Word arch)) (caller : Caller arch σ) :
    processIps symbols (some call) ips caller =
      ((answersOf call (ips.map (bwFrameResolve symbols)) caller.state).all id,
        ⟨stateAfterCalls call (reported call (ips.map (bwFrameResolve symbols)) caller.state)
            caller.state,
          caller.calls ++ reported call (ips.map (bwFrameResolve symbols)) caller.state⟩) := by
  induction ips generalizing caller with
  | nil => simp [processIps, answersOf, reported, stateAfterCalls]
  | cons ip ips inductionHypothesis =>
      rw [List.map_cons, processIps]
      cases answered : (call (bwFrameResolve symbols ip) caller.state).1 with
      | true =>
          rw [reported_cons_true _ answered]
          simp only [bwFrameProcess, answered, inductionHypothesis, answersOf, List.all_cons, id_eq,
            Bool.true_and, stateAfterCalls, List.foldl_cons, List.append_assoc,
            List.singleton_append]
      | false =>
          rw [reported_cons_false _ answered]
          simp [bwFrameProcess, answered, answersOf, stateAfterCalls]

/-- From the first frame of a chain, `bw_backtrace` returns; it has then called
the callback on the return addresses of the chain, in order, up to and including
the first that was refused, and it returns true exactly when none was. -/
theorem bwBacktrace_reports_chain (machine : Machine arch) (symbols : Symbols arch)
    (call : Callback arch σ) (state : σ) {fp start : Word arch} {ips : List (Word arch)}
    (plain : StripsNothing machine) (chain : FrameChain machine fp ips) :
    ∀ n, ips.length < n →
      (bwBacktrace machine symbols (some call) ⟨fp, start⟩ state n).result =
          some ((answersOf call (ips.map (bwFrameResolve symbols)) state).all id) ∧
        (bwBacktrace machine symbols (some call) ⟨fp, start⟩ state n).caller.calls =
          reported call (ips.map (bwFrameResolve symbols)) state := by
  intro n enough
  obtain ⟨taken, ended⟩ := chain.walk plain start enough
  obtain ⟨callerIs, resultIs⟩ :=
    advance_iterate machine symbols (some call) n ⟨fp, start⟩ ⟨state, []⟩
  rw [taken, processIps_reported] at callerIs resultIs
  rw [bwBacktrace, callerIs, resultIs, if_pos ended]
  refine ⟨?_, List.nil_append _⟩
  cases (answersOf call (ips.map (bwFrameResolve symbols)) state).all id <;> rfl

/-- Two frames, at `0x10000` and `0x10100`, that return to `0x20000` and
`0x30000`. -/
def twoFrames : Machine .x86_64 where
  mem := fun addr =>
    if addr = 0x10000 then 0x10100
    else if addr = 0x10008 then 0x20000
    else if addr = 0x10100 then 0x10200
    else if addr = 0x10108 then 0x30000
    else 0
  stripPac := id

theorem twoFrames_chain : FrameChain twoFrames 0x10000 [0x20000, 0x30000] := by
  have third : FrameChain twoFrames 0x10200 [] := .last (by decide) fun ip => by
    rw [contextStep_fp twoFrames (show (⟨0x10200, ip⟩ : Context .x86_64).fp =
      (⟨0x10200, 0⟩ : Context .x86_64).fp from rfl)]
    decide
  have second : FrameChain twoFrames 0x10100 [0x30000] :=
    .frame (by decide) (by decide) rfl rfl (by decide) (by decide) third
  exact .frame (by decide) (by decide) rfl rfl (by decide) (by decide) second

/-- A callback that stops at its first call sees the first frame only. -/
theorem twoFrames_reported :
    (bwBacktrace twoFrames ⟨true, fun _ => none, fun _ _ _ => none⟩
        (some fun _ (count : Nat) => (false, count + 1)) ⟨0x10000, 0⟩ 0 3).result = some false ∧
      (bwBacktrace twoFrames ⟨true, fun _ => none, fun _ _ _ => none⟩
        (some fun _ (count : Nat) => (false, count + 1)) ⟨0x10000, 0⟩ 0 3).caller.calls =
          [⟨0, "?", "?", "?", 0⟩] :=
  bwBacktrace_reports_chain twoFrames ⟨true, fun _ => none, fun _ _ _ => none⟩
    (fun _ (count : Nat) => (false, count + 1)) 0 (fun _ _ => rfl) twoFrames_chain 3 (by decide)

end Backwalk.Walk
