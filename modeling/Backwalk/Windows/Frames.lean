import Backwalk.Walk.Windows
import Backwalk.Windows.Resolve

/-!
Contract: the Windows half of `src/backwalk.c`: `bw_frame_process`, and
`bw_backtrace` and `bw_backtrace_process` over it.

Owns calls of these one after the other in one process, which share the symbol
cache of `src/win.c`, and their meaning without it: each frame is what the first
call of a process would make of it. Also owns how a direct walk and a split
capture of one stack compare.
-/

namespace Backwalk.Windows

open Backwalk.Support Backwalk.Walk

/-! ### Actions that do not show the cache -/

section Transparent

variable {bits : Nat} {env : Env bits} {α β : Type}

/-- What the action comes to is the same whatever the cache holds, and the cache
is in order behind it. -/
structure Transparent (env : Env bits) (m : Loader α) : Prop where
  same : ∀ s u, Warm env s → Warm env u → verdict (m s) = verdict (m u)
  warm : ∀ s a t, Warm env s → m s = .ok a t → Warm env t

theorem Transparent.pure (a : α) : Transparent env (pure a : Loader α) where
  same := fun _ _ _ _ => rfl
  warm := by
    intro s b t warm ended
    cases ended
    exact warm

theorem Transparent.bind {m : Loader α} {f : α → Loader β} (first : Transparent env m)
    (next : ∀ a, Transparent env (f a)) : Transparent env (m >>= f) where
  same := by
    intro s u warmS warmU
    have firstSame := first.same s u warmS warmU
    cases endedS : m s with
    | error why s' =>
        cases endedU : m u with
        | error why' u' =>
            rw [endedS, endedU] at firstSame
            rw [bind_of_error endedS, bind_of_error endedU]
            exact congrArg Except.error (Except.error.inj firstSame)
        | ok b u' =>
            rw [endedS, endedU] at firstSame
            cases firstSame
    | ok a s' =>
        cases endedU : m u with
        | error why' u' =>
            rw [endedS, endedU] at firstSame
            cases firstSame
        | ok b u' =>
            rw [endedS, endedU] at firstSame
            cases firstSame
            rw [bind_of_ok endedS, bind_of_ok endedU]
            exact (next a).same s' u' (first.warm s a s' warmS endedS)
              (first.warm u a u' warmU endedU)
  warm := by
    intro s b t warm ended
    obtain ⟨a, s', endedS, rest⟩ := bind_eq_ok.mp ended
    exact (next a).warm s' b t (first.warm s a s' warm endedS) rest

theorem transparent_answer (env : Env bits) (q : Query) : Transparent env (answer env q) where
  same := fun _ _ warmS warmU => (answer_warm_eq warmS q).trans (answer_warm_eq warmU q).symm
  warm := fun _ _ _ warm ended => answer_warm warm ended

/-- An action that is known by what is made of its answer. -/
theorem Transparent.of_map {m : Loader α} {f : α → β} (injective : ∀ a b, f a = f b → a = b)
    (mapped : Transparent env (m >>= fun a => Pure.pure (f a))) : Transparent env m where
  same := by
    intro s u warmS warmU
    have same := mapped.same s u warmS warmU
    cases endedS : m s <;> cases endedU : m u
    · rw [bind_of_ok endedS, bind_of_ok endedU] at same
      exact congrArg Except.ok (injective _ _ (Except.ok.inj same))
    · rw [bind_of_ok endedS, bind_of_error endedU] at same
      cases same
    · rw [bind_of_error endedS, bind_of_ok endedU] at same
      cases same
    · rw [bind_of_error endedS, bind_of_error endedU] at same
      exact congrArg Except.error (Except.error.inj same)
  warm := by
    intro s a t warm ended
    exact mapped.warm s (f a) t warm ((bind_of_ok ended).trans rfl)

theorem transparent_bwPeFind (module ip : Nat) : Transparent env (bwPeFind env module ip) :=
  Transparent.of_map (fun _ _ => Answer.name.inj) (transparent_answer env (.find module ip))

theorem transparent_bwPeLine (module probe srcLen : Nat) :
    Transparent env (bwPeLine env module probe srcLen) :=
  Transparent.of_map (fun _ _ => Answer.source.inj)
    (transparent_answer env (.line module probe srcLen))

end Transparent

/-! ### One frame -/

section Resolve

variable {bits : Nat} (p : Process bits)

theorem transparent_bwWinName (module ip probe snameLen : Nat) :
    Transparent p.env (bwWinName p module ip probe snameLen) := by
  unfold bwWinName
  dsimp only
  split
  · exact Transparent.pure _
  · apply Transparent.bind (transparent_bwPeFind module probe)
    intro found
    cases found <;> exact Transparent.pure _

theorem transparent_bwWinLine (module ip probe srcLen : Nat) :
    Transparent p.env (bwWinLine p module ip probe srcLen) := by
  unfold bwWinLine
  dsimp only
  split
  · exact Transparent.pure _
  · exact Transparent.bind (transparent_bwPeLine module probe srcLen) fun _ => Transparent.pure _

theorem transparent_bwWinResolve (ip fnameLen snameLen srcLen : Nat) :
    Transparent p.env (bwWinResolve p ip fnameLen snameLen srcLen) := by
  unfold bwWinResolve
  split
  · exact Transparent.pure _
  · apply Transparent.bind (transparent_bwWinName p _ _ _ _)
    intro sname
    apply Transparent.bind (transparent_bwWinLine p _ _ _ _)
    intro found
    exact Transparent.pure _

end Resolve

/-! ### Walks -/

def bwWinFnameMax : Nat := 260
def bwWinSnameMax : Nat := 512
def bwWinSrcMax : Nat := 512

section Walks

variable {arch : Arch} {σ : Type}

/-- A `bw_backtrace_cb` whose `arg` points to a `σ`. -/
abbrev WinCallback (σ : Type) := Resolved → σ → Bool × σ

/-- The callback's side of a run: its state, and the calls made so far. -/
structure WinCaller (σ : Type) where
  state : σ
  calls : List Resolved

variable (p : Process arch.bits) (cb : Option (WinCallback σ))

/-- `bw_frame_process`. -/
def bwFrameProcessWin (ip : Word arch) (caller : WinCaller σ) : Loader (Bool × WinCaller σ) := do
  let frame ← bwWinResolve p ip.toNat bwWinFnameMax bwWinSnameMax bwWinSrcMax
  match cb with
  | none => pure (true, caller)
  | some call =>
      let answer := call frame caller.state
      pure (answer.1, ⟨answer.2, caller.calls ++ [frame]⟩)

/-- The loop over the instruction pointers, of either function. -/
def processWin : List (Word arch) → WinCaller σ → Loader (Bool × WinCaller σ)
  | [], caller => pure (true, caller)
  | ip :: rest, caller => do
      let (goOn, caller) ← bwFrameProcessWin p cb ip caller
      if goOn then processWin rest caller else pure (false, caller)

/-- `bw_backtrace`; `ips` is the array on its stack, with what was there. -/
def bwBacktraceWin (captureStackBackTrace : StackCapture arch) (ips : Nat → Word arch) (state : σ) :
    Loader (Bool × WinCaller σ) :=
  let (ips, n) := bwWinCapture captureStackBackTrace ips bwWinMaxFrames
  processWin p cb ((List.range n).map ips) ⟨state, []⟩

/-- `bw_backtrace_process`. -/
def bwBacktraceProcessWin (bw : BwContext arch) (state : σ) : Loader (Bool × WinCaller σ) :=
  processWin p cb bw.frames ⟨state, []⟩

/-! ### What a walk means -/

/-- The frame that the first call of a process makes of an instruction pointer. -/
def freshFrame (ip : Word arch) : Except Halt Resolved :=
  verdict (bwWinResolve p ip.toNat bwWinFnameMax bwWinSnameMax bwWinSrcMax freshProcess)

/-- Such frames, handed to the callback one after the other until it answers
`false`. -/
def reportFrames : List (Word arch) → WinCaller σ → Except Halt (Bool × WinCaller σ)
  | [], caller => pure (true, caller)
  | ip :: rest, caller => do
      let frame ← freshFrame p ip
      match cb with
      | none => reportFrames rest caller
      | some call =>
          let answer := call frame caller.state
          let caller := ⟨answer.2, caller.calls ++ [frame]⟩
          if answer.1 then reportFrames rest caller else pure (false, caller)

variable {p cb} {s : LoadState}

theorem transparent_bwFrameProcessWin (ip : Word arch) (caller : WinCaller σ) :
    Transparent p.env (bwFrameProcessWin p cb ip caller) := by
  unfold bwFrameProcessWin
  apply Transparent.bind (transparent_bwWinResolve p _ _ _ _)
  intro frame
  cases cb <;> exact Transparent.pure _

theorem transparent_processWin (ips : List (Word arch)) (caller : WinCaller σ) :
    Transparent p.env (processWin p cb ips caller) := by
  induction ips generalizing caller with
  | nil => exact Transparent.pure _
  | cons ip rest inductionHypothesis =>
      apply Transparent.bind (transparent_bwFrameProcessWin ip caller)
      intro answer
      dsimp only
      split
      · exact inductionHypothesis _
      · exact Transparent.pure _

/-- The loop makes of each frame what the first call of a process would. -/
theorem verdict_processWin (warm : Warm p.env s) (ips : List (Word arch)) (caller : WinCaller σ) :
    verdict (processWin p cb ips caller s) = reportFrames p cb ips caller := by
  induction ips generalizing caller s with
  | nil => rfl
  | cons ip rest inductionHypothesis =>
      have resolve := transparent_bwWinResolve p ip.toNat bwWinFnameMax bwWinSnameMax bwWinSrcMax
      have same := resolve.same s freshProcess warm (warm_freshProcess p.env)
      rw [reportFrames, freshFrame, ← same]
      cases ended : bwWinResolve p ip.toNat bwWinFnameMax bwWinSnameMax bwWinSrcMax s with
      | error why t =>
          have processed : bwFrameProcessWin p cb ip caller s = .error why t := bind_of_error ended
          have stopped : processWin p cb (ip :: rest) caller s = .error why t :=
            bind_of_error processed
          rw [stopped]
          rfl
      | ok frame t =>
          have warm' := resolve.warm s frame t warm ended
          cases cb with
          | none =>
              have processed : bwFrameProcessWin p none ip caller s = .ok (true, caller) t :=
                bind_of_ok ended
              have goes :
                  processWin p none (ip :: rest) caller s = processWin p none rest caller t :=
                bind_of_ok processed
              rw [goes]
              exact inductionHypothesis warm' caller
          | some call =>
              obtain ⟨answer, isAnswer⟩ : ∃ answer, call frame caller.state = answer := ⟨_, rfl⟩
              have processed : bwFrameProcessWin p (some call) ip caller s =
                  .ok (answer.1, ⟨answer.2, caller.calls ++ [frame]⟩) t := by
                rw [← isAnswer]
                exact bind_of_ok ended
              have goes : processWin p (some call) (ip :: rest) caller s =
                  (if answer.1 then
                      processWin p (some call) rest ⟨answer.2, caller.calls ++ [frame]⟩
                    else pure (false, ⟨answer.2, caller.calls ++ [frame]⟩)) t :=
                bind_of_ok processed
              rw [goes]
              show _ = if (call frame caller.state).1 = true then
                reportFrames p (some call) rest
                  ⟨(call frame caller.state).2, caller.calls ++ [frame]⟩
                  else pure (false, ⟨(call frame caller.state).2, caller.calls ++ [frame]⟩)
              rw [isAnswer]
              split
              · exact inductionHypothesis warm' _
              · rfl

/-- The callback is handed the later frames unless it has stopped before. -/
theorem reportFrames_append (ips more : List (Word arch)) (caller : WinCaller σ) :
    reportFrames p cb (ips ++ more) caller =
      reportFrames p cb ips caller >>= fun answer =>
        if answer.1 then reportFrames p cb more answer.2 else pure (false, answer.2) := by
  induction ips generalizing caller with
  | nil => rfl
  | cons ip rest inductionHypothesis =>
      rw [List.cons_append, reportFrames, reportFrames, bind_assoc]
      apply bind_congr
      intro frame
      cases cb with
      | none => exact inductionHypothesis caller
      | some call =>
          dsimp only
          split
          · exact inductionHypothesis _
          · rfl

/-! ### Calls of one process -/

/-- Actions one after the other. -/
def inTurn {α : Type} : List (Loader α) → Loader (List α)
  | [] => pure []
  | m :: ms => do
      let first ← m
      let rest ← inTurn ms
      pure (first :: rest)

theorem Transparent.inTurn {bits : Nat} {env : Env bits} {α : Type} {ms : List (Loader α)}
    (all : ∀ m ∈ ms, Transparent env m) : Transparent env (inTurn ms) := by
  induction ms with
  | nil => exact Transparent.pure []
  | cons m ms inductionHypothesis =>
      apply Transparent.bind (all m (by simp))
      intro first
      apply Transparent.bind (inductionHypothesis fun other member => all other (by simp [member]))
      intro rest
      exact Transparent.pure _

/-- Each action comes to what it comes to as the first of its process. -/
theorem verdict_inTurn {bits : Nat} {env : Env bits} {α : Type} {ms : List (Loader α)}
    (all : ∀ m ∈ ms, Transparent env m) (warm : Warm env s) :
    verdict (inTurn ms s) = ms.mapM fun m => verdict (m freshProcess) := by
  induction ms generalizing s with
  | nil => rfl
  | cons m ms inductionHypothesis =>
      have transparent : Transparent env m := all m (by simp)
      have others : ∀ other ∈ ms, Transparent env other := fun other member =>
        all other (by simp [member])
      rw [List.mapM_cons, ← transparent.same s freshProcess warm (warm_freshProcess env)]
      cases first : m s with
      | error why t =>
          have stopped : inTurn (m :: ms) s = .error why t := bind_of_error first
          rw [stopped]
          rfl
      | ok a t =>
          have later := inductionHypothesis others (transparent.warm s a t warm first)
          cases rest : inTurn ms t with
          | error why u =>
              have stopped : inTurn (m :: ms) s = .error why u :=
                (bind_of_ok first).trans (bind_of_error rest)
              rw [rest] at later
              rw [stopped, ← later]
              rfl
          | ok as u =>
              have ended : inTurn (m :: ms) s = .ok (a :: as) u :=
                (bind_of_ok first).trans ((bind_of_ok rest).trans rfl)
              rw [rest] at later
              rw [ended, ← later]
              rfl

/-- A call of the library that reports frames. -/
inductive WinCall (arch : Arch) (σ : Type) where
  | backtrace (captureStackBackTrace : StackCapture arch) (ips : Nat → Word arch)
      (cb : Option (WinCallback σ)) (state : σ)
  | process (bw : BwContext arch) (cb : Option (WinCallback σ)) (state : σ)

variable (p)

def winCall : WinCall arch σ → Loader (Bool × WinCaller σ)
  | .backtrace capture ips cb state => bwBacktraceWin p cb capture ips state
  | .process bw cb state => bwBacktraceProcessWin p cb bw state

/-- What a call reports, without the cache: for a walk, what the capture stores
into the array. -/
def WinCall.report : WinCall arch σ → Except Halt (Bool × WinCaller σ)
  | .backtrace capture ips cb state =>
      reportFrames p cb ((List.range (bwWinCapture capture ips bwWinMaxFrames).2).map
        (bwWinCapture capture ips bwWinMaxFrames).1) ⟨state, []⟩
  | .process bw cb state => reportFrames p cb bw.frames ⟨state, []⟩

/-- Calls of one process, in any number and order. -/
def winCalls (calls : List (WinCall arch σ)) : Loader (List (Bool × WinCaller σ)) :=
  inTurn (calls.map (winCall p))

variable {p}

theorem transparent_winCall (call : WinCall arch σ) : Transparent p.env (winCall p call) := by
  cases call <;> exact transparent_processWin _ _

theorem verdict_winCall (warm : Warm p.env s) (call : WinCall arch σ) :
    verdict (winCall p call s) = call.report p := by
  cases call <;> exact verdict_processWin warm _ _

theorem winCalls_warm {calls : List (WinCall arch σ)} {answers : List (Bool × WinCaller σ)}
    (before : winCalls p calls freshProcess = .ok answers s) : Warm p.env s := by
  have transparent : Transparent p.env (inTurn (calls.map (winCall p))) := by
    apply Transparent.inTurn
    intro m member
    obtain ⟨call, -, rfl⟩ := List.mem_map.mp member
    exact transparent_winCall call
  exact transparent.warm _ _ _ (warm_freshProcess p.env) before

theorem verdict_winCalls (p : Process arch.bits) (warm : Warm p.env s)
    (calls : List (WinCall arch σ)) :
    verdict (winCalls p calls s) = calls.mapM (WinCall.report p) := by
  have all : ∀ m ∈ calls.map (winCall p), Transparent p.env m := by
    intro m member
    obtain ⟨call, -, rfl⟩ := List.mem_map.mp member
    exact transparent_winCall call
  rw [winCalls, verdict_inTurn all warm, List.mapM_map]
  congr 1
  funext call
  exact verdict_winCall (warm_freshProcess p.env) call

/-- In one process, each walk and each processed context reports the frames that
it would report as the first call, to the same callback calls and with the same
result, whatever was loaded for the calls before it. -/
theorem winCalls_report (p : Process arch.bits) (calls : List (WinCall arch σ)) :
    verdict (winCalls p calls freshProcess) = calls.mapM (WinCall.report p) :=
  verdict_winCalls p (warm_freshProcess p.env) calls

/-! ### Direct walk and split capture -/

variable {captureStackBackTrace : StackCapture arch} {stack : List (Word arch)}

/-- A walk reports the first 64 frames of the stack. -/
theorem report_backtrace (captures : Captures captureStackBackTrace stack) (ips : Nat → Word arch)
    (state : σ) :
    WinCall.report p (.backtrace captureStackBackTrace ips cb state) =
      reportFrames p cb (stack.take 64) ⟨state, []⟩ := by
  rw [WinCall.report, bwWinCapture_eq captures ips (by decide), range_map_storeFrom]
  rfl

/-- After any calls of a process, a direct walk of a stack comes to the same as a
collection into a context with room for a frame at least, which is then
processed, followed by those of the first 64 frames that the collection did not
store. -/
theorem bwBacktraceWin_split (captures : Captures captureStackBackTrace stack)
    {bw : BwContext arch} (deep : 1 ≤ bw.ipMaxCnt) {earlier : List (WinCall arch σ)}
    {answers : List (Bool × WinCaller σ)} (before : winCalls p earlier freshProcess = .ok answers s)
    (ips : Nat → Word arch) (state : σ) :
    let collected := (bwBacktraceCollectWin captureStackBackTrace bw).2
    verdict (bwBacktraceWin p cb captureStackBackTrace ips state s) =
      verdict (bwBacktraceProcessWin p cb collected state s) >>= fun answer =>
        if answer.1 then reportFrames p cb ((stack.take 64).drop collected.ipCnt) answer.2
        else pure (false, answer.2) := by
  intro collected
  have warm := winCalls_warm before
  have direct : verdict (bwBacktraceWin p cb captureStackBackTrace ips state s) =
      reportFrames p cb (stack.take 64) ⟨state, []⟩ :=
    (verdict_winCall warm (.backtrace captureStackBackTrace ips cb state)).trans
      (report_backtrace captures ips state)
  have split : verdict (bwBacktraceProcessWin p cb collected state s) =
      reportFrames p cb collected.frames ⟨state, []⟩ :=
    verdict_winCall warm (.process collected cb state)
  have counted : collected.frames.length = collected.ipCnt := by
    simp [BwContext.frames]
  have few : winCaptureCount bw.ipMaxCnt ≤ 64 := by
    rw [winCaptureCount_eq_min]
    exact Nat.min_le_right _ _
  have front : collected.frames = (stack.take 64).take collected.ipCnt := by
    have stored : collected.frames = stack.take (winCaptureCount bw.ipMaxCnt) :=
      frames_bwBacktraceCollectWin captures deep
    rw [← counted, stored, List.take_take, List.length_take]
    apply (List.take_eq_take_iff).mpr
    omega
  rw [direct, split, front, ← reportFrames_append, List.take_append_drop]

end Walks

/-- A stack of two frames. -/
def callsInF : StackCapture .x86_64 := fun _ n => [0x1008, 0x1018].take n

def counting : Option (WinCallback Nat) := some fun _ count => (true, count + 1)

/-- A context with room for one frame does not store the second. -/
theorem callsInF_split :
    let p : Process (Arch.bits .x86_64) := twoFunctions;
    verdict (bwBacktraceWin p counting callsInF (fun _ => 0) 0 freshProcess) =
      verdict (bwBacktraceProcessWin p counting (bwBacktraceCollectWin callsInF oneDeep).2 0
        freshProcess) >>= fun answer =>
          if answer.1 then reportFrames p counting [0x1018] answer.2 else pure (false, answer.2) :=
  @bwBacktraceWin_split .x86_64 Nat twoFunctions counting freshProcess callsInF [0x1008, 0x1018]
    (fun _ => rfl) oneDeep (by decide) [] [] rfl (fun _ => 0) 0

end Backwalk.Windows
