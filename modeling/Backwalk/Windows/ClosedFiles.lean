import Backwalk.DwarfLine.Terminators
import Backwalk.Windows.FileFrames
import Backwalk.Windows.Threads

/-!
Contract: processes whose files keep a load inside.

Such a file is below 4 GiB, its section names end, its line sections end in a NUL,
and no header of a line unit wraps around. It need not be well formed otherwise,
nor be a PE file at all. Owns that loads of such files return, and with them the
calls of a process, one after the other or in threads side by side.
-/

namespace Backwalk.Windows

open Backwalk.DwarfLine Backwalk.Support Backwalk.Walk

/-! ### Loads -/

/-- A mapped file that is below 4 GiB and, if its headers are accepted, has
section names that end, line sections that end in a NUL, and no header of a line
unit that wraps around. -/
structure ClosedFile (v : View 64) : Prop where
  small : v.size < 2 ^ 32
  named : ∀ h, v.HasHeaders h →
    ∀ index < h.nsec, NameEnds v (v.sectionHeader h index) (v.strTab h)
  lines : ∀ h, v.HasHeaders h → ClosedImage (v.lineImage h)

/-- If the module has a file, it is such a file. -/
def ClosedModule (env : Env 64) (module : Nat) : Prop :=
  ∀ v, env.mapFile module = some v → ClosedFile v

section Loads

variable {env : Env 64} {v : View 64} {h : PeHeaders} {module : Nat} {s : LoadState}

theorem bwPeParse_closed (closed : ClosedImage (v.lineImage h)) (qsort : Qsort) {tab : Tab}
    (reset : s.globals.dwarf = bwDwarfTabReset tab) :
    ∃ t, bwPeParse v qsort (v.lineSections h) s = .ok () t := by
  by_cases isAbsent : (v.lineSections h).line.ptr = 0
  · rw [bwPeParse, if_pos isAbsent]
    exact ⟨s, rfl⟩
  · obtain ⟨value, tab', parsed, -⟩ := closed.returns qsort
      (tabOk_reset : TabOk (bwDwarfTabReset tab))
    exact ⟨_, bwPeParse_of_returned isAbsent (lineSections_placed v h) (reset ▸ parsed)⟩

/-- Headers that are not accepted end the load. -/
theorem bwPeLoad_refused (isModule : module ≠ 0) (hasPath : noPath (env.path module) = false)
    (mapped : env.mapFile module = some v) (refused : v.headers = none) (s : LoadState) :
    ∃ t, bwPeLoad env module s = .ok () t := by
  obtain ⟨s₁, ranReset⟩ : ∃ t, bwPeReset module s = .ok () t := ⟨_, rfl⟩
  obtain ⟨seen, ranHeaders, -⟩ := bwPeHeaders_run v s₁
  rw [refused, orBreak] at ranHeaders
  rw [bwPeLoad, bind_of_ok ranReset, if_neg (not_or.mpr ⟨isModule, by simp [hasPath]⟩), mapped]
  dsimp only
  rw [orLeave, bwPeFile, bind_of_error ranHeaders]
  exact ⟨_, rfl⟩

theorem ClosedModule.loads (closed : ClosedModule env module) : Loads env module := by
  intro isModule
  by_cases unnamed : noPath (env.path module) = true
  · exact loads_of_absent (Or.inl unnamed) isModule
  · have hasPath : noPath (env.path module) = false := Bool.eq_false_iff.mpr unnamed
    cases mapped : env.mapFile module with
    | none => exact loads_of_absent (Or.inr mapped) isModule
    | some v =>
        have file := closed v mapped
        cases found : v.headers with
        | none => exact bwPeLoad_refused isModule hasPath mapped found freshProcess
        | some h =>
            have headers : v.HasHeaders h := (hasHeaders_iff v).mpr found
            obtain ⟨t, tab, reset, -, rest⟩ := bwPeLoad_toParse isModule hasPath mapped file.small
              headers (file.named h headers) freshProcess
            obtain ⟨u, ranParse⟩ := bwPeParse_closed (file.lines h headers) env.qsort reset
            exact ⟨u, rest u ranParse⟩

end Loads

/-! ### Calls one after the other -/

section Calls

variable {σ : Type} {p : Process (Arch.bits .x86_64)}

/-- The instruction pointers of which a call makes frames. -/
def WinCall.ips : WinCall .x86_64 σ → List (Word .x86_64)
  | .backtrace capture ips _ _ =>
      (List.range (bwWinCapture capture ips bwWinMaxFrames).2).map
        (bwWinCapture capture ips bwWinMaxFrames).1
  | .process bw _ _ => bw.frames

theorem reportFrames_returns {ips : List (Word .x86_64)}
    (closed : ∀ ip ∈ ips, ClosedModule p.env (p.moduleAt ip.toNat)) (cb : Option (WinCallback σ))
    (caller : WinCaller σ) : ∃ answer, reportFrames p cb ips caller = .ok answer := by
  induction ips generalizing caller with
  | nil => exact ⟨_, rfl⟩
  | cons ip rest inductionHypothesis =>
      have later := inductionHypothesis fun other member =>
        closed other (List.mem_cons_of_mem _ member)
      obtain ⟨frame, t, ran⟩ := (closed ip List.mem_cons_self).loads.resolves bwWinFnameMax
        bwWinSnameMax bwWinSrcMax
      have first : freshFrame p ip = .ok frame := congrArg verdict ran
      rw [reportFrames, first]
      cases cb with
      | none => exact later caller
      | some call =>
          show ∃ answer, (if (call frame caller.state).1 then
            reportFrames p (some call) rest ⟨(call frame caller.state).2, caller.calls ++ [frame]⟩
              else pure (false, ⟨(call frame caller.state).2, caller.calls ++ [frame]⟩)) =
          .ok answer
          split_ifs
          · exact later _
          · exact ⟨_, rfl⟩

theorem report_returns {call : WinCall .x86_64 σ}
    (closed : ∀ ip ∈ call.ips, ClosedModule p.env (p.moduleAt ip.toNat)) :
    ∃ answer, WinCall.report p call = .ok answer := by
  cases call <;> exact reportFrames_returns closed _ _

/-- In a process whose modules with frames have such files, every call returns,
whatever calls there were before. -/
theorem winCalls_return (p : Process (Arch.bits .x86_64)) (calls : List (WinCall .x86_64 σ))
    (closed : ∀ call ∈ calls, ∀ ip ∈ call.ips, ClosedModule p.env (p.moduleAt ip.toNat)) :
    ∃ answers s, winCalls p calls freshProcess = .ok answers s ∧ answers.length = calls.length := by
  have all : ∃ answers, calls.mapM (WinCall.report p) = .ok answers ∧
      answers.length = calls.length := by
    induction calls with
    | nil => exact ⟨[], rfl, rfl⟩
    | cons call rest inductionHypothesis =>
        obtain ⟨answer, first⟩ := report_returns (closed call List.mem_cons_self)
        obtain ⟨answers, others, count⟩ := inductionHypothesis fun other member =>
          closed other (List.mem_cons_of_mem _ member)
        refine ⟨answer :: answers, ?_, by simp [count]⟩
        rw [List.mapM_cons, first, others]
        rfl
  obtain ⟨answers, reports, count⟩ := all
  have same := verdict_winCalls p (warm_freshProcess p.env) calls
  rw [reports] at same
  cases ended : winCalls p calls freshProcess with
  | error why s =>
      rw [ended] at same
      cases same
  | ok answers' s =>
      rw [ended] at same
      cases same
      exact ⟨_, s, rfl, count⟩

end Calls

/-! ### Calls side by side -/

section Threads

variable {Thread : Type} [DecidableEq Thread] {p : Process 64}

/-- The calls of such a process do not crash alone. -/
theorem outcome_returns {c : ResolveCall} (closed : ClosedModule p.env (p.moduleAt c.ip)) :
    ∃ result, c.outcome p = .ok result := by
  obtain ⟨result, t, ran⟩ := closed.loads.resolves c.fnameLen c.snameLen c.srcLen
  exact ⟨result, congrArg verdict ran⟩

theorem mem_of_callOf {schedule : List (WinAct Thread)} {t : Thread} {c : ResolveCall}
    (member : c ∈ schedule.filterMap (WinAct.callOf t)) : .call t c ∈ schedule := by
  obtain ⟨a, isAct, isCall⟩ := List.mem_filterMap.mp member
  cases a with
  | go u => cases isCall
  | call u c' =>
      dsimp only [WinAct.callOf] at isCall
      split_ifs at isCall with same
      cases isCall
      exact same ▸ isAct

theorem not_crashed {schedule : List (WinAct Thread)} {s : WinThreads Thread}
    (closed : ∀ t c, .call t c ∈ schedule → ClosedModule p.env (p.moduleAt c.ip))
    (ran : runSchedule (winStep p) schedule winStart = some s) : s.crashed = none := by
  cases isCrashed : s.crashed with
  | none => rfl
  | some why =>
      obtain ⟨t, c, current, fails⟩ := (winOk_run ran).crash why isCrashed
      have called : c ∈ schedule.filterMap (WinAct.callOf t) := by
        rw [accounted_run ran t, current]
        exact List.mem_append_right _ (List.mem_singleton_self c)
      obtain ⟨result, returns⟩ := outcome_returns (closed t c (mem_of_callOf called))
      rw [returns] at fails
      cases fails

variable [Fintype Thread]

/-- In a process whose modules with frames have such files, threads never crash in
any schedule; if nobody calls again, they take in all at most twelve times as many
steps as there are threads, and then every call has returned. -/
theorem winThreads_return (schedule : List (WinAct Thread))
    (closed : ∀ t c, .call t c ∈ schedule → ClosedModule p.env (p.moduleAt c.ip))
    (s : WinThreads Thread) (ran : runSchedule (winStep p) schedule winStart = some s)
    (later : List (WinAct Thread)) (inner : ∀ a ∈ later, a.Inner) (s' : WinThreads Thread)
    (ran' : runSchedule (winStep p) later s = some s') :
    s'.crashed = none ∧ later.length ≤ 12 * Fintype.card Thread ∧
      (Stuck (winStep p) WinAct.Inner s' →
        ∀ t, s'.answered t = schedule.filterMap (WinAct.callOf t)) := by
  have whole : runSchedule (winStep p) (schedule ++ later) winStart = some s' :=
    (runSchedule_append ran).trans ran'
  have running : s'.crashed = none := by
    refine not_crashed (fun t c member => ?_) whole
    rcases List.mem_append.mp member with before | behind
    · exact closed t c before
    · exact absurd (inner _ behind) id
  exact ⟨running, inner_short ran inner ran',
    fun stuck t => (all_returned ran inner ran' running stuck t).2⟩

end Threads

/-! ### A file with padding -/

/-- `lineFile` with a byte of padding behind its unit. -/
def paddedFile : List UInt8 :=
  lineFile.set 136 (UInt8.ofNat (shortUnit.bytes.length + 1)) ++ [0]

theorem paddedFile_headers {h : PeHeaders} (headers : (fileView paddedFile).HasHeaders h) :
    h = lineHeaders := by
  have found : (fileView paddedFile).headers = some lineHeaders := by decide +kernel
  have same := (hasHeaders_iff _).mp headers
  rw [found, Option.some_inj] at same
  exact same.symm

theorem paddedFile_fit : HeadersFit ((fileView paddedFile).lineImage lineHeaders) := by
  have bytes : ((fileView paddedFile).lineImage lineHeaders).lineBytes =
      shortUnit.bytes ++ [0] := by
    decide +kernel
  refine headersFit_of_one shortUnit.bytes.length ?_ ?_ ?_ ?_ <;> rw [bytes] <;> decide +kernel

theorem paddedFile_ended : NulEnded ((fileView paddedFile).lineImage lineHeaders) where
  last sec present _ := by
    cases sec with
    | line => decide +kernel
    | lineStr => exact absurd (by decide +kernel) present
    | debugStr => exact absurd (by decide +kernel) present

theorem paddedFile_closed : ClosedFile (fileView paddedFile) where
  small := by decide +kernel
  named := by
    intro h headers
    rw [paddedFile_headers headers]
    decide +kernel
  lines := by
    intro h headers
    rw [paddedFile_headers headers]
    exact ⟨paddedFile_ended, paddedFile_fit⟩

/-- Every module is that file. -/
def paddedProcess : Process 64 := { lineProcess with
  env := { lineEnv with mapFile := fun _ => some (fileView paddedFile) } }

theorem paddedProcess_closed (module : Nat) : ClosedModule paddedProcess.env module := by
  intro v mapped
  cases mapped
  exact paddedFile_closed

theorem paddedProcess_calls : ∃ answers s,
    @winCalls .x86_64 Nat paddedProcess [.backtrace callsInModule (fun _ => 0) counting 0,
      .process (bwBacktraceCollectWin callsInModule twoDeep).2 counting 7] freshProcess =
        .ok answers s ∧ answers.length = 2 :=
  winCalls_return paddedProcess _ fun _ _ _ _ => paddedProcess_closed _

/-- A thread asks for the frame of `f` while another has asked for one outside. -/
def askedTwice : List (WinAct Bool) := [.call false ⟨0x7ff600001005, 260, 512, 512⟩, .call true inG]

/-- The first thread goes on to its return, then the other. -/
def goingOn : List (WinAct Bool) := List.replicate 12 (.go false) ++ List.replicate 7 (.go true)

theorem goingOn_returns : ∃ s s', runSchedule (winStep paddedProcess) askedTwice winStart = some s ∧
    runSchedule (winStep paddedProcess) goingOn s = some s' ∧ s'.crashed = none ∧
      s'.answered false = [⟨0x7ff600001005, 260, 512, 512⟩] ∧ s'.answered true = [inG] := by
  have places : (runSchedule (winStep paddedProcess) (askedTwice ++ goingOn) winStart).map
      (fun s => (s.place false, s.place true)) = some (.idle, .idle) := by
    decide +kernel
  obtain ⟨s, ran⟩ : ∃ s, runSchedule (winStep paddedProcess) askedTwice winStart = some s :=
    ⟨_, rfl⟩
  rw [runSchedule_append ran] at places
  obtain ⟨s', ran', idle⟩ := Option.map_eq_some_iff.mp places
  have inner : ∀ a ∈ goingOn, a.Inner := by
    intro a member
    rcases List.mem_append.mp member with first | second
    · rw [List.eq_of_mem_replicate first]
      exact trivial
    · rw [List.eq_of_mem_replicate second]
      exact trivial
  obtain ⟨running, -, returned⟩ := winThreads_return askedTwice
    (fun _ _ _ => paddedProcess_closed _) s ran goingOn inner s' ran'
  have all := returned (stuck_of_idle (Bool.forall_bool.mpr (Prod.mk.inj idle)))
  exact ⟨s, s', ran, ran', running, all false, all true⟩

end Backwalk.Windows
