import Backwalk.Support.Schedules
import Backwalk.Windows.Frames

/-!
Contract: `bw_win_resolve` called by any number of threads, in any order of
their steps.

Owns the steps of a thread through the function, with the two globals that
synchronise it: `bw_sym_once`, under which `bw_sym_init` runs, and `bw_sym_cs`,
which guards DbgHelp and the symbol cache. Owns what holds over every schedule:
who is inside, what a call returns, and that all calls come to an end.

Does not own Windows: `InitOnceExecuteOnce` lets one thread run the callback and
makes the others wait for it; a critical section has one owner; what DbgHelp and
the module functions say does not change. Where a step crashes, the process is
gone.
-/

namespace Backwalk.Windows

open Backwalk.Support

/-- The arguments of a call of `bw_win_resolve`. -/
structure ResolveCall where
  ip : Nat
  fnameLen : Nat
  snameLen : Nat
  srcLen : Nat
deriving DecidableEq, Repr

/-- A call whose module is known. -/
structure Located where
  call : ResolveCall
  module : Nat
  modAddr : Nat
  fname : List UInt8
deriving DecidableEq, Repr

/-- Where a thread is: outside, or before a step of `bw_win_resolve`. From
`dbgHelp` on it is in the critical section. -/
inductive WinPlace where
  | idle
  | once (call : ResolveCall)
  | initCs (call : ResolveCall)
  | initSym (call : ResolveCall)
  | initEnd (call : ResolveCall)
  | module (call : ResolveCall)
  | enter (f : Located)
  | dbgHelp (f : Located)
  | name (f : Located) (name : Option (List UInt8)) (line : Option SourceLine)
  | search (f : Located) (line : Option SourceLine)
  | line (f : Located) (sname : List UInt8) (line : Option SourceLine)
  | lookup (f : Located) (sname : List UInt8)
  | leave (f : Located) (result : Resolved)
deriving DecidableEq, Repr

namespace WinPlace

/-- The places inside the critical section. -/
def inside : WinPlace → Bool
  | .dbgHelp _ | .name _ _ _ | .search _ _ | .line _ _ _ | .lookup _ _ | .leave _ _ => true
  | _ => false

/-- The call that a thread is in. -/
def call? : WinPlace → Option ResolveCall
  | .idle => none
  | .once c | .initCs c | .initSym c | .initEnd c | .module c => some c
  | .enter f | .dbgHelp f | .name f _ _ | .search f _ | .line f _ _ | .lookup f _
  | .leave f _ => some f.call

/-- The places inside `bw_sym_init`. -/
def inits : WinPlace → Bool
  | .initCs _ | .initSym _ | .initEnd _ => true
  | _ => false

/-- The places behind `InitOnceExecuteOnce`. -/
def behind : WinPlace → Bool
  | .idle | .once _ | .initCs _ | .initSym _ | .initEnd _ => false
  | _ => true

end WinPlace

/-- A call that has returned, and what it has left in the caller's variables. -/
structure Returned (Thread : Type) where
  thread : Thread
  call : ResolveCall
  result : Resolved
deriving DecidableEq, Repr

/-- The threads and the globals they share. `csInits` counts the calls of
`InitializeCriticalSection`. -/
structure WinThreads (Thread : Type) where
  once : Once Thread
  csInits : Nat
  owner : Option Thread
  symOk : Bool
  load : LoadState
  crashed : Option Halt
  returned : List (Returned Thread)
  place : Thread → WinPlace

inductive WinAct (Thread : Type) where
  | call (t : Thread) (call : ResolveCall)
  | go (t : Thread)

section Steps

variable {Thread : Type} [DecidableEq Thread] {bits : Nat} (p : Process bits)

/-- A process whose threads have not called yet. -/
def winStart : WinThreads Thread where
  once := .fresh
  csInits := 0
  owner := none
  symOk := false
  load := freshProcess
  crashed := none
  returned := []
  place := fun _ => .idle

/-- What is left of a call with a zero address. -/
def ResolveCall.nowhere (c : ResolveCall) : Resolved :=
  ⟨0, bwCopyCstr c.fnameLen unknownName, bwCopyCstr c.snameLen unknownName,
    bwCopyCstr c.srcLen unknownName, 0⟩

/-- The module of the address, with its file name. -/
def Process.locate (c : ResolveCall) : Located :=
  let module := p.moduleAt c.ip
  { call := c
    module := module
    modAddr := if module = 0 then 0 else sizeT bits (c.ip + 2 ^ bits - module)
    fname := match if module = 0 then none else p.env.path module with
      | some (c' :: path) => bwCopyCstr c.fnameLen (c' :: path)
      | _ => bwCopyCstr c.fnameLen unknownName }

/-- The answer of `SymFromAddr`, asked for `ip` and then for `probe`, if it is a
name. -/
def Process.askName (symOk : Bool) (ip : Nat) : Option (List UInt8) :=
  (if symOk then (p.symFromAddr ip).or (p.symFromAddr (ip - 1)) else none).filter (· ≠ [])

/-- The answer of `SymGetLineFromAddr64`, asked for `probe` and then for `ip`, if
it has a file. -/
def Process.askLine (symOk : Bool) (ip : Nat) : Option SourceLine :=
  (if symOk then
    (p.symGetLineFromAddr64 (ip - 1)).or (p.symGetLineFromAddr64 ip) else none).filter fun line =>
      line.fileName ≠ none ∧ line.fileName ≠ some []

namespace Located

variable (f : Located)

/-- `sname` from what `bw_pe_find` gave. -/
def coffName (found : Option (List UInt8)) : List UInt8 :=
  match found with
  | some name => bwCopyCstr f.call.snameLen (p.coffName name)
  | none => bwCopyCstr f.call.snameLen unknownName

/-- `src` and `line` from DbgHelp. -/
def knownLine (line : SourceLine) : List UInt8 × Nat :=
  (bwCopyCstr f.call.srcLen (line.fileName.getD []), line.lineNumber)

/-- `src` and `line` from what `bw_pe_line` gave. -/
def tableLine (found : Option (List UInt8 × Nat)) : List UInt8 × Nat :=
  found.getD (bwCopyCstr f.call.srcLen unknownName, 0)

def resolved (sname : List UInt8) (found : List UInt8 × Nat) : Resolved :=
  ⟨f.modAddr, f.fname, sname, found.1, found.2⟩

end Located

namespace WinThreads

variable (s : WinThreads Thread) (t : Thread)

def goes (place : WinPlace) : WinThreads Thread :=
  { s with place := Function.update s.place t place }

/-- A call of the thread comes to its end. -/
def answers (call : ResolveCall) (result : Resolved) : WinThreads Thread :=
  { s with returned := s.returned ++ [⟨t, call, result⟩] }

/-- The load before a query of the cache; `bw_pe_find` and `bw_pe_line` do nothing
with a null module. -/
def ensures (env : Env bits) (module : Nat) (without behind : WinPlace) : WinThreads Thread :=
  if module = 0 then s.goes t without
  else
    match bwPeEnsure env module s.load with
    | .ok _ load => { s with load := load }.goes t behind
    | .error why load => { s with load := load, crashed := some why }

end WinThreads

/-- The next step of a thread. -/
def winGo (t : Thread) (s : WinThreads Thread) : Option (WinThreads Thread) :=
  match s.place t with
  | .idle => none
  | .once c =>
      match s.once with
      | .fresh => some ({ s with once := .running t }.goes t (.initCs c))
      | .running _ => none
      | .done => some (s.goes t (.module c))
  | .initCs c => some ({ s with csInits := s.csInits + 1 }.goes t (.initSym c))
  | .initSym c => some ({ s with symOk := p.symOk }.goes t (.initEnd c))
  | .initEnd c => some ({ s with once := .done }.goes t (.module c))
  | .module c => some (s.goes t (.enter (p.locate c)))
  | .enter f =>
      if s.owner = none then some ({ s with owner := some t }.goes t (.dbgHelp f)) else none
  | .dbgHelp f =>
      some (s.goes t (.name f (p.askName s.symOk f.call.ip) (p.askLine s.symOk f.call.ip)))
  | .name f (some name) line => some (s.goes t (.line f (bwCopyCstr f.call.snameLen name) line))
  | .name f none line =>
      some (s.ensures t p.env f.module (.line f (f.coffName p none) line) (.search f line))
  | .search f line =>
      some (s.goes t (.line f (f.coffName p (s.load.globals.find (f.call.ip - 1))) line))
  | .line f sname (some line) =>
      some (s.goes t (.leave f (f.resolved sname (f.knownLine line))))
  | .line f sname none =>
      some (s.ensures t p.env f.module (.leave f (f.resolved sname (f.tableLine none)))
        (.lookup f sname))
  | .lookup f sname =>
      some (s.goes t (.leave f (f.resolved sname (f.tableLine
        (s.load.globals.line bits f.module (f.call.ip - 1) f.call.srcLen)))))
  | .leave f result =>
      some ({ s.answers t f.call result with owner := none }.goes t .idle)

/-- One step of the process, unless it has crashed. -/
def winStep (a : WinAct Thread) (s : WinThreads Thread) : Option (WinThreads Thread) :=
  if s.crashed ≠ none then none
  else
    match a with
    | .call t c =>
        if s.place t ≠ .idle then none
        else if c.ip = 0 then some (s.answers t c c.nowhere)
        else some (s.goes t (.once c))
    | .go t => winGo p t s

end Steps

/-! ### What is left of a call -/

section Rest

variable {bits : Nat} (p : Process bits)

/-- The call on its own. -/
def ResolveCall.alone (c : ResolveCall) : Loader Resolved :=
  bwWinResolve p c.ip c.fnameLen c.snameLen c.srcLen

/-- What the call comes to as the first of its process. -/
def ResolveCall.outcome (c : ResolveCall) : Except Halt Resolved := verdict (c.alone p freshProcess)

/-- The rest of `bw_pe_find` and of the name. -/
def Located.nameRest (f : Located) : Option (List UInt8) → Loader (List UInt8)
  | some name => pure (bwCopyCstr f.call.snameLen name)
  | none => do
      let found ← bwPeFind p.env f.module (f.call.ip - 1)
      pure (f.coffName p found)

/-- The rest of `bw_pe_line` and of the line. -/
def Located.lineRest (f : Located) : Option SourceLine → Loader (List UInt8 × Nat)
  | some line => pure (f.knownLine line)
  | none => do
      let found ← bwPeLine p.env f.module (f.call.ip - 1) f.call.srcLen
      pure (f.tableLine found)

/-- What a thread inside the critical section still does for its call. -/
def WinPlace.rest : WinPlace → Option (Loader Resolved)
  | .dbgHelp f => some do
      let sname ← bwWinName p f.module f.call.ip (f.call.ip - 1) f.call.snameLen
      let found ← bwWinLine p f.module f.call.ip (f.call.ip - 1) f.call.srcLen
      pure (f.resolved sname found)
  | .name f known source => some do
      let sname ← f.nameRest p known
      let found ← f.lineRest p source
      pure (f.resolved sname found)
  | .search f source => some do
      let g ← getGlobals
      let found ← f.lineRest p source
      pure (f.resolved (f.coffName p (g.find (f.call.ip - 1))) found)
  | .line f sname source => some do
      let found ← f.lineRest p source
      pure (f.resolved sname found)
  | .lookup f sname => some do
      let g ← getGlobals
      pure (f.resolved sname
        (f.tableLine (g.line bits f.module (f.call.ip - 1) f.call.srcLen)))
  | .leave _ result => some (pure result)
  | _ => none

theorem bwPeFind_eq (env : Env bits) (module ip : Nat) :
    bwPeFind env module ip =
      if module = 0 then pure none
      else (do
        bwPeEnsure env module
        let g ← getGlobals
        pure (g.find ip)) := by
  rw [bwPeFind]
  by_cases isNull : module = 0
  · rw [if_pos isNull, if_pos isNull]
  · rw [if_neg isNull, if_neg isNull]
    apply bind_congr
    intro _
    apply bind_congr
    intro g
    rw [Globals.find]
    split_ifs <;> rfl

theorem bwPeLine_eq (env : Env bits) (module probe srcLen : Nat) :
    bwPeLine env module probe srcLen =
      if module = 0 then pure none
      else (do
        bwPeEnsure env module
        let g ← getGlobals
        pure (g.line bits module probe srcLen)) := by
  rw [bwPeLine]
  by_cases isNull : module = 0
  · rw [if_pos isNull, if_pos isNull]
  · rw [if_neg isNull, if_neg isNull]
    apply bind_congr
    intro _
    apply bind_congr
    intro g
    rw [Globals.line]
    cases g.dwarfReady <;> rfl

variable {p} {s : LoadState}

/-- The call enters the critical section as it would be made alone. -/
theorem rest_dbgHelp {c : ResolveCall} (frame : c.ip ≠ 0) :
    (WinPlace.dbgHelp (p.locate c)).rest p = some (c.alone p) := by
  rw [ResolveCall.alone, bwWinResolve, if_neg frame]
  rfl

theorem rest_asked (f : Located) :
    (WinPlace.dbgHelp f).rest p =
      (WinPlace.name f (p.askName p.symOk f.call.ip) (p.askLine p.symOk f.call.ip)).rest p := by
  have name : bwWinName p f.module f.call.ip (f.call.ip - 1) f.call.snameLen =
      f.nameRest p (p.askName p.symOk f.call.ip) := by
    unfold bwWinName
    dsimp only
    rw [← Process.askName]
    cases p.askName p.symOk f.call.ip with
    | some known => rfl
    | none =>
        apply bind_congr
        intro found
        cases found <;> rfl
  have line : bwWinLine p f.module f.call.ip (f.call.ip - 1) f.call.srcLen =
      f.lineRest p (p.askLine p.symOk f.call.ip) := by
    unfold bwWinLine
    dsimp only
    rw [← Process.askLine]
    cases p.askLine p.symOk f.call.ip <;> rfl
  rw [WinPlace.rest, WinPlace.rest, name, line]

end Rest

/-! ### What every step keeps -/

section Invariant

variable {Thread : Type} [DecidableEq Thread] {bits : Nat} (p : Process bits)

/-- How far the initialisation has come when a thread is at a place. -/
def WinPlace.Stage (once : Once Thread) (csInits : Nat) (symOk : Bool) : WinPlace → Prop
  | .idle | .once _ => True
  | .initCs _ => csInits = 0
  | .initSym _ => csInits = 1
  | .initEnd _ => csInits = 1 ∧ symOk = p.symOk
  | _ => once = .done

/-- What a thread knows of its call before it enters the critical section. -/
def WinPlace.Known : WinPlace → Prop
  | .once c | .initCs c | .initSym c | .initEnd c | .module c => c.ip ≠ 0
  | .enter f => f = p.locate f.call ∧ f.call.ip ≠ 0
  | _ => True

/-- A thread inside will end its call as if it were alone. -/
def WinPlace.Right (load : LoadState) (place : WinPlace) : Prop :=
  ∀ m c, place.rest p = some m → place.call? = some c → verdict (m load) = c.outcome p

/-- The globals, what each thread is about to do, and what has come of the calls. -/
structure WinOk (s : WinThreads Thread) : Prop where
  warm : s.crashed = none → Warm p.env s.load
  fresh : s.once = .fresh → s.csInits = 0
  done : s.once = .done → s.csInits = 1 ∧ s.symOk = p.symOk
  inits : Guards WinPlace.inits s.once.runner s.place
  inside : Guards WinPlace.inside s.owner s.place
  stage : ∀ t, (s.place t).Stage p s.once s.csInits s.symOk
  known : ∀ t, (s.place t).Known p
  right : s.crashed = none → ∀ t, (s.place t).Right p s.load
  answers : ∀ r ∈ s.returned, r.call.outcome p = .ok r.result
  crash : ∀ why, s.crashed = some why →
    ∃ t c, (s.place t).call? = some c ∧ c.outcome p = .error why

variable {p} {s s' : WinThreads Thread} {t : Thread} {place : WinPlace}

theorem right_outside {load : LoadState} (outside : place.inside = false) : place.Right p load := by
  intro m c isRest
  cases place with
  | dbgHelp | name | search | line | lookup | leave => cases outside
  | _ => cases isRest

theorem inits_inside (inside : place.inside = true) : place.inits = false := by
  cases place with
  | initCs | initSym | initEnd => cases inside
  | _ => rfl

theorem behind_inside (inside : place.inside = true) : place.behind = true := by
  cases place with
  | idle | once | initCs | initSym | initEnd => cases inside
  | _ => rfl

theorem known_inside (inside : place.inside = true) : place.Known p := by
  cases place with
  | idle | once | initCs | initSym | initEnd | module | enter => cases inside
  | _ => exact trivial

omit [DecidableEq Thread] in
theorem stage_behind {once : Once Thread} {csInits : Nat} {symOk : Bool}
    (isBehind : place.behind = true) (done : once = .done) : place.Stage p once csInits symOk := by
  cases place with
  | idle | once | initCs | initSym | initEnd => cases isBehind
  | _ => exact done

omit [DecidableEq Thread] in
theorem WinOk.behind_done (ok : WinOk p s) (isBehind : (s.place t).behind = true) :
    s.once = .done := by
  have stage := ok.stage t
  generalize s.place t = place at isBehind stage
  cases place with
  | idle | once | initCs | initSym | initEnd => cases isBehind
  | _ => exact stage

/-- A thread goes on without touching the globals. -/
theorem WinOk.goes (ok : WinOk p s) (running : s.crashed = none)
    (inits : place.inits = (s.place t).inits) (inside : place.inside = (s.place t).inside)
    (stage : place.Stage p s.once s.csInits s.symOk) (known : place.Known p)
    (right : place.Right p s.load) : WinOk p (s.goes t place) where
  warm := ok.warm
  fresh := ok.fresh
  done := ok.done
  inits := ok.inits.move inits
  inside := ok.inside.move inside
  stage := (Function.forall_update_iff s.place fun _ place =>
    place.Stage p s.once s.csInits s.symOk).mpr ⟨stage, fun u _ => ok.stage u⟩
  known := (Function.forall_update_iff s.place fun _ place => place.Known p).mpr
    ⟨known, fun u _ => ok.known u⟩
  right := fun running => (Function.forall_update_iff s.place fun _ place =>
    place.Right p s.load).mpr ⟨right, fun u _ => ok.right running u⟩
  answers := ok.answers
  crash := fun _ crashed => absurd (running.symm.trans crashed) (by simp)

/-- A step of the initialisation. While it is not done, all other threads are in
front of it. -/
theorem WinOk.initialises (ok : WinOk p s) (running : s.crashed = none) {once : Once Thread}
    {csInits : Nat} {symOk : Bool} (notDone : s.once ≠ .done)
    (others : ∀ u, u ≠ t → (s.place u).inits = false) (fresh : once = .fresh → csInits = 0)
    (done : once = .done → csInits = 1 ∧ symOk = p.symOk)
    (inits : Guards WinPlace.inits once.runner (Function.update s.place t place))
    (outside : place.inside = false) (wasOutside : (s.place t).inside = false)
    (stage : place.Stage p once csInits symOk) (known : place.Known p) :
    WinOk p ({ s with once := once, csInits := csInits, symOk := symOk }.goes t place) where
  warm := ok.warm
  fresh := fresh
  done := done
  inits := inits
  inside := ok.inside.move (outside.trans wasOutside.symm)
  stage := by
    apply (Function.forall_update_iff s.place fun _ place =>
      place.Stage p once csInits symOk).mpr
    refine ⟨stage, fun u other => ?_⟩
    have front : (s.place u).behind = false := by
      by_contra isBehind
      exact notDone (ok.behind_done (by simpa using isBehind))
    have notInits := others u other
    generalize s.place u = there at front notInits
    cases there with
    | idle | once => exact trivial
    | initCs | initSym | initEnd => cases notInits
    | _ => cases front
  known := (Function.forall_update_iff s.place fun _ place => place.Known p).mpr
    ⟨known, fun u _ => ok.known u⟩
  right := fun running => (Function.forall_update_iff s.place fun _ place =>
    place.Right p s.load).mpr ⟨right_outside outside, fun u _ => ok.right running u⟩
  answers := ok.answers
  crash := fun _ crashed => absurd (running.symm.trans crashed) (by simp)

omit [DecidableEq Thread] in
/-- The thread that runs `bw_sym_init` is the only one there, and nobody is behind. -/
theorem WinOk.runs (ok : WinOk p s) (isInits : (s.place t).inits = true) :
    s.once = .running t ∧ ∀ u, u ≠ t → (s.place u).inits = false := by
  constructor
  · have runner := (ok.inits t).mp isInits
    cases isOnce : s.once with
    | running u =>
        rw [isOnce] at runner
        exact congrArg Once.running (Option.some_inj.mp runner)
    | fresh | done =>
        rw [isOnce] at runner
        cases runner
  · intro u other
    by_contra alsoInits
    exact other (ok.inits.unique (by simpa using alsoInits) isInits)

/-- The thread inside the critical section changes the cache. -/
theorem WinOk.loads (ok : WinOk p s) (running : s.crashed = none) {load : LoadState}
    (warm : Warm p.env load) (wasInside : (s.place t).inside = true)
    (inside : place.inside = true) (right : place.Right p load) :
    WinOk p ({ s with load := load }.goes t place) where
  warm := fun _ => warm
  fresh := ok.fresh
  done := ok.done
  inits := ok.inits.move ((inits_inside inside).trans (inits_inside wasInside).symm)
  inside := ok.inside.move (inside.trans wasInside.symm)
  stage := (Function.forall_update_iff s.place fun _ place =>
    place.Stage p s.once s.csInits s.symOk).mpr
      ⟨stage_behind (behind_inside inside) (ok.behind_done (behind_inside wasInside)),
        fun u _ => ok.stage u⟩
  known := (Function.forall_update_iff s.place fun _ place => place.Known p).mpr
    ⟨known_inside inside, fun u _ => ok.known u⟩
  right := by
    intro _
    apply (Function.forall_update_iff s.place fun _ place => place.Right p load).mpr
    refine ⟨right, fun u other => right_outside ?_⟩
    by_contra isInside
    exact other (ok.inside.unique (by simpa using isInside) wasInside)
  answers := ok.answers
  crash := fun _ crashed => absurd (running.symm.trans crashed) (by simp)

omit [DecidableEq Thread] in
/-- The thread inside ends the process, as its call would alone. -/
theorem WinOk.crashes (ok : WinOk p s) {load : LoadState} {why : Halt} {c : ResolveCall}
    (isCall : (s.place t).call? = some c) (ends : c.outcome p = .error why) :
    WinOk p { s with load := load, crashed := some why } where
  warm := fun running => nomatch running
  fresh := ok.fresh
  done := ok.done
  inits := ok.inits
  inside := ok.inside
  stage := ok.stage
  known := ok.known
  right := fun running => nomatch running
  answers := ok.answers
  crash := by
    intro why' crashed
    cases crashed
    exact ⟨t, c, isCall, ends⟩

omit [DecidableEq Thread] in
/-- A call with a zero address returns at once. -/
theorem WinOk.refuses (ok : WinOk p s) {c : ResolveCall} (nowhere : c.ip = 0) :
    WinOk p (s.answers t c c.nowhere) where
  warm := ok.warm
  fresh := ok.fresh
  done := ok.done
  inits := ok.inits
  inside := ok.inside
  stage := ok.stage
  known := ok.known
  right := ok.right
  answers := by
    intro r member
    rcases List.mem_append.mp member with earlier | last
    · exact ok.answers r earlier
    · rw [List.mem_singleton] at last
      rw [last, ResolveCall.outcome, ResolveCall.alone, bwWinResolve, if_pos nowhere]
      rfl
  crash := ok.crash

/-- A thread takes the critical section, with its whole call before it. -/
theorem WinOk.enters (ok : WinOk p s) (running : s.crashed = none) {f : Located}
    (here : s.place t = .enter f) (free : s.owner = none) :
    WinOk p ({ s with owner := some t }.goes t (.dbgHelp f)) where
  warm := ok.warm
  fresh := ok.fresh
  done := ok.done
  inits := ok.inits.move (by rw [here]; rfl)
  inside := by
    have guards := ok.inside
    rw [free] at guards
    exact guards.acquire rfl
  stage := (Function.forall_update_iff s.place fun _ place =>
    place.Stage p s.once s.csInits s.symOk).mpr
      ⟨ok.behind_done (t := t) (by rw [here]; rfl), fun u _ => ok.stage u⟩
  known := (Function.forall_update_iff s.place fun _ place => place.Known p).mpr
    ⟨trivial, fun u _ => ok.known u⟩
  right := by
    intro running
    apply (Function.forall_update_iff s.place fun _ place => place.Right p s.load).mpr
    refine ⟨?_, fun u _ => ok.right running u⟩
    intro m c isRest isCall
    have known := ok.known t
    rw [here] at known
    obtain ⟨located, frame⟩ := known
    rw [located, rest_dbgHelp frame] at isRest
    cases isRest
    cases isCall
    exact (transparent_bwWinResolve p _ _ _ _).same s.load freshProcess (ok.warm running)
      (warm_freshProcess p.env)
  answers := ok.answers
  crash := fun _ crashed => absurd (running.symm.trans crashed) (by simp)

/-- A call returns what it would alone. -/
theorem WinOk.leaves (ok : WinOk p s) (running : s.crashed = none) {f : Located}
    {result : Resolved} (here : s.place t = .leave f result) :
    WinOk p ({ s.answers t f.call result with owner := none }.goes t .idle) where
  warm := ok.warm
  fresh := ok.fresh
  done := ok.done
  inits := ok.inits.move (by rw [here]; rfl)
  inside := by
    have guards := ok.inside
    rw [(guards t).mp (by rw [here]; rfl)] at guards
    exact guards.release rfl
  stage := (Function.forall_update_iff s.place fun _ place =>
    place.Stage p s.once s.csInits s.symOk).mpr ⟨trivial, fun u _ => ok.stage u⟩
  known := (Function.forall_update_iff s.place fun _ place => place.Known p).mpr
    ⟨trivial, fun u _ => ok.known u⟩
  right := fun running => (Function.forall_update_iff s.place fun _ place =>
    place.Right p s.load).mpr ⟨right_outside rfl, fun u _ => ok.right running u⟩
  answers := by
    intro r member
    rcases List.mem_append.mp member with earlier | last
    · exact ok.answers r earlier
    · rw [List.mem_singleton] at last
      rw [last]
      have right := ok.right running t
      rw [here] at right
      exact (right _ _ rfl rfl).symm
  crash := fun _ crashed => absurd (running.symm.trans crashed) (by simp)

/-! ### The steps inside -/

/-- What is left of the call behind a step comes to what was left before it. -/
theorem WinPlace.Right.next {place' : WinPlace} {load load' : LoadState}
    (right : place.Right p load) (sameCall : place'.call? = place.call?)
    (goesOn : ∀ m', place'.rest p = some m' →
      ∃ m, place.rest p = some m ∧ verdict (m' load') = verdict (m load)) :
    place'.Right p load' := by
  intro m' c isRest isCall
  obtain ⟨m, wasRest, same⟩ := goesOn m' isRest
  rw [same]
  exact right m c wasRest (sameCall.symm.trans isCall)

/-- The thread asks for the module of its call to be loaded. -/
theorem WinOk.ensures (ok : WinOk p s) (running : s.crashed = none) {module : Nat}
    {without behind : WinPlace} {m : Loader Resolved} {c : ResolveCall}
    (wasRest : (s.place t).rest p = some m) (wasCall : (s.place t).call? = some c)
    (wasInside : (s.place t).inside = true)
    (insides : without.inside = true ∧ behind.inside = true)
    (calls : without.call? = some c ∧ behind.call? = some c)
    (null : module = 0 → without.rest p = some m)
    (loads : module ≠ 0 → ∃ m', behind.rest p = some m' ∧
      m = bwPeEnsure p.env module >>= fun _ => m') :
    WinOk p (s.ensures t p.env module without behind) := by
  have right := ok.right running t
  have alone : verdict (m s.load) = c.outcome p := right m c wasRest wasCall
  rw [WinThreads.ensures]
  by_cases isNull : module = 0
  · rw [if_pos isNull]
    apply ok.loads running (ok.warm running) wasInside insides.1
    apply right.next (calls.1.trans wasCall.symm)
    intro m' isRest
    exact ⟨m', wasRest.trans ((null isNull).symm.trans isRest), rfl⟩
  · rw [if_neg isNull]
    obtain ⟨m', behindRest, isBind⟩ := loads isNull
    cases ended : bwPeEnsure p.env module s.load with
    | ok _ load =>
        apply ok.loads running (bwPeEnsure_warm (ok.warm running) ended) wasInside insides.2
        apply right.next (calls.2.trans wasCall.symm)
        intro m'' isRest
        rw [behindRest] at isRest
        cases isRest
        refine ⟨m, wasRest, ?_⟩
        rw [isBind, bind_of_ok ended]
    | error why load =>
        apply ok.crashes wasCall
        rw [← alone, isBind, bind_of_error ended]
        rfl

theorem WinOk.go (ok : WinOk p s) (running : s.crashed = none) (taken : winGo p t s = some s') :
    WinOk p s' := by
  have stage := ok.stage t
  have known := ok.known t
  have right := ok.right running t
  unfold winGo at taken
  cases here : s.place t with
  | idle =>
      rw [here] at taken
      cases taken
  | once c =>
      rw [here] at taken known
      cases isOnce : s.once with
      | fresh =>
          simp only [isOnce, Option.some_inj] at taken
          rw [← taken]
          have guards := ok.inits
          rw [isOnce] at guards
          have others : ∀ u, u ≠ t → (s.place u).inits = false := by
            intro u _
            simpa [Once.runner] using guards u
          exact ok.initialises running (by simp [isOnce]) others (by simp) (by simp)
            (guards.acquire rfl) rfl (by rw [here]; rfl) (ok.fresh isOnce) known
      | running u =>
          simp only [isOnce] at taken
          cases taken
      | done =>
          simp only [isOnce, Option.some_inj] at taken
          rw [← taken]
          exact ok.goes running (by rw [here]; rfl) (by rw [here]; rfl) isOnce known
            (right_outside rfl)
  | initCs c =>
      rw [here] at taken stage known
      cases taken
      obtain ⟨isRunning, others⟩ := ok.runs (t := t) (by rw [here]; rfl)
      exact ok.initialises running (by simp [isRunning]) others (by simp [isRunning])
        (by simp [isRunning]) (ok.inits.move (by rw [here]; rfl)) rfl (by rw [here]; rfl)
        (congrArg (· + 1) stage) known
  | initSym c =>
      rw [here] at taken stage known
      cases taken
      obtain ⟨isRunning, others⟩ := ok.runs (t := t) (by rw [here]; rfl)
      exact ok.initialises running (by simp [isRunning]) others (by simp [isRunning])
        (by simp [isRunning]) (ok.inits.move (by rw [here]; rfl)) rfl (by rw [here]; rfl)
        ⟨stage, rfl⟩ known
  | initEnd c =>
      rw [here] at taken stage known
      cases taken
      obtain ⟨isRunning, others⟩ := ok.runs (t := t) (by rw [here]; rfl)
      have guards := ok.inits
      rw [isRunning] at guards
      exact ok.initialises running (by simp [isRunning]) others (by simp) (fun _ => stage)
        (guards.release rfl) rfl (by rw [here]; rfl) rfl known
  | module c =>
      rw [here] at taken stage known
      cases taken
      exact ok.goes running (by rw [here]; rfl) (by rw [here]; rfl) stage ⟨rfl, known⟩
        (right_outside rfl)
  | enter f =>
      rw [here] at taken stage known
      simp only [Option.ite_none_right_eq_some, Option.some_inj] at taken
      obtain ⟨free, rfl⟩ := taken
      exact ok.enters running here free
  | dbgHelp f =>
      rw [here] at taken stage right
      cases taken
      refine ok.goes running (by rw [here]; rfl) (by rw [here]; rfl) stage trivial ?_
      rw [(ok.done stage).2]
      refine right.next rfl ?_
      intro m isRest
      exact ⟨m, (rest_asked f).trans isRest, rfl⟩
  | name f known source =>
      rw [here] at taken stage right
      cases known with
      | some known =>
          cases taken
          refine ok.goes running (by rw [here]; rfl) (by rw [here]; rfl) stage trivial ?_
          exact right.next rfl fun m isRest => ⟨m, isRest, rfl⟩
      | none =>
          cases taken
          apply ok.ensures running (by rw [here]; rfl) (by rw [here]; rfl) (by rw [here]; rfl)
            ⟨rfl, rfl⟩ ⟨rfl, rfl⟩
          · intro isNull
            simp [WinPlace.rest, Located.nameRest, bwPeFind_eq, isNull]
          · intro isModule
            refine ⟨_, rfl, ?_⟩
            simp [Located.nameRest, bwPeFind_eq, isModule]
  | search f source =>
      rw [here] at taken stage right
      cases taken
      refine ok.goes running (by rw [here]; rfl) (by rw [here]; rfl) stage trivial ?_
      refine right.next rfl ?_
      intro m isRest
      cases isRest
      exact ⟨_, rfl, rfl⟩
  | line f sname source =>
      rw [here] at taken stage right
      cases source with
      | some source =>
          cases taken
          refine ok.goes running (by rw [here]; rfl) (by rw [here]; rfl) stage trivial ?_
          exact right.next rfl fun m isRest => ⟨m, isRest, rfl⟩
      | none =>
          cases taken
          apply ok.ensures running (by rw [here]; rfl) (by rw [here]; rfl) (by rw [here]; rfl)
            ⟨rfl, rfl⟩ ⟨rfl, rfl⟩
          · intro isNull
            simp [WinPlace.rest, Located.lineRest, bwPeLine_eq, isNull]
          · intro isModule
            refine ⟨_, rfl, ?_⟩
            simp [Located.lineRest, bwPeLine_eq, isModule]
  | lookup f sname =>
      rw [here] at taken stage right
      cases taken
      refine ok.goes running (by rw [here]; rfl) (by rw [here]; rfl) stage trivial ?_
      refine right.next rfl ?_
      intro m isRest
      cases isRest
      exact ⟨_, rfl, rfl⟩
  | leave f result =>
      rw [here] at taken
      cases taken
      exact ok.leaves running here

theorem WinOk.step {a : WinAct Thread} (ok : WinOk p s) (taken : winStep p a s = some s') :
    WinOk p s' := by
  unfold winStep at taken
  split_ifs at taken with crashed
  have running : s.crashed = none := not_not.mp crashed
  cases a with
  | call t c =>
      dsimp only at taken
      split_ifs at taken with busy nowhere
      · cases taken
        exact ok.refuses nowhere
      · cases taken
        have idle : s.place t = .idle := not_not.mp busy
        exact ok.goes running (by rw [idle]; rfl) (by rw [idle]; rfl) trivial nowhere
          (right_outside rfl)
  | go t => exact ok.go running taken

omit [DecidableEq Thread] in
theorem winOk_start : WinOk p (winStart : WinThreads Thread) where
  warm := fun _ => warm_freshProcess p.env
  fresh := fun _ => rfl
  done := fun done => nomatch done
  inits := fun t => by simp [winStart, Once.runner, WinPlace.inits]
  inside := fun t => by simp [winStart, WinPlace.inside]
  stage := fun _ => trivial
  known := fun _ => trivial
  right := fun _ _ => right_outside rfl
  answers := fun _ member => nomatch member
  crash := fun _ crashed => nomatch crashed

theorem winOk_run {schedule : List (WinAct Thread)}
    (ran : runSchedule (winStep p) schedule winStart = some s) : WinOk p s :=
  run_invariant (fun _ _ _ ok taken => ok.step taken) winOk_start ran

end Invariant

/-! ### Calls and returns -/

section Moves

variable {Thread : Type} [DecidableEq Thread] {bits : Nat} {p : Process bits}
  {s s' : WinThreads Thread} {t : Thread}

/-- How many steps a thread is from its return, at most. -/
def WinPlace.stepsLeft : WinPlace → Nat
  | .idle => 0
  | .leave _ _ => 1
  | .lookup _ _ => 2
  | .line _ _ _ => 3
  | .search _ _ => 4
  | .name _ _ _ => 5
  | .dbgHelp _ => 6
  | .enter _ => 7
  | .module _ => 8
  | .initEnd _ => 9
  | .initSym _ => 10
  | .initCs _ => 11
  | .once _ => 12

/-- What a step does with the call of its thread. -/
inductive CallMoves (s : WinThreads Thread) (t : Thread) (s' : WinThreads Thread) : Prop where
  | on (place : WinPlace) (moved : s'.place = Function.update s.place t place)
      (sameCall : place.call? = (s.place t).call?)
      (closer : place.stepsLeft < (s.place t).stepsLeft) (returned : s'.returned = s.returned)
      (crashed : s'.crashed = s.crashed)
  | returns (call : ResolveCall) (result : Resolved) (isCall : (s.place t).call? = some call)
      (moved : s'.place = Function.update s.place t .idle) (last : (s.place t).stepsLeft = 1)
      (returned : s'.returned = s.returned ++ [⟨t, call, result⟩])
      (crashed : s'.crashed = s.crashed)
  | crashes (stays : s'.place = s.place) (under : 0 < (s.place t).stepsLeft)
      (returned : s'.returned = s.returned) (crashed : s'.crashed ≠ none)

theorem callMoves_ensures {module : Nat} {without behind : WinPlace} (env : Env bits)
    (calls : without.call? = (s.place t).call? ∧ behind.call? = (s.place t).call?)
    (closer : without.stepsLeft < (s.place t).stepsLeft ∧
      behind.stepsLeft < (s.place t).stepsLeft) :
    CallMoves s t (s.ensures t env module without behind) := by
  rw [WinThreads.ensures]
  by_cases isNull : module = 0
  · rw [if_pos isNull]
    exact .on without rfl calls.1 closer.1 rfl rfl
  · rw [if_neg isNull]
    cases bwPeEnsure env module s.load with
    | ok _ load => exact .on behind rfl calls.2 closer.2 rfl rfl
    | error why load => exact .crashes rfl (Nat.zero_lt_of_lt closer.1) rfl (by simp)

theorem callMoves_go (taken : winGo p t s = some s') : CallMoves s t s' := by
  unfold winGo at taken
  cases here : s.place t with
  | idle =>
      rw [here] at taken
      cases taken
  | once c =>
      rw [here] at taken
      cases isOnce : s.once with
      | running u =>
          simp only [isOnce] at taken
          cases taken
      | fresh | done =>
          simp only [isOnce, Option.some_inj] at taken
          rw [← taken]
          exact .on _ rfl (by rw [here]; rfl) (by simp [here, WinPlace.stepsLeft]) rfl rfl
  | enter f =>
      rw [here] at taken
      simp only [Option.ite_none_right_eq_some, Option.some_inj] at taken
      obtain ⟨-, rfl⟩ := taken
      exact .on _ rfl (by rw [here]; rfl) (by simp [here, WinPlace.stepsLeft]) rfl rfl
  | name f known source =>
      rw [here] at taken
      cases known with
      | some known =>
          cases taken
          exact .on _ rfl (by rw [here]; rfl) (by simp [here, WinPlace.stepsLeft]) rfl rfl
      | none =>
          cases taken
          apply callMoves_ensures <;> rw [here]
          · exact ⟨rfl, rfl⟩
          · simp [WinPlace.stepsLeft]
  | line f sname source =>
      rw [here] at taken
      cases source with
      | some source =>
          cases taken
          exact .on _ rfl (by rw [here]; rfl) (by simp [here, WinPlace.stepsLeft]) rfl rfl
      | none =>
          cases taken
          apply callMoves_ensures <;> rw [here]
          · exact ⟨rfl, rfl⟩
          · simp [WinPlace.stepsLeft]
  | leave f result =>
      rw [here] at taken
      cases taken
      exact .returns f.call result (by rw [here]; rfl) rfl (by rw [here]; rfl) rfl rfl
  | initCs | initSym | initEnd | module | dbgHelp | search | lookup =>
      rw [here] at taken
      cases taken
      exact .on _ rfl (by rw [here]; rfl) (by simp [here, WinPlace.stepsLeft]) rfl rfl

/-- The call that an action makes, if it is one of this thread. -/
def WinAct.callOf (t : Thread) : WinAct Thread → Option ResolveCall
  | .call u c => if u = t then some c else none
  | .go _ => none

namespace WinThreads

/-- The calls of a thread that have returned, in the order in which they did. -/
def answered (s : WinThreads Thread) (t : Thread) : List ResolveCall :=
  (s.returned.filter (·.thread = t)).map Returned.call

end WinThreads

/-- The calls of each thread come to their ends in their order, and the one that is
under way is the last. -/
def Accounted (past : List (WinAct Thread)) (s : WinThreads Thread) : Prop :=
  ∀ t, past.filterMap (WinAct.callOf t) = s.answered t ++ (s.place t).call?.toList

theorem accounted_start : Accounted [] (winStart : WinThreads Thread) := fun _ => rfl

theorem filterMap_go (past : List (WinAct Thread)) (u : Thread) :
    (past ++ [WinAct.go t]).filterMap (WinAct.callOf u) = past.filterMap (WinAct.callOf u) := by
  simp [List.filterMap_cons, WinAct.callOf]

theorem filterMap_call (past : List (WinAct Thread)) (c : ResolveCall) (u : Thread) :
    (past ++ [WinAct.call t c]).filterMap (WinAct.callOf u) =
      past.filterMap (WinAct.callOf u) ++ if t = u then [c] else [] := by
  rw [List.filterMap_append, List.filterMap_cons, WinAct.callOf]
  split_ifs <;> rfl

/-- What a return adds to the calls of each thread. -/
theorem answered_of_returned {call : ResolveCall} {result : Resolved}
    (returned : s'.returned = s.returned ++ [⟨t, call, result⟩]) (u : Thread) :
    s'.answered u = s.answered u ++ if t = u then [call] else [] := by
  rw [WinThreads.answered, returned, List.filter_append, List.map_append]
  by_cases isThread : t = u <;> simp [WinThreads.answered, isThread]

/-- What the step of a thread does to the calls that are under way. -/
theorem pending_of_moved {place : WinPlace} (moved : s'.place = Function.update s.place t place)
    (u : Thread) :
    (s'.place u).call? = if t = u then place.call? else (s.place u).call? := by
  rw [moved]
  by_cases isThread : t = u
  · rw [isThread, Function.update_self, if_pos rfl]
  · rw [Function.update_of_ne (fun same => isThread same.symm), if_neg isThread]

theorem Accounted.keeps {past : List (WinAct Thread)} (accounted : Accounted past s)
    (moves : CallMoves s t s') : Accounted (past ++ [.go t]) s' := by
  intro u
  rw [filterMap_go, accounted u]
  cases moves with
  | on place moved sameCall closer returned crashed =>
      rw [pending_of_moved moved, WinThreads.answered, WinThreads.answered, returned]
      split_ifs with isThread
      · rw [sameCall, isThread]
      · rfl
  | returns call result isCall moved last returned crashed =>
      rw [pending_of_moved moved, answered_of_returned returned, List.append_assoc]
      split_ifs with isThread
      · rw [← isThread, isCall]
        rfl
      · rfl
  | crashes stays under returned crashed =>
      rw [WinThreads.answered, WinThreads.answered, returned, stays]

theorem Accounted.step {past : List (WinAct Thread)} {a : WinAct Thread}
    (accounted : Accounted past s) (taken : winStep p a s = some s') :
    Accounted (past ++ [a]) s' := by
  unfold winStep at taken
  split_ifs at taken with crashed
  cases a with
  | go t => exact accounted.keeps (callMoves_go taken)
  | call t c =>
      intro u
      rw [filterMap_call, accounted u]
      dsimp only at taken
      split_ifs at taken with busy nowhere <;> cases taken <;>
        have idle : s.place t = .idle := not_not.mp busy
      · have answered : (s.answers t c c.nowhere).answered u =
            s.answered u ++ if t = u then [c] else [] := answered_of_returned rfl u
        rw [answered, WinThreads.answers]
        split_ifs with isThread
        · rw [← isThread, idle]
          simp [WinPlace.call?]
        · simp
      · have pending : ((s.goes t (.once c)).place u).call? =
            if t = u then some c else (s.place u).call? := by
          have moved : (s.goes t (.once c)).place = Function.update s.place t (.once c) := rfl
          exact pending_of_moved moved u
        have answered : (s.goes t (.once c)).answered u = s.answered u := rfl
        rw [pending, answered]
        split_ifs with isThread
        · rw [← isThread, idle]
          simp [WinPlace.call?]
        · simp

theorem accounted_run {schedule : List (WinAct Thread)}
    (ran : runSchedule (winStep p) schedule winStart = some s) : Accounted schedule s := by
  have accounted := run_history (fun _ _ _ _ accounted taken => Accounted.step accounted taken)
    accounted_start ran
  rwa [List.nil_append] at accounted

/-- Only the owner of the critical section touches the cache. -/
theorem load_go (ok : WinOk p s) (taken : winGo p t s = some s') :
    s'.load = s.load ∨ s.owner = some t := by
  cases isInside : (s.place t).inside with
  | true => exact .inr ((ok.inside t).mp isInside)
  | false =>
      left
      unfold winGo at taken
      generalize s.place t = place at taken isInside
      cases place with
      | idle => cases taken
      | once c =>
          cases isOnce : s.once with
          | running u =>
              simp only [isOnce] at taken
              cases taken
          | fresh | done =>
              simp only [isOnce, Option.some_inj] at taken
              rw [← taken]
              rfl
      | enter f =>
          simp only [Option.ite_none_right_eq_some, Option.some_inj] at taken
          rw [← taken.2]
          rfl
      | initCs | initSym | initEnd | module =>
          cases taken
          rfl
      | dbgHelp | name | search | line | lookup | leave => cases isInside

omit [DecidableEq Thread] in
theorem WinOk.csInits_le (ok : WinOk p s) : s.csInits ≤ 1 := by
  cases isOnce : s.once with
  | fresh =>
      have none := ok.fresh isOnce
      omega
  | done =>
      have once := (ok.done isOnce).1
      omega
  | running t =>
      have isInits : (s.place t).inits = true := (ok.inits t).mpr (by rw [isOnce]; rfl)
      have stage := ok.stage t
      generalize s.place t = place at isInits stage
      cases place with
      | initCs c => exact Nat.le_of_eq (stage.trans rfl) |>.trans (Nat.zero_le 1)
      | initSym c => exact Nat.le_of_eq stage
      | initEnd c => exact Nat.le_of_eq stage.1
      | _ => cases isInits

end Moves

/-! ### Every schedule -/

section Schedules

variable {Thread : Type} [DecidableEq Thread] {bits : Nat} {p : Process bits}

/-- After any schedule, one thread at most is inside the critical section, and only
it can touch the cache with its next step. `InitializeCriticalSection` has been
called once at most, and once exactly, with `bw_sym_ok` set for good, before any
thread comes behind the initialisation. -/
theorem winThreads_safe (schedule : List (WinAct Thread)) (s : WinThreads Thread)
    (ran : runSchedule (winStep p) schedule winStart = some s) :
    (∀ t u, (s.place t).inside = true → (s.place u).inside = true → t = u) ∧
      (∀ a s', winStep p a s = some s' → s'.load ≠ s.load →
        ∃ t, a = .go t ∧ (s.place t).inside = true) ∧
      s.csInits ≤ 1 ∧
      ∀ t, (s.place t).behind = true → s.csInits = 1 ∧ s.symOk = p.symOk := by
  have ok := winOk_run ran
  refine ⟨fun t u => ok.inside.unique, ?_, ok.csInits_le, ?_⟩
  · intro a s' taken changed
    unfold winStep at taken
    split_ifs at taken with crashed
    cases a with
    | call t c =>
        dsimp only at taken
        split_ifs at taken <;> cases taken <;> exact absurd rfl changed
    | go t =>
        rcases load_go ok taken with same | owner
        · exact absurd same changed
        · exact ⟨t, rfl, (ok.inside t).mpr owner⟩
  · intro t isBehind
    exact ok.done (ok.behind_done isBehind)

/-- After any schedule, what a call has returned is what it returns as the only
call of its process, and if the process has crashed, then in a call that crashes
alone. The calls of each thread have returned in their order, none twice, all but
the one that is under way. -/
theorem winThreads_answers (schedule : List (WinAct Thread)) (s : WinThreads Thread)
    (ran : runSchedule (winStep p) schedule winStart = some s) :
    (∀ r ∈ s.returned, r.call.outcome p = .ok r.result) ∧
      (∀ why, s.crashed = some why →
        ∃ t c, (s.place t).call? = some c ∧ c.outcome p = .error why) ∧
      ∀ t, schedule.filterMap (WinAct.callOf t) = s.answered t ++ (s.place t).call?.toList :=
  ⟨(winOk_run ran).answers, (winOk_run ran).crash, accounted_run ran⟩

variable [Fintype Thread]

/-- A thread goes on with its call. -/
def WinAct.Inner : WinAct Thread → Prop
  | .call _ _ => False
  | .go _ => True

/-- How many steps are left of the calls under way, at most. -/
def WinThreads.stepsLeft (s : WinThreads Thread) : Nat :=
  if s.crashed = none then ∑ t, (s.place t).stepsLeft else 0

variable {s s' : WinThreads Thread} {t : Thread}

omit [DecidableEq Thread] in
theorem stepsLeft_le (s : WinThreads Thread) : s.stepsLeft ≤ 12 * Fintype.card Thread := by
  rw [WinThreads.stepsLeft]
  split_ifs
  · have each : ∀ t ∈ Finset.univ, (s.place t).stepsLeft ≤ 12 := by
      intro t _
      cases s.place t <;> simp [WinPlace.stepsLeft]
    have total := Finset.sum_le_card_nsmul _ _ _ each
    rw [Finset.card_univ, smul_eq_mul] at total
    omega
  · exact Nat.zero_le _

theorem stepsLeft_go (running : s.crashed = none) (moves : CallMoves s t s') :
    s'.stepsLeft < s.stepsLeft := by
  have before : s.stepsLeft = ∑ t, (s.place t).stepsLeft := if_pos running
  rw [before]
  cases moves with
  | on place moved sameCall closer returned crashed =>
      have after : s'.stepsLeft = ∑ t, (s'.place t).stepsLeft := if_pos (crashed.trans running)
      have total := sum_update WinPlace.stepsLeft s.place t place
      rw [after, moved]
      omega
  | returns call result isCall moved last returned crashed =>
      have after : s'.stepsLeft = ∑ t, (s'.place t).stepsLeft := if_pos (crashed.trans running)
      have total := sum_update WinPlace.stepsLeft s.place t .idle
      have none : WinPlace.idle.stepsLeft = 0 := rfl
      rw [after, moved]
      omega
  | crashes stays under returned crashed =>
      have after : s'.stepsLeft = 0 := if_neg crashed
      have part : (s.place t).stepsLeft ≤ ∑ u, (s.place u).stepsLeft :=
        Finset.single_le_sum (fun u _ => Nat.zero_le (s.place u).stepsLeft) (Finset.mem_univ t)
      omega

omit [Fintype Thread] in
/-- A process that cannot go on has crashed, or no call is under way. -/
theorem idle_of_stuck (ok : WinOk p s) (running : s.crashed = none)
    (stuck : Stuck (winStep p) WinAct.Inner s) (t : Thread) : s.place t = .idle := by
  have refuses : ∀ u, winGo p u s = none := by
    intro u
    have refused := stuck (.go u) trivial
    unfold winStep at refused
    rwa [if_neg (not_not.mpr running)] at refused
  have alone := refuses t
  unfold winGo at alone
  cases here : s.place t with
  | idle => rfl
  | once c =>
      rw [here] at alone
      cases isOnce : s.once with
      | fresh | done =>
          simp only [isOnce] at alone
          cases alone
      | running u =>
          -- The thread in `bw_sym_init` can go on.
          have isInits : (s.place u).inits = true := (ok.inits u).mpr (by rw [isOnce]; rfl)
          have blocked := refuses u
          unfold winGo at blocked
          generalize s.place u = there at isInits blocked
          cases there with
          | initCs | initSym | initEnd => cases blocked
          | _ => cases isInits
  | enter f =>
      rw [here] at alone
      cases isOwner : s.owner with
      | none => simp [isOwner] at alone
      | some u =>
          -- The thread in the critical section can go on.
          have isInside : (s.place u).inside = true := (ok.inside u).mpr isOwner
          have blocked := refuses u
          unfold winGo at blocked
          generalize s.place u = there at isInside blocked
          cases there with
          | name f known source => cases known <;> cases blocked
          | line f sname source => cases source <;> cases blocked
          | dbgHelp | search | lookup | leave => cases blocked
          | _ => cases isInside
  | name f known source =>
      rw [here] at alone
      cases known <;> cases alone
  | line f sname source =>
      rw [here] at alone
      cases source <;> cases alone
  | initCs | initSym | initEnd | module | dbgHelp | search | lookup | leave =>
      rw [here] at alone
      cases alone

omit [Fintype Thread] in
/-- Threads that are not in a call cannot go on. -/
theorem stuck_of_idle (idle : ∀ t, s.place t = .idle) : Stuck (winStep p) WinAct.Inner s := by
  intro a inner
  cases a with
  | call t c => exact absurd inner id
  | go t =>
      unfold winStep winGo
      dsimp only
      rw [idle t]
      split_ifs <;> rfl

theorem inner_short {schedule later : List (WinAct Thread)}
    (ran : runSchedule (winStep p) schedule winStart = some s) (inner : ∀ a ∈ later, a.Inner)
    (ran' : runSchedule (winStep p) later s = some s') :
    later.length ≤ 12 * Fintype.card Thread := by
  have uses : ∀ (a : WinAct Thread) s s', a.Inner → WinOk p s → winStep p a s = some s' →
      s'.stepsLeft < s.stepsLeft := by
    intro a s s' isInner _ taken
    cases a with
    | call t c => exact absurd isInner id
    | go t =>
        unfold winStep at taken
        split_ifs at taken with crashed
        exact stepsLeft_go (not_not.mp crashed) (callMoves_go taken)
  have short := run_length_le (fun _ _ _ _ ok taken => WinOk.step ok taken) uses inner
    (winOk_run ran) ran'
  have bound := stepsLeft_le s
  omega

omit [Fintype Thread] in
theorem all_returned {schedule later : List (WinAct Thread)}
    (ran : runSchedule (winStep p) schedule winStart = some s) (inner : ∀ a ∈ later, a.Inner)
    (ran' : runSchedule (winStep p) later s = some s') (running : s'.crashed = none)
    (stuck : Stuck (winStep p) WinAct.Inner s') (t : Thread) :
    s'.place t = .idle ∧ s'.answered t = schedule.filterMap (WinAct.callOf t) := by
  have whole : runSchedule (winStep p) (schedule ++ later) winStart = some s' :=
    (runSchedule_append ran).trans ran'
  have idle := idle_of_stuck (winOk_run whole) running stuck t
  have accounted := accounted_run whole t
  have noCalls : later.filterMap (WinAct.callOf t) = [] := by
    apply List.filterMap_eq_nil_iff.mpr
    intro a member
    cases a with
    | call u c => exact absurd (inner _ member) id
    | go u => rfl
  rw [List.filterMap_append, noCalls, List.append_nil, idle] at accounted
  refine ⟨idle, ?_⟩
  rw [accounted]
  simp [WinPlace.call?]

/-- After any schedule, if nobody calls again, the threads take in all at most twelve
times as many steps as there are threads; and when they cannot go on, the process has
crashed or every call that was made has returned. -/
theorem winThreads_complete (schedule : List (WinAct Thread)) (s : WinThreads Thread)
    (ran : runSchedule (winStep p) schedule winStart = some s)
    (later : List (WinAct Thread)) (inner : ∀ a ∈ later, a.Inner) (s' : WinThreads Thread)
    (ran' : runSchedule (winStep p) later s = some s') :
    later.length ≤ 12 * Fintype.card Thread ∧
      (Stuck (winStep p) WinAct.Inner s' → s'.crashed ≠ none ∨
        ∀ t, s'.place t = .idle ∧ s'.answered t = schedule.filterMap (WinAct.callOf t)) := by
  refine ⟨inner_short ran inner ran', fun stuck => ?_⟩
  by_cases running : s'.crashed = none
  · exact .inr (all_returned ran inner ran' running stuck)
  · exact .inl running

end Schedules

/-! ### Two threads in one process -/

def inF : ResolveCall := ⟨0x1008, 260, 512, 512⟩

def inG : ResolveCall := ⟨0x1018, 260, 512, 512⟩

/-- Thread `false` initialises while thread `true` waits; then thread `true` is the first
inside. -/
def crossing : List (WinAct Bool) :=
  [.call false inF, .call true inG, .go false, .go false, .go false, .go false, .go true, .go true,
    .go true, .go false, .go true]

theorem crossing_runs : ∃ s, runSchedule (winStep twoFunctions) crossing winStart = some s ∧
    (s.place true).inside = true ∧ (s.place false).behind = true ∧ s.returned = [] := by
  have seen : (runSchedule (winStep twoFunctions) crossing winStart).map (fun s =>
      ((s.place true).inside, (s.place false).behind, s.returned)) = some (true, true, []) := by
    decide
  obtain ⟨s, ran, seen⟩ := Option.map_eq_some_iff.mp seen
  simp only [Prod.mk.injEq] at seen
  exact ⟨s, ran, seen⟩

/-- The other thread has to wait at the critical section. -/
theorem crossing_alone : ∃ s, runSchedule (winStep twoFunctions) crossing winStart = some s ∧
    (s.place false).inside = false ∧ s.csInits = 1 := by
  obtain ⟨s, ran, inside, behind, -⟩ := crossing_runs
  have safe := winThreads_safe crossing s ran
  refine ⟨s, ran, ?_, (safe.2.2.2 false behind).1⟩
  by_contra both
  exact absurd (safe.1 true false inside (by simpa using both)) (by decide)

/-- Then both calls return. -/
def apart : List (WinAct Bool) :=
  [.go true, .go true, .go true, .go false, .go false, .go false, .go false, .go false]

theorem apart_runs :
    ∃ s, runSchedule (winStep twoFunctions) (crossing ++ apart) winStart = some s ∧
    s.returned.map (fun r => (r.call, r.result.sname)) = [(inG, [0x67]), (inF, [0x66])] ∧
    s.crashed = none := by
  have seen : (runSchedule (winStep twoFunctions) (crossing ++ apart) winStart).map (fun s =>
      (s.returned.map (fun r => (r.call, r.result.sname)), s.crashed)) =
      some ([(inG, [0x67]), (inF, [0x66])], none) := by
    decide
  obtain ⟨s, ran, seen⟩ := Option.map_eq_some_iff.mp seen
  simp only [Prod.mk.injEq] at seen
  exact ⟨s, ran, seen⟩

/-- Each thread has its own answer. -/
theorem apart_answers :
    ∃ s, runSchedule (winStep twoFunctions) (crossing ++ apart) winStart = some s ∧
    (∀ r ∈ s.returned, r.call.outcome twoFunctions = .ok r.result) ∧
    s.answered false = [inF] := by
  have idle : (runSchedule (winStep twoFunctions) (crossing ++ apart) winStart).map (fun s =>
      s.place false) = some .idle := by
    decide
  obtain ⟨s, ran, idle⟩ := Option.map_eq_some_iff.mp idle
  have answers := winThreads_answers (crossing ++ apart) s ran
  have order := answers.2.2 false
  rw [idle] at order
  refine ⟨s, ran, answers.1, ?_⟩
  rw [← List.append_nil (s.answered false)]
  exact order.symm

/-- When both have returned, no step is left. -/
theorem apart_completes :
    ∃ s, runSchedule (winStep twoFunctions) (crossing ++ apart) winStart = some s ∧
    ∀ t, s.answered t = (crossing ++ apart).filterMap (WinAct.callOf t) := by
  obtain ⟨s, ran, -, running⟩ := apart_runs
  have places : (runSchedule (winStep twoFunctions) (crossing ++ apart) winStart).map (fun s =>
      (s.place false, s.place true)) = some (.idle, .idle) := by
    decide
  rw [ran, Option.map_some, Option.some_inj, Prod.mk.injEq] at places
  have stuck : Stuck (winStep twoFunctions) WinAct.Inner s :=
    stuck_of_idle (Bool.forall_bool.mpr places)
  have complete := winThreads_complete (crossing ++ apart) s ran [] (by simp) s rfl
  refine ⟨s, ran, fun t => ?_⟩
  rcases complete.2 stuck with crashed | returned
  · exact absurd running crashed
  · exact (returned t).2

end Backwalk.Windows
