import Backwalk.Support.Schedules

/-!
Contract: the ticket of `src/common.c`, a flag that threads wait for, under any
number of threads and any order of their steps.

Owns `ticketStep`, one step of one thread through `ticket_signal` or
`ticket_wait`, and what holds over every schedule of such steps: who holds the
mutex, when a wait returns, how many waiters a number of signals leaves asleep,
and that all calls come to an end.

Does not own the threads library. A mutex has one holder; a thread in
`pthread_cond_wait` gives the mutex back and falls asleep at once, and takes it
again after it was woken; `pthread_cond_signal` wakes at least one sleeper if
there is one, which of them is chosen outside; and a sleeper may wake without a
signal.
-/

namespace Backwalk.Common

open Backwalk.Support

section Ticket

variable {Thread : Type} [DecidableEq Thread]

/-- `ticket_t`: the threads asleep on `cv`, the holder of `mtx`, and `state`. -/
structure Ticket (Thread : Type) where
  cv : Finset Thread
  mtx : Option Thread
  state : Bool

/-- `ticket_init`. -/
def ticketInit : Ticket Thread := ⟨∅, none, false⟩

/-- Where a thread is: outside, or before a step of one of the two functions. -/
inductive Place where
  | idle
  | signalLock
  | signalBody
  | signalUnlock
  | signalCond
  | waitLock
  | waitTest
  | waitCond
  | asleep
  | woken
  | waitUnlock
deriving DecidableEq, Repr

/-- The places at which a thread holds the mutex. -/
def Place.inside : Place → Bool
  | .signalBody | .signalUnlock | .waitTest | .waitCond | .waitUnlock => true
  | _ => false

/-- The places of `ticket_wait`. -/
def Place.waits : Place → Bool
  | .waitLock | .waitTest | .waitCond | .asleep | .woken | .waitUnlock => true
  | _ => false

/-- The places of `ticket_signal`. -/
def Place.signals : Place → Bool
  | .signalLock | .signalBody | .signalUnlock | .signalCond => true
  | _ => false

inductive TicketFunction where
  | ticketSignal
  | ticketWait
deriving DecidableEq, Repr

/-- What may happen next: a thread calls a function, or goes on with it; a thread
signals `cv`, which wakes these; a thread wakes for no reason. -/
inductive TicketAct (Thread : Type) where
  | call (t : Thread) (function : TicketFunction)
  | go (t : Thread)
  | condSignal (t : Thread) (woken : Finset Thread)
  | spurious (t : Thread)

/-- A ticket and the threads that use it. -/
structure TicketState (Thread : Type) where
  ticket : Ticket Thread
  place : Thread → Place

/-- Nobody has called anything since `ticket_init`. -/
def ticketStart : TicketState Thread := ⟨ticketInit, fun _ => .idle⟩

namespace TicketState

variable (s : TicketState Thread) (t : Thread)

def goes (place : Place) : TicketState Thread := { s with place := Function.update s.place t place }

def holds (place : Place) : TicketState Thread :=
  ⟨{ s.ticket with mtx := some t }, Function.update s.place t place⟩

/-- `pthread_mutex_lock`, which waits while somebody holds the mutex. -/
def locks (place : Place) : Option (TicketState Thread) :=
  if s.ticket.mtx = none then some (s.holds t place) else none

/-- `pthread_mutex_unlock`. -/
def unlocks (place : Place) : TicketState Thread :=
  ⟨{ s.ticket with mtx := none }, Function.update s.place t place⟩

/-- `ticket->state = true`. -/
def sets : TicketState Thread := { s with ticket := { s.ticket with state := true } }

/-- `pthread_cond_wait` until the thread sleeps. -/
def sleeps : TicketState Thread :=
  ⟨{ s.ticket with mtx := none, cv := insert t s.ticket.cv }, Function.update s.place t .asleep⟩

/-- These threads are no longer asleep. -/
def wakes (woken : Finset Thread) : TicketState Thread :=
  ⟨{ s.ticket with cv := s.ticket.cv \ woken },
    fun u => if u ∈ woken then .woken else s.place u⟩

end TicketState

/-- `ticket_signal` and `ticket_wait`, one step of a thread that does not depend
on a choice. -/
def ticketGo (t : Thread) (s : TicketState Thread) : Option (TicketState Thread) :=
  match s.place t with
  | .signalLock => s.locks t .signalBody
  | .signalBody => some (s.sets.goes t .signalUnlock)
  | .signalUnlock => some (s.unlocks t .signalCond)
  | .waitLock => s.locks t .waitTest
  | .waitTest => some (if s.ticket.state then s.goes t .waitUnlock else s.goes t .waitCond)
  | .waitCond => some (s.sleeps t)
  | .woken => s.locks t .waitTest
  | .waitUnlock => some (s.unlocks t .idle)
  | .idle | .signalCond | .asleep => none

/-- Where a function begins. -/
def TicketFunction.entry : TicketFunction → Place
  | .ticketSignal => .signalLock
  | .ticketWait => .waitLock

/-- One step of the system. -/
def ticketStep : TicketAct Thread → TicketState Thread → Option (TicketState Thread)
  | .call t function, s => if s.place t = .idle then some (s.goes t function.entry) else none
  | .go t, s => ticketGo t s
  | .condSignal t woken, s =>
      if s.place t = .signalCond ∧ Wakes s.ticket.cv woken then
        some ((s.wakes woken).goes t .idle)
      else none
  | .spurious t, s => if t ∈ s.ticket.cv then some (s.wakes {t}) else none

/-! ### Steps -/

/-- Where a thread goes when it gets the mutex. -/
inductive TakesMutex : Place → Place → Prop where
  | signal : TakesMutex .signalLock .signalBody
  | wait : TakesMutex .waitLock .waitTest
  | again : TakesMutex .woken .waitTest

/-- Where a thread goes when it gives the mutex back. -/
inductive LeavesMutex : Place → Place → Prop where
  | signal : LeavesMutex .signalUnlock .signalCond
  | wait : LeavesMutex .waitUnlock .idle

/-- All that a step can do. -/
inductive Moves (s : TicketState Thread) : TicketAct Thread → TicketState Thread → Prop where
  | called {t : Thread} (function : TicketFunction) (idle : s.place t = .idle) :
      Moves s (.call t function) (s.goes t function.entry)
  | locked {t : Thread} {place : Place} (takes : TakesMutex (s.place t) place)
      (free : s.ticket.mtx = none) : Moves s (.go t) (s.holds t place)
  | wasSet {t : Thread} (body : s.place t = .signalBody) :
      Moves s (.go t) (s.sets.goes t .signalUnlock)
  | unlocked {t : Thread} {place : Place} (leaves : LeavesMutex (s.place t) place) :
      Moves s (.go t) (s.unlocks t place)
  | done {t : Thread} (test : s.place t = .waitTest) (isSet : s.ticket.state = true) :
      Moves s (.go t) (s.goes t .waitUnlock)
  | notYet {t : Thread} (test : s.place t = .waitTest) (unset : s.ticket.state = false) :
      Moves s (.go t) (s.goes t .waitCond)
  | slept {t : Thread} (cond : s.place t = .waitCond) : Moves s (.go t) (s.sleeps t)
  | signalled {t : Thread} {woken : Finset Thread} (cond : s.place t = .signalCond)
      (wakes : Wakes s.ticket.cv woken) :
      Moves s (.condSignal t woken) ((s.wakes woken).goes t .idle)
  | woke {t : Thread} (asleep : t ∈ s.ticket.cv) : Moves s (.spurious t) (s.wakes {t})

variable {s s' : TicketState Thread} {a : TicketAct Thread} {t u : Thread}

theorem moves_of_locks {place : Place} (takes : TakesMutex (s.place t) place)
    (taken : s.locks t place = some s') : Moves s (.go t) s' := by
  rw [TicketState.locks, Option.ite_none_right_eq_some, Option.some_inj] at taken
  obtain ⟨free, rfl⟩ := taken
  exact .locked takes free

theorem moves_of_step (taken : ticketStep a s = some s') : Moves s a s' := by
  cases a with
  | call t function =>
      rw [ticketStep, Option.ite_none_right_eq_some, Option.some_inj] at taken
      obtain ⟨idle, rfl⟩ := taken
      exact .called function idle
  | go t =>
      rw [ticketStep, ticketGo] at taken
      cases here : s.place t with
      | signalLock =>
          rw [here] at taken
          exact moves_of_locks (here ▸ .signal) taken
      | waitLock =>
          rw [here] at taken
          exact moves_of_locks (here ▸ .wait) taken
      | woken =>
          rw [here] at taken
          exact moves_of_locks (here ▸ .again) taken
      | signalBody =>
          rw [here] at taken
          cases taken
          exact .wasSet here
      | signalUnlock =>
          rw [here] at taken
          cases taken
          exact .unlocked (here ▸ .signal)
      | waitUnlock =>
          rw [here] at taken
          cases taken
          exact .unlocked (here ▸ .wait)
      | waitTest =>
          rw [here] at taken
          cases state : s.ticket.state with
          | true =>
              simp only [state, if_true, Option.some_inj] at taken
              exact taken ▸ .done here state
          | false =>
              simp only [state, Bool.false_eq_true, if_false, Option.some_inj] at taken
              exact taken ▸ .notYet here state
      | waitCond =>
          rw [here] at taken
          cases taken
          exact .slept here
      | idle | signalCond | asleep =>
          rw [here] at taken
          cases taken
  | condSignal t woken =>
      rw [ticketStep, Option.ite_none_right_eq_some, Option.some_inj] at taken
      obtain ⟨⟨cond, wakes⟩, rfl⟩ := taken
      exact .signalled cond wakes
  | spurious t =>
      rw [ticketStep, Option.ite_none_right_eq_some, Option.some_inj] at taken
      obtain ⟨asleep, rfl⟩ := taken
      exact .woke asleep

/-! ### Who holds the mutex, and when a wait returns -/

/-- The places that a thread comes to only while `state` has this value. -/
def Place.fits (state : Bool) : Place → Bool
  | .signalUnlock | .signalCond | .waitUnlock => state
  | .waitCond => !state
  | _ => true

/-- What every step keeps. -/
structure TicketOk (s : TicketState Thread) : Prop where
  guards : Guards Place.inside s.ticket.mtx s.place
  sleepers : ∀ t, t ∈ s.ticket.cv ↔ s.place t = .asleep
  fits : ∀ t, (s.place t).fits s.ticket.state = true

omit [DecidableEq Thread] in
theorem ticketOk_start : TicketOk (@ticketStart Thread) where
  guards := fun t => by simp [ticketStart, ticketInit, Place.inside]
  sleepers := fun t => by simp [ticketStart, ticketInit]
  fits := fun t => rfl

/-- A thread that neither falls asleep nor was asleep leaves the sleepers alone. -/
theorem TicketOk.sleepers_update (ok : TicketOk s) {place : Place} (awake : s.place t ≠ .asleep)
    (stays : place ≠ .asleep) (u : Thread) :
    u ∈ s.ticket.cv ↔ Function.update s.place t place u = .asleep := by
  revert u
  apply (Function.forall_update_iff s.place fun u there => u ∈ s.ticket.cv ↔ there = .asleep).mpr
  refine ⟨iff_of_false (fun asleep => awake ((ok.sleepers t).mp asleep)) stays, ?_⟩
  intro u _
  exact ok.sleepers u

theorem TicketOk.fits_update (ok : TicketOk s) {place : Place}
    (fits : place.fits s.ticket.state = true) (u : Thread) :
    (Function.update s.place t place u).fits s.ticket.state = true := by
  revert u
  apply (Function.forall_update_iff s.place fun _ there =>
    there.fits s.ticket.state = true).mpr
  exact ⟨fits, fun u _ => ok.fits u⟩

/-- A thread goes on without touching the ticket. -/
theorem TicketOk.goes (ok : TicketOk s) {place : Place} (same : place.inside = (s.place t).inside)
    (awake : s.place t ≠ .asleep) (stays : place ≠ .asleep)
    (fits : place.fits s.ticket.state = true) : TicketOk (s.goes t place) where
  guards := ok.guards.move same
  sleepers := ok.sleepers_update awake stays
  fits := ok.fits_update fits

theorem TicketOk.holds (ok : TicketOk s) {place : Place} (takes : TakesMutex (s.place t) place)
    (free : s.ticket.mtx = none) : TicketOk (s.holds t place) := by
  have guards := ok.guards
  rw [free] at guards
  generalize here : s.place t = there at takes
  cases takes <;>
    exact ⟨guards.acquire rfl, ok.sleepers_update (by simp [here]) (by simp), ok.fits_update rfl⟩

theorem TicketOk.unlocks (ok : TicketOk s) {place : Place}
    (leaves : LeavesMutex (s.place t) place) :
    TicketOk (s.unlocks t place) := by
  have guards := ok.guards
  have fits := ok.fits t
  generalize here : s.place t = there at leaves fits
  cases leaves with
  | signal =>
      rw [(guards t).mp (by rw [here]; rfl)] at guards
      exact ⟨guards.release rfl, ok.sleepers_update (by simp [here]) (by simp),
        ok.fits_update fits⟩
  | wait =>
      rw [(guards t).mp (by rw [here]; rfl)] at guards
      exact ⟨guards.release rfl, ok.sleepers_update (by simp [here]) (by simp),
        ok.fits_update rfl⟩

/-- Only the holder is where `state` has to be unset, and it is about to set it. -/
theorem TicketOk.sets (ok : TicketOk s) (body : s.place t = .signalBody) :
    TicketOk (s.sets.goes t .signalUnlock) where
  guards := ok.guards.move (by rw [body]; rfl)
  sleepers := ok.sleepers_update (by simp [body]) (by simp)
  fits := by
    apply (Function.forall_update_iff s.place fun _ there => there.fits true = true).mpr
    refine ⟨rfl, fun u other => ?_⟩
    cases there : s.place u with
    | waitCond =>
        exact absurd (ok.guards.unique (by rw [there]; rfl) (by rw [body]; rfl)) other
    | _ => rfl

theorem TicketOk.sleeps (ok : TicketOk s) (cond : s.place t = .waitCond) :
    TicketOk (s.sleeps t) where
  guards := by
    have guards := ok.guards
    rw [(guards t).mp (by rw [cond]; rfl)] at guards
    exact guards.release rfl
  sleepers := by
    apply (Function.forall_update_iff s.place fun u there =>
      u ∈ insert t s.ticket.cv ↔ there = .asleep).mpr
    refine ⟨by simp, fun u other => ?_⟩
    simp [other, ok.sleepers u]
  fits := ok.fits_update rfl

theorem TicketOk.wakes (ok : TicketOk s) {woken : Finset Thread} (among : woken ⊆ s.ticket.cv) :
    TicketOk (s.wakes woken) where
  guards := by
    intro u
    by_cases wakes : u ∈ woken
    · have outside : ¬ (s.place u).inside = true := by
        rw [(ok.sleepers u).mp (among wakes)]
        simp [Place.inside]
      simpa [TicketState.wakes, wakes, Place.inside] using fun owner =>
        outside ((ok.guards u).mpr owner)
    · simpa [TicketState.wakes, wakes] using ok.guards u
  sleepers := by
    intro u
    by_cases wakes : u ∈ woken
    · simp [TicketState.wakes, wakes]
    · simpa [TicketState.wakes, wakes] using ok.sleepers u
  fits := by
    intro u
    by_cases wakes : u ∈ woken
    · simp [TicketState.wakes, wakes, Place.fits]
    · simpa [TicketState.wakes, wakes] using ok.fits u

/-- The thread that signals does not sleep. -/
theorem TicketOk.signalCond_wakes (ok : TicketOk s) {woken : Finset Thread}
    (cond : s.place t = .signalCond) (wakes : Wakes s.ticket.cv woken) :
    (s.wakes woken).place t = .signalCond := by
  have awake : t ∉ woken := by
    intro member
    have asleep := (ok.sleepers t).mp (wakes.1 member)
    rw [cond] at asleep
    cases asleep
  simpa [TicketState.wakes, awake] using cond

omit [DecidableEq Thread] in
/-- `state` is still unset before a thread falls asleep. -/
theorem TicketOk.unset (ok : TicketOk s) (cond : s.place t = .waitCond) :
    s.ticket.state = false := by
  have fits := ok.fits t
  rw [cond] at fits
  simpa [Place.fits] using fits

omit [DecidableEq Thread] in
/-- `state` is set before a signal is sent. -/
theorem TicketOk.isSet (ok : TicketOk s) (cond : s.place t = .signalCond) :
    s.ticket.state = true := by
  have fits := ok.fits t
  rwa [cond] at fits

theorem TicketOk.moves (ok : TicketOk s) (moves : Moves s a s') : TicketOk s' := by
  cases moves with
  | called function idle =>
      cases function <;>
        exact ok.goes (by rw [idle]; rfl) (by simp [idle]) (by simp [TicketFunction.entry]) rfl
  | locked takes free => exact ok.holds takes free
  | wasSet body => exact ok.sets body
  | unlocked leaves => exact ok.unlocks leaves
  | done test isSet => exact ok.goes (by rw [test]; rfl) (by simp [test]) (by simp) isSet
  | notYet test unset =>
      exact ok.goes (by rw [test]; rfl) (by simp [test]) (by simp) (by rw [unset]; rfl)
  | slept cond => exact ok.sleeps cond
  | @signalled t woken cond wakes =>
      have there := ok.signalCond_wakes cond wakes
      exact (ok.wakes wakes.1).goes (by rw [there]; rfl) (by simp [there]) (by simp) rfl
  | woke asleep => exact ok.wakes (by simpa using asleep)

theorem ticketOk_run {schedule : List (TicketAct Thread)}
    (ran : runSchedule ticketStep schedule ticketStart = some s) : TicketOk s :=
  run_invariant (fun _ _ _ ok taken => ok.moves (moves_of_step taken)) ticketOk_start ran

/-- `state` is never taken back. -/
theorem state_moves (moves : Moves s a s') (isSet : s.ticket.state = true) :
    s'.ticket.state = true := by
  cases moves <;> first | exact isSet | rfl

theorem state_run {schedule : List (TicketAct Thread)}
    (ran : runSchedule ticketStep schedule s = some s') (isSet : s.ticket.state = true) :
    s'.ticket.state = true :=
  @run_invariant _ _ _ _ _ _ (fun s => s.ticket.state = true)
    (fun _ _ _ isSet taken => state_moves (moves_of_step taken) isSet) isSet ran

/-- A thread is in `ticket_signal` only if it has called it, and only such a
thread sets `state`. -/
structure Asked (past : List (TicketAct Thread)) (s : TicketState Thread) : Prop where
  signals : ∀ t, (s.place t).signals = true → .call t .ticketSignal ∈ past
  state : s.ticket.state = true → ∃ t, .call t .ticketSignal ∈ past

omit [DecidableEq Thread] in
/-- A step that does not begin a `ticket_signal` and does not set `state`. -/
theorem Asked.later {past : List (TicketAct Thread)} (asked : Asked past s)
    (signals : ∀ t, (s'.place t).signals = true → (s.place t).signals = true)
    (state : s'.ticket.state = s.ticket.state) : Asked (past ++ [a]) s' where
  signals := fun t is => List.mem_append_left _ (asked.signals t (signals t is))
  state := by
    intro isSet
    obtain ⟨t, called⟩ := asked.state (state ▸ isSet)
    exact ⟨t, List.mem_append_left _ called⟩

theorem signals_update {place : Place} (within : place.signals = true → (s.place t).signals = true)
    (u : Thread) (is : (Function.update s.place t place u).signals = true) :
    (s.place u).signals = true := by
  by_cases same : u = t
  · rw [same, Function.update_self] at is
    rw [same]
    exact within is
  · rwa [Function.update_of_ne same] at is

theorem signals_wakes {woken : Finset Thread} (u : Thread)
    (is : ((s.wakes woken).place u).signals = true) : (s.place u).signals = true := by
  by_cases wakes : u ∈ woken
  · simp [TicketState.wakes, wakes, Place.signals] at is
  · simpa [TicketState.wakes, wakes] using is

theorem Asked.moves {past : List (TicketAct Thread)} (asked : Asked past s)
    (moves : Moves s a s') : Asked (past ++ [a]) s' := by
  cases moves with
  | @called t function idle =>
      cases function with
      | ticketSignal =>
          constructor
          · intro u is
            by_cases same : u = t
            · simp [same]
            · have before : (s.place u).signals = true := by
                simpa [TicketState.goes, same] using is
              exact List.mem_append_left _ (asked.signals u before)
          · intro _
            exact ⟨t, by simp⟩
      | ticketWait =>
          exact asked.later (signals_update (by simp [TicketFunction.entry, Place.signals])) rfl
  | @locked t place takes free =>
      refine asked.later (signals_update ?_) rfl
      generalize s.place t = there at takes
      cases takes <;> simp [Place.signals]
  | @wasSet t body =>
      have called := asked.signals t (by rw [body]; rfl)
      constructor
      · intro u is
        exact List.mem_append_left _
          (asked.signals u (signals_update (by simp [body, Place.signals]) u is))
      · intro _
        exact ⟨t, List.mem_append_left _ called⟩
  | @unlocked t place leaves =>
      refine asked.later (signals_update ?_) rfl
      generalize s.place t = there at leaves
      cases leaves <;> simp [Place.signals]
  | done test isSet => exact asked.later (signals_update (by simp [Place.signals])) rfl
  | notYet test unset => exact asked.later (signals_update (by simp [Place.signals])) rfl
  | slept cond => exact asked.later (signals_update (by simp [Place.signals])) rfl
  | @signalled t woken cond wakes =>
      refine asked.later (fun u is => ?_) rfl
      exact signals_wakes u (signals_update (by simp [Place.signals]) u is)
  | woke asleep => exact asked.later signals_wakes rfl

theorem asked_run {schedule : List (TicketAct Thread)}
    (ran : runSchedule ticketStep schedule ticketStart = some s) : Asked schedule s := by
  have start : Asked [] (@ticketStart Thread) := by
    constructor
    · intro t is
      cases is
    · intro isSet
      cases isSet
  have asked :=
    run_history (fun past a s t asked taken => asked.moves (moves_of_step taken)) start ran
  rwa [List.nil_append] at asked

/-- Under every schedule, only one thread at a time is between `pthread_mutex_lock`
and `pthread_mutex_unlock`; a thread that leaves `ticket_wait` does so after some
thread has called `ticket_signal`, and finds `state` set; and `state` stays set. -/
theorem ticket_safe (schedule : List (TicketAct Thread)) (s : TicketState Thread)
    (ran : runSchedule ticketStep schedule ticketStart = some s) :
    (∀ t u, (s.place t).inside = true → (s.place u).inside = true → t = u) ∧
      (∀ t, s.place t = .waitUnlock →
        s.ticket.state = true ∧ ∃ u, .call u .ticketSignal ∈ schedule) ∧
      ∀ later s', s.ticket.state = true → runSchedule ticketStep later s = some s' →
        s'.ticket.state = true := by
  have ok := ticketOk_run ran
  refine ⟨fun t u one two => ok.guards.unique one two, ?_,
    fun later s' isSet ran' => state_run ran' isSet⟩
  intro t returns
  have isSet : s.ticket.state = true := by
    have fits := ok.fits t
    rwa [returns] at fits
  exact ⟨isSet, (asked_run ran).state isSet⟩

/-! ### How many waiters a number of signals leaves asleep -/

section Counts

def TicketAct.isCall (function : TicketFunction) : TicketAct Thread → Bool
  | .call _ called => called = function
  | _ => false

def TicketAct.isSignal : TicketAct Thread → Bool
  | .condSignal _ _ => true
  | _ => false

/-- Calls of a function in a schedule. -/
def calls (function : TicketFunction) (schedule : List (TicketAct Thread)) : Nat :=
  schedule.countP (TicketAct.isCall function)

/-- The `ticket_signal` calls that are over: each of them ends with the signal. -/
def signalled (schedule : List (TicketAct Thread)) : Nat := schedule.countP TicketAct.isSignal

omit [DecidableEq Thread] in
theorem calls_append (function : TicketFunction) (past : List (TicketAct Thread))
    (a : TicketAct Thread) :
    calls function (past ++ [a]) = calls function past + (a.isCall function).toNat := by
  rw [calls, List.countP_append, List.countP_singleton]
  cases a.isCall function <;> rfl

omit [DecidableEq Thread] in
theorem signalled_append (past : List (TicketAct Thread)) (a : TicketAct Thread) :
    signalled (past ++ [a]) = signalled past + a.isSignal.toNat := by
  rw [signalled, List.countP_append, List.countP_singleton]
  cases a.isSignal <;> rfl

variable [Fintype Thread]

/-- The threads that are at a place of this kind. -/
def within (kind : Place → Bool) (s : TicketState Thread) : Nat :=
  ∑ t, (kind (s.place t)).toNat

/-- The books that every step keeps: calls of `ticket_signal` are under way or
over; those of `ticket_wait` are as many at least as are under way; no signal was
sent before `state` was set; and every signal has taken one of the sleepers away,
until there was none. -/
structure Counted (past : List (TicketAct Thread)) (s : TicketState Thread) : Prop where
  signals : calls .ticketSignal past = within Place.signals s + signalled past
  waits : within Place.waits s ≤ calls .ticketWait past
  unset : s.ticket.state = false → signalled past = 0
  asleep : s.ticket.cv = ∅ ∨ s.ticket.cv.card + signalled past ≤ calls .ticketWait past

theorem within_update (kind : Place → Bool) (t : Thread) (place : Place) (ticket : Ticket Thread) :
    within kind ⟨ticket, Function.update s.place t place⟩ + (kind (s.place t)).toNat =
      within kind s + (kind place).toNat :=
  sum_update (fun place => (kind place).toNat) s.place t place

/-- A woken thread is still in `ticket_wait`. -/
theorem within_wakes (ok : TicketOk s) {kind : Place → Bool} (same : kind .woken = kind .asleep)
    {woken : Finset Thread} (among : woken ⊆ s.ticket.cv) :
    within kind (s.wakes woken) = within kind s := by
  apply Finset.sum_congr rfl
  intro t _
  by_cases wakes : t ∈ woken
  · rw [(ok.sleepers t).mp (among wakes), ← same]
    simp [TicketState.wakes, wakes]
  · simp [TicketState.wakes, wakes]

omit [DecidableEq Thread] in
/-- The sleepers are in `ticket_wait`. -/
theorem card_sleepers_le (ok : TicketOk s) : s.ticket.cv.card ≤ within Place.waits s := by
  rw [within, Finset.card_eq_sum_ones]
  calc ∑ t ∈ s.ticket.cv, 1 = ∑ t ∈ s.ticket.cv, (s.place t).waits.toNat := by
        apply Finset.sum_congr rfl
        intro t asleep
        rw [(ok.sleepers t).mp asleep]
        rfl
    _ ≤ ∑ t, (s.place t).waits.toNat := Finset.sum_le_univ_sum_of_nonneg fun _ => Nat.zero_le _

omit [DecidableEq Thread] in
theorem counted_start : Counted [] (@ticketStart Thread) where
  signals := by simp [calls, signalled, within, ticketStart, Place.signals]
  waits := by simp [within, ticketStart, Place.waits]
  unset := fun _ => rfl
  asleep := Or.inl rfl

variable {past : List (TicketAct Thread)}

omit [DecidableEq Thread] in
/-- A step that neither calls nor signals, and puts nobody to sleep. -/
theorem Counted.quiet (counted : Counted past s) (noCall : ∀ function, a.isCall function = false)
    (noSignal : a.isSignal = false)
    (signals : within Place.signals s' = within Place.signals s)
    (waits : within Place.waits s' ≤ within Place.waits s)
    (unset : s'.ticket.state = false → s.ticket.state = false)
    (asleep : s'.ticket.cv ⊆ s.ticket.cv) : Counted (past ++ [a]) s' where
  signals := by
    rw [calls_append, signalled_append, noCall, noSignal, signals]
    exact counted.signals
  waits := by
    rw [calls_append, noCall]
    exact waits.trans counted.waits
  unset := by
    intro isUnset
    rw [signalled_append, noSignal]
    exact counted.unset (unset isUnset)
  asleep := by
    rw [calls_append, signalled_append, noCall, noSignal]
    rcases counted.asleep with none | few
    · exact Or.inl (Finset.subset_empty.mp (none ▸ asleep))
    · have fewer := Finset.card_le_card asleep
      simp only [Bool.toNat_false]
      omega

/-- A thread moves between places that count alike. -/
theorem Counted.go (counted : Counted past s) {place : Place} {ticket : Ticket Thread}
    (signals : place.signals = (s.place t).signals)
    (waits : place.waits = true → (s.place t).waits = true)
    (unset : ticket.state = false → s.ticket.state = false) (cv : ticket.cv = s.ticket.cv) :
    Counted (past ++ [.go t]) ⟨ticket, Function.update s.place t place⟩ := by
  have sums := @within_update _ _ s _ Place.signals t place ticket
  have waiting := @within_update _ _ s _ Place.waits t place ticket
  refine counted.quiet (fun _ => rfl) rfl ?_ ?_ unset (by rw [cv])
  · rw [signals] at sums
    omega
  · cases after : place.waits with
    | false =>
        rw [after] at waiting
        simp only [Bool.toNat_false] at waiting
        omega
    | true =>
        rw [after, waits after] at waiting
        omega

theorem Counted.called (counted : Counted past s) (function : TicketFunction)
    (idle : s.place t = .idle) :
    Counted (past ++ [.call t function]) (s.goes t function.entry) := by
  have sums := @within_update _ _ s _ Place.signals t function.entry s.ticket
  have waiting := @within_update _ _ s _ Place.waits t function.entry s.ticket
  have books := counted.signals
  have most := counted.waits
  rw [idle] at sums waiting
  constructor
  · rw [calls_append, signalled_append]
    cases function <;>
      simp [TicketAct.isCall, TicketAct.isSignal, TicketFunction.entry, TicketState.goes,
        Place.signals] at sums ⊢ <;> omega
  · rw [calls_append]
    cases function <;>
      simp [TicketAct.isCall, TicketFunction.entry, TicketState.goes, Place.waits] at waiting ⊢ <;>
      omega
  · intro unset
    rw [signalled_append]
    exact counted.unset unset
  · rw [calls_append, signalled_append]
    rcases counted.asleep with none | few
    · exact Or.inl none
    · refine Or.inr ?_
      simp only [TicketAct.isSignal, TicketState.goes, Bool.toNat_false]
      omega

/-- A thread falls asleep before any signal was sent. -/
theorem Counted.slept (counted : Counted past s) (ok : TicketOk s) (cond : s.place t = .waitCond) :
    Counted (past ++ [.go t]) (s.sleeps t) := by
  have sums := @within_update _ _ s _ Place.signals t .asleep (s.sleeps t).ticket
  have waiting := @within_update _ _ s _ Place.waits t .asleep (s.sleeps t).ticket
  have none : signalled past = 0 := counted.unset (ok.unset cond)
  have books := counted.signals
  have most := counted.waits
  rw [cond] at sums waiting
  simp only [Place.signals, Place.waits, Nat.add_right_cancel_iff] at sums waiting
  have same : within Place.waits (s.sleeps t) ≤ calls .ticketWait past := by
    rw [show within Place.waits (s.sleeps t) = within Place.waits s from waiting]
    exact most
  constructor
  · rw [calls_append, signalled_append,
      show within Place.signals (s.sleeps t) = within Place.signals s from sums]
    exact books
  · rw [calls_append]
    exact same
  · intro _
    rw [signalled_append]
    exact none
  · rw [calls_append, signalled_append, none]
    have sleepers := card_sleepers_le (ok.sleeps cond)
    exact Or.inr (sleepers.trans same)

theorem Counted.signalled (counted : Counted past s) (ok : TicketOk s) {woken : Finset Thread}
    (cond : s.place t = .signalCond) (wakes : Wakes s.ticket.cv woken) :
    Counted (past ++ [.condSignal t woken]) ((s.wakes woken).goes t .idle) := by
  have there := ok.signalCond_wakes cond wakes
  have sums := @within_update _ _ (s.wakes woken) _ Place.signals t .idle (s.wakes woken).ticket
  have waiting := @within_update _ _ (s.wakes woken) _ Place.waits t .idle (s.wakes woken).ticket
  rw [there, within_wakes ok rfl wakes.1] at sums waiting
  simp only [Place.signals, Place.waits, Bool.toNat_true, Bool.toNat_false] at sums waiting
  have books := counted.signals
  have most := counted.waits
  constructor
  · rw [calls_append, signalled_append]
    show _ = within Place.signals ⟨(s.wakes woken).ticket, _⟩ + _
    simp only [TicketAct.isCall, TicketAct.isSignal, Bool.toNat_true, Bool.toNat_false]
    omega
  · rw [calls_append]
    show within Place.waits ⟨(s.wakes woken).ticket, _⟩ ≤ _
    omega
  · intro unset
    rw [show ((s.wakes woken).goes t .idle).ticket.state = s.ticket.state from rfl,
      ok.isSet cond] at unset
    cases unset
  · rw [calls_append, signalled_append]
    show s.ticket.cv \ woken = ∅ ∨ (s.ticket.cv \ woken).card + _ ≤ _
    simp only [TicketAct.isCall, TicketAct.isSignal, Bool.toNat_true, Bool.toNat_false]
    rcases wakes.fewer with nobody | fewer
    · exact Or.inl nobody
    · rcases counted.asleep with none | few
      · exact Or.inl (by simp [none])
      · exact Or.inr (by omega)

theorem Counted.moves (counted : Counted past s) (ok : TicketOk s) (moves : Moves s a s') :
    Counted (past ++ [a]) s' := by
  cases moves with
  | called function idle => exact counted.called function idle
  | @locked t place takes free =>
      generalize here : s.place t = there at takes
      cases takes <;> exact counted.go (by rw [here]; rfl) (by simp [here, Place.waits]) id rfl
  | wasSet body =>
      exact counted.go (by rw [body]; rfl) (by simp [Place.waits]) (fun unset => by cases unset) rfl
  | @unlocked t place leaves =>
      generalize here : s.place t = there at leaves
      cases leaves <;> exact counted.go (by rw [here]; rfl) (by simp [Place.waits]) id rfl
  | done test isSet => exact counted.go (by rw [test]; rfl) (by simp [test, Place.waits]) id rfl
  | notYet test unset => exact counted.go (by rw [test]; rfl) (by simp [test, Place.waits]) id rfl
  | slept cond => exact counted.slept ok cond
  | signalled cond wakes => exact counted.signalled ok cond wakes
  | @woke t asleep =>
      have among : {t} ⊆ s.ticket.cv := by simpa using asleep
      exact counted.quiet (fun _ => rfl) rfl (within_wakes ok rfl among)
        (within_wakes ok rfl among).le id Finset.sdiff_subset

theorem counted_run {schedule : List (TicketAct Thread)}
    (ran : runSchedule ticketStep schedule ticketStart = some s) : Counted schedule s := by
  have both := @run_history _ _ ticketStep ticketStart s schedule
    (fun past s => TicketOk s ∧ Counted past s) []
    (fun past a s t held taken => ⟨held.1.moves (moves_of_step taken),
      held.2.moves held.1 (moves_of_step taken)⟩) ⟨ticketOk_start, counted_start⟩ ran
  exact both.2

/-! ### All calls come to an end -/

/-- What threads do by themselves, once they are in a function. -/
def TicketAct.Inner : TicketAct Thread → Prop
  | .go _ | .condSignal _ _ => True
  | .call _ _ | .spurious _ => False

/-- Steps that are left at a place, while `state` has this value. -/
def Place.left (state : Bool) : Place → Nat
  | .idle => 0
  | .signalLock => 4
  | .signalBody => 3
  | .signalUnlock => 2
  | .signalCond => 1
  | .waitLock => if state then 3 else 9
  | .waitTest => if state then 2 else 8
  | .waitCond => if state then 1 else 7
  | .asleep => if state then 4 else 6
  | .woken => if state then 3 else 9
  | .waitUnlock => 1

theorem Place.left_true_le (state : Bool) (place : Place) : place.left true ≤ place.left state := by
  cases place <;> cases state <;> decide

def stepsLeft (s : TicketState Thread) : Nat := ∑ t, (s.place t).left s.ticket.state

omit [DecidableEq Thread] in
theorem stepsLeft_le (s : TicketState Thread) : stepsLeft s ≤ 9 * Fintype.card Thread := by
  have each : ∀ t, (s.place t).left s.ticket.state ≤ 9 := by
    intro t
    cases s.place t <;> cases s.ticket.state <;> decide
  calc stepsLeft s ≤ ∑ _t : Thread, 9 := Finset.sum_le_sum fun t _ => each t
    _ = 9 * Fintype.card Thread := by simp [Nat.mul_comm]

/-- One thread comes closer to the end, and the others no further away. -/
theorem stepsLeft_lt {place : Place} {ticket : Ticket Thread}
    (closer : place.left ticket.state < (s.place t).left s.ticket.state)
    (others : ∀ there : Place, there.left ticket.state ≤ there.left s.ticket.state) :
    stepsLeft ⟨ticket, Function.update s.place t place⟩ < stepsLeft s := by
  have sums := sum_update (Place.left ticket.state) s.place t place
  have before : ∑ u, (s.place u).left ticket.state + (s.place t).left s.ticket.state ≤
      stepsLeft s + (s.place t).left ticket.state := by
    rw [stepsLeft, ← Finset.sum_erase_add _ _ (Finset.mem_univ t),
      ← Finset.sum_erase_add Finset.univ (fun u => (s.place u).left s.ticket.state)
        (Finset.mem_univ t)]
    have rest : ∑ u ∈ Finset.univ.erase t, (s.place u).left ticket.state ≤
        ∑ u ∈ Finset.univ.erase t, (s.place u).left s.ticket.state :=
      Finset.sum_le_sum fun u _ => others (s.place u)
    omega
  show ∑ u, (Function.update s.place t place u).left ticket.state < stepsLeft s
  omega

/-- A woken thread is closer to the end than a sleeper, once `state` is set. -/
theorem stepsLeft_wakes (ok : TicketOk s) (isSet : s.ticket.state = true) {woken : Finset Thread}
    (among : woken ⊆ s.ticket.cv) : stepsLeft (s.wakes woken) ≤ stepsLeft s := by
  apply Finset.sum_le_sum
  intro t _
  by_cases wakes : t ∈ woken
  · rw [(ok.sleepers t).mp (among wakes)]
    simp [TicketState.wakes, wakes, Place.left, isSet]
  · simp [TicketState.wakes, wakes]

theorem uses (ok : TicketOk s) (inner : a.Inner) (moves : Moves s a s') :
    stepsLeft s' < stepsLeft s := by
  cases moves with
  | called function idle => cases inner
  | @locked t place takes free =>
      apply stepsLeft_lt _ fun _ => le_refl _
      generalize s.place t = there at takes
      cases takes <;> cases s.ticket.state <;> decide
  | @wasSet t body =>
      show stepsLeft ⟨{ s.ticket with state := true }, Function.update s.place t .signalUnlock⟩ < _
      apply stepsLeft_lt _ (Place.left_true_le s.ticket.state)
      rw [body]
      exact (by decide : 2 < 3)
  | @unlocked t place leaves =>
      apply stepsLeft_lt _ fun _ => le_refl _
      generalize s.place t = there at leaves
      cases leaves <;> cases s.ticket.state <;> decide
  | done test isSet =>
      apply stepsLeft_lt _ fun _ => le_refl _
      rw [test, isSet]
      decide
  | notYet test unset =>
      apply stepsLeft_lt _ fun _ => le_refl _
      rw [test, unset]
      decide
  | @slept t cond =>
      apply stepsLeft_lt _ fun _ => le_refl _
      rw [cond, ok.unset cond]
      decide
  | @signalled t woken cond wakes =>
      apply lt_of_lt_of_le _ (stepsLeft_wakes ok (ok.isSet cond) wakes.1)
      apply stepsLeft_lt _ fun _ => le_refl _
      rw [ok.signalCond_wakes cond wakes]
      exact Nat.zero_lt_one
  | woke asleep => cases inner

omit [Fintype Thread] in
/-- A thread that waits for the mutex gets it, or the holder goes on. -/
theorem go_of_takes (ok : TicketOk s) {place : Place} (takes : s.place t = place)
    (waiting : place = .signalLock ∨ place = .waitLock ∨ place = .woken) :
    ∃ u, ticketGo u s ≠ none := by
  cases owner : s.ticket.mtx with
  | none =>
      refine ⟨t, ?_⟩
      rcases waiting with rfl | rfl | rfl <;>
        simp [ticketGo, takes, TicketState.locks, owner]
  | some u =>
      have inside := (ok.guards u).mpr owner
      refine ⟨u, ?_⟩
      cases there : s.place u with
      | signalBody | signalUnlock | waitTest | waitCond | waitUnlock => simp [ticketGo, there]
      | _ =>
          rw [there] at inside
          cases inside

omit [Fintype Thread] in
/-- When no thread can go on, each of them is outside or asleep. -/
theorem idle_or_asleep (ok : TicketOk s) (stuck : Stuck ticketStep TicketAct.Inner s) (t : Thread) :
    s.place t = .idle ∨ s.place t = .asleep := by
  have goes : ∀ u, ticketGo u s = none := fun u => stuck (.go u) trivial
  have waits : ∀ place, s.place t = place →
      place ≠ .signalLock ∧ place ≠ .waitLock ∧ place ≠ .woken := by
    intro place here
    by_contra waiting
    obtain ⟨u, moves⟩ := go_of_takes ok here (by tauto)
    exact moves (goes u)
  have alone := goes t
  cases here : s.place t with
  | idle => exact Or.inl rfl
  | asleep => exact Or.inr rfl
  | signalLock => exact absurd rfl (waits _ here).1
  | waitLock => exact absurd rfl (waits _ here).2.1
  | woken => exact absurd rfl (waits _ here).2.2
  | signalCond =>
      have signals := stuck (.condSignal t s.ticket.cv) trivial
      have wakes : Wakes s.ticket.cv s.ticket.cv := by
        refine ⟨Finset.Subset.refl _, ?_⟩
        tauto
      simp [ticketStep, here, wakes] at signals
  | signalBody | signalUnlock | waitTest | waitCond | waitUnlock =>
      simp [ticketGo, here] at alone

/-- After any schedule, if nobody calls again and nobody wakes without a signal,
the threads take in all at most nine times as many steps as there are threads; and when
they cannot go on, each of them is outside or asleep in `ticket_wait`. If
`ticket_signal` was called at least as often as `ticket_wait`, nobody is asleep then:
all calls have returned. -/
theorem ticket_completes (schedule : List (TicketAct Thread)) (s : TicketState Thread)
    (ran : runSchedule ticketStep schedule ticketStart = some s)
    (later : List (TicketAct Thread)) (inner : ∀ a ∈ later, a.Inner) (s' : TicketState Thread)
    (ran' : runSchedule ticketStep later s = some s') :
    later.length ≤ 9 * Fintype.card Thread ∧
      (Stuck ticketStep TicketAct.Inner s' → (∀ t, s'.place t = .idle ∨ s'.place t = .asleep) ∧
        (calls .ticketWait schedule ≤ calls .ticketSignal schedule → ∀ t, s'.place t = .idle)) := by
  have ok := ticketOk_run ran
  have whole : runSchedule ticketStep (schedule ++ later) ticketStart = some s' :=
    (runSchedule_append ran).trans ran'
  have short := run_length_le (fun _ _ _ _ ok taken => ok.moves (moves_of_step taken))
    (fun _ _ _ inner ok taken => uses ok inner (moves_of_step taken)) inner ok ran'
  refine ⟨?_, fun stuck => ?_⟩
  · have bound := stepsLeft_le s
    omega
  · have ok' := ticketOk_run whole
    have places := idle_or_asleep ok' stuck
    refine ⟨places, fun enough => ?_⟩
    have counted := counted_run whole
    have noCalls : ∀ function, calls function later = 0 := by
      intro function
      apply List.countP_eq_zero.mpr
      intro a member
      cases a with
      | call t called => exact absurd (inner _ member) id
      | go | condSignal | spurious => simp [TicketAct.isCall]
    have noneSignals : within Place.signals s' = 0 := by
      apply Finset.sum_eq_zero
      intro t _
      rcases places t with idle | asleep
      · rw [idle]
        rfl
      · rw [asleep]
        rfl
    have sent := counted.signals
    have few := counted.asleep
    have split : ∀ function, calls function (schedule ++ later) = calls function schedule := by
      intro function
      rw [calls, List.countP_append, ← calls, ← calls, noCalls, Nat.add_zero]
    rw [split, noneSignals] at sent
    rw [split] at few
    have nobody : s'.ticket.cv = ∅ := by
      rcases few with none | few
      · exact none
      · exact Finset.card_eq_zero.mp (by omega)
    intro t
    rcases places t with idle | asleep
    · exact idle
    · have member := (ok'.sleepers t).mpr asleep
      rw [nobody] at member
      exact absurd member (Finset.notMem_empty t)

end Counts

end Ticket

/-! ### One waiter and one signal -/

/-- Thread 0 falls asleep in `ticket_wait` before thread 1 signals. -/
def handover : List (TicketAct (Fin 2)) :=
  [.call 0 .ticketWait, .go 0, .go 0, .go 0, .call 1 .ticketSignal, .go 1, .go 1, .go 1,
    .condSignal 1 {0}, .go 0, .go 0]

theorem handover_runs : ∃ s, runSchedule ticketStep handover ticketStart = some s ∧
    s.place 0 = .waitUnlock := by
  have place : (runSchedule ticketStep handover ticketStart).map (fun s => s.place 0) =
      some .waitUnlock := by
    decide
  obtain ⟨s, ran, there⟩ := Option.map_eq_some_iff.mp place
  exact ⟨s, ran, there⟩

/-- The waiter finds `state` set. -/
theorem handover_set : ∃ s, runSchedule ticketStep handover ticketStart = some s ∧
    s.ticket.state = true := by
  obtain ⟨s, ran, returns⟩ := handover_runs
  exact ⟨s, ran, ((ticket_safe handover s ran).2.1 0 returns).1⟩

/-- The waiter leaves with its next step, and then all is quiet. -/
theorem handover_completes :
    ∃ s, runSchedule ticketStep (handover ++ [.go 0]) ticketStart = some s ∧
      ∀ t, s.place t = .idle := by
  obtain ⟨s, ran, returns⟩ := handover_runs
  have inner : ∀ a ∈ [TicketAct.go (0 : Fin 2)], a.Inner := by
    intro a member
    cases List.mem_singleton.mp member
    trivial
  have left : runSchedule ticketStep [.go 0] s = some (s.unlocks 0 .idle) := by
    simp [runSchedule, ticketStep, ticketGo, returns]
  have places : ((runSchedule ticketStep (handover ++ [.go 0]) ticketStart).map fun s =>
      (s.place 0, s.place 1)) = some (.idle, .idle) := by
    decide
  rw [runSchedule_append ran, left, Option.map_some, Option.some_inj, Prod.mk.injEq] at places
  have idle : ∀ t, (s.unlocks 0 .idle).place t = .idle := Fin.forall_fin_two.mpr places
  have stuck : Stuck ticketStep TicketAct.Inner (s.unlocks 0 .idle) := by
    intro a inner
    cases a with
    | go t => simp [ticketStep, ticketGo, idle]
    | condSignal t woken => simp [ticketStep, idle]
    | call | spurious => cases inner
  refine ⟨s.unlocks 0 .idle, (runSchedule_append ran).trans left, ?_⟩
  exact ((ticket_completes handover s ran [.go 0] inner _ left).2 stuck).2 (by decide)

/-- Two waiters and one signal: one of them sleeps on. -/
example : ((runSchedule ticketStep [.call 0 .ticketWait, .go 0, .go 0, .go 0,
    .call 1 .ticketWait, .go 1, .go 1, .go 1, .call 2 .ticketSignal, .go 2, .go 2, .go 2,
    .condSignal 2 {0}, .go 0, .go 0, .go 0] (@ticketStart (Fin 3))).map fun s =>
      (s.place 0, s.place 1, s.place 2)) = some (.idle, .asleep, .idle) := by
  decide

end Backwalk.Common
