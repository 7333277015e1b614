import Mathlib.Algebra.BigOperators.Group.Finset.Basic
import Mathlib.Algebra.Order.BigOperators.Group.Finset
import Mathlib.Data.Fintype.BigOperators

/-!
Owns runs of a system that is driven from outside: at each point somebody else
chooses the action, and the system takes it or refuses.

A schedule is the list of the actions that were chosen. What holds over every
schedule is proved once here from what one step preserves: invariants of the
state, invariants that also speak of the past, and bounds on how long certain
actions can go on. Threads that share a state are such a system; for these the
locks are here that a thread holds exactly while it is at certain places.
-/

namespace Backwalk.Support

/-! ### Runs -/

section Runs

variable {Act State : Type*} (step : Act → State → Option State)

/-- The state after the actions of a schedule, if the system takes all of them. -/
def runSchedule : List Act → State → Option State
  | [], s => some s
  | a :: as, s => (step a s).bind (runSchedule as)

variable {step} {s t u : State} {a : Act} {as bs : List Act}

theorem runSchedule_cons (taken : step a s = some t) :
    runSchedule step (a :: as) s = runSchedule step as t := by
  rw [runSchedule, taken]
  rfl

theorem runSchedule_cons_eq_some :
    runSchedule step (a :: as) s = some u ↔
      ∃ t, step a s = some t ∧ runSchedule step as t = some u := by
  rw [runSchedule, Option.bind_eq_some_iff]

theorem runSchedule_append (ran : runSchedule step as s = some t) :
    runSchedule step (as ++ bs) s = runSchedule step bs t := by
  induction as generalizing s with
  | nil =>
      cases ran
      rfl
  | cons a as inductionHypothesis =>
      obtain ⟨next, taken, rest⟩ := runSchedule_cons_eq_some.mp ran
      rw [List.cons_append, runSchedule_cons taken, inductionHypothesis rest]

/-- What each step keeps, each run keeps; the past may be spoken of. -/
theorem run_history {Holds : List Act → State → Prop} {past : List Act}
    (keeps : ∀ past a s t, Holds past s → step a s = some t → Holds (past ++ [a]) t)
    (start : Holds past s) (ran : runSchedule step as s = some t) : Holds (past ++ as) t := by
  induction as generalizing past s with
  | nil =>
      cases ran
      rwa [List.append_nil]
  | cons a as inductionHypothesis =>
      obtain ⟨next, taken, rest⟩ := runSchedule_cons_eq_some.mp ran
      have later := inductionHypothesis (keeps past a s next start taken) rest
      rwa [List.append_assoc] at later

/-- What each step keeps, each run keeps. -/
theorem run_invariant {Holds : State → Prop}
    (keeps : ∀ a s t, Holds s → step a s = some t → Holds t)
    (start : Holds s) (ran : runSchedule step as s = some t) : Holds t := by
  have kept : (fun _ : List Act => Holds) ([] ++ as) t :=
    @run_history _ _ _ _ _ _ (fun _ => Holds) [] (fun _ a s t => keeps a s t) start ran
  exact kept

end Runs

/-! ### Runs that come to an end -/

section Draining

variable {Act State : Type*} {step : Act → State → Option State} {s t : State} {as : List Act}

/-- No action of this kind can be taken. -/
def Stuck (step : Act → State → Option State) (Inner : Act → Prop) (s : State) : Prop :=
  ∀ a, Inner a → step a s = none

variable {Inner : Act → Prop} {Holds : State → Prop} {left : State → Nat}

/-- If each action of a kind uses something up, a run of them is no longer than
what there was of it. -/
theorem run_length_le (keeps : ∀ a s t, Inner a → Holds s → step a s = some t → Holds t)
    (uses : ∀ a s t, Inner a → Holds s → step a s = some t → left t < left s)
    (inner : ∀ a ∈ as, Inner a) (start : Holds s) (ran : runSchedule step as s = some t) :
    as.length + left t ≤ left s := by
  induction as generalizing s with
  | nil =>
      cases ran
      simp
  | cons a as inductionHypothesis =>
      obtain ⟨next, taken, rest⟩ := runSchedule_cons_eq_some.mp ran
      have isInner : Inner a := inner a (by simp)
      have less := uses a s next isInner start taken
      have later := inductionHypothesis (fun b member => inner b (by simp [member]))
        (keeps a s next isInner start taken) rest
      rw [List.length_cons]
      omega

end Draining

/-! ### Locks -/

section Locks

variable {Thread Place : Type*} {inside : Place → Bool} {placeOf : Thread → Place}
  {owner : Option Thread} {t u : Thread} {place : Place}

/-- A lock is held exactly by the thread that is at one of the places it guards. -/
def Guards (inside : Place → Bool) (owner : Option Thread) (placeOf : Thread → Place) : Prop :=
  ∀ t, inside (placeOf t) = true ↔ owner = some t

/-- No two threads are at the places that a lock guards. -/
theorem Guards.unique (guards : Guards inside owner placeOf) (one : inside (placeOf t) = true)
    (two : inside (placeOf u) = true) : t = u :=
  Option.some_inj.mp (((guards t).mp one).symm.trans ((guards u).mp two))

variable [DecidableEq Thread]

/-- A thread moves on its side of the lock. -/
theorem Guards.move (guards : Guards inside owner placeOf)
    (same : inside place = inside (placeOf t)) :
    Guards inside owner (Function.update placeOf t place) := by
  intro u
  by_cases isThread : u = t
  · rw [isThread, Function.update_self, same]
    exact guards t
  · rw [Function.update_of_ne isThread]
    exact guards u

/-- A thread takes the free lock. -/
theorem Guards.acquire (guards : Guards inside none placeOf) (isInside : inside place = true) :
    Guards inside (some t) (Function.update placeOf t place) := by
  intro u
  by_cases isThread : u = t
  · rw [isThread, Function.update_self]
    exact iff_of_true isInside rfl
  · rw [Function.update_of_ne isThread]
    refine iff_of_false (fun one => ?_) (fun same => isThread (Option.some_inj.mp same).symm)
    exact absurd ((guards u).mp one) (by simp)

/-- The holder gives the lock back. -/
theorem Guards.release (guards : Guards inside (some t) placeOf) (outside : inside place = false) :
    Guards inside none (Function.update placeOf t place) := by
  intro u
  by_cases isThread : u = t
  · rw [isThread, Function.update_self]
    simp [outside]
  · rw [Function.update_of_ne isThread]
    refine iff_of_false (fun one => ?_) (by simp)
    exact isThread (Option.some_inj.mp ((guards u).mp one)).symm

end Locks

/-! ### What is done once -/

/-- A task that the first of many threads does, while the others wait. -/
inductive Once (Thread : Type*) where
  | fresh
  | running (t : Thread)
  | done
deriving DecidableEq, Repr

/-- The thread that does the task. -/
def Once.runner {Thread : Type*} : Once Thread → Option Thread
  | .running t => some t
  | .fresh | .done => none

/-! ### Condition variables -/

section Sleepers

variable {Thread : Type*} [DecidableEq Thread] {sleepers woken : Finset Thread}

/-- A signal may wake these threads: some of those that sleep, and one at least
unless nobody sleeps. -/
def Wakes (sleepers woken : Finset Thread) : Prop :=
  woken ⊆ sleepers ∧ (sleepers = ∅ ∨ woken ≠ ∅)

instance : Decidable (Wakes sleepers woken) := inferInstanceAs (Decidable (_ ∧ _))

/-- After a signal nobody sleeps, or one thread less at least. -/
theorem Wakes.fewer (wakes : Wakes sleepers woken) :
    sleepers \ woken = ∅ ∨ (sleepers \ woken).card + 1 ≤ sleepers.card := by
  obtain ⟨among, empty | some⟩ := wakes
  · simp [empty]
  · have one : 0 < woken.card := Finset.card_pos.mpr (Finset.nonempty_iff_ne_empty.mpr some)
    have fewer := Finset.card_sdiff_of_subset among
    have most := Finset.card_le_card among
    omega

end Sleepers

/-! ### Sums over threads -/

section Sums

variable {Thread Place : Type*} [Fintype Thread] [DecidableEq Thread]

/-- How a sum over all threads changes when one of them moves. -/
theorem sum_update (weight : Place → Nat) (placeOf : Thread → Place) (t : Thread) (place : Place) :
    ∑ u, weight (Function.update placeOf t place u) + weight (placeOf t) =
      ∑ u, weight (placeOf u) + weight place := by
  have others : ∑ u ∈ Finset.univ.erase t, weight (Function.update placeOf t place u) =
      ∑ u ∈ Finset.univ.erase t, weight (placeOf u) := by
    apply Finset.sum_congr rfl
    intro u member
    rw [Function.update_of_ne (Finset.ne_of_mem_erase member)]
  rw [← Finset.sum_erase_add _ _ (Finset.mem_univ t), others, Function.update_self,
    ← Finset.sum_erase_add Finset.univ (fun u => weight (placeOf u)) (Finset.mem_univ t)]
  omega

end Sums

end Backwalk.Support
