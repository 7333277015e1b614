import Mathlib.Data.Fintype.Pigeonhole
import Mathlib.Logic.Relation

/-!
Owns the orbits of a partial map: iterating a function that may refuse to
answer, when such an iteration stops, and why on a finite type it stops exactly
when it never closes a ring.

Nothing here is about a particular map. A client supplies the step; the facts
about stopping, returning and rings follow from its type alone.
-/

namespace Backwalk.Support

variable {α : Type*}

/-- The state after `n` steps from `x`, or `none` once a step was refused. -/
def orbit (step : α → Option α) (x : α) : Nat → Option α
  | 0 => some x
  | n + 1 => (orbit step x n).bind step

@[simp] theorem orbit_zero (step : α → Option α) (x : α) : orbit step x 0 = some x := rfl

theorem orbit_succ (step : α → Option α) (x : α) (n : Nat) :
    orbit step x (n + 1) = (orbit step x n).bind step := rfl

/-- The first step may be taken before the others. -/
theorem orbit_succ_front (step : α → Option α) (x : α) (n : Nat) :
    orbit step x (n + 1) = (step x).bind fun y => orbit step y n := by
  induction n with
  | zero => cases first : step x <;> simp [orbit, first]
  | succ n inductionHypothesis =>
      rw [orbit_succ, inductionHypothesis]
      cases step x <;> rfl

theorem orbit_add {step : α → Option α} {x y : α} {m : Nat}
    (reached : orbit step x m = some y) (n : Nat) :
    orbit step x (m + n) = orbit step y n := by
  induction n with
  | zero => exact reached
  | succ n inductionHypothesis =>
      rw [← Nat.add_assoc, orbit_succ, orbit_succ, inductionHypothesis]

/-- A refused orbit stays refused. -/
theorem orbit_none_of_le {step : α → Option α} {x : α} {m n : Nat}
    (stopped : orbit step x m = none) (le : m ≤ n) : orbit step x n = none := by
  induction n, le using Nat.le_induction with
  | base => exact stopped
  | succ n _ inductionHypothesis => rw [orbit_succ, inductionHypothesis]; rfl

/-- Some step of the orbit is refused. -/
def Stops (step : α → Option α) (x : α) : Prop := ∃ n, orbit step x n = none

/-- The orbit comes back to a state it has been in. -/
def Returns (step : α → Option α) (x : α) : Prop :=
  ∃ i j y, i < j ∧ orbit step x i = some y ∧ orbit step x j = some y

/-- On a finite type an orbit that never stops comes back. -/
theorem stops_or_returns [Finite α] (step : α → Option α) (x : α) :
    Stops step x ∨ Returns step x := by
  by_cases stops : Stops step x
  · exact Or.inl stops
  · have answered : ∀ n, ∃ y, orbit step x n = some y := by
      intro n
      cases reached : orbit step x n with
      | none => exact absurd ⟨n, reached⟩ stops
      | some y => exact ⟨y, rfl⟩
    choose state reached using answered
    obtain ⟨i, j, different, same⟩ := Finite.exists_ne_map_eq_of_infinite state
    rcases Nat.lt_or_gt_of_ne different with before | after
    · exact Or.inr ⟨i, j, state i, before, reached i, by rw [reached j, same]⟩
    · exact Or.inr ⟨j, i, state j, after, reached j, by rw [reached i, same]⟩

/-- An orbit that comes back never stops: it repeats the same round for ever. -/
theorem not_stops_of_returns {step : α → Option α} {x : α} (returns : Returns step x) :
    ¬ Stops step x := by
  rintro ⟨n, stopped⟩
  obtain ⟨i, j, y, before, first, second⟩ := returns
  have round : orbit step y (j - i) = some y := by
    rw [← orbit_add first, Nat.add_sub_of_le before.le, second]
  have rounds : ∀ k, orbit step y (k * (j - i)) = some y := by
    intro k
    induction k with
    | zero => simp
    | succ k inductionHypothesis =>
        rw [Nat.succ_mul, orbit_add inductionHypothesis, round]
  have late : n ≤ i + n * (j - i) := by
    have : 1 ≤ j - i := by omega
    calc n = n * 1 := (Nat.mul_one n).symm
      _ ≤ n * (j - i) := Nat.mul_le_mul_left n this
      _ ≤ i + n * (j - i) := Nat.le_add_left _ _
  have gone := orbit_none_of_le stopped late
  rw [orbit_add first, rounds] at gone
  cases gone

theorem stops_iff_not_returns [Finite α] (step : α → Option α) (x : α) :
    Stops step x ↔ ¬ Returns step x :=
  ⟨fun stops returns => not_stops_of_returns returns stops,
    fun never => (stops_or_returns step x).resolve_right never⟩

/-! ### Rings

A ring is what an orbit that comes back has walked into: a state that a positive
number of links leads back to. Links are given as a relation, so that a client
may describe them in its own words and connect them to its step once. -/

/-- From `x` some links lead to a state that lies on a ring of links. -/
def ReachesRing (link : α → α → Prop) (x : α) : Prop :=
  ∃ y, Relation.ReflTransGen link x y ∧ Relation.TransGen link y y

section Links

variable {step : α → Option α} {link : α → α → Prop}

theorem reflTransGen_of_orbit (links : ∀ a b, step a = some b ↔ link a b) {x y : α} {n : Nat}
    (reached : orbit step x n = some y) : Relation.ReflTransGen link x y := by
  induction n generalizing y with
  | zero => cases reached; exact .refl
  | succ n inductionHypothesis =>
      obtain ⟨z, before, last⟩ := Option.bind_eq_some_iff.mp reached
      exact (inductionHypothesis before).tail ((links z y).mp last)

theorem orbit_of_reflTransGen (links : ∀ a b, step a = some b ↔ link a b) {x y : α}
    (path : Relation.ReflTransGen link x y) : ∃ n, orbit step x n = some y := by
  induction path with
  | refl => exact ⟨0, rfl⟩
  | tail _ last inductionHypothesis =>
      obtain ⟨n, reached⟩ := inductionHypothesis
      exact ⟨n + 1, by rw [orbit_succ, reached]; exact (links _ _).mpr last⟩

/-- An orbit comes back exactly when its links lead into a ring. -/
theorem returns_iff_reachesRing (links : ∀ a b, step a = some b ↔ link a b) (x : α) :
    Returns step x ↔ ReachesRing link x := by
  constructor
  · rintro ⟨i, j, y, before, first, second⟩
    refine ⟨y, reflTransGen_of_orbit links first, ?_⟩
    have round : orbit step y (j - i) = some y := by
      rw [← orbit_add first, Nat.add_sub_of_le before.le, second]
    obtain ⟨k, length⟩ : ∃ k, j - i = k + 1 := ⟨j - i - 1, by omega⟩
    rw [length, orbit_succ_front] at round
    obtain ⟨z, firstLink, rest⟩ := Option.bind_eq_some_iff.mp round
    exact Relation.TransGen.head' ((links y z).mp firstLink) (reflTransGen_of_orbit links rest)
  · rintro ⟨y, path, ring⟩
    obtain ⟨i, first⟩ := orbit_of_reflTransGen links path
    obtain ⟨z, firstLink, rest⟩ := Relation.TransGen.head'_iff.mp ring
    obtain ⟨k, back⟩ := orbit_of_reflTransGen links rest
    refine ⟨i, i + (k + 1), y, by omega, first, ?_⟩
    rw [orbit_add first, orbit_succ_front, (links y z).mpr firstLink]
    exact back

end Links

end Backwalk.Support
