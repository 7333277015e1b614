import Backwalk.Walk.Backtrace
import Mathlib.Data.FinEnum

/-!
Owns when the stack walk ends. `contextStep` compares a frame pointer only with
the one saved in its own frame, so a walk is cut short at a frame that is saved
over itself and at nothing longer. With a callback that never stops it, the
loop of `bwBacktrace` ends exactly when the saved frame pointers, followed from
the first one, do not run into a ring of two or more frames; a two-frame ring
on which it never ends is given.
-/

namespace Backwalk.Walk

open Backwalk.Support

variable {arch : Arch} {σ : Type}

/-- A callback that updates its state and always returns `true`. -/
def keepGoing (update : Frame arch → σ → σ) : Callback arch σ :=
  fun frame state => (true, update frame state)

/-- While the chain of contexts goes on, the loop goes on with it. -/
theorem bwBacktrace_keepGoing_some (machine : Machine arch) (symbols : Symbols arch)
    (update : Frame arch → σ → σ) (start : Context arch) (state : σ) {n : Nat}
    {ctx : Context arch} (reached : orbit (contextStep machine) start n = some ctx) :
    (bwBacktrace machine symbols (some (keepGoing update)) start state n).ctx = ctx ∧
      (bwBacktrace machine symbols (some (keepGoing update)) start state n).result = none := by
  induction n generalizing ctx with
  | zero => exact ⟨Option.some.inj reached, rfl⟩
  | succ n inductionHypothesis =>
      obtain ⟨before, earlier, stepped⟩ := Option.bind_eq_some_iff.mp reached
      obtain ⟨ctxEq, running⟩ := inductionHypothesis earlier
      rw [bwBacktrace, Function.iterate_succ_apply', ← bwBacktrace]
      simp [Backtrace.advance, running, ctxEq, stepped, bwFrameProcess, keepGoing]

/-- Once the chain of contexts has ended, the function has returned. -/
theorem bwBacktrace_keepGoing_none (machine : Machine arch) (symbols : Symbols arch)
    (update : Frame arch → σ → σ) (start : Context arch) (state : σ) {n : Nat}
    (ended : orbit (contextStep machine) start n = none) :
    (bwBacktrace machine symbols (some (keepGoing update)) start state n).result = some true := by
  induction n with
  | zero => cases ended
  | succ n inductionHypothesis =>
      rw [bwBacktrace, Function.iterate_succ_apply', ← bwBacktrace]
      cases earlier : orbit (contextStep machine) start n with
      | none => simp [Backtrace.advance, inductionHypothesis earlier]
      | some ctx =>
          obtain ⟨ctxEq, running⟩ :=
            bwBacktrace_keepGoing_some machine symbols update start state earlier
          have refused : contextStep machine ctx = none := by
            simpa [orbit_succ, earlier] using ended
          simp [Backtrace.advance, running, ctxEq, refused]

/-- The loop ends exactly when the chain of frame pointers does. -/
theorem bwBacktrace_ends_iff_stops (machine : Machine arch) (symbols : Symbols arch)
    (update : Frame arch → σ → σ) (start : Context arch) (state : σ) :
    (∃ n, (bwBacktrace machine symbols (some (keepGoing update)) start state n).result ≠ none) ↔
      Stops (fpStep machine) start.fp := by
  constructor
  · rintro ⟨n, returned⟩
    refine ⟨n, ?_⟩
    rw [← orbit_contextStep_fp]
    cases reached : orbit (contextStep machine) start n with
    | none => rfl
    | some ctx =>
        exact absurd
          (bwBacktrace_keepGoing_some machine symbols update start state reached).2 returned
  · rintro ⟨n, stopped⟩
    rw [← orbit_contextStep_fp, Option.map_eq_none_iff] at stopped
    refine ⟨n, ?_⟩
    rw [bwBacktrace_keepGoing_none machine symbols update start state stopped]
    exact Option.some_ne_none true

/-- The walk ends, and its chain of frame pointers never returns to one of
them, exactly when memory holds no ring of frames on the way. -/
theorem bwBacktrace_ends_iff_no_ring (machine : Machine arch) (symbols : Symbols arch)
    (update : Frame arch → σ → σ) (start : Context arch) (state : σ) :
    ((∃ n, (bwBacktrace machine symbols (some (keepGoing update)) start state n).result ≠ none) ∧
        ¬ Returns (fpStep machine) start.fp) ↔
      ¬ ReachesRing (FrameLink machine) start.fp := by
  rw [bwBacktrace_ends_iff_stops, stops_iff_not_returns, and_self,
    returns_iff_reachesRing (fpStep_eq_some_iff machine)]

/-! ### A ring of two frames -/

/-- Two x86-64 frames, at `0x10000` and `0x10010`, each saved over the other. -/
def ringMachine : Machine .x86_64 where
  mem := fun addr =>
    if addr = 0x10000 then 0x10010
    else if addr = 0x10010 then 0x10000
    else 0x20000
  stripPac := id

private theorem ringMachine_reaches_ring : ReachesRing (FrameLink ringMachine) 0x10000 := by
  have out : FrameLink ringMachine 0x10000 0x10010 := by constructor <;> decide
  have back : FrameLink ringMachine 0x10010 0x10000 := by constructor <;> decide
  exact ⟨0x10000, .refl, (Relation.TransGen.single out).tail back⟩

/-- From a frame of the ring the loop never ends, whatever the callback does
with the frames. -/
theorem ringMachine_never_ends :
    (∀ n, (bwBacktrace ringMachine ⟨true, fun _ => none, fun _ _ _ => none⟩
        (some (keepGoing fun _ count => count + 1)) ⟨0x10000, 0⟩ (0 : Nat) n).result = none) ∧
      Returns (fpStep ringMachine) 0x10000 := by
  have returns : Returns (fpStep ringMachine) 0x10000 :=
    (returns_iff_reachesRing (fpStep_eq_some_iff ringMachine) _).mpr ringMachine_reaches_ring
  refine ⟨fun n => ?_, returns⟩
  by_contra ended
  exact not_stops_of_returns returns
    ((bwBacktrace_ends_iff_stops ringMachine _ _ _ _).mp ⟨n, ended⟩)

end Backwalk.Walk
