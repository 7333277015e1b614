import Backwalk.Windows.Retarget

/-!
Contract: the globals of `src/win.c` are a cache of one module, and nobody can
tell from the answers what was in it before.

Owns the invariant `Warm`: what is loaded is what a load of that module leaves
from any globals, up to leftovers. It holds when the process starts, and every
query that returns keeps it.
-/

namespace Backwalk.Windows

open Backwalk.Support

section Cache

variable {bits : Nat} {env : Env bits} {s s' : LoadState} {module : Nat} {q : Query}

/-- One module, loaded twice at its address. -/
def Retarget.stay (module : Nat) : Retarget where
  one := module
  two := module
  move := id
  Known _ := True
  keepsName _ := rfl

theorem suits_stay (env : Env bits) (module : Nat) : (Retarget.stay module).Suits env where
  zero := Iff.rfl
  path := rfl
  file := rfl
  moves := fun _ _ _ _ _ _ _ _ _ => ⟨trivial, rfl⟩
  sorts := by
    intro syms _
    rw [Retarget.stay, List.map_id, List.map_id]

/-- What is loaded is what a load would leave. -/
def Warm (env : Env bits) (s : LoadState) : Prop :=
  s.globals.mod ≠ 0 → ∀ u, Agree (Retarget.stay s.globals.mod).Rel (.ok () s)
    (bwPeLoad env s.globals.mod u)

theorem warm_freshProcess (env : Env bits) : Warm env freshProcess :=
  fun isModule => absurd rfl isModule

/-- A load leaves the module it was asked for, whatever it finds in the file. -/
theorem bwPeLoad_warm (ended : bwPeLoad env module s = .ok () s') : Warm env s' := by
  intro _ u
  have agree := bwPeLoad_agree (suits_stay env module) s u
  obtain ⟨t, -, related⟩ := agree.ok ended
  have there : s'.globals.mod = module := related.modOne
  rw [there, ← ended]
  exact agree

theorem bwPeEnsure_same (there : s.globals.mod = module) : bwPeEnsure env module s = .ok () s := by
  rw [bwPeEnsure, bind_of_ok (show getGlobals s = .ok s.globals s from rfl),
    if_neg (not_not.mpr there)]
  rfl

theorem bwPeEnsure_other (other : s.globals.mod ≠ module) :
    bwPeEnsure env module s = bwPeLoad env module s := by
  rw [bwPeEnsure, bind_of_ok (show getGlobals s = .ok s.globals s from rfl), if_pos other]

theorem bwPeEnsure_warm (warm : Warm env s) (ended : bwPeEnsure env module s = .ok () s') :
    Warm env s' := by
  by_cases there : s.globals.mod = module
  · rw [bwPeEnsure_same there] at ended
    cases ended
    exact warm
  · rw [bwPeEnsure_other there] at ended
    exact bwPeLoad_warm ended

/-- From a cache that is warm, a module is there as after a load from anywhere. -/
theorem bwPeEnsure_agree (warm : Warm env s) (isModule : module ≠ 0) (u : LoadState) :
    Agree (Retarget.stay module).Rel (bwPeEnsure env module s) (bwPeLoad env module u) := by
  by_cases there : s.globals.mod = module
  · subst there
    rw [bwPeEnsure_same rfl]
    exact warm isModule u
  · rw [bwPeEnsure_other there]
    exact bwPeLoad_agree (suits_stay env module) s u

theorem bwPeEnsure_fresh (env : Env bits) (isModule : module ≠ 0) :
    bwPeEnsure env module freshProcess = bwPeLoad env module freshProcess :=
  bwPeEnsure_other isModule.symm

/-- A query keeps the cache warm. -/
theorem answer_warm {a : Answer} (warm : Warm env s) (ended : answer env q s = .ok a s') :
    Warm env s' := by
  rw [answer_eq] at ended
  split_ifs at ended
  · cases ended
    exact warm
  · obtain ⟨_, s₁, there, ended⟩ := bind_eq_ok.mp ended
    cases ended
    exact bwPeEnsure_warm warm there

theorem Corresponds.answer_stay {g g' : Globals} (related : Corresponds (Retarget.stay module) g g')
    (q : Query) : g'.answer bits q = g.answer bits q := by
  cases q with
  | find _ ip => exact congrArg Answer.name (related.find fun _ _ => Iff.rfl)
  | line module probe srcLen =>
      exact congrArg Answer.source (related.line rfl)

/-- From a cache that is warm, a query is answered as in a fresh process. -/
theorem answer_warm_eq (warm : Warm env s) (q : Query) :
    verdict (answer env q s) = verdict (answer env q freshProcess) := by
  by_cases isNull : q.module = 0
  · rw [answer_eq, if_pos isNull]
    rfl
  · have there := bwPeEnsure_agree warm isNull freshProcess
    rw [← bwPeEnsure_fresh env isNull] at there
    exact verdict_eq (answer_agree isNull isNull there fun _ _ _ related =>
      Corresponds.answer_stay related q)

theorem answers_warm (warm : Warm env s) (qs : List Query) :
    verdict (answers env qs s) = qs.mapM fun q => verdict (answer env q freshProcess) := by
  induction qs generalizing s with
  | nil => rfl
  | cons q qs inductionHypothesis =>
      rw [List.mapM_cons, ← answer_warm_eq warm q, answers]
      cases first : answer env q s with
      | error why s₁ =>
          rw [bind_of_error first]
          rfl
      | ok a s₁ =>
          rw [bind_of_ok first]
          have later := inductionHypothesis (answer_warm warm first)
          cases rest : answers env qs s₁ with
          | error why s₂ =>
              rw [bind_of_error rest]
              rw [rest] at later
              rw [← later]
              rfl
          | ok as s₂ =>
              rw [bind_of_ok rest]
              rw [rest] at later
              rw [← later]
              rfl

/-- Whatever modules are asked for in whatever order, every query is answered as
if it were the first of its process. -/
theorem answers_transparent (env : Env bits) (qs : List Query) :
    verdict (answers env qs freshProcess) =
      qs.mapM fun q => verdict (answer env q freshProcess) :=
  answers_warm (warm_freshProcess env) qs

end Cache

end Backwalk.Windows
