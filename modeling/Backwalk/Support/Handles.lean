import Backwalk.Support.Action
import Mathlib.Data.Finset.Basic

/-!
Contract: handles, which a system gives out and a program gives back.

Owns programs that work on a state of their own and hold handles meanwhile. A
program stops that uses a handle which it does not hold or gives one back twice.
Owns when such a program does exactly what a program without handles does and
ends with given handles, and how this is seen along the program.

Does not own the system. It may refuse any request and give out any handle that is
not held.
-/

namespace Backwalk.Support

variable {H ε σ α β ρ : Type}

/-- The handles that are held, and the state of the program. -/
structure Holding (H σ : Type) where
  held : Finset H
  state : σ

/-- Why a program with handles did not go on. -/
inductive HandleFault (ε : Type) where
  | notHeld
  | inner (why : ε)
deriving DecidableEq, Repr

abbrev HandleAction (H ε σ α : Type) := EStateM (HandleFault ε) (Holding H σ) α

/-- What the system gives at a request: a handle that nobody holds, with what it
stands for. -/
structure Giver (H ρ : Type) where
  gives : Finset H → Option (H × ρ)
  fresh : ∀ held h r, gives held = some (h, r) → h ∉ held

section Actions

variable [DecidableEq H]

/-- Ask for a handle. -/
def acquire (giver : Giver H ρ) : HandleAction H ε σ (Option (H × ρ)) := fun s =>
  match giver.gives s.held with
  | none => .ok none s
  | some (h, r) => .ok (some (h, r)) { s with held := insert h s.held }

/-- Give a handle back. -/
def release (h : H) : HandleAction H ε σ Unit := fun s =>
  if h ∈ s.held then .ok () { s with held := s.held.erase h } else .error .notHeld s

/-- Ask the system something about a handle. -/
def enquire (h : H) (answer : α) : HandleAction H ε σ α := fun s =>
  if h ∈ s.held then .ok answer s else .error .notHeld s

/-- Work that needs no handle. -/
def inside (m : EStateM ε σ α) : HandleAction H ε σ α := fun s =>
  match m s.state with
  | .ok a t => .ok a { s with state := t }
  | .error why t => .error (.inner why) { s with state := t }

/-- Work that needs a handle. -/
def during (h : H) (m : EStateM ε σ α) : HandleAction H ε σ α := fun s =>
  if h ∈ s.held then inside m s else .error .notHeld s

end Actions

/-- With the handles `before`, the action does what `m` does and ends with the handles
`after`, unless `m` stops. -/
def Turns (before after : Finset H) (action : HandleAction H ε σ α) (m : EStateM ε σ α) : Prop :=
  ∀ s, match m s with
    | .ok a t => action ⟨before, s⟩ = .ok a ⟨after, t⟩
    | .error why t => ∃ held, action ⟨before, s⟩ = .error (.inner why) ⟨held, t⟩

section Turns

variable {before after middle : Finset H} {m : EStateM ε σ α} {h : H}

theorem Turns.ok {action : HandleAction H ε σ α} {s t : σ} {a : α}
    (turns : Turns before after action m) (ended : m s = .ok a t) :
    action ⟨before, s⟩ = .ok a ⟨after, t⟩ := by
  have here := turns s
  rw [ended] at here
  exact here

theorem Turns.error {action : HandleAction H ε σ α} {s t : σ} {why : ε}
    (turns : Turns before after action m) (ended : m s = .error why t) :
    ∃ held, action ⟨before, s⟩ = .error (.inner why) ⟨held, t⟩ := by
  have here := turns s
  rw [ended] at here
  exact here

/-- A first step that leaves the state alone. -/
theorem Turns.first {action : HandleAction H ε σ β} {rest : β → HandleAction H ε σ α} {b : β}
    (ran : ∀ s, action ⟨before, s⟩ = .ok b ⟨middle, s⟩) (turns : Turns middle after (rest b) m) :
    Turns before after (action >>= rest) m := by
  intro s
  rw [bind_of_ok (ran s)]
  exact turns s

theorem Turns.pure (a : α) :
    Turns before before (Pure.pure a : HandleAction H ε σ α) (Pure.pure a) := fun _ => rfl

theorem Turns.inside (m : EStateM ε σ α) :
    Turns before before (Support.inside m : HandleAction H ε σ α) m := by
  intro s
  cases ended : m s with
  | ok a t =>
      dsimp only
      rw [Support.inside, ended]
  | error why t =>
      refine ⟨before, ?_⟩
      rw [Support.inside, ended]

/-- Work first, on both sides. -/
theorem Turns.bind {action : HandleAction H ε σ β} {first : EStateM ε σ β}
    {rest : β → HandleAction H ε σ α} {next : β → EStateM ε σ α}
    (turns : Turns before middle action first) (then_ : ∀ b, Turns middle after (rest b) (next b)) :
    Turns before after (action >>= rest) (first >>= next) := by
  intro s
  cases ended : first s with
  | ok b t =>
      rw [bind_of_ok ended, bind_of_ok (turns.ok ended)]
      exact then_ b t
  | error why t =>
      obtain ⟨held, stopped⟩ := turns.error ended
      rw [bind_of_error ended]
      exact ⟨held, bind_of_error stopped⟩

/-- Handles may be given back when the work is done. -/
theorem Turns.finish {action : HandleAction H ε σ α} {rest : α → HandleAction H ε σ α}
    (turns : Turns before middle action m)
    (then_ : ∀ a, Turns middle after (rest a) (Pure.pure a)) :
    Turns before after (action >>= rest) m := by
  have whole := turns.bind then_
  rwa [bind_pure] at whole

variable [DecidableEq H]

/-- A request is refused, or there is a handle more. -/
theorem Turns.acquire {giver : Giver H ρ}
    {rest : Option (H × ρ) → HandleAction H ε σ α}
    (refused : giver.gives before = none → Turns before after (rest none) m)
    (given : ∀ h r, giver.gives before = some (h, r) → h ∉ before →
      Turns (insert h before) after (rest (some (h, r))) m) :
    Turns before after (Support.acquire giver >>= rest) m := by
  cases gives : giver.gives before with
  | none =>
      have ran : ∀ s : σ, (Support.acquire giver : HandleAction H ε σ _) ⟨before, s⟩ =
          .ok none ⟨before, s⟩ := by
        intro s
        rw [Support.acquire, gives]
      exact Turns.first ran (refused gives)
  | some pair =>
      have fresh : pair.1 ∉ before := giver.fresh before pair.1 pair.2 gives
      have ran : ∀ s : σ, (Support.acquire giver : HandleAction H ε σ _) ⟨before, s⟩ =
          .ok (some pair) ⟨insert pair.1 before, s⟩ := by
        intro s
        rw [Support.acquire, gives]
      exact Turns.first ran (given pair.1 pair.2 gives fresh)

theorem Turns.release {rest : Unit → HandleAction H ε σ α} (held : h ∈ before)
    (turns : Turns (before.erase h) after (rest ()) m) :
    Turns before after (Support.release h >>= rest) m := by
  apply turns.first
  intro s
  exact if_pos held

theorem Turns.released (held : h ∈ before) :
    Turns before (before.erase h) (Support.release h : HandleAction H ε σ Unit) (Pure.pure ()) :=
  fun _ => if_pos held

theorem Turns.enquire {answer : β} {rest : β → HandleAction H ε σ α} (held : h ∈ before)
    (turns : Turns before after (rest answer) m) :
    Turns before after (Support.enquire h answer >>= rest) m := by
  apply turns.first
  intro s
  exact if_pos held

theorem Turns.during (held : h ∈ before) (m : EStateM ε σ α) :
    Turns before before (Support.during h m) m := by
  intro s
  have same : Support.during h m ⟨before, s⟩ = Support.inside m ⟨before, s⟩ := if_pos held
  rw [same]
  exact Turns.inside m s

end Turns

end Backwalk.Support
