import Backwalk.Support.Action

/-!
Owns agreement of two runs: they end in the same way, with the same answer or
the same error, in states that a relation relates. An action is blind to what
its states may differ in when any two of its runs from related states agree.

Owns too when a run is that of another action: from the same state, as long as
it ends in a state that fits, the other ends in the very same way, and neither
stops for a barred reason.
-/

namespace Backwalk.Support

variable {ε σ α β : Type}

/-- The same answer or the same error, in related states. -/
def Agree (R : σ → σ → Prop) : EStateM.Result ε σ α → EStateM.Result ε σ α → Prop
  | .ok a s, .ok b t => a = b ∧ R s t
  | .error e s, .error f t => e = f ∧ R s t
  | _, _ => False

namespace Agree

variable {R : σ → σ → Prop} {result₁ result₂ : EStateM.Result ε σ α}

theorem ok (agree : Agree R result₁ result₂) {a : α} {s : σ} (ended : result₁ = .ok a s) :
    ∃ t, result₂ = .ok a t ∧ R s t := by
  subst ended
  cases result₂ with
  | ok b t =>
      obtain ⟨rfl, related⟩ := agree
      exact ⟨t, rfl, related⟩
  | error e t => exact agree.elim

theorem error (agree : Agree R result₁ result₂) {e : ε} {s : σ} (ended : result₁ = .error e s) :
    ∃ t, result₂ = .error e t ∧ R s t := by
  subst ended
  cases result₂ with
  | ok b t => exact agree.elim
  | error f t =>
      obtain ⟨rfl, related⟩ := agree
      exact ⟨t, rfl, related⟩

/-- Agreement goes through a sequence; the parts may be different actions. -/
theorem bind {m₁ m₂ : EStateM ε σ α} {f₁ f₂ : α → EStateM ε σ β} {s t : σ}
    (first : Agree R (m₁ s) (m₂ t))
    (next : ∀ a s' t', m₁ s = .ok a s' → R s' t' → Agree R (f₁ a s') (f₂ a t')) :
    Agree R ((m₁ >>= f₁) s) ((m₂ >>= f₂) t) := by
  cases ended : m₁ s with
  | ok a s' =>
      obtain ⟨t', ended₂, related⟩ := first.ok ended
      rw [bind_of_ok ended, bind_of_ok ended₂]
      exact next a s' t' ended related
  | error e s' =>
      obtain ⟨t', ended₂, related⟩ := first.error ended
      rw [bind_of_error ended, bind_of_error ended₂]
      exact ⟨rfl, related⟩

/-- Two sequences with the same first part. -/
theorem bind_same [Std.Refl R] {m : EStateM ε σ α} {f₁ f₂ : α → EStateM ε σ β} {s : σ}
    (next : ∀ a s', m s = .ok a s' → Agree R (f₁ a s') (f₂ a s')) :
    Agree R ((m >>= f₁) s) ((m >>= f₂) s) := by
  cases ended : m s with
  | ok a s' =>
      rw [bind_of_ok ended, bind_of_ok ended]
      exact next a s' ended
  | error e s' =>
      rw [bind_of_error ended, bind_of_error ended]
      exact ⟨rfl, refl_of R s'⟩

theorem ite {c : Prop} [Decidable c] {m₁ m₂ n₁ n₂ : EStateM ε σ α} {s t : σ}
    (yes : c → Agree R (m₁ s) (m₂ t)) (no : ¬ c → Agree R (n₁ s) (n₂ t)) :
    Agree R ((if c then m₁ else n₁) s) ((if c then m₂ else n₂) t) := by
  split
  · next holds => exact yes holds
  · next fails => exact no fails

end Agree

/-- Any two runs from related states agree. -/
class Blind (R : σ → σ → Prop) (m : EStateM ε σ α) : Prop where
  agree : ∀ {s t}, R s t → Agree R (m s) (m t)

section Blind

variable {R : σ → σ → Prop}

instance Blind.pure (a : α) : Blind R (Pure.pure a : EStateM ε σ α) :=
  ⟨fun related => ⟨rfl, related⟩⟩

instance Blind.bind (m : EStateM ε σ α) (f : α → EStateM ε σ β) [first : Blind R m]
    [next : ∀ a, Blind R (f a)] : Blind R (m >>= f) :=
  ⟨fun related => (first.agree related).bind fun a _ _ _ related' => (next a).agree related'⟩

instance Blind.ite {c : Prop} [Decidable c] (m₁ m₂ : EStateM ε σ α) [yes : Blind R m₁]
    [no : Blind R m₂] : Blind R (if c then m₁ else m₂) := by
  split
  · exact yes
  · exact no

end Blind

/-- A run that ends in a state that fits is that of another action too, and has not
stopped for a barred reason. -/
def Coincide (fits : σ → Prop) (barred : ε → Prop) (result₁ result₂ : EStateM.Result ε σ α) :
    Prop :=
  match result₁ with
  | .ok a s => fits s → result₂ = .ok a s
  | .error e s => fits s → result₂ = .error e s ∧ ¬ barred e

namespace Coincide

variable {fits : σ → Prop} {barred : ε → Prop} {result₁ result₂ : EStateM.Result ε σ α}

theorem ok (coincide : Coincide fits barred result₁ result₂) {a : α} {s : σ}
    (ended : result₁ = .ok a s) (fit : fits s) : result₂ = .ok a s := by
  subst ended
  exact coincide fit

theorem error (coincide : Coincide fits barred result₁ result₂) {e : ε} {s : σ}
    (ended : result₁ = .error e s) (fit : fits s) : result₂ = .error e s ∧ ¬ barred e := by
  subst ended
  exact coincide fit

theorem intro (answers : ∀ a s, result₁ = .ok a s → fits s → result₂ = .ok a s)
    (stops : ∀ e s, result₁ = .error e s → fits s → result₂ = .error e s ∧ ¬ barred e) :
    Coincide fits barred result₁ result₂ := by
  cases ended : result₁ with
  | ok a s => exact answers a s ended
  | error e s => exact stops e s ended

/-- An action that does not stop for a barred reason, twice. -/
theorem same {m : EStateM ε σ α} [free : StopsFor (fun e => ¬ barred e) m] (s : σ) :
    Coincide fits barred (m s) (m s) :=
  intro (fun _ _ ended _ => ended) fun _ _ ended _ => ⟨ended, free.reason ended⟩

/-- A state from which a sequence goes on to one that fits, fits. -/
theorem bind {R : σ → σ → Prop} (back : ∀ {s t}, R s t → fits t → fits s)
    {m₁ m₂ : EStateM ε σ α} {f₁ f₂ : α → EStateM ε σ β} [develops : ∀ a, Develops R (f₁ a)] {s : σ}
    (first : Coincide fits barred (m₁ s) (m₂ s))
    (next : ∀ a t, m₁ s = .ok a t → Coincide fits barred (f₁ a t) (f₂ a t)) :
    Coincide fits barred ((m₁ >>= f₁) s) ((m₂ >>= f₂) s) := by
  refine intro (fun b u ended fit => ?_) fun e u ended fit => ?_
  · obtain ⟨a, t, ran, rest⟩ := bind_eq_ok.mp ended
    have later : R t u := Develops.ok rest
    rw [bind_of_ok (first.ok ran (back later fit))]
    exact (next a t ran).ok rest fit
  · rcases bind_eq_error.mp ended with early | ⟨a, t, ran, late⟩
    · obtain ⟨sameEnd, free⟩ := first.error early fit
      exact ⟨bind_of_error sameEnd, free⟩
    · have later : R t u := Develops.error late
      rw [bind_of_ok (first.ok ran (back later fit))]
      exact (next a t ran).error late fit

theorem ite {c : Prop} [Decidable c] {m₁ m₂ n₁ n₂ : EStateM ε σ α} {s : σ}
    (yes : c → Coincide fits barred (m₁ s) (m₂ s)) (no : ¬ c → Coincide fits barred (n₁ s) (n₂ s)) :
    Coincide fits barred ((if c then m₁ else n₁) s) ((if c then m₂ else n₂) s) := by
  split
  · next holds => exact yes holds
  · next fails => exact no fails

end Coincide

end Backwalk.Support
