import Mathlib.Order.Defs.Unbundled

/-!
Owns reasoning about actions: computations with a state that may stop early
with a reason (`EStateM`).

Seven judgements, each closed under the ways actions are put together:

* `Develops R m`: whatever the state, `m` leaves a state that is `R`-after it.
* `StopsFor allowed m`: whatever the state, `m` stops for `allowed` reasons
  only. Neither this nor the one before has a side condition, so instances find
  them for a whole `do` block.
* `Outcome good bad result`: a run answered with `good`, or stopped with `bad`.
* `Preserves P m`: an answer of `m` leaves `P` as it was.
* `Follows P post result₁ result₂`: the second run ended as the first one
  did, as long as the first ended in a state that fits and did not stop for an
  excused reason.
* `Overruns refused late result₁ result₂`: where the first run was refused, the
  second one did not answer or came to a late state.
* `Traced stopsAt allowed visits result`: the run stopped for an allowed reason
  iff one of its visits is where it stops.

Nothing here is about a particular state.
-/

namespace Backwalk.Support

variable {ε σ τ α β γ δ : Type}

/-- The state an action leaves, however it ends. -/
def stateAfter (m : EStateM ε σ α) (s : σ) : σ :=
  match m s with
  | .ok _ s => s
  | .error _ s => s

theorem stateAfter_of_ok {m : EStateM ε σ α} {s s' : σ} {a : α} (ended : m s = .ok a s') :
    stateAfter m s = s' := by
  simp [stateAfter, ended]

theorem stateAfter_of_error {m : EStateM ε σ α} {s s' : σ} {e : ε} (ended : m s = .error e s') :
    stateAfter m s = s' := by
  simp [stateAfter, ended]

theorem bind_of_ok {m : EStateM ε σ α} {f : α → EStateM ε σ β} {s s' : σ} {a : α}
    (ended : m s = .ok a s') : (m >>= f) s = f a s' := by
  change EStateM.bind m f s = f a s'
  simp [EStateM.bind, ended]

theorem bind_of_error {m : EStateM ε σ α} {f : α → EStateM ε σ β} {s s' : σ} {e : ε}
    (ended : m s = .error e s') : (m >>= f) s = .error e s' := by
  change EStateM.bind m f s = .error e s'
  simp [EStateM.bind, ended]

/-- The state after a sequence whose first part answered. -/
theorem stateAfter_bind_of_ok {m : EStateM ε σ α} {f : α → EStateM ε σ β} {s t : σ} {a : α}
    (ended : m s = .ok a t) : stateAfter (m >>= f) s = stateAfter (f a) t := by
  simp only [stateAfter, bind_of_ok ended]

/-- A sequence that answers ran both its parts to an answer. -/
theorem bind_eq_ok {m : EStateM ε σ α} {f : α → EStateM ε σ β} {s s' : σ} {b : β} :
    (m >>= f) s = .ok b s' ↔ ∃ a t, m s = .ok a t ∧ f a t = .ok b s' := by
  cases ended : m s with
  | ok a t => simp [bind_of_ok ended, and_assoc]
  | error e t => simp [bind_of_error ended]

/-- A sequence that stops stopped in one of its parts. -/
theorem bind_eq_error {m : EStateM ε σ α} {f : α → EStateM ε σ β} {s s' : σ} {e : ε} :
    (m >>= f) s = .error e s' ↔
      m s = .error e s' ∨ ∃ a t, m s = .ok a t ∧ f a t = .error e s' := by
  cases ended : m s with
  | ok a t => simp [bind_of_ok ended, and_assoc]
  | error e' t => simp [bind_of_error ended]

/-- Two sequences whose first parts come to the same, and whose second parts do
where these have led. -/
theorem bind_eq_bind {m₁ m₂ : EStateM ε σ α} {f₁ f₂ : α → EStateM ε σ β} {s : σ}
    (first : m₁ s = m₂ s) (next : ∀ a t, m₂ s = .ok a t → f₁ a t = f₂ a t) :
    (m₁ >>= f₁) s = (m₂ >>= f₂) s := by
  cases ended : m₂ s with
  | ok a t => rw [bind_of_ok (first.trans ended), bind_of_ok ended, next a t ended]
  | error e t => rw [bind_of_error (first.trans ended), bind_of_error ended]

/-! ### Development -/

/-- Every run of `m` leaves a state that is `R`-after its first one. -/
class Develops (R : σ → σ → Prop) (m : EStateM ε σ α) : Prop where
  after : ∀ s, R s (stateAfter m s)

section Develops

variable {R : σ → σ → Prop}

theorem Develops.ok {m : EStateM ε σ α} [develops : Develops R m] {s s' : σ} {a : α}
    (ended : m s = .ok a s') : R s s' :=
  stateAfter_of_ok ended ▸ develops.after s

theorem Develops.error {m : EStateM ε σ α} [develops : Develops R m] {s s' : σ} {e : ε}
    (ended : m s = .error e s') : R s s' :=
  stateAfter_of_error ended ▸ develops.after s

instance Develops.pure [Std.Refl R] (a : α) : Develops R (Pure.pure a : EStateM ε σ α) :=
  ⟨fun s => refl_of R s⟩

instance Develops.bind [IsTrans σ R] (m : EStateM ε σ α) (f : α → EStateM ε σ β)
    [first : Develops R m] [next : ∀ a, Develops R (f a)] : Develops R (m >>= f) where
  after s := by
    cases ended : m s with
    | ok a t =>
        have firstPart : R s t := Develops.ok ended
        have nextPart : R t (stateAfter (f a) t) := (next a).after t
        have whole : stateAfter (m >>= f) s = stateAfter (f a) t := by
          simp only [stateAfter, bind_of_ok ended]
        rw [whole]
        exact trans_of R firstPart nextPart
    | error e t =>
        rw [stateAfter_of_error (bind_of_error ended)]
        exact Develops.error ended

instance Develops.ite {c : Prop} [Decidable c] (m₁ m₂ : EStateM ε σ α)
    [yes : Develops R m₁] [no : Develops R m₂] : Develops R (if c then m₁ else m₂) := by
  split
  · exact yes
  · exact no

end Develops

/-! ### Reasons to stop -/

/-- Every run of `m` that stops does so for an allowed reason. -/
class StopsFor (allowed : ε → Prop) (m : EStateM ε σ α) : Prop where
  reason : ∀ {s s' : σ} {e : ε}, m s = .error e s' → allowed e

section StopsFor

variable {allowed : ε → Prop}

instance StopsFor.pure (a : α) : StopsFor allowed (Pure.pure a : EStateM ε σ α) :=
  ⟨fun ended => nomatch ended⟩

/-- An action that always answers. -/
theorem StopsFor.of_answers {m : EStateM ε σ α} (answers : ∀ s, ∃ a t, m s = .ok a t) :
    StopsFor allowed m :=
  ⟨fun {s _ _} ended => by
    obtain ⟨a, t, answered⟩ := answers s
    cases answered.symm.trans ended⟩

instance StopsFor.bind (m : EStateM ε σ α) (f : α → EStateM ε σ β) [first : StopsFor allowed m]
    [next : ∀ a, StopsFor allowed (f a)] : StopsFor allowed (m >>= f) where
  reason ended := by
    rcases bind_eq_error.mp ended with early | ⟨a, t, -, late⟩
    · exact first.reason early
    · exact (next a).reason late

instance StopsFor.ite {c : Prop} [Decidable c] (m₁ m₂ : EStateM ε σ α)
    [yes : StopsFor allowed m₁] [no : StopsFor allowed m₂] :
    StopsFor allowed (if c then m₁ else m₂) := by
  split
  · exact yes
  · exact no

end StopsFor

/-! ### Outcomes -/

/-- A run answered with `good`, or stopped with `bad`. -/
def Outcome (good : α → σ → Prop) (bad : ε → σ → Prop) : EStateM.Result ε σ α → Prop
  | .ok a s => good a s
  | .error e s => bad e s

namespace Outcome

variable {good good' : α → σ → Prop} {bad bad' : ε → σ → Prop}

theorem ok {result : EStateM.Result ε σ α} {a : α} {s : σ} (outcome : Outcome good bad result)
    (ended : result = .ok a s) : good a s := by
  subst ended
  exact outcome

theorem error {result : EStateM.Result ε σ α} {e : ε} {s : σ}
    (outcome : Outcome good bad result) (ended : result = .error e s) : bad e s := by
  subst ended
  exact outcome

/-- An outcome from what the two ways of ending give. -/
theorem intro {result : EStateM.Result ε σ α} (answers : ∀ a s, result = .ok a s → good a s)
    (stops : ∀ e s, result = .error e s → bad e s) : Outcome good bad result := by
  cases ended : result with
  | ok a s => exact answers a s ended
  | error e s => exact stops e s ended

theorem mono {result : EStateM.Result ε σ α} (outcome : Outcome good bad result)
    (answers : ∀ a s, result = .ok a s → good a s → good' a s)
    (stops : ∀ e s, result = .error e s → bad e s → bad' e s) : Outcome good' bad' result :=
  intro (fun a s ended => answers a s ended (outcome.ok ended))
    fun e s ended => stops e s ended (outcome.error ended)

theorem bind {m : EStateM ε σ α} {f : α → EStateM ε σ β} {s : σ} {mid : α → σ → Prop}
    {final : β → σ → Prop} (first : Outcome mid bad (m s))
    (next : ∀ a t, m s = .ok a t → mid a t → Outcome final bad (f a t)) :
    Outcome final bad ((m >>= f) s) := by
  cases ended : m s with
  | ok a t =>
      rw [bind_of_ok ended]
      exact next a t ended (first.ok ended)
  | error e t =>
      rw [bind_of_error ended]
      exact first.error ended

/-- The rule for a first action that stops for reasons of its own. -/
theorem sequence {m : EStateM ε σ α} {f : α → EStateM ε σ β} {s : σ} {mid : α → σ → Prop}
    {final : β → σ → Prop} (first : Outcome mid bad' (m s))
    (stops : ∀ e t, m s = .error e t → bad' e t → bad e t)
    (next : ∀ a t, m s = .ok a t → mid a t → Outcome final bad (f a t)) :
    Outcome final bad ((m >>= f) s) :=
  bind (first.mono (fun _ _ _ held => held) stops) next

theorem ite {c : Prop} [Decidable c] {m₁ m₂ : EStateM ε σ α} {s : σ}
    (yes : c → Outcome good bad (m₁ s)) (no : ¬ c → Outcome good bad (m₂ s)) :
    Outcome good bad ((if c then m₁ else m₂) s) := by
  split
  · next holds => exact yes holds
  · next fails => exact no fails

end Outcome

/-! ### Properties of answers -/

/-- `P` holds when `m` has answered if it did before. -/
class Preserves (P : σ → Prop) (m : EStateM ε σ α) : Prop where
  answer : ∀ {s s' : σ} {a : α}, P s → m s = .ok a s' → P s'

section Preserves

variable {P : σ → Prop}

instance Preserves.pure (a : α) : Preserves P (Pure.pure a : EStateM ε σ α) :=
  ⟨fun holds ended => by cases ended; exact holds⟩

instance Preserves.bind (m : EStateM ε σ α) (f : α → EStateM ε σ β) [first : Preserves P m]
    [next : ∀ a, Preserves P (f a)] : Preserves P (m >>= f) where
  answer holds ended := by
    obtain ⟨a, t, early, late⟩ := bind_eq_ok.mp ended
    exact (next a).answer (first.answer holds early) late

instance Preserves.ite {c : Prop} [Decidable c] (m₁ m₂ : EStateM ε σ α)
    [yes : Preserves P m₁] [no : Preserves P m₂] : Preserves P (if c then m₁ else m₂) := by
  split
  · exact yes
  · exact no

end Preserves

/-! ### Following another run -/

/-- How one run is followed by another: which states go together, which states
of the first run fit, and for which reasons the first run may stop without
being followed. `R` is the development of the first run; a state before one
that fits, fits. -/
structure Pairing (ε σ τ : Type) (R : σ → σ → Prop) where
  Rel : σ → τ → Prop
  Fits : σ → Prop
  Excused : ε → Prop
  fits_before : ∀ {s s'}, R s s' → Fits s' → Fits s

/-- The second run followed the first. -/
def Follows {R : σ → σ → Prop} (P : Pairing ε σ τ R) (post : α → β → σ → τ → Prop)
    (result₁ : EStateM.Result ε σ α) (result₂ : EStateM.Result ε τ β) : Prop :=
  match result₁ with
  | .ok a s => P.Fits s → ∃ b t, result₂ = .ok b t ∧ P.Rel s t ∧ post a b s t
  | .error e s => P.Fits s → ¬ P.Excused e → ∃ t, result₂ = .error e t ∧ P.Rel s t

namespace Follows

variable {R : σ → σ → Prop} {P : Pairing ε σ τ R}

theorem ok {result₁ : EStateM.Result ε σ α} {result₂ : EStateM.Result ε τ β}
    {post : α → β → σ → τ → Prop} (follows : Follows P post result₁ result₂) {a : α} {s : σ}
    (ended : result₁ = .ok a s) (fits : P.Fits s) :
    ∃ b t, result₂ = .ok b t ∧ P.Rel s t ∧ post a b s t := by
  subst ended
  exact follows fits

theorem error {result₁ : EStateM.Result ε σ α} {result₂ : EStateM.Result ε τ β}
    {post : α → β → σ → τ → Prop} (follows : Follows P post result₁ result₂) {e : ε} {s : σ}
    (ended : result₁ = .error e s) (fits : P.Fits s) (held : ¬ P.Excused e) :
    ∃ t, result₂ = .error e t ∧ P.Rel s t := by
  subst ended
  exact follows fits held

/-- Following from what the two ways of ending give. -/
theorem intro {result₁ : EStateM.Result ε σ α} {result₂ : EStateM.Result ε τ β}
    {post : α → β → σ → τ → Prop}
    (answers : ∀ a s, result₁ = .ok a s → P.Fits s →
      ∃ b t, result₂ = .ok b t ∧ P.Rel s t ∧ post a b s t)
    (stops : ∀ e s, result₁ = .error e s → P.Fits s → ¬ P.Excused e →
      ∃ t, result₂ = .error e t ∧ P.Rel s t) : Follows P post result₁ result₂ := by
  cases ended : result₁ with
  | ok a s => exact answers a s ended
  | error e s => exact stops e s ended

theorem pure {post : α → β → σ → τ → Prop} {a : α} {b : β} {s : σ} {t : τ}
    (related : P.Rel s t) (answer : post a b s t) :
    Follows P post ((Pure.pure a : EStateM ε σ α) s) ((Pure.pure b : EStateM ε τ β) t) :=
  fun _ => ⟨b, t, rfl, related, answer⟩

/-- A first run that stops for an excused reason need not be followed. -/
theorem excused {post : α → β → σ → τ → Prop} {result₁ : EStateM.Result ε σ α}
    {result₂ : EStateM.Result ε τ β} {e : ε} {s : σ} (ended : result₁ = .error e s)
    (reason : P.Excused e) : Follows P post result₁ result₂ := by
  subst ended
  exact fun _ held => absurd reason held

theorem bind {m₁ : EStateM ε σ α} {m₂ : EStateM ε τ β} {f₁ : α → EStateM ε σ γ}
    {f₂ : β → EStateM ε τ δ} {s : σ} {t : τ} {mid : α → β → σ → τ → Prop}
    {post : γ → δ → σ → τ → Prop} [develops : ∀ a, Develops R (f₁ a)]
    (first : Follows P mid (m₁ s) (m₂ t))
    (next : ∀ a b s' t', m₁ s = .ok a s' → m₂ t = .ok b t' → P.Rel s' t' → mid a b s' t' →
      Follows P post (f₁ a s') (f₂ b t')) :
    Follows P post ((m₁ >>= f₁) s) ((m₂ >>= f₂) t) := by
  cases ended : m₁ s with
  | ok a s' =>
      rw [bind_of_ok ended]
      -- A state before one that fits, fits: the first part may be followed.
      have back : P.Fits (stateAfter (f₁ a) s') → P.Fits s' :=
        P.fits_before ((develops a).after s')
      refine intro (fun c s'' last fits => ?_) fun e s'' last fits held => ?_
      · rw [stateAfter_of_ok last] at back
        obtain ⟨b, t', ended₂, related, atMid⟩ := first.ok ended (back fits)
        rw [bind_of_ok ended₂]
        exact (next a b s' t' ended ended₂ related atMid).ok last fits
      · rw [stateAfter_of_error last] at back
        obtain ⟨b, t', ended₂, related, atMid⟩ := first.ok ended (back fits)
        rw [bind_of_ok ended₂]
        exact (next a b s' t' ended ended₂ related atMid).error last fits held
  | error e s' =>
      rw [bind_of_error ended]
      refine intro (fun _ _ last => nomatch last) fun e' s'' last fits held => ?_
      cases last
      obtain ⟨t', ended₂, related⟩ := first.error ended fits held
      exact ⟨t', bind_of_error ended₂, related⟩

theorem mono {result₁ : EStateM.Result ε σ α} {result₂ : EStateM.Result ε τ β}
    {post post' : α → β → σ → τ → Prop} (follows : Follows P post result₁ result₂)
    (after : ∀ a b s t, result₁ = .ok a s → P.Rel s t → post a b s t → post' a b s t) :
    Follows P post' result₁ result₂ := by
  refine intro (fun a s ended fits => ?_) fun e s ended fits held => follows.error ended fits held
  obtain ⟨b, t, ended₂, related, atEnd⟩ := follows.ok ended fits
  exact ⟨b, t, ended₂, related, after a b s t ended related atEnd⟩

/-- Following under a stricter pairing. -/
theorem relax {P' : Pairing ε σ τ R} {result₁ : EStateM.Result ε σ α}
    {result₂ : EStateM.Result ε τ β} {post : α → β → σ → τ → Prop}
    (rel : ∀ {s t}, P.Rel s t → P'.Rel s t) (fits : ∀ {s}, P'.Fits s → P.Fits s)
    (excuse : ∀ {e}, P.Excused e → P'.Excused e) (follows : Follows P post result₁ result₂) :
    Follows P' post result₁ result₂ := by
  refine intro (fun a s ended fits' => ?_) fun e s ended fits' held => ?_
  · obtain ⟨b, t, ended₂, related, atEnd⟩ := follows.ok ended (fits fits')
    exact ⟨b, t, ended₂, rel related, atEnd⟩
  · obtain ⟨t, ended₂, related⟩ := follows.error ended (fits fits') (mt excuse held)
    exact ⟨t, ended₂, rel related⟩

end Follows

/-! ### Running past another run -/

/-- If the first run was refused, the second did not answer, or only late. -/
def Overruns (refused : ε → Prop) (late : τ → Prop) (result₁ : EStateM.Result ε σ α)
    (result₂ : EStateM.Result ε τ β) : Prop :=
  ∀ e s, result₁ = .error e s → refused e → ∀ b t, result₂ = .ok b t → late t

namespace Overruns

variable {refused : ε → Prop} {late late' : τ → Prop}

theorem mono {result₁ : EStateM.Result ε σ α} {result₂ : EStateM.Result ε τ β}
    (overruns : Overruns refused late result₁ result₂) (later : ∀ t, late t → late' t) :
    Overruns refused late' result₁ result₂ :=
  fun e s stopped isRefused b t answered => later t (overruns e s stopped isRefused b t answered)

/-- A second run that stops is not late. -/
theorem of_error {result₁ : EStateM.Result ε σ α} {result₂ : EStateM.Result ε τ β} {e : ε} {t : τ}
    (stopped : result₂ = .error e t) : Overruns refused late result₁ result₂ :=
  fun _ _ _ _ _ _ answered => by cases stopped.symm.trans answered

/-- A first run that is not refused is not run past. -/
theorem of_stopsFor (m : EStateM ε σ α) [stops : StopsFor (fun e => ¬ refused e) m] (s : σ)
    (result₂ : EStateM.Result ε τ β) : Overruns refused late (m s) result₂ :=
  fun _ _ stopped isRefused => absurd isRefused (stops.reason stopped)

theorem bind {m₁ : EStateM ε σ α} {m₂ : EStateM ε τ β} {f₁ : α → EStateM ε σ γ}
    {f₂ : β → EStateM ε τ δ} {s : σ} {t : τ} [preserves : ∀ b, Preserves late (f₂ b)]
    (first : Overruns refused late (m₁ s) (m₂ t))
    (next : ∀ a b s' t', m₁ s = .ok a s' → m₂ t = .ok b t' →
      Overruns refused late (f₁ a s') (f₂ b t')) :
    Overruns refused late ((m₁ >>= f₁) s) ((m₂ >>= f₂) t) := by
  intro e s'' stopped isRefused c t'' answered
  obtain ⟨b, t', answeredFirst, answeredLast⟩ := bind_eq_ok.mp answered
  rcases bind_eq_error.mp stopped with early | ⟨a, s', ended, last⟩
  · exact (preserves b).answer (first e s'' early isRefused b t' answeredFirst) answeredLast
  · exact next a b s' t' ended answeredFirst e s'' last isRefused c t'' answeredLast

end Overruns

/-! ### Visits -/

section Traced

variable {ν : Type} {stopsAt : ν → ε → Prop} {allowed : ε → Prop} {s : σ} {visits : List ν}

/-- What is visited once `m` has answered. -/
def visitsAfter (m : EStateM ε σ α) (next : α → σ → List ν) (s : σ) : List ν :=
  match m s with
  | .ok a t => next a t
  | .error _ _ => []

theorem visitsAfter_of_ok {m : EStateM ε σ α} {next : α → σ → List ν} {t : σ} {a : α}
    (ended : m s = .ok a t) : visitsAfter m next s = next a t := by
  rw [visitsAfter, ended]

theorem visitsAfter_of_error {m : EStateM ε σ α} {next : α → σ → List ν} {t : σ} {e : ε}
    (ended : m s = .error e t) : visitsAfter m next s = [] := by
  rw [visitsAfter, ended]

/-- A run that answered has stopped at none of the visits. One that stopped for
an allowed reason did so at one of them, and at none for another reason. -/
def Traced (stopsAt : ν → ε → Prop) (allowed : ε → Prop) (visits : List ν) :
    EStateM.Result ε σ α → Prop :=
  Outcome (fun _ _ => ∀ visit ∈ visits, ∀ e, ¬ stopsAt visit e) fun e _ => allowed e →
    (∃ visit ∈ visits, stopsAt visit e) ∧ ∀ visit ∈ visits, ∀ e', stopsAt visit e' → e' = e

namespace Traced

/-- An action that stops for no allowed reason has no visits. -/
theorem silent (m : EStateM ε σ α) [stops : StopsFor (fun e => ¬ allowed e) m] (s : σ) :
    Traced stopsAt allowed [] (m s) :=
  Outcome.intro (fun _ _ _ _ member => nomatch member)
    fun _ _ stopped isAllowed => absurd isAllowed (stops.reason stopped)

/-- A run that is a visit. -/
theorem single {m : EStateM ε σ α} {visit : ν}
    (same : ∀ e, stopsAt visit e ↔ ∃ t, m s = .error e t) :
    Traced stopsAt allowed [visit] (m s) := by
  refine Outcome.intro (fun a t ended other member e stops => ?_) fun e t ended _ => ⟨?_, ?_⟩
  · obtain ⟨u, stopped⟩ := (same e).mp (List.mem_singleton.mp member ▸ stops)
    cases ended.symm.trans stopped
  · exact ⟨visit, List.mem_singleton_self _, (same e).mpr ⟨t, ended⟩⟩
  · intro other member e' stops
    obtain ⟨u, stopped⟩ := (same e').mp (List.mem_singleton.mp member ▸ stops)
    cases ended.symm.trans stopped
    rfl

theorem bind {m : EStateM ε σ α} {f : α → EStateM ε σ β} {next : α → σ → List ν}
    (first : Traced stopsAt allowed visits (m s))
    (rest : ∀ a t, m s = .ok a t → Traced stopsAt allowed (next a t) (f a t)) :
    Traced stopsAt allowed (visits ++ visitsAfter m next s) ((m >>= f) s) := by
  cases ended : m s with
  | error e t =>
      rw [bind_of_error ended, visitsAfter_of_error ended, List.append_nil]
      exact first.error ended
  | ok a t =>
      have before := first.ok ended
      rw [bind_of_ok ended, visitsAfter_of_ok ended]
      refine (rest a t ended).mono (fun _ _ _ none visit member => ?_)
        fun e _ _ stops isAllowed => ?_
      · exact (List.mem_append.mp member).elim (before visit) (none visit)
      · obtain ⟨⟨visit, member, atVisit⟩, same⟩ := stops isAllowed
        refine ⟨⟨visit, List.mem_append_right _ member, atVisit⟩, fun other member' e' stops' => ?_⟩
        rcases List.mem_append.mp member' with early | late
        · exact absurd stops' (before other early e')
        · exact same other late e' stops'

end Traced

end Traced

end Backwalk.Support
