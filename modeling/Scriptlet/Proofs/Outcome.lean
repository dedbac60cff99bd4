/-!
# Outcomes of Computations

Checking, running and parsing are all computations that carry a state and can
fail, and a failure keeps the state it arose in. So an outcome always has a
state, and a sequence of two computations either fails in the first or goes on
from the state that the first one left.

The lemmas here take a sequence apart. They are what every later proof opens a
`do` block with, so that no proof has to look inside the monad itself.

## Main definitions

* `Outcome.state`: The state of an outcome, be it a success or a failure.
* `Outcome.mapState`: An outcome with its state seen through a function.
* `Outcome.Passed`: Whether an outcome is a success.
* `Keeps`: A computation that relates the state before it to the state after.
* `Looks`: A computation that looks at the state and leaves it as it is.
* `FailsAs`, `ErrsAs`: A computation all of whose failures are of some kind.

## Theorems

* `bind_eq_ok`: A sequence succeeds exactly if both parts do.
* `keeps_bind`: A transitive relation that two parts keep is kept by their
  sequence.
* `failsAs_bind`: A sequence fails as one of its parts does.
-/

namespace Scriptlet

namespace Outcome

variable {ε σ τ α β : Type}

/-- The state of an outcome, be it a success or a failure. -/
def state : EStateM.Result ε σ α → σ
  | .ok _ s => s
  | .error _ s => s

/-- An outcome with its state seen through a function. -/
def mapState (f : σ → τ) : EStateM.Result ε σ α → EStateM.Result ε τ α
  | .ok a s => .ok a (f s)
  | .error e s => .error e (f s)

/-- Whether an outcome is a success. -/
def Passed : EStateM.Result ε σ α → Prop
  | .ok _ _ => True
  | .error _ _ => False

theorem passed_mapState (f : σ → τ) (outcome : EStateM.Result ε σ α) :
    Passed (mapState f outcome) ↔ Passed outcome := by
  cases outcome with
  | ok a s => exact Iff.rfl
  | error e s => exact Iff.rfl

theorem state_mapState (f : σ → τ) (outcome : EStateM.Result ε σ α) :
    state (mapState f outcome) = f (state outcome) := by
  cases outcome with
  | ok a s => rfl
  | error e s => rfl

theorem pure_apply (a : α) (s : σ) : (pure a : EStateM ε σ α) s = .ok a s := rfl

theorem bind_apply (x : EStateM ε σ α) (f : α → EStateM ε σ β) (s : σ) :
    (x >>= f) s = match x s with
      | .ok a s' => f a s'
      | .error e s' => .error e s' := rfl

/-- After a success, a sequence is its second part. -/
theorem bind_of_ok {x : EStateM ε σ α} {s s' : σ} {a : α} (h : x s = .ok a s')
    (f : α → EStateM ε σ β) : (x >>= f) s = f a s' := by
  rw [bind_apply, h]

/-- After a failure, a sequence is that failure. -/
theorem bind_of_error {x : EStateM ε σ α} {s s' : σ} {e : ε} (h : x s = .error e s')
    (f : α → EStateM ε σ β) : (x >>= f) s = .error e s' := by
  rw [bind_apply, h]

theorem bind_eq_ok {x : EStateM ε σ α} {f : α → EStateM ε σ β} {s t : σ} {b : β} :
    (x >>= f) s = .ok b t ↔ ∃ a s', x s = .ok a s' ∧ f a s' = .ok b t := by
  constructor
  · intro h
    cases hx : x s with
    | ok a s' => exact ⟨a, s', rfl, by rw [← bind_of_ok hx f]; exact h⟩
    | error e s' =>
        rw [bind_of_error hx f] at h
        exact absurd h (by simp only [reduceCtorEq, not_false_eq_true])
  · rintro ⟨a, s', hx, hf⟩
    rw [bind_of_ok hx f, hf]

/-- The same for computations without a state. -/
theorem except_bind_eq_ok {x : Except ε α} {f : α → Except ε β} {b : β} :
    (x >>= f) = .ok b ↔ ∃ a, x = .ok a ∧ f a = .ok b := by
  cases x with
  | error e =>
      constructor
      · intro h
        exact absurd h (by simp only [bind, Except.bind, reduceCtorEq, not_false_eq_true])
      · rintro ⟨a, ha, _⟩
        exact absurd ha (by simp only [reduceCtorEq, not_false_eq_true])
  | ok a =>
      constructor
      · intro h
        exact ⟨a, rfl, h⟩
      · rintro ⟨a', ha, hf⟩
        rw [Except.ok.inj ha]
        exact hf

/-- The state before a computation is related to the state after it, whether it
    succeeds or fails. -/
def Keeps (R : σ → σ → Prop) (x : EStateM ε σ α) : Prop := ∀ s, R s (state (x s))

theorem keeps_ok {R : σ → σ → Prop} {x : EStateM ε σ α} (hx : Keeps R x) {s t : σ} {a : α}
    (h : x s = .ok a t) : R s t := by
  have hs := hx s
  rw [h] at hs
  exact hs

theorem keeps_error {R : σ → σ → Prop} {x : EStateM ε σ α} (hx : Keeps R x) {s t : σ} {e : ε}
    (h : x s = .error e t) : R s t := by
  have hs := hx s
  rw [h] at hs
  exact hs

/-- A relation that can be chained is kept by a sequence if both parts keep it.
    The second part is only asked for what it does to the values that the first
    one gives. -/
theorem keeps_bind {R : σ → σ → Prop} (trans : ∀ a b c, R a b → R b c → R a c)
    {x : EStateM ε σ α} {f : α → EStateM ε σ β} (hx : Keeps R x) (hf : ∀ a, Keeps R (f a)) :
    Keeps R (x >>= f) := by
  intro s
  cases hs : x s with
  | ok a s' =>
      rw [bind_of_ok hs f]
      exact trans s s' _ (keeps_ok hx hs) (hf a s')
  | error e s' =>
      rw [bind_of_error hs f]
      exact keeps_error hx hs

/-- A computation that looks at the state and leaves it as it is. -/
structure Looks (look : σ → Except ε α) (x : EStateM ε σ α) : Prop where
  found : ∀ {s a}, look s = .ok a → x s = .ok a s
  missed : ∀ {s e}, look s = .error e → x s = .error e s

theorem keeps_of_looks {R : σ → σ → Prop} (refl : ∀ s, R s s) {look : σ → Except ε α}
    {x : EStateM ε σ α} (h : Looks look x) : Keeps R x := by
  intro s
  cases hs : look s with
  | ok a =>
      rw [h.found hs]
      exact refl s
  | error e =>
      rw [h.missed hs]
      exact refl s

/-- Every failure of a computation is of some kind. -/
def FailsAs (kind : ε → Prop) (x : EStateM ε σ α) : Prop := ∀ s e t, x s = .error e t → kind e

/-- The same for computations without a state. -/
def ErrsAs (kind : ε → Prop) (x : Except ε α) : Prop := ∀ e, x = .error e → kind e

section Kinds

variable {kind other : ε → Prop}

theorem failsAs_pure (a : α) : FailsAs kind (pure a : EStateM ε σ α) := by
  intro s e t h
  cases h

theorem failsAs_throw {e : ε} (h : kind e) : FailsAs kind (throw e : EStateM ε σ α) := by
  intro s e' t hfail
  cases hfail
  exact h

/-- A sequence fails as its first part does or as its second does. -/
theorem failsAs_bind {x : EStateM ε σ α} {f : α → EStateM ε σ β} (hx : FailsAs kind x)
    (hf : ∀ a, FailsAs kind (f a)) : FailsAs kind (x >>= f) := by
  intro s e t h
  cases hs : x s with
  | ok a s' =>
      rw [bind_of_ok hs f] at h
      exact hf a s' e t h
  | error e' s' =>
      rw [bind_of_error hs f] at h
      cases h
      exact hx s _ _ hs

theorem errsAs_ok (a : α) : ErrsAs kind (.ok a) := by
  intro e h
  cases h

theorem errsAs_error {e : ε} (h : kind e) : ErrsAs kind (.error e : Except ε α) := by
  intro e' herror
  cases herror
  exact h

theorem errsAs_mono {x : Except ε α} (hx : ErrsAs kind x) (h : ∀ e, kind e → other e) :
    ErrsAs other x := fun e herror => h e (hx e herror)

theorem errsAs_bind {x : Except ε α} {f : α → Except ε β} (hx : ErrsAs kind x)
    (hf : ∀ a, ErrsAs kind (f a)) : ErrsAs kind (x >>= f) := by
  intro e h
  cases x with
  | ok a => exact hf a e h
  | error e' =>
      cases h
      exact hx e rfl

theorem failsAs_of_looks {look : σ → Except ε α} {x : EStateM ε σ α} (h : Looks look x)
    (hlook : ∀ s, ErrsAs kind (look s)) : FailsAs kind x := by
  intro s e t hfail
  cases hs : look s with
  | ok a =>
      rw [h.found hs] at hfail
      cases hfail
  | error e' =>
      rw [h.missed hs] at hfail
      cases hfail
      exact hlook s _ hs

end Kinds

end Outcome

end Scriptlet
