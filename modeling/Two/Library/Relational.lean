import Mathlib.Logic.Basic

/-!
# Programs that do not look at a part of the state

Two programs of `EStateM ε σ` are related by a relation `R` on states if from states that `R` relates
they end alike, with the same result or the same exception, in states that `R` relates again.

## Main definitions

* `Ends R`: two ends of a program that are alike
* `Related R m m'`: the programs end alike from related states

## Main results

* `Related.pure`, `Related.bind`, `Related.ite`, `Related.throw`, `Related.modify`,
  `Related.get_bind`: the rules of the program constructs
-/

namespace Program

variable {ε σ α β : Type}

/-- The same result or the same exception, in related states. -/
inductive Ends (R : σ → σ → Prop) : EStateM.Result ε σ α → EStateM.Result ε σ α → Prop
  | ok (a : α) {s s' : σ} (h : R s s') : Ends R (.ok a s) (.ok a s')
  | error (e : ε) {s s' : σ} (h : R s s') : Ends R (.error e s) (.error e s')

/-- From related states the programs end alike. -/
def Related (R : σ → σ → Prop) (m m' : EStateM ε σ α) : Prop :=
  ∀ s s', R s s' → Ends R (m s) (m' s')

section Rules

variable {R : σ → σ → Prop} {m m' n n' : EStateM ε σ α}

protected theorem Related.pure (a : α) : Related R (pure a : EStateM ε σ α) (pure a) :=
  fun _ _ h => .ok a h

protected theorem Related.throw (e : ε) : Related R (throw e : EStateM ε σ α) (throw e) :=
  fun _ _ h => .error e h

theorem Related.bind {f f' : α → EStateM ε σ β} (hm : Related R m m')
    (hf : ∀ a, Related R (f a) (f' a)) : Related R (m >>= f) (m' >>= f') := by
  intro s s' h
  have hends := hm s s' h
  simp only [Bind.bind, EStateM.bind]
  revert hends
  generalize m s = r
  generalize m' s' = r'
  rintro (⟨a, h'⟩ | ⟨e, h'⟩)
  · exact hf a _ _ h'
  · exact .error e h'

theorem Related.ite {c : Prop} [Decidable c] (hm : c → Related R m m') (hn : ¬ c → Related R n n') :
    Related R (if c then m else n) (if c then m' else n') := by
  split
  · exact hm ‹_›
  · exact hn ‹_›

protected theorem Related.modify {f f' : σ → σ} (h : ∀ s s', R s s' → R (f s) (f' s')) :
    Related R (modify f : EStateM ε σ PUnit) (modify f') :=
  fun s s' hs => .ok () (h s s' hs)

/-- A program that reads the state may do so in its own way. -/
theorem Related.get_bind {f f' : σ → EStateM ε σ α}
    (h : ∀ s s', R s s' → Ends R (f s s) (f' s' s')) :
    Related R ((get : EStateM ε σ σ) >>= f) ((get : EStateM ε σ σ) >>= f') :=
  fun s s' hs => h s s' hs

end Rules

end Program
