import Mathlib.Logic.Basic

/-!
# Weakest preconditions of fallible state programs

A program of `EStateM ε σ` ends with a result or with an exception, in both cases in some state.
`wp m Q E s` says that `m`, started in `s`, satisfies `Q` or `E` at its end.

## Main definitions

* `wp`: the weakest precondition
* `finalState`: the state in which a program ends, whichever way
* `thrown`: the exception with which it ends, if any

## Main results

* `wp_bind`, `wp_pure`, `wp_get`, `wp_set`, `wp_modify`, `wp_throw`, `wp_ite`: the rules of the
  program constructs
* `wp_of_forall`, `wp.mono`, `wp.and`, `wp.result`, `wp.elim`, `wp_congr`: what always holds,
  consequence, conjunction, the run itself, case analysis and congruence
* `wp_finalState`, `wp_thrown`: a statement about the final state, or about the exception, is a
  weakest precondition
-/

namespace Program

variable {ε σ α β : Type}

/-- `m`, started in `s`, ends with a result satisfying `Q` or an exception satisfying `E`. -/
def wp (m : EStateM ε σ α) (Q : α → σ → Prop) (E : ε → σ → Prop) (s : σ) : Prop :=
  match m s with
  | .ok a s' => Q a s'
  | .error e s' => E e s'

/-- The state in which a program ends. -/
def finalState (r : EStateM.Result ε σ α) : σ :=
  match r with
  | .ok _ s => s
  | .error _ s => s

/-- The exception with which a program ends. -/
def thrown (r : EStateM.Result ε σ α) : Option ε :=
  match r with
  | .ok _ _ => none
  | .error e _ => some e

section Rules

variable {Q : α → σ → Prop} {E : ε → σ → Prop} {s : σ}

@[simp] theorem wp_pure {a : α} : wp (pure a : EStateM ε σ α) Q E s ↔ Q a s := ⟨id, id⟩

@[simp] theorem wp_bind {m : EStateM ε σ β} {f : β → EStateM ε σ α} :
    wp (m >>= f) Q E s ↔ wp m (fun b s' => wp (f b) Q E s') E s := by
  simp only [wp, bind, EStateM.bind]
  cases m s <;> rfl

@[simp] theorem wp_get {Q : σ → σ → Prop} : wp (get : EStateM ε σ σ) Q E s ↔ Q s s := ⟨id, id⟩

@[simp] theorem wp_set {Q : PUnit → σ → Prop} {s' : σ} :
    wp (set s' : EStateM ε σ PUnit) Q E s ↔ Q () s' := ⟨id, id⟩

@[simp] theorem wp_modify {Q : PUnit → σ → Prop} {f : σ → σ} :
    wp (modify f : EStateM ε σ PUnit) Q E s ↔ Q () (f s) := ⟨id, id⟩

@[simp] theorem wp_throw {e : ε} : wp (throw e : EStateM ε σ α) Q E s ↔ E e s := ⟨id, id⟩

@[simp] theorem wp_ite {c : Prop} {_ : Decidable c} {m n : EStateM ε σ α} :
    wp (if c then m else n) Q E s ↔ (c → wp m Q E s) ∧ (¬ c → wp n Q E s) := by
  split
  · exact ⟨fun h => ⟨fun _ => h, fun hc => absurd ‹_› hc⟩, fun h => h.1 ‹_›⟩
  · exact ⟨fun h => ⟨fun hc => absurd hc ‹_›, fun _ => h⟩, fun h => h.2 ‹_›⟩

/-- What holds of every end holds of the end. -/
theorem wp_of_forall {m : EStateM ε σ α} (hQ : ∀ a s', Q a s') (hE : ∀ e s', E e s') :
    wp m Q E s := by
  unfold wp
  cases m s with
  | ok a s' => exact hQ a s'
  | error e s' => exact hE e s'

/-- Consequence. -/
theorem wp.mono {m : EStateM ε σ α} {Q' : α → σ → Prop} {E' : ε → σ → Prop} (h : wp m Q E s)
    (hQ : ∀ a s', Q a s' → Q' a s') (hE : ∀ e s', E e s' → E' e s') : wp m Q' E' s := by
  unfold wp at h ⊢
  cases hm : m s with
  | ok a s' => rw [hm] at h; exact hQ a s' h
  | error e s' => rw [hm] at h; exact hE e s' h

/-- Two postconditions are established together. -/
theorem wp.and {m : EStateM ε σ α} {Q' : α → σ → Prop} {E' : ε → σ → Prop} (h : wp m Q E s)
    (h' : wp m Q' E' s) : wp m (fun a s => Q a s ∧ Q' a s) (fun e s => E e s ∧ E' e s) s := by
  unfold wp at h h' ⊢
  cases hm : m s with
  | ok a s' => rw [hm] at h h'; exact ⟨h, h'⟩
  | error e s' => rw [hm] at h h'; exact ⟨h, h'⟩

/-- The result and the state of a program that ends are those of its run. -/
theorem wp.result {m : EStateM ε σ α} (h : wp m Q E s) :
    wp m (fun a s' => Q a s' ∧ m s = .ok a s') E s := by
  unfold wp at h ⊢
  cases hm : m s with
  | ok a s' => rw [hm] at h; exact ⟨h, rfl⟩
  | error e s' => rw [hm] at h; exact h

/-- A program ends in one way or the other. -/
theorem wp.elim {m : EStateM ε σ α} {P : Prop} (h : wp m Q E s) (hQ : ∀ a s', Q a s' → P)
    (hE : ∀ e s', E e s' → P) : P := by
  unfold wp at h
  cases hm : m s with
  | ok a s' => rw [hm] at h; exact hQ a s' h
  | error e s' => rw [hm] at h; exact hE e s' h

/-- A weakest precondition depends only on how the program ends. -/
theorem wp_congr {m m' : EStateM ε σ α} (h : m s = m' s) : wp m Q E s ↔ wp m' Q E s := by
  unfold wp
  rw [h]

/-- A statement about the final state is a weakest precondition. -/
theorem wp_finalState {m : EStateM ε σ α} {P : σ → Prop} :
    wp m (fun _ => P) (fun _ => P) s ↔ P (finalState (m s)) := by
  unfold wp finalState
  cases m s <;> rfl

/-- A statement about the exception is a weakest precondition. -/
theorem wp_thrown {m : EStateM ε σ α} {P : Option ε → Prop} :
    wp m (fun _ _ => P none) (fun e _ => P (some e)) s ↔ P (thrown (m s)) := by
  unfold wp thrown
  cases m s <;> rfl

end Rules

end Program
