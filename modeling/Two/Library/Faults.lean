import Mathlib.Tactic.Common

/-!
# Computations that may fault

A computation in `Except` ends in a result or in a fault. `Ends Q E x` says which results and which
faults it may end in, and composes along sequences and loops over lists.

## Main results

* `Ends.bind`, `Ends.mono`: sequencing and weakening
* `ends_foldlM`: an invariant of a loop over a list
-/

namespace Faults

universe u

variable {α β : Type u} {ε : Type*}

/-- The computation ends in a result with `Q`, or in a fault with `E`. -/
def Ends (Q : α → Prop) (E : ε → Prop) : Except ε α → Prop
  | .ok a => Q a
  | .error e => E e

variable {Q Q' : α → Prop} {E E' : ε → Prop} {x : Except ε α} {a : α}

@[simp] theorem ends_ok : Ends Q E (.ok a) ↔ Q a := .rfl

@[simp] theorem ends_error {e : ε} : Ends Q E (.error e : Except ε α) ↔ E e := .rfl

theorem Ends.mono (h : Ends Q E x) (hq : ∀ a, Q a → Q' a) (he : ∀ e, E e → E' e) :
    Ends Q' E' x := by
  cases x with
  | ok a => exact hq a h
  | error e => exact he e h

theorem Ends.bind {R : β → Prop} {f : α → Except ε β} (h : Ends Q E x)
    (hf : ∀ a, Q a → Ends R E (f a)) : Ends R E (x >>= f) := by
  cases x with
  | ok a => exact hf a h
  | error e => exact h

theorem Ends.of_ok (h : Ends Q E x) (hx : x = .ok a) : Q a := by
  subst hx
  exact h

theorem Ends.of_error {e : ε} (h : Ends Q E x) (hx : x = .error e) : E e := by
  subst hx
  exact h

/-- A loop over a list keeps what every round keeps. -/
theorem ends_foldlM {f : α → β → Except ε α} (hf : ∀ a b, Q a → Ends Q E (f a b)) (l : List β)
    (ha : Q a) : Ends Q E (l.foldlM f a) := by
  induction l generalizing a with
  | nil => exact ha
  | cons b l ih => exact (hf a b ha).bind fun a' ha' => ih ha'

end Faults
