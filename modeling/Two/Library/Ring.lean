import Mathlib.Tactic.Common
import Mathlib.Algebra.Order.Ring.Nat
import Mathlib.Algebra.Order.Ring.Int
import Mathlib.Logic.Function.Basic

/-!
# Rings

A ring of size `m` is a buffer whose cells are addressed modulo `m`. A list lies in the ring from
some position on when its elements are found there in consecutive cells.

## Main definitions

* `Ring.write buf m k xs`: the elements of `xs` are stored one after the other from `k` on
* `Ring.Lies buf m k xs`: the list `xs` lies in the ring from `k` on

## Main results

* `Ring.lies_write`: a list that was written lies in the ring
* `Ring.Lies.write`: a list that lies elsewhere is not disturbed
-/

namespace Ring

variable {α : Type*}

/-! ## Positions -/

/-- Two positions less than a whole turn apart are different cells. -/
theorem mod_ne_of_lt {a b m : ℕ} (h : a < b) (hm : b < a + m) : a % m ≠ b % m := by
  intro heq
  have h0 : (b - a) % m = 0 := Nat.sub_mod_eq_zero_of_mod_eq heq.symm
  have := Nat.le_of_dvd (by omega) (Nat.dvd_of_mod_eq_zero h0)
  omega

/-- Stepping back from a reduced position. -/
theorem mod_add_sub_mod {a i m : ℕ} (hi : i ≤ a) (him : i ≤ m) :
    (a % m + m - i) % m = (a - i) % m := by
  have h := Nat.mod_add_div a m
  rcases Nat.lt_or_ge (a / m) 1 with hq | hq
  · have h0 : a / m = 0 := Nat.lt_one_iff.mp hq
    rw [h0, Nat.mul_zero, Nat.add_zero] at h
    rw [h, show a + m - i = a - i + m by omega, Nat.add_mod_right]
  · have hle : m * 1 ≤ m * (a / m) := Nat.mul_le_mul_left m hq
    have hsub : m * (a / m - 1) = m * (a / m) - m := by rw [Nat.mul_sub, Nat.mul_one]
    rw [show a - i = a % m + m - i + m * (a / m - 1) by omega, Nat.add_mul_mod_self_left]

/-! ## Contents -/

/-- The list `xs` lies in the ring from position `k` on. -/
def Lies (buf : ℕ → α) (m k : ℕ) (xs : List α) : Prop :=
  ∀ j x, xs[j]? = some x → buf ((k + j) % m) = x

/-- The elements of a list are stored one after the other from position `k` on. -/
def write (buf : ℕ → α) (m k : ℕ) : List α → ℕ → α
  | [] => buf
  | x :: xs => write (Function.update buf (k % m) x) m (k + 1) xs

variable {buf : ℕ → α} {m k l : ℕ} {x : α} {xs ys : List α}

theorem lies_nil (buf : ℕ → α) (m k : ℕ) : Lies buf m k [] := by
  intro j x h
  simp at h

theorem Lies.head (h : Lies buf m k (x :: xs)) : buf (k % m) = x := h 0 x rfl

theorem Lies.tail (h : Lies buf m k (x :: xs)) : Lies buf m (k + 1) xs := by
  intro j y hj
  rw [Nat.add_assoc, Nat.add_comm 1 j]
  exact h (j + 1) y (by simpa using hj)

theorem Lies.left (h : Lies buf m k (xs ++ ys)) : Lies buf m k xs := by
  intro j x hj
  obtain ⟨hlt, -⟩ := List.getElem?_eq_some_iff.mp hj
  exact h j x (by rw [List.getElem?_append_left hlt, hj])

theorem Lies.right (h : Lies buf m k (xs ++ ys)) : Lies buf m (k + xs.length) ys := by
  intro j y hj
  rw [Nat.add_assoc]
  exact h (xs.length + j) y (by rw [List.getElem?_append_right (by omega)]; simpa using hj)

theorem Lies.append (h : Lies buf m k xs) (h' : Lies buf m (k + xs.length) ys) :
    Lies buf m k (xs ++ ys) := by
  intro j x hj
  rcases Nat.lt_or_ge j xs.length with hlt | hge
  · exact h j x (by rwa [List.getElem?_append_left hlt] at hj)
  · rw [List.getElem?_append_right hge] at hj
    have := h' (j - xs.length) x hj
    rwa [show k + xs.length + (j - xs.length) = k + j by omega] at this

/-- A position can be reduced. -/
theorem lies_mod : Lies buf m (k % m) xs ↔ Lies buf m k xs := by
  simp only [Lies, Nat.mod_add_mod]

/-! ## Writing -/

/-- A cell that is not written keeps its contents. -/
theorem write_of_ne {c : ℕ} (h : ∀ j < xs.length, c ≠ (k + j) % m) : write buf m k xs c = buf c := by
  induction xs generalizing buf k with
  | nil => rfl
  | cons x xs ih =>
    have h0 : c ≠ k % m := h 0 (by simp)
    rw [write, ih fun j hj => ?_, Function.update_of_ne h0]
    have := h (j + 1) (by simpa using hj)
    rwa [Nat.add_assoc, Nat.add_comm 1 j]

/-- **A list that was written** lies in the ring, if it is not longer than the ring. -/
theorem lies_write (h : xs.length ≤ m) : Lies (write buf m k xs) m k xs := by
  induction xs generalizing buf k with
  | nil => exact lies_nil _ _ _
  | cons x xs ih =>
    rw [List.length_cons] at h
    rintro (_ | j) y hj
    · obtain rfl : x = y := by simpa using hj
      rw [write, write_of_ne fun j hj => mod_ne_of_lt (by omega) (by omega), Nat.add_zero,
        Function.update_self]
    · rw [write, show k + (j + 1) = k + 1 + j by omega]
      exact ih (by omega) j y (by simpa using hj)

/-- **A list that lies elsewhere** is not disturbed by writing. -/
theorem Lies.write (h : Lies buf m k xs) (h1 : k + xs.length ≤ l) (h2 : l + ys.length ≤ k + m) :
    Lies (Ring.write buf m l ys) m k xs := by
  intro j x hj
  obtain ⟨hlt, -⟩ := List.getElem?_eq_some_iff.mp hj
  rw [write_of_ne fun i hi => mod_ne_of_lt (by omega) (by omega)]
  exact h j x hj

/-- The position of a write can be reduced. -/
theorem write_congr (h : k % m = l % m) : Ring.write buf m k xs = Ring.write buf m l xs := by
  induction xs generalizing buf k l with
  | nil => rfl
  | cons x xs ih =>
    rw [Ring.write, Ring.write, h]
    exact ih (by rw [Nat.add_mod, h, ← Nat.add_mod])

end Ring
