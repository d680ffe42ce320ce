import Mathlib.Tactic.Common
import Mathlib.Algebra.Order.Ring.Int

/-!
# Loops

A loop is a state with a partial step function: where the step is undefined the loop is left. The
counter of a `for` loop has a width, and wraps around when it passes it.

## Main definitions

* `Loops.Halts step s`: from `s` the loop is left after finitely many rounds
* `Loops.forLoop w bound body`: a `for` loop with a counter of `w` bits
* `Loops.Loop`: a loop with its initial state

## Main results

* `Loops.Halts.of_measure`: a loop with a decreasing measure halts
* `Loops.not_halts`: a loop with an invariant under which it is never left does not
* `Loops.forLoop_halts`, `Loops.forLoop_halts_iff`: a `for` loop halts if the counter can get to the
  bound, and only then unless its body leaves it
-/

namespace Loops

variable {σ : Type*}

/-- The loop is left after finitely many rounds. -/
inductive Halts (step : σ → Option σ) : σ → Prop
  | stop {s : σ} (h : step s = none) : Halts step s
  | next {s s' : σ} (h : step s = some s') (hs : Halts step s') : Halts step s

section Halting

variable {step : σ → Option σ} {s : σ}

theorem Halts.of_measure (P : σ → Prop) (μ : σ → ℕ)
    (hstep : ∀ s s', P s → step s = some s' → P s' ∧ μ s' < μ s) (hs : P s) : Halts step s := by
  induction hn : μ s using Nat.strong_induction_on generalizing s with
  | h n ih =>
    cases h : step s with
    | none => exact .stop h
    | some s' =>
      obtain ⟨hs', hlt⟩ := hstep s s' hs h
      exact .next h (ih (μ s') (hn ▸ hlt) hs' rfl)

theorem not_halts (P : σ → Prop) (hstep : ∀ s, P s → ∃ s', step s = some s' ∧ P s') (hs : P s) :
    ¬ Halts step s := by
  intro h
  induction h with
  | stop h =>
    obtain ⟨s', hsome, -⟩ := hstep _ hs
    rw [h] at hsome
    cases hsome
  | next h _ ih =>
    obtain ⟨s', hsome, hs'⟩ := hstep _ hs
    rw [h] at hsome
    cases hsome
    exact ih hs'

end Halting

/-! ## Counters -/

/-- `for (; i < bound; i++)` with a counter of `w` bits; the body leaves the loop where it is
undefined. -/
def forLoop (w : ℕ) (bound : ℤ) (body : ℕ → σ → Option σ) : ℕ × σ → Option (ℕ × σ)
  | (i, s) => if (i : ℤ) < bound then (body i s).map fun s' => ((i + 1) % 2 ^ w, s') else none

section Counters

variable {w : ℕ} {bound : ℤ} {body : ℕ → σ → Option σ} {i : ℕ} {s : σ}

theorem forLoop_halts (h : bound < 2 ^ w) : Halts (forLoop w bound body) (i, s) := by
  refine Halts.of_measure (fun _ => True) (fun s => (bound - s.1).toNat) ?_ trivial
  rintro ⟨i, s⟩ ⟨i', s'⟩ - hstep
  rw [forLoop] at hstep
  split at hstep
  · rename_i hlt
    obtain ⟨s₁, -, heq⟩ := Option.map_eq_some_iff.mp hstep
    obtain ⟨rfl, -⟩ := Prod.mk.inj heq
    have hpow : ((2 ^ w : ℕ) : ℤ) = 2 ^ w := by norm_cast
    -- the counter does not wrap before it gets to the bound
    have hmod : (i + 1) % 2 ^ w = i + 1 := Nat.mod_eq_of_lt (by omega)
    refine ⟨trivial, ?_⟩
    simp only [hmod]
    omega
  · cases hstep

theorem forLoop_halts_iff (hbody : ∀ i s, (body i s).isSome) (hi : i < 2 ^ w) :
    Halts (forLoop w bound body) (i, s) ↔ bound < 2 ^ w := by
  refine ⟨fun h => ?_, forLoop_halts⟩
  by_contra hle
  refine not_halts (fun s => s.1 < 2 ^ w) ?_ hi h
  rintro ⟨i, s⟩ hi
  obtain ⟨s', hs'⟩ := Option.isSome_iff_exists.mp (hbody i s)
  have hlt : (i : ℤ) < bound := by
    have hpow : (i : ℤ) < 2 ^ w := by exact_mod_cast hi
    omega
  refine ⟨((i + 1) % 2 ^ w, s'), ?_, Nat.mod_lt _ (Nat.two_pow_pos w)⟩
  rw [forLoop, if_pos hlt, hs', Option.map_some]

end Counters

/-! ## Loops with an initial state -/

/-- A loop as it is entered. -/
structure Loop where
  {State : Type}
  step : State → Option State
  start : State

/-- The loop ends. -/
def Loop.Ends (l : Loop) : Prop := Halts l.step l.start

theorem Loop.ends_mk {τ : Type} {step : τ → Option τ} {start : τ} :
    Loop.Ends ⟨step, start⟩ ↔ Halts step start :=
  Iff.rfl

/-- A `for` loop without a state of its own, which is left where `exit` holds. -/
def Loop.counting (w : ℕ) (start : ℕ) (bound : ℤ) (exit : ℕ → Bool) : Loop :=
  ⟨forLoop w bound fun i (_ : Unit) => if exit i then none else some (), (start, ())⟩

theorem Loop.counting_ends {w start : ℕ} {bound : ℤ} {exit : ℕ → Bool} (h : bound < 2 ^ w) :
    (Loop.counting w start bound exit).Ends :=
  Loop.ends_mk.mpr (forLoop_halts h)

end Loops
