import Mathlib.Data.List.Basic
import Mathlib.Algebra.BigOperators.Group.List.Basic

/-!
# Properties along a trace

A trace is a list of events, the oldest first. A property of an event may look at the events
before it.

## Main definitions

* `Along P t`: every event of `t` satisfies `P` together with the events before it, which is
  decidable if `P` is
* `total f t`: the sum of `f` over the events of `t`

## Main results

* `along_append_singleton`: the property of a trace with one more event
* `Along.of_prefix`: a property along a trace holds along its beginnings
* `split_unique`: an event of a trace that stands nowhere else in it
* `Along.extend`: the new events of a longer trace, where a condition holds along it
-/

namespace Trace

variable {α : Type}

/-- Every event of the trace satisfies `P` together with the events before it. -/
def Along (P : List α → α → Prop) (t : List α) : Prop :=
  ∀ before e after, t = before ++ e :: after → P before e

@[simp] theorem along_nil {P : List α → α → Prop} : Along P [] := by
  intro before e after h
  simp at h

theorem Along.mono {P Q : List α → α → Prop} {t : List α} (h : Along P t)
    (hpq : ∀ before e, P before e → Q before e) : Along Q t :=
  fun before e after ht => hpq before e (h before e after ht)

theorem Along.of_prefix {P : List α → α → Prop} {t u : List α} (h : Along P u) (htu : t <+: u) :
    Along P t := by
  obtain ⟨rest, rfl⟩ := htu
  rintro before e after rfl
  exact h before e (after ++ rest) (by simp)

@[simp] theorem along_append_singleton {P : List α → α → Prop} {t : List α} {e : α} :
    Along P (t ++ [e]) ↔ Along P t ∧ P t e := by
  refine ⟨fun h => ⟨h.of_prefix (List.prefix_append _ _), h t e [] rfl⟩, ?_⟩
  rintro ⟨ht, he⟩ before x after hx
  rcases List.eq_nil_or_concat after with rfl | ⟨after, y, rfl⟩
  · obtain ⟨rfl, hx⟩ := List.append_inj' hx rfl
    obtain rfl : e = x := by simpa using hx
    exact he
  · rw [List.concat_eq_append, ← List.cons_append, ← List.append_assoc] at hx
    exact ht before x after (List.append_inj' hx rfl).1

/-- The events of `t`, after those of `before`, satisfy `P`. -/
def AlongFrom (P : List α → α → Prop) : List α → List α → Prop
  | _, [] => True
  | before, e :: t => P before e ∧ AlongFrom P (before ++ [e]) t

theorem alongFrom_iff {P : List α → α → Prop} (before t : List α) (h : Along P before) :
    AlongFrom P before t ↔ Along P (before ++ t) := by
  induction t generalizing before with
  | nil => simpa [AlongFrom] using h
  | cons e t ih =>
    have happ : before ++ e :: t = before ++ [e] ++ t := by simp
    rw [AlongFrom, happ]
    constructor
    · rintro ⟨he, ht⟩
      exact (ih _ (along_append_singleton.mpr ⟨h, he⟩)).mp ht
    · intro ht
      have he : P before e := ht before e t (by simp)
      exact ⟨he, (ih _ (along_append_singleton.mpr ⟨h, he⟩)).mpr ht⟩

/-- Running through a trace. -/
def decidableAlongFrom (P : List α → α → Prop) [hP : ∀ before, DecidablePred (P before)] :
    ∀ before t, Decidable (AlongFrom P before t)
  | _, [] => inferInstanceAs (Decidable True)
  | before, e :: t =>
    have := decidableAlongFrom P (before ++ [e]) t
    inferInstanceAs (Decidable (P before e ∧ AlongFrom P (before ++ [e]) t))

instance (P : List α → α → Prop) [∀ before, DecidablePred (P before)] (t : List α) :
    Decidable (Along P t) :=
  have := decidableAlongFrom P [] t
  decidable_of_iff (AlongFrom P [] t) (alongFrom_iff [] t along_nil)

/-- A property along `t` holds along every longer trace in which the new events of `u`, under the
condition `C` up to them, have it. -/
theorem Along.extend {C Q : List α → α → Prop} {t u log : List α} (ht : Along Q t)
    (h : ∀ a e b, u = a ++ e :: b → Along C (t ++ a ++ [e]) → Q (t ++ a) e)
    (hlog : log <+: t ++ u) (hC : Along C log) : Along Q log := by
  rintro before e after rfl
  obtain ⟨rest, hrest⟩ := hlog
  rw [List.append_assoc, List.cons_append] at hrest
  rcases List.append_eq_append_iff.mp hrest with ⟨a, rfl, ha⟩ | ⟨a, rfl, ha⟩
  · cases a with
    | nil =>
      have := h [] e (after ++ rest) (by simpa using ha.symm)
      simp only [List.append_nil] at this hC
      exact this (hC.of_prefix ⟨after, by simp⟩)
    | cons x a =>
      obtain ⟨rfl, -⟩ := List.cons.inj ha
      exact ht before e a rfl
  · exact h a e (after ++ rest) ha (hC.of_prefix ⟨after, by simp⟩)

/-- A trace is split in one way at an event that stands neither before nor after it. -/
theorem split_unique {a b x y : List α} {e e' : α} (h : a ++ e :: b = x ++ e' :: y) (hx : e ∉ x)
    (hy : e ∉ y) : a = x ∧ e = e' ∧ b = y := by
  rcases List.append_eq_append_iff.mp h with ⟨c, rfl, hc⟩ | ⟨c, rfl, hc⟩
  · cases c with
    | nil =>
      obtain ⟨rfl, rfl⟩ := List.cons.inj hc
      exact ⟨by simp, rfl, rfl⟩
    | cons z c =>
      obtain ⟨rfl, -⟩ := List.cons.inj hc
      simp at hx
  · cases c with
    | nil =>
      obtain ⟨rfl, rfl⟩ := List.cons.inj hc
      exact ⟨by simp, rfl, rfl⟩
    | cons z c =>
      obtain ⟨rfl, rfl⟩ := List.cons.inj hc
      simp at hy

section Total

variable {M : Type} [AddCommMonoid M] (f : α → M) (e : α) (t u : List α)

/-- What the events of a trace sum up to. -/
def total : M := (t.map f).sum

@[simp] theorem total_nil : total f [] = 0 := rfl

@[simp] theorem total_cons : total f (e :: t) = f e + total f t := by simp [total]

@[simp] theorem total_append : total f (t ++ u) = total f t + total f u := by simp [total]

variable {f t} in
theorem total_eq_zero (h : ∀ e ∈ t, f e = 0) : total f t = 0 := by
  refine List.sum_eq_zero ?_
  simpa using h

end Total

end Trace
