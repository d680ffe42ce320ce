import Mathlib.Data.List.Basic
import Mathlib.Algebra.Order.Ring.Nat
import Mathlib.Algebra.Order.Ring.Int

/-!
# Byte strings

Memory regions and C strings are lists of bytes. A C string is given by its characters, without
the terminating NUL.

## Main definitions

* `Bytes`, `ascii`: byte strings, and the bytes of a string literal
* `cstr m`: the C string stored at the beginning of the region `m`
* `NulFree s`: a byte string without NUL, as every C string is
* `unsignedLength s`, `counted s`: `strlen` as a 32-bit number, and the characters it counts
* `toLower`, `strncasecmpEq`: the case folding of `strncasecmp`
-/

namespace Two

/-- A byte string. -/
abbrev Bytes := List UInt8

/-- The bytes of an ASCII string literal. -/
def ascii (s : String) : Bytes := s.toList.map fun c => UInt8.ofNat c.toNat

/-- The C string at the beginning of a region: its bytes up to the first NUL. -/
def cstr (m : Bytes) : Bytes := m.takeWhile (· != 0)

/-- `strlen` as an unsigned 32-bit number. -/
def unsignedLength (s : Bytes) : ℕ := s.length % 2 ^ 32

/-- The characters of a string that its unsigned 32-bit length counts. -/
def counted (s : Bytes) : Bytes := s.take (unsignedLength s)

@[simp] theorem length_counted (s : Bytes) : (counted s).length = unsignedLength s := by
  simp only [counted, unsignedLength, List.length_take]
  omega

theorem unsignedLength_of_lt {s : Bytes} (h : s.length < 2 ^ 32) : unsignedLength s = s.length :=
  Nat.mod_eq_of_lt h

theorem counted_of_lt {s : Bytes} (h : s.length < 2 ^ 32) : counted s = s := by
  rw [counted, unsignedLength_of_lt h, List.take_length]

theorem unsignedLength_lt (s : Bytes) : unsignedLength s < 2 ^ 32 := Nat.mod_lt _ (by decide)

/-- A byte string without NUL. -/
def NulFree (s : Bytes) : Prop := 0 ∉ s

instance (s : Bytes) : Decidable (NulFree s) := inferInstanceAs (Decidable (0 ∉ s))

/-- A printable ASCII character. -/
def Printable (b : UInt8) : Prop := 32 ≤ b.toNat ∧ b.toNat ≤ 126

instance (b : UInt8) : Decidable (Printable b) :=
  inferInstanceAs (Decidable (32 ≤ b.toNat ∧ b.toNat ≤ 126))

theorem Printable.nulFree {s : Bytes} (h : ∀ b ∈ s, Printable b) : NulFree s := by
  intro h0
  have := (h 0 h0).1
  simp at this

@[simp] theorem nulFree_nil : NulFree [] := by simp [NulFree]

@[simp] theorem nulFree_cons {b : UInt8} {s : Bytes} : NulFree (b :: s) ↔ b ≠ 0 ∧ NulFree s := by
  simp [NulFree, eq_comm]

@[simp] theorem nulFree_append {s t : Bytes} : NulFree (s ++ t) ↔ NulFree s ∧ NulFree t := by
  simp [NulFree]

/-- The C string of a NUL-free string followed by a NUL is that string. -/
theorem cstr_append_zero {s : Bytes} (h : NulFree s) (m : Bytes) : cstr (s ++ 0 :: m) = s := by
  induction s with
  | nil => simp [cstr]
  | cons b s ih =>
    obtain ⟨hb, hs⟩ := nulFree_cons.mp h
    have := ih hs
    simp only [cstr, List.cons_append] at this ⊢
    simp [hb, this]

/-- The C string of a region with a NUL ends in it. -/
theorem cstr_append_of_mem {s : Bytes} (h : 0 ∈ s) (m : Bytes) : cstr (s ++ m) = cstr s := by
  obtain ⟨a, b, rfl, ha⟩ := List.eq_append_cons_of_mem h
  rw [List.append_assoc, List.cons_append, cstr_append_zero ha, cstr_append_zero ha]

/-- The C string of a region goes on behind a part without NUL. -/
theorem cstr_append_of_nulFree {s : Bytes} (h : NulFree s) (m : Bytes) :
    cstr (s ++ m) = s ++ cstr m := by
  induction s with
  | nil => rfl
  | cons b s ih =>
    obtain ⟨hb, hs⟩ := nulFree_cons.mp h
    have := ih hs
    simp only [cstr, List.cons_append] at this ⊢
    simp [hb, this]

theorem cstr_of_nulFree {s : Bytes} (h : NulFree s) : cstr s = s := by
  induction s with
  | nil => rfl
  | cons b s ih =>
    obtain ⟨hb, hs⟩ := nulFree_cons.mp h
    have := ih hs
    simp only [cstr] at this ⊢
    simp [hb, this]

theorem nulFree_cstr (m : Bytes) : NulFree (cstr m) := by
  induction m with
  | nil => simp [cstr]
  | cons b m ih =>
    simp only [cstr] at ih ⊢
    by_cases hb : b = 0
    · simp [hb]
    · simp [hb, ih]

/-- The ASCII case folding of `strncasecmp`. -/
def toLower (b : UInt8) : UInt8 := if 65 ≤ b.toNat ∧ b.toNat ≤ 90 then b + 32 else b

/-- Whether `strncasecmp(name, key, strlen(key))` is zero: only the characters of `key` are
compared. -/
def strncasecmpEq (name key : Bytes) : Bool :=
  (name.take key.length).map toLower == key.map toLower

end Two
