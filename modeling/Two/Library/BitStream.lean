import Mathlib.Tactic.Common
import Mathlib.Algebra.Order.Ring.Nat
import Mathlib.Algebra.Order.Ring.Int
import Mathlib.Data.Nat.Bitwise

/-!
# Bit addressing of byte strings

A byte string is a sequence of bits, the most significant bit of each byte first. A run of bits
spells a number, most significant bit first; runs concatenate to runs.

## Main definitions

* `bitAt bs i`: the `i`-th bit of the byte string `bs`
* `Spells bit pos n w`: the `n` bits from `pos` on spell the number `w`
* `numeral n w`, `bits bs`: the bits of a number and of a byte string, as lists
* `OneAt m l c i`: a one of the bits `l` lands on `i`, when they are written from `c` on by a pen
  whose position is kept modulo `m`

## Main results

* `Spells.concat`, `Spells.take`: concatenation of runs, and the beginning of a run
* `Spells.unique`: a run spells one number
* `bitAt_set_or`: the bits after or-ing into one byte
* `prefix_bits_iff`: what such a pen writes is what it was given, if no one comes after `m` bits
-/

namespace BitStream

/-- The `i`-th bit of a byte string; zero past its end. -/
def bitAt (bs : List UInt8) (i : ℕ) : Bool := (bs.getD (i / 8) 0).toNat.testBit (7 - i % 8)

/-- The `n` bits from `pos` on spell `w`, most significant bit first. -/
def Spells (bit : ℕ → Bool) (pos n w : ℕ) : Prop :=
  w < 2 ^ n ∧ ∀ j < n, bit (pos + j) = w.testBit (n - 1 - j)

variable {bit : ℕ → Bool} {pos m n v w : ℕ}

theorem Spells.lt (h : Spells bit pos n w) : w < 2 ^ n := h.1

/-- A run of bits spells only one number. -/
theorem Spells.unique (hv : Spells bit pos n v) (hw : Spells bit pos n w) : v = w := by
  apply Nat.eq_of_testBit_eq
  intro i
  rcases Nat.lt_or_ge i n with hi | hi
  · have h1 := hv.2 (n - 1 - i) (by omega)
    have h2 := hw.2 (n - 1 - i) (by omega)
    rw [show n - 1 - (n - 1 - i) = i by omega] at h1 h2
    rw [← h1, ← h2]
  · have hp : 2 ^ n ≤ 2 ^ i := Nat.pow_le_pow_right (by decide) hi
    rw [Nat.testBit_eq_false_of_lt (Nat.lt_of_lt_of_le hv.1 hp),
      Nat.testBit_eq_false_of_lt (Nat.lt_of_lt_of_le hw.1 hp)]

/-- The beginning of a run is spelled by the topmost bits. -/
theorem Spells.take (h : Spells bit pos n w) (hm : m ≤ n) :
    Spells bit pos m (w >>> (n - m)) := by
  refine ⟨?_, ?_⟩
  · rw [Nat.shiftRight_eq_div_pow, Nat.div_lt_iff_lt_mul (Nat.two_pow_pos _), ← Nat.pow_add,
      Nat.add_sub_cancel' hm]
    exact h.1
  · intro j hj
    rw [h.2 j (by omega), Nat.testBit_shiftRight]
    congr 1
    omega

/-- Two consecutive runs are one run. -/
theorem Spells.concat (hv : Spells bit pos m v) (hw : Spells bit (pos + m) n w) :
    Spells bit pos (m + n) (v <<< n ||| w) := by
  have hlt : v <<< n ||| w < 2 ^ (m + n) := by
    apply Nat.or_lt_two_pow
    · rw [Nat.shiftLeft_eq, Nat.pow_add]
      exact (Nat.mul_lt_mul_right (Nat.two_pow_pos n)).mpr hv.1
    · exact Nat.lt_of_lt_of_le hw.1 (Nat.pow_le_pow_right (by decide) (by omega))
  refine ⟨hlt, fun j hj => ?_⟩
  rw [Nat.testBit_or, Nat.testBit_shiftLeft]
  rcases Nat.lt_or_ge j m with hjm | hjm
  · have hfalse : w.testBit (m + n - 1 - j) = false :=
      Nat.testBit_eq_false_of_lt (Nat.lt_of_lt_of_le hw.1
        (Nat.pow_le_pow_right (by decide) (by omega)))
    rw [hv.2 j hjm, hfalse, Bool.or_false]
    have hge : decide (m + n - 1 - j ≥ n) = true := decide_eq_true (by omega)
    rw [hge, Bool.true_and]
    congr 1
    omega
  · have hge : decide (m + n - 1 - j ≥ n) = false := decide_eq_false (by omega)
    rw [hge, Bool.false_and, Bool.false_or, show pos + j = pos + m + (j - m) by omega,
      hw.2 (j - m) (by omega)]
    congr 1
    omega

theorem Spells.congr {bit' : ℕ → Bool} (h : Spells bit pos n w)
    (hb : ∀ i, pos ≤ i → i < pos + n → bit' i = bit i) : Spells bit' pos n w :=
  ⟨h.1, fun j hj => by rw [hb _ (by omega) (by omega), h.2 j hj]⟩

/-- A run of ones. -/
theorem spells_ones (h : ∀ j < n, bit (pos + j) = true) : Spells bit pos n (2 ^ n - 1) := by
  refine ⟨by have := Nat.two_pow_pos n; omega, fun j hj => ?_⟩
  rw [h j hj, Nat.testBit_two_pow_sub_one]
  exact (decide_eq_true (by omega)).symm

/-- All bits of a run that spells `2 ^ n - 1` are ones. -/
theorem Spells.eq_true_of_ones (h : Spells bit pos n (2 ^ n - 1)) {j : ℕ} (hj : j < n) :
    bit (pos + j) = true := by
  rw [h.2 j hj, Nat.testBit_two_pow_sub_one]
  exact decide_eq_true (by omega)

/-! ## Bytes -/

variable {bs : List UInt8} {k : ℕ}

theorem bitAt_mul_add (bs : List UInt8) (k : ℕ) {j : ℕ} (hj : j < 8) :
    bitAt bs (8 * k + j) = (bs.getD k 0).toNat.testBit (7 - j) := by
  rw [bitAt, show (8 * k + j) / 8 = k by omega, show (8 * k + j) % 8 = j by omega]

/-- The low bits of a byte. -/
theorem spells_low (bs : List UInt8) (k : ℕ) {o : ℕ} (ho : o ≤ 8) :
    Spells (bitAt bs) (8 * k + o) (8 - o) (255 >>> o &&& (bs.getD k 0).toNat) := by
  have h255 : (255 : ℕ) >>> o = 2 ^ (8 - o) - 1 := by
    rw [show (255 : ℕ) = 2 ^ 8 - 1 from rfl, Nat.shiftRight_eq_div_pow,
      Nat.div_eq_of_lt_le]
    · rw [Nat.sub_mul, ← Nat.pow_add, Nat.sub_add_cancel ho]
      have := Nat.two_pow_pos o
      omega
    · have h1 : (2 ^ (8 - o) - 1 + 1) * 2 ^ o = 2 ^ 8 := by
        rw [Nat.sub_add_cancel (Nat.two_pow_pos _), ← Nat.pow_add, Nat.sub_add_cancel ho]
      omega
  rw [h255, Nat.and_comm, Nat.and_two_pow_sub_one_eq_mod]
  refine ⟨Nat.mod_lt _ (Nat.two_pow_pos _), fun j hj => ?_⟩
  rw [Nat.add_assoc, bitAt_mul_add bs k (by omega), Nat.testBit_mod_two_pow,
    decide_eq_true (show 8 - o - 1 - j < 8 - o by omega), Bool.true_and]
  congr 1
  omega

/-- The high bits of a byte. -/
theorem spells_high (bs : List UInt8) (k : ℕ) {o : ℕ} (ho : o < 8) :
    Spells (bitAt bs) (8 * k) (8 - o) ((255 <<< o % 256 &&& (bs.getD k 0).toNat) >>> o) := by
  have hb := (bs.getD k 0).toNat_lt
  refine ⟨?_, fun j hj => ?_⟩
  · rw [Nat.shiftRight_eq_div_pow, Nat.div_lt_iff_lt_mul (Nat.two_pow_pos _), ← Nat.pow_add,
      Nat.sub_add_cancel (by omega)]
    exact Nat.lt_of_le_of_lt Nat.and_le_right hb
  · rw [bitAt_mul_add bs k (by omega), Nat.testBit_shiftRight, Nat.testBit_and,
      show (256 : ℕ) = 2 ^ 8 from rfl, Nat.testBit_mod_two_pow, Nat.testBit_shiftLeft,
      show (255 : ℕ) = 2 ^ 8 - 1 from rfl, Nat.testBit_two_pow_sub_one,
      decide_eq_true (show o + (8 - o - 1 - j) < 8 by omega),
      decide_eq_true (show o + (8 - o - 1 - j) ≥ o by omega),
      decide_eq_true (show o + (8 - o - 1 - j) - o < 8 by omega)]
    simp only [Bool.and_self, Bool.true_and]
    congr 1
    omega

/-- A whole byte. -/
theorem spells_byte (bs : List UInt8) (k : ℕ) : Spells (bitAt bs) (8 * k) 8 (bs.getD k 0).toNat :=
  ⟨(bs.getD k 0).toNat_lt, fun _ hj => bitAt_mul_add bs k hj⟩

/-- The bits after or-ing `x` into the byte at `k`. -/
theorem bitAt_set_or (hk : k < bs.length) {x : ℕ} (hx : x < 256) (i : ℕ) :
    bitAt (bs.set k (UInt8.ofNat ((bs.getD k 0).toNat ||| x))) i =
      (bitAt bs i || (decide (i / 8 = k) && x.testBit (7 - i % 8))) := by
  rw [bitAt, bitAt]
  by_cases h : i / 8 = k
  · have hlt : (bs.getD k 0).toNat ||| x < 2 ^ 8 :=
      Nat.or_lt_two_pow (bs.getD k 0).toNat_lt hx
    have hset : (bs.set k (UInt8.ofNat ((bs.getD k 0).toNat ||| x))).getD k 0 =
        UInt8.ofNat ((bs.getD k 0).toNat ||| x) := by
      simp [List.getD_eq_getElem?_getD, hk]
    rw [h, hset, UInt8.toNat_ofNat', Nat.mod_eq_of_lt hlt, Nat.testBit_or]
    simp
  · have hset : (bs.set k (UInt8.ofNat ((bs.getD k 0).toNat ||| x))).getD (i / 8) 0 =
        bs.getD (i / 8) 0 := by
      simp [List.getD_eq_getElem?_getD, List.getElem?_set_ne (Ne.symm h)]
    rw [hset]
    simp [h]

/-- The bits of a zeroed buffer. -/
theorem bitAt_replicate_zero (n i : ℕ) : bitAt (List.replicate n 0) i = false := by
  rw [bitAt, List.getD_eq_getElem?_getD, List.getElem?_replicate]
  split <;> simp

/-! ## Lists of bits -/

/-- The `n` lowest bits of `w`, the most significant one first. -/
def numeral (n w : ℕ) : List Bool := (List.range n).map fun j => w.testBit (n - 1 - j)

/-- The bits of a byte string. -/
def bits (bs : List UInt8) : List Bool := bs.flatMap fun b => numeral 8 b.toNat

@[simp] theorem length_numeral (n w : ℕ) : (numeral n w).length = n := by simp [numeral]

@[simp] theorem bits_nil : bits [] = [] := rfl

@[simp] theorem bits_cons (b : UInt8) (bs : List UInt8) :
    bits (b :: bs) = numeral 8 b.toNat ++ bits bs := List.flatMap_cons

theorem getElem?_numeral {j : ℕ} (hj : j < n) (w : ℕ) :
    (numeral n w)[j]? = some (w.testBit (n - 1 - j)) := by
  simp [numeral, hj]

theorem getElem?_bits {i : ℕ} (hi : i < 8 * bs.length) : (bits bs)[i]? = some (bitAt bs i) := by
  induction bs generalizing i with
  | nil => simp at hi
  | cons b bs ih =>
    rw [List.length_cons] at hi
    rw [bits_cons]
    by_cases h : i < 8
    · have hbit := bitAt_mul_add (b :: bs) 0 h
      rw [Nat.mul_zero, Nat.zero_add, List.getD_cons_zero] at hbit
      rw [List.getElem?_append_left (by rwa [length_numeral]), getElem?_numeral h, hbit]
    · have hbit : bitAt (b :: bs) i = bitAt bs (i - 8) := by
        rw [bitAt, bitAt, show i / 8 = (i - 8) / 8 + 1 by omega, List.getD_cons_succ,
          show (i - 8) % 8 = i % 8 by omega]
      rw [List.getElem?_append_right (by rw [length_numeral]; omega), length_numeral,
        ih (by omega), hbit]

theorem length_bits (bs : List UInt8) : (bits bs).length = 8 * bs.length := by
  induction bs with
  | nil => rfl
  | cons b bs ih => rw [bits_cons, List.length_append, length_numeral, ih, List.length_cons]; omega

theorem bitAt_of_isPrefix {l : List Bool} (h : l <+: bits bs) {i : ℕ} {b : Bool}
    (hi : l[i]? = some b) : bitAt bs i = b := by
  obtain ⟨hlt, hb⟩ := List.getElem?_eq_some_iff.mp hi
  have hle := h.length_le
  rw [length_bits] at hle
  have hbit := List.prefix_iff_getElem?.mp h i hlt
  rw [getElem?_bits (by omega), hb] at hbit
  exact Option.some.inj hbit

/-! ## A wrapping pen -/

/-- Some one of the bits `l` lands on `i`, when they are written from `c` on and the position is
kept modulo `m`. -/
def OneAt (m : ℕ) (l : List Bool) (c i : ℕ) : Prop := ∃ k, (c + k) % m = i ∧ l[k]? = some true

variable {l r : List Bool} {c i : ℕ}

theorem not_oneAt_nil : ¬ OneAt m [] c i := by
  rintro ⟨k, -, hk⟩
  simp at hk

theorem oneAt_append : OneAt m (l ++ r) c i ↔ OneAt m l c i ∨ OneAt m r (c + l.length) i := by
  constructor
  · rintro ⟨k, hki, hk⟩
    by_cases hl : k < l.length
    · rw [List.getElem?_append_left hl] at hk
      exact .inl ⟨k, hki, hk⟩
    · rw [List.getElem?_append_right (by omega)] at hk
      exact .inr ⟨k - l.length, by rwa [show c + l.length + (k - l.length) = c + k by omega], hk⟩
  · rintro (⟨k, hki, hk⟩ | ⟨k, hki, hk⟩)
    · obtain ⟨hl, -⟩ := List.getElem?_eq_some_iff.mp hk
      exact ⟨k, hki, by rwa [List.getElem?_append_left hl]⟩
    · refine ⟨l.length + k, by rwa [← Nat.add_assoc], ?_⟩
      rwa [List.getElem?_append_right (by omega), Nat.add_sub_cancel_left]

/-- The ones of a number that is written from `c` on. -/
theorem oneAt_numeral : OneAt m (numeral n w) c i ↔
    ∃ j < n, (c + j) % m = i ∧ w.testBit (n - 1 - j) = true := by
  constructor
  · rintro ⟨j, hji, hj⟩
    obtain ⟨hlt, -⟩ := List.getElem?_eq_some_iff.mp hj
    rw [length_numeral] at hlt
    rw [getElem?_numeral hlt] at hj
    exact ⟨j, hlt, hji, Option.some.inj hj⟩
  · rintro ⟨j, hlt, hji, hj⟩
    exact ⟨j, hji, by rw [getElem?_numeral hlt, hj]⟩

/-- A run of ones that is written from `c` on. -/
theorem oneAt_replicate : OneAt m (List.replicate n true) c i ↔ ∃ j < n, (c + j) % m = i := by
  simp only [OneAt, List.getElem?_replicate, ite_eq_iff, reduceCtorEq, and_false, or_false,
    and_true]
  exact exists_congr fun j => and_comm

/-- **A pen that writes only the ones** leaves what it was given, if no one comes after `m` bits. -/
theorem prefix_bits_iff (hl : l.length ≤ 8 * bs.length)
    (h : ∀ i, bitAt bs i = true ↔ OneAt m l 0 i) (hm : 0 < m) :
    l <+: bits bs ↔ ∀ k, l[k]? = some true → k < m := by
  constructor
  · intro hbegins k hk
    obtain ⟨k', hk', -⟩ := (h k).mp (bitAt_of_isPrefix hbegins hk)
    rw [← hk']
    exact Nat.mod_lt _ hm
  · intro hlt
    rw [List.prefix_iff_getElem?]
    intro k hk
    have hone : bitAt bs k = true ↔ l[k] = true := by
      rw [h k]
      constructor
      · rintro ⟨k', hk', h'⟩
        obtain rfl : k' = k := by rw [← hk', Nat.zero_add, Nat.mod_eq_of_lt (hlt k' h')]
        exact (List.getElem?_eq_some_iff.mp h').2
      · intro hl
        have hget := List.getElem?_eq_some_iff.mpr ⟨hk, hl⟩
        exact ⟨k, by rw [Nat.zero_add, Nat.mod_eq_of_lt (hlt k hget)], hget⟩
    rw [getElem?_bits (by omega), Bool.eq_iff_iff.mpr hone]

end BitStream
