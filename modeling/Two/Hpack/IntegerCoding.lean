import Mathlib.Tactic.Ring
import Mathlib.Tactic.IntervalCases
import Mathlib.Data.Nat.Log
import Mathlib.Data.Nat.Bitwise
import Two.Hpack.Utils

/-!
# The integer coding is exact

The bytes `encodeInteger` writes are as many as `encodedIntegerSize` says, and `decodeInteger` reads
the integer back from them, whatever bits are or-ed into the first byte above the prefix and
whatever follows. That it reads nothing behind them is said by the decoder with checked reads.

## Main definitions

* `decodeIntegerUpTo?`: the decoder with checked reads and shifts, `none` where a check fails

## Main results

* `length_encodeIntegerUpTo`: the bytes written are as many as the size returned
* `decodeIntegerUpTo_of_eq_some`: a decoder that reads only its bytes does not see those behind them
* `integerRoundTrip`: the round trip
-/

namespace Two.Hpack

/-- The continuation bit of a byte. -/
theorem and_128_eq_zero_iff (b : UInt8) : b &&& 128 = 0 ↔ b.toNat < 128 := by
  have hb := b.toNat_lt
  have h : (b &&& 128).toNat = 2 ^ 7 * (b.toNat.testBit 7).toNat := by
    rw [UInt8.toNat_and, show (128 : UInt8).toNat = 2 ^ 7 from rfl, Nat.and_comm, Nat.two_pow_and]
  rw [← UInt8.toNat_inj, h, Nat.testBit_eq_decide_div_mod_eq]
  rcases Nat.lt_or_ge b.toNat 128 with hlt | hge
  · simp [Nat.div_eq_of_lt hlt, hlt]
  · have : b.toNat / 128 = 1 := by omega
    simp [this]
    omega

/-- Shifting up and down an octet keeps its `p` lowest bits. -/
theorem shift_mask (x : ℕ) {p : ℕ} (hp : p ≤ 8) :
    (x <<< (8 - p) % 256) >>> (8 - p) = x % 2 ^ p := by
  have h : 256 = 2 ^ p * 2 ^ (8 - p) := by
    rw [← Nat.pow_add, Nat.add_sub_cancel' hp]
  rw [Nat.shiftLeft_eq, Nat.shiftRight_eq_div_pow, h, Nat.mul_mod_mul_right,
    Nat.mul_div_cancel _ (Nat.two_pow_pos _)]

theorem maxPrefix_eq {p : ℕ} (hp : p ≤ 8) : maxPrefix p = 2 ^ p - 1 := by
  have : 2 ^ p ≤ 2 ^ 8 := Nat.pow_le_pow_right (by decide) hp
  rw [maxPrefix, Nat.mod_eq_of_lt (by omega)]

theorem shiftRight_255 {p : ℕ} (hp : p ≤ 8) : 255 >>> (8 - p) = 2 ^ p - 1 := by
  interval_cases p <;> rfl

/-- `log128` is the integer logarithm up to `2 ^ 28`. -/
theorem log128_eq {x k : ℕ} (h1 : 128 ^ k ≤ x) (h2 : x < 128 ^ (k + 1)) (hx : x ≤ 2 ^ 28) :
    log128 x = k := by
  have hk : k ≤ 4 := by
    by_contra h
    have : 128 ^ 5 ≤ 128 ^ k := Nat.pow_le_pow_right (by decide) (by omega)
    omega
  simp only [log128, log128Loop, Nat.reduceAdd, Nat.reduceMul, Nat.reducePow, Nat.reduceMod]
  interval_cases k <;> simp only [Nat.reduceAdd, Nat.reducePow] at h1 h2 <;> split_ifs <;> omega

theorem length_encodeIntegerTail :
    ∀ (fuel k n : ℕ), 128 ^ k ≤ n ∨ k = 0 → n < 128 ^ (k + 1) → k < fuel →
      (encodeIntegerTail fuel n).length = k + 1 := by
  intro fuel
  induction fuel with
  | zero => intro k n _ _ h; omega
  | succ fuel ih =>
    intro k n h1 h2 hk
    rw [encodeIntegerTail]
    cases k with
    | zero => rw [if_neg (by omega)]; rfl
    | succ k =>
      have h1 : 128 ^ (k + 1) ≤ n := h1.resolve_right (by omega)
      have hpow : 128 ^ (k + 1) = 128 ^ k * 128 := pow_succ 128 k
      have hpos : 0 < 128 ^ k := Nat.pow_pos (by decide)
      rw [if_pos (by omega), List.length_cons, ih k (n / 128) ?_ ?_ (by omega)]
      · left
        exact (Nat.le_div_iff_mul_le (by decide)).mpr (hpow ▸ h1)
      · rw [Nat.div_lt_iff_lt_mul (by decide)]
        exact h2

/-- Every number below `2 ^ 28` has an integer logarithm to the base 128. -/
theorem exists_log128 {x : ℕ} (hx : 0 < x) :
    ∃ k, 128 ^ k ≤ x ∧ x < 128 ^ (k + 1) :=
  ⟨Nat.log 128 x, Nat.pow_log_le_self 128 (by omega), Nat.lt_pow_succ_log_self (by decide) x⟩

variable {maximumInteger integer p : ℕ}

/-- **The bytes written** are as many as the size returned. -/
theorem length_encodeIntegerUpTo (hp : p ≤ 8) (hi : integer ≤ maximumInteger)
    (hm : maximumInteger ≤ 2 ^ 28) :
    (encodeIntegerUpTo maximumInteger integer p).1 =
        (encodeIntegerUpTo maximumInteger integer p).2.length ∧
      (encodeIntegerUpTo maximumInteger integer p).1 = encodedIntegerSize integer p := by
  rw [encodeIntegerUpTo, if_neg (by omega)]
  simp only [encodedIntegerSize, maxPrefix_eq hp]
  by_cases h1 : integer < 2 ^ p - 1
  · simp [h1]
  · rw [if_neg h1, if_neg h1]
    by_cases h2 : integer = 2 ^ p - 1
    · simp [h2, encodeIntegerTail]
    · obtain ⟨k, hk1, hk2⟩ := exists_log128 (x := integer - (2 ^ p - 1)) (by omega)
      have hk : k < 5 := by
        by_contra h
        have : 128 ^ 5 ≤ 128 ^ k := Nat.pow_le_pow_right (by decide) (by omega)
        omega
      rw [if_neg h2, log128_eq hk1 hk2 (by omega), List.length_cons,
        length_encodeIntegerTail 5 k _ (Or.inl hk1) hk2 hk]
      exact ⟨rfl, rfl⟩

/-! ## Checked reads -/

/-- The loop of `hpack_decoder_decode_integer`, where a read behind the bytes and a shift by the
width of the accumulator or more have no result. -/
def decodeIntegerTail? (maximumInteger : ℕ) : Bytes → ℕ → ℕ → Option ℤ
  | [], _, _ => none
  | bi :: bytes, integer, depth =>
    if depth < 32 then
      let weight := 2 ^ depth % 2 ^ 32
      if bi &&& 128 = 0 then
        let integer := (integer + bi.toNat * weight % 2 ^ 32) % 2 ^ 32
        some (if integer > maximumInteger then -1 else integer)
      else
        decodeIntegerTail? maximumInteger bytes
          ((integer + bi.toNat % 128 * weight % 2 ^ 32) % 2 ^ 32) (depth + 7)
    else none

/-- `hpack_decoder_decode_integer` for a configured `HPACK_MAXIMUM_INTEGER`, with checked reads. -/
def decodeIntegerUpTo? (maximumInteger : ℕ) (bytes : Bytes) (prefixSize : ℕ) : Option ℤ := do
  let b0 := ((← bytes.head?).toNat <<< (8 - prefixSize) % 256) >>> (8 - prefixSize)
  let p := 255 >>> (8 - prefixSize)
  if b0 ≠ p then
    -- the branch that the preprocessor selects
    if maximumInteger < 256 then return if b0 < maximumInteger then (b0 : ℤ) else -1
    else return b0
  else decodeIntegerTail? maximumInteger bytes.tail p 0

/-- A loop that has read only its bytes returns the same before any others. -/
theorem decodeIntegerTail_of_eq_some {bytes : Bytes} {acc depth : ℕ} {v : ℤ}
    (h : decodeIntegerTail? maximumInteger bytes acc depth = some v) (rest : Bytes) :
    decodeIntegerTail maximumInteger (bytes ++ rest) acc depth = v := by
  induction bytes generalizing acc depth with
  | nil => cases h
  | cons bi bytes ih =>
    rw [decodeIntegerTail?] at h
    by_cases hdepth : depth < 32
    · rw [if_pos hdepth] at h
      rw [List.cons_append, decodeIntegerTail]
      by_cases hbi : bi &&& 128 = 0
      · rw [if_pos hbi] at h
        rw [if_pos hbi]
        exact Option.some.inj h
      · rw [if_neg hbi] at h
        rw [if_neg hbi]
        exact ih h
    · rw [if_neg hdepth] at h
      cases h

/-- **A decoder that has read only its bytes** returns the same before any others. -/
theorem decodeIntegerUpTo_of_eq_some (h256 : 256 ≤ maximumInteger) {bytes : Bytes} {v : ℤ}
    (h : decodeIntegerUpTo? maximumInteger bytes p = some v) (rest : Bytes) :
    decodeIntegerUpTo maximumInteger (bytes ++ rest) p = v := by
  cases bytes with
  | nil => cases h
  | cons b0 bytes =>
    simp only [decodeIntegerUpTo?, List.head?_cons, List.tail_cons, Option.bind_eq_bind,
      Option.bind_some, if_neg (show ¬ maximumInteger < 256 by omega)] at h
    simp only [decodeIntegerUpTo, List.cons_append, List.getD_cons_zero, List.tail_cons]
    by_cases hp : (b0.toNat <<< (8 - p) % 256) >>> (8 - p) ≠ 255 >>> (8 - p)
    · rw [if_pos hp] at h
      rw [if_pos hp]
      exact Option.some.inj h
    · rw [if_neg hp] at h
      rw [if_neg hp]
      exact decodeIntegerTail_of_eq_some h rest

/-! ## The round trip -/

/-- Reading the continuation bytes back, in the 32-bit arithmetic of the decoder. -/
theorem decodeIntegerTail?_encode (maximumInteger : ℕ) :
    ∀ (fuel n acc depth : ℕ), n < 128 ^ (fuel + 1) → acc + n * 2 ^ depth < 2 ^ 32 →
      depth + 7 * fuel < 32 →
      decodeIntegerTail? maximumInteger (encodeIntegerTail (fuel + 1) n) acc depth =
        some (if acc + n * 2 ^ depth > maximumInteger then -1
          else ((acc + n * 2 ^ depth : ℕ) : ℤ)) := by
  have weight : ∀ {m acc depth : ℕ}, acc + m * 2 ^ depth < 2 ^ 32 →
      (acc + m * (2 ^ depth % 2 ^ 32) % 2 ^ 32) % 2 ^ 32 = acc + m * 2 ^ depth := by
    intro m acc depth h
    rw [Nat.mul_mod_mod, Nat.add_mod_mod, Nat.mod_eq_of_lt h]
  -- a byte below 128 is the last one, whatever the fuel
  have last : ∀ {n acc depth : ℕ}, n < 128 → acc + n * 2 ^ depth < 2 ^ 32 → depth < 32 →
      decodeIntegerTail? maximumInteger [UInt8.ofNat n] acc depth =
        some (if acc + n * 2 ^ depth > maximumInteger then -1
          else ((acc + n * 2 ^ depth : ℕ) : ℤ)) := by
    intro n acc depth hn hlt hdepth
    have hb : (UInt8.ofNat n).toNat = n := by rw [UInt8.toNat_ofNat', Nat.mod_eq_of_lt (by omega)]
    rw [decodeIntegerTail?, if_pos hdepth, if_pos ((and_128_eq_zero_iff _).mpr (by omega)), hb]
    simp only [weight hlt]
  intro fuel
  induction fuel with
  | zero =>
    intro n acc depth hn hlt hdepth
    rw [encodeIntegerTail, if_neg (by omega)]
    exact last (by omega) hlt (by omega)
  | succ fuel ih =>
    intro n acc depth hn hlt hdepth
    rw [encodeIntegerTail]
    by_cases h : n ≥ 128
    · have hb : (UInt8.ofNat (n % 128 + 128)).toNat = n % 128 + 128 := by
        rw [UInt8.toNat_ofNat', Nat.mod_eq_of_lt (by omega)]
      have hsum : acc + n % 128 * 2 ^ depth + n / 128 * 2 ^ (depth + 7) = acc + n * 2 ^ depth := by
        have hp : 2 ^ (depth + 7) = 128 * 2 ^ depth := by rw [pow_add]; ring
        conv_rhs => rw [← Nat.mod_add_div n 128]
        rw [hp]
        ring
      have hdiv : n / 128 < 128 ^ (fuel + 1) := by
        rw [Nat.div_lt_iff_lt_mul (by decide)]
        exact hn
      have hmod : (n % 128 + 128) % 128 = n % 128 := by omega
      rw [if_pos h, decodeIntegerTail?, if_pos (by omega),
        if_neg (by rw [and_128_eq_zero_iff]; omega), hb, hmod]
      simp only [weight (show acc + n % 128 * 2 ^ depth < 2 ^ 32 by omega)]
      rw [ih _ _ _ hdiv (by omega) (by omega), hsum]
    · rw [if_neg h]
      exact last (by omega) hlt (by omega)

/-- The first byte written holds only bits of the prefix. -/
theorem exists_encodeIntegerUpTo_eq_cons (hp : p ≤ 8) (hi : integer ≤ maximumInteger) :
    ∃ (b : UInt8) (bs : Bytes), (encodeIntegerUpTo maximumInteger integer p).2 = b :: bs ∧
      b.toNat < 2 ^ p := by
  have h8 : 2 ^ p ≤ 2 ^ 8 := Nat.pow_le_pow_right (by decide) hp
  have hpos := Nat.two_pow_pos p
  rw [encodeIntegerUpTo, if_neg (by omega)]
  simp only [maxPrefix_eq hp, shift_mask integer hp]
  by_cases h : integer < 2 ^ p - 1
  · refine ⟨_, [], by rw [if_pos h], ?_⟩
    rw [UInt8.toNat_ofNat']
    exact (Nat.mod_le _ _).trans_lt (Nat.mod_lt _ hpos)
  · refine ⟨_, _, by rw [if_neg h], ?_⟩
    rw [UInt8.toNat_ofNat', Nat.mod_eq_of_lt (by omega)]
    omega

/-- The bytes written are read back, whatever bits are above the prefix, and none behind them. -/
theorem decodeIntegerUpTo?_encode (h256 : 256 ≤ maximumInteger) (hm : maximumInteger ≤ 2 ^ 28)
    (hp1 : 1 ≤ p) (hp : p ≤ 8) (hi : integer ≤ maximumInteger) {b c : UInt8} {bs : Bytes}
    (he : (encodeIntegerUpTo maximumInteger integer p).2 = b :: bs)
    (hc : c.toNat % 2 ^ p = b.toNat) :
    decodeIntegerUpTo? maximumInteger (c :: bs) p = some (integer : ℤ) := by
  have h8 : 2 ^ p ≤ 2 ^ 8 := Nat.pow_le_pow_right (by decide) hp
  have h2 : 2 ≤ 2 ^ p := by
    calc 2 = 2 ^ 1 := rfl
      _ ≤ 2 ^ p := Nat.pow_le_pow_right (by decide) hp1
  rw [encodeIntegerUpTo, if_neg (by omega)] at he
  simp only [maxPrefix_eq hp, shift_mask integer hp] at he
  simp only [decodeIntegerUpTo?, List.head?_cons, List.tail_cons, Option.bind_eq_bind,
    Option.bind_some, shift_mask _ hp, shiftRight_255 hp, hc,
    if_neg (show ¬ maximumInteger < 256 by omega)]
  -- an integer below the mask fits in the first byte; the others carry the rest
  by_cases h : integer < 2 ^ p - 1
  · rw [if_pos h] at he
    obtain ⟨rfl, rfl⟩ := List.cons.inj he
    have hb : (UInt8.ofNat (integer % 2 ^ p)).toNat = integer := by
      have hlt : integer < 2 ^ p := by omega
      rw [Nat.mod_eq_of_lt hlt, UInt8.toNat_ofNat', Nat.mod_eq_of_lt (by omega)]
    rw [hb, if_pos (by omega)]
    rfl
  · rw [if_neg h] at he
    obtain ⟨rfl, rfl⟩ := List.cons.inj he
    have hb : (UInt8.ofNat (2 ^ p - 1)).toNat = 2 ^ p - 1 := by
      rw [UInt8.toNat_ofNat', Nat.mod_eq_of_lt (by omega)]
    have hsum : 2 ^ p - 1 + (integer - (2 ^ p - 1)) * 2 ^ 0 = integer := by omega
    rw [hb, if_neg (by simp), decodeIntegerTail?_encode maximumInteger 4 _ _ _ (by omega)
      (by omega) (by decide), hsum, if_neg (by omega)]

/-- The integer is read back before any bytes. -/
theorem decodeIntegerUpTo_encode (h256 : 256 ≤ maximumInteger) (hm : maximumInteger ≤ 2 ^ 28)
    (hp1 : 1 ≤ p) (hp : p ≤ 8) (hi : integer ≤ maximumInteger) {b c : UInt8} {bs : Bytes}
    (he : (encodeIntegerUpTo maximumInteger integer p).2 = b :: bs)
    (hc : c.toNat % 2 ^ p = b.toNat) (rest : Bytes) :
    decodeIntegerUpTo maximumInteger (c :: bs ++ rest) p = integer :=
  decodeIntegerUpTo_of_eq_some h256 (decodeIntegerUpTo?_encode h256 hm hp1 hp hi he hc) rest

/-- Bits or-ed in above the prefix leave the bits of the prefix. -/
theorem toNat_or_mod {b c : UInt8} (hb : b.toNat < 2 ^ p) (hc : c.toNat % 2 ^ p = 0) :
    (b ||| c).toNat % 2 ^ p = b.toNat := by
  rw [UInt8.toNat_or, Nat.or_mod_two_pow, hc, Nat.or_zero, Nat.mod_eq_of_lt hb]

/-- **The integer round trip**: as many bytes are written as the size that is returned, and the
decoder reads the integer back from them and nothing behind them, whatever bits are or-ed into the
first byte above the prefix. -/
theorem integerRoundTrip (h256 : 256 ≤ maximumInteger) (hm : maximumInteger ≤ 2 ^ 28)
    (hi : integer ≤ maximumInteger) (hp1 : 1 ≤ p) (hp : p ≤ 8) {preamble : UInt8}
    (hpreamble : preamble.toNat % 2 ^ p = 0) :
    ∃ (b : UInt8) (bs : Bytes),
      encodeIntegerUpTo maximumInteger integer p = ((encodedIntegerSize integer p : ℤ), b :: bs) ∧
      (b :: bs).length = encodedIntegerSize integer p ∧
      (∀ rest, decodeIntegerUpTo maximumInteger ((b ||| preamble) :: bs ++ rest) p = integer) ∧
      decodeIntegerUpTo? maximumInteger ((b ||| preamble) :: bs) p = some (integer : ℤ) := by
  obtain ⟨b, bs, hcons, hb⟩ := exists_encodeIntegerUpTo_eq_cons hp hi
  obtain ⟨hwritten, hsize⟩ := length_encodeIntegerUpTo hp hi hm
  have hread := toNat_or_mod hb hpreamble
  refine ⟨b, bs, Prod.ext hsize hcons, ?_,
    decodeIntegerUpTo_encode h256 hm hp1 hp hi hcons hread,
    decodeIntegerUpTo?_encode h256 hm hp1 hp hi hcons hread⟩
  have hlength : ((b :: bs).length : ℤ) = encodedIntegerSize integer p := by
    rw [← hcons, ← hwritten, hsize]
  exact_mod_cast hlength

/-- The integer 1337 of the tests, behind the preamble of a table size update. -/
theorem integerRoundTrip_1337 : ∃ (b : UInt8) (bs : Bytes),
    encodeIntegerUpTo 4096 1337 5 = ((encodedIntegerSize 1337 5 : ℤ), b :: bs) ∧
    (b :: bs).length = encodedIntegerSize 1337 5 ∧
    (∀ rest, decodeIntegerUpTo 4096 ((b ||| 32) :: bs ++ rest) 5 = (1337 : ℕ)) ∧
    decodeIntegerUpTo? 4096 ((b ||| 32) :: bs) 5 = some ((1337 : ℕ) : ℤ) :=
  integerRoundTrip (by decide) (by decide) (by decide) (by decide) (by decide) (by decide)

end Two.Hpack
