import Two.Hpack.IntegerCoding

/-!
# The value of an encoded integer

RFC 7541 gives every complete integer representation a value of unbounded size. The decoder adds it
up in 32 bits and compares only the sum with the limit, so a representation whose value passes
`2 ^ 32` may be taken for a small number, and one with six or more continuation bytes shifts by 32
or more.

## Main definitions

* `integerValue`: the value of a representation
* `CompleteInteger`: the bytes contain a complete representation
* `shiftAmounts`: the amounts by which the decoder shifts
* `ExactInteger`: what is claimed of the decoder

## Main results

* `decodeIntegerTail_eq`: the decoder computes the value modulo `2 ^ 32`
* `exactInteger_iff`: when the decoder is exact
-/

namespace Two.Hpack

/-- The value of continuation bytes, up to the first one without the continuation bit. -/
def tailValue : Bytes → ℕ
  | [] => 0
  | b :: bytes => if b.toNat < 128 then b.toNat else b.toNat % 128 + 128 * tailValue bytes

/-- The number of continuation bytes. -/
def tailLength : Bytes → ℕ
  | [] => 0
  | b :: bytes => if b.toNat < 128 then 1 else tailLength bytes + 1

/-- The prefix bits of the first byte. -/
def prefixBits (prefixSize : ℕ) (bytes : Bytes) : ℕ := (bytes.getD 0 0).toNat % 2 ^ prefixSize

/-- The first byte announces continuation bytes: all bits of the prefix are set. -/
def HasTail (prefixSize : ℕ) (bytes : Bytes) : Prop :=
  prefixBits prefixSize bytes = 2 ^ prefixSize - 1

instance (prefixSize : ℕ) (bytes : Bytes) : Decidable (HasTail prefixSize bytes) :=
  inferInstanceAs (Decidable (_ = _))

/-- The value of an integer representation, as RFC 7541 defines it. -/
def integerValue (prefixSize : ℕ) (bytes : Bytes) : ℕ :=
  if HasTail prefixSize bytes then 2 ^ prefixSize - 1 + tailValue bytes.tail
  else prefixBits prefixSize bytes

/-- The number of continuation bytes of an integer representation. -/
def continuationBytes (prefixSize : ℕ) (bytes : Bytes) : ℕ :=
  if HasTail prefixSize bytes then tailLength bytes.tail else 0

/-- The bytes contain a complete integer representation. -/
def CompleteInteger (prefixSize : ℕ) (bytes : Bytes) : Prop :=
  bytes ≠ [] ∧ (HasTail prefixSize bytes → ∃ b ∈ bytes.tail, b.toNat < 128)

instance (prefixSize : ℕ) (bytes : Bytes) : Decidable (CompleteInteger prefixSize bytes) :=
  inferInstanceAs (Decidable (_ ∧ _))

/-- The shifts of the loop over the continuation bytes. -/
def tailShifts : Bytes → ℕ → List ℕ
  | [], _ => []
  | b :: bytes, depth => depth :: if b.toNat < 128 then [] else tailShifts bytes (depth + 7)

/-- The amounts by which `hpack_decoder_decode_integer` shifts. -/
def shiftAmounts (prefixSize : ℕ) (bytes : Bytes) : List ℕ :=
  if HasTail prefixSize bytes then tailShifts bytes.tail 0 else []

/-- The decoder returns the value of the integer, or -1 if it is too large, and never shifts by the
width of its accumulator or more. -/
def ExactInteger (prefixSize : ℕ) (bytes : Bytes) : Prop :=
  decodeInteger bytes prefixSize =
      (if integerValue prefixSize bytes ≤ hpackMaximumInteger then
        (integerValue prefixSize bytes : ℤ) else -1) ∧
    ∀ amount ∈ shiftAmounts prefixSize bytes, amount < 32

instance (prefixSize : ℕ) (bytes : Bytes) : Decidable (ExactInteger prefixSize bytes) :=
  inferInstanceAs (Decidable (_ ∧ _))

/-! ## The continuation bytes -/

section Tail

variable {bytes : Bytes}

/-- Continuation bytes that end, and do not end at once, end later. -/
theorem exists_lt_tail {b : UInt8} (h : ∃ b' ∈ b :: bytes, b'.toNat < 128)
    (hb : ¬ b.toNat < 128) : ∃ b' ∈ bytes, b'.toNat < 128 := by
  obtain ⟨b', hmem, hlt⟩ := h
  rcases List.mem_cons.mp hmem with rfl | hmem
  · exact absurd hlt hb
  · exact ⟨b', hmem, hlt⟩

/-- The loop of the decoder adds up the value of the continuation bytes modulo `2 ^ 32`. -/
theorem decodeIntegerTail_eq (maximumInteger : ℕ) (h : ∃ b ∈ bytes, b.toNat < 128)
    (integer depth : ℕ) :
    decodeIntegerTail maximumInteger bytes integer depth =
      if (integer + 2 ^ depth * tailValue bytes) % 2 ^ 32 > maximumInteger then -1
      else (((integer + 2 ^ depth * tailValue bytes) % 2 ^ 32 : ℕ) : ℤ) := by
  -- the weight is kept modulo `2^32`, and so is the sum
  have weight : ∀ n acc depth : ℕ, (acc + n * (2 ^ depth % 2 ^ 32) % 2 ^ 32) % 2 ^ 32 =
      (acc + 2 ^ depth * n) % 2 ^ 32 := by
    intro n acc depth
    rw [Nat.mul_mod_mod, Nat.add_mod_mod, Nat.mul_comm]
  induction bytes generalizing integer depth with
  | nil =>
    obtain ⟨b, hb, -⟩ := h
    cases hb
  | cons b bytes ih =>
    rw [decodeIntegerTail, tailValue]
    by_cases hb : b.toNat < 128
    · simp only [(and_128_eq_zero_iff b).mpr hb, if_true, if_pos hb, weight]
    · have htail := exists_lt_tail h hb
      have hsum : ((integer + 2 ^ depth * (b.toNat % 128)) % 2 ^ 32 +
          2 ^ (depth + 7) * tailValue bytes) % 2 ^ 32 =
            (integer + 2 ^ depth * (b.toNat % 128 + 128 * tailValue bytes)) % 2 ^ 32 := by
        have h128 : 2 ^ 7 = 128 := rfl
        rw [Nat.mod_add_mod, pow_add, mul_add, ← add_assoc, mul_assoc, h128]
      rw [if_neg (mt (and_128_eq_zero_iff b).mp hb), if_neg hb, weight, ih htail, hsum]

/-- There are as many shifts as continuation bytes, each by seven more than the one before. -/
theorem mem_tailShifts (h : ∃ b ∈ bytes, b.toNat < 128) {depth amount : ℕ} :
    amount ∈ tailShifts bytes depth ↔ ∃ i < tailLength bytes, amount = depth + 7 * i := by
  induction bytes generalizing depth with
  | nil =>
    obtain ⟨b, hb, -⟩ := h
    cases hb
  | cons b bytes ih =>
    rw [tailShifts, tailLength]
    -- the last byte of the integer is the first one without the continuation bit
    by_cases hb : b.toNat < 128
    · rw [if_pos hb, if_pos hb]
      constructor
      · intro hmem
        exact ⟨0, by decide, List.mem_singleton.mp hmem⟩
      · rintro ⟨i, hi, rfl⟩
        obtain rfl : i = 0 := by omega
        exact List.mem_singleton.mpr rfl
    · have htail := exists_lt_tail h hb
      rw [if_neg hb, if_neg hb, List.mem_cons, ih htail]
      constructor
      · rintro (rfl | ⟨i, hi, rfl⟩)
        · exact ⟨0, by omega, rfl⟩
        · exact ⟨i + 1, by omega, by ring⟩
      · rintro ⟨i, hi, rfl⟩
        cases i with
        | zero => exact .inl rfl
        | succ i => exact .inr ⟨i, by omega, by ring⟩

end Tail

/-! ## The claim -/

section Claim

variable {prefixSize : ℕ} {bytes : Bytes}

/-- The prefix bits of the first byte, as the decoder computes them. -/
theorem decodeInteger_eq (hp : prefixSize ≤ 7) :
    decodeInteger bytes prefixSize = if HasTail prefixSize bytes then
      decodeIntegerTail hpackMaximumInteger bytes.tail (2 ^ prefixSize - 1) 0
      else (prefixBits prefixSize bytes : ℤ) := by
  unfold decodeInteger decodeIntegerUpTo
  rw [shift_mask _ (by omega), shiftRight_255 (by omega)]
  by_cases h : HasTail prefixSize bytes
  · rw [if_pos h]
    exact if_neg (not_not.mpr h)
  · rw [if_neg h]
    exact if_pos h

/-- **The integer decoder is exact** where the representation has at most five continuation bytes
and its value does not wrap around to a number within the limit. -/
theorem exactInteger_iff (h7 : prefixSize ≤ 7) (hc : CompleteInteger prefixSize bytes) :
    ExactInteger prefixSize bytes ↔ continuationBytes prefixSize bytes ≤ 5 ∧
      (integerValue prefixSize bytes < 2 ^ 32 ∨
        hpackMaximumInteger < integerValue prefixSize bytes % 2 ^ 32) := by
  have hmax : hpackMaximumInteger = 4096 := rfl
  have hpow : 2 ^ prefixSize ≤ 2 ^ 7 := Nat.pow_le_pow_right (by decide) h7
  unfold ExactInteger shiftAmounts continuationBytes
  rw [decodeInteger_eq h7]
  by_cases ht : HasTail prefixSize bytes
  · have htail := hc.2 ht
    have hvalue : 2 ^ prefixSize - 1 + 2 ^ 0 * tailValue bytes.tail =
        integerValue prefixSize bytes := by
      rw [integerValue, if_pos ht, pow_zero, one_mul]
    have hshifts : (∀ amount ∈ tailShifts bytes.tail 0, amount < 32) ↔
        tailLength bytes.tail ≤ 5 := by
      simp only [mem_tailShifts htail]
      constructor
      · intro h
        by_contra hlong
        have := h _ ⟨5, by omega, rfl⟩
        omega
      · rintro hle amount ⟨i, hi, rfl⟩
        omega
    rw [if_pos ht, if_pos ht, if_pos ht, hshifts, decodeIntegerTail_eq _ htail, hvalue, and_comm]
    refine and_congr_right fun _ => ?_
    -- the remainder is the value, unless the sum wraps around
    have hmod := Nat.mod_le (integerValue prefixSize bytes) (2 ^ 32)
    have hlt : integerValue prefixSize bytes < 2 ^ 32 →
        integerValue prefixSize bytes % 2 ^ 32 = integerValue prefixSize bytes :=
      Nat.mod_eq_of_lt
    split <;> split <;> omega
  · have hvalue : integerValue prefixSize bytes = prefixBits prefixSize bytes := by
      rw [integerValue, if_neg ht]
    have hbits : prefixBits prefixSize bytes < 2 ^ prefixSize :=
      Nat.mod_lt _ (Nat.two_pow_pos _)
    rw [if_neg ht, if_neg ht, if_neg ht, hvalue, if_pos (by omega)]
    simp only [List.not_mem_nil, false_implies, implies_true, and_true, true_iff]
    exact ⟨Nat.zero_le _, .inl (by omega)⟩

end Claim

/-- The example of RFC 7541: 1337 with a prefix of five bits. -/
theorem exactInteger_iff_1337 : integerValue 5 [31, 154, 10] = 1337 ∧ ExactInteger 5 [31, 154, 10] :=
  ⟨by decide, (exactInteger_iff (by decide) (by decide)).mpr (by decide)⟩

/-- Five continuation bytes with the value `2 ^ 32 + 31` are taken for 31. -/
theorem not_exactInteger : ¬ ∀ (prefixSize : ℕ) (bytes : Bytes), 4 ≤ prefixSize → prefixSize ≤ 7 →
    CompleteInteger prefixSize bytes → ExactInteger prefixSize bytes := by
  intro h
  have hwrap := h 5 [31, 128, 128, 128, 128, 16] (by decide) (by decide) (by decide)
  revert hwrap
  decide

end Two.Hpack
