import Two.Hpack.BlockBounds

/-!
# The bytes of an integer and the advance over it

`hpack_decoder_decode_integer` does not say how many bytes it has looked at. The parser computes the
number again, as the size of the shortest representation of the value, and goes on from there. The
two agree where the representation is the shortest one; a representation with zeros at its end is
longer, and one that wraps around in 32 bits is longer than that of the number it is taken for.

## Main definitions

* `bytesExamined`: the bytes at which the integer decoder looks
* `Reading`: an integer that the parser has read, and where it goes on
* `headerReadings`, `blockReadings`: the readings of a representation and of a block
* `Shortest`: the representation is the shortest one of its value

## Main results

* `encodedIntegerSize_decodeInteger_iff`: when one advance is as long as the integer
* `advances_iff`: when every advance in a block is
-/

namespace Two.Hpack

/-- The continuation bytes at which the loop of `hpack_decoder_decode_integer` looks. -/
def tailExamined : Bytes → ℕ
  | [] => 1
  | bi :: bytes => if bi &&& 128 = 0 then 1 else tailExamined bytes + 1

/-- The number of bytes at which `hpack_decoder_decode_integer` looks. -/
def bytesExamined (prefixSize : ℕ) (bytes : Bytes) : ℕ :=
  let b0 := ((bytes.getD 0 0).toNat <<< (8 - prefixSize) % 256) >>> (8 - prefixSize)
  let p := 255 >>> (8 - prefixSize)
  if b0 ≠ p then 1 else 1 + tailExamined bytes.tail

/-- The last continuation byte. -/
def tailLast : Bytes → ℕ
  | [] => 0
  | b :: bytes => if b.toNat < 128 then b.toNat else tailLast bytes

/-- A representation is the shortest one of a value that fits in 32 bits: its last byte is not a
zero that could be left out. -/
def Shortest (prefixSize : ℕ) (bytes : Bytes) : Prop :=
  integerValue prefixSize bytes < 2 ^ 32 ∧
    (continuationBytes prefixSize bytes ≤ 1 ∨ tailLast bytes.tail ≠ 0)

instance (prefixSize : ℕ) (bytes : Bytes) : Decidable (Shortest prefixSize bytes) :=
  inferInstanceAs (Decidable (_ ∧ _))

/-! ## One integer -/

section Integer

variable {bytes : Bytes} {prefixSize : ℕ}

theorem one_le_tailLength (h : ∃ b ∈ bytes, b.toNat < 128) : 1 ≤ tailLength bytes := by
  obtain ⟨b, hb, -⟩ := h
  cases bytes with
  | nil => cases hb
  | cons b bytes =>
    rw [tailLength]
    split <;> omega

theorem tailExamined_eq (h : ∃ b ∈ bytes, b.toNat < 128) :
    tailExamined bytes = tailLength bytes := by
  induction bytes with
  | nil =>
    obtain ⟨b, hb, -⟩ := h
    cases hb
  | cons b bytes ih =>
    rw [tailExamined, tailLength]
    by_cases hb : b.toNat < 128
    · rw [if_pos ((and_128_eq_zero_iff b).mpr hb), if_pos hb]
    · have htail := exists_lt_tail h hb
      rw [if_neg (mt (and_128_eq_zero_iff b).mp hb), if_neg hb, ih htail]

theorem bytesExamined_eq (h7 : prefixSize ≤ 7) (hc : CompleteInteger prefixSize bytes) :
    bytesExamined prefixSize bytes = 1 + continuationBytes prefixSize bytes := by
  unfold bytesExamined continuationBytes
  simp only [shift_mask _ (show prefixSize ≤ 8 by omega), shiftRight_255 (show prefixSize ≤ 8 by omega)]
  by_cases ht : HasTail prefixSize bytes
  · rw [if_pos ht, ← tailExamined_eq (hc.2 ht)]
    exact if_neg (not_not.mpr ht)
  · rw [if_neg ht]
    exact if_pos ht

theorem tailValue_lt (bytes : Bytes) : tailValue bytes < 128 ^ tailLength bytes := by
  induction bytes with
  | nil => decide
  | cons b bytes ih =>
    rw [tailValue, tailLength]
    by_cases hb : b.toNat < 128
    · rw [if_pos hb, if_pos hb]
      exact hb
    · rw [if_neg hb, if_neg hb, pow_succ]
      omega

/-- The value has as many digits as the representation, exactly if the last one is not a zero. -/
theorem pow_le_tailValue_iff (h : ∃ b ∈ bytes, b.toNat < 128) :
    128 ^ (tailLength bytes - 1) ≤ tailValue bytes ↔ tailLast bytes ≠ 0 := by
  induction bytes with
  | nil =>
    obtain ⟨b, hb, -⟩ := h
    cases hb
  | cons b bytes ih =>
    rw [tailValue, tailLength, tailLast]
    by_cases hb : b.toNat < 128
    · simp only [if_pos hb, Nat.sub_self, pow_zero]
      omega
    · have htail := exists_lt_tail h hb
      have hlen := one_le_tailLength htail
      have hpow : 128 ^ tailLength bytes = 128 ^ (tailLength bytes - 1) * 128 := by
        rw [← pow_succ, Nat.sub_add_cancel hlen]
      rw [if_neg hb, if_neg hb, if_neg hb, Nat.add_sub_cancel, ← ih htail]
      omega

/-- The size of a number of at most two continuation bytes. -/
theorem encodedIntegerSize_add {v : ℕ} (h7 : prefixSize ≤ 7) (hv : v < 128 ^ 2) :
    encodedIntegerSize (2 ^ prefixSize - 1 + v) prefixSize = if v < 128 then 2 else 3 := by
  rw [encodedIntegerSize]
  simp only [maxPrefix_eq (show prefixSize ≤ 8 by omega)]
  rw [if_neg (by omega)]
  by_cases h0 : v = 0
  · rw [if_pos (by omega), if_pos (by omega)]
  · rw [if_neg (by omega), Nat.add_sub_cancel_left]
    split
    · rw [log128_eq (k := 0) (by omega) (by omega) (by omega)]
    · rw [log128_eq (k := 1) (by omega) (by omega) (by omega)]

/-- **The advance over an accepted integer is as long as the integer** exactly if this is the
shortest representation. -/
theorem encodedIntegerSize_decodeInteger_iff (h7 : prefixSize ≤ 7)
    (hc : CompleteInteger prefixSize bytes) (hok : 0 ≤ decodeInteger bytes prefixSize) :
    encodedIntegerSize (decodeInteger bytes prefixSize).toNat prefixSize =
        bytesExamined prefixSize bytes ↔
      Shortest prefixSize bytes := by
  have hpow : 2 ^ prefixSize ≤ 2 ^ 7 := Nat.pow_le_pow_right (by decide) h7
  rw [bytesExamined_eq h7 hc]
  rw [decodeInteger_eq h7] at hok ⊢
  unfold Shortest continuationBytes integerValue
  by_cases ht : HasTail prefixSize bytes
  · have htail := hc.2 ht
    have hlen := one_le_tailLength htail
    have hlt := tailValue_lt bytes.tail
    have hlast := pow_le_tailValue_iff htail
    rw [if_pos ht, decodeIntegerTail_eq _ htail, pow_zero, one_mul] at hok ⊢
    rw [if_pos ht, if_pos ht]
    have hmax : hpackMaximumInteger = 4096 := rfl
    -- only the number of the continuation bytes and their value matter from here on
    generalize tailLength bytes.tail = k at *
    generalize tailValue bytes.tail = v at *
    split at hok
    · omega
    rename_i hle
    rw [if_neg hle, Int.toNat_natCast, ← hlast]
    rcases Nat.lt_or_ge (2 ^ prefixSize - 1 + v) (2 ^ 32) with hsmall | hwrap
    · -- the value is what the decoder returns, and has one or two continuation bytes
      rw [Nat.mod_eq_of_lt hsmall] at hle ⊢
      rw [encodedIntegerSize_add h7 (by omega)]
      simp only [hsmall, true_and]
      rcases (by omega : k = 1 ∨ k = 2 ∨ 3 ≤ k) with rfl | rfl | h3
      · rw [if_pos (by omega)]
        omega
      · split <;> omega
      · have : 128 ^ 2 ≤ 128 ^ (k - 1) := Nat.pow_le_pow_right (by decide) (by omega)
        split <;> omega
    · -- a value that wraps around has at least five continuation bytes
      have hfive : 5 ≤ k := by
        by_contra hk
        have : 128 ^ k ≤ 128 ^ 4 := Nat.pow_le_pow_right (by decide) (by omega)
        omega
      have hsize : encodedIntegerSize ((2 ^ prefixSize - 1 + v) % 2 ^ 32) prefixSize ≤ 3 := by
        generalize (2 ^ prefixSize - 1 + v) % 2 ^ 32 = m at *
        rcases Nat.lt_or_ge m (2 ^ prefixSize - 1) with hm | hm
        · rw [encodedIntegerSize]
          simp only [maxPrefix_eq (show prefixSize ≤ 8 by omega)]
          rw [if_pos hm]
          omega
        · obtain ⟨m, rfl⟩ := Nat.exists_eq_add_of_le hm
          rw [encodedIntegerSize_add h7 (by omega)]
          split <;> omega
      omega
  -- without continuation bytes the prefix is the value, and one byte is examined
  · have hbits : prefixBits prefixSize bytes < 2 ^ prefixSize :=
      Nat.mod_lt _ (Nat.two_pow_pos _)
    have hne : prefixBits prefixSize bytes ≠ 2 ^ prefixSize - 1 := ht
    simp only [if_neg ht, Int.toNat_natCast, encodedIntegerSize]
    rw [maxPrefix_eq (by omega), if_pos (by omega)]
    omega

end Integer

/-! ## The readings of a block -/

/-- An integer that the parser has read: its prefix, where it begins, and where the parser goes
on. -/
structure Reading where
  prefixSize : ℕ
  offset : ℕ
  next : ℕ
  deriving DecidableEq

/-- The integer read at `offset`, unless it is rejected. -/
def readingAt (x : Bytes) (prefixSize offset : ℕ) : Option Reading :=
  let integer := decodeInteger (x.drop offset) prefixSize
  if integer < 0 then none
  else some ⟨prefixSize, offset, offset + encodedIntegerSize integer.toNat prefixSize⟩

/-- The lengths of the strings of a literal representation with this index. -/
def stringReadings (x : Bytes) (size index pointer : ℕ) : List Reading :=
  (readingAt x 7 pointer).toList ++
    if index = 0 then
      match parseString x size pointer with
      | none => []
      | some (_, _, _, pointer) => (readingAt x 7 pointer).toList
    else []

/-- The integers that `hpack_decoder_parse_encoded_header` reads: the index or the table size, and
the lengths of the strings of a literal. -/
def headerReadings (x : Bytes) (size : ℕ) : List Reading :=
  let preamble := getPreamble (x.getD 0 0)
  match readingAt x (findPrefixSize preamble) 0 with
  | none => []
  | some r =>
    r :: if preamble = .indexedHeaderField ∨ preamble = .dynamicTableSizeUpdate ∨ r.next > size then
        []
      else stringReadings x size (decodeInteger x (findPrefixSize preamble)).toNat r.next

/-- The same reading, counted from `n` bytes before. -/
def Reading.shift (n : ℕ) (r : Reading) : Reading :=
  ⟨r.prefixSize, n + r.offset, n + r.next⟩

/-- The integers that the loop of `hpack_decoder_decode` reads. -/
def blockReadings (behind : Behind) (memory : Bytes) (size : ℕ) : ℕ → DecoderState → List Reading
  | 0, _ => []
  | fuel + 1, s =>
    if s.pointer < size then
      let region := memory.drop s.pointer
      (headerReadings region (size - s.pointer)).map (Reading.shift s.pointer) ++
        match decodeParsed behind s (parseEncodedHeader region (size - s.pointer)) with
        | .inl _ => []
        | .inr s' => blockReadings behind memory size fuel s'
    else []

/-- A reading is the one of the integer at its offset. -/
structure Reading.Of (x : Bytes) (r : Reading) : Prop where
  prefix_le : r.prefixSize ≤ 7
  reading : readingAt x r.prefixSize r.offset = some r

section Readings

variable {x memory : Bytes} {r : Reading} {size : ℕ}

theorem readingAt_eq_some {prefixSize offset : ℕ} : readingAt x prefixSize offset = some r ↔
    0 ≤ decodeInteger (x.drop offset) prefixSize ∧
      ⟨prefixSize, offset, offset + encodedIntegerSize
        (decodeInteger (x.drop offset) prefixSize).toNat prefixSize⟩ = r := by
  rw [readingAt]
  split
  · constructor
    · rintro ⟨⟩
    · rintro ⟨hok, -⟩
      omega
  · rw [Option.some.injEq]
    exact ⟨fun h => ⟨by omega, h⟩, And.right⟩

theorem Reading.of_readingAt {prefixSize offset : ℕ} (h7 : prefixSize ≤ 7)
    (h : readingAt x prefixSize offset = some r) : r.Of x := by
  obtain ⟨-, rfl⟩ := readingAt_eq_some.mp h
  exact ⟨h7, h⟩

theorem Reading.of_stringReadings {index pointer : ℕ} (h : r ∈ stringReadings x size index pointer) :
    r.Of x := by
  rcases List.mem_append.mp h with h | h
  · exact Reading.of_readingAt (by decide) (Option.mem_toList.mp h)
  · split at h
    · split at h
      · cases h
      · exact Reading.of_readingAt (by decide) (Option.mem_toList.mp h)
    · cases h

theorem Reading.of_headerReadings (h : r ∈ headerReadings x size) : r.Of x := by
  have h7 : findPrefixSize (getPreamble (x.getD 0 0)) ≤ 7 := by
    cases getPreamble (x.getD 0 0) <;> decide
  rw [headerReadings] at h
  split at h
  · cases h
  · rename_i first hfirst
    rcases List.mem_cons.mp h with rfl | h
    · exact Reading.of_readingAt h7 hfirst
    · split at h
      · cases h
      · exact Reading.of_stringReadings h

theorem Reading.Of.shift {n : ℕ} (h : r.Of (x.drop n)) : (r.shift n).Of x := by
  refine ⟨h.prefix_le, readingAt_eq_some.mpr ?_⟩
  obtain ⟨hok, hr⟩ := readingAt_eq_some.mp h.reading
  have hnext := congrArg Reading.next hr
  simp only [List.drop_drop] at hok hnext
  refine ⟨hok, ?_⟩
  rw [Reading.shift, ← hnext, Nat.add_assoc]

theorem Reading.of_blockReadings {behind : Behind} {fuel : ℕ} {s : DecoderState}
    (h : r ∈ blockReadings behind memory size fuel s) : r.Of memory := by
  induction fuel generalizing s with
  | zero => cases h
  | succ fuel ih =>
    rw [blockReadings] at h
    split at h
    · rcases List.mem_append.mp h with h | h
      · obtain ⟨r', hr', rfl⟩ := List.mem_map.mp h
        exact (Reading.of_headerReadings hr').shift
      · split at h
        · cases h
        · exact ih h
    · cases h

/-- The parser goes on at the byte after the integer. -/
def Reading.Advances (memory : Bytes) (r : Reading) : Prop :=
  r.next = r.offset + bytesExamined r.prefixSize (memory.drop r.offset)

instance (memory : Bytes) (r : Reading) : Decidable (r.Advances memory) :=
  inferInstanceAs (Decidable (_ = _))

theorem Reading.Of.advances_iff_shortest (h : r.Of memory)
    (hc : CompleteInteger r.prefixSize (memory.drop r.offset)) :
    r.Advances memory ↔ Shortest r.prefixSize (memory.drop r.offset) := by
  obtain ⟨hok, hr⟩ := readingAt_eq_some.mp h.reading
  have hnext := congrArg Reading.next hr
  simp only at hnext
  rw [← encodedIntegerSize_decodeInteger_iff h.prefix_le hc hok, Reading.Advances]
  omega

end Readings

/-- The integers that the decoder reads in the first `size` bytes of the memory and that end in the
memory. -/
def completeReadings (behind : Behind) (t : DynamicTable) (memory : Bytes) (size : ℕ)
    (headers : HeaderList) : List Reading :=
  (blockReadings behind memory size (size + 1) (.init t headers)).filter fun r =>
    CompleteInteger r.prefixSize (memory.drop r.offset)

/-- **Every advance of the parser is as long as the integer it has read** exactly if every integer
is in its shortest representation. -/
theorem advances_iff (behind : Behind) (t : DynamicTable) (memory : Bytes) (size : ℕ)
    (headers : HeaderList) :
    (∀ r ∈ completeReadings behind t memory size headers, r.Advances memory) ↔
      ∀ r ∈ completeReadings behind t memory size headers,
        Shortest r.prefixSize (memory.drop r.offset) := by
  refine forall₂_congr fun r hr => ?_
  obtain ⟨hr, hc⟩ := List.mem_filter.mp hr
  exact (Reading.of_blockReadings hr).advances_iff_shortest (of_decide_eq_true hc)

/-- A size update to 31 with a redundant zero, before an indexed field: the parser goes on at the
zero. -/
theorem not_advances :
    ¬ ∀ (behind : Behind) (t : DynamicTable) (memory : Bytes) (size : ℕ) (headers : HeaderList),
      ∀ r ∈ completeReadings behind t memory size headers, r.Advances memory := by
  intro h
  have hadvance := h zeroBehind newTable [0x3f, 0x80, 0x00, 0x82] 4 .reset ⟨5, 0, 2⟩ (by decide +kernel)
  revert hadvance
  decide +kernel

end Two.Hpack
