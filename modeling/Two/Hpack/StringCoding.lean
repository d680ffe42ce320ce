import Two.Hpack.HuffmanCoding

/-!
# The string coding is exact

`hpack_encoder_encode_string` stores one byte string, `stringBytes s`, at its position; the decoder
parses and decodes it back, whatever follows.

## Main definitions

* `OutBuffer.Writes o o' pos bs`: the buffer `o'` has `bs` at `pos` and agrees with `o` before
* `stringBytes s`: the string literal of `s`
* `ShortCode s`: the 32-bit sum of the code lengths does not overflow

## Main results

* `encodeString_writes`: the encoder writes `stringBytes s`
* `parseString_stringBytes`: the decoder reads `s` back and sees no end-of-string symbol
* `decodeString_encodeString`: the round trip of every string for which the encoder returns a length
  and the 32-bit sum of its code lengths does not overflow
-/

namespace Two.Hpack

open BitStream

/-! ## Writing into the output buffer -/

/-- The buffer `o'` has the bytes `bs` from `pos` on, and agrees with `o` before `pos`. -/
structure OutBuffer.Writes (o o' : OutBuffer) (pos : ℤ) (bs : Bytes) : Prop where
  before : ∀ i < pos, o'.cell i = o.cell i
  written : ∀ j < bs.length, o'.cell (pos + j) = bs.getD j 0

namespace OutBuffer

variable {o o' o'' : OutBuffer} {pos : ℤ} {b c : UInt8} {bs cs : Bytes}

theorem store_cell (o : OutBuffer) (pos : ℤ) (bs : Bytes) (i : ℤ) :
    (o.store pos bs).cell i =
      if pos ≤ i ∧ i < pos + bs.length then bs.getD (i - pos).toNat 0 else o.cell i := rfl

theorem writes_store (o : OutBuffer) (pos : ℤ) (bs : Bytes) : o.Writes (o.store pos bs) pos bs := by
  refine ⟨fun i hi => ?_, fun j hj => ?_⟩
  · rw [store_cell, if_neg (by omega)]
  · rw [store_cell, if_pos (by omega), show (pos + j - pos).toNat = j by omega]

theorem Writes.append (h : o.Writes o' pos bs) (h' : o'.Writes o'' (pos + bs.length) cs) :
    o.Writes o'' pos (bs ++ cs) := by
  refine ⟨fun i hi => ?_, fun j hj => ?_⟩
  · rw [h'.before i (by omega), h.before i hi]
  · rw [List.length_append] at hj
    rcases Nat.lt_or_ge j bs.length with hb | hb
    · rw [h'.before _ (by omega), h.written j hb, List.getD_append _ _ _ _ hb]
    · rw [show pos + (j : ℤ) = pos + bs.length + ((j - bs.length : ℕ) : ℤ) by omega,
        h'.written _ (by omega), List.getD_append_right _ _ _ _ hb]

theorem Writes.overwrite (h : o.Writes o' pos bs) (h' : o'.Writes o'' pos cs) :
    o.Writes o'' pos cs :=
  ⟨fun i hi => by rw [h'.before i hi, h.before i hi], h'.written⟩

/-- The first byte written is changed afterwards. -/
theorem Writes.store_head (h : o.Writes o' pos (b :: bs)) (c : UInt8) :
    o.Writes (o'.store pos [c]) pos (c :: bs) := by
  refine ⟨fun i hi => ?_, fun j hj => ?_⟩
  · rw [(writes_store o' pos [c]).before i hi, h.before i hi]
  · cases j with
    | zero => exact (writes_store o' pos [c]).written 0 (by simp)
    | succ j =>
      rw [store_cell, if_neg (by rw [List.length_singleton]; omega), h.written (j + 1) hj]
      rfl

theorem Writes.cell_head (h : o.Writes o' pos (b :: bs)) : o'.cell pos = b := by
  have := h.written 0 (by simp)
  simpa using this

/-- The bytes written from the start of the buffer. -/
theorem Writes.bytes_eq (h : o.Writes o' 0 bs) : o'.bytes bs.length = bs := by
  apply List.ext_getElem
  · simp [bytes]
  · intro j _ hj
    have := h.written j hj
    simpa [bytes, List.getD_eq_getElem?_getD, hj] using this

end OutBuffer

/-! ## The bytes of a string literal -/

/-- The number of bytes of a Huffman coded string. -/
def huffmanLength (s : Bytes) : ℕ := requiredBytes (bitLength (s.map codeWord))

/-- The number of bytes that the encoder computes for it, in 32-bit arithmetic. -/
def codedLength (s : Bytes) : ℕ := requiredBytes (bitLength ((counted s).map codeWord) % 2 ^ 32)

/-- The lengths of the code words of the string do not overflow their 32-bit sum. -/
def ShortCode (s : Bytes) : Prop := bitLength (s.map codeWord) < 2 ^ 32

instance (s : Bytes) : Decidable (ShortCode s) := inferInstanceAs (Decidable (_ < _))

/-- The Huffman coded string. -/
def packedString (s : Bytes) : Bytes :=
  (packEncodedWordsToBytes (s.map codeWord) (List.replicate (huffmanLength s) 0)).getD
    (List.replicate (huffmanLength s) 0)

/-- The first byte is changed by `f`. -/
def mapHead (f : UInt8 → UInt8) : Bytes → Bytes
  | [] => []
  | b :: bs => f b :: bs

/-- The string literal of `s`: Huffman coded, unless that is longer than the string. -/
def stringBytes (s : Bytes) : Bytes :=
  if huffmanLength s + encodedIntegerSize (huffmanLength s) 7 > s.length then
    (encodeInteger s.length 7).2 ++ s
  else mapHead (· ||| 128) (encodeInteger (huffmanLength s) 7).2 ++ packedString s

theorem ShortCode.length_lt {s : Bytes} (h : ShortCode s) : s.length < 2 ^ 32 := by
  have h5 := length_le_bitLength s
  rw [ShortCode] at h
  omega

theorem shortCode_of_length_le {s : Bytes} (h : s.length ≤ hpackMaximumInteger) : ShortCode s := by
  have hmax : hpackMaximumInteger = 4096 := rfl
  have hle := bitLength_le s
  rw [ShortCode]
  omega

theorem encodedIntegerSize_pos (num p : ℕ) : 0 < encodedIntegerSize num p := by
  simp only [encodedIntegerSize]
  split
  · decide
  · split <;> omega

theorem log128Loop_le (x : ℕ) : ∀ fuel n m, log128Loop x fuel n m ≤ n + fuel
  | 0, n, _ => Nat.le_refl n
  | fuel + 1, n, m => by
    unfold log128Loop
    have := log128Loop_le x fuel (n + 1) (2 ^ (7 * (n + 1)) % 2 ^ 32)
    split
    · omega
    · split <;> omega

theorem encodedIntegerSize_le (p num : ℕ) : encodedIntegerSize num p ≤ 8 := by
  have := log128Loop_le (num - maxPrefix p) 6 0 1
  simp only [encodedIntegerSize, log128]
  split
  · omega
  · split <;> omega

/-- The length prefix of a string literal, split at its first byte. -/
theorem exists_encodeInteger_eq {n p : ℕ} (hp : p ≤ 8) (hn : n ≤ hpackMaximumInteger) :
    ∃ (b : UInt8) (bs : Bytes), encodeInteger n p = (((bs.length + 1 : ℕ) : ℤ), b :: bs) ∧
      encodedIntegerSize n p = bs.length + 1 ∧ b.toNat < 2 ^ p := by
  obtain ⟨b, bs, hcons, hb⟩ := exists_encodeIntegerUpTo_eq_cons hp hn
  obtain ⟨h1, h2⟩ := length_encodeIntegerUpTo hp hn (by decide)
  rw [hcons] at h1
  refine ⟨b, bs, Prod.ext (by rw [encodeInteger, h1, List.length_cons]) hcons, ?_, hb⟩
  rw [List.length_cons] at h1
  omega

/-- The integer is read back, whatever bits are above the prefix. -/
theorem decodeInteger_encode {n p : ℕ} (hp1 : 1 ≤ p) (hp : p ≤ 8) (hn : n ≤ hpackMaximumInteger)
    {b c : UInt8} {bs : Bytes} (he : (encodeInteger n p).2 = b :: bs)
    (hc : c.toNat % 2 ^ p = b.toNat) (rest : Bytes) :
    decodeInteger (c :: (bs ++ rest)) p = n :=
  decodeIntegerUpTo_encode (by decide) (by decide) hp1 hp hn he hc rest

theorem packedString_spec {s : Bytes} (hs : huffmanLength s ≤ hpackMaximumInteger) :
    packEncodedWordsToBytes (s.map codeWord) (List.replicate (huffmanLength s) 0) =
        some (packedString s) ∧
      (packedString s).length = huffmanLength s ∧
      ∀ rest, PaddedAt (packedString s ++ rest) (huffmanLength s) 0 s := by
  have hws : ∀ w ∈ s.map codeWord, WellSized w := by
    intro w hw
    obtain ⟨b, -, rfl⟩ := List.mem_map.mp hw
    exact wellSized_codeWord b
  obtain ⟨hle, hlt⟩ := requiredBytes_spec (bitLength (s.map codeWord))
  have h32 : bitLength (s.map codeWord) ≤ 2 ^ 32 := by
    rw [huffmanLength, hpackMaximumInteger] at hs
    omega
  obtain ⟨packed, heq, hlen, hcarry, hones⟩ :=
    packEncodedWordsToBytes_carries (n := huffmanLength s) hws (Nat.le_refl _) h32
  have hpacked : packedString s = packed := by rw [packedString, heq, Option.getD_some]
  have hbit : ∀ rest i, i < 8 * huffmanLength s → bitAt (packed ++ rest) i = bitAt packed i := by
    intro rest i hi
    rw [bitAt, bitAt, List.getD_append _ _ _ _ (by omega)]
  rw [hpacked]
  -- bytes behind the packed ones add no bit before the end of the string
  refine ⟨heq, hlen, fun rest => ⟨?_, ?_, ?_, fun i h1 h2 => ?_⟩⟩
  · exact hcarry.congr fun i _ h2 => hbit rest i (by rw [huffmanLength]; omega)
  · rw [huffmanLength]; omega
  · rw [huffmanLength]; omega
  · rw [hbit rest i h2]
    exact hones i (by omega) h2

/-! ## Encoding -/

variable {s : Bytes} {bufferSize : ℕ}

/-- The raw string literal. -/
theorem encodeNonHuffmanString_writes (hs : s.length ≤ hpackMaximumInteger)
    (hN : ((encodeInteger s.length 7).2 ++ s).length < bufferSize) (o : OutBuffer) (pos : ℤ) :
    ∃ o', encodeNonHuffmanString s o pos bufferSize =
        ((((encodeInteger s.length 7).2 ++ s).length : ℤ), o') ∧
      o.Writes o' pos ((encodeInteger s.length 7).2 ++ s) := by
  obtain ⟨b, bs, he, -, -⟩ := exists_encodeInteger_eq (show 7 ≤ 8 by decide) hs
  have hlt := (shortCode_of_length_le hs).length_lt
  rw [he] at hN ⊢
  simp only [List.length_append, List.length_cons] at hN
  rw [encodeNonHuffmanString, unsignedLength_of_lt hlt, counted_of_lt hlt, he]
  simp only
  rw [if_neg (by omega), if_neg (by omega)]
  refine ⟨_, Prod.ext ?_ rfl, (OutBuffer.writes_store o pos (b :: bs)).append
    (OutBuffer.writes_store _ _ s)⟩
  simp only [List.length_append, List.length_cons]
  omega

/-- The Huffman coded string literal; when it does not fit, only bytes from `pos` on are touched. -/
theorem encodeHuffmanString_writes (hs : ShortCode s) (o : OutBuffer) (pos : ℤ) (bufferSize : ℕ) :
    ∃ rc o', encodeHuffmanString s o pos bufferSize = (rc, o') ∧ o.Writes o' pos [] ∧
      (0 ≤ rc → huffmanLength s ≤ hpackMaximumInteger ∧
        huffmanLength s + encodedIntegerSize (huffmanLength s) 7 < bufferSize) ∧
      (huffmanLength s ≤ hpackMaximumInteger →
        huffmanLength s + encodedIntegerSize (huffmanLength s) 7 < bufferSize →
        rc = (huffmanLength s + encodedIntegerSize (huffmanLength s) 7 : ℕ) ∧
          o.Writes o' pos
            (mapHead (· ||| 128) (encodeInteger (huffmanLength s) 7).2 ++ packedString s)) := by
  have hlength : requiredBytes (bitLength (s.map codeWord) % 2 ^ 32) = huffmanLength s := by
    rw [Nat.mod_eq_of_lt hs, huffmanLength]
  have nil_of : ∀ {o' bs}, o.Writes o' pos bs → o.Writes o' pos [] := fun h => ⟨h.before, by simp⟩
  rw [encodeHuffmanString, counted_of_lt hs.length_lt, encodeHuffmanWord_eq]
  simp only [hlength]
  by_cases hn : huffmanLength s ≤ hpackMaximumInteger
  · obtain ⟨hpack, -, -⟩ := packedString_spec hn
    simp only [hpack, Option.getD_some]
    obtain ⟨b, bs, he, hsize, -⟩ := exists_encodeInteger_eq (show 7 ≤ 8 by decide) hn
    have hstore := OutBuffer.writes_store o pos (b :: bs)
    simp only [he, hsize]
    rw [if_neg (by omega)]
    -- the length is already stored when the room for the words is checked
    by_cases hN : huffmanLength s + (bs.length + 1) < bufferSize
    · rw [if_neg (by omega)]
      have hw : o.Writes _ pos _ := ((hstore.store_head ((o.store pos (b :: bs)).cell pos ||| 128)).append
        (OutBuffer.writes_store _ _ (packedString s)))
      rw [hstore.cell_head] at hw ⊢
      exact ⟨_, _, rfl, nil_of hw, fun _ => ⟨hn, hN⟩, fun _ _ => ⟨by push_cast; rfl, hw⟩⟩
    · rw [if_pos (by omega)]
      exact ⟨_, _, rfl, nil_of hstore, fun h => by omega, fun _ h => by omega⟩
  · have he : encodeInteger (huffmanLength s) 7 = (-1, []) := by
      rw [encodeInteger, encodeIntegerUpTo, if_pos (by omega)]
    simp only [he]
    rw [if_pos (by decide)]
    exact ⟨_, _, rfl, nil_of (OutBuffer.writes_store o pos []), fun h => by omega, fun h => by omega⟩

theorem length_stringBytes_huffman
    (hshort : ¬ huffmanLength s + encodedIntegerSize (huffmanLength s) 7 > s.length)
    (hn : huffmanLength s ≤ hpackMaximumInteger) :
    (stringBytes s).length = huffmanLength s + encodedIntegerSize (huffmanLength s) 7 := by
  obtain ⟨b, bs, he, hsize, -⟩ := exists_encodeInteger_eq (show 7 ≤ 8 by decide) hn
  rw [stringBytes, if_neg hshort, he, hsize, mapHead, List.length_append, (packedString_spec hn).2.1,
    List.length_cons]
  omega

/-- **The encoder writes** the string literal at its position. -/
theorem encodeString_writes (hs : s.length ≤ hpackMaximumInteger)
    (hN : (stringBytes s).length < bufferSize) (o : OutBuffer) (pos : ℤ) :
    ∃ o', encodeString s o pos bufferSize = (((stringBytes s).length : ℤ), o') ∧
      o.Writes o' pos (stringBytes s) := by
  obtain ⟨rc, o₁, heq, hw, hrc, hfit⟩ :=
    encodeHuffmanString_writes (shortCode_of_length_le hs) o pos bufferSize
  rw [encodeString, heq]
  simp only
  rw [stringBytes] at hN ⊢
  by_cases hlong : huffmanLength s + encodedIntegerSize (huffmanLength s) 7 > s.length
  · rw [if_pos hlong] at hN ⊢
    -- a Huffman form of that length is discarded whether or not it was stored
    have hraw : rc < 0 ∨ rc > s.length := by
      rcases lt_or_ge rc 0 with hneg | hnonneg
      · exact .inl hneg
      · obtain ⟨hmax, hlt⟩ := hrc hnonneg
        have := (hfit hmax hlt).1
        omega
    rw [if_pos hraw]
    obtain ⟨o', he, hw'⟩ := encodeNonHuffmanString_writes hs hN o₁ pos
    exact ⟨o', he, hw.overwrite hw'⟩
  · have hlen := length_stringBytes_huffman hlong (by omega)
    rw [stringBytes, if_neg hlong] at hlen
    rw [if_neg hlong, hlen] at hN ⊢
    obtain ⟨hrc, hw'⟩ := hfit (by omega) hN
    rw [if_neg (by omega)]
    exact ⟨o₁, by rw [hrc], hw'⟩

/-! ## Decoding -/

/-- The Huffman bit of the first byte, and the prefix below it. -/
theorem huffmanBit_of_lt : ∀ n < 128, getHuffmanBit (UInt8.ofNat n) = false ∧
    getHuffmanBit (UInt8.ofNat n ||| 128) = true ∧ (UInt8.ofNat n ||| 128).toNat % 2 ^ 7 = n := by
  decide +kernel

theorem huffmanBit_lengths {b : UInt8} (h : b.toNat < 2 ^ 7) : getHuffmanBit b = false ∧
    getHuffmanBit (b ||| 128) = true ∧ (b ||| 128).toNat % 2 ^ 7 = b.toNat := by
  have := huffmanBit_of_lt b.toNat h
  rwa [UInt8.ofNat_toNat] at this

/-- The raw bytes of a printable string have a zero every eight bits. -/
theorem exists_zero_of_printable (hs : ∀ b ∈ s, Printable b) (rest : Bytes) (p : ℕ)
    (hp : p + 30 ≤ 8 * s.length) : ∃ j, p ≤ j ∧ j < p + 30 ∧ bitAt (s ++ rest) j = false := by
  refine ⟨8 * (p / 8 + 1) + 0, by omega, by omega, ?_⟩
  have hk : p / 8 + 1 < s.length := by omega
  rw [bitAt_mul_add _ _ (by decide), List.getD_append _ _ _ _ hk, List.getD_eq_getElem _ _ hk]
  have := (hs _ (List.getElem_mem hk)).2
  exact Nat.testBit_eq_false_of_lt (by omega)

/-- What the decoder makes of one string literal: the string, and no error. -/
structure Reads (strLength : ℕ) (s : Bytes) (huffmanBit : Bool) (n : ℕ) (region : Bytes) : Prop where
  decoded : ∃ rc, 0 ≤ rc ∧ decodeString strLength region n huffmanBit = (rc, s)
  noEos : checkEosSymbol region (n % 256) = false

/-- What the decoder finds in a string literal of `s`: the length, the Huffman bit, and behind them
the string itself or its code. -/
structure Spelled (s rest x : Bytes) (huffmanBit : Bool) (n : ℕ) : Prop where
  length : decodeInteger x 7 = n
  bit : getHuffmanBit (x.getD 0 0) = huffmanBit
  size : (stringBytes s).length = encodedIntegerSize n 7 + n
  content : (huffmanBit = false ∧ n = s.length ∧ x.drop (encodedIntegerSize n 7) = s ++ rest) ∨
    (huffmanBit = true ∧ 0 < n ∧ n < s.length ∧ PaddedAt (x.drop (encodedIntegerSize n 7)) n 0 s)

/-- The length that stands in the string literal of `s`. -/
def literalLength (s : Bytes) : ℕ :=
  if huffmanLength s + encodedIntegerSize (huffmanLength s) 7 > s.length then s.length
  else huffmanLength s

theorem spelled_stringBytes (h : literalLength s ≤ hpackMaximumInteger) (rest : Bytes) :
    ∃ huffmanBit, Spelled s rest (stringBytes s ++ rest) huffmanBit (literalLength s) := by
  rw [literalLength] at h ⊢
  rw [stringBytes]
  by_cases hlong : huffmanLength s + encodedIntegerSize (huffmanLength s) 7 > s.length
  -- the raw string: its length and its bytes
  · simp only [if_pos hlong] at h ⊢
    obtain ⟨b, bs, he, hes, hb⟩ := exists_encodeInteger_eq (show 7 ≤ 8 by decide) h
    have hint := decodeInteger_encode (by decide) (show 7 ≤ 8 by decide) h (by rw [he])
      (Nat.mod_eq_of_lt hb) (s ++ rest)
    have hlength : (stringBytes s).length = encodedIntegerSize s.length 7 + s.length := by
      rw [stringBytes, if_pos hlong, he, hes, List.length_append, List.length_cons]
    rw [he, List.append_assoc]
    refine ⟨false, hint, (huffmanBit_lengths hb).1, hlength, .inl ⟨rfl, rfl, ?_⟩⟩
    rw [hes]
    exact List.drop_left' rfl
  -- the Huffman code: its length with the bit set, and the packed code words
  · simp only [if_neg hlong] at h ⊢
    obtain ⟨b, bs, he, hes, hb⟩ := exists_encodeInteger_eq (show 7 ≤ 8 by decide) h
    obtain ⟨-, hset, hmod⟩ := huffmanBit_lengths hb
    obtain ⟨-, hplen, hpadded⟩ := packedString_spec h
    have hint := decodeInteger_encode (by decide) (show 7 ≤ 8 by decide) h (by rw [he]) hmod
      (packedString s ++ rest)
    have hlength := length_stringBytes_huffman hlong h
    rw [Nat.add_comm] at hlength
    have hpos := encodedIntegerSize_pos (huffmanLength s) 7
    have h5 := length_le_bitLength s
    have hle := (hpadded rest).le
    -- an empty string is never shorter when coded
    have hn0 : 0 < huffmanLength s := by
      rcases Nat.eq_zero_or_pos (huffmanLength s) with h0 | h0
      · have : s.length = 0 := by omega
        omega
      · exact h0
    rw [he, mapHead, List.append_assoc]
    refine ⟨true, hint, hset, hlength, .inr ⟨rfl, hn0, by omega, ?_⟩⟩
    rw [hes]
    have hdrop : ((b ||| 128) :: bs ++ (packedString s ++ rest)).drop (bs.length + 1) =
        packedString s ++ rest := List.drop_left' rfl
    rw [hdrop]
    exact hpadded rest

/-- The string is decoded, with the number of bytes of the literal. -/
theorem Spelled.decodeString {rest x : Bytes} {huffmanBit : Bool} {n strLength : ℕ}
    (h : Spelled s rest x huffmanBit n) (hn : n ≤ hpackMaximumInteger)
    (hlen : s.length ≤ strLength) :
    decodeString strLength (x.drop (encodedIntegerSize n 7)) n huffmanBit =
      (((stringBytes s).length : ℤ), s) := by
  have hmax : hpackMaximumInteger = 4096 := rfl
  have hrc : (n : ℤ) + (encodedIntegerSize n 7 : ℕ) = ((stringBytes s).length : ℕ) := by
    rw [h.size]
    omega
  rcases h.content with ⟨rfl, hlength, hregion⟩ | ⟨rfl, hn0, -, hpadded⟩
  · rw [Hpack.decodeString, if_neg (by decide), decodeNonHuffmanString, if_neg (by omega), hregion,
      hrc, hlength, List.take_left' rfl]
  · have h5 := length_le_bitLength s
    have hle := hpadded.le
    have hloop := decodeHuffmanLoop_padded strLength hn0 (by omega) s (8 * n + 1) 0 0 hpadded
      (by omega) (by omega) (by omega)
    rw [Hpack.decodeString, if_pos rfl, decodeHuffmanString, hloop]
    simp only
    rw [if_neg (by decide), hrc]

/-- **The decoder reads a string literal back**, wherever it stands in the block. -/
theorem parseString_stringBytes {strLength headerSize pointer : ℕ} {block rest : Bytes}
    (hs : ∀ b ∈ s, Printable b) (hlen : s.length ≤ strLength) (hstr : strLength < 256)
    (hblock : block.drop pointer = stringBytes s ++ rest)
    (hsize : pointer + (stringBytes s).length ≤ headerSize) :
    ∃ huffmanBit n region,
      parseString block headerSize pointer =
        some (huffmanBit, n, region, pointer + (stringBytes s).length) ∧
      Reads strLength s huffmanBit n region := by
  have hmax : hpackMaximumInteger = 4096 := rfl
  have hn : literalLength s ≤ s.length := by
    rw [literalLength]
    split <;> omega
  obtain ⟨huffmanBit, hspell⟩ := spelled_stringBytes (show literalLength s ≤ _ by omega) rest
  rw [← hblock] at hspell
  refine ⟨huffmanBit, literalLength s, _, ?_,
    ⟨_, Int.natCast_nonneg _, hspell.decodeString (by omega) hlen⟩, ?_⟩
  · have hsum := hspell.size
    rw [parseString]
    simp only [hspell.length, hspell.bit, Int.toNat_natCast, List.drop_drop]
    rw [if_neg (by omega), if_neg (by omega), if_neg (by omega), hsum, Nat.add_assoc]
  -- the end-of-string symbol is thirty ones, and a printable byte always has a zero
  · rw [Nat.mod_eq_of_lt (by omega)]
    rcases hspell.content with ⟨-, hlength, hregion⟩ | ⟨-, -, -, hpadded⟩
    · rw [hregion, hlength]
      exact checkEosSymbol_eq_false (exists_zero_of_printable hs rest)
    · exact checkEosSymbol_eq_false fun p hp => hpadded.exists_zero hs p (Nat.zero_le p) hp

/-! ## Both directions -/

/-- The bytes from `pos` on. -/
def OutBuffer.slice (o : OutBuffer) (pos : ℤ) (n : ℕ) : Bytes :=
  (List.range n).map fun i : ℕ => o.cell (pos + i)

theorem OutBuffer.Writes.slice_eq {o o' : OutBuffer} {pos : ℤ} {bs : Bytes}
    (h : o.Writes o' pos bs) : o'.slice pos bs.length = bs := by
  apply List.ext_getElem
  · simp [slice]
  · intro j _ hj
    have := h.written j hj
    simpa [slice, List.getD_eq_getElem?_getD, hj] using this

/-- A raw string literal whose length is returned fits. -/
theorem encodeNonHuffmanString_of_nonneg {o : OutBuffer} {pos : ℤ} (hlt : s.length < 2 ^ 32)
    (h : 0 ≤ (encodeNonHuffmanString s o pos bufferSize).1) :
    s.length ≤ hpackMaximumInteger ∧
      ((encodeInteger s.length 7).2 ++ s).length < bufferSize := by
  rw [encodeNonHuffmanString, unsignedLength_of_lt hlt] at h
  rcases Nat.lt_or_ge hpackMaximumInteger s.length with hlong | hs
  · have he : encodeInteger s.length 7 = (-1, []) := by
      rw [encodeInteger, encodeIntegerUpTo, if_pos hlong]
    simp only [he] at h
    rw [if_pos (by decide)] at h
    simp at h
  · obtain ⟨b, bs, he, -, -⟩ := exists_encodeInteger_eq (show 7 ≤ 8 by decide) hs
    simp only [he] at h
    rw [if_neg (by omega)] at h
    refine ⟨hs, ?_⟩
    rw [he, List.length_append, List.length_cons]
    by_contra hbig
    rw [if_pos (by omega)] at h
    simp at h

/-- What the encoder has written when it returns a length. -/
theorem encodeString_of_nonneg {o : OutBuffer} {pos : ℤ} (hshort : ShortCode s)
    (h : 0 ≤ (encodeString s o pos bufferSize).1) :
    literalLength s ≤ hpackMaximumInteger ∧
      (encodeString s o pos bufferSize).1 = (stringBytes s).length ∧
      o.Writes (encodeString s o pos bufferSize).2 pos (stringBytes s) := by
  have hmax : hpackMaximumInteger = 4096 := rfl
  obtain ⟨rc, o₁, heq, hw, hrc, hfit⟩ := encodeHuffmanString_writes hshort o pos bufferSize
  have hpos := encodedIntegerSize_pos (huffmanLength s) 7
  rw [encodeString, heq] at h ⊢
  simp only at h ⊢
  split
  · -- the raw form, after a Huffman attempt that failed or was longer
    rename_i hraw
    rw [if_pos hraw] at h
    obtain ⟨hs, hN⟩ := encodeNonHuffmanString_of_nonneg hshort.length_lt h
    have hlong : huffmanLength s + encodedIntegerSize (huffmanLength s) 7 > s.length := by
      by_contra hshort
      rw [List.length_append] at hN
      have := hfit (by omega) (by omega)
      omega
    obtain ⟨o', he, hw'⟩ := encodeNonHuffmanString_writes hs hN o₁ pos
    rw [he, literalLength, stringBytes, if_pos hlong, if_pos hlong]
    exact ⟨hs, rfl, hw.overwrite hw'⟩
  · rename_i hhuffman
    obtain ⟨hmax, hlt⟩ := hrc (by omega)
    obtain ⟨hvalue, hw'⟩ := hfit hmax hlt
    have hshort : ¬ huffmanLength s + encodedIntegerSize (huffmanLength s) 7 > s.length := by
      omega
    rw [hvalue, literalLength, if_neg hshort, length_stringBytes_huffman hshort hmax, stringBytes,
      if_neg hshort]
    exact ⟨hmax, rfl, hw'⟩

/-- **Every string literal is read back.** Where the encoder returns a length for a string whose
code lengths do not overflow, the decoder finds the string behind the Huffman bit and the length,
whatever follows, and returns the same length. -/
theorem decodeString_encodeString (hs : ShortCode s) (o : OutBuffer) (pos : ℤ)
    (h : 0 ≤ (encodeString s o pos bufferSize).1) {capacity : ℕ} (hcapacity : s.length < capacity)
    (rest : Bytes) :
    let (rc, o') := encodeString s o pos bufferSize
    let x := o'.slice pos rc.toNat ++ rest
    let n := decodeInteger x 7
    0 ≤ n ∧ decodeString capacity (x.drop (encodedIntegerSize n.toNat 7)) n.toNat
      (getHuffmanBit (x.getD 0 0)) = (rc, s) := by
  obtain ⟨hn, hrc, hw⟩ := encodeString_of_nonneg hs h
  obtain ⟨huffmanBit, hspell⟩ := spelled_stringBytes hn rest
  have hslice := hw.slice_eq
  generalize encodeString s o pos bufferSize = r at *
  obtain ⟨rc, o'⟩ := r
  simp only at hrc hslice ⊢
  rw [hrc, Int.toNat_natCast, hslice, hspell.length, hspell.bit, Int.toNat_natCast]
  exact ⟨Int.natCast_nonneg _, hspell.decodeString hn hcapacity.le⟩

end Two.Hpack
