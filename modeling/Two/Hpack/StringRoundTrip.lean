import Two.Hpack.EncodedSizes

/-!
# Reading a string literal back

`hpack_encoder_encode_string` counts the bits of the Huffman code in a `uint32_t`, and nothing checks
that the sum does not overflow. A string whose code has `2 ^ 32` bits or more is then sent with the
length of the few bits that are left of the sum, and the decoder reads a few characters at most.

## Main definitions

* `ReadBack`: where the encoder returns a length, the decoder finds the string and the same length

## Main results

* `readBack_iff`: exactly when a string is read back
-/

namespace Two.Hpack

/-- Where the encoder returns a length, the decoder finds the string behind the Huffman bit and the
length that were written, whatever follows, and returns the same length. -/
def ReadBack (s : Bytes) (bufferSize : ℕ) (o : OutBuffer) (pos : ℤ) : Prop :=
  let (rc, o') := encodeString s o pos bufferSize
  0 ≤ rc → ∀ capacity, s.length < capacity → ∀ rest,
    let x := o'.slice pos rc.toNat ++ rest
    let n := decodeInteger x 7
    0 ≤ n ∧ decodeString capacity (x.drop (encodedIntegerSize n.toNat 7)) n.toNat
      (getHuffmanBit (x.getD 0 0)) = (rc, s)

section Decoded

variable {strLength n : ℕ} {region : Bytes}

/-- The decoder finds one symbol at most in a round. -/
theorem length_decodeHuffmanLoop_le_fuel (fuel i pos : ℕ) :
    (decodeHuffmanLoop strLength region n fuel i pos).2.length ≤ fuel := by
  induction fuel generalizing i pos with
  | zero => exact Nat.le_refl 0
  | succ fuel ih =>
    rw [decodeHuffmanLoop]
    split
    · split
      · exact Nat.zero_le _
      · generalize decodeHuffmanWord region n pos = r
        obtain ⟨wordLength, sym⟩ := r
        dsimp only
        split
        · exact Nat.zero_le _
        · split
          · exact Nat.zero_le _
          · have hrest := ih ((i + 1) % 2 ^ 16) ((pos + wordLength.toNat) % 2 ^ 16)
            have hsym : sym.toList.length ≤ 1 := by cases sym <;> simp
            rw [List.length_append]
            omega
    · exact Nat.zero_le _

/-- What is decoded is not much longer than eight times the length that is returned for it. -/
theorem length_decodeString_le {huffmanBit : Bool}
    (h : 0 ≤ (decodeString strLength region n huffmanBit).1) :
    ((decodeString strLength region n huffmanBit).2.length : ℤ) ≤
      8 * (decodeString strLength region n huffmanBit).1 + 1 := by
  cases huffmanBit with
  | false =>
    rw [decodeString, if_neg (by decide), decodeNonHuffmanString] at h ⊢
    split
    · rename_i hlong
      rw [if_pos hlong] at h
      exact absurd h (by decide)
    · simp only [List.length_take]
      omega
  | true =>
    have hloop := @length_decodeHuffmanLoop_le_fuel strLength n region (8 * n + 1) 0 0
    rw [decodeString, if_pos rfl, decodeHuffmanString] at h ⊢
    generalize decodeHuffmanLoop strLength region n (8 * n + 1) 0 0 = r at *
    obtain ⟨rc, s⟩ := r
    dsimp only at h hloop ⊢
    split
    · rename_i hneg
      rw [if_pos hneg] at h
      exact absurd h (by omega)
    · dsimp only
      omega

end Decoded

section Strings

variable {s : Bytes} {bufferSize : ℕ} {o : OutBuffer} {pos : ℤ}

/-- A string whose code lengths overflow their sum is not read back from what fits. -/
theorem not_readBack (hs : ¬ ShortCode s)
    (hfits : KeepsHuffman bufferSize s ∨ RawFits bufferSize s) : ¬ ReadBack s bufferSize o pos := by
  have hrc := (@encodeString_size o pos bufferSize s).1
  have hnonneg := stringSize_nonneg_iff.mpr hfits
  have hle := @stringSize_le_maximum bufferSize s
  have hmax : hpackMaximumInteger = 4096 := rfl
  have hbits := bitLength_le s
  rw [ShortCode] at hs
  rw [ReadBack]
  generalize encodeString s o pos bufferSize = r at *
  obtain ⟨rc, o'⟩ := r
  dsimp only at hrc ⊢
  subst hrc
  intro hread
  -- the length that is returned leaves no room for so many characters
  obtain ⟨-, heq⟩ := hread hnonneg (s.length + 1) (Nat.lt_succ_self _) []
  have hlen := length_decodeString_le (by rw [heq]; exact hnonneg)
  rw [heq] at hlen
  dsimp only at hlen
  omega

/-- **A string literal is read back** exactly if the lengths of its code words do not overflow their
32-bit sum, or the lengths that are left do not fit the buffer and nothing is returned. -/
theorem readBack_iff (s : Bytes) (bufferSize : ℕ) (o : OutBuffer) (pos : ℤ) :
    ReadBack s bufferSize o pos ↔
      ShortCode s ∨ ¬ (KeepsHuffman bufferSize s ∨ RawFits bufferSize s) := by
  constructor
  · intro h
    by_contra hno
    obtain ⟨hlong, hfits⟩ := not_or.mp hno
    exact not_readBack hlong (not_not.mp hfits) h
  · intro h
    have hcodes := fun hs : ShortCode s => @decodeString_encodeString s bufferSize hs o pos
    have hrc := (@encodeString_size o pos bufferSize s).1
    rw [ReadBack]
    generalize encodeString s o pos bufferSize = r at *
    obtain ⟨rc, o'⟩ := r
    dsimp only at hcodes hrc ⊢
    subst hrc
    intro hnonneg capacity hcapacity rest
    rcases h with hshort | hno
    · exact hcodes hshort hnonneg hcapacity rest
    · exact absurd (stringSize_nonneg_iff.mp hnonneg) hno

end Strings

/-- The code of a line feed has 30 bits, so 143165577 of them have `2 ^ 32 + 14`. The encoder returns
three bytes, the length and two bytes of code. -/
theorem not_readBack_lineFeeds :
    ¬ ∀ (s : Bytes) (bufferSize : ℕ) (o : OutBuffer) (pos : ℤ),
      NulFree s → ReadBack s bufferSize o pos := by
  intro h
  obtain ⟨n, hn⟩ : ∃ n, n = 143165577 := ⟨_, rfl⟩
  have hword : (codeWord 10).length = 30 := by decide
  have hbits : bitLength ((List.replicate n 10).map codeWord) = 2 ^ 32 + 14 := by
    rw [List.map_replicate, bitLength_replicate, hword]
    omega
  have hnul : NulFree (List.replicate n 10) := fun hmem =>
    absurd (List.eq_of_mem_replicate hmem) (by decide)
  have hlong : ¬ ShortCode (List.replicate n 10) := by
    rw [ShortCode, hbits]
    decide
  -- two bytes are left of the sum
  have hcoded : codedLength (List.replicate n 10) = 2 := by
    rw [codedLength, counted_of_lt (by rw [List.length_replicate]; omega), hbits]
    rfl
  have hkeeps : KeepsHuffman 16 (List.replicate n 10) := by
    rw [KeepsHuffman, HuffmanFits, hcoded, List.length_replicate, hn]
    decide
  exact not_readBack hlong (.inl hkeeps) (h _ 16 .empty 0 hnul)

end Two.Hpack
