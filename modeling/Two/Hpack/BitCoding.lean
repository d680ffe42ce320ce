import Two.Library.BitStream
import Two.Hpack.Encoder
import Two.Hpack.Decoder

/-!
# Bit packing and bit reading

`hpack_encoder_pack_encoded_words_to_bytes` writes code words one after the other and pads the last
byte with ones; `hpack_decoder_read_bits_from_bytes` reads any run of at most 32 bits. The writer
keeps its position in 32 bits, so after `2 ^ 32` bits it goes on at the beginning of the buffer.

## Main definitions

* `wordBits words`, `paddedBits words`: the bits of the code words, and with ones up to the byte
  boundary
* `Carries bit pos words`: the code words stand one after the other from bit `pos` on
* `PacksExactly words n`: the words are packed into `n` bytes and each is read back

## Main results

* `packEncodedWordsToBytes_bits`: the ones of the packed bytes are those of words and padding
* `packEncodedWordsToBytes_carries`: up to `2 ^ 32` bits carry the words, then only ones
* `spells_readBitsFromBytes`: the number read is the one the bits spell
* `packsExactly_iff`: when the two are inverse
-/

namespace Two.Hpack

open BitStream

/-- The code words stand one after the other from bit `pos` on. -/
def Carries (bit : ℕ → Bool) : ℕ → List EncodedWord → Prop
  | _, [] => True
  | pos, w :: ws => Spells bit pos w.length w.code ∧ Carries bit (pos + w.length) ws

/-- A code word of at most 32 bits. -/
structure WellSized (w : EncodedWord) : Prop where
  code_lt : w.code < 2 ^ w.length
  length_le : w.length ≤ 32

@[simp] theorem bitLength_nil : bitLength [] = 0 := rfl

@[simp] theorem bitLength_cons (w : EncodedWord) (ws : List EncodedWord) :
    bitLength (w :: ws) = w.length + bitLength ws := by simp [bitLength]

@[simp] theorem bitLength_append (ws vs : List EncodedWord) :
    bitLength (ws ++ vs) = bitLength ws + bitLength vs := by simp [bitLength]

theorem bitLength_replicate (n : ℕ) (w : EncodedWord) :
    bitLength (List.replicate n w) = n * w.length := by
  simp [bitLength]

theorem Carries.congr {bit bit' : ℕ → Bool} :
    ∀ {ws : List EncodedWord} {pos : ℕ}, Carries bit pos ws →
      (∀ i, pos ≤ i → i < pos + bitLength ws → bit' i = bit i) → Carries bit' pos ws := by
  intro ws
  induction ws with
  | nil => intros; trivial
  | cons w ws ih =>
    intro pos h hb
    rw [bitLength_cons] at hb
    refine ⟨h.1.congr fun i h1 h2 => hb i h1 (by omega), ih h.2 fun i h1 h2 => ?_⟩
    exact hb i (by omega) (by omega)

theorem requiredBytes_spec (n : ℕ) : n ≤ 8 * requiredBytes n ∧ 8 * requiredBytes n < n + 8 := by
  rw [requiredBytes]
  split <;> omega

theorem requiredBytes_mono {m n : ℕ} (h : m ≤ n) : requiredBytes m ≤ requiredBytes n := by
  obtain ⟨-, hm⟩ := requiredBytes_spec m
  obtain ⟨hn, -⟩ := requiredBytes_spec n
  omega

/-- The bits of code words, one word after the other, each with the most significant bit first. -/
def wordBits (ws : List EncodedWord) : List Bool := ws.flatMap fun w => numeral w.length w.code

/-- The bits of code words, with ones up to the byte boundary. -/
def paddedBits (ws : List EncodedWord) : List Bool :=
  wordBits ws ++ List.replicate (8 * requiredBytes (bitLength ws) - bitLength ws) true

@[simp] theorem wordBits_nil : wordBits [] = [] := rfl

@[simp] theorem wordBits_cons (w : EncodedWord) (ws : List EncodedWord) :
    wordBits (w :: ws) = numeral w.length w.code ++ wordBits ws := List.flatMap_cons

theorem wordBits_append (ws vs : List EncodedWord) :
    wordBits (ws ++ vs) = wordBits ws ++ wordBits vs := List.flatMap_append

@[simp] theorem length_wordBits (ws : List EncodedWord) : (wordBits ws).length = bitLength ws := by
  induction ws with
  | nil => rfl
  | cons w ws ih => rw [wordBits_cons, List.length_append, length_numeral, ih, bitLength_cons]

@[simp] theorem length_paddedBits (ws : List EncodedWord) :
    (paddedBits ws).length = 8 * requiredBytes (bitLength ws) := by
  obtain ⟨hle, -⟩ := requiredBytes_spec (bitLength ws)
  rw [paddedBits, List.length_append, length_wordBits, List.length_replicate]
  omega

/-- Where the bits of the code words stand, the code words stand. -/
theorem carries_of_wordBits {bit : ℕ → Bool} {ws : List EncodedWord} (hws : ∀ w ∈ ws, WellSized w)
    {pos : ℕ} (h : ∀ k b, (wordBits ws)[k]? = some b → bit (pos + k) = b) : Carries bit pos ws := by
  induction ws generalizing pos with
  | nil => trivial
  | cons w ws ih =>
    refine ⟨⟨(hws w List.mem_cons_self).code_lt, fun j hj => h j _ ?_⟩,
      ih (fun v hv => hws v (List.mem_cons_of_mem _ hv)) fun k b hk => ?_⟩
    · rw [wordBits_cons, List.getElem?_append_left (by rwa [length_numeral]), getElem?_numeral hj]
    · rw [Nat.add_assoc]
      apply h
      rw [wordBits_cons, List.getElem?_append_right (by rw [length_numeral]; omega), length_numeral,
        Nat.add_sub_cancel_left, hk]

/-! ## Packing -/

/-- The bits or-ed into the byte at `cur / 8`: the `b` topmost bits of the code, from `cur` on. -/
theorem testBit_packed_bits {code b cur i : ℕ} (hi : i / 8 = cur / 8) :
    ((((2 ^ b - 1) <<< (32 - b) % 2 ^ 32) &&& code) >>> (32 - (8 - cur % 8))).testBit (7 - i % 8) =
      (decide (cur ≤ i ∧ i < cur + b) && code.testBit (31 - (i - cur))) := by
  rw [Nat.testBit_shiftRight, Nat.testBit_and, Nat.testBit_mod_two_pow, Nat.testBit_shiftLeft,
    Nat.testBit_two_pow_sub_one]
  by_cases h : cur ≤ i
  · rw [show 32 - (8 - cur % 8) + (7 - i % 8) = 31 - (i - cur) by omega]
    by_cases h' : i < cur + b
    · have h1 : 31 - (i - cur) < 32 := by omega
      have h2 : 31 - (i - cur) ≥ 32 - b := by omega
      have h3 : 31 - (i - cur) - (32 - b) < b := by omega
      simp [h, h', h1, h2, h3]
    · have h2 : ¬ 31 - (i - cur) ≥ 32 - b := by omega
      simp [h', h2]
  · have h1 : ¬ 32 - (8 - cur % 8) + (7 - i % 8) < 32 := by omega
    simp [h, h1]

theorem packed_bits_lt (code b cur : ℕ) :
    (((2 ^ b - 1) <<< (32 - b) % 2 ^ 32) &&& code) >>> (32 - (8 - cur % 8)) < 256 := by
  have h1 : ((2 ^ b - 1) <<< (32 - b) % 2 ^ 32) &&& code < 2 ^ 32 :=
    Nat.lt_of_le_of_lt Nat.and_le_left (Nat.mod_lt _ (by decide))
  rw [Nat.shiftRight_eq_div_pow, Nat.div_lt_iff_lt_mul (Nat.two_pow_pos _)]
  have h2 : 2 ^ 24 ≤ 2 ^ (32 - (8 - cur % 8)) := Nat.pow_le_pow_right (by decide) (by omega)
  omega

/-- One round of the inner loop writes the ones among the `b` topmost bits of `code`. -/
theorem packRound_bits {buffer : Bytes} {b cur : ℕ} (hcur : cur / 8 < buffer.length)
    (hb : b ≤ 8 - cur % 8) (code i : ℕ) :
    bitAt (buffer.set (cur / 8) (UInt8.ofNat ((buffer.getD (cur / 8) 0).toNat |||
        (((2 ^ b - 1) <<< (32 - b) % 2 ^ 32) &&& code) >>> (32 - (8 - cur % 8))))) i = true ↔
      bitAt buffer i = true ∨ ∃ j < b, cur + j = i ∧ code.testBit (31 - j) = true := by
  rw [bitAt_set_or hcur (packed_bits_lt code b cur), Bool.or_eq_true, Bool.and_eq_true,
    decide_eq_true_iff]
  refine or_congr_right ⟨?_, ?_⟩
  · rintro ⟨hi, h⟩
    rw [testBit_packed_bits hi, Bool.and_eq_true, decide_eq_true_iff] at h
    obtain ⟨⟨h1, h2⟩, hbit⟩ := h
    exact ⟨i - cur, by omega, by omega, hbit⟩
  · rintro ⟨j, hj, rfl, hbit⟩
    -- a round stays within one byte
    have hi : (cur + j) / 8 = cur / 8 := by omega
    rw [testBit_packed_bits hi, Bool.and_eq_true, decide_eq_true_iff]
    exact ⟨hi, ⟨by omega, by omega⟩, by rwa [Nat.add_sub_cancel_left]⟩

/-- The `n` topmost bits of a 32-bit number: the first `b` of them, and those left when they are
shifted out. -/
theorem exists_topmost_iff {P : ℕ → Prop} {b n : ℕ} (hb : b ≤ n) (hn : n ≤ 32) (code : ℕ) :
    (∃ j < n, P j ∧ code.testBit (31 - j) = true) ↔
      (∃ j < b, P j ∧ code.testBit (31 - j) = true) ∨
        ∃ j < n - b, P (b + j) ∧ (code <<< b % 2 ^ 32).testBit (31 - j) = true := by
  have hshift : ∀ j < n - b,
      (code <<< b % 2 ^ 32).testBit (31 - j) = code.testBit (31 - (b + j)) := by
    intro j hj
    rw [Nat.testBit_mod_two_pow, Nat.testBit_shiftLeft, decide_eq_true (by omega),
      decide_eq_true (by omega), show 31 - j - b = 31 - (b + j) by omega]
    rfl
  constructor
  · rintro ⟨j, hj, hP, h⟩
    by_cases hjb : j < b
    · exact .inl ⟨j, hjb, hP, h⟩
    · have hj' : b + (j - b) = j := by omega
      exact .inr ⟨j - b, by omega, by rwa [hj'], by rwa [hshift _ (by omega), hj']⟩
  · rintro (⟨j, hj, hP, h⟩ | ⟨j, hj, hP, h⟩)
    · exact ⟨j, by omega, hP, h⟩
    · exact ⟨b + j, by omega, hP, by rwa [← hshift j hj]⟩

/-- The inner loop writes the ones among the `codeLength` topmost bits of `code`, from the bit `c`
on. Its position is `c` modulo `2 ^ 32`. -/
theorem packWordLoop_bits :
    ∀ (fuel code codeLength : ℕ) (buffer : Bytes) (c : ℕ), codeLength ≤ fuel → codeLength ≤ 32 →
      c + codeLength ≤ 8 * buffer.length →
      (packWordLoop fuel code codeLength (buffer, c % 2 ^ 32)).2 = (c + codeLength) % 2 ^ 32 ∧
        (packWordLoop fuel code codeLength (buffer, c % 2 ^ 32)).1.length = buffer.length ∧
        ∀ i, bitAt (packWordLoop fuel code codeLength (buffer, c % 2 ^ 32)).1 i = true ↔
          bitAt buffer i = true ∨
            ∃ j < codeLength, (c + j) % 2 ^ 32 = i ∧ code.testBit (31 - j) = true := by
  intro fuel
  induction fuel with
  | zero =>
    intro code codeLength buffer c hf _ _
    obtain rfl : codeLength = 0 := by omega
    exact ⟨rfl, rfl, fun i => by simp [packWordLoop]⟩
  | succ fuel ih =>
    intro code codeLength buffer c hf h32 hfit
    rw [packWordLoop]
    by_cases h0 : codeLength = 0
    · subst h0
      exact ⟨by simp, by simp, fun i => by simp⟩
    · rw [if_neg h0]
      generalize hcur : c % 2 ^ 32 = cur
      have hoff : cur - 8 * (cur / 8) = cur % 8 := by omega
      simp only [hoff]
      generalize hb : (if 8 - cur % 8 > codeLength then codeLength else 8 - cur % 8) = b
      have hb8 : b ≤ 8 - cur % 8 := by rw [← hb]; split <;> omega
      have hbl : b ≤ codeLength := by rw [← hb]; split <;> omega
      have hbpos : 0 < b := by rw [← hb]; split <;> omega
      have hround := packRound_bits (show cur / 8 < buffer.length by omega) hb8 code
      generalize hbuffer : buffer.set (cur / 8) (UInt8.ofNat ((buffer.getD (cur / 8) 0).toNat |||
          (((2 ^ b - 1) <<< (32 - b) % 2 ^ 32) &&& code) >>> (32 - (8 - cur % 8)))) = buffer'
      have hlength : buffer'.length = buffer.length := by rw [← hbuffer, List.length_set]
      rw [hbuffer] at hround
      obtain ⟨hcur', hlen, hbits⟩ := ih (code <<< b % 2 ^ 32) (codeLength - b) buffer' (c + b)
        (by omega) (by omega) (by omega)
      rw [show (cur + b) % 2 ^ 32 = (c + b) % 2 ^ 32 by omega]
      refine ⟨by rw [hcur']; congr 1; omega, by rw [hlen, hlength], fun i => ?_⟩
      rw [hbits i, hround i, or_assoc, exists_topmost_iff hbl h32]
      simp only [Nat.add_assoc]
      -- `2 ^ 32` is a byte boundary, so the position does not wrap within a round
      refine or_congr_right (or_congr_left (exists_congr fun j => and_congr_right fun hj => ?_))
      rw [show (c + j) % 2 ^ 32 = cur + j by omega]

variable {buffer : Bytes} {c : ℕ} {w : EncodedWord} {ws : List EncodedWord}

/-- **One code word** is written from the bit `c` on. -/
theorem packWord_bits (hw : w.length ≤ 32) (hfit : c + w.length ≤ 8 * buffer.length) :
    (packWord (buffer, c % 2 ^ 32) w).2 = (c + w.length) % 2 ^ 32 ∧
      (packWord (buffer, c % 2 ^ 32) w).1.length = buffer.length ∧
      ∀ i, bitAt (packWord (buffer, c % 2 ^ 32) w).1 i = true ↔
        bitAt buffer i = true ∨ OneAt (2 ^ 32) (numeral w.length w.code) c i := by
  obtain ⟨hcur, hlen, hbits⟩ := packWordLoop_bits w.length
    (w.code <<< (32 - w.length) % 2 ^ 32) w.length buffer c (Nat.le_refl _) hw hfit
  refine ⟨hcur, hlen, fun i => ?_⟩
  rw [packWord, hbits, oneAt_numeral]
  refine or_congr_right (exists_congr fun j => ?_)
  refine and_congr_right fun hj => and_congr_right fun _ => ?_
  rw [Nat.testBit_mod_two_pow, Nat.testBit_shiftLeft, decide_eq_true (by omega),
    decide_eq_true (by omega), Bool.true_and, Bool.true_and,
    show 31 - j - (32 - w.length) = w.length - 1 - j by omega]

/-- The outer loop writes the code words one after the other. -/
theorem foldl_packWord_bits :
    ∀ (ws : List EncodedWord) (buffer : Bytes) (c : ℕ), (∀ w ∈ ws, w.length ≤ 32) →
      c + bitLength ws ≤ 8 * buffer.length →
      (ws.foldl packWord (buffer, c % 2 ^ 32)).2 = (c + bitLength ws) % 2 ^ 32 ∧
        (ws.foldl packWord (buffer, c % 2 ^ 32)).1.length = buffer.length ∧
        ∀ i, bitAt (ws.foldl packWord (buffer, c % 2 ^ 32)).1 i = true ↔
          bitAt buffer i = true ∨ OneAt (2 ^ 32) (wordBits ws) c i := by
  intro ws
  induction ws with
  | nil =>
    intro buffer c _ _
    exact ⟨rfl, rfl, fun i => (or_iff_left not_oneAt_nil).symm⟩
  | cons w ws ih =>
    intro buffer c hws hfit
    rw [bitLength_cons] at hfit
    obtain ⟨hcur, hlen, hbits⟩ :=
      packWord_bits (hws w List.mem_cons_self) (show c + w.length ≤ 8 * buffer.length by omega)
    obtain ⟨hcur', hlen', hbits'⟩ := ih (packWord (buffer, c % 2 ^ 32) w).1 (c + w.length)
      (fun v hv => hws v (List.mem_cons_of_mem _ hv)) (by omega)
    rw [List.foldl_cons, show packWord (buffer, c % 2 ^ 32) w =
      ((packWord (buffer, c % 2 ^ 32) w).1, (c + w.length) % 2 ^ 32) by rw [← hcur]]
    refine ⟨by rw [hcur', bitLength_cons, Nat.add_assoc], by rw [hlen', hlen], fun i => ?_⟩
    rw [hbits', hbits, wordBits_cons, oneAt_append, length_numeral, or_assoc]

/-- The last byte is padded with ones. -/
theorem bitAt_padding {bs : Bytes} {cur : ℕ} (ho : 0 < cur % 8) (hk : cur / 8 < bs.length) (i : ℕ) :
    bitAt (bs.set (cur / 8)
        (UInt8.ofNat ((bs.getD (cur / 8) 0).toNat ||| (2 ^ (8 - cur % 8) - 1)))) i = true ↔
      bitAt bs i = true ∨ ∃ j < 8 - cur % 8, cur + j = i := by
  have hlt : 2 ^ (8 - cur % 8) - 1 < 256 := by
    have : 2 ^ (8 - cur % 8) ≤ 2 ^ 8 := Nat.pow_le_pow_right (by decide) (by omega)
    have := Nat.two_pow_pos (8 - cur % 8)
    omega
  rw [bitAt_set_or hk hlt, Nat.testBit_two_pow_sub_one, Bool.or_eq_true, Bool.and_eq_true,
    decide_eq_true_iff, decide_eq_true_iff]
  refine or_congr_right ⟨?_, ?_⟩
  · rintro ⟨h1, h2⟩
    exact ⟨i - cur, by omega, by omega⟩
  · rintro ⟨j, hj, rfl⟩
    exact ⟨by omega, by omega⟩

theorem length_packWordLoop (fuel code codeLength : ℕ) (st : Bytes × ℕ) :
    (packWordLoop fuel code codeLength st).1.length = st.1.length := by
  induction fuel generalizing code codeLength st with
  | zero => rfl
  | succ fuel ih =>
    obtain ⟨buffer, cur⟩ := st
    rw [packWordLoop]
    split
    · rfl
    · rw [ih, List.length_set]

/-- Bytes of the size that is computed for the words are packed in them, even where this size has
wrapped around. -/
theorem exists_packed {n : ℕ} (ws : List EncodedWord)
    (hn : requiredBytes (bitLength ws % 2 ^ 32) ≤ n) :
    ∃ packed, packEncodedWordsToBytes ws (List.replicate n 0) = some packed ∧ packed.length = n := by
  have hfold : ∀ (ws : List EncodedWord) (st : Bytes × ℕ),
      (ws.foldl packWord st).1.length = st.1.length := by
    intro ws
    induction ws with
    | nil => exact fun _ => rfl
    | cons w ws ih => exact fun st => (ih _).trans (length_packWordLoop _ _ _ st)
  have hlen := hfold ws (List.replicate n 0, 0)
  rw [List.length_replicate] at hlen
  rw [packEncodedWordsToBytes, List.length_replicate, if_neg (not_lt.mpr hn)]
  dsimp only
  split
  · exact ⟨_, rfl, by rw [List.length_set, hlen]⟩
  · exact ⟨_, rfl, hlen⟩

/-- **The packed bytes** keep the size of the buffer, and their ones are those of the code words and
of the padding, at positions modulo `2 ^ 32`. -/
theorem packEncodedWordsToBytes_bits {n : ℕ} (hws : ∀ w ∈ ws, w.length ≤ 32)
    (hn : requiredBytes (bitLength ws) ≤ n) :
    ∃ packed, packEncodedWordsToBytes ws (List.replicate n 0) = some packed ∧
      packed.length = n ∧ ∀ i, bitAt packed i = true ↔ OneAt (2 ^ 32) (paddedBits ws) 0 i := by
  obtain ⟨hle, hlt⟩ := requiredBytes_spec (bitLength ws)
  obtain ⟨hle32, hlt32⟩ := requiredBytes_spec (bitLength ws % 2 ^ 32)
  obtain ⟨hcur, hlen, hbits⟩ := foldl_packWord_bits ws (List.replicate n 0) 0 hws
    (by rw [List.length_replicate]; omega)
  rw [Nat.zero_mod, Nat.zero_add] at hcur
  rw [Nat.zero_mod] at hlen hbits
  rw [List.length_replicate] at hlen
  simp only [bitAt_replicate_zero, Bool.false_eq_true, false_or] at hbits
  rw [packEncodedWordsToBytes, List.length_replicate, if_neg (by omega)]
  simp only [hcur]
  generalize hcur32 : bitLength ws % 2 ^ 32 = cur
  rw [show cur - 8 * (cur / 8) = cur % 8 by omega]
  -- the padding begins where the code words end
  have hpad : ∀ i, OneAt (2 ^ 32) (paddedBits ws) 0 i ↔
      OneAt (2 ^ 32) (wordBits ws) 0 i ∨
        ∃ j < 8 * requiredBytes (bitLength ws) - bitLength ws, cur + j = i := by
    intro i
    rw [paddedBits, oneAt_append, oneAt_replicate, length_wordBits, Nat.zero_add]
    refine or_congr_right (exists_congr fun j => and_congr_right fun hj => ?_)
    rw [show (bitLength ws + j) % 2 ^ 32 = cur + j by omega]
  by_cases ho : cur % 8 > 0
  -- a byte is begun, and filled up
  · have hbit := bitAt_padding ho
      (show cur / 8 < (ws.foldl packWord (List.replicate n 0, 0)).1.length by rw [hlen]; omega)
    refine ⟨_, if_pos ho, by rw [List.length_set, hlen], fun i => ?_⟩
    have hlength : 8 * requiredBytes (bitLength ws) - bitLength ws = 8 - cur % 8 := by omega
    rw [hbit, hbits, hpad, hlength]
  · refine ⟨_, if_neg ho, hlen, fun i => ?_⟩
    rw [hbits, hpad, or_iff_left]
    rintro ⟨j, hj, -⟩
    omega

/-- The padded bits have no one after `2 ^ 32` bits if there are no more bits, or if there is no
padding and the bits after that many are zeros. -/
theorem paddedBits_lt_iff (ws : List EncodedWord) :
    (∀ k, (paddedBits ws)[k]? = some true → k < 2 ^ 32) ↔
      bitLength ws ≤ 2 ^ 32 ∨
        bitLength ws % 8 = 0 ∧ ∀ b ∈ (wordBits ws).drop (2 ^ 32), b = false := by
  obtain ⟨hle, hlt⟩ := requiredBytes_spec (bitLength ws)
  constructor
  · intro h
    refine or_iff_not_imp_left.mpr fun hgt => ⟨?_, fun b hb => ?_⟩
    -- padding would stand behind all bits of the words
    · by_contra hmod
      have hone : (paddedBits ws)[bitLength ws]? = some true := by
        rw [paddedBits, List.getElem?_append_right (by rw [length_wordBits]), length_wordBits,
          Nat.sub_self, List.getElem?_replicate, if_pos (by omega)]
      exact hgt (h _ hone).le
    · obtain ⟨k, hk⟩ := List.mem_iff_getElem?.mp hb
      rw [List.getElem?_drop] at hk
      obtain ⟨hklt, -⟩ := List.getElem?_eq_some_iff.mp hk
      cases b with
      | false => rfl
      | true =>
        have hone : (paddedBits ws)[2 ^ 32 + k]? = some true := by
          rw [paddedBits, List.getElem?_append_left hklt, hk]
        have := h _ hone
        omega
  · intro h k hk
    obtain ⟨hklt, -⟩ := List.getElem?_eq_some_iff.mp hk
    rw [length_paddedBits] at hklt
    rcases h with h | ⟨hmod, hzero⟩
    · omega
    · by_contra hge
      rw [paddedBits, List.getElem?_append_left (by rw [length_wordBits]; omega),
        show k = 2 ^ 32 + (k - 2 ^ 32) by omega, ← List.getElem?_drop] at hk
      have := hzero true (List.mem_iff_getElem?.mpr ⟨_, hk⟩)
      cases this

/-- Packed bytes that begin with the bits of the code words carry the code words. -/
theorem carries_of_isPrefix {packed : Bytes} (hws : ∀ w ∈ ws, WellSized w)
    (h : paddedBits ws <+: bits packed) : Carries (bitAt packed) 0 ws := by
  refine carries_of_wordBits hws fun k b hk => ?_
  obtain ⟨hlt, -⟩ := List.getElem?_eq_some_iff.mp hk
  rw [Nat.zero_add]
  exact bitAt_of_isPrefix h (by rw [paddedBits, List.getElem?_append_left hlt, hk])

/-- **Up to `2 ^ 32` bits** the packed bytes keep the size of the buffer, carry the code words from
the first bit on and fill the last byte with ones. -/
theorem packEncodedWordsToBytes_carries {n : ℕ} (hws : ∀ w ∈ ws, WellSized w)
    (hn : requiredBytes (bitLength ws) ≤ n) (h32 : bitLength ws ≤ 2 ^ 32) :
    ∃ packed, packEncodedWordsToBytes ws (List.replicate n 0) = some packed ∧
      packed.length = n ∧ Carries (bitAt packed) 0 ws ∧
      ∀ i, bitLength ws ≤ i → i < 8 * requiredBytes (bitLength ws) → bitAt packed i = true := by
  obtain ⟨packed, heq, hlen, hbits⟩ :=
    packEncodedWordsToBytes_bits (fun w hw => (hws w hw).length_le) hn
  have hbegins : paddedBits ws <+: bits packed :=
    (prefix_bits_iff (by rw [length_paddedBits]; omega) hbits (by decide)).mpr
      ((paddedBits_lt_iff ws).mpr (.inl h32))
  refine ⟨packed, heq, hlen, carries_of_isPrefix hws hbegins, fun i h1 h2 => ?_⟩
  apply bitAt_of_isPrefix hbegins
  rw [paddedBits, List.getElem?_append_right (by rwa [length_wordBits]), length_wordBits,
    List.getElem?_replicate, if_pos (by omega)]

/-! ## Reading -/

/-- The middle bytes extend the run read so far. -/
theorem spells_readMiddleBytes {buf : Bytes} {pos k c : ℕ} {o : ℕ} (ho : o < 8)
    (hc : Spells (bitAt buf) (8 * pos + o) (8 - o) c) :
    8 - o + 8 * k ≤ 32 →
      Spells (bitAt buf) (8 * pos + o) (8 - o + 8 * k) (readMiddleBytes buf pos c k) := by
  induction k with
  | zero => intro _; exact hc
  | succ k ih =>
    intro hk
    have h := (ih (by omega)).concat
      (show Spells (bitAt buf) (8 * pos + o + (8 - o + 8 * k)) 8 (buf.getD (k + 1 + pos) 0).toNat by
        rw [show 8 * pos + o + (8 - o + 8 * k) = 8 * (k + 1 + pos) by omega]
        exact spells_byte buf _)
    have hlt : readMiddleBytes buf pos c k <<< 8 < 2 ^ 32 := by
      have hp : 2 ^ (8 - o + 8 * k) * 2 ^ 8 ≤ 2 ^ 32 := by
        rw [← Nat.pow_add]; exact Nat.pow_le_pow_right (by decide) (by omega)
      have := (Nat.mul_lt_mul_right (a := 2 ^ 8) (by decide)).mpr (ih (by omega)).lt
      rw [Nat.shiftLeft_eq]
      omega
    rw [readMiddleBytes, Nat.mod_eq_of_lt hlt]
    rwa [show 8 - o + 8 * (k + 1) = 8 - o + 8 * k + 8 by omega]

/-- **Reading bits** gives the number they spell. -/
theorem spells_readBitsFromBytes (buf : Bytes) (pos : ℕ) {k : ℕ} (hk1 : 1 ≤ k) (hk : k ≤ 32) :
    Spells (bitAt buf) pos k (readBitsFromBytes pos k buf) := by
  have hoff : pos - 8 * (pos / 8) = pos % 8 := by omega
  have hpos : 8 * (pos / 8) + pos % 8 = pos := Nat.div_add_mod pos 8
  have hfirst := spells_low buf (pos / 8) (show pos % 8 ≤ 8 by omega)
  rw [readBitsFromBytes]
  simp only [hoff]
  generalize hn : (k + pos - 1) / 8 - pos / 8 + 1 = n
  generalize hlast : 8 * (n + pos / 8) - (pos + k) = last
  -- `n` bytes hold the window: one byte alone, or a first, some middle and a last one
  by_cases h1 : n = 1
  · rw [if_pos h1]
    have h := hfirst.take (m := k) (by omega)
    rwa [hpos, show 8 - pos % 8 - k = last by omega] at h
  · rw [if_neg h1]
    have hmid := spells_readMiddleBytes (k := n - 2) (Nat.mod_lt pos (by decide)) hfirst (by omega)
    have hhigh := spells_high buf (pos / 8 + n - 1) (show last < 8 by omega)
    rw [show 8 * (pos / 8 + n - 1) = 8 * (pos / 8) + pos % 8 + (8 - pos % 8 + 8 * (n - 2)) by omega]
      at hhigh
    have h := hmid.concat hhigh
    have hlt : readMiddleBytes buf (pos / 8) (255 >>> (pos % 8) &&& (buf.getD (pos / 8) 0).toNat)
        (n - 2) <<< (8 - last) < 2 ^ 32 := by
      have hp : 2 ^ (8 - pos % 8 + 8 * (n - 2)) * 2 ^ (8 - last) ≤ 2 ^ 32 := by
        rw [← Nat.pow_add]; exact Nat.pow_le_pow_right (by decide) (by omega)
      have := (Nat.mul_lt_mul_right (a := 2 ^ (8 - last)) (Nat.two_pow_pos _)).mpr hmid.lt
      rw [Nat.shiftLeft_eq]
      omega
    rw [Nat.mod_eq_of_lt hlt]
    rwa [hpos, show 8 - pos % 8 + 8 * (n - 2) + (8 - last) = k by omega] at h

/-! ## The two are inverse -/

/-- The code words are packed into a zeroed buffer of `n` bytes, which then begins with their bits
and ones up to the byte boundary, and each word is read back at its bit offset. -/
def PacksExactly (ws : List EncodedWord) (n : ℕ) : Prop :=
  ∃ packed, packEncodedWordsToBytes ws (List.replicate n 0) = some packed ∧
    paddedBits ws <+: bits packed ∧
    ∀ before w after, ws = before ++ w :: after → bitLength before < 2 ^ 16 →
      readBitsFromBytes (bitLength before) w.length packed = w.code

/-- A code word behind others stands behind their bits. -/
theorem Carries.spells {bit : ℕ → Bool} {before after : List EncodedWord} {pos : ℕ}
    (h : Carries bit pos (before ++ w :: after)) :
    Spells bit (pos + bitLength before) w.length w.code := by
  induction before generalizing pos with
  | nil => exact h.1
  | cons v before ih =>
    rw [bitLength_cons, ← Nat.add_assoc]
    exact ih h.2

/-- Words are packed exactly if and only if no one of the padded bits comes after `2 ^ 32` bits. -/
theorem packsExactly_iff_lt {n : ℕ}
    (hws : ∀ w ∈ ws, 1 ≤ w.length ∧ w.length ≤ 30 ∧ w.code < 2 ^ w.length)
    (hn : requiredBytes (bitLength ws) ≤ n) :
    PacksExactly ws n ↔ ∀ k, (paddedBits ws)[k]? = some true → k < 2 ^ 32 := by
  have hsized : ∀ w ∈ ws, WellSized w := by
    intro w hw
    obtain ⟨-, h30, hcode⟩ := hws w hw
    exact ⟨hcode, by omega⟩
  obtain ⟨packed, heq, hlen, hbits⟩ :=
    packEncodedWordsToBytes_bits (fun w hw => (hsized w hw).length_le) hn
  have hbegins := prefix_bits_iff (by rw [length_paddedBits]; omega) hbits (by decide)
  constructor
  · rintro ⟨packed', heq', h, -⟩
    obtain rfl : packed = packed' := Option.some.inj (heq.symm.trans heq')
    exact hbegins.mp h
  · intro h
    refine ⟨packed, heq, hbegins.mpr h, ?_⟩
    rintro before w after rfl -
    -- a run of bits spells one number: the one read, and the code of the word that stands there
    have hspells := (carries_of_isPrefix hsized (hbegins.mpr h)).spells
    rw [Nat.zero_add] at hspells
    obtain ⟨h1, h30, -⟩ := hws w (List.mem_append_right _ List.mem_cons_self)
    exact (spells_readBitsFromBytes packed _ h1 (by omega)).unique hspells

/-- **Packing and reading are inverse** exactly if the words have at most `2 ^ 32` bits, or if their
bits fill whole bytes and are zeros from there on. -/
theorem packsExactly_iff {n : ℕ}
    (hws : ∀ w ∈ ws, 1 ≤ w.length ∧ w.length ≤ 30 ∧ w.code < 2 ^ w.length)
    (hn : requiredBytes (bitLength ws) ≤ n) :
    PacksExactly ws n ↔
      bitLength ws ≤ 2 ^ 32 ∨
        bitLength ws % 8 = 0 ∧ ∀ b ∈ (wordBits ws).drop (2 ^ 32), b = false :=
  (packsExactly_iff_lt hws hn).trans (paddedBits_lt_iff ws)

/-- The code words of `no-cache`. -/
theorem packsExactly_noCache :
    PacksExactly
      [⟨0x2a, 6⟩, ⟨0x7, 5⟩, ⟨0x16, 6⟩, ⟨0x4, 5⟩, ⟨0x3, 5⟩, ⟨0x4, 5⟩, ⟨0x27, 6⟩, ⟨0x5, 5⟩] 6 :=
  (packsExactly_iff (by decide) (by decide)).mpr (.inl (by decide))

/-- A word after `2 ^ 32` bits is written over the first one: here eight ones over zeros. -/
theorem not_packsExactly : ¬ ∀ (ws : List EncodedWord) (n : ℕ), ws.length < 2 ^ 32 → n < 2 ^ 32 →
    (∀ w ∈ ws, 1 ≤ w.length ∧ w.length ≤ 30 ∧ w.code < 2 ^ w.length) →
    requiredBytes (bitLength ws) ≤ n → PacksExactly ws n := by
  intro h
  obtain ⟨m, hm⟩ : ∃ m, m = 2 ^ 28 := ⟨_, rfl⟩
  have hlength : bitLength (List.replicate m ⟨0, 16⟩) = 2 ^ 32 := by
    rw [bitLength_replicate, hm]
    rfl
  have hws : ∀ w ∈ List.replicate m (⟨0, 16⟩ : EncodedWord) ++ [⟨255, 8⟩],
      1 ≤ w.length ∧ w.length ≤ 30 ∧ w.code < 2 ^ w.length := by
    intro w hw
    rcases List.mem_append.mp hw with hw | hw
    · rw [List.eq_of_mem_replicate hw]
      decide
    · rw [List.mem_singleton.mp hw]
      decide
  have hn : requiredBytes (bitLength (List.replicate m ⟨0, 16⟩ ++ [⟨255, 8⟩])) ≤ 2 ^ 29 + 1 := by
    rw [bitLength_append, hlength]
    decide
  -- the first bit of the last word has no place in front of `2 ^ 32`
  have hone : (paddedBits (List.replicate m ⟨0, 16⟩ ++ [⟨255, 8⟩]))[2 ^ 32]? = some true := by
    rw [paddedBits, wordBits_append, List.append_assoc,
      List.getElem?_append_right (by rw [length_wordBits, hlength]), length_wordBits, hlength,
      Nat.sub_self]
    rfl
  have hexact := h _ (2 ^ 29 + 1) (by rw [List.length_append, List.length_replicate, hm]; decide)
    (by decide) hws hn
  exact (packsExactly_iff_lt hws hn).mp hexact _ hone |>.ne rfl

end Two.Hpack
