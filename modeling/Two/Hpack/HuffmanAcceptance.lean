import Two.Hpack.HuffmanCoding

/-!
# Which Huffman strings are accepted

A Huffman string is valid if it is a sequence of complete code words followed by at most seven ones.
The decoder fills the last window with ones before it looks a code up, so it takes a code word that
is cut off for a symbol, and it keeps the number of bits that are left in eight bits.

## Main definitions

* `symbols`, `bitsLeft`: the complete code words of a string, and the bits behind them
* `decodeHuffmanValue`: what becomes of a Huffman-coded value
* `Exact`: what is claimed of it
* `Telling`: the strings for which it holds

## Main results

* `exists_codeWord`: every window but that of thirty ones begins with a code word
* `exact_iff`: the strings that are accepted exactly when they are valid
-/

namespace Two.Hpack

open BitStream

/-! ## The code is complete -/

/-- The first window that begins with the code of `b`. -/
def windowStart (b : UInt8) : ℕ := (codeWord b).code * 2 ^ (30 - (codeWord b).length)

/-- The first window behind those that begin with the code of `b`. -/
def windowEnd (b : UInt8) : ℕ := ((codeWord b).code + 1) * 2 ^ (30 - (codeWord b).length)

/-- The windows of a symbol follow those of the symbol before it, from zero up to thirty ones. -/
theorem windows_tile : windowStart (huffmanL.getD 0 0) = 0 ∧
    windowEnd (huffmanL.getD 255 0) = 2 ^ 30 - 1 ∧ ∀ i < 255,
      windowEnd (huffmanL.getD i 0) = windowStart (huffmanL.getD (i + 1) 0) := by decide +kernel

/-- The windows of the symbols up to position `k`. -/
theorem exists_window {k window : ℕ} (hk : k ≤ 255) (h : window < windowEnd (huffmanL.getD k 0)) :
    ∃ b, windowStart b ≤ window ∧ window < windowEnd b := by
  induction k with
  | zero => exact ⟨_, windows_tile.1.trans_le (Nat.zero_le _), h⟩
  | succ k ih =>
    by_cases hlow : windowStart (huffmanL.getD (k + 1) 0) ≤ window
    · exact ⟨_, hlow, h⟩
    · apply ih (by omega)
      rw [windows_tile.2.2 k (by omega)]
      omega

/-- **Every window but that of thirty ones** begins with the code of a symbol. -/
theorem exists_codeWord {window : ℕ} (h : window < 2 ^ 30 - 1) :
    ∃ b, window >>> (30 - (codeWord b).length) = (codeWord b).code := by
  obtain ⟨b, hlow, hhigh⟩ := exists_window le_rfl (windows_tile.2.1 ▸ h)
  refine ⟨b, ?_⟩
  have hpos := Nat.two_pow_pos (30 - (codeWord b).length)
  rw [Nat.shiftRight_eq_div_pow]
  apply Nat.le_antisymm
  · exact Nat.le_of_lt_succ ((Nat.div_lt_iff_lt_mul hpos).mpr hhigh)
  · exact (Nat.le_div_iff_mul_le hpos).mpr hlow

theorem mem_huffmanL (b : UInt8) : b ∈ huffmanL := by
  have hb := canonical b
  have hlen : huffmanL.length = 256 := by decide +kernel
  rw [← hb.symbol, List.getD_eq_getElem _ _ (hlen ▸ hb.pos_lt)]
  exact List.getElem_mem _

/-! ## Complete code words -/

section Words

variable (buf : Bytes) (n : ℕ)

/-- The code word of `b` stands at bit `pos` of the first `n` bytes. -/
def WordAt (pos : ℕ) (b : UInt8) : Prop :=
  pos + (codeWord b).length ≤ 8 * n ∧ Spells (bitAt buf) pos (codeWord b).length (codeWord b).code

instance (bit : ℕ → Bool) (pos k w : ℕ) : Decidable (Spells bit pos k w) :=
  inferInstanceAs (Decidable (_ ∧ ∀ j < k, _))

instance (pos : ℕ) (b : UInt8) : Decidable (WordAt buf n pos b) := inferInstanceAs (Decidable (_ ∧ _))

/-- The symbol whose code word stands at bit `pos`. -/
def wordAt (pos : ℕ) : Option UInt8 := huffmanL.find? fun b => WordAt buf n pos b

/-- The symbols of the complete code words from bit `pos` on; every code word has a bit. -/
def completeWords : ℕ → ℕ → Bytes
  | 0, _ => []
  | fuel + 1, pos =>
    match wordAt buf n pos with
    | none => []
    | some b => b :: completeWords fuel (pos + (codeWord b).length)

/-- The symbols of the complete code words of a string. -/
def symbols : Bytes := completeWords buf n (8 * n + 1) 0

/-- The number of bits behind the complete code words. -/
def bitsLeft : ℕ := 8 * n - bitLength ((symbols buf n).map codeWord)

/-- The last `r` bits of the first `n` bytes are ones. -/
def EndsInOnes (r : ℕ) : Prop := ∀ j < r, bitAt buf (8 * n - 1 - j) = true

instance (r : ℕ) : Decidable (EndsInOnes buf n r) := inferInstanceAs (Decidable (∀ j < r, _))

/-- From bit `pos` on, the complete code words are those of `s`. -/
structure Splits (pos : ℕ) (s : Bytes) : Prop where
  carries : Carries (bitAt buf) pos (s.map codeWord)
  le : pos + bitLength (s.map codeWord) ≤ 8 * n
  last : ∀ b, ¬ WordAt buf n (pos + bitLength (s.map codeWord)) b

end Words

variable {buf : Bytes} {n pos : ℕ} {b : UInt8} {s : Bytes}

theorem wordAt_eq_none : wordAt buf n pos = none ↔ ∀ b, ¬ WordAt buf n pos b := by
  rw [wordAt, List.find?_eq_none]
  refine ⟨fun h b => ?_, fun h b _ => by simpa using h b⟩
  simpa using h b (mem_huffmanL b)

theorem wordAt_some (h : wordAt buf n pos = some b) : WordAt buf n pos b := by
  simpa using List.find?_some h

theorem completeWords_splits (fuel : ℕ) (hpos : pos ≤ 8 * n) (hfuel : 8 * n - pos < fuel) :
    Splits buf n pos (completeWords buf n fuel pos) := by
  induction fuel generalizing pos with
  | zero => omega
  | succ fuel ih =>
    rw [completeWords]
    cases hw : wordAt buf n pos with
    | none => exact ⟨trivial, hpos, wordAt_eq_none.mp hw⟩
    | some b =>
      obtain ⟨hle, hspells⟩ := wordAt_some hw
      have h5 := (canonical b).length_ge
      have hrest := ih hle (by omega)
      refine ⟨⟨hspells, hrest.carries⟩, ?_, ?_⟩
      · have := hrest.le
        simp only [List.map_cons, bitLength_cons]
        omega
      · have := hrest.last
        simpa only [List.map_cons, bitLength_cons, ← Nat.add_assoc] using this

theorem splits_symbols (buf : Bytes) (n : ℕ) : Splits buf n 0 (symbols buf n) :=
  completeWords_splits _ (Nat.zero_le _) (by omega)

theorem Splits.tail (h : Splits buf n pos (b :: s)) :
    Splits buf n (pos + (codeWord b).length) s := by
  have hle := h.le
  have hlast := h.last
  simp only [List.map_cons, bitLength_cons, ← Nat.add_assoc] at hle hlast
  exact ⟨h.carries.2, hle, hlast⟩

theorem Splits.head (h : Splits buf n pos (b :: s)) : WordAt buf n pos b := by
  have hle := h.le
  simp only [List.map_cons, bitLength_cons] at hle
  exact ⟨by omega, h.carries.1⟩

/-- One code word stands at a bit. -/
theorem WordAt.unique {c : UInt8} (h : WordAt buf n pos b) (h' : WordAt buf n pos c) : b = c := by
  have hb := decodeHuffmanWord_of_spells h.1 h.2
  rw [decodeHuffmanWord_of_spells h'.1 h'.2] at hb
  exact (Option.some.inj (Prod.mk.inj hb).2).symm

/-! ## The end of a string -/

/-- The padding check looks at the last bits, where there are fewer than eight. -/
theorem checkHuffmanPadding_eq {r : ℕ} (hn : 0 < n) :
    checkHuffmanPadding r buf n =
      if r < 8 ∧ EndsInOnes buf n r then 0 else compressionError := by
  by_cases hr : r < 8
  · by_cases hones : EndsInOnes buf n r
    · rw [if_pos ⟨hr, hones⟩]
      apply checkHuffmanPadding_ones hr (by omega)
      intro i h1 h2
      have := hones (8 * n - 1 - i) (by omega)
      rwa [show 8 * n - 1 - (8 * n - 1 - i) = i by omega] at this
    · rw [if_neg fun h => hones h.2, checkHuffmanPadding, if_pos hr]
      refine if_neg fun hmask => hones fun j hj => ?_
      have hlow := spells_low buf (n - 1) (show 8 - r ≤ 8 by omega)
      rw [show 8 - (8 - r) = r by omega, shiftRight_255 (by omega), Nat.and_comm, hmask] at hlow
      have := hlow.eq_true_of_ones (j := r - 1 - j) (by omega)
      rwa [show 8 * (n - 1) + (8 - r) + (r - 1 - j) = 8 * n - 1 - j by omega] at this
  · rw [if_neg fun h => hr h.1, checkHuffmanPadding, if_neg hr]

/-- Behind the complete code words, a code word that is cut off is taken for its symbol; otherwise
the padding is checked. -/
theorem decodeHuffmanWord_last (hpos : pos ≤ 8 * n) (h : ∀ b, ¬ WordAt buf n pos b) :
    (5 ≤ 8 * n - pos ∧ 8 * n - pos < 30 ∧ ¬ EndsInOnes buf n (8 * n - pos) ∧
      ∃ b, 8 * n < pos + (codeWord b).length ∧
        decodeHuffmanWord buf n pos = (((codeWord b).length : ℤ), some b)) ∨
    ((8 * n - pos < 5 ∨ 30 ≤ 8 * n - pos ∨ EndsInOnes buf n (8 * n - pos)) ∧
      decodeHuffmanWord buf n pos =
        (checkHuffmanPadding ((8 * n - pos) % 256) buf n, none)) := by
  rcases decodeHuffmanWord_eq buf hpos with ⟨h5, heq⟩ | ⟨h5, window, hspell, heq⟩
  · rw [Nat.mod_eq_of_lt (by omega)]
    exact .inr ⟨.inl h5, heq⟩
  have hleft : (8 * n + 256 - pos % 256) % 256 = (8 * n - pos) % 256 := by omega
  by_cases hones : window = 2 ^ 30 - 1
  · refine .inr ⟨?_, ?_⟩
    · by_cases h30 : 30 ≤ 8 * n - pos
      · exact .inr (.inl h30)
      · refine .inr (.inr fun j hj => ?_)
        rw [hones] at hspell
        have := hspell.eq_true_of_ones (j := 8 * n - pos - 1 - j) (by omega)
        rwa [onesFrom_of_lt (by omega),
          show pos + (8 * n - pos - 1 - j) = 8 * n - 1 - j by omega] at this
    · rw [heq, hones, huffmanDecode_ones, hleft]
  · have hlt := hspell.lt
    obtain ⟨b, hb⟩ := exists_codeWord (show window < 2 ^ 30 - 1 by omega)
    have h30 := (canonical b).length_le
    have htake := hspell.take h30
    rw [hb] at htake
    -- the code word that begins the window does not fit into the string
    have hcut : 8 * n < pos + (codeWord b).length := by
      by_contra hfit
      refine h b ⟨by omega, htake.congr fun i _ h2 => ?_⟩
      exact (onesFrom_of_lt (by omega)).symm
    refine .inl ⟨h5, by omega, fun hends => hones ?_, b, hcut, ?_⟩
    · apply hspell.unique
      apply spells_ones
      intro j _
      rcases Nat.lt_or_ge (pos + j) (8 * n) with hj | hj
      · have := hends (8 * n - 1 - (pos + j)) (by omega)
        rw [show 8 * n - 1 - (8 * n - 1 - (pos + j)) = pos + j by omega] at this
        rw [onesFrom_of_lt hj, this]
      · rw [onesFrom, decide_eq_true hj, Bool.or_true]
    · rw [heq, huffmanDecode_window b hb]

/-- What the last round of the decoding loop returns and writes. -/
def lastWord (buf : Bytes) (n pos : ℕ) : ℤ × Bytes :=
  if (decodeHuffmanWord buf n pos).1 ≤ 0 then ((decodeHuffmanWord buf n pos).1, [])
  else (0, (decodeHuffmanWord buf n pos).2.toList)

/-- **The decoding loop** reads the complete code words and looks at what is left. -/
theorem decodeHuffmanLoop_splits {strLength : ℕ} (hn : 0 < n) (hn16 : 8 * n + 30 < 2 ^ 16)
    {fuel i : ℕ} (h : Splits buf n pos s) (hfuel : s.length < fuel) (hi : i + s.length ≤ strLength)
    (hi16 : i + s.length + 1 < 2 ^ 16) :
    decodeHuffmanLoop strLength buf n fuel i pos =
      ((lastWord buf n (pos + bitLength (s.map codeWord))).1,
        s ++ (lastWord buf n (pos + bitLength (s.map codeWord))).2) := by
  induction s generalizing fuel i pos with
  | nil =>
    obtain ⟨fuel, rfl⟩ : ∃ f, fuel = f + 1 := ⟨fuel - 1, by omega⟩
    have hle : pos ≤ 8 * n := by simpa using h.le
    simp only [List.length_nil, Nat.add_zero] at hi hi16
    rw [decodeHuffmanLoop, if_pos (by omega), if_neg (by omega)]
    simp only [List.map_nil, bitLength_nil, Nat.add_zero, List.nil_append, lastWord]
    rcases decodeHuffmanWord_last hle (by simpa using h.last) with
      ⟨-, -, -, b, hcut, hword⟩ | ⟨-, hword⟩
    · have hb := canonical b
      have h5 := hb.length_ge
      have h30 := hb.length_le
      have hnext : (pos + (codeWord b).length) % 2 ^ 16 = pos + (codeWord b).length :=
        Nat.mod_eq_of_lt (by omega)
      simp only [hword, Int.toNat_natCast]
      rw [if_neg (by omega), if_neg (by omega), if_neg (by omega), hnext]
      -- the position is behind the string, so no more rounds follow
      cases fuel with
      | zero => simp [decodeHuffmanLoop]
      | succ fuel => rw [decodeHuffmanLoop, if_neg (by omega)]; simp
    · simp only [hword]
      rw [checkHuffmanPadding_eq hn]
      split <;> simp [compressionError]
  | cons b s ih =>
    obtain ⟨fuel, rfl⟩ : ∃ f, fuel = f + 1 := ⟨fuel - 1, by omega⟩
    obtain ⟨hle, hspells⟩ := h.head
    have h5 := (canonical b).length_ge
    simp only [List.length_cons] at hi hfuel hi16
    rw [decodeHuffmanLoop, if_pos (by omega), if_neg (by omega),
      decodeHuffmanWord_of_spells hle hspells]
    simp only [Int.toNat_natCast]
    rw [if_neg (by omega), if_neg (by omega), Nat.mod_eq_of_lt (a := i + 1) (by omega),
      Nat.mod_eq_of_lt (by omega), ih h.tail (by omega) (by omega) (by omega)]
    simp [Nat.add_assoc]

/-! ## Valid strings -/

/-- The first `n` bytes are complete code words, followed by at most seven ones. -/
def Valid (buf : Bytes) (n : ℕ) : Prop := ∃ s, PaddedAt buf n 0 s

theorem Splits.unique {s' : Bytes} (h : Splits buf n pos s) (h' : Splits buf n pos s') : s = s' := by
  induction s generalizing pos s' with
  | nil =>
    cases s' with
    | nil => rfl
    | cons c s' => exact absurd h'.head (by simpa using h.last c)
  | cons b s ih =>
    cases s' with
    | nil => exact absurd h.head (by simpa using h'.last b)
    | cons c s' =>
      obtain rfl := h.head.unique h'.head
      rw [ih h.tail h'.tail]

/-- Fewer than eight ones are no code word. -/
theorem PaddedAt.splits (h : PaddedAt buf n pos s) : Splits buf n pos s := by
  refine ⟨h.carries, h.le, fun b hb => ?_⟩
  have hnil : PaddedAt buf n (pos + bitLength (s.map codeWord)) [] :=
    ⟨trivial, by simpa using h.le, by simpa using h.lt, by simpa using h.ones⟩
  have hword := decodeHuffmanWord_nil hnil
  rw [decodeHuffmanWord_of_spells hb.1 hb.2] at hword
  simp at hword

theorem PaddedAt.eq_symbols (h : PaddedAt buf n 0 s) : s = symbols buf n :=
  h.splits.unique (splits_symbols buf n)

theorem valid_iff : Valid buf n ↔ bitsLeft buf n < 8 ∧ EndsInOnes buf n (bitsLeft buf n) := by
  have hsplit := splits_symbols buf n
  have hle := hsplit.le
  rw [Nat.zero_add] at hle
  constructor
  · rintro ⟨s, hs⟩
    obtain rfl := hs.eq_symbols
    have hlt := hs.lt
    rw [bitsLeft]
    refine ⟨by omega, fun j hj => hs.ones _ (by omega) (by omega)⟩
  · rintro ⟨hlt, hones⟩
    rw [bitsLeft] at hlt hones
    refine ⟨symbols buf n, hsplit.carries, hsplit.le, by omega, fun i h1 h2 => ?_⟩
    have := hones (8 * n - 1 - i) (by omega)
    rwa [show 8 * n - 1 - (8 * n - 1 - i) = i by omega] at this

/-- Thirty ones stand somewhere in the first `m` bytes. -/
def HasOnes (buf : Bytes) (m : ℕ) : Prop :=
  ∃ p, p + 30 ≤ 8 * m ∧ ∀ j < 30, bitAt buf (p + j) = true

theorem checkEosSymbol_iff {m : ℕ} : checkEosSymbol buf m = true ↔ HasOnes buf m := by
  constructor
  · intro h
    by_contra hno
    rw [checkEosSymbol_eq_false fun p hp => ?_] at h
    · cases h
    · by_contra hall
      refine hno ⟨p, hp, fun j hj => ?_⟩
      by_contra hbit
      exact hall ⟨p + j, by omega, by omega, by simpa using hbit⟩
  · rintro ⟨p, hp, hones⟩
    rw [checkEosSymbol, List.any_eq_true]
    refine ⟨p, List.mem_range.mpr (by omega), ?_⟩
    have hread := spells_readBitsFromBytes buf p (k := 30) (by decide) (by decide)
    rw [hread.unique (spells_ones hones)]
    rfl

instance (buf : Bytes) (m : ℕ) : Decidable (HasOnes buf m) :=
  decidable_of_iff _ checkEosSymbol_iff

instance (buf : Bytes) (n : ℕ) : Decidable (Valid buf n) := decidable_of_iff _ valid_iff.symm

/-! ## Acceptance -/

/-- A literal with an indexed name and a Huffman-coded value of `n` bytes. -/
def huffmanLiteral (buf : Bytes) (n : ℕ) : EncodedHeader where
  preamble := .literalHeaderFieldWithoutIndexing
  index := 1
  valueLength := n
  valueString := buf
  huffmanBitOfValue := true

/-- What becomes of a Huffman-coded value: `hpack_decoder_check_errors`, then
`hpack_decoder_decode_huffman_string`. -/
def decodeHuffmanValue (strLength : ℕ) (buf : Bytes) (n : ℕ) : ℤ × Bytes :=
  if checkErrors (huffmanLiteral buf n) then (compressionError, [])
  else decodeHuffmanString strLength buf n

/-- The value is accepted exactly if it is valid, with the symbols of its code words, and refused
with `HPACK_COMPRESSION_ERROR` otherwise. -/
structure Exact (strLength : ℕ) (buf : Bytes) (n : ℕ) : Prop where
  accepted : 0 ≤ (decodeHuffmanValue strLength buf n).1 ↔ Valid buf n
  output : ∀ s, PaddedAt buf n 0 s → (decodeHuffmanValue strLength buf n).2 = s
  refused : ¬ Valid buf n → (decodeHuffmanValue strLength buf n).1 = compressionError

/-- The strings about which the decoder is right. Where thirty ones stand in the part that is
searched for them, the string must not be valid. Elsewhere no code word may be cut off after five bits
or more, and an end-of-string code must not look like its own padding when the number of bits from
it on is counted modulo 256. -/
def Discerned (buf : Bytes) (n : ℕ) : Prop :=
  if 4 ≤ n ∧ HasOnes buf (n % 256) then ¬ Valid buf n
  else bitsLeft buf n < 5 ∨ (bitsLeft buf n < 30 ∧ EndsInOnes buf n (bitsLeft buf n)) ∨
    (30 ≤ bitsLeft buf n ∧
      ¬ (bitsLeft buf n % 256 < 8 ∧ EndsInOnes buf n (bitsLeft buf n % 256)))

instance (buf : Bytes) (n : ℕ) : Decidable (Discerned buf n) :=
  inferInstanceAs (Decidable (ite _ _ _))

variable {strLength : ℕ}

theorem decodeHuffmanValue_eq : decodeHuffmanValue strLength buf n =
    if 4 ≤ n ∧ checkEosSymbol buf (n % 256) then (compressionError, [])
    else decodeHuffmanString strLength buf n := by
  simp [decodeHuffmanValue, huffmanLiteral, checkErrors]

/-- A value that is accepted exactly under the condition `A`, with its symbols. -/
theorem exact_iff_of {A : Prop} (hacc : A → 0 ≤ (decodeHuffmanValue strLength buf n).1)
    (hout : A → (decodeHuffmanValue strLength buf n).2 = symbols buf n)
    (hrej : ¬ A → (decodeHuffmanValue strLength buf n).1 = compressionError) :
    Exact strLength buf n ↔ (A ↔ Valid buf n) := by
  have hneg : ¬ A → ¬ 0 ≤ (decodeHuffmanValue strLength buf n).1 := by
    intro hA
    rw [hrej hA]
    decide
  have hiff : 0 ≤ (decodeHuffmanValue strLength buf n).1 ↔ A :=
    ⟨fun h => by_contra fun hA => hneg hA h, hacc⟩
  constructor
  · intro h
    exact hiff.symm.trans h.accepted
  · intro h
    refine ⟨hiff.trans h, fun s hs => ?_, fun hv => hrej (mt h.mp hv)⟩
    rw [hout (h.mpr ⟨s, hs⟩), hs.eq_symbols]

/-- The decoder on a string that passes the search for ones. -/
theorem decodeHuffmanString_eq (hn : 0 < n) (hmax : n ≤ hpackMaximumInteger)
    (hfit : (symbols buf n).length ≤ strLength) :
    decodeHuffmanString strLength buf n =
      if (lastWord buf n (8 * n - bitsLeft buf n)).1 < 0 then
        ((lastWord buf n (8 * n - bitsLeft buf n)).1,
          symbols buf n ++ (lastWord buf n (8 * n - bitsLeft buf n)).2)
      else (n + encodedIntegerSize n 7,
        symbols buf n ++ (lastWord buf n (8 * n - bitsLeft buf n)).2) := by
  have hmax : n ≤ 4096 := hmax
  have hsplit := splits_symbols buf n
  have hle := hsplit.le
  have hlen := length_le_bitLength (symbols buf n)
  have hpos : 0 + bitLength ((symbols buf n).map codeWord) = 8 * n - bitsLeft buf n := by
    rw [bitsLeft]
    omega
  have hloop : decodeHuffmanLoop strLength buf n (8 * n + 1) 0 0 = _ :=
    decodeHuffmanLoop_splits hn (by omega) hsplit (by omega) (by omega) (by omega)
  rw [hpos] at hloop
  rw [decodeHuffmanString, hloop]

theorem symbols_zero (buf : Bytes) : symbols buf 0 = [] := by
  have hle := (splits_symbols buf 0).le
  have hlen := length_le_bitLength (symbols buf 0)
  exact List.eq_nil_of_length_eq_zero (by omega)

/-- What the decoder leaves of the bits behind the complete code words. -/
theorem lastWord_eq (hn : 0 < n) :
    (5 ≤ bitsLeft buf n ∧ bitsLeft buf n < 30 ∧ ¬ EndsInOnes buf n (bitsLeft buf n) ∧
      (lastWord buf n (8 * n - bitsLeft buf n)).1 = 0) ∨
    ((bitsLeft buf n < 5 ∨ 30 ≤ bitsLeft buf n ∨ EndsInOnes buf n (bitsLeft buf n)) ∧
      lastWord buf n (8 * n - bitsLeft buf n) =
        (if bitsLeft buf n % 256 < 8 ∧ EndsInOnes buf n (bitsLeft buf n % 256) then 0
          else compressionError, [])) := by
  have hsplit := splits_symbols buf n
  have hle := hsplit.le
  have hlast := hsplit.last
  rw [Nat.zero_add] at hle hlast
  obtain ⟨pos, hpos⟩ : ∃ pos, bitLength ((symbols buf n).map codeWord) = pos := ⟨_, rfl⟩
  rw [hpos] at hle hlast
  have hleft : bitsLeft buf n = 8 * n - pos := by rw [bitsLeft, hpos]
  rw [hleft, show 8 * n - (8 * n - pos) = pos by omega]
  rcases decodeHuffmanWord_last hle hlast with ⟨h5, h30, hones, b, hcut, hword⟩ | ⟨hcase, hword⟩
  · refine .inl ⟨h5, h30, hones, ?_⟩
    have hb := (canonical b).length_ge
    rw [lastWord, hword, if_neg (by simp; omega)]
  · refine .inr ⟨hcase, ?_⟩
    rw [lastWord, hword, checkHuffmanPadding_eq hn, if_pos ?_]
    split <;> decide

/-- **A Huffman-coded value is accepted exactly if it is valid**, and refused with
`HPACK_COMPRESSION_ERROR` otherwise, for these strings and for no others. -/
theorem exact_iff (hmax : n ≤ hpackMaximumInteger) (hfit : (symbols buf n).length ≤ strLength) :
    Exact strLength buf n ↔ Discerned buf n := by
  unfold Discerned
  -- 32 bits that are ones are refused before the string is decoded
  by_cases heos : 4 ≤ n ∧ HasOnes buf (n % 256)
  · rw [if_pos heos]
    have heq : decodeHuffmanValue strLength buf n = (compressionError, []) := by
      rw [decodeHuffmanValue_eq, if_pos ⟨heos.1, checkEosSymbol_iff.mpr heos.2⟩]
    rw [exact_iff_of (A := False) False.elim False.elim fun _ => by rw [heq]]
    exact ⟨fun h hv => h.mpr hv, fun h => ⟨False.elim, h⟩⟩
  · rw [if_neg heos]
    have heq : decodeHuffmanValue strLength buf n = decodeHuffmanString strLength buf n := by
      rw [decodeHuffmanValue_eq, if_neg fun h => heos ⟨h.1, checkEosSymbol_iff.mp h.2⟩]
    -- an empty string is accepted, and valid
    rcases Nat.eq_zero_or_pos n with rfl | hn
    · have hzero : bitsLeft buf 0 = 0 := by simp [bitsLeft]
      have hempty : decodeHuffmanString strLength buf 0 = (1, []) := rfl
      rw [exact_iff_of (A := True) (fun _ => by rw [heq, hempty]; decide)
        (fun _ => by rw [heq, hempty, symbols_zero]) (fun h => absurd trivial h), valid_iff, hzero]
      simp [EndsInOnes]
    · rw [decodeHuffmanString_eq hn hmax hfit] at heq
      rcases @lastWord_eq buf n hn with ⟨h5, h30, hones, hrc⟩ | ⟨hcase, hlast⟩
      · -- a code word is cut off: the string is accepted but not valid
        refine iff_of_false (fun h => hones ?_) ?_
        · refine (valid_iff.mp (h.accepted.mp ?_)).2
          rw [heq, if_neg (by omega)]
          exact Int.natCast_nonneg _
        · rintro (h | h | h)
          · omega
          · exact hones h.2
          · omega
      -- the last word is checked, with a number of bits of which eight are kept
      · rw [hlast] at heq
        rw [exact_iff_of
          (A := bitsLeft buf n % 256 < 8 ∧ EndsInOnes buf n (bitsLeft buf n % 256)) ?_ ?_ ?_,
          valid_iff]
        -- for less than 30 bits nothing is lost; for more, the check may accept what is not valid
        · rcases Nat.lt_or_ge (bitsLeft buf n) 30 with h30 | h30
          · rw [Nat.mod_eq_of_lt (by omega)]
            have : bitsLeft buf n < 5 ∨ EndsInOnes buf n (bitsLeft buf n) := by
              rcases hcase with h | h | h
              · exact .inl h
              · omega
              · exact .inr h
            exact iff_of_true Iff.rfl (this.imp_right fun h => .inl ⟨h30, h⟩)
          · constructor
            · intro h
              exact .inr (.inr ⟨h30, fun hA => absurd (h.mp hA).1 (by omega)⟩)
            · rintro (h | h | h)
              · omega
              · omega
              · exact iff_of_false h.2 fun hv => by omega
        · intro hA
          rw [heq, if_pos hA, if_neg (by decide)]
          exact Int.natCast_nonneg _
        · intro hA
          rw [heq, if_pos hA, if_neg (by decide), List.append_nil]
        · intro hA
          rw [heq, if_neg hA, if_pos (by decide)]

/-- A valid value, the two characters `a`, `b` and five bits of padding. -/
theorem exact_ab :
    symbols [0x1c, 0x7f] 2 = ascii "ab" ∧ Exact hpackHeaderValueLen [0x1c, 0x7f] 2 := by
  have hs : symbols [0x1c, 0x7f] 2 = ascii "ab" := by decide +kernel
  have hfit : (symbols [0x1c, 0x7f] 2).length ≤ hpackHeaderValueLen := by
    rw [hs]
    decide
  exact ⟨hs, (exact_iff (by decide) hfit).mpr (by decide +kernel)⟩

/-- The eight bits `11111110` are the beginning of a code word of ten bits. -/
theorem not_exact : ¬ ∀ (strLength : ℕ) (buf : Bytes) (n : ℕ), n ≤ hpackMaximumInteger →
    (symbols buf n).length ≤ strLength → Exact strLength buf n := by
  intro h
  have hexact := h hpackHeaderValueLen [0xfe] 1 (by decide) (by decide +kernel)
  have hvalid : Valid [0xfe] 1 := hexact.accepted.mp (by decide +kernel)
  revert hvalid
  decide +kernel

end Two.Hpack
