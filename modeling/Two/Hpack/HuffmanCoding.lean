import Two.Hpack.BitCoding
import Two.Hpack.IntegerCoding

/-!
# The Huffman coding is exact

The tables of `huffman_tree` describe a canonical prefix code: the first code of a length, shifted
to thirty bits, separates the shorter codes from the longer ones. The facts about the tables are
evaluated symbol by symbol (`isCanonical`, `isSparse`); everything else follows from them.

## Main definitions

* `codeWord b`: the code word of a symbol
* `Canonical b`, `Sparse b`: what the tables guarantee for one symbol
* `PaddedAt buf n pos s`: from bit `pos` on, `n` bytes hold the codes of `s` and then fewer than
  eight ones

## Main results

* `huffmanDecode_window`: a window that begins with the code of a symbol decodes to it
* `decodeHuffmanLoop_padded`: the decoding loop reads back every padded string
* `PaddedAt.exists_zero`: thirty consecutive bits of a printable string are never all ones
-/

namespace Two.Hpack

open BitStream

/-- The code word of a symbol. -/
def codeWord (b : UInt8) : EncodedWord := (huffmanEncode b).getD ⟨0, 0⟩

theorem encodeHuffmanWord_eq (str : Bytes) :
    encodeHuffmanWord str = (str.map codeWord, bitLength (str.map codeWord) % 2 ^ 32) := rfl

/-! ## The tables -/

/-- The place of the code of `b` in the canonical code: the code lies between the first codes of the
lengths around it, and the tables map it back to `b`. -/
structure Canonical (b : UInt8) : Prop where
  length_ge : 5 ≤ (codeWord b).length
  length_le : (codeWord b).length ≤ 30
  code_lt : (codeWord b).code < 2 ^ (codeWord b).length
  shorter : ∀ i < (codeWord b).length, 5 ≤ i →
    huffmanC.getD (i + 1) 0 * 2 ^ (30 - i - 1) % 2 ^ 32 ≤
      (codeWord b).code * 2 ^ (30 - (codeWord b).length)
  longer : (codeWord b).length < 30 →
    ((codeWord b).code + 1) * 2 ^ (30 - (codeWord b).length) ≤
      huffmanC.getD ((codeWord b).length + 1) 0 * 2 ^ (30 - (codeWord b).length - 1) % 2 ^ 32
  pos_lt : (huffmanF.getD (codeWord b).length 0 + (codeWord b).code +
    (2 ^ 32 - huffmanC.getD (codeWord b).length 0)) % 2 ^ 32 < 256
  symbol : huffmanL.getD ((huffmanF.getD (codeWord b).length 0 + (codeWord b).code +
    (2 ^ 32 - huffmanC.getD (codeWord b).length 0)) % 2 ^ 32) 0 = b

/-- The evaluation of `Canonical`. -/
def isCanonical (b : UInt8) : Bool :=
  let w := codeWord b
  let pos := (huffmanF.getD w.length 0 + w.code + (2 ^ 32 - huffmanC.getD w.length 0)) % 2 ^ 32
  5 ≤ w.length && w.length ≤ 30 && w.code < 2 ^ w.length &&
    (List.range w.length).all (fun i => !decide (5 ≤ i) ||
      huffmanC.getD (i + 1) 0 * 2 ^ (30 - i - 1) % 2 ^ 32 ≤ w.code * 2 ^ (30 - w.length)) &&
    (!decide (w.length < 30) ||
      decide ((w.code + 1) * 2 ^ (30 - w.length) ≤
        huffmanC.getD (w.length + 1) 0 * 2 ^ (30 - w.length - 1) % 2 ^ 32)) &&
    decide (pos < 256) && huffmanL.getD pos 0 == b

theorem canonical_of_isCanonical {b : UInt8} (h : isCanonical b = true) : Canonical b := by
  simp only [isCanonical, Bool.and_eq_true, Bool.or_eq_true, Bool.not_eq_true', decide_eq_true_eq,
    decide_eq_false_iff_not, List.all_eq_true, List.mem_range, beq_iff_eq] at h
  obtain ⟨⟨⟨⟨⟨⟨h1, h2⟩, h3⟩, h4⟩, h5⟩, h6⟩, h7⟩ := h
  exact ⟨h1, h2, h3, fun i hi h5 => (h4 i hi).resolve_left (by omega),
    fun h => h5.resolve_left (by omega), h6, h7⟩

theorem isCanonical_of_lt : ∀ n < 256, isCanonical (UInt8.ofNat n) = true := by decide +kernel

/-- Every symbol has its place in the canonical code. -/
theorem canonical (b : UInt8) : Canonical b := by
  apply canonical_of_isCanonical
  have h := isCanonical_of_lt b.toNat b.toNat_lt
  rwa [UInt8.ofNat_toNat] at h

theorem wellSized_codeWord (b : UInt8) : WellSized (codeWord b) :=
  ⟨(canonical b).code_lt, (canonical b).length_le.trans (by decide)⟩

theorem length_le_bitLength (s : Bytes) : 5 * s.length ≤ bitLength (s.map codeWord) := by
  induction s with
  | nil => simp
  | cons b s ih =>
    have := (canonical b).length_ge
    simp only [List.map_cons, bitLength_cons, List.length_cons]
    omega

theorem bitLength_le (s : Bytes) : bitLength (s.map codeWord) ≤ 30 * s.length := by
  induction s with
  | nil => simp
  | cons b s ih =>
    have hb := (canonical b).length_le
    simp only [List.map_cons, bitLength_cons, List.length_cons]
    omega

/-- The code of a printable character has a zero among its first sixteen bits and one among its
last six. -/
structure Sparse (b : UInt8) : Prop where
  length_le : (codeWord b).length ≤ 30
  front : ∃ j < (codeWord b).length, j < 16 ∧
    (codeWord b).code.testBit ((codeWord b).length - 1 - j) = false
  back : ∃ j < (codeWord b).length, (codeWord b).length ≤ j + 6 ∧
    (codeWord b).code.testBit ((codeWord b).length - 1 - j) = false

/-- The evaluation of `Sparse`. -/
def isSparse (b : UInt8) : Bool :=
  let w := codeWord b
  w.length ≤ 30 &&
    (List.range w.length).any (fun j => j < 16 && !w.code.testBit (w.length - 1 - j)) &&
    (List.range w.length).any (fun j => w.length ≤ j + 6 && !w.code.testBit (w.length - 1 - j))

theorem sparse_of_isSparse {b : UInt8} (h : isSparse b = true) : Sparse b := by
  simp only [isSparse, Bool.and_eq_true, Bool.not_eq_true', decide_eq_true_eq, List.any_eq_true,
    List.mem_range] at h
  exact ⟨h.1.1, h.1.2, h.2⟩

theorem isSparse_of_printable : ∀ n < 127, 32 ≤ n → isSparse (UInt8.ofNat n) = true := by
  decide +kernel

theorem sparse {b : UInt8} (h : Printable b) : Sparse b := by
  apply sparse_of_isSparse
  have h := isSparse_of_printable b.toNat (by have := h.2; omega) h.1
  rwa [UInt8.ofNat_toNat] at h

/-! ## Decoding a window -/

/-- The search for the code length skips the lengths below `l` and stops there. -/
theorem huffmanDecodeLoop_eq (code : ℕ) {l : ℕ} (h30 : l ≤ 30) :
    ∀ (fuel i : ℕ), i + fuel = 30 → i ≤ l →
      (∀ j < l, i ≤ j → huffmanC.getD (j + 1) 0 * 2 ^ (30 - j - 1) % 2 ^ 32 ≤ code) →
      (l < 30 → code < huffmanC.getD (l + 1) 0 * 2 ^ (30 - l - 1) % 2 ^ 32) →
      huffmanDecodeLoop code fuel i = (l, code >>> (30 - l)) := by
  intro fuel
  induction fuel with
  | zero =>
    intro i hi hil _ _
    obtain rfl : l = 30 := by omega
    rfl
  | succ fuel ih =>
    intro i hi hil hskip hstop
    rw [huffmanDecodeLoop, show numberOfCodeLengths - 1 = 30 from rfl]
    by_cases h : i = l
    · subst h
      rw [if_pos (hstop (by omega))]
    · rw [if_neg (Nat.not_lt.mpr (hskip i (by omega) (Nat.le_refl _)))]
      exact ih (i + 1) (by omega) (by omega) (fun j hj hij => hskip j hj (by omega)) hstop

/-- **A window that begins with the code of a symbol** decodes to that symbol. -/
theorem huffmanDecode_window (b : UInt8) {window : ℕ}
    (h : window >>> (30 - (codeWord b).length) = (codeWord b).code) :
    huffmanDecode window = some ((codeWord b).length, b) := by
  have hb := canonical b
  have hdiv : window / 2 ^ (30 - (codeWord b).length) = (codeWord b).code := by
    rw [← Nat.shiftRight_eq_div_pow, h]
  have hpos := Nat.two_pow_pos (30 - (codeWord b).length)
  have hlo : (codeWord b).code * 2 ^ (30 - (codeWord b).length) ≤ window := by
    rw [← hdiv]; exact Nat.div_mul_le_self _ _
  have hhi : window < ((codeWord b).code + 1) * 2 ^ (30 - (codeWord b).length) := by
    rw [← Nat.div_lt_iff_lt_mul hpos, hdiv]; exact Nat.lt_succ_self _
  have hloop := huffmanDecodeLoop_eq window hb.length_le 25 5 rfl hb.length_ge
    (fun j hj h5 => (hb.shorter j hj h5).trans hlo) fun hl => Nat.lt_of_lt_of_le hhi (hb.longer hl)
  rw [huffmanDecode, hloop]
  simp only [h, hb.symbol, if_pos hb.pos_lt]

/-- Thirty ones are no symbol. -/
theorem huffmanDecode_ones : huffmanDecode (2 ^ 30 - 1) = none := by decide +kernel

/-! ## Decoding a padded string -/

/-- From bit `pos` on, the first `n` bytes of `buf` hold the codes of `s`, then fewer than eight
ones. -/
structure PaddedAt (buf : Bytes) (n pos : ℕ) (s : Bytes) : Prop where
  carries : Carries (bitAt buf) pos (s.map codeWord)
  le : pos + bitLength (s.map codeWord) ≤ 8 * n
  lt : 8 * n < pos + bitLength (s.map codeWord) + 8
  ones : ∀ i, pos + bitLength (s.map codeWord) ≤ i → i < 8 * n → bitAt buf i = true

variable {buf : Bytes} {n pos : ℕ} {b : UInt8} {s : Bytes}

theorem PaddedAt.tail (h : PaddedAt buf n pos (b :: s)) :
    PaddedAt buf n (pos + (codeWord b).length) s := by
  have h1 := h.le
  have h2 := h.lt
  have h3 := h.ones
  simp only [List.map_cons, bitLength_cons] at h1 h2 h3
  exact ⟨h.carries.2, by omega, by omega, fun i hi => h3 i (by omega)⟩

/-- The bits of the first `n` bytes, followed by ones for ever. -/
def onesFrom (buf : Bytes) (n i : ℕ) : Bool := bitAt buf i || decide (8 * n ≤ i)

theorem onesFrom_of_lt {i : ℕ} (h : i < 8 * n) : onesFrom buf n i = bitAt buf i := by
  rw [onesFrom, decide_eq_false (by omega), Bool.or_false]

/-- The padding check passes when the last `r < 8` bits are ones. -/
theorem checkHuffmanPadding_ones {r : ℕ} (hr : r < 8) (hn : r ≤ 8 * n)
    (h : ∀ i, 8 * n - r ≤ i → i < 8 * n → bitAt buf i = true) :
    checkHuffmanPadding r buf n = 0 := by
  rw [checkHuffmanPadding, if_pos hr]
  by_cases h0 : r = 0
  · subst h0
    simp
  · have hlow := spells_low buf (n - 1) (show 8 - r ≤ 8 by omega)
    have hones : Spells (bitAt buf) (8 * (n - 1) + (8 - r)) r (2 ^ r - 1) :=
      spells_ones fun j hj => h _ (by omega) (by omega)
    rw [show 8 - (8 - r) = r by omega] at hlow
    have := hlow.unique hones
    rw [shiftRight_255 (by omega), Nat.and_comm] at this
    simp only [this, if_true]

/-- A word is decoded from the thirty bits after `pos`, ones included that follow the string. -/
theorem decodeHuffmanWord_eq (buf : Bytes) {n pos : ℕ} (hpos : pos ≤ 8 * n) :
    (8 * n - pos < 5 ∧
      decodeHuffmanWord buf n pos = (checkHuffmanPadding (8 * n - pos) buf n, none)) ∨
    (5 ≤ 8 * n - pos ∧ ∃ window, Spells (onesFrom buf n) pos 30 window ∧
      decodeHuffmanWord buf n pos =
        match huffmanDecode window with
        | some (bitSize, sym) => ((bitSize : ℤ), some sym)
        | none => (checkHuffmanPadding ((8 * n + 256 - pos % 256) % 256) buf n, none)) := by
  rw [decodeHuffmanWord]
  -- a window over the end is read in part and filled up with ones
  by_cases hend : pos + 30 > 8 * n
  · have hleft : (8 * n + 256 - pos % 256) % 256 = 8 * n - pos := by omega
    simp only [if_pos hend, hleft]
    by_cases h5 : 8 * n - pos < 5
    · exact Or.inl ⟨h5, by rw [if_pos h5]⟩
    · refine Or.inr ⟨by omega, readBitsFromBytes pos (8 * n - pos) buf <<<
        (30 - (8 * n - pos)) % 2 ^ 32 ||| 2 ^ (30 - (8 * n - pos)) - 1, ?_, if_neg h5⟩
      have hread := spells_readBitsFromBytes buf pos (k := 8 * n - pos) (by omega) (by omega)
      have hread' : Spells (onesFrom buf n) pos (8 * n - pos)
          (readBitsFromBytes pos (8 * n - pos) buf) :=
        hread.congr fun i _ h2 => onesFrom_of_lt (by omega)
      have hones : Spells (onesFrom buf n) (pos + (8 * n - pos)) (30 - (8 * n - pos))
          (2 ^ (30 - (8 * n - pos)) - 1) :=
        spells_ones fun j _ => by rw [onesFrom, decide_eq_true (by omega), Bool.or_true]
      have hcat := hread'.concat hones
      have hlt : readBitsFromBytes pos (8 * n - pos) buf <<< (30 - (8 * n - pos)) < 2 ^ 32 := by
        have hp : 2 ^ (8 * n - pos) * 2 ^ (30 - (8 * n - pos)) ≤ 2 ^ 32 := by
          rw [← Nat.pow_add]; exact Nat.pow_le_pow_right (by decide) (by omega)
        have := (Nat.mul_lt_mul_right (a := 2 ^ (30 - (8 * n - pos))) (Nat.two_pow_pos _)).mpr
          hread.lt
        rw [Nat.shiftLeft_eq]
        omega
      rw [Nat.mod_eq_of_lt hlt]
      rwa [show 8 * n - pos + (30 - (8 * n - pos)) = 30 by omega] at hcat
  · refine Or.inr ⟨by omega, readBitsFromBytes pos 30 buf, ?_, if_neg hend⟩
    exact (spells_readBitsFromBytes buf pos (k := 30) (by decide) (by decide)).congr
      fun i _ h2 => onesFrom_of_lt (by omega)

/-- A code word within the string is decoded, with its length. -/
theorem decodeHuffmanWord_of_spells (hle : pos + (codeWord b).length ≤ 8 * n)
    (h : Spells (bitAt buf) pos (codeWord b).length (codeWord b).code) :
    decodeHuffmanWord buf n pos = (((codeWord b).length : ℤ), some b) := by
  have hb := canonical b
  have h5 := hb.length_ge
  rcases decodeHuffmanWord_eq buf (show pos ≤ 8 * n by omega) with
    ⟨hlt, -⟩ | ⟨-, window, hspell, heq⟩
  · omega
  · have hcode : Spells (onesFrom buf n) pos (codeWord b).length (codeWord b).code :=
      h.congr fun i _ h2 => onesFrom_of_lt (by omega)
    rw [heq, huffmanDecode_window b ((hspell.take hb.length_le).unique hcode)]

/-- The next symbol of a padded string is decoded, with the length of its code. -/
theorem decodeHuffmanWord_cons (h : PaddedAt buf n pos (b :: s)) :
    decodeHuffmanWord buf n pos = (((codeWord b).length : ℤ), some b) := by
  have hle := h.le
  simp only [List.map_cons, bitLength_cons] at hle
  exact decodeHuffmanWord_of_spells (by omega) h.carries.1

/-- At the end of a padded string only the padding is left, which is accepted. -/
theorem decodeHuffmanWord_nil (h : PaddedAt buf n pos []) :
    decodeHuffmanWord buf n pos = (0, none) := by
  have hle : pos ≤ 8 * n := by simpa using h.le
  have hlt : 8 * n < pos + 8 := by simpa using h.lt
  have hones : ∀ i, pos ≤ i → i < 8 * n → bitAt buf i = true := by simpa using h.ones
  have hpad := checkHuffmanPadding_ones (r := 8 * n - pos) (by omega) (by omega)
    fun i h1 h2 => hones i (by omega) h2
  rcases decodeHuffmanWord_eq buf hle with
    ⟨-, heq⟩ | ⟨-, window, hspell, heq⟩
  · rw [heq, hpad]
  · have hall : Spells (onesFrom buf n) pos 30 (2 ^ 30 - 1) := by
      apply spells_ones
      intro j _
      rcases Nat.lt_or_ge (pos + j) (8 * n) with hj | hj
      · rw [onesFrom_of_lt hj, hones _ (by omega) hj]
      · rw [onesFrom, decide_eq_true hj, Bool.or_true]
    rw [heq, hspell.unique hall, huffmanDecode_ones,
      show (8 * n + 256 - pos % 256) % 256 = 8 * n - pos by omega]
    simp only [hpad]

/-- **The decoding loop** reads back every padded string that fits into the output. -/
theorem decodeHuffmanLoop_padded (strLength : ℕ) (hn : 0 < n) (hn16 : 8 * n < 2 ^ 16) :
    ∀ (s : Bytes) (fuel i pos : ℕ), PaddedAt buf n pos s → s.length < fuel →
      i + s.length ≤ strLength → i + s.length < 2 ^ 16 →
      decodeHuffmanLoop strLength buf n fuel i pos = (0, s) := by
  intro s
  induction s with
  | nil =>
    intro fuel i pos h hfuel hi _
    obtain ⟨fuel, rfl⟩ : ∃ f, fuel = f + 1 := ⟨fuel - 1, by omega⟩
    have hle : pos ≤ 8 * n := by simpa using h.le
    rw [decodeHuffmanLoop, if_pos (by omega), if_neg (by simpa using hi), decodeHuffmanWord_nil h]
    simp
  | cons b s ih =>
    intro fuel i pos h hfuel hi hi16
    obtain ⟨fuel, rfl⟩ : ∃ f, fuel = f + 1 := ⟨fuel - 1, by omega⟩
    have hle := h.le
    -- a code has at least five bits, so the loop does not stop before this symbol
    have h5 := (canonical b).length_ge
    simp only [List.map_cons, bitLength_cons] at hle
    simp only [List.length_cons] at hi hi16 hfuel
    rw [decodeHuffmanLoop, if_pos (by omega), if_neg (by omega), decodeHuffmanWord_cons h]
    simp only [Int.toNat_natCast]
    rw [if_neg (by omega), if_neg (by omega), Nat.mod_eq_of_lt (a := i + 1) (by omega),
      Nat.mod_eq_of_lt (by omega), ih fuel (i + 1) _ h.tail (by omega) (by omega) (by omega)]
    rfl

/-! ## No end-of-string symbol -/

/-- **Thirty consecutive bits** of the codes of printable characters and their padding have a zero:
the codes end with at most five ones and begin with at most fifteen. -/
theorem PaddedAt.exists_zero :
    ∀ {s : Bytes} {pos : ℕ}, PaddedAt buf n pos s → (∀ b ∈ s, Printable b) →
      ∀ p, pos ≤ p → p + 30 ≤ 8 * n → ∃ j, p ≤ j ∧ j < p + 30 ∧ bitAt buf j = false := by
  intro s
  induction s with
  | nil =>
    intro pos h _ p hp hfit
    have := h.lt
    simp only [List.map_nil, bitLength_nil] at this
    omega
  | cons b s ih =>
    intro pos h hs p hp hfit
    have hb := sparse (hs b List.mem_cons_self)
    have h30 := hb.length_le
    have htail := h.tail
    by_cases hin : pos + (codeWord b).length ≤ p
    · exact ih htail (fun c hc => hs c (List.mem_cons_of_mem _ hc)) p hin hfit
    · obtain ⟨e, he, he6, hzero⟩ := hb.back
      by_cases hpe : p ≤ pos + e
      · exact ⟨pos + e, hpe, by omega, by rw [h.carries.1.2 e he, hzero]⟩
      · cases s with
        | nil =>
          have := htail.lt
          simp only [List.map_nil, bitLength_nil] at this
          omega
        | cons c s =>
          -- the window begins in the last ones of this code, so it reaches a zero of the next
          have hc := sparse (hs c (List.mem_cons_of_mem _ List.mem_cons_self))
          obtain ⟨f, hf, hf16, hzero⟩ := hc.front
          exact ⟨pos + (codeWord b).length + f, by omega, by omega,
            by rw [htail.carries.1.2 f hf, hzero]⟩

/-- A run of thirty bits with a zero is not the end-of-string symbol. -/
theorem readBits_and_ne_eos {p : ℕ} (h : ∃ j, p ≤ j ∧ j < p + 30 ∧ bitAt buf j = false) :
    readBitsFromBytes p 30 buf &&& 0x3fffffff ≠ 0x3fffffff := by
  have hread := spells_readBitsFromBytes buf p (k := 30) (by decide) (by decide)
  intro heq
  rw [show (0x3fffffff : ℕ) = 2 ^ 30 - 1 from rfl, Nat.and_two_pow_sub_one_eq_mod,
    Nat.mod_eq_of_lt hread.lt] at heq
  rw [heq] at hread
  obtain ⟨j, h1, h2, h3⟩ := h
  have := hread.eq_true_of_ones (j := j - p) (by omega)
  rw [show p + (j - p) = j by omega, h3] at this
  exact absurd this (by decide)

/-- No end-of-string symbol is found where every thirty bits have a zero. -/
theorem checkEosSymbol_eq_false
    (h : ∀ p, p + 30 ≤ 8 * n → ∃ j, p ≤ j ∧ j < p + 30 ∧ bitAt buf j = false) :
    checkEosSymbol buf n = false := by
  rw [checkEosSymbol, List.any_eq_false]
  intro p hp
  have hp : p < 8 * n - 29 := List.mem_range.mp hp
  simpa using readBits_and_ne_eos (h p (by omega))

end Two.Hpack
