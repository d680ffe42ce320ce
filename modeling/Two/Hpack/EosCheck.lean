import Two.Hpack.HuffmanAcceptance

/-!
# The search for the end-of-string symbol

Before a literal is decoded, `hpack_decoder_check_errors` searches its strings for thirty ones, the
code of the end-of-string symbol. The search does not look at the Huffman bit and not at the
boundaries between code words, and it covers as many bytes as the length has modulo 256.

## Main definitions

* `Literal`, `strings`: the string literals of a representation
* `EosAt`: the code of the end-of-string symbol behind complete code words
* `NoFalseRejection`: what is claimed of the check

## Main results

* `checkErrors_iff`: the representations that are refused
* `noFalseRejection_iff`: when only a string with the symbol is refused
-/

namespace Two.Hpack

open BitStream

/-- A string literal: its Huffman bit, its length, and the memory from its first byte on. -/
structure Literal where
  huffmanBit : Bool
  length : ℕ
  region : Bytes

/-- The strings of a literal representation. A name that is indexed is not among them. -/
def strings (h : EncodedHeader) : List Literal :=
  (if h.index = 0 then [⟨h.huffmanBitOfName, h.nameLength, h.nameString⟩] else []) ++
    [⟨h.huffmanBitOfValue, h.valueLength, h.valueString⟩]

/-- The representation is a literal one. -/
def EncodedHeader.IsLiteral (h : EncodedHeader) : Prop :=
  h.preamble ≠ .indexedHeaderField ∧ h.preamble ≠ .dynamicTableSizeUpdate

instance (h : EncodedHeader) : Decidable h.IsLiteral := inferInstanceAs (Decidable (_ ∧ _))

/-- The code of the end-of-string symbol stands behind complete code words, so at a boundary of
symbols. -/
def EosAt (buf : Bytes) (n : ℕ) : Prop :=
  ∃ s : Bytes, Carries (bitAt buf) 0 (s.map codeWord) ∧
    bitLength (s.map codeWord) + 30 ≤ 8 * n ∧
    ∀ j < 30, bitAt buf (bitLength (s.map codeWord) + j) = true

/-- Only a Huffman-coded string with the end-of-string symbol is refused; so strings that are raw, or
coded and padded as they should be, are not. -/
structure NoFalseRejection (h : EncodedHeader) : Prop where
  refused : checkErrors h = true → ∃ l ∈ strings h, l.huffmanBit = true ∧ EosAt l.region l.length
  accepted : (∀ l ∈ strings h, l.huffmanBit = true → Valid l.region l.length) →
    checkErrors h = false

/-- Thirty ones stand somewhere in the bytes of the string that are searched. -/
def Literal.Searched (l : Literal) : Prop := 4 ≤ l.length ∧ HasOnes l.region (l.length % 256)

instance (l : Literal) : Decidable l.Searched := inferInstanceAs (Decidable (_ ∧ _))

section Eos

variable {buf : Bytes} {n pos : ℕ}

/-- No code word begins with thirty ones. -/
theorem not_wordAt_of_ones (hones : ∀ j < 30, bitAt buf (pos + j) = true)
    (b : UInt8) : ¬ WordAt buf n pos b := by
  rintro ⟨-, hspells⟩
  have h30 := (canonical b).length_le
  -- the first bits of the window of ones are those of the code word
  have htake := (spells_ones hones).take h30
  have hwindow := huffmanDecode_window b (htake.unique hspells)
  rw [huffmanDecode_ones] at hwindow
  cases hwindow

/-- In a valid string no end-of-string symbol stands at a boundary. -/
theorem Valid.not_eosAt (h : Valid buf n) : ¬ EosAt buf n := by
  rintro ⟨s, hcarries, hle, hones⟩
  obtain ⟨s', hs'⟩ := h
  have hsplit : Splits buf n 0 s := by
    refine ⟨hcarries, by omega, fun b => ?_⟩
    rw [Nat.zero_add]
    exact not_wordAt_of_ones hones b
  obtain rfl := hsplit.unique hs'.splits
  have hlt := hs'.lt
  omega

end Eos

/-- The literals that are refused. -/
theorem checkErrors_iff {h : EncodedHeader} (hl : h.IsLiteral) :
    checkErrors h = true ↔ ∃ l ∈ strings h, l.Searched := by
  rw [checkErrors, if_neg hl.1, if_neg hl.2, decide_eq_true_iff, strings]
  simp only [checkEosSymbol_iff]
  by_cases hindex : h.index = 0
  · rw [if_pos hindex]
    simp [hindex, Literal.Searched]
  · rw [if_neg hindex]
    simp [hindex, Literal.Searched]

/-- **A literal is refused only for an end-of-string symbol** exactly if thirty ones stand in its
searched bytes only where one of its Huffman-coded strings has this symbol. -/
theorem noFalseRejection_iff (h : EncodedHeader) (hl : h.IsLiteral) :
    NoFalseRejection h ↔ ((∃ l ∈ strings h, l.Searched) →
      ∃ l ∈ strings h, l.huffmanBit = true ∧ EosAt l.region l.length) := by
  rw [← checkErrors_iff hl]
  constructor
  · exact NoFalseRejection.refused
  · intro hrefused
    refine ⟨hrefused, fun hvalid => ?_⟩
    by_contra herror
    obtain ⟨l, hmem, hbit, heos⟩ := hrefused (by simpa using herror)
    exact (hvalid l hmem hbit).not_eosAt heos

/-- The literal of the RFC's example, `custom-key: custom-header`, both strings raw. -/
def customHeader : EncodedHeader where
  preamble := .literalHeaderFieldWithIncrementalIndexing
  nameLength := 10
  nameString := ascii "custom-key"
  valueLength := 13
  valueString := ascii "custom-header"

theorem noFalseRejection_custom : customHeader.IsLiteral ∧ NoFalseRejection customHeader :=
  ⟨by decide, (noFalseRejection_iff customHeader (by decide)).mpr fun h =>
    absurd h (by decide +kernel)⟩

/-- A raw value of four bytes `ff` is refused. -/
theorem not_noFalseRejection : ¬ ∀ (block : Bytes) (h : EncodedHeader) (bytesRead : ℕ),
    parseEncodedHeader block block.length = some (h, bytesRead) → h.IsLiteral →
    NoFalseRejection h := by
  intro hall
  have hparse : parseEncodedHeader [0x01, 0x04, 0xff, 0xff, 0xff, 0xff] 6 =
      some (⟨.literalHeaderFieldWithoutIndexing, 1, 0, 0, [], false, 4, [0xff, 0xff, 0xff, 0xff],
        false⟩, 6) := by rfl
  have haccepted := (hall _ _ _ hparse (by decide)).accepted (by decide +kernel)
  revert haccepted
  decide +kernel

end Two.Hpack
