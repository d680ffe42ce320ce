import Two.Hpack.Semantics
import Two.Hpack.Codec

/-!
# Reading what was spelled

The parser recovers a representation from any bytes that spell it, whatever follows them. The
encoder spells integers and strings in one of the ways RFC 7541 allows.

## Main definitions

* `Readable`, `Representation.Supported`: the integers and strings for which the decoder has room
* `Parsed r h`: what the parser makes of a representation

## Main results

* `decodeInteger_spelled`, `parseString_spelled`: integers and strings
* `parseEncodedHeader_spells`: representations
-/

namespace Two.Hpack

open BitStream

/-! ## Integers -/

theorem encodeIntegerTail_eq {fuel n : ℕ} (h : n < 128 ^ (fuel + 1)) :
    encodeIntegerTail (fuel + 1) n = PrefixInteger.groups n := by
  induction fuel generalizing n with
  | zero =>
    rw [encodeIntegerTail, if_neg (by omega), PrefixInteger.groups_of_lt (by omega)]
  | succ fuel ih =>
    rw [encodeIntegerTail]
    by_cases hn : 128 ≤ n
    · have hdiv : n / 128 < 128 ^ (fuel + 1) := by
        rw [pow_succ] at h
        exact Nat.div_lt_of_lt_mul (by omega)
      rw [if_pos hn, PrefixInteger.groups_of_le hn, ih hdiv]
    · rw [if_neg hn, PrefixInteger.groups_of_lt (by omega)]

/-- The encoder writes the prefix integer with empty tag. -/
theorem encodeInteger_eq {n p : ℕ} (hp : p ≤ 8) (hn : n ≤ hpackMaximumInteger) :
    (encodeInteger n p).2 = PrefixInteger.encode p 0 n := by
  have hmax : hpackMaximumInteger = 4096 := rfl
  have hpow : (128 : ℕ) ^ 5 = 34359738368 := by norm_num
  rw [encodeInteger, encodeIntegerUpTo, if_neg (by omega)]
  simp only [maxPrefix_eq hp, shift_mask n hp]
  rw [PrefixInteger.encode]
  by_cases h : n < 2 ^ p - 1
  · rw [if_pos h, if_pos h, Nat.mod_eq_of_lt (by omega), Nat.zero_mul, Nat.zero_add]
  · rw [if_neg h, if_neg h, encodeIntegerTail_eq (by omega), Nat.zero_mul, Nat.zero_add]

/-- **A prefix integer is read back**, whatever the tag, and its size is known. -/
theorem decodeInteger_spelled {n p tag : ℕ} (hp1 : 1 ≤ p) (hp : p ≤ 8) (htag : tag < 2 ^ (8 - p))
    (hn : n ≤ hpackMaximumInteger) (rest : Bytes) :
    decodeInteger (PrefixInteger.encode p tag n ++ rest) p = n ∧
      encodedIntegerSize n p = (PrefixInteger.encode p tag n).length := by
  obtain ⟨b, c, bs, htagged, hplain, hb, hc⟩ := PrefixInteger.exists_encode_eq hp htag n
  obtain ⟨b', bs', he, hsize, -⟩ := exists_encodeInteger_eq hp hn
  have hbytes : b' :: bs' = c :: bs := by
    rw [← hplain, ← encodeInteger_eq hp hn, he]
  obtain ⟨rfl, rfl⟩ := List.cons.inj hbytes
  have hmod : b.toNat % 2 ^ p = b'.toNat := by
    rw [hb, Nat.mul_comm, Nat.mul_add_mod, Nat.mod_eq_of_lt hc]
  rw [htagged]
  exact ⟨decodeInteger_encode hp1 hp hn (by rw [he]) hmod rest, hsize⟩

/-! ## Strings -/

section Strings

variable {s bytes : Bytes} {strLength : ℕ}

/-- The bits of a padded string do not depend on the bytes behind it. -/
theorem PaddedAt.append {code : Bytes} (h : PaddedAt code code.length 0 s) (rest : Bytes) :
    PaddedAt (code ++ rest) code.length 0 s := by
  have hbit : ∀ i, i < 8 * code.length → bitAt (code ++ rest) i = bitAt code i := by
    intro i hi
    rw [bitAt, bitAt, List.getD_append _ _ _ _ (by omega)]
  have hle := h.le
  refine ⟨h.carries.congr fun i _ h2 => hbit i (by omega), hle, h.lt, fun i h1 h2 => ?_⟩
  rw [hbit i h2]
  exact h.ones i h1 h2

/-- The encoder pads the strings it packs. -/
theorem padded_packedString (hs : huffmanLength s ≤ hpackMaximumInteger) :
    PaddedAt (packedString s) (packedString s).length 0 s := by
  obtain ⟨-, hlen, hpadded⟩ := packedString_spec hs
  have h := hpadded []
  rwa [List.append_nil, ← hlen] at h

/-- The decoder reads a Huffman coded string. -/
theorem decodeHuffmanString_padded {n : ℕ} {region : Bytes} (h : PaddedAt region n 0 s)
    (hn : n ≤ hpackMaximumInteger) (hlen : s.length ≤ strLength) :
    decodeHuffmanString strLength region n = (((n + encodedIntegerSize n 7 : ℕ) : ℤ), s) := by
  have hmax : hpackMaximumInteger = 4096 := rfl
  have h5 := length_le_bitLength s
  have hle := h.le
  have hlt := h.lt
  have hloop : decodeHuffmanLoop strLength region n (8 * n + 1) 0 0 = (0, s) := by
    rcases Nat.eq_zero_or_pos n with rfl | hn0
    · obtain rfl : s = [] := List.eq_nil_of_length_eq_zero (by omega)
      rfl
    · exact decodeHuffmanLoop_padded strLength hn0 (by omega) s (8 * n + 1) 0 0 h (by omega)
        (by omega) (by omega)
  rw [decodeHuffmanString, hloop]
  simp only
  rw [if_neg (by decide), Nat.cast_add]

theorem getHuffmanBit_tag : ∀ tag < 2, ∀ m < 2 ^ 7,
    getHuffmanBit (UInt8.ofNat (tag * 2 ^ 7 + m)) = decide (tag = 1) := by decide +kernel

/-- A length behind its Huffman bit, and as many bytes, are parsed. -/
theorem parseString_tagged {tag headerSize pointer : ℕ} {block code rest : Bytes} (htag : tag < 2)
    (hcode : code.length ≤ hpackMaximumInteger)
    (hblock : block.drop pointer = PrefixInteger.encode 7 tag code.length ++ (code ++ rest))
    (hsize : pointer + (PrefixInteger.encode 7 tag code.length ++ code).length ≤ headerSize) :
    parseString block headerSize pointer = some (decide (tag = 1), code.length, code ++ rest,
      pointer + (PrefixInteger.encode 7 tag code.length ++ code).length) := by
  obtain ⟨hvalue, hwidth⟩ := decodeInteger_spelled (p := 7) (by decide) (by decide) htag hcode
    (code ++ rest)
  obtain ⟨b, c, bs, htagged, -, hb, hc⟩ := PrefixInteger.exists_encode_eq (p := 7) (by decide) htag
    code.length
  have hfirst : (PrefixInteger.encode 7 tag code.length ++ (code ++ rest)).getD 0 0 = b := by
    rw [htagged]
    rfl
  have hbit : getHuffmanBit b = decide (tag = 1) := by
    rw [← UInt8.ofNat_toNat (x := b), hb]
    exact getHuffmanBit_tag tag htag _ hc
  have hdrop : block.drop (pointer + (PrefixInteger.encode 7 tag code.length).length) =
      code ++ rest := by
    rw [← List.drop_drop, hblock]
    exact List.drop_left' rfl
  rw [List.length_append] at hsize ⊢
  rw [parseString]
  simp only [hblock, hfirst, hbit, hvalue, Int.toNat_natCast, hwidth, hdrop]
  rw [if_neg (by omega), if_neg (by omega), if_neg (by omega), Nat.add_assoc]

/-- **A spelled string is parsed and read.** -/
theorem parseString_spelled {headerSize pointer : ℕ} {block rest : Bytes}
    (h : SpellsString s bytes) (hs : ∀ b ∈ s, Printable b) (hlen : s.length ≤ strLength)
    (hstr : strLength < 256) (hblock : block.drop pointer = bytes ++ rest)
    (hsize : pointer + bytes.length ≤ headerSize) :
    ∃ huffmanBit n region,
      parseString block headerSize pointer =
        some (huffmanBit, n, region, pointer + bytes.length) ∧
      Reads strLength s huffmanBit n region := by
  have hmax : hpackMaximumInteger = 4096 := rfl
  have hbits := bitLength_le s
  cases h with
  | raw =>
    rw [List.append_assoc] at hblock
    refine ⟨false, s.length, s ++ rest,
      parseString_tagged (by decide) (by omega) hblock hsize,
      ⟨((s.length + encodedIntegerSize s.length 7 : ℕ) : ℤ), Int.natCast_nonneg _, ?_⟩, ?_⟩
    · rw [decodeString, if_neg (by decide), decodeNonHuffmanString, if_neg (by omega),
        List.take_left' rfl, Nat.cast_add]
    · rw [Nat.mod_eq_of_lt (by omega)]
      exact checkEosSymbol_eq_false (exists_zero_of_printable hs rest)
  | @huffman code h =>
    have hlt := h.lt
    have hpadded := h.append rest
    rw [List.append_assoc] at hblock
    refine ⟨true, code.length, code ++ rest,
      parseString_tagged (by decide) (by omega) hblock hsize,
      ⟨((code.length + encodedIntegerSize code.length 7 : ℕ) : ℤ), Int.natCast_nonneg _, ?_⟩, ?_⟩
    · rw [decodeString, if_pos rfl]
      exact decodeHuffmanString_padded hpadded (by omega) hlen
    -- the check takes the length modulo 256
    · have hmod := Nat.mod_le code.length 256
      exact checkEosSymbol_eq_false fun p hp =>
        hpadded.exists_zero hs p (Nat.zero_le p) (by omega)

end Strings

/-! ## Representations -/

/-- A printable string for which a buffer of `capacity` bytes has room. -/
structure Readable (capacity : ℕ) (s : Bytes) : Prop where
  printable : ∀ b ∈ s, Printable b
  length_lt : s.length < capacity

/-- The decoder has room for the integers and the strings of a representation. -/
def Representation.Supported : Representation → Prop
  | .indexed index => index ≤ hpackMaximumInteger
  | .indexedName _ index value =>
    index ≤ hpackMaximumInteger ∧ Readable hpackHeaderValueLen value
  | .newName _ name value =>
    Readable hpackHeaderNameLen name ∧ Readable hpackHeaderValueLen value
  | .sizeUpdate maxSize => maxSize ≤ hpackMaximumInteger

/-- What the parser makes of a representation. -/
inductive Parsed : Representation → EncodedHeader → Prop
  | indexed (index : ℕ) :
    Parsed (.indexed index) { preamble := .indexedHeaderField, index }
  | indexedName (kind : LiteralKind) {index valueLength : ℕ} {value valueString : Bytes}
    {huffmanBitOfValue : Bool} (hi : 0 < index)
    (hv : Reads hpackHeaderValueLen value huffmanBitOfValue valueLength valueString) :
    Parsed (.indexedName kind index value)
      { preamble := kind.preamble, index, valueLength, valueString, huffmanBitOfValue }
  | newName (kind : LiteralKind) {nameLength valueLength : ℕ}
    {name value nameString valueString : Bytes} {huffmanBitOfName huffmanBitOfValue : Bool}
    (hn : Reads hpackHeaderNameLen name huffmanBitOfName nameLength nameString)
    (hv : Reads hpackHeaderValueLen value huffmanBitOfValue valueLength valueString) :
    Parsed (.newName kind name value)
      { preamble := kind.preamble, index := 0, nameLength, nameString, huffmanBitOfName,
        valueLength, valueString, huffmanBitOfValue }
  | sizeUpdate (maxSize : ℕ) :
    Parsed (.sizeUpdate maxSize)
      { preamble := .dynamicTableSizeUpdate, dynamicTableSize := maxSize }

section Parsing

variable {r : Representation} {bytes : Bytes}

theorem getPreamble_tag (p : Preamble) : ∀ m < 2 ^ findPrefixSize p,
    getPreamble (UInt8.ofNat (tagBits p * 2 ^ findPrefixSize p + m)) = p := by
  cases p <;> decide +kernel

theorem tagBits_lt (p : Preamble) : tagBits p < 2 ^ (8 - findPrefixSize p) := by
  cases p <;> decide

theorem Representation.Supported.integer_le (h : r.Supported) :
    r.integer ≤ hpackMaximumInteger := by
  cases r with
  | indexed index => exact h
  | indexedName kind index value => exact h.1
  | newName kind name value => exact Nat.zero_le _
  | sizeUpdate maxSize => exact h

/-- The preamble and the integer at the start of a representation. -/
theorem head_parsed (hr : r.Supported) (rest : Bytes) :
    getPreamble ((r.head ++ rest).getD 0 0) = r.preamble ∧
      decodeInteger (r.head ++ rest) (findPrefixSize r.preamble) = r.integer ∧
      encodedIntegerSize r.integer (findPrefixSize r.preamble) = r.head.length := by
  obtain ⟨hp1, hp7⟩ := prefixSize_bounds r.preamble
  have hp8 := hp7.trans (show 7 ≤ 8 by decide)
  have htag := tagBits_lt r.preamble
  obtain ⟨b, c, bs, htagged, -, hb, hc⟩ := PrefixInteger.exists_encode_eq hp8 htag r.integer
  obtain ⟨hvalue, hsize⟩ := decodeInteger_spelled hp1 hp8 htag hr.integer_le rest
  refine ⟨?_, hvalue, hsize⟩
  have hfirst : (r.head ++ rest).getD 0 0 = b := by
    rw [Representation.head, htagged]
    rfl
  rw [hfirst, ← UInt8.ofNat_toNat (x := b), hb]
  exact getPreamble_tag _ _ hc

theorem Representation.length_head_pos (r : Representation) : 0 < r.head.length := by
  rw [Representation.head, PrefixInteger.encode]
  split <;> simp

theorem Representation.Spells.length_pos (h : r.Spells bytes) : 0 < bytes.length := by
  have hpos := r.length_head_pos
  cases h
  all_goals
    try rw [List.length_append]
    omega

/-- What stands behind the head of a representation. -/
theorem drop_head (x : Bytes) : (r.head ++ x).drop r.head.length = x := List.drop_left' rfl

theorem LiteralKind.preamble_ne (kind : LiteralKind) :
    kind.preamble ≠ .indexedHeaderField ∧ kind.preamble ≠ .dynamicTableSizeUpdate := by
  cases kind <;> decide

/-- **A spelled representation is parsed**, and its length is known. -/
theorem parseEncodedHeader_spells (h : r.Spells bytes) (hr : r.Supported) {size : ℕ}
    (hsize : bytes.length ≤ size) (rest : Bytes) :
    ∃ e, parseEncodedHeader (bytes ++ rest) size = some (e, bytes.length) ∧ Parsed r e := by
  have hstr : hpackHeaderNameLen < 256 ∧ hpackHeaderValueLen < 256 := by decide
  cases h with
  | indexed index =>
    obtain ⟨hpre, hint, hlen⟩ := head_parsed hr rest
    refine ⟨_, ?_, .indexed index⟩
    simp only [Representation.preamble, Representation.integer] at hpre hint hlen
    rw [parseEncodedHeader]
    simp only [hpre, hint, Int.toNat_natCast, hlen]
    rw [if_neg (by omega), if_pos trivial]
  | sizeUpdate maxSize =>
    obtain ⟨hpre, hint, hlen⟩ := head_parsed hr rest
    have hmax : maxSize ≤ 4096 := hr
    refine ⟨_, ?_, .sizeUpdate maxSize⟩
    simp only [Representation.preamble, Representation.integer] at hpre hint hlen
    rw [parseEncodedHeader]
    simp only [hpre, hint, Int.toNat_natCast, hlen]
    rw [if_neg (by omega), if_neg (by decide), if_pos trivial, Nat.mod_eq_of_lt (by omega)]
  | @indexedName kind index value valueBytes hi hv =>
    obtain ⟨hpre, hint, hlen⟩ := head_parsed hr (valueBytes ++ rest)
    obtain ⟨hne, hne'⟩ := kind.preamble_ne
    rw [List.length_append] at hsize
    have hdrop := drop_head (r := .indexedName kind index value) (valueBytes ++ rest)
    -- the value is read behind the index
    obtain ⟨bit, n, region, hparse, hread⟩ := parseString_spelled hv hr.2.printable
      hr.2.length_lt.le hstr.2 hdrop hsize
    refine ⟨_, ?_, .indexedName kind hi hread⟩
    simp only [Representation.preamble, Representation.integer] at hpre hint hlen
    rw [parseEncodedHeader, List.append_assoc, List.length_append]
    simp only [hpre, hint, Int.toNat_natCast, hlen, hparse]
    rw [if_neg (by omega), if_neg hne, if_neg hne', if_neg (by omega), if_neg (by omega)]
  | @newName kind name value nameBytes valueBytes hn hv =>
    obtain ⟨hpre, hint, hlen⟩ := head_parsed hr (nameBytes ++ (valueBytes ++ rest))
    obtain ⟨hne, hne'⟩ := kind.preamble_ne
    rw [List.length_append, List.length_append] at hsize
    have hdrop := drop_head (r := .newName kind name value) (nameBytes ++ (valueBytes ++ rest))
    obtain ⟨bit₁, n₁, region₁, hparse₁, hread₁⟩ := parseString_spelled hn hr.1.printable
      hr.1.length_lt.le hstr.1 hdrop (show _ ≤ size by omega)
    have hdrop' : ((Representation.newName kind name value).head ++
        (nameBytes ++ (valueBytes ++ rest))).drop
          ((Representation.newName kind name value).head.length + nameBytes.length) =
        valueBytes ++ rest := by
      rw [← List.drop_drop, hdrop]
      exact List.drop_left' rfl
    -- the value is read behind the name
    obtain ⟨bit₂, n₂, region₂, hparse₂, hread₂⟩ := parseString_spelled hv hr.2.printable
      hr.2.length_lt.le hstr.2 hdrop' (show _ ≤ size by omega)
    refine ⟨_, ?_, .newName kind hread₁ hread₂⟩
    simp only [Representation.preamble, Representation.integer, Nat.cast_zero] at hpre hint hlen
    rw [parseEncodedHeader, List.append_assoc, List.append_assoc, List.length_append,
      List.length_append, ← Nat.add_assoc]
    simp only [hpre, hint, Int.toNat_zero, hlen, hparse₁, hparse₂]
    rw [if_neg (by omega), if_neg hne, if_neg hne', if_neg (by omega), if_pos trivial]

end Parsing

end Two.Hpack
