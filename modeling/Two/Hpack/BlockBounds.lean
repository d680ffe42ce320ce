import Two.Hpack.HuffmanCoding
import Two.Hpack.IntegerDecoding

/-!
# The decoder and the bytes behind its block

`hpack_decode` is given a header block in a larger memory. An integer that begins in the block is read
up to its last byte, wherever that is, and its value is compared with the size of the block only
afterwards, if at all. Everything else is read from the block.

## Main definitions

* `CompleteHeader`: the integers of a representation that begin in the block also end in it
* `readsInside`: this holds of every representation that the decoder comes to

## Main results

* `decodeString_take`, `checkEosSymbol_take`: strings are read from their own bytes
* `parseEncodedHeader_append`: a representation is parsed from the block
* `decode_append`: the decoder does not see what follows the block
-/

namespace Two.Hpack

open BitStream

variable {x y buf : Bytes} {n pos pointer : ℕ}

/-! ## Strings -/

theorem getD_take {i : ℕ} (h : i < n) : (buf.take n).getD i 0 = buf.getD i 0 := by
  rw [List.getD_eq_getElem?_getD, List.getD_eq_getElem?_getD, List.getElem?_take_of_lt h]

theorem bitAt_take {i : ℕ} (h : i < 8 * n) : bitAt (buf.take n) i = bitAt buf i := by
  rw [bitAt, bitAt, getD_take (by omega)]

/-- The bits of a string are read from its own bytes. -/
theorem readBitsFromBytes_take {k : ℕ} (h1 : 1 ≤ k) (h32 : k ≤ 32) (h : pos + k ≤ 8 * n) :
    readBitsFromBytes pos k (buf.take n) = readBitsFromBytes pos k buf := by
  have hread := spells_readBitsFromBytes buf pos h1 h32
  refine (spells_readBitsFromBytes (buf.take n) pos h1 h32).unique (hread.congr fun i _ hi => ?_)
  exact bitAt_take (by omega)

theorem checkEosSymbol_take {m : ℕ} (h : m ≤ n) :
    checkEosSymbol (buf.take n) m = checkEosSymbol buf m := by
  rw [checkEosSymbol, checkEosSymbol]
  rw [Bool.eq_iff_iff, List.any_eq_true, List.any_eq_true]
  refine exists_congr fun p => and_congr_right fun hp => ?_
  have hp := List.mem_range.mp hp
  rw [readBitsFromBytes_take (by decide) (by decide) (by omega)]

theorem checkHuffmanPadding_take (r : ℕ) (hn : 0 < n) :
    checkHuffmanPadding r (buf.take n) n = checkHuffmanPadding r buf n := by
  rw [checkHuffmanPadding, checkHuffmanPadding, getD_take (by omega)]

theorem decodeHuffmanWord_take (hn : 0 < n) (hpos : pos ≤ 8 * n) :
    decodeHuffmanWord (buf.take n) n pos = decodeHuffmanWord buf n pos := by
  simp only [decodeHuffmanWord, checkHuffmanPadding_take _ hn]
  split
  · have hleft : (8 * n + 256 - pos % 256) % 256 = 8 * n - pos := by omega
    simp only [hleft]
    split
    · rfl
    · rw [readBitsFromBytes_take (by omega) (by omega) (by omega)]
  · rw [readBitsFromBytes_take (by decide) (by decide) (by omega)]

theorem decodeHuffmanLoop_take {strLength fuel i : ℕ} :
    decodeHuffmanLoop strLength (buf.take n) n fuel i pos =
      decodeHuffmanLoop strLength buf n fuel i pos := by
  induction fuel generalizing i pos with
  | zero => rfl
  | succ fuel ih =>
    rw [decodeHuffmanLoop, decodeHuffmanLoop]
    by_cases hin : (pos - 1) / 8 < n
    · rw [if_pos hin, if_pos hin, decodeHuffmanWord_take (by omega) (by omega)]
      simp only [ih]
    · rw [if_neg hin, if_neg hin]

/-- **A string is decoded from its own bytes.** -/
theorem decodeString_take {strLength : ℕ} {huffmanBit : Bool} :
    decodeString strLength (buf.take n) n huffmanBit = decodeString strLength buf n huffmanBit := by
  rw [decodeString, decodeString]
  cases huffmanBit with
  | false => simp [decodeNonHuffmanString, List.take_take]
  | true => simp [decodeHuffmanString, decodeHuffmanLoop_take]

/-! ## Integers -/

theorem decodeIntegerTail_append {maximumInteger integer depth : ℕ}
    (h : ∃ b ∈ x, b.toNat < 128) :
    decodeIntegerTail maximumInteger (x ++ y) integer depth =
      decodeIntegerTail maximumInteger x integer depth := by
  induction x generalizing integer depth with
  | nil => simp at h
  | cons b x ih =>
    rw [List.cons_append, decodeIntegerTail, decodeIntegerTail]
    by_cases hb : b.toNat < 128
    · simp only [(and_128_eq_zero_iff b).mpr hb, if_true]
    · have htail := exists_lt_tail h hb
      simp only [if_neg (mt (and_128_eq_zero_iff b).mp hb), ih htail]

/-- A complete integer is read from its own bytes. -/
theorem decodeInteger_append {prefixSize : ℕ} (h : CompleteInteger prefixSize x)
    (h7 : prefixSize ≤ 7) : decodeInteger (x ++ y) prefixSize = decodeInteger x prefixSize := by
  obtain ⟨b, x, rfl⟩ := List.exists_cons_of_ne_nil h.1
  rw [decodeInteger_eq h7, decodeInteger_eq h7]
  have htail : HasTail prefixSize (b :: x ++ y) ↔ HasTail prefixSize (b :: x) := Iff.rfl
  by_cases hb : HasTail prefixSize (b :: x)
  · rw [if_pos (htail.mpr hb), if_pos hb]
    exact decodeIntegerTail_append (h.2 hb)
  · rw [if_neg (mt htail.mp hb), if_neg hb]
    rfl

/-! ## Representations -/

/-- A string literal that begins in the block `x` has its length there. -/
def CompleteStringAt (x : Bytes) (pointer : ℕ) : Prop :=
  pointer < x.length → CompleteInteger 7 (x.drop pointer)

instance (x : Bytes) (pointer : ℕ) : Decidable (CompleteStringAt x pointer) :=
  inferInstanceAs (Decidable (_ → _))

/-- The string literals of a representation with this index, from `pointer` on. -/
def CompleteStrings (x : Bytes) (index pointer : ℕ) : Prop :=
  CompleteStringAt x pointer ∧
    (index = 0 → ∀ r ∈ parseString x x.length pointer, CompleteStringAt x r.2.2.2)

instance (x : Bytes) (index pointer : ℕ) : Decidable (CompleteStrings x index pointer) :=
  inferInstanceAs (Decidable (_ ∧ (_ → _)))

/-- The integers of the representation at the beginning of `x` that begin in `x` also end in it. -/
def CompleteHeader (x : Bytes) : Prop :=
  CompleteInteger (findPrefixSize (getPreamble (x.getD 0 0))) x ∧
    (getPreamble (x.getD 0 0) ≠ .indexedHeaderField →
      getPreamble (x.getD 0 0) ≠ .dynamicTableSizeUpdate →
      0 ≤ decodeInteger x (findPrefixSize (getPreamble (x.getD 0 0))) →
      CompleteStrings x (decodeInteger x (findPrefixSize (getPreamble (x.getD 0 0)))).toNat
        (encodedIntegerSize
          (decodeInteger x (findPrefixSize (getPreamble (x.getD 0 0)))).toNat
          (findPrefixSize (getPreamble (x.getD 0 0)))))

instance (x : Bytes) : Decidable (CompleteHeader x) :=
  inferInstanceAs (Decidable (_ ∧ (_ → _ → _ → _)))

/-- Two strings of a representation with the same bytes, which are all there. -/
def SameString (n : ℕ) (s s' : Bytes) : Prop := s.take n = s'.take n

/-- Two results of `parseString` that differ only in what follows the string. -/
inductive SameParse : Option (Bool × ℕ × Bytes × ℕ) → Option (Bool × ℕ × Bytes × ℕ) → Prop
  | none : SameParse none none
  | some (bit n s s' pointer) (h : SameString n s s') :
    SameParse (some (bit, n, s, pointer)) (some (bit, n, s', pointer))

/-- Two representations that differ only in what follows their strings. -/
structure SameHeader (h h' : EncodedHeader) : Prop where
  preamble : h.preamble = h'.preamble
  index : h.index = h'.index
  size : h.dynamicTableSize = h'.dynamicTableSize
  nameLength : h.nameLength = h'.nameLength
  nameString : SameString h'.nameLength h.nameString h'.nameString
  nameBit : h.huffmanBitOfName = h'.huffmanBitOfName
  valueLength : h.valueLength = h'.valueLength
  valueString : SameString h'.valueLength h.valueString h'.valueString
  valueBit : h.huffmanBitOfValue = h'.huffmanBitOfValue

theorem one_le_encodedIntegerSize (num prefixSize : ℕ) : 1 ≤ encodedIntegerSize num prefixSize := by
  rw [encodedIntegerSize]
  split
  · omega
  · split <;> omega

/-- A string literal is parsed from the block, or ends behind it. -/
theorem parseString_append (h : CompleteStringAt x pointer) (hp : pointer ≤ x.length) :
    SameParse (parseString (x ++ y) x.length pointer) (parseString x x.length pointer) := by
  rcases Nat.lt_or_ge pointer x.length with hlt | hge
  -- the length is complete inside the block, so both reads decode the same one
  · have hc := h hlt
    have hdrop : (x ++ y).drop pointer = x.drop pointer ++ y := List.drop_append_of_le_length hp
    have hbit : (x.drop pointer ++ y).getD 0 0 = (x.drop pointer).getD 0 0 := by
      rw [List.getD_append _ _ _ _ (List.length_pos_iff.mpr hc.1)]
    simp only [parseString, hdrop, hbit, decodeInteger_append hc (by decide)]
    split
    · exact .none
    · split
      · exact .none
      · split
        · exact .none
        · refine .some _ _ _ _ _ ?_
          rw [SameString, List.drop_append_of_le_length (by omega), List.take_append_of_le_length]
          rw [List.length_drop]
          omega
  · -- the length is read behind the block, but no length makes the string end in it
    have hnone : ∀ z : Bytes, parseString z x.length pointer = none := by
      intro z
      have := one_le_encodedIntegerSize (decodeInteger (z.drop pointer) 7).toNat 7
      simp only [parseString]
      split
      · rfl
      · rw [if_pos (by omega)]
    rw [hnone, hnone]
    exact .none

/-- A string literal that is parsed has the length that was decoded, and ends in the block. -/
theorem parseString_eq_some {r : Bool × ℕ × Bytes × ℕ} {size : ℕ}
    (h : parseString x size pointer = some r) :
    (r.2.1 : ℤ) = decodeInteger (x.drop pointer) 7 ∧ r.2.2.2 ≤ size := by
  simp only [parseString] at h
  split at h
  · cases h
  · split at h
    · cases h
    · split at h
      · cases h
      · obtain rfl := Option.some.inj h
        simp only
        omega

theorem parseString_pointer_le {r : Bool × ℕ × Bytes × ℕ} {size : ℕ}
    (h : parseString x size pointer = some r) : r.2.2.2 ≤ size :=
  (parseString_eq_some h).2

/-- The rest of a literal representation, from `pointer` on. -/
def parseLiteral (headerBlock : Bytes) (headerSize : ℕ) (preamble : Preamble)
    (index pointer : ℕ) : Option (EncodedHeader × ℕ) :=
  if index = 0 then
    match parseString headerBlock headerSize pointer with
    | none => none
    | some (huffmanBitOfName, nameLength, nameString, pointer) =>
      match parseString headerBlock headerSize pointer with
      | none => none
      | some (huffmanBitOfValue, valueLength, valueString, pointer) =>
        some ({ preamble, index, nameLength, nameString, huffmanBitOfName, valueLength,
                valueString, huffmanBitOfValue }, pointer)
  else
    match parseString headerBlock headerSize pointer with
    | none => none
    | some (huffmanBitOfValue, valueLength, valueString, pointer) =>
      some ({ preamble, index, valueLength, valueString, huffmanBitOfValue }, pointer)

theorem parseEncodedHeader_eq (size : ℕ) : parseEncodedHeader x size =
    if decodeInteger x (findPrefixSize (getPreamble (x.getD 0 0))) < 0 then none
    else
      let preamble := getPreamble (x.getD 0 0)
      let index := (decodeInteger x (findPrefixSize preamble)).toNat
      let pointer := encodedIntegerSize index (findPrefixSize preamble)
      if preamble = .indexedHeaderField then some ({ preamble, index }, pointer)
      else if preamble = .dynamicTableSizeUpdate then
        some ({ preamble, dynamicTableSize := index % 2 ^ 16 }, pointer)
      else if pointer > size then none
      else parseLiteral x size preamble index pointer :=
  rfl

/-- Two results of the parser that differ only in what follows the strings. -/
inductive SameHeaders : Option (EncodedHeader × ℕ) → Option (EncodedHeader × ℕ) → Prop
  | none : SameHeaders none none
  | some (h h' : EncodedHeader) (bytesRead : ℕ) (hs : SameHeader h h') :
    SameHeaders (some (h, bytesRead)) (some (h', bytesRead))

theorem SameHeader.refl (h : EncodedHeader) : SameHeader h h :=
  ⟨rfl, rfl, rfl, rfl, rfl, rfl, rfl, rfl, rfl⟩

theorem parseLiteral_append {preamble : Preamble} {index : ℕ}
    (h : CompleteStrings x index pointer) (hp : pointer ≤ x.length) :
    SameHeaders (parseLiteral (x ++ y) x.length preamble index pointer)
      (parseLiteral x x.length preamble index pointer) := by
  have hfirst := parseString_append (y := y) h.1 hp
  have hsecond := h.2
  have hle : ∀ r, parseString x x.length pointer = some r → r.2.2.2 ≤ x.length :=
    fun r => parseString_pointer_le
  simp only [parseLiteral]
  generalize parseString (x ++ y) x.length pointer = r at *
  generalize parseString x x.length pointer = r' at *
  -- the name is a string of the block exactly where the index is zero
  split
  · cases hfirst with
    | none => exact .none
    | some bit n s s' pointer hs =>
      have hvalue := parseString_append (y := y) (hsecond ‹_› _ rfl) (hle _ rfl)
      simp only at hvalue ⊢
      generalize parseString (x ++ y) x.length pointer = r at *
      generalize parseString x x.length pointer = r' at *
      cases hvalue with
      | none => exact .none
      | some bit' n' t t' pointer' ht =>
        exact .some _ _ _ ⟨rfl, rfl, rfl, rfl, hs, rfl, rfl, ht, rfl⟩
  · cases hfirst with
    | none => exact .none
    | some bit n s s' pointer hs => exact .some _ _ _ ⟨rfl, rfl, rfl, rfl, rfl, rfl, rfl, hs, rfl⟩

/-- **A representation is parsed from the block**, if its integers end in it. -/
theorem parseEncodedHeader_append (h : CompleteHeader x) :
    SameHeaders (parseEncodedHeader (x ++ y) x.length) (parseEncodedHeader x x.length) := by
  have h7 : findPrefixSize (getPreamble (x.getD 0 0)) ≤ 7 := by
    cases getPreamble (x.getD 0 0) <;> decide
  have hhead : (x ++ y).getD 0 0 = x.getD 0 0 :=
    List.getD_append _ _ _ _ (List.length_pos_iff.mpr h.1.1)
  rw [parseEncodedHeader_eq, parseEncodedHeader_eq]
  simp only [hhead, decodeInteger_append h.1 h7]
  split
  · exact .none
  · split
    · exact .some _ _ _ (.refl _)
    · split
      · exact .some _ _ _ (.refl _)
      · split
        · exact .none
        · exact parseLiteral_append (h.2 ‹_› ‹_› (by omega)) (by omega)

/-! ## Decoding a representation -/

theorem SameString.checkEosSymbol {s s' : Bytes} {m : ℕ} (h : SameString n s s') (hm : m ≤ n) :
    checkEosSymbol s m = checkEosSymbol s' m := by
  rw [← checkEosSymbol_take hm, h, checkEosSymbol_take hm]

theorem SameString.decodeString {s s' : Bytes} {strLength : ℕ} {bit : Bool}
    (h : SameString n s s') : decodeString strLength s n bit = decodeString strLength s' n bit := by
  rw [← decodeString_take, h, decodeString_take]

theorem SameHeader.checkErrors {h h' : EncodedHeader} (hs : SameHeader h h') :
    checkErrors h = checkErrors h' := by
  simp only [Hpack.checkErrors, hs.preamble, hs.index, hs.size, hs.nameLength, hs.valueLength,
    hs.nameString.checkEosSymbol (Nat.mod_le _ _), hs.valueString.checkEosSymbol (Nat.mod_le _ _)]

theorem SameHeader.decodeHeader {h h' : EncodedHeader} (behind : Bytes × Bytes) (t : DynamicTable)
    (hs : SameHeader h h') : decodeHeader behind t h = decodeHeader behind t h' := by
  simp only [Hpack.decodeHeader, decodeLiteralHeaderField, hs.preamble, hs.index, hs.size,
    hs.nameLength, hs.nameBit, hs.valueLength, hs.valueBit, hs.nameString.decodeString,
    hs.valueString.decodeString]

/-! ## Decoding a block -/

/-- The variables of the loop of `hpack_decoder_decode`. -/
structure DecoderState where
  pointer : ℕ
  canReceiveSizeUpdate : Bool
  table : DynamicTable
  headers : HeaderList
  added : List Header

variable (behind : Behind)

/-- One round of the loop, after its representation is parsed. -/
def decodeParsed (s : DecoderState) : Option (EncodedHeader × ℕ) → DecodeResult ⊕ DecoderState
  | none => .inl ⟨compressionError, s.table, s.headers, s.added⟩
  | some (h, bytesRead) =>
    let isUpdate := h.preamble = .dynamicTableSizeUpdate
    if isUpdate ∧ s.canReceiveSizeUpdate = false then
      .inl ⟨compressionError, s.table, s.headers, s.added⟩
    else if checkErrors h then .inl ⟨compressionError, s.table, s.headers, s.added⟩
    else
      match decodeHeader (behind s.pointer) s.table h with
      | (t, .error rc) => .inl ⟨rc, t, s.headers, s.added⟩
      | (t, .ok (name, value)) =>
        if name ≠ [] ∧ value ≠ [] then
          match s.headers.add name value with
          | none => .inl ⟨-1, t, s.headers, s.added ++ [(name, value)]⟩
          | some headers => .inr ⟨s.pointer + bytesRead, s.canReceiveSizeUpdate && isUpdate, t,
              headers, s.added ++ [(name, value)]⟩
        else .inr ⟨s.pointer + bytesRead, s.canReceiveSizeUpdate && isUpdate, t, s.headers, s.added⟩

/-- The loop from a state of its variables on. -/
def DecoderState.loop (headerBlock : Bytes) (size fuel : ℕ) (s : DecoderState) : DecodeResult :=
  decodeLoop behind headerBlock size fuel s.pointer s.canReceiveSizeUpdate s.table s.headers
    s.added

theorem loop_succ (headerBlock : Bytes) (size fuel : ℕ) (s : DecoderState)
    (h : s.pointer < size) :
    s.loop behind headerBlock size (fuel + 1) =
      match decodeParsed behind s
          (parseEncodedHeader (headerBlock.drop s.pointer) (size - s.pointer)) with
      | .inl result => result
      | .inr s' => s'.loop behind headerBlock size fuel := by
  rw [DecoderState.loop, decodeLoop, if_pos h]
  rcases parseEncodedHeader (headerBlock.drop s.pointer) (size - s.pointer) with - | ⟨e, bytesRead⟩
  · rfl
  · simp only [decodeParsed]
    split
    · rfl
    · split
      · rfl
      · rcases decodeHeader (behind s.pointer) s.table e with ⟨t, rc | ⟨name, value⟩⟩
        · rfl
        · simp only
          split
          · cases s.headers.add name value <;> rfl
          · rfl

/-- In no round does the decoder come to an integer that begins in the block and does not end in
it. -/
def readsInside (block : Bytes) : ℕ → DecoderState → Bool
  | 0, _ => true
  | fuel + 1, s =>
    if s.pointer < block.length then
      decide (CompleteHeader (block.drop s.pointer)) &&
        match decodeParsed behind s
            (parseEncodedHeader (block.drop s.pointer) (block.length - s.pointer)) with
        | .inl _ => true
        | .inr s' => readsInside block fuel s'
    else true

theorem SameHeaders.decodeParsed {r r' : Option (EncodedHeader × ℕ)} (s : DecoderState)
    (h : SameHeaders r r') : decodeParsed behind s r = decodeParsed behind s r' := by
  cases h with
  | none => rfl
  | some e e' bytesRead hs =>
    simp only [Hpack.decodeParsed, hs.preamble, hs.checkErrors, hs.decodeHeader]

/-- **The decoder does not see what follows the block**, if every integer that begins in the block
ends in it. -/
theorem loop_append {fuel : ℕ} {s : DecoderState} (h : readsInside behind x fuel s = true) :
    s.loop behind (x ++ y) x.length fuel = s.loop behind x x.length fuel := by
  induction fuel generalizing s with
  | zero => rfl
  | succ fuel ih =>
    by_cases hlt : s.pointer < x.length
    · -- the two rounds parse the same representation
      have hround : Hpack.decodeParsed behind s
            (parseEncodedHeader ((x ++ y).drop s.pointer) (x.length - s.pointer)) =
          Hpack.decodeParsed behind s
            (parseEncodedHeader (x.drop s.pointer) (x.length - s.pointer)) := by
        rw [readsInside, if_pos hlt, Bool.and_eq_true, decide_eq_true_iff] at h
        rw [List.drop_append_of_le_length hlt.le, ← List.length_drop]
        exact (parseEncodedHeader_append h.1).decodeParsed behind s
      rw [readsInside, if_pos hlt, Bool.and_eq_true] at h
      rw [loop_succ _ _ _ _ _ hlt, loop_succ _ _ _ _ _ hlt, hround]
      have hrest := h.2
      cases hcase : Hpack.decodeParsed behind s
          (parseEncodedHeader (x.drop s.pointer) (x.length - s.pointer)) with
      | inl result => rfl
      | inr s' =>
        rw [hcase] at hrest
        exact ih hrest
    · simp only [DecoderState.loop, decodeLoop, if_neg hlt]

/-- The state in which the decoder begins. -/
def DecoderState.init (t : DynamicTable) (headers : HeaderList) : DecoderState :=
  ⟨0, true, t, headers, []⟩

/-- Every integer that the decoder comes to in the first `size` bytes of the memory, be it an index,
a table size or the length of a string, also ends in them. -/
def ReadsBlock (t : DynamicTable) (memory : Bytes) (size : ℕ) (headers : HeaderList) : Prop :=
  readsInside behind (memory.take size) (size + 1) (.init t headers) = true

instance (t : DynamicTable) (memory : Bytes) (size : ℕ) (headers : HeaderList) :
    Decidable (ReadsBlock behind t memory size headers) :=
  inferInstanceAs (Decidable (_ = _))

theorem decode_take {t : DynamicTable} {memory : Bytes} {size : ℕ} {headers : HeaderList}
    (hsize : size ≤ memory.length) (h : ReadsBlock behind t memory size headers) :
    decode behind t memory size headers = decode behind t (memory.take size) size headers := by
  have happend := loop_append behind (y := memory.drop size) h
  rw [List.take_append_drop, List.length_take_of_le hsize] at happend
  exact happend

/-- The table of a new connection. -/
def newTable : DynamicTable := DynamicTable.init ⟨0, 0, 0, 0, 0, 0, fun _ => 0⟩ 4096

end Two.Hpack
