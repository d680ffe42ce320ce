import Two.Hpack.StringCoding

/-!
# Header field representations

The encoder turns a header list into representations and these into bytes.

## Main definitions

* `Field`: a representation together with the header it stands for; `fieldBytes` its bytes
* `packHeaders t hs`: the fields the encoder emits for a header list, and the table it is left with

## Main results

* `packHeader_eq`: the choice of a representation
* `encode_writes`: `hpack_encode` writes the bytes of the fields
-/

namespace Two.Hpack

/-- A representation together with the header it stands for. -/
structure Field where
  packed : PackedHeader
  header : Header

/-- The bytes of a field. -/
def fieldBytes (f : Field) : Bytes :=
  mapHead (· ||| f.packed.preamble.toByte)
      (encodeInteger f.packed.index (findPrefixSize f.packed.preamble)).2 ++
    if f.packed.preamble = .indexedHeaderField then []
    else (if f.packed.index = 0 then stringBytes f.header.1 else []) ++ stringBytes f.header.2

/-- A field the encoder can emit: its index is small, only an indexed field must have one, and its
strings are printable and fit into the decoder's buffers. -/
structure Field.Valid (f : Field) : Prop where
  index_le : f.packed.index ≤ hpackMaximumInteger
  preamble : f.packed.preamble = .indexedHeaderField ∧ 0 < f.packed.index ∨
    f.packed.preamble = .literalHeaderFieldWithIncrementalIndexing ∨
    f.packed.preamble = .literalHeaderFieldNeverIndexed
  name_printable : ∀ b ∈ f.header.1, Printable b
  value_printable : ∀ b ∈ f.header.2, Printable b
  name_length : f.header.1.length < hpackHeaderNameLen
  value_length : f.header.2.length < hpackHeaderValueLen

theorem prefixSize_bounds (p : Preamble) : 1 ≤ findPrefixSize p ∧ findPrefixSize p ≤ 7 := by
  cases p <;> decide

/-- The preamble and the prefix of a first byte do not interfere. -/
theorem preamble_of_lt (p : Preamble) : ∀ n < 2 ^ findPrefixSize p,
    getPreamble (UInt8.ofNat n ||| p.toByte) = p ∧
      (UInt8.ofNat n ||| p.toByte).toNat % 2 ^ findPrefixSize p = n := by
  cases p <;> decide +kernel

theorem preamble_prefix (p : Preamble) {b : UInt8} (h : b.toNat < 2 ^ findPrefixSize p) :
    getPreamble (b ||| p.toByte) = p ∧ (b ||| p.toByte).toNat % 2 ^ findPrefixSize p = b.toNat := by
  have := preamble_of_lt p b.toNat h
  rwa [UInt8.ofNat_toNat] at this

theorem encodeInteger_zero (p : Preamble) : encodeInteger 0 (findPrefixSize p) = (1, [0]) := by
  cases p <;> decide

/-! ## Encoding -/

variable {f : Field} {bufferSize : ℕ}

/-- The encoder writes the bytes of a field at its position. -/
theorem encodeHeader_writes (hf : f.Valid) (hN : (fieldBytes f).length < bufferSize)
    (o : OutBuffer) (pos : ℤ) :
    ∃ o', encodeHeader f.packed f.header.1 f.header.2 o pos bufferSize =
        (((fieldBytes f).length : ℤ), o') ∧ o.Writes o' pos (fieldBytes f) := by
  have hname := hf.name_length
  have hvalue := hf.value_length
  have hmax : hpackMaximumInteger = 4096 := rfl
  have h32 : hpackHeaderNameLen = 32 := rfl
  have h64 : hpackHeaderValueLen = 64 := rfl
  have hzero := OutBuffer.writes_store o pos [0]
  rw [encodeHeader]
  by_cases hi : f.packed.index = 0
  · -- both strings are literal
    have hnot : f.packed.preamble ≠ .indexedHeaderField := by
      intro h
      rcases hf.preamble with h' | h' | h'
      · omega
      · rw [h] at h'; exact absurd h' (by decide)
      · rw [h] at h'; exact absurd h' (by decide)
    have hbytes : fieldBytes f = (0 ||| f.packed.preamble.toByte) ::
        (stringBytes f.header.1 ++ stringBytes f.header.2) := by
      rw [fieldBytes, hi, encodeInteger_zero, mapHead, if_neg hnot, if_pos rfl,
        List.singleton_append]
    rw [hbytes] at hN ⊢
    simp only [List.length_cons, List.length_append] at hN
    have hN₁ : (stringBytes f.header.1).length < bufferSize := by omega
    have hN₂ : (stringBytes f.header.2).length < bufferSize := by omega
    obtain ⟨o₁, he₁, hw₁⟩ := encodeString_writes (by omega) hN₁ (o.store pos [0]) (pos + 1)
    obtain ⟨o₂, he₂, hw₂⟩ := encodeString_writes (by omega) hN₂ o₁
      (pos + 1 + (stringBytes f.header.1).length)
    have hw : o.Writes o₂ pos (0 :: (stringBytes f.header.1 ++ stringBytes f.header.2)) :=
      hzero.append (hw₁.append hw₂)
    simp only [if_pos hi, he₁, he₂]
    rw [if_neg (by omega), if_neg (by omega)]
    refine ⟨_, Prod.ext ?_ rfl, ?_⟩
    · simp only [List.length_cons, List.length_append]
      omega
    · rw [hw.cell_head]
      exact hw.store_head _
  -- the index is written over the zero byte, and its first byte gets the preamble
  · obtain ⟨b, bs, he, -, -⟩ := exists_encodeInteger_eq
      ((prefixSize_bounds f.packed.preamble).2.trans (by decide)) hf.index_le
    have hbytes : fieldBytes f = (b ||| f.packed.preamble.toByte) :: bs ++
        if f.packed.preamble = .indexedHeaderField then [] else stringBytes f.header.2 := by
      rw [fieldBytes, he, mapHead, if_neg hi, List.nil_append]
    rw [hbytes] at hN ⊢
    simp only [if_neg hi, he]
    rw [if_neg (by omega)]
    have hindex := hzero.overwrite (OutBuffer.writes_store _ pos (b :: bs))
    -- an indexed field ends here, a literal one has its value behind the index
    by_cases hp : f.packed.preamble = .indexedHeaderField
    · simp only [hp, ne_eq, not_true_eq_false, if_false, if_true, List.append_nil] at hN ⊢
      refine ⟨_, Prod.ext ?_ rfl, ?_⟩
      · simp only [List.length_cons]
      · rw [hindex.cell_head]
        exact hindex.store_head _
    · simp only [if_neg hp] at hN ⊢
      simp only [List.length_append, List.length_cons] at hN
      have hN₂ : (stringBytes f.header.2).length < bufferSize := by omega
      obtain ⟨o₁, he₁, hw₁⟩ := encodeString_writes (by omega) hN₂
        ((o.store pos [0]).store pos (b :: bs)) (pos + (bs.length + 1 : ℕ))
      have hw : o.Writes o₁ pos (b :: bs ++ stringBytes f.header.2) := hindex.append hw₁
      simp only [ne_eq, hp, not_false_eq_true, if_true, he₁]
      rw [if_neg (by omega)]
      refine ⟨_, Prod.ext ?_ rfl, ?_⟩
      · simp only [List.length_append, List.length_cons]
        omega
      · rw [List.cons_append] at hw
        rw [hw.cell_head]
        exact hw.store_head _

/-- The fields the encoder emits for a list of headers, and the table it is left with. -/
def packHeaders (t : DynamicTable) : List Header → List Field × DynamicTable
  | [] => ([], t)
  | h :: hs =>
    let (p, t) := packHeader t h.1 h.2
    let (fs, t) := packHeaders t hs
    (⟨p, h⟩ :: fs, t)

@[simp] theorem packHeaders_nil (t : DynamicTable) : packHeaders t [] = ([], t) := rfl

theorem packHeaders_cons (t : DynamicTable) (h : Header) (hs : List Header) :
    packHeaders t (h :: hs) =
      (⟨(packHeader t h.1 h.2).1, h⟩ :: (packHeaders (packHeader t h.1 h.2).2 hs).1,
        (packHeaders (packHeader t h.1 h.2).2 hs).2) := rfl

/-- The bytes of a list of fields. -/
def blockBytes (fs : List Field) : Bytes := fs.flatMap fieldBytes

@[simp] theorem blockBytes_nil : blockBytes [] = [] := rfl

@[simp] theorem blockBytes_cons (f : Field) (fs : List Field) :
    blockBytes (f :: fs) = fieldBytes f ++ blockBytes fs := rfl

/-- A header the codec is made for. -/
structure Codable (h : Header) : Prop where
  name_ne_nil : h.1 ≠ []
  value_ne_nil : h.2 ≠ []
  name_printable : ∀ b ∈ h.1, Printable b
  value_printable : ∀ b ∈ h.2, Printable b
  name_length : h.1.length < hpackHeaderNameLen
  value_length : h.2.length < hpackHeaderValueLen

theorem Codable.storable {h : Header} (hh : Codable h) : HeaderList.Storable h :=
  ⟨hh.name_ne_nil, Printable.nulFree hh.name_printable, Printable.nulFree hh.value_printable⟩

section Search

variable (t : DynamicTable)

/-- The counter of strings is 8-bit, so an index found in the dynamic table is at most 188. -/
theorem searchLoop_le (hit : ℕ → Bool) :
    ∀ (fuel i counter : ℕ), counter < 256 → t.searchLoop hit fuel i counter ≤ 188 := by
  intro fuel
  induction fuel with
  | zero => intro _ _ _; exact (by decide : internalError ≤ 188)
  | succ fuel ih =>
    intro i counter hc
    have hlt : (if t.back i = 0 then (counter + 1) % 2 ^ 8 else counter) < 256 := by
      split <;> omega
    simp only [DynamicTable.searchLoop]
    generalize (if t.back i = 0 then (counter + 1) % 2 ^ 8 else counter) = c at hlt
    split
    · omega
    · split
      · exact (by decide : internalError ≤ 188)
      · exact ih _ _ hlt

theorem findIndex_le (name value : Bytes) : findIndex t name value ≤ 188 := by
  rw [findIndex]
  split
  · next i h =>
    have := List.mem_range.mp (List.mem_of_find?_eq_some h)
    omega
  · exact searchLoop_le t _ _ _ _ (by decide)

theorem findIndexName_le (name : Bytes) : findIndexName t name ≤ 188 := by
  rw [findIndexName]
  split
  · next i h =>
    have := List.mem_range.mp (List.mem_of_find?_eq_some h)
    omega
  · exact searchLoop_le t _ _ _ _ (by decide)

/-- The encoder's choice for a header: an index for the whole header, or one for its name (zero when
there is none) and an addition to the table. -/
theorem packHeader_eq (name value : Bytes) :
    packHeader t name value =
      if 0 < findIndex t name value then
        (⟨.indexedHeaderField, (findIndex t name value).toNat⟩, t)
      else
        (⟨if (t.addEntry name value).2 < 0 then .literalHeaderFieldNeverIndexed
          else .literalHeaderFieldWithIncrementalIndexing, (findIndexName t name).toNat⟩,
        (t.addEntry name value).1) := by
  rw [packHeader]
  by_cases h : 0 < findIndex t name value
  · rw [if_pos h, if_pos h]
  · rw [if_neg h, if_neg h]
    have hindex : (if findIndexName t name < 0 then 0 else (findIndexName t name).toNat) =
        (findIndexName t name).toNat := by split <;> omega
    simp only [hindex]
    by_cases ha : (t.addEntry name value).2 < 0
    · rw [if_pos ha, if_pos ha]
    · rw [if_neg ha, if_neg ha]

/-- The encoder emits valid fields. -/
theorem packHeader_valid {h : Header} (hh : Codable h) :
    Field.Valid ⟨(packHeader t h.1 h.2).1, h⟩ := by
  have h1 := findIndex_le t h.1 h.2
  have h2 := findIndexName_le t h.1
  have hmax : hpackMaximumInteger = 4096 := rfl
  refine ⟨?_, ?_, hh.name_printable, hh.value_printable, hh.name_length, hh.value_length⟩
  · rw [packHeader_eq]
    by_cases h : 0 < findIndex t h.1 h.2
    · simp only [if_pos h]; omega
    · simp only [if_neg h]; omega
  · rw [packHeader_eq]
    by_cases h : 0 < findIndex t h.1 h.2
    · simp only [if_pos h, Int.lt_toNat]
      exact Or.inl ⟨trivial, h⟩
    · simp only [if_neg h]
      split <;> simp

end Search

/-- The loop of the encoder writes the bytes of the fields one after the other. -/
theorem encodeLoop_writes :
    ∀ (hs : List Header) (t : DynamicTable) (o : OutBuffer) (pointer : ℕ), (∀ h ∈ hs, Codable h) →
      (blockBytes (packHeaders t hs).1).length < bufferSize →
      pointer + (blockBytes (packHeaders t hs).1).length < 256 →
      ∃ o', encodeLoop bufferSize hs t o pointer =
          some (((pointer + (blockBytes (packHeaders t hs).1).length : ℕ) : ℤ),
            (packHeaders t hs).2, o') ∧
        o.Writes o' pointer (blockBytes (packHeaders t hs).1) := by
  intro hs
  induction hs with
  | nil =>
    intro t o pointer _ _ _
    exact ⟨o, by simp [encodeLoop, packHeaders], ⟨fun _ _ => rfl, by simp [packHeaders]⟩⟩
  | cons h hs ih =>
    intro t o pointer hhs hN h256
    rw [packHeaders_cons, blockBytes_cons] at hN h256 ⊢
    rw [List.length_append] at hN h256
    have hN₁ : (fieldBytes ⟨(packHeader t h.1 h.2).1, h⟩).length < bufferSize := by omega
    obtain ⟨o₁, he₁, hw₁⟩ := encodeHeader_writes (packHeader_valid t (hhs h List.mem_cons_self))
      hN₁ o pointer
    obtain ⟨o₂, he₂, hw₂⟩ := ih (packHeader t h.1 h.2).2 o₁
      (pointer + (fieldBytes ⟨(packHeader t h.1 h.2).1, h⟩).length)
      (fun k hk => hhs k (List.mem_cons_of_mem _ hk)) (by omega) (by omega)
    -- the fields that follow are stored behind this one, which they leave alone
    refine ⟨o₂, ?_, hw₁.append (by rw [Nat.cast_add] at hw₂; exact hw₂)⟩
    have hstep : encodeLoop bufferSize (h :: hs) t o pointer =
        if (encodeHeader (packHeader t h.1 h.2).1 h.1 h.2 o pointer bufferSize).1 + pointer ≥ 256
        then none
        else encodeLoop bufferSize hs (packHeader t h.1 h.2).2
          (encodeHeader (packHeader t h.1 h.2).1 h.1 h.2 o pointer bufferSize).2
          (pointer + (encodeHeader (packHeader t h.1 h.2).1 h.1 h.2 o pointer bufferSize).1) := rfl
    rw [hstep, he₁, if_neg (by omega), ← Nat.cast_add, he₂, List.length_append,
      Nat.add_assoc]

/-- **`hpack_encode` writes the bytes of the fields**, when these are shorter than the buffer and
than 256. -/
theorem encode_writes {l : HeaderList} {hs : List Header} (t : DynamicTable) (hl : l.Holds hs)
    (hhs : ∀ h ∈ hs, Codable h) (o : OutBuffer)
    (hN : (blockBytes (packHeaders t hs).1).length < bufferSize)
    (h256 : (blockBytes (packHeaders t hs).1).length < 256) :
    ∃ o', encode t l o bufferSize =
        some (((blockBytes (packHeaders t hs).1).length : ℤ), (packHeaders t hs).2, o') ∧
      o'.bytes (blockBytes (packHeaders t hs).1).length = blockBytes (packHeaders t hs).1 := by
  obtain ⟨o', he, hw⟩ := encodeLoop_writes hs t o 0 hhs hN (by omega)
  refine ⟨o', ?_, hw.bytes_eq⟩
  rw [encode, HeaderList.all_records hl.buffer fun h hh => (hhs h hh).storable, hl.count,
    Int.toNat_natCast, List.take_length]
  simpa using he

end Two.Hpack
