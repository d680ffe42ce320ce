import Two.Hpack.Representation

/-!
# The codec

The decoder undoes the bytes of a field exactly. What a field means to the decoder depends on its
own table, so a header list comes back precisely when every field means its header there.

## Main definitions

* `applyField d f`: the effect of a field on the decoder's table `d`
* `Means d fs`: every field means its header to a decoder with table `d`
* `applyFields d fs`: the decoder's table after the fields

## Main results

* `decodeLoop_field`: one round of `hpack_decode` is `applyField`
* `decode_fields`: the headers come back when `Means` holds
* `means_of_decode_fields`: the headers come back only when `Means` holds
-/

namespace Two.Hpack

variable {f : Field} {fs : List Field}

/-! ## Parsing a field -/

/-- What the parser makes of a field. -/
structure Parses (f : Field) (h : EncodedHeader) : Prop where
  preamble : h.preamble = f.packed.preamble
  index : h.index = f.packed.index
  name : f.packed.preamble ≠ .indexedHeaderField → f.packed.index = 0 →
    Reads hpackHeaderNameLen f.header.1 h.huffmanBitOfName h.nameLength h.nameString
  value : f.packed.preamble ≠ .indexedHeaderField →
    Reads hpackHeaderValueLen f.header.2 h.huffmanBitOfValue h.valueLength h.valueString

theorem Field.Valid.not_update (hf : f.Valid) : f.packed.preamble ≠ .dynamicTableSizeUpdate := by
  intro h
  rcases hf.preamble with ⟨h', -⟩ | h' | h'
  all_goals rw [h] at h'; exact absurd h' (by decide)

/-- The bytes of the index, with the preamble in the first one. -/
def prefixBytes (f : Field) : Bytes :=
  mapHead (· ||| f.packed.preamble.toByte)
    (encodeInteger f.packed.index (findPrefixSize f.packed.preamble)).2

/-- The parser reads the preamble and the index, and goes on behind them. -/
theorem parseEncodedHeader_head (hf : f.Valid) (size : ℕ) (rest : Bytes) :
    parseEncodedHeader (prefixBytes f ++ rest) size =
      if f.packed.preamble = .indexedHeaderField then
        some ({ preamble := f.packed.preamble, index := f.packed.index }, (prefixBytes f).length)
      else if (prefixBytes f).length > size then none
      else if f.packed.index = 0 then
        match parseString (prefixBytes f ++ rest) size (prefixBytes f).length with
        | none => none
        | some (huffmanBitOfName, nameLength, nameString, pointer) =>
          match parseString (prefixBytes f ++ rest) size pointer with
          | none => none
          | some (huffmanBitOfValue, valueLength, valueString, pointer) =>
            some ({ preamble := f.packed.preamble, index := f.packed.index, nameLength, nameString,
                    huffmanBitOfName, valueLength, valueString, huffmanBitOfValue }, pointer)
      else
        match parseString (prefixBytes f ++ rest) size (prefixBytes f).length with
        | none => none
        | some (huffmanBitOfValue, valueLength, valueString, pointer) =>
          some ({ preamble := f.packed.preamble, index := f.packed.index, valueLength, valueString,
                  huffmanBitOfValue }, pointer) := by
  obtain ⟨hp1, hp7⟩ := prefixSize_bounds f.packed.preamble
  -- the preamble sits in the bits that the integer leaves free in its first byte
  obtain ⟨b, bs, he, hes, hb⟩ := exists_encodeInteger_eq (hp7.trans (by decide)) hf.index_le
  obtain ⟨hpre, hmod⟩ := preamble_prefix f.packed.preamble hb
  have hint := decodeInteger_encode hp1 (hp7.trans (by decide)) hf.index_le (by rw [he]) hmod rest
  have hbytes : prefixBytes f = (b ||| f.packed.preamble.toByte) :: bs := by
    rw [prefixBytes, he, mapHead]
  rw [hbytes, parseEncodedHeader]
  simp only [List.cons_append, List.getD_cons_zero, hpre, hint, Int.toNat_natCast, hes,
    List.length_cons]
  rw [if_neg (show ¬ (f.packed.index : ℤ) < 0 by omega)]
  by_cases hp : f.packed.preamble = .indexedHeaderField
  · rw [if_pos hp, if_pos hp]
  · rw [if_neg hp, if_neg hp]
    exact if_neg hf.not_update

/-- The parser recovers a field and its length from its bytes. -/
theorem parseEncodedHeader_field (hf : f.Valid) (size : ℕ) (rest : Bytes)
    (hsize : (fieldBytes f).length ≤ size) :
    ∃ h, parseEncodedHeader (fieldBytes f ++ rest) size = some (h, (fieldBytes f).length) ∧
      Parses f h := by
  have hstr : hpackHeaderNameLen < 256 ∧ hpackHeaderValueLen < 256 := by decide
  have hname := Nat.le_of_lt hf.name_length
  have hvalue := Nat.le_of_lt hf.value_length
  -- an indexed field is its prefix; a literal one has one or two strings behind it
  by_cases hp : f.packed.preamble = .indexedHeaderField
  · have hbytes : fieldBytes f = prefixBytes f := by
      rw [fieldBytes, if_pos hp, List.append_nil, prefixBytes]
    refine ⟨{ preamble := f.packed.preamble, index := f.packed.index }, ?_,
      ⟨rfl, rfl, fun h => absurd hp h, fun h => absurd hp h⟩⟩
    rw [hbytes, parseEncodedHeader_head hf, if_pos hp]
  · by_cases hi : f.packed.index = 0
    · have hbytes : fieldBytes f ++ rest =
          prefixBytes f ++ (stringBytes f.header.1 ++ (stringBytes f.header.2 ++ rest)) := by
        rw [fieldBytes, if_neg hp, if_pos hi, prefixBytes, List.append_assoc, List.append_assoc]
      have hlen : (fieldBytes f).length = (prefixBytes f).length +
          (stringBytes f.header.1).length + (stringBytes f.header.2).length := by
        have := congrArg List.length hbytes
        simp only [List.length_append] at this
        omega
      have hdrop₁ : (fieldBytes f ++ rest).drop (prefixBytes f).length =
          stringBytes f.header.1 ++ (stringBytes f.header.2 ++ rest) := by
        rw [hbytes]
        exact List.drop_left' rfl
      have hdrop₂ : (fieldBytes f ++ rest).drop
          ((prefixBytes f).length + (stringBytes f.header.1).length) =
            stringBytes f.header.2 ++ rest := by
        rw [← List.drop_drop, hdrop₁]
        exact List.drop_left' rfl
      have hend₁ : (prefixBytes f).length + (stringBytes f.header.1).length ≤ size := by omega
      have hend₂ : (prefixBytes f).length + (stringBytes f.header.1).length +
          (stringBytes f.header.2).length ≤ size := by omega
      -- both strings are read from what is left
      obtain ⟨bit₁, n₁, region₁, hparse₁, hread₁⟩ := parseString_stringBytes
        hf.name_printable hname hstr.1 hdrop₁ hend₁
      obtain ⟨bit₂, n₂, region₂, hparse₂, hread₂⟩ := parseString_stringBytes
        hf.value_printable hvalue hstr.2 hdrop₂ hend₂
      refine ⟨{ preamble := f.packed.preamble, index := f.packed.index, nameLength := n₁,
                nameString := region₁, huffmanBitOfName := bit₁, valueLength := n₂,
                valueString := region₂, huffmanBitOfValue := bit₂ }, ?_,
        ⟨rfl, rfl, fun _ _ => hread₁, fun _ => hread₂⟩⟩
      rw [hlen]
      rw [hbytes] at hparse₁ hparse₂ ⊢
      rw [parseEncodedHeader_head hf, if_neg hp, if_neg (by omega), if_pos hi, hparse₁]
      simp only [hparse₂]
    · have hbytes : fieldBytes f ++ rest = prefixBytes f ++ (stringBytes f.header.2 ++ rest) := by
        rw [fieldBytes, if_neg hp, if_neg hi, List.nil_append, prefixBytes, List.append_assoc]
      have hlen : (fieldBytes f).length =
          (prefixBytes f).length + (stringBytes f.header.2).length := by
        have := congrArg List.length hbytes
        simp only [List.length_append] at this
        omega
      have hdrop : (fieldBytes f ++ rest).drop (prefixBytes f).length =
          stringBytes f.header.2 ++ rest := by
        rw [hbytes]
        exact List.drop_left' rfl
      have hend : (prefixBytes f).length + (stringBytes f.header.2).length ≤ size := by omega
      -- only the value is read, the name is that of the entry
      obtain ⟨bit, n, region, hparse, hread⟩ := parseString_stringBytes
        hf.value_printable hvalue hstr.2 hdrop hend
      refine ⟨{ preamble := f.packed.preamble, index := f.packed.index, valueLength := n,
                valueString := region, huffmanBitOfValue := bit }, ?_,
        ⟨rfl, rfl, fun _ h => absurd h hi, fun _ => hread⟩⟩
      rw [hlen]
      rw [hbytes] at hparse ⊢
      rw [parseEncodedHeader_head hf, if_neg hp, if_neg (by omega), if_neg hi, hparse]

/-! ## Decoding a field -/

/-- The effect of a field on a decoder with table `d`: the table after it, and the header it means
or the error. -/
def applyField (d : DynamicTable) (f : Field) : DynamicTable × Except ℤ Header :=
  if f.packed.preamble = .indexedHeaderField then (d, findEntryNameAndValue d f.packed.index)
  else
    match if f.packed.index = 0 then .ok f.header.1 else findEntryName d f.packed.index with
    | .error rc => (d, .error rc)
    | .ok name =>
      if f.packed.preamble = .literalHeaderFieldWithIncrementalIndexing then
        let (d, rc) := d.addEntry name f.header.2
        if rc < 0 then (d, .error rc) else (d, .ok (name, f.header.2))
      else (d, .ok (name, f.header.2))

/-- A string literal that ends in its buffer is read back as it is. -/
theorem Reads.bufferString_eq {strLength n : ℕ} {s region : Bytes} {bit : Bool}
    (h : Reads strLength s bit n region) (hs : ∀ b ∈ s, Printable b) (hlt : s.length < strLength) :
    ∃ rc, 0 ≤ rc ∧ decodeString strLength region n bit = (rc, s) ∧
      ∀ behind, bufferString strLength behind s = s := by
  obtain ⟨rc, hrc, heq⟩ := h.decoded
  refine ⟨rc, hrc, heq, fun behind => ?_⟩
  rw [Hpack.bufferString_eq (.inl hlt), cstr_of_nulFree (Printable.nulFree hs)]

/-- A parsed field passes the checks. -/
theorem Parses.checkErrors_eq {h : EncodedHeader} (hp : Parses f h) (hf : f.Valid) :
    checkErrors h = false := by
  rw [checkErrors, hp.preamble, hp.index]
  by_cases hi : f.packed.preamble = .indexedHeaderField
  · rw [if_pos hi, decide_eq_false_iff_not]
    rcases hf.preamble with ⟨-, h⟩ | h | h
    · omega
    all_goals rw [hi] at h; exact absurd h (by decide)
  · rw [if_neg hi, if_neg hf.not_update, decide_eq_false_iff_not]
    rintro (⟨h0, -, h⟩ | ⟨-, h⟩)
    · rw [(hp.name hi h0).noEos] at h
      exact absurd h (by decide)
    · rw [(hp.value hi).noEos] at h
      exact absurd h (by decide)

/-- Decoding a parsed field is `applyField`. -/
theorem Parses.decodeHeader_eq {h : EncodedHeader} (hp : Parses f h) (hf : f.Valid)
    (behind : Bytes × Bytes) (d : DynamicTable) : decodeHeader behind d h = applyField d f := by
  rw [decodeHeader, applyField, hp.preamble, hp.index]
  by_cases hi : f.packed.preamble = .indexedHeaderField
  · rw [if_pos hi, if_pos hi]
  · rw [if_neg hi, if_neg hi, if_neg hf.not_update, decodeLiteralHeaderField, hp.preamble, hp.index]
    obtain ⟨rc, hrc, hvalue, hread⟩ :=
      (hp.value hi).bufferString_eq hf.value_printable hf.value_length
    by_cases h0 : f.packed.index = 0
    · obtain ⟨rc', hrc', hname, hread'⟩ :=
        (hp.name hi h0).bufferString_eq hf.name_printable hf.name_length
      simp only [if_pos h0, hname, if_neg (Int.not_lt.mpr hrc'), hread', hvalue,
        if_neg (Int.not_lt.mpr hrc), hread]
    · cases findEntryName d f.packed.index with
      | error rc' => simp only [if_neg h0]
      | ok name => simp only [if_neg h0, hvalue, if_neg (Int.not_lt.mpr hrc), hread]

theorem length_fieldBytes_pos (hf : f.Valid) : 0 < (fieldBytes f).length := by
  obtain ⟨b, bs, he, -, -⟩ := exists_encodeInteger_eq
    ((prefixSize_bounds f.packed.preamble).2.trans (by decide)) hf.index_le
  rw [fieldBytes, he, mapHead, List.length_append, List.length_cons]
  omega

variable (behind : Behind)

/-- **One round of the decoder** reads one field and does what `applyField` says. -/
theorem decodeLoop_field (hf : f.Valid) {block rest : Bytes} (size : ℕ) {pointer : ℕ}
    (hblock : block.drop pointer = fieldBytes f ++ rest)
    (hsize : pointer + (fieldBytes f).length ≤ size) (fuel : ℕ) (c : Bool) (d : DynamicTable)
    (headers : HeaderList) (added : List Header) :
    decodeLoop behind block size (fuel + 1) pointer c d headers added =
      match applyField d f with
      | (d, .error rc) => ⟨rc, d, headers, added⟩
      | (d, .ok (name, value)) =>
        if name ≠ [] ∧ value ≠ [] then
          match headers.add name value with
          | none => ⟨-1, d, headers, added ++ [(name, value)]⟩
          | some headers =>
            decodeLoop behind block size fuel (pointer + (fieldBytes f).length) false d headers
              (added ++ [(name, value)])
        else
          decodeLoop behind block size fuel (pointer + (fieldBytes f).length) false d headers
            added := by
  obtain ⟨h, hparse, hp⟩ := parseEncodedHeader_field hf (size - pointer) rest (by omega)
  have hpos := length_fieldBytes_pos hf
  have hupdate : ¬ h.preamble = .dynamicTableSizeUpdate := by
    rw [hp.preamble]
    exact hf.not_update
  rw [← hp.decodeHeader_eq hf (behind pointer), decodeLoop, if_pos (by omega), hblock, hparse]
  -- the two sides agree once the outcomes of the field and of the list are known
  rcases hdec : decodeHeader (behind pointer) d h with ⟨d', rc | ⟨name, value⟩⟩
  · simp only [hupdate, false_and, if_false, hp.checkErrors_eq hf, Bool.false_eq_true, hdec]
  · cases hadd : headers.add name value
    all_goals
      simp only [hupdate, false_and, if_false, hp.checkErrors_eq hf, Bool.false_eq_true,
        decide_false, Bool.and_false, hdec, hadd]

/-! ## Decoding a block -/

/-- Every field means its header to a decoder with table `d`. -/
def Means (d : DynamicTable) : List Field → Prop
  | [] => True
  | f :: fs => (applyField d f).2 = .ok f.header ∧ Means (applyField d f).1 fs

/-- The decoder's table after the fields. -/
def applyFields (d : DynamicTable) (fs : List Field) : DynamicTable :=
  fs.foldl (fun d f => (applyField d f).1) d

/-- The decoder only ever adds to the headers added so far. -/
theorem decodeLoop_added_prefix (block : Bytes) (size : ℕ) :
    ∀ (fuel pointer : ℕ) (c : Bool) (d : DynamicTable) (headers : HeaderList) (added : List Header),
      added <+: (decodeLoop behind block size fuel pointer c d headers added).added := by
  intro fuel
  induction fuel with
  | zero => intros; exact List.prefix_rfl
  | succ fuel ih =>
    intro pointer c d headers added
    simp only [decodeLoop]
    repeat' split
    all_goals first
      | exact List.prefix_rfl
      | exact List.prefix_append _ _
      | exact ih ..
      | exact (List.prefix_append _ _).trans (ih ..)

/-- At the end of the block the decoder returns. -/
theorem decodeLoop_end (block : Bytes) (size fuel : ℕ) (c : Bool) (d : DynamicTable)
    (headers : HeaderList) (added : List Header) :
    decodeLoop behind block size fuel size c d headers added = ⟨size, d, headers, added⟩ := by
  cases fuel with
  | zero => rfl
  | succ fuel => rw [decodeLoop, if_neg (by omega), if_neg (by omega)]

/-- The part of the block behind the first field. -/
theorem drop_field {block : Bytes} {pointer : ℕ}
    (h : block.drop pointer = blockBytes (f :: fs)) :
    block.drop (pointer + (fieldBytes f).length) = blockBytes fs := by
  rw [← List.drop_drop, h, blockBytes_cons]
  exact List.drop_left' rfl

/-- The headers come back when every field means its header. The headers decoded so far are packed
in the list, and those to come fit beside them. -/
theorem decodeLoop_fields (block : Bytes) (size : ℕ) :
    ∀ (fs : List Field) (fuel pointer : ℕ) (c : Bool) (d : DynamicTable) (headers : HeaderList)
      (added ks : List Header), (∀ f ∈ fs, f.Valid) → (∀ f ∈ fs, Codable f.header) →
      block.drop pointer = blockBytes fs → pointer + (blockBytes fs).length = size →
      fs.length < fuel → headers.buffer = HeaderList.records ks →
      (∀ k ∈ ks, HeaderList.Storable k) →
      HeaderList.packedSize ks + HeaderList.packedSize (fs.map Field.header) ≤ headerListMaxSize →
      Means d fs →
      (decodeLoop behind block size fuel pointer c d headers added).rc = size ∧
        (decodeLoop behind block size fuel pointer c d headers added).table = applyFields d fs ∧
        (decodeLoop behind block size fuel pointer c d headers added).added =
          added ++ fs.map Field.header := by
  intro fs
  induction fs with
  | nil =>
    intro fuel pointer c d headers added ks _ _ _ hsize _ _ _ _ _
    obtain rfl : pointer = size := by simpa using hsize
    rw [decodeLoop_end]
    simp [applyFields]
  | cons f fs ih =>
    intro fuel pointer c d headers added ks hvalid hcod hblock hsize hfuel hbuf hst hfit hmeans
    obtain ⟨fuel, rfl⟩ : ∃ n, fuel = n + 1 := ⟨fuel - 1, by omega⟩
    rw [blockBytes_cons, List.length_append] at hsize
    have hf := hcod f List.mem_cons_self
    have hsum : HeaderList.packedSize ((f :: fs).map Field.header) =
        (HeaderList.packed f.header).length + HeaderList.packedSize (fs.map Field.header) := by
      simp [HeaderList.packedSize]
    rw [hsum] at hfit
    -- one round: the field is added to the list and the pointer passes its bytes
    have hfit' := HeaderList.packedSize_addTo_le ks hf.name_ne_nil
    obtain ⟨headers', hadd, hbuf'⟩ := HeaderList.add_records (h := f.header) hbuf hst (by omega)
    have hst' := HeaderList.storable_addTo hst hf.storable
    have hstep := decodeLoop_field behind (hvalid f List.mem_cons_self) size hblock (by omega)
      fuel c d headers added
    rw [show applyField d f = ((applyField d f).1, .ok f.header) from Prod.ext rfl hmeans.1] at hstep
    simp only [ne_eq, hf.name_ne_nil, hf.value_ne_nil, not_false_eq_true, and_self, if_true, hadd]
      at hstep
    obtain ⟨hrc, htable, hadded⟩ := ih fuel (pointer + (fieldBytes f).length) false
      (applyField d f).1 headers' (added ++ [f.header]) _ (fun g hg => hvalid g (List.mem_cons_of_mem _ hg))
      (fun g hg => hcod g (List.mem_cons_of_mem _ hg)) (drop_field hblock) (by omega)
      (by rw [List.length_cons] at hfuel; omega) hbuf' hst' (by omega) hmeans.2
    rw [hstep]
    refine ⟨hrc, htable, ?_⟩
    rw [hadded, List.map_cons, List.append_assoc, List.singleton_append]

/-- Each field adds at most one header. -/
theorem length_added_le (block : Bytes) (size : ℕ) :
    ∀ (fs : List Field) (fuel pointer : ℕ) (c : Bool) (d : DynamicTable) (headers : HeaderList)
      (added : List Header), (∀ f ∈ fs, f.Valid) → block.drop pointer = blockBytes fs →
      pointer + (blockBytes fs).length = size →
      (decodeLoop behind block size fuel pointer c d headers added).added.length ≤
        added.length + fs.length := by
  intro fs
  induction fs with
  | nil =>
    intro fuel pointer c d headers added _ _ hsize
    obtain rfl : pointer = size := by simpa using hsize
    rw [decodeLoop_end]
    simp
  | cons f fs ih =>
    intro fuel pointer c d headers added hvalid hblock hsize
    rw [blockBytes_cons, List.length_append] at hsize
    cases fuel with
    | zero => simp [decodeLoop]
    | succ fuel =>
      have hrest : ∀ (d : DynamicTable) (headers : HeaderList) (added : List Header),
          (decodeLoop behind block size fuel (pointer + (fieldBytes f).length) false d headers
            added).added.length ≤ added.length + fs.length := fun d headers added =>
        ih fuel _ false d headers added (fun g hg => hvalid g (List.mem_cons_of_mem _ hg))
          (drop_field hblock) (by omega)
      rw [decodeLoop_field behind (hvalid f List.mem_cons_self) size hblock (by omega)]
      -- a field that is an error ends the block; one that is read adds a header or, if empty, none
      rcases applyField d f with ⟨d', rc | ⟨name, value⟩⟩
      · simp
      · simp only
        split
        · cases headers.add name value with
          | none => simp
          | some headers' =>
            have := hrest d' headers' (added ++ [(name, value)])
            simp only [List.length_append, List.length_cons, List.length_nil] at this ⊢
            omega
        · have := hrest d' headers added
          simp only [List.length_cons]
          omega

/-- The headers come back only when every field means its header: the first field that does not
adds another header or none. -/
theorem means_of_decodeLoop {block : Bytes} {size : ℕ} :
    ∀ (fs : List Field) (fuel pointer : ℕ) (c : Bool) (d : DynamicTable) (headers : HeaderList)
      (added : List Header), (∀ f ∈ fs, f.Valid) → block.drop pointer = blockBytes fs →
      pointer + (blockBytes fs).length = size → fs.length < fuel →
      (decodeLoop behind block size fuel pointer c d headers added).added =
        added ++ fs.map Field.header →
      Means d fs := by
  intro fs
  induction fs with
  | nil => intros; trivial
  | cons f fs ih =>
    intro fuel pointer c d headers added hvalid hblock hsize hfuel hadded
    obtain ⟨fuel, rfl⟩ : ∃ n, fuel = n + 1 := ⟨fuel - 1, by omega⟩
    rw [blockBytes_cons, List.length_append] at hsize
    rw [List.length_cons] at hfuel
    have hvalid' : ∀ g ∈ fs, g.Valid := fun g hg => hvalid g (List.mem_cons_of_mem _ hg)
    rw [decodeLoop_field behind (hvalid f List.mem_cons_self) size hblock (by omega)] at hadded
    rw [Means]
    rcases hap : applyField d f with ⟨d', rc | ⟨name, value⟩⟩
    · rw [hap] at hadded
      have := congrArg List.length hadded
      simp at this
    · rw [hap] at hadded
      simp only at hadded
      split at hadded
      · cases hadd : headers.add name value with
        | none =>
          rw [hadd] at hadded
          simp only [List.append_cancel_left_eq, List.map_cons, List.cons.injEq] at hadded
          -- the list of headers is full before the end, so this was the last field
          obtain ⟨hhead, hrest⟩ := hadded
          obtain rfl : fs = [] := by simpa using hrest.symm
          exact ⟨by rw [hhead], trivial⟩
        | some headers' =>
          rw [hadd] at hadded
          simp only at hadded
          have hpre := decodeLoop_added_prefix behind block size fuel (pointer + (fieldBytes f).length)
            false d' headers' (added ++ [(name, value)])
          rw [hadded, List.prefix_append_right_inj, List.map_cons] at hpre
          have hhead : (name, value) = f.header := by
            obtain ⟨t, ht⟩ := hpre
            exact (List.cons.inj ht).1
          refine ⟨by rw [hhead], ih fuel (pointer + (fieldBytes f).length) false d' headers'
            (added ++ [(name, value)]) hvalid' (drop_field hblock) (by omega) (by omega) ?_⟩
          rw [hadded, hhead, List.map_cons, List.append_assoc, List.singleton_append]
      · have hle := length_added_le behind block size fs fuel (pointer + (fieldBytes f).length) false d'
          headers added hvalid' (drop_field hblock) (by omega)
        rw [hadded] at hle
        simp at hle

theorem length_le_blockBytes (hvalid : ∀ f ∈ fs, f.Valid) : fs.length ≤ (blockBytes fs).length := by
  induction fs with
  | nil => simp
  | cons f fs ih =>
    have hf := length_fieldBytes_pos (hvalid f List.mem_cons_self)
    have := ih fun g hg => hvalid g (List.mem_cons_of_mem _ hg)
    rw [blockBytes_cons, List.length_append, List.length_cons]
    omega

/-- **A block of fields decodes to their headers** when every field means its header. -/
theorem decode_fields {d : DynamicTable} (hvalid : ∀ f ∈ fs, f.Valid)
    (hcod : ∀ f ∈ fs, Codable f.header)
    (hfit : HeaderList.packedSize (fs.map Field.header) ≤ headerListMaxSize)
    (hmeans : Means d fs) :
    (decode behind d (blockBytes fs) (blockBytes fs).length .reset).rc = (blockBytes fs).length ∧
      (decode behind d (blockBytes fs) (blockBytes fs).length .reset).table = applyFields d fs ∧
      (decode behind d (blockBytes fs) (blockBytes fs).length .reset).added = fs.map Field.header := by
  have hle := length_le_blockBytes hvalid
  obtain ⟨hrc, htable, hadded⟩ := decodeLoop_fields behind (blockBytes fs) (blockBytes fs).length fs
    ((blockBytes fs).length + 1) 0 true d .reset [] [] hvalid hcod rfl (by omega) (by omega) rfl
    (by simp) (by simpa [HeaderList.packedSize] using hfit) hmeans
  exact ⟨hrc, htable, hadded⟩

/-- **A block of fields decodes to their headers** only when every field means its header. -/
theorem means_of_decode_fields {d : DynamicTable} (hvalid : ∀ f ∈ fs, f.Valid)
    (hadded : (decode behind d (blockBytes fs) (blockBytes fs).length .reset).added =
      fs.map Field.header) : Means d fs := by
  have hle := length_le_blockBytes hvalid
  exact means_of_decodeLoop behind fs ((blockBytes fs).length + 1) 0 true d .reset [] hvalid rfl (by omega)
    (by omega) hadded

end Two.Hpack
