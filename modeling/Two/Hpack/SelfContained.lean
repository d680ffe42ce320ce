import Two.Hpack.BlockBounds
import Two.Hpack.Conformance
import Two.Hpack.TmpBuffers

/-!
# Blocks that are decoded on their own

What the decoder makes of a block depends on memory it was not given in two cases: an integer that
begins in the block is cut off by its end, or a string literal fills its buffer, so that no NUL is
left there. Without these, what it returns is determined by the block and the entries of the table,
whatever lies behind the block and behind the buffers, and wherever in the ring the entries are.

## Main definitions

* `EndsInBuffers t h`: the string literals of a representation end in their buffers
* `SelfContained t block`: every integer ends in the block, and every literal in its buffer

## Main results

* `SameEntries.decode`: the result with two tables that hold the same entries
* `SelfContained.decode_eq`: the result for a self-contained block
-/

namespace Two.Hpack

/-- The string literals that are decoded leave a NUL in their buffers, unless they are refused. -/
def EndsInBuffers (t : DynamicTable) (h : EncodedHeader) : Prop :=
  ∀ l ∈ decodedLiterals t h, 0 ≤ (l.2.decode l.1).1 → Terminated l.1 (l.2.decode l.1).2

instance decidableEndsInBuffers (t : DynamicTable) (h : EncodedHeader) :
    Decidable (EndsInBuffers t h) :=
  inferInstanceAs (Decidable (∀ l ∈ decodedLiterals t h, _ → _))

/-- The rounds of the loop of `hpack_decoder_decode` on a block that nothing lies behind. -/
def containedRounds (block : Bytes) : ℕ → DecoderState → Bool
  | 0, _ => true
  | fuel + 1, s =>
    if s.pointer < block.length then
      let parsed := parseEncodedHeader (block.drop s.pointer) (block.length - s.pointer)
      decide (CompleteHeader (block.drop s.pointer)) &&
        decide (∀ r ∈ parsed, EndsInBuffers s.table r.1) &&
        match decodeParsed zeroBehind s parsed with
        | .inl _ => true
        | .inr s' => containedRounds block fuel s'
    else true

/-- The table holds entries, and the decoder reads neither behind the block nor behind its
buffers. -/
structure SelfContained (t : DynamicTable) (block : Bytes) : Prop where
  table : ∃ a, Abstracts http2HeaderTableSize t a
  inside : containedRounds block (block.length + 1) (.init t .reset) = true

/-- What lies behind the buffers is not so long that the size of an entry passes 16 bits. -/
def ShortBehind (behind : Bytes × Bytes) : Prop :=
  behind.1.length ≤ 2 ^ 14 ∧ behind.2.length ≤ 2 ^ 14

/-- Tables in which the same entries stand, be it at other places of their rings. -/
def SameEntries (t t' : DynamicTable) : Prop :=
  ∃ a, Abstracts http2HeaderTableSize t a ∧ Abstracts http2HeaderTableSize t' a

section Header

variable {t t' : DynamicTable} {h : EncodedHeader} {index : ℕ}

/-! ## One representation -/

theorem EndsInBuffers.name (hends : EndsInBuffers t h) (hlit : h.IsLiteral) (hindex : h.index = 0)
    (hnonneg : ¬ (h.nameLiteral.decode hpackHeaderNameLen).1 < 0) :
    Terminated hpackHeaderNameLen (h.nameLiteral.decode hpackHeaderNameLen).2 := by
  refine hends (hpackHeaderNameLen, h.nameLiteral) ?_ (not_lt.mp hnonneg)
  simp [decodedLiterals, hlit, hindex]

theorem EndsInBuffers.value (hends : EndsInBuffers t h) (hlit : h.IsLiteral) {behind name : Bytes}
    (hname : literalName behind t h = .ok name)
    (hnonneg : ¬ (h.valueLiteral.decode hpackHeaderValueLen).1 < 0) :
    Terminated hpackHeaderValueLen (h.valueLiteral.decode hpackHeaderValueLen).2 := by
  refine hends (hpackHeaderValueLen, h.valueLiteral) ?_ (not_lt.mp hnonneg)
  rw [literalName_eq] at hname
  cases hwritten : nameWritten t h with
  | error rc =>
    rw [hwritten] at hname
    cases hname
  | ok s => simp [decodedLiterals, hlit, hwritten]

/-- A name that ends in its buffer is not read behind it. -/
theorem EndsInBuffers.literalName_eq (hends : EndsInBuffers t h) (hlit : h.IsLiteral)
    (behind behind' : Bytes) : literalName behind t h = literalName behind' t h := by
  rw [literalName, literalName]
  split
  · rename_i hindex
    split
    · rfl
    · rename_i hnonneg
      have hterm := hends.name hlit hindex hnonneg
      rw [bufferString_eq hterm, bufferString_eq hterm]
  · rfl

/-- What lies behind the buffers does not matter for literals that end in them. -/
theorem decodeHeader_of_endsInBuffers (hends : EndsInBuffers t h) (behind behind' : Bytes × Bytes) :
    decodeHeader behind t h = decodeHeader behind' t h := by
  by_cases hlit : h.IsLiteral
  · rw [decodeHeader_literal hlit, decodeHeader_literal hlit, decodeLiteralHeaderField_eq,
      decodeLiteralHeaderField_eq, hends.literalName_eq hlit behind'.1 behind.1]
    cases hname : literalName behind.1 t h with
    | error rc => rfl
    | ok name =>
      simp only
      split
      · rfl
      · rename_i hnonneg
        have hterm := hends.value hlit hname hnonneg
        rw [EncodedHeader.valueRead, EncodedHeader.valueRead, bufferString_eq hterm,
          bufferString_eq hterm]
  · rw [decodeHeader, decodeHeader]
    by_cases hindexed : h.preamble = .indexedHeaderField
    · rw [if_pos hindexed, if_pos hindexed]
    · have hupdate : h.preamble = .dynamicTableSizeUpdate := by
        by_contra hupdate
        exact hlit ⟨hindexed, hupdate⟩
      rw [if_neg hindexed, if_neg hindexed, if_pos hupdate, if_pos hupdate]

/-! ## Tables with the same entries -/

theorem SameEntries.findEntryName (hs : SameEntries t t') (index : ℕ) :
    findEntryName t index = findEntryName t' index := by
  obtain ⟨a, ht, ht'⟩ := hs
  rcases Nat.eq_zero_or_pos index with rfl | hpos
  · rfl
  · rw [findEntryName_eq ht hpos, findEntryName_eq ht' hpos]

theorem SameEntries.findEntryNameAndValue (hs : SameEntries t t') (index : ℕ) :
    findEntryNameAndValue t index = findEntryNameAndValue t' index := by
  obtain ⟨a, ht, ht'⟩ := hs
  rcases Nat.eq_zero_or_pos index with rfl | hpos
  · rfl
  · rw [findEntryNameAndValue_eq ht hpos, findEntryNameAndValue_eq ht' hpos]

theorem SameEntries.addEntry (hs : SameEntries t t') {name value : Bytes} (hn : NulFree name)
    (hv : NulFree value) (h16 : name.length + value.length + 32 < 2 ^ 16) :
    (t.addEntry name value).2 = (t'.addEntry name value).2 ∧
      SameEntries (t.addEntry name value).1 (t'.addEntry name value).1 := by
  obtain ⟨a, ht, ht'⟩ := hs
  rcases Nat.lt_or_ge a.maxSize (name.length + value.length + 32) with hlarge | hfit
  · rw [t.addEntry_of_gt h16 (by rwa [ht.maxSize]), t'.addEntry_of_gt h16 (by rwa [ht'.maxSize])]
    exact ⟨rfl, a, ht, ht'⟩
  · obtain ⟨hrc, hin⟩ := ht.insert (e := (name, value)) ⟨hn, hv⟩ hfit
    obtain ⟨hrc', hin'⟩ := ht'.insert (e := (name, value)) ⟨hn, hv⟩ hfit
    exact ⟨hrc.trans hrc'.symm, _, hin, hin'⟩

theorem SameEntries.resize (hs : SameEntries t t') (maxSize : ℕ) :
    (t.resize maxSize).2 = (t'.resize maxSize).2 ∧
      SameEntries (t.resize maxSize).1 (t'.resize maxSize).1 := by
  obtain ⟨a, ht, ht'⟩ := hs
  rcases Nat.lt_or_ge a.limit maxSize with hlarge | hfit
  · rw [DynamicTable.resize, DynamicTable.resize, if_pos (by rwa [ht.limit]),
      if_pos (by rwa [ht'.limit])]
    exact ⟨rfl, a, ht, ht'⟩
  · obtain ⟨hrc, hin⟩ := ht.update hfit
    obtain ⟨hrc', hin'⟩ := ht'.update hfit
    exact ⟨hrc.trans hrc'.symm, _, hin, hin'⟩

theorem SameEntries.nameWritten (hs : SameEntries t t') (h : EncodedHeader) :
    nameWritten t h = nameWritten t' h := by
  rw [Hpack.nameWritten, Hpack.nameWritten, hs.findEntryName]

theorem SameEntries.literalName (hs : SameEntries t t') (behind : Bytes) (h : EncodedHeader) :
    literalName behind t h = literalName behind t' h := by
  rw [literalName_eq, literalName_eq, hs.nameWritten]

theorem SameEntries.endsInBuffers (hs : SameEntries t t') (hends : EndsInBuffers t h) :
    EndsInBuffers t' h := by
  rw [EndsInBuffers, decodedLiterals, ← hs.nameWritten]
  exact hends

theorem length_bufferString_le (size : ℕ) (behind s : Bytes) :
    (bufferString size behind s).length ≤ size + behind.length := by
  have hle : (bufferString size behind s).length ≤
      (s.take size ++ List.replicate (size - s.length) 0 ++ behind).length :=
    (List.takeWhile_prefix _).length_le
  simp only [List.length_append, List.length_take, List.length_replicate] at hle
  omega

/-- The name of a literal is a C string of a bounded length. -/
theorem literalName_bound (hs : SameEntries t t') {behind name : Bytes}
    (hname : literalName behind t h = .ok name) :
    NulFree name ∧ name.length ≤ http2HeaderTableSize + behind.length := by
  have hcap : http2HeaderTableSize = 4096 := rfl
  have h32 : hpackHeaderNameLen = 32 := rfl
  rw [Hpack.literalName] at hname
  split at hname
  · split at hname
    · cases hname
    · obtain rfl := Except.ok.inj hname
      have hle := length_bufferString_le hpackHeaderNameLen behind
        (h.nameLiteral.decode hpackHeaderNameLen).2
      exact ⟨nulFree_cstr _, by omega⟩
  · rename_i hindex
    obtain ⟨a, ht, -⟩ := hs
    rw [findEntryName_eq ht (Nat.pos_of_ne_zero hindex)] at hname
    cases hlookup : a.lookup h.index with
    | none =>
      rw [hlookup] at hname
      cases hname
    | some e =>
      rw [hlookup] at hname
      obtain rfl := Except.ok.inj hname
      obtain ⟨hfree, hle⟩ := lookup_name ht hlookup
      exact ⟨hfree, by omega⟩

/-- **One representation**, decoded with two tables that hold the same entries. -/
theorem SameEntries.decodeHeader (hs : SameEntries t t') {behind : Bytes × Bytes}
    (hbehind : ShortBehind behind) (h : EncodedHeader) :
    (decodeHeader behind t h).2 = (decodeHeader behind t' h).2 ∧
      SameEntries (decodeHeader behind t h).1 (decodeHeader behind t' h).1 := by
  obtain ⟨hbehindName, hbehindValue⟩ := hbehind
  have hcap : http2HeaderTableSize = 4096 := rfl
  have h64 : hpackHeaderValueLen = 64 := rfl
  by_cases hlit : h.IsLiteral
  · rw [decodeHeader_literal hlit, decodeHeader_literal hlit, decodeLiteralHeaderField_eq,
      decodeLiteralHeaderField_eq, ← hs.literalName]
    cases hname : Hpack.literalName behind.1 t h with
    | error rc => exact ⟨rfl, hs⟩
    | ok name =>
      simp only
      split
      · exact ⟨rfl, hs⟩
      split
      · -- the entry that is inserted has two C strings
        obtain ⟨hfree, hle⟩ := literalName_bound hs hname
        have hlt : (h.valueRead behind.2).length ≤ hpackHeaderValueLen + behind.2.length :=
          length_bufferString_le _ _ _
        obtain ⟨hrc, hadd⟩ := hs.addEntry hfree (nulFree_cstr _)
          (show name.length + (h.valueRead behind.2).length + 32 < 2 ^ 16 by omega)
        rw [EncodedHeader.valueRead, bufferString, hrc]
        split
        · exact ⟨rfl, hadd⟩
        · exact ⟨rfl, hadd⟩
      · exact ⟨rfl, hs⟩
  · rw [Hpack.decodeHeader, Hpack.decodeHeader]
    by_cases hindexed : h.preamble = .indexedHeaderField
    · rw [if_pos hindexed, if_pos hindexed, hs.findEntryNameAndValue]
      exact ⟨rfl, hs⟩
    · have hupdate : h.preamble = .dynamicTableSizeUpdate := by
        by_contra hupdate
        exact hlit ⟨hindexed, hupdate⟩
      obtain ⟨hrc, hsize⟩ := hs.resize h.dynamicTableSize
      rw [if_neg hindexed, if_neg hindexed, if_pos hupdate, if_pos hupdate]
      simp only [hrc]
      split
      · exact ⟨rfl, hsize⟩
      · exact ⟨rfl, hsize⟩

end Header

/-! ## A block -/

/-- The same values of the variables, up to the places of the entries in the ring. -/
structure SameState (s s' : DecoderState) : Prop where
  pointer : s.pointer = s'.pointer
  update : s.canReceiveSizeUpdate = s'.canReceiveSizeUpdate
  table : SameEntries s.table s'.table
  headers : s.headers = s'.headers
  added : s.added = s'.added

/-- The same results, up to the places of the entries in the ring. -/
structure SameDecode (r r' : DecodeResult) : Prop where
  rc : r.rc = r'.rc
  table : SameEntries r.table r'.table
  headers : r.headers = r'.headers
  added : r.added = r'.added

/-- A round ends in the same result, or the loop goes on with the same values. -/
def SameRound : DecodeResult ⊕ DecoderState → DecodeResult ⊕ DecoderState → Prop
  | .inl r, .inl r' => SameDecode r r'
  | .inr s, .inr s' => SameState s s'
  | _, _ => False

section Block

variable {s s' : DecoderState} {behind behind' : Behind} {x y y' : Bytes}

/-- One round, where the representation is decoded alike. -/
theorem SameState.round (hs : SameState s s') {parsed : Option (EncodedHeader × ℕ)}
    (hdecode : ∀ r ∈ parsed,
      (decodeHeader (behind s.pointer) s.table r.1).2 =
        (decodeHeader (behind' s.pointer) s'.table r.1).2 ∧
      SameEntries (decodeHeader (behind s.pointer) s.table r.1).1
        (decodeHeader (behind' s.pointer) s'.table r.1).1) :
    SameRound (decodeParsed behind s parsed) (decodeParsed behind' s' parsed) := by
  obtain ⟨hpointer, hupdate, htable, hheaders, hadded⟩ := hs
  cases parsed with
  | none => exact ⟨rfl, htable, hheaders, hadded⟩
  | some r =>
    obtain ⟨h, bytesRead⟩ := r
    obtain ⟨hresult, htables⟩ := hdecode _ rfl
    simp only [decodeParsed, ← hupdate, ← hpointer, ← hheaders, ← hadded]
    split
    · exact ⟨rfl, htable, rfl, rfl⟩
    split
    · exact ⟨rfl, htable, rfl, rfl⟩
    simp only at hresult htables
    generalize decodeHeader (behind s.pointer) s.table h = d at *
    generalize decodeHeader (behind' s.pointer) s'.table h = d' at *
    obtain ⟨t, result⟩ := d
    obtain ⟨t', result'⟩ := d'
    simp only at hresult htables
    subst hresult
    cases result with
    | error rc => exact ⟨rfl, htables, rfl, rfl⟩
    | ok e =>
      simp only
      split
      · cases s.headers.add e.1 e.2 with
        | none => exact ⟨rfl, htables, rfl, rfl⟩
        | some headers => exact ⟨rfl, rfl, htables, rfl, rfl⟩
      · exact ⟨rfl, rfl, htables, rfl, rfl⟩

/-- The loop after its last round. -/
theorem SameState.done {fuel size : ℕ} (hs : SameState s s') (hlt : ¬ s.pointer < size) :
    SameDecode (s.loop behind x size (fuel + 1)) (s'.loop behind' y size (fuel + 1)) := by
  simp only [DecoderState.loop, decodeLoop, ← hs.pointer, if_neg hlt]
  split
  · exact ⟨rfl, hs.table, hs.headers, hs.added⟩
  · exact ⟨rfl, hs.table, hs.headers, hs.added⟩

/-- With the same memory behind the buffers, the loop depends on the entries alone, whatever it
reads. -/
theorem SameState.loop {size fuel : ℕ} (hs : SameState s s') (hb : ∀ i, ShortBehind (behind i)) :
    SameDecode (s.loop behind x size fuel) (s'.loop behind x size fuel) := by
  induction fuel generalizing s s' with
  | zero => exact ⟨congrArg Int.ofNat hs.pointer, hs.table, hs.headers, hs.added⟩
  | succ fuel ih =>
    by_cases hlt : s.pointer < size
    · have hround : SameRound
          (decodeParsed behind s (parseEncodedHeader (x.drop s.pointer) (size - s.pointer)))
          (decodeParsed behind s' (parseEncodedHeader (x.drop s.pointer) (size - s.pointer))) :=
        hs.round fun r _ => hs.table.decodeHeader (hb _) r.1
      rw [loop_succ _ _ _ _ _ hlt, loop_succ _ _ _ _ _ (hs.pointer ▸ hlt), ← hs.pointer]
      generalize decodeParsed behind s
        (parseEncodedHeader (x.drop s.pointer) (size - s.pointer)) = d at hround
      generalize decodeParsed behind s'
        (parseEncodedHeader (x.drop s.pointer) (size - s.pointer)) = d' at hround
      match d, d', hround with
      | .inl r, .inl r', hround => exact hround
      | .inr u, .inr u', hround => exact ih hround
    · exact hs.done hlt

theorem shortBehind_zeroBehind (i : ℕ) : ShortBehind (zeroBehind i) := by
  simp [ShortBehind, zeroBehind]

/-- On a self-contained block the loop sees only the block and the entries of the table. -/
theorem SameState.loop_of_contained {fuel : ℕ} (hs : SameState s s')
    (hc : containedRounds x fuel s = true) :
    SameDecode (s.loop zeroBehind x x.length fuel) (s'.loop behind (x ++ y) x.length fuel) := by
  induction fuel generalizing s s' with
  | zero => exact ⟨congrArg Int.ofNat hs.pointer, hs.table, hs.headers, hs.added⟩
  | succ fuel ih =>
    by_cases hlt : s.pointer < x.length
    · rw [containedRounds, if_pos hlt] at hc
      simp only [Bool.and_eq_true, decide_eq_true_iff] at hc
      obtain ⟨⟨hcomplete, hends⟩, hrest⟩ := hc
      have hround : SameRound
          (decodeParsed zeroBehind s
            (parseEncodedHeader (x.drop s.pointer) (x.length - s.pointer)))
          (decodeParsed behind s'
            (parseEncodedHeader (x.drop s.pointer) (x.length - s.pointer))) := by
        refine hs.round fun r hr => ?_
        rw [decodeHeader_of_endsInBuffers (hs.table.endsInBuffers (hends r hr)) (behind s.pointer)
          (zeroBehind s.pointer)]
        exact hs.table.decodeHeader (shortBehind_zeroBehind _) r.1
      have hparsed : decodeParsed behind s'
            (parseEncodedHeader ((x ++ y).drop s.pointer) (x.length - s.pointer)) =
          decodeParsed behind s' (parseEncodedHeader (x.drop s.pointer) (x.length - s.pointer)) := by
        rw [List.drop_append_of_le_length hlt.le, ← List.length_drop]
        exact (parseEncodedHeader_append hcomplete).decodeParsed behind s'
      rw [loop_succ _ _ _ _ _ hlt, loop_succ _ _ _ _ _ (hs.pointer ▸ hlt), ← hs.pointer, hparsed]
      generalize decodeParsed zeroBehind s
        (parseEncodedHeader (x.drop s.pointer) (x.length - s.pointer)) = d at hround hrest
      generalize decodeParsed behind s'
        (parseEncodedHeader (x.drop s.pointer) (x.length - s.pointer)) = d' at hround
      match d, d', hround with
      | .inl r, .inl r', hround => exact hround
      | .inr u, .inr u', hround => exact ih hround hrest
    · exact hs.done hlt

theorem SameEntries.init {t t' : DynamicTable} (hs : SameEntries t t') :
    SameState (.init t .reset) (.init t' .reset) := ⟨rfl, rfl, hs, rfl, rfl⟩

/-- Tables with the same entries, and the same memory behind the block and behind the buffers. -/
theorem SameEntries.decode {t t' : DynamicTable} (hs : SameEntries t t')
    (hb : ∀ i, ShortBehind (behind i)) (memory : Bytes) (size : ℕ) :
    SameDecode (decode behind t memory size .reset) (decode behind t' memory size .reset) :=
  hs.init.loop hb

/-- **A self-contained block** is decoded alike with any memory behind it and behind the buffers,
wherever the entries stand in the ring. -/
theorem SelfContained.decode_eq {t t' : DynamicTable} (hc : SelfContained t x)
    (hs : SameEntries t t') :
    (decode behind t (x ++ y) x.length .reset).rc =
        (decode behind' t' (x ++ y') x.length .reset).rc ∧
      (decode behind t (x ++ y) x.length .reset).headers =
        (decode behind' t' (x ++ y') x.length .reset).headers := by
  obtain ⟨a, ht⟩ := hc.table
  have hfirst : SameEntries t t := ⟨a, ht, ht⟩
  have h : SameDecode (decode zeroBehind t x x.length .reset)
      (decode behind t (x ++ y) x.length .reset) := hfirst.init.loop_of_contained hc.inside
  have h' : SameDecode (decode zeroBehind t x x.length .reset)
      (decode behind' t' (x ++ y') x.length .reset) := hs.init.loop_of_contained hc.inside
  exact ⟨h.rc.symm.trans h'.rc, h.headers.symm.trans h'.headers⟩

end Block

end Two.Hpack
