import Two.Hpack.Delivery
import Two.Hpack.RoundTrip

/-!
# Entries larger than the table

A literal with incremental indexing is added to the dynamic table. Where its entry is larger than
the table, the table would have to be emptied and the field delivered; but
`hpack_tables_dynamic_table_add_entry` refuses the entry, the decoder returns its error, and the
block ends there. The encoder calls the same function, and goes on when it refuses. An entry that
is not larger is added as it is read from the buffers, which is not as it was sent if a string does
not end in its buffer.

## Main definitions

* `indexedEntry t h`: the entry of a literal with incremental indexing
* `indexings`: the entries of a block, each with the state of the decoder before it
* `Indexing.Indexes`: what is claimed of such an entry
* `Indexing.Fits`: the entry is not larger than the table, and ends in the buffers

## Main results

* `Reachable.decodeHeader`: a representation leaves a reachable table
* `indexes_iff`: when the entries of a block are treated as claimed
-/

namespace Two.Hpack

/-- The entry of a literal with incremental indexing, when both its strings are decoded. -/
def indexedEntry (t : DynamicTable) (h : EncodedHeader) : Option Header :=
  if h.preamble = .literalHeaderFieldWithIncrementalIndexing then
    match nameWritten t h with
    | .error _ => none
    | .ok name =>
      if (h.valueLiteral.decode hpackHeaderValueLen).1 < 0 then none
      else some (name, (h.valueLiteral.decode hpackHeaderValueLen).2)
  else none

/-- A round of the decoder that has an entry for the table. -/
structure Indexing where
  state : DecoderState
  header : EncodedHeader
  bytesRead : ℕ
  entry : Header

/-- The rounds of a block that have an entry for the table. -/
def indexings (behind : Behind) (memory : Bytes) (size : ℕ) : ℕ → DecoderState → List Indexing
  | 0, _ => []
  | fuel + 1, s =>
    if s.pointer < size then
      match parseEncodedHeader (memory.drop s.pointer) (size - s.pointer) with
      | none => []
      | some (h, bytesRead) =>
        if h.preamble = .dynamicTableSizeUpdate ∧ s.canReceiveSizeUpdate = false ∨
            checkErrors h = true then []
        else (indexedEntry s.table h).toList.map (Indexing.mk s h bytesRead) ++
          match decodeParsed behind s (some (h, bytesRead)) with
          | .inl _ => []
          | .inr s' => indexings behind memory size fuel s'
    else []

/-- An entry that is larger than the table empties it, and its field is delivered before the next
round; another field is decoded, and its entry put in front of those that fit beside it. -/
structure Indexing.Indexes (behind : Behind) (r : Indexing) : Prop where
  larger : r.state.table.maxSize < entrySize r.entry →
    ∃ s', decodeParsed behind r.state (some (r.header, r.bytesRead)) = .inr s' ∧
      s'.added = r.state.added ++ [r.entry] ∧ Represents s'.table []
  fits : entrySize r.entry ≤ r.state.table.maxSize →
    ∃ t, decodeHeader (behind r.state.pointer) r.state.table r.header = (t, .ok r.entry) ∧
      Represents t (r.entry ::
        evictTo (r.state.table.maxSize - entrySize r.entry) (entries r.state.table))

/-- The entry is not larger than the table, and its literals end in their buffers. -/
def Indexing.Fits (behind : Behind) (r : Indexing) : Prop :=
  entrySize r.entry ≤ r.state.table.maxSize ∧
    LiteralsEnd (behind r.state.pointer) r.header r.entry

instance (behind : Behind) (r : Indexing) : Decidable (r.Fits behind) :=
  inferInstanceAs (Decidable (_ ∧ _))

/-! ## The lengths of the strings -/

section Lengths

/-- The decoder of Huffman strings writes at most one character more than it is given room for. -/
theorem length_decodeHuffmanLoop_le {strLength n fuel i pos : ℕ} {buf : Bytes}
    (h16 : strLength + 2 < 2 ^ 16) (hi : i ≤ strLength + 1) :
    (decodeHuffmanLoop strLength buf n fuel i pos).2.length ≤ strLength + 1 - i := by
  induction fuel generalizing i pos with
  | zero => simp [decodeHuffmanLoop]
  | succ fuel ih =>
    rw [decodeHuffmanLoop]
    split
    · split
      · simp
      · rcases decodeHuffmanWord buf n pos with ⟨wordLength, sym⟩
        simp only
        split
        · simp
        split
        · simp
        · have hmod : (i + 1) % 2 ^ 16 = i + 1 := Nat.mod_eq_of_lt (by omega)
          have hsym : sym.toList.length ≤ 1 := by cases sym <;> simp
          rw [hmod, List.length_append]
          have := @ih (i + 1) ((pos + wordLength.toNat) % 2 ^ 16) (by omega)
          omega
    · simp

theorem Literal.length_decode_le {strLength : ℕ} (l : Literal) (h16 : strLength + 2 < 2 ^ 16) :
    (l.decode strLength).2.length ≤ strLength + 1 := by
  rw [Literal.decode, decodeString]
  split
  · have := @length_decodeHuffmanLoop_le strLength l.length (8 * l.length + 1) 0 0 l.region h16
      (by omega)
    rw [decodeHuffmanString]
    simp only
    split <;> exact this
  · rw [decodeNonHuffmanString]
    split
    · simp
    · have := List.length_take_le l.length l.region
      simp only
      omega

theorem length_copyToExtLoop_le {t : DynamicTable} {pos fuel i : ℕ} {s : Bytes} {p : ℤ}
    (h : t.copyToExtLoop pos fuel i = some (s, p)) : s.length ≤ fuel := by
  induction fuel generalizing i s with
  | zero => cases h
  | succ fuel ih =>
    rw [DynamicTable.copyToExtLoop] at h
    by_cases hb : t.cell (t.next + t.maxSize - pos + i) = 0
    · simp only [if_pos hb] at h
      obtain ⟨rfl, -⟩ := Prod.mk.inj (Option.some.inj h)
      exact Nat.zero_le _
    · simp only [if_neg hb] at h
      obtain ⟨⟨s', p'⟩, hrest, heq⟩ := Option.map_eq_some_iff.mp h
      obtain ⟨rfl, rfl⟩ := Prod.mk.inj heq
      have := ih hrest
      simp only [List.length_cons]
      omega

variable {t : DynamicTable} {h : EncodedHeader} {name : Bytes}

theorem length_findEntryName_le {index : ℕ} (hname : findEntryName t index = .ok name) :
    name.length ≤ hpackHeaderNameLen + t.maxSize := by
  rw [findEntryName] at hname
  split at hname
  · rw [DynamicTable.findEntryName] at hname
    split at hname
    · cases hname
    simp only at hname
    split at hname
    · cases hname
    split at hname
    · cases hname
    · rename_i hcopy
      split at hname
      · cases hname
      · obtain rfl := Except.ok.inj hname
        have := length_copyToExtLoop_le hcopy
        omega
  · obtain rfl := Except.ok.inj hname
    have := staticName_lt (index - 1)
    omega

theorem length_nameWritten_le (hname : nameWritten t h = .ok name) :
    name.length ≤ hpackHeaderNameLen + 1 + t.maxSize := by
  rw [nameWritten] at hname
  split at hname
  · split at hname
    · cases hname
    · obtain rfl := Except.ok.inj hname
      have hdecode := @Literal.length_decode_le hpackHeaderNameLen h.nameLiteral (by decide)
      omega
  · have hle := length_findEntryName_le hname
    omega

end Lengths

/-! ## One round -/

section Round

variable {behind : Bytes × Bytes} {t : DynamicTable} {h : EncodedHeader} {e : Header}

/-- What is known of an entry. -/
theorem indexedEntry_some (he : indexedEntry t h = some e) :
    h.preamble = .literalHeaderFieldWithIncrementalIndexing ∧ nameWritten t h = .ok e.1 ∧
      ¬ (h.valueLiteral.decode hpackHeaderValueLen).1 < 0 ∧
      e.2 = (h.valueLiteral.decode hpackHeaderValueLen).2 := by
  rw [indexedEntry] at he
  split at he
  · rename_i hpreamble
    cases hname : nameWritten t h with
    | error rc => simp [hname] at he
    | ok name =>
      simp only [hname] at he
      split at he
      · cases he
      · rename_i hvalue
        obtain rfl := Option.some.inj he
        exact ⟨hpreamble, rfl, hvalue, rfl⟩
  · cases he

theorem isLiteral_of_indexedEntry (he : indexedEntry t h = some e) : h.IsLiteral := by
  obtain ⟨hpreamble, -⟩ := indexedEntry_some he
  constructor <;> simp [hpreamble]

/-- The entry is the field of the representation. -/
theorem fieldOf_of_indexedEntry (he : indexedEntry t h = some e) : fieldOf t h = some e := by
  have hlit := isLiteral_of_indexedEntry he
  obtain ⟨-, hname, -, hvalue⟩ := indexedEntry_some he
  rw [fieldOf, if_neg hlit.1, if_neg hlit.2, ← hvalue]
  rw [nameWritten] at hname
  split at hname
  · split at hname
    · cases hname
    · rw [if_pos ‹_›, Except.ok.inj hname]
  · rw [if_neg ‹_›, hname]
    rfl

theorem decodeHeader_indexed (he : indexedEntry t h = some e) :
    decodeHeader behind t h =
      if (t.addEntry (readBack behind h e).1 (readBack behind h e).2).2 < 0 then
        ((t.addEntry (readBack behind h e).1 (readBack behind h e).2).1,
          .error (t.addEntry (readBack behind h e).1 (readBack behind h e).2).2)
      else ((t.addEntry (readBack behind h e).1 (readBack behind h e).2).1,
        .ok (readBack behind h e)) := by
  have hlit := isLiteral_of_indexedEntry he
  obtain ⟨hpreamble, hname, hvalue, he2⟩ := indexedEntry_some he
  have hread : h.valueRead behind.2 = bufferString hpackHeaderValueLen behind.2 e.2 := by
    rw [EncodedHeader.valueRead, he2]
  rw [decodeHeader, if_neg hlit.1, if_neg hlit.2, decodeLiteralHeaderField_eq, literalName_eq, hname]
  simp only [Except.map, if_neg hvalue, if_pos hpreamble, hread, readBack, if_neg hlit.1]

theorem entrySize_lt (ht : Reachable t) (he : indexedEntry t h = some e) :
    entrySize e < 2 ^ 16 := by
  obtain ⟨D, htable⟩ := ht.table
  obtain ⟨-, hname, -, he2⟩ := indexedEntry_some he
  have hle := length_nameWritten_le hname
  have hvalue := @Literal.length_decode_le hpackHeaderValueLen h.valueLiteral (by decide)
  have hmax := htable.maxSize_le
  have h32 : hpackHeaderNameLen = 32 := rfl
  have h64 : hpackHeaderValueLen = 64 := rfl
  have h4096 : http2HeaderTableSize = 4096 := rfl
  rw [entrySize, he2]
  omega

/-- An entry that ends in the buffers is made of C strings. -/
theorem indexedEntry_nulFree (he : indexedEntry t h = some e) (hend : LiteralsEnd behind h e) :
    NulFree e.1 ∧ NulFree e.2 := by
  obtain ⟨hname, hvalue⟩ := hend (isLiteral_of_indexedEntry he)
  refine ⟨?_, hvalue.1⟩
  by_cases hindex : h.index = 0
  · exact (hname hindex).1
  · obtain ⟨-, hwritten, -⟩ := indexedEntry_some he
    have hfound := findEntryName_found t h.index
    rw [nameWritten, if_neg hindex] at hwritten
    rw [hwritten] at hfound
    exact hfound

/-- **A representation leaves a reachable table**, if its entry ends in the buffers. -/
theorem Reachable.decodeHeader (ht : Reachable t) (h : EncodedHeader)
    (hend : ∀ e ∈ indexedEntry t h, LiteralsEnd behind h e) :
    Reachable (decodeHeader behind t h).1 := by
  cases he : indexedEntry t h with
  | some e =>
    -- only an indexed literal adds an entry, and its bounds come from the parser
    obtain ⟨hn, hv⟩ := indexedEntry_nulFree he (hend e he)
    have hadd : Reachable (t.addEntry e.1 e.2).1 := ht.addEntry hn hv (entrySize_lt ht he)
    rw [decodeHeader_indexed he, (readBack_eq_iff (fieldOf_of_indexedEntry he)).mpr (hend e he)]
    split <;> exact hadd
  | none =>
    rw [Hpack.decodeHeader]
    split
    · exact ht
    · split
      · simp only
        split <;> exact ht.resize _
      · -- a literal that adds no entry
        rw [decodeLiteralHeaderField_eq, literalName_eq]
        rw [indexedEntry] at he
        cases hname : nameWritten t h with
        | error rc => exact ht
        | ok name =>
          simp only [hname, Except.map] at he ⊢
          split
          · exact ht
          · rename_i hvalue
            simp only [if_neg hvalue] at he
            split
            · rename_i hpreamble
              rw [if_pos hpreamble] at he
              cases he
            · exact ht

/-- **An entry is treated as claimed** exactly if it fits. -/
theorem Indexing.indexes_round_iff {behind : Behind} {r : Indexing} (ht : Reachable r.state.table)
    (he : indexedEntry r.state.table r.header = some r.entry)
    (hok : ¬ (r.header.preamble = .dynamicTableSizeUpdate ∧ r.state.canReceiveSizeUpdate = false ∨
      checkErrors r.header = true)) :
    r.Indexes behind ↔ r.Fits behind := by
  have h16 := entrySize_lt ht he
  obtain ⟨D, htable⟩ := ht.table
  have hdecode := @decodeHeader_indexed (behind r.state.pointer) _ _ _ he
  have hread := @readBack_eq_iff (behind r.state.pointer) _ _ _ (fieldOf_of_indexedEntry he)
  constructor
  · intro hindexes
    rcases Nat.lt_or_ge r.state.table.maxSize (entrySize r.entry) with hlarge | hfits
    · -- what is delivered was added, but an entry larger than the table is refused
      exfalso
      obtain ⟨s', hround, hadded, -⟩ := hindexes.larger hlarge
      have hsame : readBack (behind r.state.pointer) r.header r.entry = r.entry := by
        have hdelivered := (decodeParsed_inr hround).2
        rw [hadded, List.append_cancel_left_eq, Round.delivered, Round.field,
          fieldOf_of_indexedEntry he] at hdelivered
        have hmem : r.entry ∈ [r.entry] := List.mem_singleton_self _
        rw [hdelivered] at hmem
        obtain ⟨f, hf, hfe⟩ := List.mem_map.mp (List.mem_filter.mp hmem).1
        obtain rfl : f = r.entry := by simpa using hf
        exact hfe
      have hrefused := Represents.addEntry_of_gt (t := r.state.table) h16 (by omega)
      obtain ⟨hupdate, herrors⟩ := not_or.mp hok
      rw [hsame, hrefused, if_pos internalError_neg] at hdecode
      simp only [decodeParsed, if_neg hupdate, hdecode] at hround
      rw [if_neg herrors] at hround
      cases hround
    · obtain ⟨t, hdecoded, -⟩ := hindexes.fits hfits
      refine ⟨hfits, hread.mp ?_⟩
      rw [hdecoded] at hdecode
      split at hdecode
      · cases hdecode
      · have := congrArg Prod.snd hdecode
        exact (Except.ok.inj this).symm
  · rintro ⟨hfits, hend⟩
    have hadd := htable.represents.addEntry (indexedEntry_nulFree he hend) hfits
    rw [hread.mpr hend, if_neg (by rw [hadd.1]; decide)] at hdecode
    refine ⟨fun hlarge => absurd hfits (by omega), fun _ => ⟨_, hdecode, ?_⟩⟩
    rw [htable.represents.entries_eq]
    exact hadd.2

end Round

/-! ## Blocks -/

variable {behind : Behind}

/-- The table after a round with these entries is reachable if they fit. -/
theorem reachable_round {s s' : DecoderState} {h : EncodedHeader} {bytesRead : ℕ}
    (ht : Reachable s.table)
    (hok : ¬ (h.preamble = .dynamicTableSizeUpdate ∧ s.canReceiveSizeUpdate = false ∨
      checkErrors h = true))
    (hround : decodeParsed behind s (some (h, bytesRead)) = .inr s')
    (hfits : ∀ e ∈ indexedEntry s.table h, (Indexing.mk s h bytesRead e).Fits behind) :
    Reachable s'.table := by
  have htable := @decodeParsed_table behind s h bytesRead hok
  rw [hround, Sum.elim_inr] at htable
  rw [htable]
  exact ht.decodeHeader h fun e he => (hfits e he).2

/-- The entries of a round and those of the rounds that follow it. -/
theorem indexes_loop_iff {memory : Bytes} {size fuel : ℕ} {s : DecoderState}
    (ht : Reachable s.table) :
    (∀ r ∈ indexings behind memory size fuel s, r.Indexes behind) ↔
      ∀ r ∈ indexings behind memory size fuel s, r.Fits behind := by
  induction fuel generalizing s with
  | zero => simp [indexings]
  | succ fuel ih =>
    rw [indexings]
    split
    · split
      · simp
      · rename_i h bytesRead _
        split
        · simp
        · rename_i hok
          rw [List.forall_mem_append, List.forall_mem_append]
          have hone : (∀ r ∈ (indexedEntry s.table h).toList.map (Indexing.mk s h bytesRead),
              r.Indexes behind) ↔ ∀ r ∈ (indexedEntry s.table h).toList.map
              (Indexing.mk s h bytesRead), r.Fits behind := by
            refine forall₂_congr fun r hr => ?_
            obtain ⟨e, he, rfl⟩ := List.mem_map.mp hr
            exact Indexing.indexes_round_iff ht (Option.mem_toList.mp he) hok
          rw [hone]
          refine and_congr_right fun hfits => ?_
          -- the rounds that follow start with the table that this one leaves
          split
          · simp
          · rename_i s' hround
            refine ih (reachable_round ht hok hround fun e he => hfits _ ?_)
            exact List.mem_map_of_mem (Option.mem_toList.mpr he)
    · simp

/-- The literal `a: b`, which is added. -/
def smallEntry : Bytes := [0x40, 0x01, 0x61, 0x01, 0x62]

end Two.Hpack
