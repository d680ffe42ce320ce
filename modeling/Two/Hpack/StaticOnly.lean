import Two.Hpack.Delivery

/-!
# Decoding without a dynamic table

With `HTTP2_HEADER_TABLE_SIZE` set to 0 the dynamic table is left out, and an index can only mean an
entry of the static table. The two lookups of `hpack/tables.c` are guarded differently: the one for
a name and a value refuses indices above 62, one too many, and the one for a name refuses none. Both
pass the index on as an 8-bit number, to functions that assert that it is between 1 and 61.

## Main definitions

* `StaticOnly.findEntryNameAndValue`, `StaticOnly.findEntryName`: the lookups, `none` where an
  assertion fails
* `StaticOnly.decodeHeader`, `StaticOnly.decode`: the decoder in this configuration
* `StaticOnly.KeepsToStatic`: what is claimed of a block

## Main results

* `StaticOnly.decodeHeader_beyond_iff`: when an index behind the static table is refused
* `StaticOnly.keepsToStatic_iff`: when a block is decoded as claimed
-/

namespace Two.Hpack.StaticOnly

/-! ## The decoder -/

/-- `hpack_tables_static_find_entry_name_and_value`, with its assertions. -/
def staticFindEntryNameAndValue (index : UInt8) : Option Header :=
  if 0 < index ∧ index < 62 then some (staticName (index.toNat - 1), staticValue (index.toNat - 1))
  else none

/-- `hpack_tables_static_find_entry_name`, with its assertions. -/
def staticFindEntryName (index : UInt8) : Option Bytes :=
  if 0 < index ∧ index < 62 then some (staticName (index.toNat - 1)) else none

/-- `hpack_tables_find_entry_name_and_value`. -/
def findEntryNameAndValue (index : ℕ) : Option (Except ℤ Header) :=
  if index = 0 then none
  else if index > 62 then some (.error compressionError)
  else (staticFindEntryNameAndValue (UInt8.ofNat index)).map .ok

/-- `hpack_tables_find_entry_name`. -/
def findEntryName (index : ℕ) : Option (Except ℤ Bytes) :=
  if index = 0 then none else (staticFindEntryName (UInt8.ofNat index)).map .ok

/-- The value of a literal, after its name is found. -/
def withValue (behind : Bytes × Bytes) (h : EncodedHeader) (name : Bytes) : Except ℤ Header :=
  let (rc, s) := decodeString hpackHeaderValueLen h.valueString h.valueLength h.huffmanBitOfValue
  if rc < 0 then .error rc else .ok (name, bufferString hpackHeaderValueLen behind.2 s)

/-- `hpack_decoder_decode_literal_header_field`: nothing is added to a table. -/
def decodeLiteralHeaderField (behind : Bytes × Bytes) (h : EncodedHeader) :
    Option (Except ℤ Header) :=
  let name : Option (Except ℤ Bytes) :=
    if h.index = 0 then
      let (rc, s) := decodeString hpackHeaderNameLen h.nameString h.nameLength h.huffmanBitOfName
      some (if rc < 0 then .error rc else .ok (bufferString hpackHeaderNameLen behind.1 s))
    else findEntryName h.index
  name.map fun name =>
    match name with
    | .error rc => .error rc
    | .ok name => withValue behind h name

/-- `hpack_decoder_decode_header`: there is no table for a size update. -/
def decodeHeader (behind : Bytes × Bytes) (h : EncodedHeader) : Option (Except ℤ Header) :=
  if h.preamble = .indexedHeaderField then findEntryNameAndValue h.index
  else if h.preamble = .dynamicTableSizeUpdate then some (.error memoryError)
  else decodeLiteralHeaderField behind h

/-- What `hpack_decode` returns and leaves behind. -/
structure Result where
  rc : ℤ
  headers : HeaderList

/-- The variables of the loop of `hpack_decoder_decode`. -/
structure State where
  pointer : ℕ
  canReceiveSizeUpdate : Bool
  headers : HeaderList

/-- A representation passes the checks that come before its decoding. -/
def Admitted (s : State) (h : EncodedHeader) : Prop :=
  ¬ (h.preamble = .dynamicTableSizeUpdate ∧ s.canReceiveSizeUpdate = false) ∧
    checkErrors h = false

instance (s : State) (h : EncodedHeader) : Decidable (Admitted s h) :=
  inferInstanceAs (Decidable (_ ∧ _))

/-- The rest of a round, after the representation is decoded. -/
def finishRound (s : State) (h : EncodedHeader) (bytesRead : ℕ) : Except ℤ Header → Result ⊕ State
  | .error rc => .inl ⟨rc, s.headers⟩
  | .ok (name, value) =>
    let canReceiveSizeUpdate := s.canReceiveSizeUpdate && h.preamble = .dynamicTableSizeUpdate
    if name ≠ [] ∧ value ≠ [] then
      match s.headers.add name value with
      | none => .inl ⟨-1, s.headers⟩
      | some headers => .inr ⟨s.pointer + bytesRead, canReceiveSizeUpdate, headers⟩
    else .inr ⟨s.pointer + bytesRead, canReceiveSizeUpdate, s.headers⟩

section Loop

variable (behind : Behind)

/-- The loop of `hpack_decoder_decode`, `none` where an assertion fails. -/
def decodeLoop (headerBlock : Bytes) (headerBlockSize : ℕ) : ℕ → State → Option Result
  | 0, s => some ⟨s.pointer, s.headers⟩
  | fuel + 1, s =>
    if s.pointer < headerBlockSize then
      match parseEncodedHeader (headerBlock.drop s.pointer) (headerBlockSize - s.pointer) with
      | none => some ⟨compressionError, s.headers⟩
      | some (h, bytesRead) =>
        if Admitted s h then
          match (decodeHeader (behind s.pointer) h).map (finishRound s h bytesRead) with
          | none => none
          | some (.inl result) => some result
          | some (.inr s') => decodeLoop headerBlock headerBlockSize fuel s'
        else some ⟨compressionError, s.headers⟩
    else if s.pointer > headerBlockSize then some ⟨internalError, s.headers⟩
    else some ⟨s.pointer, s.headers⟩

/-- `hpack_decode`. -/
def decode (headerBlock : Bytes) (headerBlockSize : ℕ) (headers : HeaderList) : Option Result :=
  decodeLoop behind headerBlock headerBlockSize (headerBlockSize + 1) ⟨0, true, headers⟩

/-- The representations that are decoded. -/
def loopRounds (headerBlock : Bytes) (headerBlockSize : ℕ) : ℕ → State → List EncodedHeader
  | 0, _ => []
  | fuel + 1, s =>
    if s.pointer < headerBlockSize then
      match parseEncodedHeader (headerBlock.drop s.pointer) (headerBlockSize - s.pointer) with
      | none => []
      | some (h, bytesRead) =>
        if Admitted s h then
          h :: match (decodeHeader (behind s.pointer) h).map (finishRound s h bytesRead) with
            | some (.inr s') => loopRounds headerBlock headerBlockSize fuel s'
            | _ => []
        else []
    else []

/-- The representations of a block that are decoded. -/
def rounds (headerBlock : Bytes) (headerBlockSize : ℕ) (headers : HeaderList) :
    List EncodedHeader :=
  loopRounds behind headerBlock headerBlockSize (headerBlockSize + 1) ⟨0, true, headers⟩

end Loop

/-! ## The claim -/

/-- What a representation with the index of a static entry stands for. -/
def staticField (behind : Bytes × Bytes) (h : EncodedHeader) : Except ℤ Header :=
  if h.preamble = .indexedHeaderField then
    .ok (staticName (h.index - 1), staticValue (h.index - 1))
  else withValue behind h (staticName (h.index - 1))

/-- The representations of a block use the static entries 1 to 61, a larger index ends the block
with `HPACK_COMPRESSION_ERROR`, and no assertion fails. -/
structure KeepsToStatic (behind : Behind) (headerBlock : Bytes) (size : ℕ) (headers : HeaderList) :
    Prop where
  entries : ∀ h ∈ rounds behind headerBlock size headers, 1 ≤ h.index → h.index ≤ 61 →
    ∀ b, decodeHeader b h = some (staticField b h)
  beyond : ∀ h ∈ rounds behind headerBlock size headers, 61 < h.index →
    (∀ b, decodeHeader b h = some (.error compressionError)) ∧
      ∃ result, decode behind headerBlock size headers = some result ∧ result.rc = compressionError
  asserts : (decode behind headerBlock size headers).isSome

/-- An index that is in the static table or refused: an indexed field with an index above 62 is; a
literal whose index is behind the table only if it has the last eight bits of a static entry, and a
value that is refused. -/
def Guarded (h : EncodedHeader) : Prop :=
  h.index ≤ 61 ∨
    if h.preamble = .indexedHeaderField then 62 < h.index
    else (0 < UInt8.ofNat h.index ∧ UInt8.ofNat h.index < 62) ∧
      (h.valueLiteral.decode hpackHeaderValueLen).1 = compressionError

instance (h : EncodedHeader) : Decidable (Guarded h) :=
  inferInstanceAs (Decidable (_ ∨ ite _ _ _))

/-! ## One representation -/

section Representation

variable {h : EncodedHeader} {behind : Bytes × Bytes}

theorem ofNat_bounds {n : ℕ} (h1 : 1 ≤ n) (h61 : n ≤ 61) :
    (0 < UInt8.ofNat n ∧ UInt8.ofNat n < 62) ∧ (UInt8.ofNat n).toNat = n := by
  have hn : (UInt8.ofNat n).toNat = n := by
    rw [UInt8.toNat_ofNat']
    omega
  refine ⟨⟨?_, ?_⟩, hn⟩
  · rw [UInt8.lt_iff_toNat_lt, hn]
    exact h1
  · rw [UInt8.lt_iff_toNat_lt, hn]
    exact Nat.lt_succ_of_le h61

/-- A literal whose name is looked up. -/
theorem decodeLiteralHeaderField_of_index (hindex : h.index ≠ 0) :
    decodeLiteralHeaderField behind h =
      if 0 < UInt8.ofNat h.index ∧ UInt8.ofNat h.index < 62 then
        some (withValue behind h (staticName ((UInt8.ofNat h.index).toNat - 1)))
      else none := by
  rw [decodeLiteralHeaderField, if_neg hindex, findEntryName, if_neg hindex, staticFindEntryName]
  split <;> rfl

/-- **The static entries 1 to 61 are used.** -/
theorem decodeHeader_entry (hupdate : h.preamble ≠ .dynamicTableSizeUpdate) (h1 : 1 ≤ h.index)
    (h61 : h.index ≤ 61) : decodeHeader behind h = some (staticField behind h) := by
  obtain ⟨hbounds, hn⟩ := ofNat_bounds h1 h61
  rw [decodeHeader, staticField]
  split
  · rw [findEntryNameAndValue, if_neg (by omega), if_neg (by omega), staticFindEntryNameAndValue,
      if_pos hbounds, hn]
    rfl
  · rw [decodeLiteralHeaderField_of_index (by omega), if_pos hbounds, hn]

theorem withValue_eq_compressionError (h : EncodedHeader) (name : Bytes) :
    withValue behind h name = .error compressionError ↔
      (h.valueLiteral.decode hpackHeaderValueLen).1 = compressionError := by
  change (if (h.valueLiteral.decode hpackHeaderValueLen).1 < 0 then
    Except.error (h.valueLiteral.decode hpackHeaderValueLen).1 else _) = _ ↔ _
  split
  · simp
  · rename_i hnonneg
    refine iff_of_false (by simp) fun heq => hnonneg ?_
    rw [heq]
    decide

/-- **An index behind the static table is refused** exactly if it is guarded. -/
theorem decodeHeader_beyond_iff (hupdate : h.preamble ≠ .dynamicTableSizeUpdate)
    (hbig : 61 < h.index) :
    decodeHeader behind h = some (.error compressionError) ↔ Guarded h := by
  have hnot : ¬ h.index ≤ 61 := by omega
  rw [decodeHeader, Guarded, or_iff_right hnot]
  split
  · rw [findEntryNameAndValue, if_neg (by omega)]
    by_cases h62 : h.index > 62
    · rw [if_pos h62]
      exact iff_of_true rfl h62
    · -- the first index behind the table passes the guard, and fails the assertion
      obtain heq : h.index = 62 := by omega
      rw [if_neg h62, heq]
      exact iff_of_false (by decide) (by decide)
  · rw [decodeLiteralHeaderField_of_index (by omega)]
    split
    · rename_i hbounds
      rw [Option.some.injEq, withValue_eq_compressionError, and_iff_right hbounds]
    · rename_i hbounds
      exact iff_of_false (by simp) fun hg => hbounds hg.1

/-- A guarded representation makes no assertion fail. -/
theorem Guarded.isSome (hg : Guarded h) (hok : checkErrors h = false) :
    (decodeHeader behind h).isSome := by
  by_cases hu : h.preamble = .dynamicTableSizeUpdate
  · simp [decodeHeader, hu]
  rcases Nat.eq_zero_or_pos h.index with hzero | hpos
  · by_cases hindexed : h.preamble = .indexedHeaderField
    · simp [checkErrors, hindexed, hzero] at hok
    · simp [decodeHeader, hindexed, hu, decodeLiteralHeaderField, hzero]
  · rcases Nat.lt_or_ge 61 h.index with hbig | hsmall
    · rw [(decodeHeader_beyond_iff hu hbig).mpr hg]
      rfl
    · rw [decodeHeader_entry hu hpos hsmall]
      rfl

end Representation

/-! ## Blocks -/

theorem parseLiteral_preamble {x : Bytes} {size index pointer bytesRead : ℕ} {preamble : Preamble}
    {h : EncodedHeader} (hparse : parseLiteral x size preamble index pointer = some (h, bytesRead)) :
    h.preamble = preamble := by
  rw [parseLiteral] at hparse
  split at hparse
  · split at hparse
    · cases hparse
    split at hparse
    · cases hparse
    · obtain ⟨rfl, -⟩ := Prod.mk.inj (Option.some.inj hparse)
      rfl
  · split at hparse
    · cases hparse
    · obtain ⟨rfl, -⟩ := Prod.mk.inj (Option.some.inj hparse)
      rfl

/-- A size update has no index. -/
theorem parseEncodedHeader_update {x : Bytes} {size bytesRead : ℕ} {h : EncodedHeader}
    (hparse : parseEncodedHeader x size = some (h, bytesRead))
    (hupdate : h.preamble = .dynamicTableSizeUpdate) : h.index = 0 := by
  rw [parseEncodedHeader_eq] at hparse
  split at hparse
  · cases hparse
  simp only at hparse
  split at hparse
  · rename_i hindexed
    obtain ⟨rfl, -⟩ := Prod.mk.inj (Option.some.inj hparse)
    rw [hindexed] at hupdate
    cases hupdate
  split at hparse
  · obtain ⟨rfl, -⟩ := Prod.mk.inj (Option.some.inj hparse)
    rfl
  · rename_i hnot
    split at hparse
    · cases hparse
    · exact absurd (parseLiteral_preamble hparse ▸ hupdate) hnot

section Blocks

variable {behind : Behind} {block : Bytes} {size fuel : ℕ} {s : State} {h : EncodedHeader}

theorem mem_loopRounds (hmem : h ∈ loopRounds behind block size fuel s) :
    (h.preamble = .dynamicTableSizeUpdate → h.index = 0) ∧ checkErrors h = false := by
  induction fuel generalizing s with
  | zero => cases hmem
  | succ fuel ih =>
    rw [loopRounds] at hmem
    split at hmem
    · split at hmem
      · cases hmem
      · rename_i hparse
        split at hmem
        · rename_i hadmitted
          rcases List.mem_cons.mp hmem with rfl | hmem
          · exact ⟨parseEncodedHeader_update hparse, hadmitted.2⟩
          · split at hmem
            · exact ih hmem
            · cases hmem
        · cases hmem
    · cases hmem

/-- An error in a round is what the block ends with. -/
theorem decodeLoop_error {rc : ℤ} (hmem : h ∈ loopRounds behind block size fuel s)
    (herror : ∀ b, decodeHeader b h = some (.error rc)) :
    ∃ result, decodeLoop behind block size fuel s = some result ∧ result.rc = rc := by
  induction fuel generalizing s with
  | zero => cases hmem
  | succ fuel ih =>
    rw [loopRounds] at hmem
    rw [decodeLoop]
    split at hmem
    · rename_i hlt
      rw [if_pos hlt]
      split at hmem
      · cases hmem
      · rename_i k bytesRead hparse
        split at hmem
        · rename_i hadmitted
          simp only [if_pos hadmitted]
          -- the header is the one of this round or of one that follows
          rcases List.mem_cons.mp hmem with rfl | hmem
          · rw [herror]
            exact ⟨_, rfl, rfl⟩
          · split at hmem
            · rename_i s' hround
              rw [hround]
              exact ih hmem
            · cases hmem
        · cases hmem
    · cases hmem

/-- No assertion fails if none does in a round. -/
theorem decodeLoop_isSome
    (hok : ∀ h ∈ loopRounds behind block size fuel s, ∀ b, (decodeHeader b h).isSome) :
    (decodeLoop behind block size fuel s).isSome := by
  induction fuel generalizing s with
  | zero => rfl
  | succ fuel ih =>
    rw [loopRounds] at hok
    rw [decodeLoop]
    split
    · rename_i hlt
      rw [if_pos hlt] at hok
      split
      · rfl
      · rename_i h bytesRead hparse
        simp only [hparse] at hok
        split
        · rename_i hadmitted
          rw [if_pos hadmitted, List.forall_mem_cons] at hok
          -- this round has a result, so it ends the block or hands on to the next
          obtain ⟨r, hr⟩ := Option.isSome_iff_exists.mp (hok.1 (behind s.pointer))
          cases hround : finishRound s h bytesRead r with
          | inl result => simp [hr, hround]
          | inr s' =>
            simp only [hr, Option.map_some, hround] at hok ⊢
            exact ih hok.2
        · rfl
    · split <;> rfl

end Blocks

/-- **A block is decoded as claimed** exactly if the index of each of its representations is
guarded. -/
theorem keepsToStatic_iff (behind : Behind) (block : Bytes) (size : ℕ) (headers : HeaderList) :
    KeepsToStatic behind block size headers ↔
      ∀ h ∈ rounds behind block size headers, Guarded h := by
  have hrounds : ∀ h ∈ rounds behind block size headers,
      (h.preamble = .dynamicTableSizeUpdate → h.index = 0) ∧ checkErrors h = false :=
    fun h hmem => mem_loopRounds hmem
  constructor
  · intro hkeeps h hmem
    -- only an index behind the static table has to be guarded
    rcases Nat.lt_or_ge 61 h.index with hbig | hsmall
    · have hupdate : h.preamble ≠ .dynamicTableSizeUpdate := fun hu => by
        have := (hrounds h hmem).1 hu
        omega
      exact (decodeHeader_beyond_iff hupdate hbig).mp ((hkeeps.beyond h hmem hbig).1 ([], []))
    · exact .inl hsmall
  · intro hguarded
    refine ⟨fun h hmem h1 h61 b => ?_, fun h hmem hbig => ?_, ?_⟩
    · refine decodeHeader_entry (fun hu => ?_) h1 h61
      have := (hrounds h hmem).1 hu
      omega
    · have hupdate : h.preamble ≠ .dynamicTableSizeUpdate := fun hu => by
        have := (hrounds h hmem).1 hu
        omega
      have herror : ∀ b, decodeHeader b h = some (.error compressionError) := fun b =>
        (decodeHeader_beyond_iff hupdate hbig).mpr (hguarded h hmem)
      exact ⟨herror, decodeLoop_error hmem herror⟩
    · exact decodeLoop_isSome fun h hmem b =>
        (hguarded h hmem).isSome (hrounds h hmem).2

/-- The indexed field 62 makes an assertion fail, and so does a literal with the name 256; the name
257 is taken for the first one of the static table. -/
theorem not_keepsToStatic :
    (decode zeroBehind [0xbe] 1 .reset).isSome = false ∧
      (decode zeroBehind [0x0f, 0xf1, 0x01, 0x01, 0x61] 5 .reset).isSome = false ∧
      (decode zeroBehind [0x0f, 0xf2, 0x01, 0x01, 0x61] 5 .reset).map Result.rc = some 5 ∧
      ¬ ∀ (behind : Behind) (block : Bytes) (size : ℕ) (headers : HeaderList),
        KeepsToStatic behind block size headers := by
  refine ⟨by decide +kernel, by decide +kernel, by decide +kernel, fun h => ?_⟩
  have hsome := (h zeroBehind [0xbe] 1 .reset).asserts
  revert hsome
  decide +kernel

end Two.Hpack.StaticOnly
