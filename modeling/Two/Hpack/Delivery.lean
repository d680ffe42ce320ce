import Two.Hpack.TmpBuffers

/-!
# The fields that are delivered

A round of `hpack_decode` hands its field to the header list if both buffers begin with a character
other than NUL. That is how a size update, which leaves the buffers empty, is told from a field; but
a field with an empty name or value is taken for an update, a NUL ends a string, and a string that
fills its buffer goes on in the memory behind it.

## Main definitions

* `fieldOf t h`: the field that a representation stands for
* `blockFields`: the fields of a block
* `EndsIn`, `LiteralsEnd`: a string is read back from its buffer as it was written

## Main results

* `readBack_eq_iff`: when a field is read back
* `loop_added`: the fields that are delivered
* `delivers_all_iff`: when they are all fields of the block
-/

namespace Two.Hpack

/-- The field that a representation stands for: an entry of the tables, or literal strings. A size
update stands for none. -/
def fieldOf (t : DynamicTable) (h : EncodedHeader) : Option Header :=
  if h.preamble = .indexedHeaderField then (findEntryNameAndValue t h.index).toOption
  else if h.preamble = .dynamicTableSizeUpdate then none
  else if h.index = 0 then
    some ((h.nameLiteral.decode hpackHeaderNameLen).2, (h.valueLiteral.decode hpackHeaderValueLen).2)
  else (findEntryName t h.index).toOption.map fun name =>
    (name, (h.valueLiteral.decode hpackHeaderValueLen).2)

/-- The field of a round. -/
def Round.field (r : Round) : Option Header := fieldOf r.state.table r.header

/-- The fields of the representations in the first `size` bytes of the memory, in order. -/
def blockFields (behind : Behind) (t : DynamicTable) (memory : Bytes) (size : ℕ)
    (headers : HeaderList) : List Header :=
  (blockRounds behind memory size (size + 1) (.init t headers)).filterMap Round.field

/-- What is read from the buffers after the strings of the field `f` were written there. The strings
of an entry are copied with their NUL. -/
def readBack (behind : Bytes × Bytes) (h : EncodedHeader) (f : Header) : Header :=
  if h.preamble = .indexedHeaderField then f
  else (if h.index = 0 then bufferString hpackHeaderNameLen behind.1 f.1 else f.1,
    bufferString hpackHeaderValueLen behind.2 f.2)

/-- A string without NUL that is shorter than its buffer of `size` cells; or one that is as long, and
what it has in excess and a NUL happen to lie behind the buffer. -/
def EndsIn (size : ℕ) (behind s : Bytes) : Prop :=
  NulFree s ∧ (s.length < size ∨ s.drop size = cstr behind)

instance (size : ℕ) (behind s : Bytes) : Decidable (EndsIn size behind s) :=
  inferInstanceAs (Decidable (_ ∧ _))

/-- The literals of a field end in their buffers. -/
def LiteralsEnd (behind : Bytes × Bytes) (h : EncodedHeader) (f : Header) : Prop :=
  h.IsLiteral → (h.index = 0 → EndsIn hpackHeaderNameLen behind.1 f.1) ∧
    EndsIn hpackHeaderValueLen behind.2 f.2

instance (behind : Bytes × Bytes) (h : EncodedHeader) (f : Header) :
    Decidable (LiteralsEnd behind h f) :=
  inferInstanceAs (Decidable (_ → (_ → _) ∧ _))

/-- Both strings begin with a character. -/
def NonEmpty (f : Header) : Prop := f.1 ≠ [] ∧ f.2 ≠ []

instance (f : Header) : Decidable (NonEmpty f) := inferInstanceAs (Decidable (_ ∧ _))

/-! ## Lookups -/

theorem copyToExtLoop_nulFree {t : DynamicTable} {pos fuel i : ℕ} {s : Bytes} {p : ℤ}
    (h : t.copyToExtLoop pos fuel i = some (s, p)) : NulFree s := by
  induction fuel generalizing i s with
  | zero => cases h
  | succ fuel ih =>
    rw [DynamicTable.copyToExtLoop] at h
    by_cases hb : t.cell (t.next + t.maxSize - pos + i) = 0
    · simp only [if_pos hb] at h
      obtain ⟨rfl, -⟩ := Prod.mk.inj (Option.some.inj h)
      exact nulFree_nil
    · simp only [if_neg hb] at h
      obtain ⟨⟨s', p'⟩, hrest, heq⟩ := Option.map_eq_some_iff.mp h
      obtain ⟨rfl, rfl⟩ := Prod.mk.inj heq
      exact nulFree_cons.mpr ⟨hb, ih hrest⟩

/-- A lookup ends with a negative code, or with a result that satisfies `P`. -/
def Found {α : Type} (P : α → Prop) : Except ℤ α → Prop
  | .error rc => rc < 0
  | .ok a => P a

theorem internalError_neg : internalError < 0 := by decide

theorem findEntryName_found (t : DynamicTable) (index : ℕ) :
    Found NulFree (findEntryName t index) := by
  rw [findEntryName]
  split
  · rw [DynamicTable.findEntryName]
    split
    · exact (by decide : compressionError < 0)
    · simp only
      split
      · exact internalError_neg
      · split
        · exact internalError_neg
        · rename_i hname
          split
          · exact internalError_neg
          · exact copyToExtLoop_nulFree hname
  · exact staticName_nulFree _

theorem findEntryNameAndValue_found (t : DynamicTable) (index : ℕ) :
    Found (fun _ => True) (findEntryNameAndValue t index) := by
  rw [findEntryNameAndValue]
  split
  · rw [DynamicTable.findEntryNameAndValue]
    split
    · exact (by decide : compressionError < 0)
    · simp only
      split
      · exact internalError_neg
      · split
        · exact internalError_neg
        · split
          · exact internalError_neg
          · split
            · exact internalError_neg
            · split
              · exact internalError_neg
              · trivial
  · trivial

/-! ## One round -/

theorem bufferString_eq_self_iff {size : ℕ} {behind s : Bytes} :
    bufferString size behind s = s ↔ EndsIn size behind s := by
  by_cases hfree : NulFree s
  · rw [EndsIn, and_iff_right hfree]
    rcases Nat.lt_or_ge s.length size with hlt | hge
    · refine iff_of_true ?_ (.inl hlt)
      rw [bufferString_eq (.inl hlt), cstr_of_nulFree hfree]
    · -- the buffer is full, and what is read on has to be the rest
      have htake : NulFree (s.take size) := fun hmem => hfree (List.mem_of_mem_take hmem)
      have hread : bufferString size behind s = s.take size ++ cstr behind := by
        rw [bufferString, Nat.sub_eq_zero_of_le hge, List.replicate_zero, List.append_nil,
          cstr_append_of_nulFree htake]
      rw [hread, or_iff_right (by omega)]
      conv_lhs => rhs; rw [← List.take_append_drop size s]
      rw [List.append_cancel_left_eq, eq_comm]
  · refine iff_of_false (fun heq => hfree ?_) fun h => hfree h.1
    rw [← heq]
    exact nulFree_cstr _

/-- **What is read back is the field**, if its literals end in their buffers and only then. -/
theorem readBack_eq_iff {behind : Bytes × Bytes} {t : DynamicTable} {h : EncodedHeader} {f : Header}
    (hf : fieldOf t h = some f) : readBack behind h f = f ↔ LiteralsEnd behind h f := by
  rw [readBack, LiteralsEnd]
  by_cases hindexed : h.preamble = .indexedHeaderField
  · rw [if_pos hindexed]
    exact iff_of_true rfl fun hlit => absurd hindexed hlit.1
  · have hlit : h.IsLiteral := by
      refine ⟨hindexed, fun hupdate => ?_⟩
      rw [fieldOf, if_neg hindexed, if_pos hupdate] at hf
      cases hf
    rw [if_neg hindexed, forall_prop_of_true hlit, Prod.ext_iff, bufferString_eq_self_iff]
    refine and_congr_left fun _ => ?_
    by_cases hindex : h.index = 0
    · rw [if_pos hindex, forall_prop_of_true hindex, bufferString_eq_self_iff]
    · rw [if_neg hindex]
      exact iff_of_true rfl fun h0 => absurd h0 hindex

/-- What a round decodes: nothing in an update, and otherwise its field, as it is read back. -/
def Decodes (behind : Bytes × Bytes) (t : DynamicTable) (h : EncodedHeader) (e : Header) : Prop :=
  (fieldOf t h = none ∧ e = ([], [])) ∨ ∃ f, fieldOf t h = some f ∧ e = readBack behind h f

/-- The name of a literal is read back from its field. -/
theorem literalName_found (behind : Bytes × Bytes) (t : DynamicTable) {h : EncodedHeader}
    (hlit : h.IsLiteral) :
    Found (fun name => ∃ f, fieldOf t h = some f ∧ (name, h.valueRead behind.2) = readBack behind h f)
      (literalName behind.1 t h) := by
  rw [literalName]
  by_cases hindex : h.index = 0
  · rw [if_pos hindex]
    split
    · assumption
    · refine ⟨((h.nameLiteral.decode hpackHeaderNameLen).2,
        (h.valueLiteral.decode hpackHeaderValueLen).2), ?_, ?_⟩
      · rw [fieldOf, if_neg hlit.1, if_neg hlit.2, if_pos hindex]
      · rw [readBack, if_neg hlit.1, if_pos hindex]
        rfl
  · rw [if_neg hindex]
    have hfound := findEntryName_found t h.index
    cases hlookup : findEntryName t h.index with
    | error rc =>
      rw [hlookup] at hfound
      exact hfound
    | ok name =>
      refine ⟨(name, (h.valueLiteral.decode hpackHeaderValueLen).2), ?_, ?_⟩
      · rw [fieldOf, if_neg hlit.1, if_neg hlit.2, if_neg hindex, hlookup]
        rfl
      · rw [readBack, if_neg hlit.1, if_neg hindex]
        rfl

theorem decodeHeader_found (behind : Bytes × Bytes) (t : DynamicTable) (h : EncodedHeader) :
    Found (Decodes behind t h) (decodeHeader behind t h).2 := by
  rw [decodeHeader]
  by_cases hindexed : h.preamble = .indexedHeaderField
  -- an indexed field is an entry, which is copied with its NULs
  · rw [if_pos hindexed]
    have hfound := findEntryNameAndValue_found t h.index
    have hfield : fieldOf t h = (findEntryNameAndValue t h.index).toOption := if_pos hindexed
    cases hlookup : findEntryNameAndValue t h.index with
    | error rc =>
      rw [hlookup] at hfound
      exact hfound
    | ok e =>
      rw [hlookup] at hfield
      exact .inr ⟨e, hfield, by rw [readBack, if_pos hindexed]⟩
  · rw [if_neg hindexed]
    by_cases hupdate : h.preamble = .dynamicTableSizeUpdate
    -- a size update is no header
    · rw [if_pos hupdate]
      simp only
      split
      · assumption
      · exact .inl ⟨by rw [fieldOf, if_neg hindexed, if_pos hupdate], rfl⟩
    -- a literal: the name and the value as they are read back
    · rw [if_neg hupdate, decodeLiteralHeaderField_eq]
      have hname := literalName_found behind t ⟨hindexed, hupdate⟩
      cases hok : literalName behind.1 t h with
      | error rc =>
        rw [hok] at hname
        exact hname
      | ok name =>
        rw [hok] at hname
        have hdecodes : Decodes behind t h (name, h.valueRead behind.2) := .inr hname
        simp only
        split
        · assumption
        · split
          · split
            · assumption
            · exact hdecodes
          · exact hdecodes

/-! ## A block -/

variable {behind : Behind}

/-- What the header list is given of a round. -/
def Round.delivered (behind : Behind) (r : Round) : List Header :=
  (r.field.toList.map (readBack (behind r.state.pointer) r.header)).filter (NonEmpty ·)

/-- A round that is not the last one adds what it decodes, unless a string is empty. -/
theorem decodeParsed_inr {s s' : DecoderState} {h : EncodedHeader} {bytesRead : ℕ}
    (hround : decodeParsed behind s (some (h, bytesRead)) = .inr s') :
    ¬ (h.preamble = .dynamicTableSizeUpdate ∧ s.canReceiveSizeUpdate = false ∨
      checkErrors h = true) ∧
    s'.added = s.added ++ (Round.mk s h).delivered behind := by
  have hfound := decodeHeader_found (behind s.pointer) s.table h
  simp only [decodeParsed] at hround
  split at hround
  · cases hround
  split at hround
  · cases hround
  refine ⟨by tauto, ?_⟩
  rcases hdecode : decodeHeader (behind s.pointer) s.table h with ⟨t, rc | ⟨name, value⟩⟩
  · simp [hdecode] at hround
  · rw [hdecode] at hround hfound
    simp only at hround
    -- an update leaves both strings empty; a field is delivered if neither is
    have hadded : s'.added = s.added ++ if name ≠ [] ∧ value ≠ [] then [(name, value)] else [] := by
      split at hround
      · rw [if_pos ‹_›]
        cases hadd : s.headers.add name value with
        | none => simp [hadd] at hround
        | some headers =>
          rw [hadd] at hround
          obtain rfl := Sum.inr.inj hround
          rfl
      · rw [if_neg ‹_›]
        obtain rfl := Sum.inr.inj hround
        simp
    rw [hadded, Round.delivered]
    rcases hfound with ⟨hnone, heq⟩ | ⟨f, hsome, heq⟩
    · obtain ⟨rfl, rfl⟩ := Prod.mk.inj heq
      simp [Round.field, hnone]
    · simp only [Round.field, hsome, Option.toList_some, List.map_cons, List.map_nil, ← heq,
        List.filter_cons, List.filter_nil, decide_eq_true_eq]
      rfl

/-- A round that ends the block ends it with an error. -/
theorem decodeParsed_inl {s : DecoderState} {r : Option (EncodedHeader × ℕ)} {result : DecodeResult}
    (hround : decodeParsed behind s r = .inl result) : result.rc < 0 := by
  rcases r with - | ⟨h, bytesRead⟩
  · obtain rfl := Sum.inl.inj hround
    exact (by decide : compressionError < 0)
  have hfound := decodeHeader_found (behind s.pointer) s.table h
  simp only [decodeParsed] at hround
  -- a late size update and a failed check end the block with an error
  split at hround
  · obtain rfl := Sum.inl.inj hround
    exact (by decide : compressionError < 0)
  split at hround
  · obtain rfl := Sum.inl.inj hround
    exact (by decide : compressionError < 0)
  rcases hdecode : decodeHeader (behind s.pointer) s.table h with ⟨t, rc | ⟨name, value⟩⟩
  · rw [hdecode] at hround hfound
    obtain rfl := Sum.inl.inj hround
    exact hfound
  · rw [hdecode] at hround
    simp only at hround
    split at hround
    · cases hadd : s.headers.add name value with
      | none =>
        rw [hadd] at hround
        obtain rfl := Sum.inl.inj hround
        exact (by decide : (-1 : ℤ) < 0)
      | some headers => simp [hadd] at hround
    · cases hround

/-- **The fields that are delivered** in a block that is accepted. -/
theorem loop_added {memory : Bytes} {size fuel : ℕ} {s : DecoderState}
    (hok : 0 ≤ (s.loop behind memory size fuel).rc) :
    (s.loop behind memory size fuel).added = s.added ++
      (blockRounds behind memory size fuel s).flatMap (Round.delivered behind) := by
  induction fuel generalizing s with
  | zero => simp [DecoderState.loop, decodeLoop, blockRounds]
  | succ fuel ih =>
    by_cases hlt : s.pointer < size
    · rw [loop_succ _ _ _ _ _ hlt] at hok ⊢
      rw [blockRounds, if_pos hlt]
      -- a block that is accepted ends in no round, so each round adds its field
      rcases hparse : parseEncodedHeader (memory.drop s.pointer) (size - s.pointer) with
        - | ⟨h, bytesRead⟩
      · rw [hparse] at hok
        exact absurd hok (by decide : ¬ 0 ≤ compressionError)
      · rw [hparse] at hok
        cases hround : decodeParsed behind s (some (h, bytesRead)) with
        | inl result =>
          rw [hround] at hok
          have := decodeParsed_inl hround
          simp only at hok
          omega
        | inr s' =>
          obtain ⟨hrefused, hadded⟩ := decodeParsed_inr hround
          rw [hround] at hok
          simp only [hround, if_neg hrefused]
          rw [ih hok, hadded, List.append_assoc, List.flatMap_cons]
    · rw [blockRounds, if_neg hlt]
      simp only [DecoderState.loop, decodeLoop, if_neg hlt]
      split <;> simp

/-- The field of a round is delivered as it is. -/
def Round.Delivers (behind : Behind) (r : Round) : Prop :=
  ∀ f ∈ r.field, NonEmpty f ∧ LiteralsEnd (behind r.state.pointer) r.header f

instance (behind : Behind) (r : Round) : Decidable (r.Delivers behind) :=
  inferInstanceAs (Decidable (∀ f ∈ r.field, _))

theorem Round.length_delivered_le (r : Round) :
    (r.delivered behind).length ≤ r.field.toList.length := by
  refine (List.length_filter_le _ _).trans ?_
  rw [List.length_map]

theorem Round.delivered_eq_iff (r : Round) :
    r.delivered behind = r.field.toList ↔ r.Delivers behind := by
  rw [Round.Delivers, Round.delivered]
  cases hf : r.field with
  | none => simp
  | some f =>
    simp only [Option.toList_some, List.map_cons, List.map_nil, Option.mem_def, Option.some.injEq,
      forall_eq']
    rw [← readBack_eq_iff hf]
    generalize readBack (behind r.state.pointer) r.header f = e
    by_cases hne : NonEmpty e
    · rw [List.filter_cons, if_pos (decide_eq_true hne), List.filter_nil, List.cons.injEq,
        and_iff_left rfl]
      exact ⟨fun heq => ⟨heq ▸ hne, heq⟩, And.right⟩
    · -- nothing is delivered
      rw [List.filter_cons, if_neg (by simpa using hne), List.filter_nil]
      exact iff_of_false (by simp) fun h => hne (h.2 ▸ h.1)

theorem length_flatMap_delivered_le (rs : List Round) :
    (rs.flatMap (Round.delivered behind)).length ≤
      (rs.flatMap fun r => r.field.toList).length := by
  induction rs with
  | nil => exact le_rfl
  | cons r rs ih =>
    have hone := @Round.length_delivered_le behind r
    simp only [List.flatMap_cons, List.length_append]
    omega

theorem flatMap_delivered_eq {rs : List Round} :
    rs.flatMap (Round.delivered behind) = rs.filterMap Round.field ↔
      ∀ r ∈ rs, r.Delivers behind := by
  rw [List.filterMap_eq_flatMap_toList]
  induction rs with
  | nil => simp
  | cons r rs ih =>
    rw [List.flatMap_cons, List.flatMap_cons, List.forall_mem_cons, ← ih, ← r.delivered_eq_iff]
    constructor
    · -- a field that is lost is not made up for by the rest
      intro heq
      have hlen := congrArg List.length heq
      have hone := @Round.length_delivered_le behind r
      have hrest := @length_flatMap_delivered_le behind rs
      rw [List.length_append, List.length_append] at hlen
      exact List.append_inj heq (by omega)
    · rintro ⟨hone, hrest⟩
      rw [hone, hrest]

end Two.Hpack
