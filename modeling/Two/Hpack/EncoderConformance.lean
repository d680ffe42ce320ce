import Two.Hpack.Conformance
import Two.Hpack.HuffmanAcceptance

/-!
# The encoder conforms to RFC 7541

Bytes spell at most one block. Those that `hpack_encode` writes spell a block that means the encoded
headers, in the context of the encoder's table, exactly when every header is faithful.

## Main definitions

* `Field.representation`: the representation a field stands for

## Main results

* `SpellsBlock.unique`: a block is determined by its bytes
* `Field.Valid.spells`: the bytes of a field spell its representation
* `encode_conforms`: the block written by the encoder and its meaning
-/

namespace Two.Hpack

open BitStream

/-! ## Bytes spell one block -/

section Unique

variable {s s' bytes bytes' x y : Bytes} {r r' : Representation}

theorem SpellsString.unique (h : SpellsString s bytes) (h' : SpellsString s' bytes')
    (heq : bytes ++ x = bytes' ++ y) : s = s' ∧ x = y := by
  -- the tag tells the two forms apart, and the length where the string ends
  have split : ∀ {tag tag' : ℕ} {code code' : Bytes}, tag < 2 → tag' < 2 →
      PrefixInteger.encode 7 tag code.length ++ code ++ x =
        PrefixInteger.encode 7 tag' code'.length ++ code' ++ y →
      tag = tag' ∧ code = code' ∧ x = y := by
    intro tag tag' code code' htag htag' heq
    rw [List.append_assoc, List.append_assoc] at heq
    obtain ⟨rfl, hlen, hrest⟩ := PrefixInteger.encode_append_inj (by decide) htag htag' heq
    obtain ⟨rfl, rfl⟩ := List.append_inj hrest hlen
    exact ⟨rfl, rfl, rfl⟩
  cases h with
  | raw =>
    cases h' with
    | raw =>
      obtain ⟨-, rfl, rfl⟩ := split (by decide) (by decide) heq
      exact ⟨rfl, rfl⟩
    | huffman h' => exact absurd (split (by decide) (by decide) heq).1 (by decide)
  | huffman h =>
    cases h' with
    | raw => exact absurd (split (by decide) (by decide) heq).1 (by decide)
    | huffman h' =>
      obtain ⟨-, rfl, rfl⟩ := split (by decide) (by decide) heq
      exact ⟨h.splits.unique h'.splits, rfl⟩

/-- The head of a representation determines its preamble and its integer. -/
theorem head_append_inj (h : r.head ++ x = r'.head ++ y) :
    r.preamble = r'.preamble ∧ r.integer = r'.integer ∧ x = y := by
  -- the preamble is read off the first byte
  have first : ∀ (r : Representation) (x : Bytes),
      getPreamble ((r.head ++ x).getD 0 0) = r.preamble := by
    intro r x
    obtain ⟨b, c, bs, htagged, -, hb, hc⟩ := PrefixInteger.exists_encode_eq
      ((prefixSize_bounds r.preamble).2.trans (by decide)) (tagBits_lt r.preamble) r.integer
    rw [Representation.head, htagged, List.cons_append, List.getD_cons_zero,
      ← UInt8.ofNat_toNat (x := b), hb]
    exact getPreamble_tag _ _ hc
  have hpre : r.preamble = r'.preamble := by rw [← first r x, ← first r' y, h]
  rw [Representation.head, Representation.head, hpre] at h
  obtain ⟨-, hint, hrest⟩ := PrefixInteger.encode_append_inj
    ((prefixSize_bounds r'.preamble).2.trans (by decide)) (tagBits_lt _) (tagBits_lt _) h
  exact ⟨hpre, hint, hrest⟩

theorem LiteralKind.preamble_inj {kind kind' : LiteralKind} (h : kind.preamble = kind'.preamble) :
    kind = kind' := by
  cases kind <;> cases kind' <;> first | rfl | exact absurd h (by decide)

theorem Representation.Spells.unique (h : r.Spells bytes) (h' : r'.Spells bytes')
    (heq : bytes ++ x = bytes' ++ y) : r = r' ∧ x = y := by
  cases h with
  | indexed index =>
    cases h' with
    | indexed index' =>
      obtain ⟨-, hint, rfl⟩ := head_append_inj heq
      exact ⟨congrArg Representation.indexed hint, rfl⟩
    | indexedName kind hi hv =>
      rw [List.append_assoc] at heq
      exact absurd (head_append_inj heq).1.symm kind.preamble_ne.1
    | newName kind hn hv =>
      rw [List.append_assoc] at heq
      exact absurd (head_append_inj heq).1.symm kind.preamble_ne.1
    | sizeUpdate maxSize => exact absurd (head_append_inj heq).1 (by simp [Representation.preamble])
  | sizeUpdate maxSize =>
    cases h' with
    | indexed index => exact absurd (head_append_inj heq).1 (by simp [Representation.preamble])
    | indexedName kind hi hv =>
      rw [List.append_assoc] at heq
      exact absurd (head_append_inj heq).1.symm kind.preamble_ne.2
    | newName kind hn hv =>
      rw [List.append_assoc] at heq
      exact absurd (head_append_inj heq).1.symm kind.preamble_ne.2
    | sizeUpdate maxSize' =>
      obtain ⟨-, hint, rfl⟩ := head_append_inj heq
      exact ⟨congrArg Representation.sizeUpdate hint, rfl⟩
  | indexedName kind hi hv =>
    rw [List.append_assoc] at heq
    cases h' with
    | indexed index' => exact absurd (head_append_inj heq).1 kind.preamble_ne.1
    | indexedName kind' hi' hv' =>
      rw [List.append_assoc] at heq
      obtain ⟨hpre, hint, hrest⟩ := head_append_inj heq
      obtain ⟨rfl, rfl⟩ := hv.unique hv' hrest
      obtain rfl := LiteralKind.preamble_inj hpre
      exact ⟨congrArg (Representation.indexedName kind · _) hint, rfl⟩
    | newName kind' hn' hv' =>
      rw [List.append_assoc] at heq
      exact absurd (head_append_inj heq).2.1 (Nat.ne_of_gt hi)
    | sizeUpdate maxSize => exact absurd (head_append_inj heq).1 kind.preamble_ne.2
  | newName kind hn hv =>
    simp only [List.append_assoc] at heq
    cases h' with
    | indexed index' => exact absurd (head_append_inj heq).1 kind.preamble_ne.1
    | indexedName kind' hi' hv' =>
      simp only [List.append_assoc] at heq
      exact absurd (head_append_inj heq).2.1 (Nat.ne_of_lt hi')
    | newName kind' hn' hv' =>
      simp only [List.append_assoc] at heq
      obtain ⟨hpre, -, hrest⟩ := head_append_inj heq
      obtain ⟨rfl, hrest⟩ := hn.unique hn' hrest
      obtain ⟨rfl, rfl⟩ := hv.unique hv' hrest
      obtain rfl := LiteralKind.preamble_inj hpre
      exact ⟨rfl, rfl⟩
    | sizeUpdate maxSize => exact absurd (head_append_inj heq).1 kind.preamble_ne.2

/-- **A block is determined by its bytes.** -/
theorem SpellsBlock.unique {rs rs' : List Representation} (h : SpellsBlock rs bytes)
    (h' : SpellsBlock rs' bytes) : rs = rs' := by
  induction h generalizing rs' with
  | nil =>
    generalize hnil : ([] : Bytes) = bytes at h'
    cases h' with
    | nil => rfl
    | cons h' hs' =>
      have := h'.length_pos
      have := congrArg List.length hnil
      simp only [List.length_nil, List.length_append] at this
      omega
  | @cons r rs bytes₁ bytes₂ h hs ih =>
    generalize hbytes : bytes₁ ++ bytes₂ = bytes at h'
    cases h' with
    | nil =>
      have := h.length_pos
      have := congrArg List.length hbytes
      simp only [List.length_nil, List.length_append] at this
      omega
    | cons h' hs' =>
      obtain ⟨rfl, rfl⟩ := h.unique h' hbytes
      rw [ih hs']

end Unique

/-! ## The encoder spells its fields -/

section Fields

variable {f : Field} {s : Bytes}

theorem or_toByte (p : Preamble) : ∀ m < 2 ^ findPrefixSize p,
    (UInt8.ofNat m ||| p.toByte).toNat = tagBits p * 2 ^ findPrefixSize p + m := by
  cases p <;> decide +kernel

/-- The encoder puts the tag over the first byte of the integer. -/
theorem mapHead_encodeInteger (p : Preamble) {n : ℕ} (hn : n ≤ hpackMaximumInteger) :
    mapHead (· ||| p.toByte) (encodeInteger n (findPrefixSize p)).2 =
      PrefixInteger.encode (findPrefixSize p) (tagBits p) n := by
  have hp8 := (prefixSize_bounds p).2.trans (show 7 ≤ 8 by decide)
  obtain ⟨b, c, bs, htagged, hplain, hb, hc⟩ :=
    PrefixInteger.exists_encode_eq hp8 (tagBits_lt p) n
  have hbyte : c ||| p.toByte = b := by
    apply UInt8.toNat_inj.mp
    rw [hb, ← UInt8.ofNat_toNat (x := c), or_toByte p _ hc, UInt8.ofNat_toNat]
  rw [encodeInteger_eq hp8 hn, hplain, htagged, mapHead, hbyte]

/-- The encoder spells strings, raw or Huffman coded. -/
theorem spells_stringBytes (hs : s.length ≤ hpackMaximumInteger) :
    SpellsString s (stringBytes s) := by
  rw [stringBytes]
  split
  · rw [encodeInteger_eq (by decide) hs]
    exact .raw
  · have hn : huffmanLength s ≤ hpackMaximumInteger := by omega
    have hlen := (packedString_spec hn).2.1
    have htag : mapHead (· ||| 128) (encodeInteger (huffmanLength s) 7).2 =
        PrefixInteger.encode 7 1 (huffmanLength s) :=
      mapHead_encodeInteger .indexedHeaderField hn
    rw [htag, ← hlen]
    exact .huffman (padded_packedString hn)

/-- A literal field as a representation. -/
def Field.literal (f : Field) (kind : LiteralKind) : Representation :=
  if f.packed.index = 0 then .newName kind f.header.1 f.header.2
  else .indexedName kind f.packed.index f.header.2

/-- The representation a field stands for. -/
def Field.representation (f : Field) : Representation :=
  match f.packed.preamble with
  | .indexedHeaderField => .indexed f.packed.index
  | .literalHeaderFieldWithIncrementalIndexing => f.literal .incremental
  | .literalHeaderFieldWithoutIndexing => f.literal .without
  | .literalHeaderFieldNeverIndexed => f.literal .never
  | .dynamicTableSizeUpdate => .sizeUpdate f.packed.index

/-- A valid field is an indexed one or a literal of some kind. -/
theorem Field.Valid.cases (hf : f.Valid) :
    (f.packed.preamble = .indexedHeaderField ∧ 0 < f.packed.index ∧
      f.representation = .indexed f.packed.index) ∨
    ∃ kind : LiteralKind, f.packed.preamble = kind.preamble ∧
      f.representation = f.literal kind := by
  rcases hf.preamble with ⟨h, hi⟩ | h | h
  · exact .inl ⟨h, hi, by rw [Field.representation, h]⟩
  · exact .inr ⟨.incremental, h, by rw [Field.representation, h]⟩
  · exact .inr ⟨.never, h, by rw [Field.representation, h]⟩

theorem Field.Valid.supported (hf : f.Valid) : f.representation.Supported := by
  have hname : Readable hpackHeaderNameLen f.header.1 := ⟨hf.name_printable, hf.name_length⟩
  have hvalue : Readable hpackHeaderValueLen f.header.2 := ⟨hf.value_printable, hf.value_length⟩
  rcases hf.cases with ⟨-, -, h⟩ | ⟨kind, -, h⟩
  · rw [h]
    exact hf.index_le
  · rw [h, Field.literal]
    split
    · exact ⟨hname, hvalue⟩
    · exact ⟨hf.index_le, hvalue⟩

/-- **The bytes of a field** spell its representation. -/
theorem Field.Valid.spells (hf : f.Valid) : f.representation.Spells (fieldBytes f) := by
  have hmax : hpackMaximumInteger = 4096 := rfl
  have h32 : hpackHeaderNameLen = 32 := rfl
  have h64 : hpackHeaderValueLen = 64 := rfl
  have hname := hf.name_length
  have hvalue := hf.value_length
  have hn := spells_stringBytes (s := f.header.1) (by omega)
  have hv := spells_stringBytes (s := f.header.2) (by omega)
  rw [fieldBytes, mapHead_encodeInteger _ hf.index_le]
  rcases hf.cases with ⟨hpre, -, h⟩ | ⟨kind, hpre, h⟩
  · rw [h, if_pos hpre, List.append_nil, hpre]
    exact .indexed _
  · rw [h, if_neg (by rw [hpre]; exact kind.preamble_ne.1), hpre, Field.literal]
    by_cases hi : f.packed.index = 0
    · rw [if_pos hi, if_pos hi, hi]
      exact .newName kind hn hv
    · rw [if_neg hi, if_neg hi, List.nil_append]
      exact .indexedName kind (Nat.pos_of_ne_zero hi) hv

/-- The bytes of fields spell their representations. -/
theorem spells_blockBytes {fs : List Field} (hfs : ∀ f ∈ fs, f.Valid) :
    SpellsBlock (fs.map Field.representation) (blockBytes fs) := by
  induction fs with
  | nil => exact .nil
  | cons f fs ih =>
    exact .cons (hfs f List.mem_cons_self).spells (ih fun g hg => hfs g (List.mem_cons_of_mem _ hg))

end Fields

/-! ## What a field means -/

section Meaning

variable {t : DynamicTable} {a a' : AbstractTable} {f : Field} {e h : Header} {hs : List Header}

theorem Field.Valid.not_isUpdate (hf : f.Valid) : f.representation.isUpdate = false := by
  rcases hf.cases with ⟨-, -, h⟩ | ⟨kind, -, h⟩
  · rw [h]
    rfl
  · rw [h, Field.literal]
    split <;> rfl

/-- What is no size update means one header. -/
theorem Representation.meaning_header {r : Representation} (hu : r.isUpdate = false)
    (h : r.meaning a = some (a', hs)) : ∃ e, hs = [e] := by
  rcases r.meaning_headers h with rfl | he
  · cases r with
    | indexed index => simp [Representation.meaning] at h
    | indexedName kind index value => simp [Representation.meaning] at h
    | newName kind name value => simp [Representation.meaning] at h
    | sizeUpdate maxSize => cases hu
  · exact he

/-- The entry inserted is the header that is meant. -/
theorem Representation.insertion_eq {r : Representation} (hi : r.insertion a = some e)
    (h : r.meaning a = some (a', hs)) : hs = [e] := by
  cases r with
  | indexed index => cases hi
  | indexedName kind index value =>
    cases kind with
    | incremental =>
      obtain ⟨e', he, rfl⟩ := Option.map_eq_some_iff.mp hi
      obtain ⟨e'', he', heq⟩ := Option.map_eq_some_iff.mp h
      rw [he] at he'
      obtain rfl := Option.some.inj he'
      exact (Prod.mk.inj heq).2.symm
    | without => cases hi
    | never => cases hi
  | newName kind name value =>
    cases kind with
    | incremental =>
      obtain rfl := Option.some.inj hi
      exact (Prod.mk.inj (Option.some.inj h)).2.symm
    | without => cases hi
    | never => cases hi
  | sizeUpdate maxSize => cases hi

/-- Only a literal with incremental indexing inserts an entry. -/
theorem Representation.insertion_preamble {r : Representation} (hi : r.insertion a = some e) :
    r.preamble = .literalHeaderFieldWithIncrementalIndexing := by
  cases r with
  | indexed index => cases hi
  | indexedName kind index value => cases kind <;> first | rfl | cases hi
  | newName kind name value => cases kind <;> first | rfl | cases hi
  | sizeUpdate maxSize => cases hi

theorem Field.Valid.representation_preamble (hf : f.Valid) :
    f.representation.preamble = f.packed.preamble := by
  rcases hf.cases with ⟨hpre, -, h⟩ | ⟨kind, hpre, h⟩
  · rw [h, hpre]
    rfl
  · rw [h, hpre, Field.literal]
    split <;> rfl

/-- A field is parsed as its representation. -/
theorem Field.Valid.parsed (hf : f.Valid) : ∃ e, Parses f e ∧ Parsed f.representation e := by
  obtain ⟨e, hparse, hp⟩ := parseEncodedHeader_field hf _ [] (Nat.le_refl _)
  obtain ⟨e', hparse', hp'⟩ := parseEncodedHeader_spells hf.spells hf.supported (Nat.le_refl _) []
  obtain rfl := (Prod.mk.inj (Option.some.inj (hparse.symm.trans hparse'))).1
  exact ⟨e, hp, hp'⟩

/-- A field has the effect that its representation means. -/
theorem Field.Valid.applyField_of_meaning (hf : f.Valid) (ht : Abstracts http2HeaderTableSize t a)
    (hm : f.representation.meaning a = some (a', [e])) (hfit : f.representation.Fits a) :
    ∃ t', applyField t f = (t', .ok e) ∧ Abstracts http2HeaderTableSize t' a' := by
  obtain ⟨h, hp, hp'⟩ := hf.parsed
  rw [← hp.decodeHeader_eq hf ([], [])]
  exact hp'.decodeHeader_accepted hf.supported ht hm hfit

/-- A field with an effect means it. -/
theorem Field.Valid.meaning_of_applyField (hf : f.Valid) (ht : Abstracts http2HeaderTableSize t a)
    (hok : (applyField t f).2 = .ok e) :
    ∃ a', f.representation.meaning a = some (a', [e]) ∧ f.representation.Fits a := by
  obtain ⟨h, hp, hp'⟩ := hf.parsed
  rw [← hp.decodeHeader_eq hf ([], [])] at hok
  by_cases hbad : f.representation.Fits a → f.representation.meaning a = none
  · -- the decoder would refuse it
    rcases hp'.decodeHeader_refused hf.supported ht hbad with hcheck | ⟨rc, -, hdec⟩
    · rw [hp.checkErrors_eq hf] at hcheck
      cases hcheck
    · rw [hdec] at hok
      cases hok
  · obtain ⟨hfit, hsome⟩ := Classical.not_imp.mp hbad
    obtain ⟨⟨a', hs⟩, hm⟩ := Option.ne_none_iff_exists'.mp hsome
    obtain ⟨e', rfl⟩ := Representation.meaning_header hf.not_isUpdate hm
    obtain ⟨t', hdec, -⟩ := hp'.decodeHeader_accepted hf.supported ht hm hfit
    rw [hdec] at hok
    obtain rfl := Except.ok.inj hok
    exact ⟨a', hm, hfit⟩

theorem Abstracts.table (ht : Abstracts http2HeaderTableSize t a) : Table t a.entries :=
  ⟨ht.represents, by rw [ht.maxSize]; exact ht.maxSize_le, by rw [ht.limit]; exact ht.limit_le⟩

/-- The encoder asks for an insertion only if the entry fits. -/
theorem fits_packHeader (ht : Abstracts http2HeaderTableSize t a) (hh : Codable h)
    (hm : (Field.representation ⟨(packHeader t h.1 h.2).1, h⟩).meaning a = some (a', [h])) :
    (Field.representation ⟨(packHeader t h.1 h.2).1, h⟩).Fits a := by
  intro e he
  obtain rfl := (List.cons.inj (Representation.insertion_eq he hm)).1
  by_contra hbig
  -- the encoder found that the entry does not fit, and asked for none
  have hrefused := Represents.addEntry_of_gt (t := t) hh.entrySize_lt
    (by rw [ht.maxSize]; exact Nat.lt_of_not_le hbig)
  have hpre := Representation.insertion_preamble he
  rw [(packHeader_valid t hh).representation_preamble, packHeader_eq, hrefused,
    if_pos internalError_neg] at hpre
  split at hpre <;> cases hpre

/-- **One header** means itself exactly if it is in the static table or faithful. -/
theorem meaning_packHeader_iff (ht : Abstracts http2HeaderTableSize t a) (hh : Codable h) :
    ((∃ a', (Field.representation ⟨(packHeader t h.1 h.2).1, h⟩).meaning a = some (a', [h])) ↔
      (staticIndex h = none → Faithful t h)) ∧
    ∀ a', (Field.representation ⟨(packHeader t h.1 h.2).1, h⟩).meaning a = some (a', [h]) →
      Abstracts http2HeaderTableSize (packHeader t h.1 h.2).2 a' := by
  have hvalid := packHeader_valid t hh
  obtain ⟨hiff, htable⟩ := applyField_packHeader_iff ht.table hh
  refine ⟨⟨?_, fun hfaith => ?_⟩, fun a' hm => ?_⟩
  · rintro ⟨a', hm⟩
    obtain ⟨t', heq, -⟩ := hvalid.applyField_of_meaning ht hm (fits_packHeader ht hh hm)
    exact hiff.mp (by rw [heq])
  · obtain ⟨a', hm, -⟩ := hvalid.meaning_of_applyField ht (hiff.mpr hfaith)
    exact ⟨a', hm⟩
  · obtain ⟨t', heq, ht'⟩ := hvalid.applyField_of_meaning ht hm (fits_packHeader ht hh hm)
    rw [← htable (by rw [heq]), heq]
    exact ht'

end Meaning

/-! ## What a block means -/

section Block

variable {t : DynamicTable} {a : AbstractTable}

/-- The fields of a header list mean it exactly if it is faithful, and then the encoder's table holds
the context after them. -/
theorem blockMeaning_packHeaders_iff {hs : List Header}
    (ht : Abstracts http2HeaderTableSize t a) (hhs : ∀ h ∈ hs, Codable h) (start : Bool)
    (c : AbstractTable) :
    blockMeaning start a ((packHeaders t hs).1.map Field.representation) = some (c, hs) ↔
      FaithfulList t hs ∧ c = (packHeaders t hs).2.context := by
  induction hs generalizing t a start with
  | nil =>
    rw [packHeaders_nil, List.map_nil, blockMeaning]
    simp only [Option.some.injEq, Prod.mk.injEq, and_true, FaithfulList, true_and,
      ht.context_eq]
    exact eq_comm
  | cons h hs ih =>
    have hh := hhs h List.mem_cons_self
    have hu := (packHeader_valid t hh).not_isUpdate
    obtain ⟨hiff, htable⟩ := meaning_packHeader_iff ht hh
    have ih' := fun {t' a'} (ht' : Abstracts _ t' a') start =>
      ih ht' (fun k hk => hhs k (List.mem_cons_of_mem _ hk)) start
    rw [packHeaders_cons, List.map_cons, blockMeaning_cons (by rw [hu]; simp), FaithfulList]
    constructor
    · intro hb
      obtain ⟨⟨a₁, hs₁⟩, hm, hb⟩ := Option.bind_eq_some_iff.mp hb
      obtain ⟨⟨a₂, hs₂⟩, hrest, heq⟩ := Option.map_eq_some_iff.mp hb
      obtain ⟨e, rfl⟩ := Representation.meaning_header hu hm
      have hpair : a₂ = c ∧ e :: hs₂ = h :: hs := by simpa using heq
      obtain ⟨rfl, hcons⟩ := hpair
      obtain ⟨rfl, rfl⟩ := List.cons.inj hcons
      obtain ⟨hfaith, hc⟩ := (ih' (htable a₁ hm) _).mp hrest
      exact ⟨⟨hiff.mp ⟨a₁, hm⟩, hfaith⟩, hc⟩
    · rintro ⟨⟨hfaith, hfaiths⟩, rfl⟩
      obtain ⟨a₁, hm⟩ := hiff.mpr hfaith
      rw [hm, Option.bind_some, (ih' (htable a₁ hm) _).mpr ⟨hfaiths, rfl⟩]
      rfl

/-- **The encoder conforms to RFC 7541.** What `hpack_encode` writes spells a block, and only one.
In the context of the encoder's table, that block means the header list exactly when every header is
faithful; then the table it leaves holds the context after the block. -/
theorem encode_conforms {l : HeaderList} {hs : List Header} {bufferSize : ℕ} (ht : Reachable t)
    (hl : l.Holds hs) (hhs : ∀ h ∈ hs, Codable h)
    (hN : (blockBytes (packHeaders t hs).1).length < bufferSize)
    (h256 : (blockBytes (packHeaders t hs).1).length < 256) (o : OutBuffer) :
    ∃ (n : ℕ) (t' : DynamicTable) (out : OutBuffer),
      encode t l o bufferSize = some ((n : ℤ), t', out) ∧
      (∃ rs, SpellsBlock rs (out.bytes n)) ∧
      ∀ rs, SpellsBlock rs (out.bytes n) → ∀ c,
        blockMeaning true t.context rs = some (c, hs) ↔ FaithfulList t hs ∧ c = t'.context := by
  obtain ⟨out, heq, hbytes⟩ := encode_writes t hl hhs o hN h256
  have hspells := spells_blockBytes (valid_packHeaders t hhs)
  refine ⟨_, _, out, heq, ⟨_, by rw [hbytes]; exact hspells⟩, fun rs hrs c => ?_⟩
  rw [hbytes] at hrs
  rw [hrs.unique hspells]
  exact blockMeaning_packHeaders_iff ht.abstracts hhs true c

end Block

/-- The status and content type of a response, in a new connection. -/
theorem encode_conforms_response :
    let t := DynamicTable.init ⟨0, 0, 0, 0, 0, 0, fun _ => 0⟩ 4096
    let hs := [(ascii ":status", ascii "200"), (ascii "content-type", ascii "text/plain")]
    ∃ (n : ℕ) (t' : DynamicTable) (out : OutBuffer),
      encode t ⟨HeaderList.records hs, 2⟩ .empty 128 = some ((n : ℤ), t', out) ∧
      (∃ rs, SpellsBlock rs (out.bytes n)) ∧
      ∀ rs, SpellsBlock rs (out.bytes n) → ∀ c,
        blockMeaning true t.context rs = some (c, hs) ↔ FaithfulList t hs ∧ c = t'.context :=
  encode_conforms (.init _ (by decide)) ⟨rfl, rfl, by decide +kernel⟩
    (by
      simp only [List.mem_cons, List.not_mem_nil, or_false, forall_eq_or_imp, forall_eq]
      constructor <;> constructor <;> decide +kernel)
    (by decide +kernel) (by decide +kernel) .empty

end Two.Hpack
