import Two.Hpack.BlockBounds
import Two.Hpack.EncodedSizes
import Two.Hpack.TableContents

/-!
# What `hpack_encode` returns and writes

The loop of `hpack_encoder_encode` adds up what it gets for each header, error codes included, and
gives every header the whole size of the buffer, wherever it begins. So a block may pass the end of
the buffer, a header that fails in the middle is skipped with a step back of one or two bytes, and
its entry stays in the dynamic table.

## Main definitions

* `totalSize`: the sum of the sizes and error codes of fields
* `Returns`: the trace loop ends after every field
* `WritesFit`: the writes of every field that is come to are in the buffer
* `RespectsBuffer`, `ReportsFailure`: what is claimed of the encoder
* `Unadded`, `Outweighed`: the lists for which it reports a failure, on the table before

## Main results

* `encodeFields_eq`: the result of the loop
* `respectsBuffer_iff`: when the encoder respects its buffer
* `reportsFailure_iff`: when it reports a failure
-/

namespace Two.Hpack

open HeaderList (packedSize packedSize_cons)

/-! ## The loop -/

/-- The sum of the sizes of the fields, and of the error codes of those that fail. -/
def totalSize (bufferSize : ℕ) (fs : List Field) : ℤ := (fs.map (fieldSize bufferSize)).sum

/-- The buffer after the last write, be it that the encoder returns or that it does not. -/
def fieldsBuffer (bufferSize : ℕ) : List Field → OutBuffer → ℤ → OutBuffer
  | [], o, _ => o
  | f :: fs, o, pointer =>
    let (rc, o) := encodeHeader f.packed f.header.1 f.header.2 o pointer bufferSize
    if rc + pointer ≥ 256 then o else fieldsBuffer bufferSize fs o (pointer + rc)

/-- After every field the bytes are fewer than 256, so the 8-bit counter of the trace loop gets to
their end. -/
def Returns (bufferSize : ℕ) : List Field → ℤ → Prop
  | [], _ => True
  | f :: fs, start =>
    start + fieldSize bufferSize f < 256 ∧ Returns bufferSize fs (start + fieldSize bufferSize f)

/-- Every field that is come to begins in the buffer, and all its writes end there. -/
def WritesFit (bufferSize : ℕ) : List Field → ℤ → Prop
  | [], _ => True
  | f :: fs, start =>
    0 ≤ start ∧ (∀ e ∈ fieldEnds bufferSize f, start + e ≤ bufferSize) ∧
      (start + fieldSize bufferSize f < 256 →
        WritesFit bufferSize fs (start + fieldSize bufferSize f))

/-- A field that is come to fails. -/
def Fails (bufferSize : ℕ) : List Field → ℤ → Prop
  | [], _ => False
  | f :: fs, start =>
    fieldSize bufferSize f < 0 ∨
      (start + fieldSize bufferSize f < 256 ∧ Fails bufferSize fs (start + fieldSize bufferSize f))

instance decidableReturns (bufferSize : ℕ) : (fs : List Field) → (start : ℤ) →
    Decidable (Returns bufferSize fs start)
  | [], _ => inferInstanceAs (Decidable True)
  | f :: fs, start =>
    have := decidableReturns bufferSize fs (start + fieldSize bufferSize f)
    inferInstanceAs (Decidable (_ ∧ _))

instance decidableWritesFit (bufferSize : ℕ) : (fs : List Field) → (start : ℤ) →
    Decidable (WritesFit bufferSize fs start)
  | [], _ => inferInstanceAs (Decidable True)
  | f :: fs, start =>
    have := decidableWritesFit bufferSize fs (start + fieldSize bufferSize f)
    inferInstanceAs (Decidable (_ ∧ _ ∧ (_ → _)))

instance decidableFails (bufferSize : ℕ) : (fs : List Field) → (start : ℤ) →
    Decidable (Fails bufferSize fs start)
  | [], _ => inferInstanceAs (Decidable False)
  | f :: fs, start =>
    have := decidableFails bufferSize fs (start + fieldSize bufferSize f)
    inferInstanceAs (Decidable (_ ∨ (_ ∧ _)))

section Loop

variable {bufferSize : ℕ} {fs : List Field} {o : OutBuffer} {start : ℤ}

/-- **The result of the loop.** -/
theorem encodeFields_eq : encodeFields bufferSize fs o start =
    if Returns bufferSize fs start then
      some (start + totalSize bufferSize fs, fieldsBuffer bufferSize fs o start)
    else none := by
  induction fs generalizing o start with
  | nil =>
    have hnil : Returns bufferSize [] start := trivial
    rw [encodeFields, if_pos hnil]
    simp [totalSize, fieldsBuffer]
  | cons f fs ih =>
    have hrc := (@encodeHeader_result o start bufferSize f).1
    rw [encodeFields, fieldsBuffer]
    generalize encodeHeader f.packed f.header.1 f.header.2 o start bufferSize = r at *
    obtain ⟨rc, o₁⟩ := r
    simp only at hrc ⊢
    subst hrc
    -- a position that no longer fits its byte never lets the loop end
    by_cases hbig : fieldSize bufferSize f + start ≥ 256
    · have hnot : ¬ Returns bufferSize (f :: fs) start := fun h => absurd h.1 (by omega)
      rw [if_pos hbig, if_neg hnot]
    · have hiff : Returns bufferSize (f :: fs) start ↔
          Returns bufferSize fs (start + fieldSize bufferSize f) :=
        and_iff_right (by omega)
      rw [if_neg hbig, if_neg hbig, ih, if_congr hiff rfl rfl]
      simp only [totalSize, List.map_cons, List.sum_cons, add_assoc]

/-- **The writes of the loop.** -/
theorem fieldsBuffer_within : (fieldsBuffer bufferSize fs o start).Within bufferSize ↔
    o.Within bufferSize ∧ WritesFit bufferSize fs start := by
  induction fs generalizing o start with
  | nil => simp [fieldsBuffer, WritesFit]
  | cons f fs ih =>
    have hrc := (@encodeHeader_result o start bufferSize f).1
    have hwithin := @encodeHeader_within o start bufferSize f
    rw [fieldsBuffer, WritesFit]
    generalize encodeHeader f.packed f.header.1 f.header.2 o start bufferSize = r at *
    obtain ⟨rc, o₁⟩ := r
    simp only at hrc hwithin ⊢
    subst hrc
    by_cases hbig : fieldSize bufferSize f + start ≥ 256
    · have hlt : ¬ start + fieldSize bufferSize f < 256 := by omega
      simp only [if_pos hbig, hwithin, hlt, false_implies, and_true]
    · have hlt : start + fieldSize bufferSize f < 256 := by omega
      simp only [if_neg hbig, ih, hwithin, hlt, true_implies, and_assoc]

end Loop

/-! ## Fields that do not fail -/

section Sizes

variable {bufferSize : ℕ} {s : Bytes} {f : Field} {fs : List Field} {start : ℤ}

/-- A string whose code lengths overflow their 32-bit sum is long, whatever its form. -/
theorem lt_length_stringBytes (h : ¬ ShortCode s) : 2 ^ 27 < (stringBytes s).length := by
  have hbits := bitLength_le s
  obtain ⟨hle, -⟩ := requiredBytes_spec (bitLength (s.map codeWord))
  rw [ShortCode] at h
  rw [stringBytes]
  split
  · rw [List.length_append]
    omega
  · obtain ⟨packed, heq, hlen⟩ := exists_packed (n := huffmanLength s) (s.map codeWord)
      (requiredBytes_mono (Nat.mod_le _ _))
    have hpacked : packedString s = packed := by rw [packedString, heq, Option.getD_some]
    rw [List.length_append, hpacked, hlen, huffmanLength]
    omega

/-- **The size of a string that does not fail** is the number of its bytes, unless the 32-bit sum of
the code lengths has wrapped around; then it is smaller. -/
theorem stringSize_of_nonneg (h : 0 ≤ stringSize bufferSize s) :
    stringSize bufferSize s ≤ (stringBytes s).length ∧
      (stringSize bufferSize s = (stringBytes s).length ↔ ShortCode s) := by
  by_cases hshort : ShortCode s
  · rw [← (@encodeString_size .empty 0 bufferSize s).1] at h ⊢
    have heq := (encodeString_of_nonneg hshort h).2.1
    exact ⟨heq.le, iff_of_true heq hshort⟩
  · have hlong := lt_length_stringBytes hshort
    have hle := @stringSize_le_maximum bufferSize s
    have hmax : hpackMaximumInteger = 4096 := rfl
    exact ⟨by omega, iff_of_false (by omega) hshort⟩

/-- The last write of a string ends with the string. -/
theorem exists_stringEnds (h : 0 ≤ stringSize bufferSize s) :
    ∃ e ∈ stringEnds bufferSize s, (e : ℤ) = stringSize bufferSize s := by
  rw [stringSize] at h ⊢
  rw [stringEnds]
  split
  · rename_i hkeeps
    refine ⟨encodedIntegerSize (codedLength s) 7 + codedLength s, ?_, by omega⟩
    simp [literalEnds, hkeeps.1, hkeeps.1.1]
  · rename_i hkeeps
    rw [if_neg hkeeps] at h
    split
    · rename_i hfits
      refine ⟨encodedIntegerSize (unsignedLength s) 7 + unsignedLength s, ?_, by omega⟩
      simp [literalEnds, hfits, hfits.1]
    · rename_i hfits
      rw [if_neg hfits] at h
      split at h <;> omega

/-- The code lengths of the strings that are sent for a field do not overflow their 32-bit sum. -/
def Field.ShortCode (f : Field) : Prop :=
  (f.packed.index = 0 → Hpack.ShortCode f.header.1) ∧
    (f.packed.preamble ≠ .indexedHeaderField → Hpack.ShortCode f.header.2)

/-- A field that the encoder emits: an index is small, and an indexed field has one. -/
structure Field.Emitted (f : Field) : Prop where
  index_le : f.packed.index ≤ hpackMaximumInteger
  index_pos : f.packed.preamble = .indexedHeaderField → 0 < f.packed.index

theorem Field.emitted (t : DynamicTable) (h : Header) :
    Field.Emitted ⟨(packHeader t h.1 h.2).1, h⟩ := by
  have h1 := findIndex_le t h.1 h.2
  have h2 := findIndexName_le t h.1
  have hmax : hpackMaximumInteger = 4096 := rfl
  rw [packHeader_eq]
  split
  · exact ⟨by simp only; omega, fun _ => by simp only; omega⟩
  · refine ⟨by simp only; omega, fun hindexed => ?_⟩
    simp only at hindexed
    split at hindexed <;> cases hindexed

theorem packHeaders_emitted (t : DynamicTable) (hs : List Header) :
    ∀ f ∈ (packHeaders t hs).1, f.Emitted := by
  induction hs generalizing t with
  | nil => simp
  | cons h hs ih =>
    rw [packHeaders_cons, List.forall_mem_cons]
    exact ⟨Field.emitted t h, ih _⟩

/-- The size of a field that does not fail is at most the number of its bytes, and exactly this unless
a sum of code lengths has wrapped around; its writes end there. -/
def Field.Sized (bufferSize : ℕ) (f : Field) : Prop :=
  fieldSize bufferSize f ≤ (fieldBytes f).length ∧
    (fieldSize bufferSize f = (fieldBytes f).length ↔ f.ShortCode) ∧
    ∃ e ∈ fieldEnds bufferSize f, e = fieldSize bufferSize f

/-- A field with a new name has two strings, neither of which has failed. -/
theorem Field.Emitted.sized_newName (he : f.Emitted) (h : 0 ≤ fieldSize bufferSize f)
    (hi : f.packed.index = 0) : f.Sized bufferSize := by
  have hp : f.packed.preamble ≠ .indexedHeaderField := fun hp => by
    have := he.index_pos hp
    omega
  rw [fieldSize] at h
  rw [Field.Sized, fieldSize, fieldEnds, Field.ShortCode]
  simp only [if_pos hi] at h ⊢
  by_cases hn : stringSize bufferSize f.header.1 < 0
  · rw [if_pos hn] at h
    omega
  by_cases hv : stringSize bufferSize f.header.2 < 0
  · rw [if_neg hn, if_pos hv] at h
    omega
  simp only [if_neg hn, if_neg hv]
  obtain ⟨e, hmem, heq⟩ := exists_stringEnds (not_lt.mp hv)
  obtain ⟨hname, hnameIff⟩ := stringSize_of_nonneg (not_lt.mp hn)
  obtain ⟨hvalue, hvalueIff⟩ := stringSize_of_nonneg (not_lt.mp hv)
  have hlen : ((fieldBytes f).length : ℤ) =
      1 + (stringBytes f.header.1).length + (stringBytes f.header.2).length := by
    rw [fieldBytes, hi, encodeInteger_zero, mapHead, if_neg hp, if_pos rfl]
    simp only [List.length_append, List.length_singleton]
    push_cast
    ring
  rw [hlen]
  refine ⟨by omega, ?_, _, List.mem_append_right _ (List.mem_map_of_mem hmem), by omega⟩
  simp only [hi, hp, ne_eq, not_false_eq_true, true_implies, ← hnameIff, ← hvalueIff]
  omega

/-- A field with an index has at most one string. -/
theorem Field.Emitted.sized_indexed (he : f.Emitted) (h : 0 ≤ fieldSize bufferSize f)
    (hi : f.packed.index ≠ 0) : f.Sized bufferSize := by
  obtain ⟨b, bs, hint, -, -⟩ := exists_encodeInteger_eq
    ((prefixSize_bounds f.packed.preamble).2.trans (by decide)) he.index_le
  have hone : ((bs.length + 1 : ℕ) : ℤ) < 0 ↔ False := iff_of_false (by omega) id
  rw [fieldSize] at h
  rw [Field.Sized, fieldSize, fieldEnds, Field.ShortCode]
  simp only [if_neg hi, hint, hone, if_false] at h ⊢
  by_cases hp : f.packed.preamble = .indexedHeaderField
  · have hlen : ((fieldBytes f).length : ℤ) = ((bs.length + 1 : ℕ) : ℤ) := by
      rw [fieldBytes, hint, if_pos hp]
      simp [mapHead]
    simp only [if_pos hp, hlen]
    refine ⟨le_refl _, iff_of_true trivial ⟨fun h0 => absurd h0 hi, fun hne => absurd hp hne⟩, _,
      List.mem_cons_of_mem _ List.mem_cons_self, rfl⟩
  · simp only [if_neg hp] at h ⊢
    by_cases hv : stringSize bufferSize f.header.2 < 0
    · rw [if_pos hv] at h
      omega
    simp only [if_neg hv]
    obtain ⟨e, hmem, heq⟩ := exists_stringEnds (not_lt.mp hv)
    obtain ⟨hvalue, hvalueIff⟩ := stringSize_of_nonneg (not_lt.mp hv)
    have hlen : ((fieldBytes f).length : ℤ) =
        ((bs.length + 1 : ℕ) : ℤ) + (stringBytes f.header.2).length := by
      rw [fieldBytes, hint, if_neg hp, if_neg hi]
      simp only [mapHead, List.length_append, List.length_cons, List.nil_append]
      push_cast
      ring
    rw [hlen]
    refine ⟨by omega, ?_, _, List.mem_cons_of_mem _ (List.mem_cons_of_mem _
      (List.mem_map_of_mem hmem)), by omega⟩
    simp only [hi, hp, ne_eq, not_false_eq_true, true_implies, false_implies, true_and,
      ← hvalueIff]
    omega

/-- **The size of a field that does not fail**, with a new name or with an index. -/
theorem Field.Emitted.size_of_nonneg (he : f.Emitted) (h : 0 ≤ fieldSize bufferSize f) :
    f.Sized bufferSize := by
  by_cases hi : f.packed.index = 0
  · exact he.sized_newName h hi
  · exact he.sized_indexed h hi

/-- Where no field fails and no sum of code lengths wraps around, the sum is the number of bytes of
the fields; otherwise it is smaller. -/
theorem totalSize_eq_iff (he : ∀ f ∈ fs, f.Emitted) :
    totalSize bufferSize fs ≤ (blockBytes fs).length ∧
      (totalSize bufferSize fs = (blockBytes fs).length ↔
        ∀ f ∈ fs, 0 ≤ fieldSize bufferSize f ∧ f.ShortCode) := by
  induction fs with
  | nil => simp [totalSize]
  | cons f fs ih =>
    rw [List.forall_mem_cons] at he
    obtain ⟨hle, hiff⟩ := ih he.2
    have hsum : totalSize bufferSize (f :: fs) =
        fieldSize bufferSize f + totalSize bufferSize fs := by
      simp [totalSize]
    rw [hsum, blockBytes_cons, List.length_append, List.forall_mem_cons, ← hiff]
    rcases lt_or_ge (fieldSize bufferSize f) 0 with hneg | hnonneg
    · omega
    · obtain ⟨hsize, hshort, -⟩ := he.1.size_of_nonneg hnonneg
      rw [← hshort]
      omega

/-- Fields that do not fail, and whose writes are in the buffer, end there. -/
theorem WritesFit.total_le (hw : WritesFit bufferSize fs start) (hr : Returns bufferSize fs start)
    (he : ∀ f ∈ fs, f.Emitted) (hok : ∀ f ∈ fs, 0 ≤ fieldSize bufferSize f)
    (hstart : start ≤ bufferSize) : start + totalSize bufferSize fs ≤ bufferSize := by
  induction fs generalizing start with
  | nil => simpa [totalSize] using hstart
  | cons f fs ih =>
    rw [List.forall_mem_cons] at he hok
    obtain ⟨-, hends, hrest⟩ := hw
    obtain ⟨-, -, e, hmem, rfl⟩ := he.1.size_of_nonneg hok.1
    have := ih (hrest hr.1) hr.2 he.2 hok.2 (hends _ hmem)
    simp only [totalSize, List.map_cons, List.sum_cons] at this ⊢
    omega

end Sizes

/-! ## The buffer -/

/-- The headers of a list that the encoder gets from `header_list_all`. -/
def listed (headers : HeaderList) : List Header := headers.all.take headers.count.toNat

/-- The fields that the encoder emits for a header list. -/
def emitted (t : DynamicTable) (headers : HeaderList) : List Field :=
  (packHeaders t (listed headers)).1

/-- A buffer into which nothing has been written. -/
def OutBuffer.unwritten (cell : ℤ → UInt8) : OutBuffer := ⟨cell, []⟩

theorem encode_eq (t : DynamicTable) (headers : HeaderList) (o : OutBuffer) (bufferSize : ℕ) :
    encode t headers o bufferSize =
      if Returns bufferSize (emitted t headers) 0 then
        some (totalSize bufferSize (emitted t headers), (packHeaders t (listed headers)).2,
          fieldsBuffer bufferSize (emitted t headers) o 0)
      else none := by
  rw [encode, encodeLoop_eq_fields, encodeFields_eq, zero_add]
  change (if Returns bufferSize (emitted t headers) 0 then _ else _ : Option _).map _ = _
  split <;> rfl

/-- All writes are in the buffer, and a result that is not negative is the number of bytes of the
complete encoding and not more than the size of the buffer. -/
structure RespectsBuffer (t : DynamicTable) (headers : HeaderList) (cell : ℤ → UInt8)
    (bufferSize : ℕ) : Prop where
  within : (fieldsBuffer bufferSize (emitted t headers) (.unwritten cell) 0).Within bufferSize
  result : ∀ rc t' o', encode t headers (.unwritten cell) bufferSize = some (rc, t', o') →
    0 ≤ rc → rc = (blockBytes (emitted t headers)).length ∧ rc ≤ bufferSize

/-- **The encoder respects its buffer** exactly if the writes of each field that it comes to are in
the buffer, counted from the sum of the sizes before it, and the sum is negative where a field has
failed or a sum of code lengths has wrapped around. -/
theorem respectsBuffer_iff (t : DynamicTable) (headers : HeaderList) (cell : ℤ → UInt8)
    (bufferSize : ℕ) :
    RespectsBuffer t headers cell bufferSize ↔
      WritesFit bufferSize (emitted t headers) 0 ∧
        (Returns bufferSize (emitted t headers) 0 →
          (∀ f ∈ emitted t headers, 0 ≤ fieldSize bufferSize f ∧ f.ShortCode) ∨
            totalSize bufferSize (emitted t headers) < 0) := by
  have he : ∀ f ∈ emitted t headers, f.Emitted := packHeaders_emitted t _
  obtain ⟨-, hiff⟩ := @totalSize_eq_iff bufferSize _ he
  have hempty : (OutBuffer.unwritten cell).Within bufferSize := fun e hmem => by cases hmem
  constructor
  · rintro ⟨hwithin, hresult⟩
    refine ⟨(fieldsBuffer_within.mp hwithin).2, fun hreturns => ?_⟩
    -- a negative total is reported as an error, whatever was stored
    rcases lt_or_ge (totalSize bufferSize (emitted t headers)) 0 with hneg | hnonneg
    · exact .inr hneg
    · have := hresult _ _ _ (by rw [encode_eq, if_pos hreturns]) hnonneg
      exact .inl (hiff.mp this.1)
  · rintro ⟨hwrites, hcases⟩
    refine ⟨fieldsBuffer_within.mpr ⟨hempty, hwrites⟩, fun rc t' o' heq hnonneg => ?_⟩
    rw [encode_eq] at heq
    split at heq
    · rename_i hreturns
      obtain ⟨rfl, -⟩ := Prod.mk.inj (Option.some.inj heq)
      rcases hcases hreturns with hok | hneg
      · refine ⟨hiff.mpr hok, ?_⟩
        have := hwrites.total_le hreturns he (fun f hf => (hok f hf).1) (by omega)
        omega
      · omega
    · cases heq

/-- A list with the headers `a: b` and `c: d`. -/
def twoHeaders : HeaderList :=
  ⟨HeaderList.records [(ascii "a", ascii "b"), (ascii "c", ascii "d")], 2⟩

/-- Each header is encoded in five bytes, and every string in two; a buffer of eight bytes is passed
without notice. -/
theorem not_respectsBuffer :
    ¬ ∀ (t : DynamicTable) (headers : HeaderList) (cell : ℤ → UInt8) (bufferSize : ℕ),
      RespectsBuffer t headers cell bufferSize := by
  intro h
  have hwrites := (fieldsBuffer_within.mp (h newTable twoHeaders (fun _ => 0) 8).within).2
  revert hwrites
  decide +kernel

/-! ## Failures -/

/-- The values that `hpack_encoder_encode_header` returns, as far as the encoder gets. -/
def headerCodes (bufferSize : ℕ) : List Field → OutBuffer → ℤ → List ℤ
  | [], _, _ => []
  | f :: fs, o, pointer =>
    let (rc, o) := encodeHeader f.packed f.header.1 f.header.2 o pointer bufferSize
    rc :: if rc + pointer ≥ 256 then [] else headerCodes bufferSize fs o (pointer + rc)

theorem exists_headerCodes {bufferSize : ℕ} {fs : List Field} {o : OutBuffer} {start : ℤ} :
    (∃ rc ∈ headerCodes bufferSize fs o start, rc < 0) ↔ Fails bufferSize fs start := by
  induction fs generalizing o start with
  | nil => simp [headerCodes, Fails]
  | cons f fs ih =>
    have hrc := (@encodeHeader_result o start bufferSize f).1
    rw [headerCodes, Fails]
    generalize encodeHeader f.packed f.header.1 f.header.2 o start bufferSize = r at *
    obtain ⟨rc, o₁⟩ := r
    simp only at hrc ⊢
    subst hrc
    rw [List.exists_mem_cons_iff]
    by_cases hbig : fieldSize bufferSize f + start ≥ 256
    · have hlt : ¬ start + fieldSize bufferSize f < 256 := by omega
      simp [if_pos hbig, hlt]
    · have hlt : start + fieldSize bufferSize f < 256 := by omega
      rw [if_neg hbig, ih]
      simp [hlt]

/-- If one of the headers fails, the encoder returns a negative value and leaves the table as it
was. -/
def ReportsFailure (t : DynamicTable) (headers : HeaderList) (o : OutBuffer) (bufferSize : ℕ) :
    Prop :=
  (∃ rc ∈ headerCodes bufferSize (emitted t headers) o 0, rc < 0) →
    ∃ rc o', encode t headers o bufferSize = some (rc, t, o') ∧ rc < 0

theorem reportsFailure_iff_result {t : DynamicTable} {headers : HeaderList} {o : OutBuffer}
    {bufferSize : ℕ} : ReportsFailure t headers o bufferSize ↔
      (Fails bufferSize (emitted t headers) 0 →
        Returns bufferSize (emitted t headers) 0 ∧ totalSize bufferSize (emitted t headers) < 0 ∧
          (packHeaders t (listed headers)).2 = t) := by
  rw [ReportsFailure, exists_headerCodes, encode_eq]
  refine imp_congr_right fun _ => ?_
  split
  · rename_i hreturns
    simp only [Option.some.injEq, Prod.mk.injEq, hreturns, true_and]
    constructor
    · rintro ⟨rc, o', ⟨rfl, htable, -⟩, hneg⟩
      exact ⟨hneg, htable⟩
    · rintro ⟨hneg, htable⟩
      exact ⟨_, _, ⟨rfl, htable, rfl⟩, hneg⟩
  · rename_i hreturns
    simp [hreturns]

/-! ## Headers and the table before -/

/-- A string has room in the buffer, Huffman coded or as it is. -/
def HasRoom (bufferSize : ℕ) (s : Bytes) : Prop := KeepsHuffman bufferSize s ∨ RawFits bufferSize s

instance decidableHasRoom (bufferSize : ℕ) (s : Bytes) : Decidable (HasRoom bufferSize s) :=
  inferInstanceAs (Decidable (_ ∨ _))

section Before

variable (t : DynamicTable) (bufferSize : ℕ)

/-- The string of a header that has no room: the name, unless the tables hold it, or the value,
unless they hold the header. -/
def withoutRoom (h : Header) : Option Bytes :=
  if 0 < findIndex t h.1 h.2 then none
  else if findIndexName t h.1 ≤ 0 ∧ ¬ HasRoom bufferSize h.1 then some h.1
  else if ¬ HasRoom bufferSize h.2 then some h.2
  else none

/-- How far a header without room takes the end of the block back: by one byte if the string is
longer than `HPACK_MAXIMUM_INTEGER`, and by two otherwise. -/
def stepBack (h : Header) : ℕ :=
  match withoutRoom t bufferSize h with
  | none => 0
  | some s => if unsignedLength s ≤ hpackMaximumInteger then 2 else 1

/-- The bytes of a header in the block. -/
def lengthIn (h : Header) : ℕ := (fieldSize bufferSize ⟨(packHeader t h.1 h.2).1, h⟩).toNat

/-- A header that adds nothing to the table: the tables hold it, or it is larger than the dynamic
table. -/
def Unadded (h : Header) : Prop :=
  0 < findIndex t h.1 h.2 ∨ t.maxSize < (h.1.length + h.2.length + 32) % 2 ^ 16

instance decidableUnadded (h : Header) : Decidable (Unadded t h) :=
  inferInstanceAs (Decidable (_ ∨ _))

/-- No header of the list adds to the table, the headers with room have fewer bytes than those
without room take back, and at no header there are 256 bytes. -/
structure Outweighed (hs : List Header) : Prop where
  unadded : ∀ h ∈ hs, Unadded t h
  outweighed : (hs.map (lengthIn t bufferSize)).sum < (hs.map (stepBack t bufferSize)).sum
  below : ∀ k ≤ hs.length, ((hs.take k).map (lengthIn t bufferSize)).sum <
    ((hs.take k).map (stepBack t bufferSize)).sum + 256

end Before

section Tables

variable {t : DynamicTable} {bufferSize : ℕ} {h : Header} {hs : List Header}

theorem stringSize_of_not_hasRoom {s : Bytes} (hroom : ¬ HasRoom bufferSize s) :
    stringSize bufferSize s = if unsignedLength s ≤ hpackMaximumInteger then -2 else -1 := by
  rw [stringSize, if_neg fun hkeeps => hroom (.inl hkeeps), if_neg fun hfits => hroom (.inr hfits)]

theorem stringSize_neg_iff {s : Bytes} : stringSize bufferSize s < 0 ↔ ¬ HasRoom bufferSize s := by
  rw [HasRoom, ← stringSize_nonneg_iff, not_le]

/-- A header counts its bytes, or the step back. -/
theorem fieldSize_eq_sub : fieldSize bufferSize ⟨(packHeader t h.1 h.2).1, h⟩ =
    (lengthIn t bufferSize h : ℤ) - stepBack t bufferSize h := by
  have hindex := (Field.emitted t h).index_le
  suffices hback : fieldSize bufferSize ⟨(packHeader t h.1 h.2).1, h⟩ =
      -(stepBack t bufferSize h : ℤ) ∨
      0 ≤ fieldSize bufferSize ⟨(packHeader t h.1 h.2).1, h⟩ ∧ stepBack t bufferSize h = 0 by
    rw [lengthIn]
    omega
  obtain ⟨b, bs, hint, -, -⟩ := exists_encodeInteger_eq
    ((prefixSize_bounds (packHeader t h.1 h.2).1.preamble).2.trans (by decide)) hindex
  have hone : ¬ ((bs.length + 1 : ℕ) : ℤ) < 0 := by omega
  rw [fieldSize]
  simp only [hint, hone, if_false]
  rw [packHeader_eq, stepBack, withoutRoom]
  by_cases hfound : 0 < findIndex t h.1 h.2
  · right
    simp only [if_pos hfound, if_true]
    rw [if_neg (by omega)]
    exact ⟨by omega, trivial⟩
  simp only [if_neg hfound, stringSize_neg_iff]
  have hpreamble : (if (t.addEntry h.1 h.2).2 < 0 then Preamble.literalHeaderFieldNeverIndexed
      else .literalHeaderFieldWithIncrementalIndexing) ≠ .indexedHeaderField := by
    split <;> decide
  simp only [if_neg hpreamble]
  by_cases hname : findIndexName t h.1 ≤ 0 ∧ ¬ HasRoom bufferSize h.1
  · left
    rw [if_pos (by omega), if_pos hname.2, if_pos hname, stringSize_of_not_hasRoom hname.2]
    simp only
    split <;> rfl
  rw [if_neg hname]
  have hroom : (findIndexName t h.1).toNat = 0 → HasRoom bufferSize h.1 := by
    intro hzero
    by_contra hnot
    exact hname ⟨by omega, hnot⟩
  by_cases hvalue : HasRoom bufferSize h.2
  · right
    have hnonneg := stringSize_neg_iff.not.mpr (not_not.mpr hvalue)
    simp only [hvalue, not_true_eq_false, if_false, and_true]
    split
    · rename_i hzero
      have hfirst := stringSize_neg_iff.not.mpr (not_not.mpr (hroom hzero))
      rw [if_neg (not_not.mpr (hroom hzero))]
      omega
    · omega
  · left
    simp only [hvalue, not_false_eq_true, if_true, stringSize_of_not_hasRoom hvalue]
    split
    · rename_i hzero
      rw [if_neg (not_not.mpr (hroom hzero))]
      split <;> rfl
    · split <;> rfl

/-- The sum of the sizes, as bytes less steps back. -/
theorem totalSize_map (hs : List Header) :
    totalSize bufferSize (hs.map fun h => ⟨(packHeader t h.1 h.2).1, h⟩) =
      ((hs.map (lengthIn t bufferSize)).sum : ℤ) - (hs.map (stepBack t bufferSize)).sum := by
  induction hs with
  | nil => rfl
  | cons h hs ih =>
    rw [totalSize] at ih ⊢
    simp only [List.map_cons, List.sum_cons, ih, fieldSize_eq_sub]
    push_cast
    ring

/-- The trace loops end exactly if every sum on the way is below 256. -/
theorem returns_iff_take {fs : List Field} {start : ℤ} (hstart : start < 256) :
    Returns bufferSize fs start ↔
      ∀ k ≤ fs.length, start + totalSize bufferSize (fs.take k) < 256 := by
  induction fs generalizing start with
  | nil => simpa [Returns, totalSize] using hstart
  | cons f fs ih =>
    have hcons : ∀ k, start + totalSize bufferSize ((f :: fs).take (k + 1)) =
        start + fieldSize bufferSize f + totalSize bufferSize (fs.take k) := by
      intro k
      simp only [totalSize, List.take_succ_cons, List.map_cons, List.sum_cons, add_assoc]
    rw [Returns]
    constructor
    · rintro ⟨hfirst, hrest⟩ k hk
      cases k with
      | zero => simpa [totalSize] using hstart
      | succ k =>
        rw [hcons]
        exact (ih hfirst).mp hrest k (by simpa using hk)
    · intro hall
      have hfirst : start + fieldSize bufferSize f < 256 := by
        have := hall 1 (by simp)
        rw [hcons] at this
        simpa [totalSize] using this
      refine ⟨hfirst, (ih hfirst).mpr fun k hk => ?_⟩
      rw [← hcons]
      exact hall (k + 1) (by simpa using hk)

/-- A list that adds nothing is packed with the table as it is. -/
theorem packHeaders_of_unadded (hun : ∀ h ∈ hs, Unadded t h) :
    packHeaders t hs = (hs.map fun h => ⟨(packHeader t h.1 h.2).1, h⟩, t) := by
  induction hs with
  | nil => rfl
  | cons h hs ih =>
    rw [List.forall_mem_cons] at hun
    have hkeeps : (packHeader t h.1 h.2).2 = t := by
      rw [packHeader_eq]
      rcases hun.1 with hfound | hlarge
      · rw [if_pos hfound]
      · rw [DynamicTable.addEntry]
        simp only
        rw [if_pos hlarge]
        split <;> rfl
    rw [packHeaders_cons, hkeeps, ih hun.2, List.map_cons]

/-- What packing a header does to the write position of the ring: nothing, or it is moved behind the
new entry. -/
theorem packHeader_next (hmax : t.maxSize < 2 ^ 15)
    (hsize : h.1.length + h.2.length + 2 < t.maxSize) :
    (packHeader t h.1 h.2).2 = t ∧ Unadded t h ∨
      (packHeader t h.1 h.2).2.maxSize = t.maxSize ∧
        (packHeader t h.1 h.2).2.next = (t.next + (h.1.length + h.2.length + 2)) % t.maxSize := by
  rw [packHeader_eq]
  by_cases hfound : 0 < findIndex t h.1 h.2
  · rw [if_pos hfound]
    exact .inl ⟨rfl, .inl hfound⟩
  rw [if_neg hfound]
  simp only
  rcases Nat.lt_or_ge t.maxSize (h.1.length + h.2.length + 32) with hlarge | hfit
  · left
    rw [DynamicTable.addEntry_of_gt t (by omega) hlarge]
    exact ⟨rfl, .inr (by rwa [Nat.mod_eq_of_lt (by omega)])⟩
  · right
    obtain ⟨t', rfl, heq⟩ := t.addEntry_eq h.1 h.2 (by omega) hfit
    rw [heq]
    simp only [DynamicTable.evictLoop_maxSize, DynamicTable.evictLoop_next, true_and]
    rw [Nat.add_mod_right]
    congr 1
    omega

/-- The write position of the ring after a list: where it has not moved, nothing was added. -/
theorem packHeaders_next (hmax : t.maxSize < 2 ^ 15) (hsize : packedSize hs < t.maxSize) :
    ∃ d ≤ packedSize hs, (packHeaders t hs).2.next % t.maxSize = (t.next + d) % t.maxSize ∧
      (d = 0 → ∀ h ∈ hs, Unadded t h) := by
  induction hs generalizing t with
  | nil => exact ⟨0, le_refl _, rfl, fun _ => by simp⟩
  | cons h hs ih =>
    rw [packedSize_cons] at hsize ⊢
    rw [packHeaders_cons]
    rcases packHeader_next (h := h) hmax (by omega) with ⟨hkeeps, hun⟩ | ⟨hmaxSize, hnext⟩
    · rw [hkeeps]
      obtain ⟨d, hd, hmoved, hzero⟩ := ih hmax (by omega)
      exact ⟨d, by omega, hmoved, fun h0 => List.forall_mem_cons.mpr ⟨hun, hzero h0⟩⟩
    · obtain ⟨d, hd, hmoved, -⟩ := ih (by rwa [hmaxSize]) (by rw [hmaxSize]; omega)
      refine ⟨h.1.length + h.2.length + 2 + d, by omega, ?_, by omega⟩
      rw [hmaxSize] at hmoved
      rw [hmoved, hnext, Nat.mod_add_mod, Nat.add_assoc]

/-- A list smaller than the ring does not bring its write position round, so a table that it leaves
as it is got nothing from it. -/
theorem unadded_of_packHeaders_eq (hmax : t.maxSize < 2 ^ 15) (hsize : packedSize hs < t.maxSize)
    (heq : (packHeaders t hs).2 = t) : ∀ h ∈ hs, Unadded t h := by
  obtain ⟨d, hd, hmoved, hzero⟩ := packHeaders_next hmax hsize
  rw [heq] at hmoved
  refine hzero (Nat.eq_zero_of_not_pos fun hpos => ?_)
  exact Ring.mod_ne_of_lt (show t.next < t.next + d by omega) (by omega) hmoved

end Tables

/-- Where no header adds to the table, the result is a sum over the list. -/
theorem outweighed_iff {t : DynamicTable} {bufferSize : ℕ} {headers : HeaderList}
    (hun : ∀ h ∈ listed headers, Unadded t h) :
    Outweighed t bufferSize (listed headers) ↔
      Returns bufferSize (emitted t headers) 0 ∧
        totalSize bufferSize (emitted t headers) < 0 := by
  have htotal := fun hs => @totalSize_map t bufferSize hs
  rw [emitted, packHeaders_of_unadded hun, returns_iff_take (by decide), htotal, List.length_map]
  simp only [zero_add, List.map_take.symm, htotal]
  constructor
  · intro ho
    exact ⟨fun k hk => by have := ho.below k hk; omega, by have := ho.outweighed; omega⟩
  · rintro ⟨hbelow, hneg⟩
    exact ⟨hun, by omega, fun k hk => by have := hbelow k hk; omega⟩

/-- **The encoder reports a failure** if the headers without room take back more bytes than the
others have, and none adds to the table. Where the list is smaller than the table, it does so in no
other case. -/
theorem reportsFailure_iff (t : DynamicTable) (headers : HeaderList) (o : OutBuffer)
    (bufferSize : ℕ) :
    (¬ Fails bufferSize (emitted t headers) 0 ∨ Outweighed t bufferSize (listed headers) →
        ReportsFailure t headers o bufferSize) ∧
      (t.maxSize < 2 ^ 15 → packedSize (listed headers) < t.maxSize →
        ReportsFailure t headers o bufferSize →
          ¬ Fails bufferSize (emitted t headers) 0 ∨
            Outweighed t bufferSize (listed headers)) := by
  rw [reportsFailure_iff_result]
  constructor
  · rintro (hnone | ho) hfails
    · exact absurd hfails hnone
    · obtain ⟨hreturns, hneg⟩ := (outweighed_iff ho.unadded).mp ho
      exact ⟨hreturns, hneg, by rw [packHeaders_of_unadded ho.unadded]⟩
  · intro hmax hsize hreports
    refine or_iff_not_imp_left.mpr fun hfails => ?_
    obtain ⟨hreturns, hneg, htable⟩ := hreports (not_not.mp hfails)
    exact (outweighed_iff (unadded_of_packHeaders_eq hmax hsize htable)).mpr ⟨hreturns, hneg⟩

/-- Three indexed fields, and a header whose name is longer than four bytes. -/
def longHeader : HeaderList :=
  ⟨HeaderList.records [(ascii ":method", ascii "GET"), (ascii ":scheme", ascii "https"),
    (ascii ":path", ascii "/"), (ascii "x-custom", ascii "v")], 4⟩

/-- An indexed field, and the header with the long name. -/
def unindexedList : HeaderList :=
  ⟨HeaderList.records [(ascii ":method", ascii "GET"), (ascii "x-custom", ascii "v")], 2⟩

/-- A table of 40 bytes is too small for the header, and its -2 exceeds the byte of the indexed
field; a table of the usual size gets the header. -/
theorem reportsFailure_unindexedList :
    ReportsFailure (dynamicChangeMaxSize newTable 40) unindexedList .empty 4 ∧
      ¬ ReportsFailure newTable unindexedList .empty 4 := by
  have hsmall : Outweighed (dynamicChangeMaxSize newTable 40) 4 (listed unindexedList) :=
    ⟨by decide +kernel, by decide +kernel, by decide +kernel⟩
  have hadded : ¬ ∀ h ∈ listed unindexedList, Unadded newTable h := by decide +kernel
  have hfails : Fails 4 (emitted newTable unindexedList) 0 := by decide +kernel
  refine ⟨(reportsFailure_iff _ _ _ _).1 (.inr hsmall), fun hreports => ?_⟩
  rcases (reportsFailure_iff newTable unindexedList .empty 4).2 (by decide) (by decide +kernel) hreports
    with hnone | ho
  · exact hnone hfails
  · exact hadded ho.unadded

/-- The last of four headers fails, and the encoder returns 1. -/
theorem not_reportsFailure :
    ¬ ∀ (t : DynamicTable) (headers : HeaderList) (o : OutBuffer) (bufferSize : ℕ),
      ReportsFailure t headers o bufferSize := by
  intro h
  obtain ⟨rc, o', heq, hneg⟩ :=
    h newTable longHeader .empty 4 (exists_headerCodes.mpr (by decide +kernel))
  rw [encode_eq, if_pos (by decide +kernel)] at heq
  obtain ⟨rfl, -⟩ := Prod.mk.inj (Option.some.inj heq)
  revert hneg
  decide +kernel

end Two.Hpack
