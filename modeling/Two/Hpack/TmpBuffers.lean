import Two.Hpack.EosCheck
import Two.Hpack.IntegerSizes
import Two.Hpack.TableSearch

/-!
# The buffers of the decoder

`hpack_decode` collects the name and the value of a field in two buffers, which are zeroed before.
They are filled by the decoders of string literals and by copies from the two tables. The decoders
let through a string that is as long as its buffer, so no NUL is left, and the Huffman decoder
writes one more character. Strings that do not reach the end of their buffers stay in them, in the
table, and in every copy out of it.

## Main definitions

* `tmpWrites t h`: the cells that one representation writes in the two buffers
* `Bounded t h`: what is claimed of these writes
* `FitsBuffers t h`: the strings of a literal leave room for a NUL, or are refused in time
* `DecoderCall`, `rounds`: sequences of calls that change the decoder's table, and the
  representations that are decoded in them

## Main results

* `decodeHeader_bounded`: one representation
* `loop_bounded`: a block
* `rounds_bounded`: every block, after any sequence of calls
-/

namespace Two.Hpack

/-! ## The cells written -/

/-- The cells that `hpack_tables_dynamic_copy_to_ext` writes, from the first one on. -/
def DynamicTable.copyToExtWrites (t : DynamicTable) (initialPosition : ℕ) : ℕ → ℕ → Bytes
  | 0, _ => []
  | fuel + 1, i =>
    let b := t.cell (t.next + t.maxSize - initialPosition + i)
    if b = 0 then [0] else b :: copyToExtWrites t initialPosition fuel (i + 1)

/-- The cells that a lookup by index writes for the name. -/
def nameCopied (t : DynamicTable) (index : ℕ) : Bytes :=
  if index ≥ 62 then
    if t.nEntries < index - 61 then []
    else
      let position := t.posOfIndex index
      if position < 0 then [] else t.copyToExtWrites position.toNat (t.maxSize - 1) 1
  else staticName (index - 1)

/-- The cells that a lookup by index writes for the value, which is copied after the name. -/
def valueCopied (t : DynamicTable) (index : ℕ) : Bytes :=
  if index ≥ 62 then
    if t.nEntries < index - 61 then []
    else
      let position := t.posOfIndex index
      if position < 0 then []
      else
        match t.copyToExt position.toNat with
        | none => []
        | some (_, position) =>
          if position < 0 then [] else t.copyToExtWrites position.toNat (t.maxSize - 1) 1
  else staticValue (index - 1)

/-- The name literal of a representation. -/
def EncodedHeader.nameLiteral (h : EncodedHeader) : Literal :=
  ⟨h.huffmanBitOfName, h.nameLength, h.nameString⟩

/-- The value literal of a representation. -/
def EncodedHeader.valueLiteral (h : EncodedHeader) : Literal :=
  ⟨h.huffmanBitOfValue, h.valueLength, h.valueString⟩

/-- `hpack_decoder_decode_string` on a literal. -/
def Literal.decode (strLength : ℕ) (l : Literal) : ℤ × Bytes :=
  decodeString strLength l.region l.length l.huffmanBit

/-- The string written to `tmp_name` for a literal representation, or the error that its decoding
ends with. -/
def nameWritten (t : DynamicTable) (h : EncodedHeader) : Except ℤ Bytes :=
  if h.index = 0 then
    if (h.nameLiteral.decode hpackHeaderNameLen).1 < 0 then
      .error (h.nameLiteral.decode hpackHeaderNameLen).1
    else .ok (h.nameLiteral.decode hpackHeaderNameLen).2
  else findEntryName t h.index

/-- The name of a literal representation, as it is read from `tmp_name`, or the error that its
decoding ends with. -/
def literalName (behind : Bytes) (t : DynamicTable) (h : EncodedHeader) : Except ℤ Bytes :=
  if h.index = 0 then
    if (h.nameLiteral.decode hpackHeaderNameLen).1 < 0 then
      .error (h.nameLiteral.decode hpackHeaderNameLen).1
    else .ok (bufferString hpackHeaderNameLen behind (h.nameLiteral.decode hpackHeaderNameLen).2)
  else findEntryName t h.index

/-- The value read from `tmp_value`. -/
def EncodedHeader.valueRead (h : EncodedHeader) (behind : Bytes) : Bytes :=
  bufferString hpackHeaderValueLen behind (h.valueLiteral.decode hpackHeaderValueLen).2

/-- The literals that are decoded, with the sizes of their buffers; the value only after the name. -/
def decodedLiterals (t : DynamicTable) (h : EncodedHeader) : List (ℕ × Literal) :=
  if h.IsLiteral then
    (if h.index = 0 then [(hpackHeaderNameLen, h.nameLiteral)] else []) ++
      match nameWritten t h with
      | .error _ => []
      | .ok _ => [(hpackHeaderValueLen, h.valueLiteral)]
  else []

/-- The cells that one representation writes in `tmp_name` and `tmp_value`, from the first one on. -/
def tmpWrites (t : DynamicTable) (h : EncodedHeader) : Bytes × Bytes :=
  if h.preamble = .indexedHeaderField then (nameCopied t h.index, valueCopied t h.index)
  else if h.preamble = .dynamicTableSizeUpdate then ([], [])
  else
    (if h.index = 0 then (h.nameLiteral.decode hpackHeaderNameLen).2 else nameCopied t h.index,
      match nameWritten t h with
      | .error _ => []
      | .ok _ => (h.valueLiteral.decode hpackHeaderValueLen).2)

/-- The name and the value are handed on, to the dynamic table or to the header list. -/
def HandedOn (t : DynamicTable) (h : EncodedHeader) : Prop :=
  if h.preamble = .indexedHeaderField then ∃ e, findEntryNameAndValue t h.index = .ok e
  else if h.preamble = .dynamicTableSizeUpdate then False
  else (∃ name, nameWritten t h = .ok name) ∧ 0 ≤ (h.valueLiteral.decode hpackHeaderValueLen).1

/-- A zeroed buffer of `size` cells has a NUL after these writes. -/
def Terminated (size : ℕ) (writes : Bytes) : Prop :=
  writes.length < size ∨ 0 ∈ writes.take size

instance (size : ℕ) (writes : Bytes) : Decidable (Terminated size writes) :=
  inferInstanceAs (Decidable (_ ∨ _))

/-- The string of a literal. -/
def Literal.string (l : Literal) : Bytes :=
  if l.huffmanBit then symbols l.region l.length else l.region.take l.length

/-- The writes of one representation stay in the buffers, the strings handed on are terminated
there, and a string that cannot be ends in `HPACK_MEMORY_ERROR`. -/
structure Bounded (t : DynamicTable) (h : EncodedHeader) : Prop where
  name_writes : (tmpWrites t h).1.length ≤ hpackHeaderNameLen
  value_writes : (tmpWrites t h).2.length ≤ hpackHeaderValueLen
  terminated : HandedOn t h → Terminated hpackHeaderNameLen (tmpWrites t h).1 ∧
    Terminated hpackHeaderValueLen (tmpWrites t h).2
  longer : ∀ l ∈ decodedLiterals t h, (l.2.huffmanBit = true → Valid l.2.region l.2.length) →
    ¬ Terminated l.1 l.2.string → ∀ behind, (decodeHeader behind t h).2 = .error memoryError

/-! ## The strings that fit -/

/-- The symbols that the Huffman decoder finds: those of the complete code words, and the one that it
makes of a code word that is cut off. -/
def huffmanSymbols (buf : Bytes) (n : ℕ) : Bytes :=
  symbols buf n ++ (lastWord buf n (8 * n - bitsLeft buf n)).2

/-- A literal for which there is room in a buffer of `size` cells: it is not as long as the buffer,
unless it has a NUL in it; a Huffman-coded literal is not longer either, and may be as long if its
padding is refused. -/
def Literal.Fits (size : ℕ) (l : Literal) : Prop :=
  if l.huffmanBit then
    (huffmanSymbols l.region l.length).length ≤ size ∧
      ((huffmanSymbols l.region l.length).length = size →
        0 ∈ huffmanSymbols l.region l.length ∨
          (lastWord l.region l.length (8 * l.length - bitsLeft l.region l.length)).1 < 0)
  else l.length = size → 0 ∈ l.region.take size

instance (size : ℕ) (l : Literal) : Decidable (l.Fits size) :=
  inferInstanceAs (Decidable (ite _ _ _))

/-- There is room for the literals that are decoded. -/
def FitsBuffers (t : DynamicTable) (h : EncodedHeader) : Prop :=
  ∀ l ∈ decodedLiterals t h, l.2.Fits l.1

section Literals

variable {size : ℕ} {l : Literal}

theorem terminated_of_nul {writes : Bytes} (hle : writes.length ≤ size) (h : 0 ∈ writes) :
    Terminated size writes := by
  refine .inr ?_
  rwa [List.take_of_length_le hle]

/-- The C string in a buffer with a NUL is shorter than the buffer. -/
theorem Terminated.length_cstr_lt {writes : Bytes} (h : Terminated size writes) :
    (cstr writes).length < size := by
  have hle : (cstr writes).length ≤ writes.length := (List.takeWhile_prefix _).length_le
  rcases h with hlt | hmem
  · omega
  · by_contra hlong
    -- the first cells would all be characters
    have htake : writes.take size = (cstr writes).take size := by
      obtain ⟨rest, hrest⟩ : cstr writes <+: writes := List.takeWhile_prefix _
      conv_lhs => rw [← hrest]
      exact List.take_append_of_le_length (by omega)
    rw [htake] at hmem
    exact nulFree_cstr writes (List.mem_of_mem_take hmem)

/-- A literal for which there is room is written into its buffer, terminated if it is accepted, and
refused if it is too long. -/
structure Literal.Decoded (size : ℕ) (l : Literal) : Prop where
  writes : (l.decode size).2.length ≤ size
  terminated : 0 ≤ (l.decode size).1 → Terminated size (l.decode size).2
  longer : (l.huffmanBit = true → Valid l.region l.length) → ¬ Terminated size l.string →
    (l.decode size).1 = memoryError

theorem Literal.decoded_raw (hbit : l.huffmanBit = false) (h : l.Fits size) :
    l.Decoded size := by
  have hnul : l.length = size → 0 ∈ l.region.take size := by
    simpa [Literal.Fits, hbit] using h
  have hstring : l.string = l.region.take l.length := by simp [Literal.string, hbit]
  have hdecode : l.decode size = decodeNonHuffmanString size l.region l.length := by
    simp [Literal.decode, decodeString, hbit]
  have hlength : (l.region.take l.length).length ≤ l.length := List.length_take_le _ _
  rcases Nat.lt_or_ge size l.length with hlong | hle
  · have herror : l.decode size = (memoryError, []) := by
      rw [hdecode, decodeNonHuffmanString, if_pos hlong]
    exact ⟨by simp [herror], fun hok => by simp [herror, memoryError] at hok,
      fun _ _ => by rw [herror]⟩
  · have hok : (l.decode size).2 = l.region.take l.length := by
      rw [hdecode, decodeNonHuffmanString, if_neg (by omega)]
    have hterm : Terminated size (l.region.take l.length) := by
      rcases Nat.lt_or_ge l.length size with hlt | hge
      · exact .inl (by omega)
      · obtain heq : l.length = size := by omega
        rw [heq]
        exact terminated_of_nul (List.length_take_le _ _) (hnul heq)
    exact ⟨by rw [hok]; omega, fun _ => hok ▸ hterm, fun _ hno => absurd (hstring ▸ hterm) hno⟩

/-- In a valid string nothing is left behind the complete code words. -/
theorem Valid.lastWord {buf : Bytes} {n : ℕ} (hn : 0 < n) (h : Valid buf n) :
    (lastWord buf n (8 * n - bitsLeft buf n)).1 = 0 := by
  obtain ⟨h8, hones⟩ := valid_iff.mp h
  rcases @lastWord_eq buf n hn with ⟨-, -, hnot, -⟩ | ⟨-, heq⟩
  · exact absurd hones hnot
  · rw [heq, Nat.mod_eq_of_lt (by omega), if_pos ⟨h8, hones⟩]

theorem Literal.decoded_huffman (hsize : 0 < size) (hbit : l.huffmanBit = true)
    (hmax : l.length ≤ hpackMaximumInteger) (h : l.Fits size) : l.Decoded size := by
  obtain ⟨hle, hnul⟩ : (huffmanSymbols l.region l.length).length ≤ size ∧
      ((huffmanSymbols l.region l.length).length = size →
        0 ∈ huffmanSymbols l.region l.length ∨
          (lastWord l.region l.length (8 * l.length - bitsLeft l.region l.length)).1 < 0) := by
    simpa [Literal.Fits, hbit] using h
  have hstring : l.string = symbols l.region l.length := by simp [Literal.string, hbit]
  have hdecode : l.decode size = decodeHuffmanString size l.region l.length := by
    simp [Literal.decode, decodeString, hbit]
  rcases Nat.eq_zero_or_pos l.length with h0 | hn
  -- an empty string is decoded to nothing
  · have hempty : l.decode size = (1, []) := by
      rw [hdecode, h0]
      rfl
    refine ⟨by simp [hempty], fun _ => .inl (by simpa [hempty] using hsize), fun _ hno => ?_⟩
    rw [hstring, h0, symbols_zero] at hno
    exact absurd (.inl (by simpa using hsize)) hno
  -- the symbols that are written: those of the words, and those of the last word
  · have hsymbols : (symbols l.region l.length).length ≤ size := by
      rw [huffmanSymbols, List.length_append] at hle
      omega
    have hwords := @decodeHuffmanString_eq l.region _ size hn hmax hsymbols
    rw [← hdecode] at hwords
    have hwrites : (l.decode size).2 = huffmanSymbols l.region l.length := by
      rw [hwords]
      split <;> rfl
    refine ⟨by rw [hwrites]; exact hle, fun hok => ?_, fun hvalid hno => ?_⟩
    · rw [hwrites]
      -- a string that fills the buffer ends with a NUL in it, or is refused
      rcases Nat.lt_or_ge (huffmanSymbols l.region l.length).length size with hlt | hge
      · exact .inl hlt
      · rcases hnul (by omega) with hmem | hrefused
        · exact terminated_of_nul hle hmem
        · rw [hwords, if_pos hrefused] at hok
          exact absurd hrefused (by simpa using hok)
    · -- a valid string that fills the buffer would have a NUL in it
      refine absurd ?_ hno
      rw [hstring]
      rcases Nat.lt_or_ge (symbols l.region l.length).length size with hlt | hge
      · exact .inl hlt
      · have hlast := (hvalid hbit).lastWord hn
        have hnil : huffmanSymbols l.region l.length = symbols l.region l.length := by
          rw [huffmanSymbols, List.length_append] at hle
          rw [huffmanSymbols, List.eq_nil_of_length_eq_zero (l := (lastWord _ _ _).2) (by omega),
            List.append_nil]
        rw [hnil] at hnul
        rcases hnul (by omega) with hmem | hrefused
        · exact terminated_of_nul hsymbols hmem
        · omega

theorem Literal.Fits.decoded (hsize : 0 < size) (hmax : l.length ≤ hpackMaximumInteger)
    (h : l.Fits size) : l.Decoded size := by
  cases hbit : l.huffmanBit with
  | false => exact decoded_raw hbit h
  | true => exact decoded_huffman hsize hbit hmax h

end Literals

/-! ## Copies from the tables -/

/-- The table holds these entries, and each of them fits into the buffers with its NUL. -/
structure Short (t : DynamicTable) (D : List Header) : Prop where
  represents : Represents t D
  names : ∀ e ∈ D, e.1.length < hpackHeaderNameLen
  values : ∀ e ∈ D, e.2.length < hpackHeaderValueLen

theorem DynamicTable.copyToExtWrites_eq {t : DynamicTable} {pos fuel i : ℕ} {s : Bytes} {p : ℤ}
    (h : t.copyToExtLoop pos fuel i = some (s, p)) : t.copyToExtWrites pos fuel i = s ++ [0] := by
  induction fuel generalizing i s with
  | zero => cases h
  | succ fuel ih =>
    rw [copyToExtLoop] at h
    rw [copyToExtWrites]
    by_cases hb : t.cell (t.next + t.maxSize - pos + i) = 0
    · simp only [if_pos hb] at h ⊢
      obtain ⟨rfl, -⟩ := Prod.mk.inj (Option.some.inj h)
      rfl
    · simp only [if_neg hb] at h ⊢
      obtain ⟨⟨s', p'⟩, hrest, heq⟩ := Option.map_eq_some_iff.mp h
      obtain ⟨rfl, rfl⟩ := Prod.mk.inj heq
      rw [ih hrest, List.cons_append]

/-- What holds of all strings of a static table and of the empty string holds at every index. -/
theorem forall_static {P : Bytes → Prop} {literals : List String}
    (h : ∀ s ∈ "" :: literals, P (ascii s)) (i : ℕ) : P (ascii (literals.getD i "")) := by
  rcases Nat.lt_or_ge i literals.length with hi | hi
  · rw [List.getD_eq_getElem _ _ hi]
    exact h _ (List.mem_cons_of_mem _ (List.getElem_mem hi))
  · rw [List.getD_eq_default _ _ hi]
    exact h _ List.mem_cons_self

theorem staticName_lt (i : ℕ) : (staticName i).length < hpackHeaderNameLen :=
  @forall_static (fun s => s.length < hpackHeaderNameLen) staticNameLiterals (by decide +kernel) i

theorem staticValue_lt (i : ℕ) : (staticValue i).length < hpackHeaderValueLen :=
  @forall_static (fun s => s.length < hpackHeaderValueLen) staticValueLiterals (by decide +kernel) i

theorem terminated_concat {size : ℕ} {s : Bytes} (h : s.length < size) :
    (s ++ [0]).length ≤ size ∧ Terminated size (s ++ [0]) := by
  have hle : (s ++ [0]).length ≤ size := by
    rw [List.length_append, List.length_singleton]
    omega
  exact ⟨hle, terminated_of_nul hle (by simp)⟩

section Copies

variable {t : DynamicTable} {D : List Header}

theorem Short.nameCopied (h : Short t D) (index : ℕ) :
    (nameCopied t index).length ≤ hpackHeaderNameLen ∧
      Terminated hpackHeaderNameLen (nameCopied t index) := by
  rw [Hpack.nameCopied]
  split
  · obtain ⟨k, rfl⟩ := Nat.exists_eq_add_of_le ‹index ≥ 62›
    rw [h.represents.nEntries]
    split
    · exact ⟨by decide, by decide⟩
    · have hk : k < D.length := by omega
      rw [h.represents.posOfIndex hk, if_neg (by omega), Int.toNat_natCast,
        DynamicTable.copyToExtWrites_eq (h.represents.copyToExt hk).1]
      exact terminated_concat (h.names _ (List.getElem_mem hk))
  · have := staticName_lt (index - 1)
    exact ⟨this.le, .inl this⟩

theorem Short.valueCopied (h : Short t D) (index : ℕ) :
    (valueCopied t index).length ≤ hpackHeaderValueLen ∧
      Terminated hpackHeaderValueLen (valueCopied t index) := by
  rw [Hpack.valueCopied]
  split
  · obtain ⟨k, rfl⟩ := Nat.exists_eq_add_of_le ‹index ≥ 62›
    rw [h.represents.nEntries]
    split
    · exact ⟨by decide, by decide⟩
    · have hk : k < D.length := by omega
      obtain ⟨hname, p, hvalue⟩ := h.represents.copyToExt hk
      simp only [h.represents.posOfIndex hk, Int.toNat_natCast, hname]
      rw [if_neg (by omega), if_neg (by omega), DynamicTable.copyToExtWrites_eq hvalue]
      exact terminated_concat (h.values _ (List.getElem_mem hk))
  · have := staticValue_lt (index - 1)
    exact ⟨this.le, .inl this⟩

/-! ## Changes of the table -/

theorem Short.evictTo {t' : DynamicTable} {limit : ℕ} (h : Short t D)
    (ht : Represents t' (evictTo limit D)) : Short t' (evictTo limit D) :=
  ⟨ht, fun e he => h.names e ((evictTo_initial limit D).subset he),
    fun e he => h.values e ((evictTo_initial limit D).subset he)⟩

theorem Short.addEntry (h : Short t D) {name value : Bytes} (hname : NulFree name)
    (hvalue : NulFree value) (hn : name.length < hpackHeaderNameLen)
    (hv : value.length < hpackHeaderValueLen) : ∃ D', Short (t.addEntry name value).1 D' := by
  have h32 : hpackHeaderNameLen = 32 := rfl
  have h64 : hpackHeaderValueLen = 64 := rfl
  have hsize : entrySize (name, value) = name.length + value.length + 32 := rfl
  rcases Nat.lt_or_ge t.maxSize (entrySize (name, value)) with hlong | hfit
  · have hsame := Represents.addEntry_of_gt (t := t) (e := (name, value)) (by omega) hlong
    simp only at hsame
    rw [hsame]
    exact ⟨D, h⟩
  · have hadd := (h.represents.addEntry (e := (name, value)) ⟨hname, hvalue⟩ hfit).2
    have hsub := (evictTo_initial (t.maxSize - entrySize (name, value)) D).subset
    refine ⟨_, hadd, fun e he => ?_, fun e he => ?_⟩
    · rcases List.mem_cons.mp he with rfl | he
      · exact hn
      · exact h.names e (hsub he)
    · rcases List.mem_cons.mp he with rfl | he
      · exact hv
      · exact h.values e (hsub he)

theorem Short.resize (h : Short t D) (newMaxSize : ℕ) : ∃ D', Short (t.resize newMaxSize).1 D' := by
  rcases Nat.lt_or_ge t.settingsMaxTableSize newMaxSize with hlong | hle
  · rw [DynamicTable.resize, if_pos hlong]
    exact ⟨D, h⟩
  · exact ⟨_, h.evictTo (h.represents.resize hle).2⟩

theorem Short.dynamicChangeMaxSize (h : Short t D) (incomingMaxTableSize : ℕ) :
    ∃ D', Short (dynamicChangeMaxSize t incomingMaxTableSize) D' := by
  rw [Hpack.dynamicChangeMaxSize]
  split
  · rename_i hle
    have h4096 : http2HeaderTableSize = 4096 := rfl
    have hr := h.represents
    have hlimit : Represents { t with settingsMaxTableSize := incomingMaxTableSize } D :=
      ⟨hr.maxSize_lt, by simp only; omega, hr.first_lt, hr.next_eq, hr.nulFree, hr.actualSize,
        hr.size_le, hr.nEntries, hr.lies⟩
    exact Short.resize ⟨hlimit, h.names, h.values⟩ _
  · exact ⟨D, h⟩

/-! ## One representation -/

variable {h : EncodedHeader}

theorem decodeLiteralHeaderField_eq (behind : Bytes × Bytes) (t : DynamicTable)
    (h : EncodedHeader) : decodeLiteralHeaderField behind t h =
      match literalName behind.1 t h with
      | .error rc => (t, .error rc)
      | .ok name =>
        if (h.valueLiteral.decode hpackHeaderValueLen).1 < 0 then
          (t, .error (h.valueLiteral.decode hpackHeaderValueLen).1)
        else if h.preamble = .literalHeaderFieldWithIncrementalIndexing then
          if (t.addEntry name (h.valueRead behind.2)).2 < 0 then
            ((t.addEntry name (h.valueRead behind.2)).1,
              .error (t.addEntry name (h.valueRead behind.2)).2)
          else ((t.addEntry name (h.valueRead behind.2)).1, .ok (name, h.valueRead behind.2))
        else (t, .ok (name, h.valueRead behind.2)) := by
  simp only [decodeLiteralHeaderField, literalName, EncodedHeader.valueRead, Literal.decode,
    EncodedHeader.nameLiteral, EncodedHeader.valueLiteral]
  rfl

/-- Whether there is a name does not depend on the memory behind its buffer. -/
theorem literalName_eq (behind : Bytes) (t : DynamicTable) (h : EncodedHeader) :
    literalName behind t h = (nameWritten t h).map fun s =>
      if h.index = 0 then bufferString hpackHeaderNameLen behind s else s := by
  rw [literalName, nameWritten]
  split
  · split <;> rfl
  · cases findEntryName t h.index <;> rfl

theorem staticName_nulFree (i : ℕ) : NulFree (staticName i) :=
  @forall_static NulFree staticNameLiterals (by decide +kernel) i

/-- A name that is looked up is one of an entry. -/
theorem Short.findEntryName (ht : Short t D) {index : ℕ} {name : Bytes}
    (hname : findEntryName t index = .ok name) :
    NulFree name ∧ name.length < hpackHeaderNameLen := by
  rw [Hpack.findEntryName] at hname
  split at hname
  · obtain ⟨k, rfl⟩ := Nat.exists_eq_add_of_le ‹index ≥ 62›
    rw [ht.represents.findEntryName k] at hname
    cases hk : D[k]? with
    | none => simp [hk] at hname
    | some e =>
      simp only [hk, Except.ok.injEq] at hname
      obtain rfl := hname
      have hmem := List.mem_of_getElem? hk
      exact ⟨(ht.represents.nulFree e hmem).1, ht.names e hmem⟩
  · obtain rfl := Except.ok.inj hname
    exact ⟨staticName_nulFree _, staticName_lt _⟩

theorem Short.literalName (ht : Short t D)
    (hdecoded : h.index = 0 → h.nameLiteral.Decoded hpackHeaderNameLen) {behind name : Bytes}
    (hname : literalName behind t h = .ok name) :
    NulFree name ∧ name.length < hpackHeaderNameLen := by
  rw [Hpack.literalName] at hname
  split at hname
  · split at hname
    · cases hname
    · obtain rfl := Except.ok.inj hname
      have hterm := (hdecoded ‹_›).terminated (by omega)
      rw [bufferString_eq hterm]
      exact ⟨nulFree_cstr _, hterm.length_cstr_lt⟩
  · exact ht.findEntryName hname

/-- The name of a literal is handed on only if it is terminated. -/
theorem Short.nameWrites (ht : Short t D)
    (hdecoded : h.index = 0 → h.nameLiteral.Decoded hpackHeaderNameLen) :
    let writes := if h.index = 0 then (h.nameLiteral.decode hpackHeaderNameLen).2
      else Hpack.nameCopied t h.index
    writes.length ≤ hpackHeaderNameLen ∧
      ((∃ s, nameWritten t h = .ok s) → Terminated hpackHeaderNameLen writes) := by
  by_cases hindex : h.index = 0
  · simp only [if_pos hindex]
    refine ⟨(hdecoded hindex).writes, ?_⟩
    rintro ⟨s, hname⟩
    rw [nameWritten, if_pos hindex] at hname
    split at hname
    · cases hname
    · exact (hdecoded hindex).terminated (by omega)
  · simp only [if_neg hindex]
    exact ⟨(ht.nameCopied _).1, fun _ => (ht.nameCopied _).2⟩

theorem decodeHeader_literal (hlit : h.IsLiteral) (behind : Bytes × Bytes) (t : DynamicTable) :
    decodeHeader behind t h = decodeLiteralHeaderField behind t h := by
  rw [decodeHeader, if_neg hlit.1, if_neg hlit.2]

/-- The literals that are decoded: the name if there is no index, then the value if the name could be
read. -/
theorem decodedLiterals_literal (hlit : h.IsLiteral) (t : DynamicTable) : decodedLiterals t h =
    (if h.index = 0 then [(hpackHeaderNameLen, h.nameLiteral)] else []) ++
      match nameWritten t h with
      | .error _ => []
      | .ok _ => [(hpackHeaderValueLen, h.valueLiteral)] := if_pos hlit

/-- What is written to the two buffers: a decoded literal, or the copy of an entry. -/
theorem tmpWrites_literal (hlit : h.IsLiteral) (t : DynamicTable) : tmpWrites t h =
    (if h.index = 0 then (h.nameLiteral.decode hpackHeaderNameLen).2
      else Hpack.nameCopied t h.index,
      match nameWritten t h with
      | .error _ => []
      | .ok _ => (h.valueLiteral.decode hpackHeaderValueLen).2) := by
  rw [tmpWrites, if_neg hlit.1, if_neg hlit.2]

theorem FitsBuffers.name_decoded (hfits : FitsBuffers t h) (hlit : h.IsLiteral)
    (hn : h.nameLength ≤ hpackMaximumInteger) (hindex : h.index = 0) :
    h.nameLiteral.Decoded hpackHeaderNameLen := by
  refine (hfits (hpackHeaderNameLen, h.nameLiteral) ?_).decoded (by decide) hn
  simp [decodedLiterals_literal hlit, hindex]

theorem FitsBuffers.value_decoded (hfits : FitsBuffers t h) (hlit : h.IsLiteral)
    (hv : h.valueLength ≤ hpackMaximumInteger) {name : Bytes} (hok : nameWritten t h = .ok name) :
    h.valueLiteral.Decoded hpackHeaderValueLen := by
  refine (hfits (hpackHeaderValueLen, h.valueLiteral) ?_).decoded (by decide) hv
  simp [decodedLiterals_literal hlit, hok]

section Literal

variable (hlit : h.IsLiteral) (hfits : FitsBuffers t h) (hn : h.nameLength ≤ hpackMaximumInteger)
  (hv : h.valueLength ≤ hpackMaximumInteger)
include hlit hfits hn hv

/-- A literal that is too long makes the decoder fail. -/
theorem literal_longer {l : ℕ × Literal} (hl : l ∈ decodedLiterals t h)
    (hvalid : l.2.huffmanBit = true → Valid l.2.region l.2.length)
    (hlong : ¬ Terminated l.1 l.2.string) (behind : Bytes × Bytes) :
    (decodeHeader behind t h).2 = .error memoryError := by
  rw [decodedLiterals_literal hlit] at hl
  rw [decodeHeader_literal hlit, decodeLiteralHeaderField_eq]
  rcases List.mem_append.mp hl with hl | hl
  · split at hl
    · obtain rfl := List.mem_singleton.mp hl
      have hrc := (hfits.name_decoded hlit hn ‹_›).longer hvalid hlong
      have herror : Hpack.literalName behind.1 t h = .error memoryError := by
        rw [Hpack.literalName, if_pos ‹_›, hrc, if_pos (by decide)]
      rw [herror]
    · cases hl
  · cases hok : nameWritten t h with
    | error rc =>
      rw [hok] at hl
      cases hl
    | ok name =>
      rw [hok] at hl
      obtain rfl := List.mem_singleton.mp hl
      have hrc := (hfits.value_decoded hlit hv hok).longer hvalid hlong
      rw [literalName_eq, hok]
      simp only [hrc, Except.map]
      rw [if_pos (by decide)]

/-- An entry that is added has strings shorter than the buffers. -/
theorem Short.literal_table (ht : Short t D) (behind : Bytes × Bytes) :
    ∃ D', Short (decodeHeader behind t h).1 D' := by
  rw [decodeHeader_literal hlit, decodeLiteralHeaderField_eq]
  cases hwritten : nameWritten t h with
  | error rc =>
    rw [literalName_eq, hwritten]
    exact ⟨D, ht⟩
  | ok s =>
    obtain ⟨name, hok⟩ : ∃ name, Hpack.literalName behind.1 t h = .ok name := by
      rw [literalName_eq, hwritten]
      exact ⟨_, rfl⟩
    obtain ⟨hfree, hlt⟩ := ht.literalName (hfits.name_decoded hlit hn) hok
    simp only [hok]
    split
    · exact ⟨D, ht⟩
    · have hterm := (hfits.value_decoded hlit hv hwritten).terminated (by omega)
      have hread : h.valueRead behind.2 = cstr (h.valueLiteral.decode hpackHeaderValueLen).2 :=
        bufferString_eq hterm _
      have hadd := ht.addEntry hfree (nulFree_cstr _) hlt hterm.length_cstr_lt
      rw [hread]
      split
      · split <;> exact hadd
      · exact ⟨D, ht⟩

/-- **A literal representation** stays in the buffers. -/
theorem Short.literal_bounded (ht : Short t D) : Bounded t h := by
  have hwrites := tmpWrites_literal hlit t
  obtain ⟨hname, hterminated⟩ := ht.nameWrites (hfits.name_decoded hlit hn)
  refine ⟨?_, ?_, fun hhanded => ?_, fun _ => literal_longer hlit hfits hn hv⟩
  · rw [hwrites]
    exact hname
  · rw [hwrites]
    cases hok : nameWritten t h with
    | error rc => exact Nat.zero_le _
    | ok name => exact (hfits.value_decoded hlit hv hok).writes
  -- a header is handed on only when both strings were decoded, and then they end
  · rw [HandedOn, if_neg hlit.1, if_neg hlit.2] at hhanded
    obtain ⟨⟨name, hok⟩, hrc⟩ := hhanded
    rw [hwrites, hok]
    exact ⟨hterminated ⟨name, hok⟩, (hfits.value_decoded hlit hv hok).terminated hrc⟩

end Literal

/-- **One representation** stays in the buffers, and leaves a table of short entries. -/
theorem Short.bounded (ht : Short t D) (hfits : FitsBuffers t h)
    (hn : h.nameLength ≤ hpackMaximumInteger) (hv : h.valueLength ≤ hpackMaximumInteger) :
    Bounded t h ∧ ∀ behind, ∃ D', Short (decodeHeader behind t h).1 D' := by
  by_cases hindexed : h.preamble = .indexedHeaderField
  -- an indexed field copies the name and the value of its entry
  · have hnone : decodedLiterals t h = [] := if_neg fun hlit => hlit.1 hindexed
    have hwrites : tmpWrites t h = (Hpack.nameCopied t h.index, Hpack.valueCopied t h.index) := by
      rw [tmpWrites, if_pos hindexed]
    obtain ⟨hname, hnameTerminated⟩ := ht.nameCopied h.index
    obtain ⟨hvalue, hvalueTerminated⟩ := ht.valueCopied h.index
    refine ⟨⟨?_, ?_, fun _ => ?_, ?_⟩, fun behind => ⟨D, ?_⟩⟩
    · rw [hwrites]
      exact hname
    · rw [hwrites]
      exact hvalue
    · rw [hwrites]
      exact ⟨hnameTerminated, hvalueTerminated⟩
    · rw [hnone]
      rintro l ⟨⟩
    · rw [decodeHeader, if_pos hindexed]
      exact ht
  · by_cases hupdate : h.preamble = .dynamicTableSizeUpdate
    -- a size update writes to no buffer
    · have hnone : decodedLiterals t h = [] := if_neg fun hlit => hlit.2 hupdate
      have hwrites : tmpWrites t h = ([], []) := by
        rw [tmpWrites, if_neg hindexed, if_pos hupdate]
      refine ⟨⟨?_, ?_, ?_, ?_⟩, fun behind => ?_⟩
      · rw [hwrites]
        exact Nat.zero_le _
      · rw [hwrites]
        exact Nat.zero_le _
      · intro hhanded
        rw [HandedOn, if_neg hindexed, if_pos hupdate] at hhanded
        exact hhanded.elim
      · rw [hnone]
        rintro l ⟨⟩
      · have htable : (decodeHeader behind t h).1 = (t.resize h.dynamicTableSize).1 := by
          rw [decodeHeader, if_neg hindexed, if_pos hupdate]
          simp only
          split <;> rfl
        rw [htable]
        exact ht.resize _
    · exact ⟨ht.literal_bounded ⟨hindexed, hupdate⟩ hfits hn hv,
        ht.literal_table ⟨hindexed, hupdate⟩ hfits hn hv⟩

end Copies

/-! ## Blocks -/

/-- A representation that is decoded, with the variables of the loop before it. -/
structure Round where
  state : DecoderState
  header : EncodedHeader

/-- There is room for the literals of the representation. -/
def Round.Fits (r : Round) : Prop := FitsBuffers r.state.table r.header

/-- The representation stays in the buffers. -/
def Round.Bounded (r : Round) : Prop := Hpack.Bounded r.state.table r.header

/-- The representations of a block that are decoded. -/
def blockRounds (behind : Behind) (memory : Bytes) (size : ℕ) : ℕ → DecoderState → List Round
  | 0, _ => []
  | fuel + 1, s =>
    if s.pointer < size then
      match parseEncodedHeader (memory.drop s.pointer) (size - s.pointer) with
      | none => []
      | some (h, bytesRead) =>
        if h.preamble = .dynamicTableSizeUpdate ∧ s.canReceiveSizeUpdate = false ∨
            checkErrors h = true then []
        else ⟨s, h⟩ ::
          match decodeParsed behind s (some (h, bytesRead)) with
          | .inl _ => []
          | .inr s' => blockRounds behind memory size fuel s'
    else []

theorem decodeIntegerTail_le (maximumInteger : ℕ) (bytes : Bytes) {integer depth : ℕ} :
    decodeIntegerTail maximumInteger bytes integer depth ≤ maximumInteger := by
  induction bytes generalizing integer depth with
  | nil =>
    rw [decodeIntegerTail]
    split <;> omega
  | cons b bytes ih =>
    simp only [decodeIntegerTail]
    split
    · split <;> omega
    · exact ih

theorem decodeInteger_le {x : Bytes} {prefixSize : ℕ} (h7 : prefixSize ≤ 7) :
    decodeInteger x prefixSize ≤ hpackMaximumInteger := by
  rw [decodeInteger_eq h7]
  split
  · exact decodeIntegerTail_le _ _
  · have hbits : prefixBits prefixSize x < 2 ^ prefixSize := Nat.mod_lt _ (Nat.two_pow_pos _)
    have hpow : 2 ^ prefixSize ≤ 2 ^ 7 := Nat.pow_le_pow_right (by decide) h7
    have hmax : hpackMaximumInteger = 4096 := rfl
    omega

theorem parseString_length_le {x : Bytes} {size pointer : ℕ} {r : Bool × ℕ × Bytes × ℕ}
    (h : parseString x size pointer = some r) : r.2.1 ≤ hpackMaximumInteger := by
  have hle := decodeInteger_le (x := x.drop pointer) (show 7 ≤ 7 from le_rfl)
  have hlength := (parseString_eq_some h).1
  omega

/-- The lengths of the strings are within the limit of integers. -/
theorem parseEncodedHeader_lengths {x : Bytes} {size bytesRead : ℕ} {h : EncodedHeader}
    (hparse : parseEncodedHeader x size = some (h, bytesRead)) :
    h.nameLength ≤ hpackMaximumInteger ∧ h.valueLength ≤ hpackMaximumInteger := by
  rw [parseEncodedHeader_eq] at hparse
  split at hparse
  · cases hparse
  · simp only at hparse
    split at hparse
    · obtain ⟨rfl, -⟩ := Prod.mk.inj (Option.some.inj hparse)
      exact ⟨Nat.zero_le _, Nat.zero_le _⟩
    · split at hparse
      · obtain ⟨rfl, -⟩ := Prod.mk.inj (Option.some.inj hparse)
        exact ⟨Nat.zero_le _, Nat.zero_le _⟩
      · split at hparse
        · cases hparse
        -- only a literal carries lengths, and each comes from a parsed string
        · rw [parseLiteral] at hparse
          split at hparse
          · split at hparse
            · cases hparse
            · rename_i hname
              split at hparse
              · cases hparse
              · rename_i hvalue
                obtain ⟨rfl, -⟩ := Prod.mk.inj (Option.some.inj hparse)
                exact ⟨parseString_length_le hname, parseString_length_le hvalue⟩
          · split at hparse
            · cases hparse
            · rename_i hvalue
              obtain ⟨rfl, -⟩ := Prod.mk.inj (Option.some.inj hparse)
              exact ⟨Nat.zero_le _, parseString_length_le hvalue⟩

/-- The table after a round. -/
theorem decodeParsed_table {behind : Behind} {s : DecoderState} {h : EncodedHeader} {bytesRead : ℕ}
    (hok : ¬ (h.preamble = .dynamicTableSizeUpdate ∧ s.canReceiveSizeUpdate = false ∨
      checkErrors h = true)) :
    Sum.elim DecodeResult.table DecoderState.table (decodeParsed behind s (some (h, bytesRead))) =
      (decodeHeader (behind s.pointer) s.table h).1 := by
  obtain ⟨hupdate, herrors⟩ := not_or.mp hok
  simp only [decodeParsed]
  rw [if_neg hupdate, if_neg herrors]
  rcases decodeHeader (behind s.pointer) s.table h with ⟨t, rc | ⟨name, value⟩⟩
  · rfl
  · simp only
    split
    · cases s.headers.add name value <;> rfl
    · rfl

/-- **A block** stays in the buffers, and leaves a table of short entries. -/
theorem Short.block_bounded {behind : Behind} {memory : Bytes} {size fuel : ℕ} {s : DecoderState}
    {D : List Header} (ht : Short s.table D)
    (hfits : ∀ r ∈ blockRounds behind memory size fuel s, r.Fits) :
    (∀ r ∈ blockRounds behind memory size fuel s, r.Bounded) ∧
      ∃ D', Short (s.loop behind memory size fuel).table D' := by
  induction fuel generalizing s D with
  | zero => exact ⟨fun r hr => (List.not_mem_nil hr).elim, D, ht⟩
  | succ fuel ih =>
    by_cases hlt : s.pointer < size
    · rw [loop_succ _ _ _ _ _ hlt]
      rw [blockRounds, if_pos hlt] at hfits ⊢
      rcases hparse : parseEncodedHeader (memory.drop s.pointer) (size - s.pointer) with
        - | ⟨h, bytesRead⟩
      · exact ⟨fun r hr => (List.not_mem_nil hr).elim, D, ht⟩
      · obtain ⟨hn, hv⟩ := parseEncodedHeader_lengths hparse
        simp only [hparse] at hfits ⊢
        by_cases hrefused : h.preamble = .dynamicTableSizeUpdate ∧ s.canReceiveSizeUpdate = false ∨
            checkErrors h = true
        · -- the block is given up before the representation is decoded
          have hinl : decodeParsed behind s (some (h, bytesRead)) =
              .inl ⟨compressionError, s.table, s.headers, s.added⟩ := by
            simp only [decodeParsed]
            rcases hrefused with hupdate | herrors
            · rw [if_pos hupdate]
            · rw [if_pos herrors, ite_self]
          rw [if_pos hrefused, hinl]
          exact ⟨fun r hr => (List.not_mem_nil hr).elim, D, ht⟩
        · rw [if_neg hrefused] at hfits ⊢
          -- the representation is decoded, and the rest of the block with the table it leaves
          have hfit : FitsBuffers s.table h := hfits ⟨s, h⟩ List.mem_cons_self
          obtain ⟨hbounded, hshort⟩ := ht.bounded hfit hn hv
          obtain ⟨D', ht'⟩ := hshort (behind s.pointer)
          have htable := @decodeParsed_table behind s h bytesRead hrefused
          cases hround : decodeParsed behind s (some (h, bytesRead)) with
          | inl result =>
            rw [hround, Sum.elim_inl] at htable
            refine ⟨fun r hr => ?_, D', ?_⟩
            · obtain rfl := List.mem_singleton.mp hr
              exact hbounded
            · rw [← htable] at ht'
              exact ht'
          | inr s' =>
            rw [hround, Sum.elim_inr] at htable
            simp only [hround] at hfits
            rw [← htable] at ht'
            obtain ⟨hrest, hend⟩ := ih ht' fun r hr => hfits r (List.mem_cons_of_mem _ hr)
            refine ⟨fun r hr => ?_, hend⟩
            rcases List.mem_cons.mp hr with rfl | hr
            · exact hbounded
            · exact hrest r hr
    · rw [blockRounds, if_neg hlt, DecoderState.loop, decodeLoop, if_neg hlt]
      refine ⟨fun r hr => (List.not_mem_nil hr).elim, D, ?_⟩
      split <;> exact ht

/-! ## Sequences of blocks -/

/-- A call that changes the table of the decoder: a block is decoded, or the peer's settings change
the size. -/
inductive DecoderCall
  | decode (behind : Behind) (memory : Bytes) (size : ℕ) (headers : HeaderList)
  | changeMaxSize (incomingMaxTableSize : ℕ)

/-- The table after a call. -/
def DynamicTable.decoderCall (t : DynamicTable) : DecoderCall → DynamicTable
  | .decode behind memory size headers => (Hpack.decode behind t memory size headers).table
  | .changeMaxSize incomingMaxTableSize => dynamicChangeMaxSize t incomingMaxTableSize

/-- The representations that are decoded in a call. -/
def callRounds (t : DynamicTable) : DecoderCall → List Round
  | .decode behind memory size headers =>
    blockRounds behind memory size (size + 1) (.init t headers)
  | .changeMaxSize _ => []

/-- The representations that are decoded in a sequence of calls. -/
def rounds : DynamicTable → List DecoderCall → List Round
  | _, [] => []
  | t, c :: cs => callRounds t c ++ rounds (t.decoderCall c) cs

theorem Short.call_bounded {t : DynamicTable} {D : List Header} (ht : Short t D) (c : DecoderCall)
    (hfits : ∀ r ∈ callRounds t c, r.Fits) :
    (∀ r ∈ callRounds t c, r.Bounded) ∧ ∃ D', Short (t.decoderCall c) D' := by
  cases c with
  | decode behind memory size headers => exact block_bounded (s := .init t headers) ht hfits
  | changeMaxSize n => exact ⟨fun r hr => (List.not_mem_nil hr).elim, ht.dynamicChangeMaxSize n⟩

theorem Short.rounds_bounded {t : DynamicTable} {D : List Header} (ht : Short t D)
    (cs : List DecoderCall) (hfits : ∀ r ∈ rounds t cs, r.Fits) :
    ∀ r ∈ rounds t cs, r.Bounded := by
  induction cs generalizing t D with
  | nil =>
    intro r hr
    cases hr
  | cons c cs ih =>
    obtain ⟨hcall, D', ht'⟩ := ht.call_bounded c fun r hr => hfits r (List.mem_append_left _ hr)
    intro r hr
    rcases List.mem_append.mp hr with hr | hr
    · exact hcall r hr
    · exact ih ht' (fun r hr => hfits r (List.mem_append_right _ hr)) r hr

/-- **The decoder stays in its buffers** in every block, from every table that blocks before it have
filled, if there is room for all literals. -/
theorem decoded_strings_bounded (memory : DynamicTable) (cs : List DecoderCall)
    (hfits : ∀ r ∈ rounds (memory.init http2HeaderTableSize) cs, r.Fits) :
    ∀ r ∈ rounds (memory.init http2HeaderTableSize) cs, r.Bounded := by
  have hinit : Short (memory.init http2HeaderTableSize) [] :=
    ⟨Represents.init memory (by decide), by simp, by simp⟩
  exact hinit.rounds_bounded cs hfits

/-- The memory of the table before it is initialised. -/
def blankMemory : DynamicTable := ⟨0, 0, 0, 0, 0, 0, fun _ => 0⟩

/-- A literal `custom-key: custom-header` that is put into the table, and an indexed field that copies
it back. -/
def customBlocks : List DecoderCall :=
  [.decode zeroBehind
      ([0x40, 0x0a] ++ ascii "custom-key" ++ [0x0d] ++ ascii "custom-header") 26 .reset,
    .decode zeroBehind [0xbe] 1 .reset]

instance (t : DynamicTable) (h : EncodedHeader) : Decidable (FitsBuffers t h) :=
  inferInstanceAs (Decidable (∀ l ∈ decodedLiterals t h, _))

instance (r : Round) : Decidable r.Fits :=
  inferInstanceAs (Decidable (FitsBuffers r.state.table r.header))

theorem decoded_strings_bounded_custom :
    (rounds (blankMemory.init http2HeaderTableSize) customBlocks).length = 2 ∧
      ∀ r ∈ rounds (blankMemory.init http2HeaderTableSize) customBlocks, r.Bounded :=
  ⟨by decide +kernel, decoded_strings_bounded blankMemory customBlocks (by decide +kernel)⟩

/-- A Huffman-coded name of 33 characters is written up to the cell behind the buffer. -/
theorem not_decoded_strings_bounded :
    ¬ ∀ (memory : DynamicTable) (cs : List DecoderCall),
      ∀ r ∈ rounds (memory.init http2HeaderTableSize) cs, r.Bounded := by
  intro h
  have hwrites : ∀ r ∈ rounds (blankMemory.init http2HeaderTableSize)
      [.decode zeroBehind ([0x00, 0x95] ++ List.replicate 20 0x00 ++ [0x07, 0x01, 0x62]) 25 .reset],
      (tmpWrites r.state.table r.header).1.length ≤ hpackHeaderNameLen :=
    fun r hr => (h _ _ r hr).name_writes
  revert hwrites
  decide +kernel

end Two.Hpack
