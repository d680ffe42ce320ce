import Two.Hpack.Representation

/-!
# The sizes and the writes of the encoder

What the encoder returns for a header, and which bytes it touches on the way, depends on the lengths
of the strings and on the size of the buffer alone: not on the position of the header and not on what
is in the buffer. A string is first Huffman coded; where that does not fit, or is longer than the
string, the raw string is written over it.

## Main definitions

* `stringSize`, `fieldSize`: the number of bytes of a string and of a field, or the error code
* `stringEnds`, `fieldEnds`: where the writes of a string and of a field end
* `OutBuffer.Within`: all writes are in the buffer

## Main results

* `encodeHeader_size`, `encodeHeader_within`: the result and the writes of one header
* `encodeLoop_eq`: the result of the loop
-/

namespace Two.Hpack

/-! ## Strings -/

/-- There is room for the Huffman code of the string in a buffer of `bufferSize` bytes. -/
def HuffmanFits (bufferSize : ℕ) (s : Bytes) : Prop :=
  codedLength s ≤ hpackMaximumInteger ∧
    codedLength s + encodedIntegerSize (codedLength s) 7 < bufferSize

instance (bufferSize : ℕ) (s : Bytes) : Decidable (HuffmanFits bufferSize s) :=
  inferInstanceAs (Decidable (_ ∧ _))

/-- There is room for the raw string. -/
def RawFits (bufferSize : ℕ) (s : Bytes) : Prop :=
  unsignedLength s ≤ hpackMaximumInteger ∧
    unsignedLength s + encodedIntegerSize (unsignedLength s) 7 < bufferSize

instance (bufferSize : ℕ) (s : Bytes) : Decidable (RawFits bufferSize s) :=
  inferInstanceAs (Decidable (_ ∧ _))

/-- The Huffman code is kept. -/
def KeepsHuffman (bufferSize : ℕ) (s : Bytes) : Prop :=
  HuffmanFits bufferSize s ∧ codedLength s + encodedIntegerSize (codedLength s) 7 ≤ s.length

instance (bufferSize : ℕ) (s : Bytes) : Decidable (KeepsHuffman bufferSize s) :=
  inferInstanceAs (Decidable (_ ∧ _))

/-- The number of bytes of a string literal, or the error code. -/
def stringSize (bufferSize : ℕ) (s : Bytes) : ℤ :=
  if KeepsHuffman bufferSize s then
    (codedLength s + encodedIntegerSize (codedLength s) 7 : ℕ)
  else if RawFits bufferSize s then
    (unsignedLength s + encodedIntegerSize (unsignedLength s) 7 : ℕ)
  else if unsignedLength s ≤ hpackMaximumInteger then -2 else -1

/-- Where the writes of a literal with `n` bytes end that `fits` or not: the length is written before
its room is checked. -/
def literalEnds (n : ℕ) (fits : Bool) : List ℕ :=
  if n ≤ hpackMaximumInteger then
    encodedIntegerSize n 7 :: if fits then [encodedIntegerSize n 7 + n] else []
  else []

/-- Where the writes of a string end: those of the Huffman attempt, and those of the raw string if
that is not kept. -/
def stringEnds (bufferSize : ℕ) (s : Bytes) : List ℕ :=
  literalEnds (codedLength s) (HuffmanFits bufferSize s) ++
    if KeepsHuffman bufferSize s then []
    else literalEnds (unsignedLength s) (RawFits bufferSize s)

/-- All bytes written are in a buffer of `bufferSize` bytes. -/
def OutBuffer.Within (o : OutBuffer) (bufferSize : ℕ) : Prop :=
  ∀ e ∈ o.stores, e.2 = 0 ∨ (0 ≤ e.1 ∧ e.1 + e.2 ≤ bufferSize)

section Strings

variable {o : OutBuffer} {pos : ℤ} {bufferSize : ℕ} {s : Bytes}

theorem OutBuffer.within_store {bs : Bytes} : (o.store pos bs).Within bufferSize ↔
    o.Within bufferSize ∧ (bs = [] ∨ (0 ≤ pos ∧ pos + bs.length ≤ bufferSize)) := by
  have hstores : (o.store pos bs).stores = o.stores ++ [(pos, bs.length)] := rfl
  rw [Within, hstores, List.forall_mem_append, List.forall_mem_singleton, List.length_eq_zero_iff]
  rfl

theorem encodeInteger_of_gt {n p : ℕ} (h : hpackMaximumInteger < n) :
    encodeInteger n p = (-1, []) := by
  rw [encodeInteger, encodeIntegerUpTo, if_pos h]

/-- The writes of a literal with `n` bytes: its length alone, or followed by its bytes. -/
theorem within_literal {n : ℕ} {b : UInt8} {bs data : Bytes} (hn : n ≤ hpackMaximumInteger)
    (hsize : encodedIntegerSize n 7 = bs.length + 1) (hdata : data.length = n) (hpos : 0 ≤ pos) :
    ((o.store pos (b :: bs)).Within bufferSize ↔
      o.Within bufferSize ∧ ∀ e ∈ literalEnds n false, pos + e ≤ bufferSize) ∧
    (((o.store pos (b :: bs)).store (pos + ((bs.length + 1 : ℕ) : ℤ)) data).Within bufferSize ↔
      o.Within bufferSize ∧ ∀ e ∈ literalEnds n true, pos + e ≤ bufferSize) := by
  -- the length alone is the first end, the length and the data the second
  have hfirst : (o.store pos (b :: bs)).Within bufferSize ↔
      o.Within bufferSize ∧ pos + ((bs.length + 1 : ℕ) : ℤ) ≤ bufferSize := by
    rw [OutBuffer.within_store, List.length_cons]
    simp only [hpos, true_and, List.cons_ne_nil, false_or]
  simp only [literalEnds, if_pos hn, hsize, if_true, Bool.false_eq_true, if_false,
    List.forall_mem_cons, List.not_mem_nil, false_implies, implies_true, and_true]
  refine ⟨hfirst, ?_⟩
  rw [OutBuffer.within_store, hfirst, hdata, and_assoc]
  refine and_congr_right fun _ => and_congr_right fun hlength => ?_
  constructor
  · rintro (rfl | ⟨-, hlast⟩)
    · -- an empty string writes nothing after its length
      rw [List.length_nil] at hdata
      omega
    · push_cast at hlast ⊢
      omega
  · intro hlast
    right
    push_cast at hlast ⊢
    exact ⟨by omega, by omega⟩

/-- The Huffman attempt: its result, and its writes. -/
theorem encodeHuffmanString_size :
    (encodeHuffmanString s o pos bufferSize).1 =
      (if HuffmanFits bufferSize s then
        ((codedLength s + encodedIntegerSize (codedLength s) 7 : ℕ) : ℤ)
        else if codedLength s ≤ hpackMaximumInteger then -2 else -1) ∧
    (0 ≤ pos → ((encodeHuffmanString s o pos bufferSize).2.Within bufferSize ↔ o.Within bufferSize ∧
      ∀ e ∈ literalEnds (codedLength s) (HuffmanFits bufferSize s), pos + e ≤ bufferSize)) := by
  have hlength : requiredBytes (bitLength ((counted s).map codeWord) % 2 ^ 32) = codedLength s := rfl
  rw [encodeHuffmanString, encodeHuffmanWord_eq]
  simp only [hlength]
  by_cases hn : codedLength s ≤ hpackMaximumInteger
  · obtain ⟨packed, hpack, hlen⟩ :=
      exists_packed (n := codedLength s) ((counted s).map codeWord) (Nat.le_refl _)
    simp only [hpack, Option.getD_some]
    obtain ⟨b, bs, he, hsize, -⟩ := exists_encodeInteger_eq (show 7 ≤ 8 by decide) hn
    simp only [he, if_pos hn]
    rw [if_neg (by omega)]
    by_cases hfits : HuffmanFits bufferSize s
    · have hlt := hfits.2
      rw [hsize] at hlt
      rw [if_neg (by omega), if_pos hfits]
      refine ⟨by rw [hsize]; push_cast; rfl, fun hpos => ?_⟩
      simp only [hfits, decide_true]
      rw [← (@within_literal o pos bufferSize _ b _ _ hn hsize hlen hpos).2]
      -- the bit for the code is set in a byte that was written with the length
      have hbit : ∀ x : UInt8, ((o.store pos (b :: bs)).store pos [x]).Within bufferSize ↔
          (o.store pos (b :: bs)).Within bufferSize := by
        intro x
        simp only [OutBuffer.within_store, List.length_cons, List.length_nil]
        refine and_iff_left_of_imp fun hfirst => .inr ⟨hpos, ?_⟩
        have hfirst := hfirst.2.resolve_left (by simp)
        omega
      rw [OutBuffer.within_store, hbit]
      exact OutBuffer.within_store.symm
    · have hge : ¬ codedLength s + (bs.length + 1) < bufferSize := by
        rw [← hsize]
        exact fun h => hfits ⟨hn, h⟩
      rw [if_pos (by omega), if_neg hfits]
      refine ⟨rfl, fun hpos => ?_⟩
      simp only [hfits, decide_false]
      exact (within_literal hn hsize hlen hpos).1
  · have hfits : ¬ HuffmanFits bufferSize s := fun h => hn h.1
    simp only [encodeInteger_of_gt (p := 7) (show hpackMaximumInteger < codedLength s by omega),
      literalEnds, if_neg hn, if_neg hfits]
    rw [if_pos (by decide)]
    refine ⟨rfl, fun _ => ?_⟩
    simp [OutBuffer.within_store]

/-- The raw string: its result, and its writes. -/
theorem encodeNonHuffmanString_size :
    (encodeNonHuffmanString s o pos bufferSize).1 =
      (if RawFits bufferSize s then ((unsignedLength s + encodedIntegerSize (unsignedLength s) 7 : ℕ) : ℤ)
        else if unsignedLength s ≤ hpackMaximumInteger then -2 else -1) ∧
    (0 ≤ pos → ((encodeNonHuffmanString s o pos bufferSize).2.Within bufferSize ↔
      o.Within bufferSize ∧
        ∀ e ∈ literalEnds (unsignedLength s) (RawFits bufferSize s), pos + e ≤ bufferSize)) := by
  rw [encodeNonHuffmanString]
  by_cases hn : unsignedLength s ≤ hpackMaximumInteger
  · obtain ⟨b, bs, he, hsize, -⟩ := exists_encodeInteger_eq (show 7 ≤ 8 by decide) hn
    simp only [he, if_pos hn]
    rw [if_neg (by omega)]
    -- the length is stored before the room for the data is checked
    by_cases hfits : RawFits bufferSize s
    · have hlt := hfits.2
      rw [hsize] at hlt
      rw [if_neg (by omega), if_pos hfits]
      refine ⟨by rw [hsize]; push_cast; rfl, fun hpos => ?_⟩
      simp only [hfits, decide_true]
      exact (within_literal hn hsize (length_counted s) hpos).2
    · have hge : ¬ unsignedLength s + (bs.length + 1) < bufferSize := by
        rw [← hsize]
        exact fun h => hfits ⟨hn, h⟩
      rw [if_pos (by omega), if_neg hfits]
      refine ⟨rfl, fun hpos => ?_⟩
      simp only [hfits, decide_false]
      exact (within_literal hn hsize (length_counted s) hpos).1
  · have hfits : ¬ RawFits bufferSize s := fun h => hn h.1
    simp only [encodeInteger_of_gt (p := 7) (show hpackMaximumInteger < unsignedLength s by omega),
      literalEnds, if_neg hn, if_neg hfits]
    rw [if_pos (by decide)]
    refine ⟨rfl, fun _ => ?_⟩
    simp [OutBuffer.within_store]

/-- **The result and the writes of a string.** -/
theorem encodeString_size :
    (encodeString s o pos bufferSize).1 = stringSize bufferSize s ∧
    (0 ≤ pos → ((encodeString s o pos bufferSize).2.Within bufferSize ↔ o.Within bufferSize ∧
      ∀ e ∈ stringEnds bufferSize s, pos + e ≤ bufferSize)) := by
  obtain ⟨hrc, hwithin⟩ := @encodeHuffmanString_size o pos bufferSize s
  -- the raw form is tried when the Huffman one failed or came out longer
  have hkeeps : ((encodeHuffmanString s o pos bufferSize).1 < 0 ∨
      (encodeHuffmanString s o pos bufferSize).1 > s.length) ↔ ¬ KeepsHuffman bufferSize s := by
    rw [hrc, KeepsHuffman]
    split
    · rename_i hfits
      simp only [hfits, true_and]
      omega
    · rename_i hfits
      simp only [hfits, false_and, not_false_iff, iff_true]
      left
      split <;> decide
  rw [encodeString, stringSize, stringEnds]
  generalize encodeHuffmanString s o pos bufferSize = r at *
  obtain ⟨rc, o₁⟩ := r
  simp only at hrc hwithin hkeeps ⊢
  by_cases hk : KeepsHuffman bufferSize s
  · rw [if_neg (fun h => hkeeps.mp h hk), if_pos hk, if_pos hk, List.append_nil]
    rw [if_pos hk.1] at hrc
    exact ⟨hrc, hwithin⟩
  · obtain ⟨hraw, hrawWithin⟩ := @encodeNonHuffmanString_size o₁ pos bufferSize s
    rw [if_pos (hkeeps.mpr hk), if_neg hk, if_neg hk, hraw, List.forall_mem_append]
    refine ⟨rfl, fun hpos => ?_⟩
    rw [hrawWithin hpos, hwithin hpos]
    exact and_assoc

/-- What the encoder returns for a string is a size of a few bytes more than
`HPACK_MAXIMUM_INTEGER` at most. -/
theorem stringSize_le_maximum :
    stringSize bufferSize s ≤ hpackMaximumInteger + 8 := by
  have hle : ∀ n, encodedIntegerSize n 7 ≤ 8 := encodedIntegerSize_le 7
  have hcoded := hle (codedLength s)
  have hraw := hle (unsignedLength s)
  rw [stringSize]
  split
  · rename_i hkeeps
    have hmax := hkeeps.1.1
    omega
  · split
    · rename_i hfits
      have hmax := hfits.1
      omega
    · split <;> omega

theorem stringSize_nonneg_iff :
    0 ≤ stringSize bufferSize s ↔ KeepsHuffman bufferSize s ∨ RawFits bufferSize s := by
  rw [stringSize]
  split
  · rename_i hkeeps
    exact iff_of_true (Int.natCast_nonneg _) (.inl hkeeps)
  · rename_i hkeeps
    split
    · rename_i hfits
      exact iff_of_true (Int.natCast_nonneg _) (.inr hfits)
    · rename_i hfits
      refine iff_of_false ?_ (not_or.mpr ⟨hkeeps, hfits⟩)
      split <;> decide

theorem OutBuffer.Within.of_encodeHuffmanString
    (h : (encodeHuffmanString s o pos bufferSize).2.Within bufferSize) : o.Within bufferSize := by
  rw [encodeHuffmanString] at h
  simp only at h
  split at h
  · exact (within_store.mp h).1
  · split at h
    · exact (within_store.mp h).1
    · exact (within_store.mp (within_store.mp (within_store.mp h).1).1).1

theorem OutBuffer.Within.of_encodeNonHuffmanString
    (h : (encodeNonHuffmanString s o pos bufferSize).2.Within bufferSize) : o.Within bufferSize := by
  rw [encodeNonHuffmanString] at h
  simp only at h
  split at h
  · exact (within_store.mp h).1
  · split at h
    · exact (within_store.mp h).1
    · exact (within_store.mp (within_store.mp h).1).1

/-- Nothing that was written is taken back. -/
theorem OutBuffer.Within.of_encodeString
    (h : (encodeString s o pos bufferSize).2.Within bufferSize) : o.Within bufferSize := by
  rw [encodeString] at h
  simp only at h
  split at h
  · exact h.of_encodeNonHuffmanString.of_encodeHuffmanString
  · exact h.of_encodeHuffmanString

end Strings

/-! ## Fields -/

/-- The number of bytes of a field, or the error code. -/
def fieldSize (bufferSize : ℕ) (f : Field) : ℤ :=
  if f.packed.index = 0 then
    if stringSize bufferSize f.header.1 < 0 then stringSize bufferSize f.header.1
    else if stringSize bufferSize f.header.2 < 0 then stringSize bufferSize f.header.2
    else 1 + stringSize bufferSize f.header.1 + stringSize bufferSize f.header.2
  else
    let indexSize := (encodeInteger f.packed.index (findPrefixSize f.packed.preamble)).1
    if indexSize < 0 then compressionError
    else if f.packed.preamble = .indexedHeaderField then indexSize
    else if stringSize bufferSize f.header.2 < 0 then stringSize bufferSize f.header.2
    else indexSize + stringSize bufferSize f.header.2

/-- Where the writes of a field end, counted from its first byte. -/
def fieldEnds (bufferSize : ℕ) (f : Field) : List ℤ :=
  if f.packed.index = 0 then
    1 :: (stringEnds bufferSize f.header.1).map (fun e : ℕ => 1 + (e : ℤ)) ++
      if stringSize bufferSize f.header.1 < 0 then []
      else (stringEnds bufferSize f.header.2).map
        fun e : ℕ => 1 + stringSize bufferSize f.header.1 + (e : ℤ)
  else
    let indexSize := (encodeInteger f.packed.index (findPrefixSize f.packed.preamble)).1
    1 :: if indexSize < 0 then []
      else indexSize :: if f.packed.preamble = .indexedHeaderField then []
        else (stringEnds bufferSize f.header.2).map fun e : ℕ => indexSize + (e : ℤ)

section Fields

variable {o : OutBuffer} {pos : ℤ} {bufferSize : ℕ} {f : Field}

/-- A byte at the position of the field. -/
theorem OutBuffer.within_store_one {b : UInt8} : (o.store pos [b]).Within bufferSize ↔
    o.Within bufferSize ∧ 0 ≤ pos ∧ pos + 1 ≤ bufferSize := by
  simp [within_store]

theorem forall_mem_shift {l : List ℕ} {c : ℤ} :
    (∀ e ∈ l.map fun e : ℕ => c + (e : ℤ), pos + e ≤ bufferSize) ↔
      ∀ e ∈ l, pos + c + (e : ℤ) ≤ bufferSize := by
  rw [List.forall_mem_map]
  simp only [add_assoc]

/-- The first byte of a header is written before anything else. -/
theorem OutBuffer.Within.of_encodeHeader {h : PackedHeader} {name value : Bytes}
    (hw : (encodeHeader h name value o pos bufferSize).2.Within bufferSize) : 0 ≤ pos := by
  suffices hfirst : (o.store pos [0]).Within bufferSize from (within_store_one.mp hfirst).2.1
  rw [encodeHeader] at hw
  simp only at hw
  split at hw
  · split at hw
    · exact hw.of_encodeString
    · split at hw
      · exact hw.of_encodeString.of_encodeString
      · exact (within_store.mp hw).1.of_encodeString.of_encodeString
  · split at hw
    · exact (within_store.mp hw).1
    · split at hw
      · split at hw
        · exact (within_store.mp hw.of_encodeString).1
        · exact (within_store.mp (within_store.mp hw).1.of_encodeString).1
      · exact (within_store.mp (within_store.mp hw).1).1

/-- The result of one header, and its writes where the position is in the buffer. -/
theorem encodeHeader_result :
    (encodeHeader f.packed f.header.1 f.header.2 o pos bufferSize).1 = fieldSize bufferSize f ∧
    (0 ≤ pos → ((encodeHeader f.packed f.header.1 f.header.2 o pos bufferSize).2.Within bufferSize ↔
      o.Within bufferSize ∧ ∀ e ∈ fieldEnds bufferSize f, pos + e ≤ bufferSize)) := by
  rw [encodeHeader, fieldSize, fieldEnds]
  by_cases hi : f.packed.index = 0
  -- no index: a zero byte, the name and the value, unless one of the strings fails
  · simp only [if_pos hi]
    obtain ⟨hname, hnameWithin⟩ := @encodeString_size (o.store pos [0]) (pos + 1) bufferSize
      f.header.1
    generalize encodeString f.header.1 (o.store pos [0]) (pos + 1) bufferSize = r at *
    obtain ⟨nameSize, o₁⟩ := r
    simp only at hname hnameWithin ⊢
    subst hname
    rw [List.cons_append, List.forall_mem_cons, List.forall_mem_append, forall_mem_shift]
    rw [OutBuffer.within_store_one] at hnameWithin
    -- a name that fails ends the header
    by_cases hn : stringSize bufferSize f.header.1 < 0
    · simp only [if_pos hn, List.not_mem_nil, false_implies, implies_true, and_true, true_and]
      intro hpos
      simp only [hnameWithin (by omega), hpos, true_and, and_assoc]
    · obtain ⟨hvalue, hvalueWithin⟩ := @encodeString_size o₁
        (pos + 1 + stringSize bufferSize f.header.1) bufferSize f.header.2
      generalize encodeString f.header.2 o₁ (pos + 1 + stringSize bufferSize f.header.1)
        bufferSize = r at *
      obtain ⟨valueSize, o₂⟩ := r
      simp only at hvalue hvalueWithin
      subst hvalue
      simp only [if_neg hn, forall_mem_shift, ← add_assoc]
      by_cases hv : stringSize bufferSize f.header.2 < 0
      · simp only [if_pos hv, true_and]
        intro hpos
        simp only [hvalueWithin (by omega), hnameWithin (by omega), hpos, true_and, and_assoc]
      · simp only [if_neg hv, true_and]
        intro hpos
        simp only [OutBuffer.within_store_one, hvalueWithin (by omega), hnameWithin (by omega), hpos,
          true_and, and_assoc]
        grind
  · simp only [if_neg hi]
    -- an index: its bytes come first, and an indexed field ends with them
    by_cases hidx : f.packed.index ≤ hpackMaximumInteger
    · obtain ⟨b, bs, he, -, -⟩ := exists_encodeInteger_eq
        ((prefixSize_bounds f.packed.preamble).2.trans (by decide)) hidx
      have hone : ((bs.length + 1 : ℕ) : ℤ) < 0 ↔ False := iff_of_false (by omega) id
      simp only [he, hone, if_false]
      have hindex : 0 ≤ pos → (((o.store pos [0]).store pos (b :: bs)).Within bufferSize ↔
          o.Within bufferSize ∧ pos + 1 ≤ bufferSize ∧
            pos + ((bs.length + 1 : ℕ) : ℤ) ≤ bufferSize) := by
        intro hpos
        rw [OutBuffer.within_store, OutBuffer.within_store_one, List.length_cons]
        simp only [hpos, true_and, and_assoc, List.cons_ne_nil, false_or]
      by_cases hp : f.packed.preamble = .indexedHeaderField
      · simp only [hp, ne_eq, not_true_eq_false, if_false, if_true, List.forall_mem_cons,
          List.not_mem_nil, false_implies, implies_true, and_true, OutBuffer.within_store_one,
          true_and]
        intro hpos
        rw [hindex hpos]
        grind
      -- a literal with the name of an entry: the value follows
      · simp only [hp, ne_eq, not_false_eq_true, if_true, if_false, List.forall_mem_cons,
          forall_mem_shift]
        obtain ⟨hvalue, hvalueWithin⟩ := @encodeString_size
          ((o.store pos [0]).store pos (b :: bs)) (pos + ((bs.length + 1 : ℕ) : ℤ)) bufferSize
          f.header.2
        generalize encodeString f.header.2 ((o.store pos [0]).store pos (b :: bs))
          (pos + ((bs.length + 1 : ℕ) : ℤ)) bufferSize = r at *
        obtain ⟨valueSize, o₂⟩ := r
        simp only at hvalue hvalueWithin ⊢
        subst hvalue
        by_cases hv : stringSize bufferSize f.header.2 < 0
        · simp only [if_pos hv, true_and]
          intro hpos
          simp only [hvalueWithin (by omega), hindex hpos, and_assoc]
        · simp only [if_neg hv, true_and]
          intro hpos
          simp only [OutBuffer.within_store_one, hvalueWithin (by omega), hindex hpos, hpos,
            true_and, and_assoc]
          grind
    -- an index too large to encode
    · have he := @encodeInteger_of_gt f.packed.index (findPrefixSize f.packed.preamble) (by omega)
      simp only [he]
      rw [if_pos (by decide), if_pos (by decide), if_pos (by decide)]
      refine ⟨rfl, fun hpos => ?_⟩
      simp [OutBuffer.within_store, hpos]

/-- **The writes of one header.** -/
theorem encodeHeader_within :
    (encodeHeader f.packed f.header.1 f.header.2 o pos bufferSize).2.Within bufferSize ↔
      o.Within bufferSize ∧ 0 ≤ pos ∧ ∀ e ∈ fieldEnds bufferSize f, pos + e ≤ bufferSize := by
  rcases le_or_gt 0 pos with hpos | hneg
  · rw [encodeHeader_result.2 hpos]
    simp only [hpos, true_and]
  · refine iff_of_false (fun hw => ?_) fun h => absurd h.2.1 (by omega)
    exact absurd hw.of_encodeHeader (by omega)

end Fields

/-! ## Lists of fields -/

/-- The loop of `hpack_encoder_encode` over the fields that the table has given. -/
def encodeFields (bufferSize : ℕ) : List Field → OutBuffer → ℤ → Option (ℤ × OutBuffer)
  | [], o, pointer => some (pointer, o)
  | f :: fs, o, pointer =>
    let (rc, o) := encodeHeader f.packed f.header.1 f.header.2 o pointer bufferSize
    if rc + pointer ≥ 256 then none else encodeFields bufferSize fs o (pointer + rc)

theorem encodeLoop_eq_fields {bufferSize : ℕ} (hs : List Header) (t : DynamicTable) (o : OutBuffer)
    (pointer : ℤ) :
    encodeLoop bufferSize hs t o pointer =
      (encodeFields bufferSize (packHeaders t hs).1 o pointer).map fun r =>
        (r.1, (packHeaders t hs).2, r.2) := by
  induction hs generalizing t o pointer with
  | nil => rfl
  | cons h hs ih =>
    rw [packHeaders_cons, encodeLoop, encodeFields]
    simp only
    split
    · rfl
    · exact ih _ _ _

end Two.Hpack
