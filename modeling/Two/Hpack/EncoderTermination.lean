import Two.Hpack.EncoderResults
import Two.Hpack.RoundTrip
import Two.Library.Loops

/-!
# Termination of `hpack_encode`

Every loop of `hpack_encoder_encode` and of the functions it calls, with the width of its counter
and the bound it is compared with. All but one end on every reachable table and every header list:
the loop that prints the encoded bytes counts with 8 bits up to the number of these bytes.

## Main definitions

* `integerLoops`, `stringLoops`, `searchLoops`, `addEntryLoops`: the loops of the functions
* `traceLoop`: the loop that prints the bytes
* `encodeLoops`: the loops of `hpack_encode`
* `Terminates`: they all end, and the encoder returns

## Main results

* `evict_ends`: eviction ends
* `terminates_iff`: when the encoder terminates
-/

namespace Two.Hpack

open Loops

/-! ## Integers -/

/-- A round of `hpack_utils_log128`. -/
def logStep (x : ℕ) : ℕ × ℕ → Option (ℕ × ℕ)
  | (n, m) => if m < x then some (n + 1, 2 ^ (7 * (n + 1)) % 2 ^ 32) else none

/-- A round of the loop of `hpack_encoder_encode_integer`. -/
def groupStep (integer : ℕ) : Option ℕ := if integer ≥ 128 then some (integer / 128) else none

/-- The loops of `hpack_encoder_encode_integer`. -/
def integerLoops (integer prefixSize : ℕ) : List Loop :=
  if integer > hpackMaximumInteger ∨ integer < maxPrefix prefixSize then []
  else [⟨logStep (integer - maxPrefix prefixSize), (0, 1)⟩,
    ⟨groupStep, integer - maxPrefix prefixSize⟩]

theorem logStep_ends {x : ℕ} (hx : x ≤ hpackMaximumInteger) : Halts (logStep x) (0, 1) := by
  have hmax : hpackMaximumInteger = 4096 := rfl
  refine Halts.of_measure (fun s => s.2 = 2 ^ (7 * s.1) ∧ s.1 ≤ 2) (fun s => 2 - s.1) ?_
    ⟨rfl, by decide⟩
  rintro ⟨n, m⟩ ⟨n', m'⟩ ⟨hm, hn⟩ hstep
  simp only [logStep] at hm hn hstep
  subst hm
  split at hstep
  · rename_i hlt
    obtain ⟨rfl, rfl⟩ := Prod.mk.inj (Option.some.inj hstep)
    obtain rfl | rfl | rfl : n = 0 ∨ n = 1 ∨ n = 2 := by omega
    · decide
    · decide
    · exact absurd hlt (by omega)
  · cases hstep

theorem groupStep_ends (integer : ℕ) : Halts groupStep integer := by
  refine Halts.of_measure (fun _ => True) id ?_ trivial
  intro n n' _ hstep
  rw [groupStep] at hstep
  split at hstep
  · obtain rfl := Option.some.inj hstep
    exact ⟨trivial, by simp only [id]; omega⟩
  · cases hstep

theorem integerLoops_end (integer prefixSize : ℕ) :
    ∀ l ∈ integerLoops integer prefixSize, l.Ends := by
  rw [integerLoops]
  split
  · simp
  · simp only [List.forall_mem_cons, Loop.ends_mk]
    exact ⟨logStep_ends (by omega), groupStep_ends _, by simp⟩

/-! ## Strings -/

/-- A round of the inner loop of `hpack_encoder_pack_encoded_words_to_bytes`: what is left of the
code, and the bit position. -/
def packStep : ℕ × ℕ → Option (ℕ × ℕ)
  | (codeLength, cur) =>
    if codeLength = 0 then none
    else
      let bitOffset := cur - 8 * (cur / 8)
      let bitsToWrite := if 8 - bitOffset > codeLength then codeLength else 8 - bitOffset
      some (codeLength - bitsToWrite, (cur + bitsToWrite) % 2 ^ 32)

/-- The inner loop for every word, from the bit position `cur` on. -/
def packLoops : ℕ → List EncodedWord → List Loop
  | _, [] => []
  | cur, word :: words =>
    ⟨packStep, (word.length, cur)⟩ :: packLoops ((cur + word.length) % 2 ^ 32) words

/-- The loop of `hpack_huffman_encode` over the code lengths. -/
def codeLoop (sym : UInt8) : Loop :=
  let pos := huffmanLInverse.getD sym.toNat 0
  .counting 8 1 numberOfCodeLengths fun i => pos < huffmanF.getD i 0

/-- A loop over `n` elements of an array, with a 32-bit index. -/
def arrayLoop (n : ℕ) : Loop := .counting 32 0 n fun _ => false

/-- The loops of `hpack_encoder_encode_string`: the codes and the length, with the sum of the code
lengths, the packing and the copy where the result fits, and then those of the raw string. -/
def stringLoops (bufferSize : ℕ) (s : Bytes) : List Loop :=
  arrayLoop (unsignedLength s) :: (counted s).map codeLoop ++ integerLoops (codedLength s) 7 ++
    (if HuffmanFits bufferSize s then
      arrayLoop (unsignedLength s) :: arrayLoop (unsignedLength s) ::
        packLoops 0 (encodeHuffmanWord (counted s)).1 ++ [arrayLoop (codedLength s)]
    else []) ++
    (if KeepsHuffman bufferSize s then []
    else integerLoops (unsignedLength s) 7 ++
      if RawFits bufferSize s then [arrayLoop (unsignedLength s)] else [])

theorem packStep_ends (s : ℕ × ℕ) : Halts packStep s := by
  refine Halts.of_measure (fun _ => True) Prod.fst ?_ trivial
  rintro ⟨codeLength, cur⟩ s' - hstep
  rw [packStep] at hstep
  split at hstep
  · cases hstep
  · obtain rfl := Option.some.inj hstep
    refine ⟨trivial, ?_⟩
    simp only
    split <;> omega

theorem packLoops_end (cur : ℕ) (words : List EncodedWord) :
    ∀ l ∈ packLoops cur words, l.Ends := by
  induction words generalizing cur with
  | nil => simp [packLoops]
  | cons word words ih =>
    rw [packLoops, List.forall_mem_cons, Loop.ends_mk]
    exact ⟨packStep_ends _, ih _⟩

theorem arrayLoop_ends {n : ℕ} (h : n < 2 ^ 32) : (arrayLoop n).Ends :=
  Loop.counting_ends (by exact_mod_cast h)

theorem stringLoops_end (bufferSize : ℕ) (s : Bytes) :
    ∀ l ∈ stringLoops bufferSize s, l.Ends := by
  have hmax : hpackMaximumInteger = 4096 := rfl
  have hs : (arrayLoop (unsignedLength s)).Ends := arrayLoop_ends (unsignedLength_lt s)
  have hcodes : ∀ l ∈ (counted s).map codeLoop, l.Ends := by
    rw [List.forall_mem_map]
    exact fun b _ => Loop.counting_ends (by decide)
  simp only [stringLoops, List.cons_append, List.forall_mem_append, List.forall_mem_cons]
  refine ⟨hs, ⟨⟨hcodes, integerLoops_end _ _⟩, ?_⟩, ?_⟩
  · split
    · rename_i hfits
      simp only [List.forall_mem_append, List.forall_mem_cons]
      refine ⟨hs, hs, packLoops_end _ _, ?_, by simp⟩
      exact arrayLoop_ends (hfits.1.trans_lt (by omega))
    · simp
  · split
    · simp
    · rw [List.forall_mem_append]
      refine ⟨integerLoops_end _ _, ?_⟩
      split
      · simpa using hs
      · simp

/-! ## Tables -/

/-- The loop of `hpack_tables_dynamic_compare_string`; the bound is the length as an `int16_t`. -/
def compareLoop (t : DynamicTable) (initialPosition : ℕ) (s : Bytes) : Loop :=
  .counting 16 0 (BitVec.ofNat 16 s.length).toInt fun i =>
    s.getD i 0 != t.cell (t.next + t.maxSize - initialPosition + 1 + i)

/-- The body of the search in the dynamic table, which counts the strings. -/
def searchBody (t : DynamicTable) (hit : ℕ → Bool) (i stringsCounter : ℕ) : Option ℕ :=
  let isEnd := t.back i = 0
  let stringsCounter := if isEnd then (stringsCounter + 1) % 2 ^ 8 else stringsCounter
  if isEnd ∧ stringsCounter % 2 = 0 ∧ 0 < stringsCounter ∧ hit i then none
  else if stringsCounter / 2 ≥ t.nEntries then none
  else some stringsCounter

/-- The loops of a search: the static table, then the dynamic table, with the comparisons that
`compared i` makes at distance `i` from `next`. -/
def searchLoops (t : DynamicTable) (staticHit hit : ℕ → Bool) (compared : ℕ → List Loop) :
    List Loop :=
  .counting 8 0 62 staticHit ::
    if (staticSearch staticHit).isSome then []
    else ⟨forLoop 16 (t.maxSize + 1) (searchBody t hit), (1, 0)⟩ ::
      (List.range (t.maxSize + 1)).flatMap compared

/-- The loops of `hpack_tables_find_index`. -/
def findIndexLoops (t : DynamicTable) (h : Header) : List Loop :=
  searchLoops t (fun i => staticName i == h.1 && staticValue i == h.2) (t.matchesEntry h.1 h.2)
    fun i => [compareLoop t i h.1, compareLoop t (i - (h.1.length + 1)) h.2]

/-- The loops of `hpack_tables_find_index_name`. -/
def findIndexNameLoops (t : DynamicTable) (h : Header) : List Loop :=
  searchLoops t (fun i => staticName i == h.1) (t.matchesName h.1) fun i => [compareLoop t i h.1]

/-- The body of `hpack_tables_dynamic_pop`: the characters and the NULs seen. -/
def popBody (t : DynamicTable) (i : ℕ) : ℕ × ℕ → Option (ℕ × ℕ)
  | (entryLength, counter0) =>
    if t.cell (t.first + i + t.maxSize) = 0 then
      if counter0 + 1 = 2 then none else some (entryLength, counter0 + 1)
    else some (entryLength + 1, counter0)

/-- The loop of `hpack_tables_dynamic_pop`. -/
def popLoop (t : DynamicTable) : Loop := ⟨forLoop 16 t.maxSize (popBody t), (1, (0, 0))⟩

/-- A round of the eviction of `hpack_tables_dynamic_table_add_entry`. -/
def evictStep (size : ℕ) (t : DynamicTable) : Option DynamicTable :=
  if size + t.actualSize > t.maxSize then some t.pop else none

/-- The loops of `hpack_tables_dynamic_pop` that the eviction comes to. -/
def popLoops (size : ℕ) : ℕ → DynamicTable → List Loop
  | 0, _ => []
  | fuel + 1, t =>
    if size + t.actualSize > t.maxSize then popLoop t :: popLoops size fuel t.pop else []

/-- The loop of `hpack_tables_dynamic_copy_from_ext`. -/
def copyLoop (t : DynamicTable) (s : Bytes) : Loop :=
  .counting 16 1 t.maxSize fun i => s.getD (i - 1) 0 == 0

/-- The loops of `hpack_tables_dynamic_table_add_entry`. -/
def addEntryLoops (t : DynamicTable) (h : Header) : List Loop :=
  let size := entrySize h % 2 ^ 16
  if size > t.maxSize then []
  else ⟨evictStep size, t⟩ :: popLoops size t.nEntries t ++ [copyLoop t h.1, copyLoop t h.2]

section Tables

variable {t : DynamicTable} {D : List Header} {h : Header}

theorem compareLoop_ends (t : DynamicTable) (initialPosition : ℕ) (s : Bytes) :
    (compareLoop t initialPosition s).Ends := by
  refine Loop.counting_ends ?_
  have := @BitVec.toInt_lt 16 (BitVec.ofNat 16 s.length)
  omega

theorem searchLoops_end {staticHit hit : ℕ → Bool} {compared : ℕ → List Loop}
    (hsize : t.maxSize < 2 ^ 15) (hcompared : ∀ i, ∀ l ∈ compared i, l.Ends) :
    ∀ l ∈ searchLoops t staticHit hit compared, l.Ends := by
  rw [searchLoops, List.forall_mem_cons]
  refine ⟨Loop.counting_ends (by decide), ?_⟩
  split
  · simp
  · rw [List.forall_mem_cons, Loop.ends_mk]
    refine ⟨forLoop_halts (by omega), fun l hl => ?_⟩
    obtain ⟨i, -, hi⟩ := List.mem_flatMap.mp hl
    exact hcompared i l hi

theorem findIndexLoops_end (hsize : t.maxSize < 2 ^ 15) : ∀ l ∈ findIndexLoops t h, l.Ends :=
  searchLoops_end hsize fun i => by simp [compareLoop_ends]

theorem findIndexNameLoops_end (hsize : t.maxSize < 2 ^ 15) :
    ∀ l ∈ findIndexNameLoops t h, l.Ends :=
  searchLoops_end hsize fun i => by simp [compareLoop_ends]

/-- **Eviction ends**: every round removes an entry, and a table without entries has room. -/
theorem evict_ends {size : ℕ} (ht : Represents t D) (hsize : size ≤ t.maxSize) :
    Halts (evictStep size) t := by
  refine Halts.of_measure (fun t => (∃ D, Represents t D) ∧ size ≤ t.maxSize)
    DynamicTable.nEntries ?_ ⟨⟨D, ht⟩, hsize⟩
  rintro t t' ⟨⟨D, ht⟩, hsize⟩ hstep
  rw [evictStep] at hstep
  split at hstep
  · rename_i hgt
    obtain rfl := Option.some.inj hstep
    rcases List.eq_nil_or_concat' D with rfl | ⟨D, e, rfl⟩
    · have hzero := ht.actualSize
      rw [tableSize_nil] at hzero
      omega
    · have hpop := ht.pop
      have hn := ht.nEntries
      rw [List.length_append, List.length_singleton] at hn
      exact ⟨⟨⟨D, hpop⟩, by simpa using hsize⟩, by rw [hpop.nEntries]; omega⟩
  · cases hstep

theorem popLoops_end (size fuel : ℕ) (hsize : t.maxSize < 2 ^ 15) :
    ∀ l ∈ popLoops size fuel t, l.Ends := by
  induction fuel generalizing t with
  | zero => simp [popLoops]
  | succ fuel ih =>
    rw [popLoops]
    split
    · rw [List.forall_mem_cons, popLoop, Loop.ends_mk]
      exact ⟨forLoop_halts (by omega), ih (by simpa using hsize)⟩
    · simp

theorem addEntryLoops_end (ht : Represents t D) : ∀ l ∈ addEntryLoops t h, l.Ends := by
  have hsize := ht.maxSize_lt
  rw [addEntryLoops]
  split
  · simp
  · simp only [List.cons_append, List.forall_mem_append, List.forall_mem_cons, Loop.ends_mk]
    refine ⟨evict_ends ht (by omega), popLoops_end _ _ hsize, ?_, ?_, by simp⟩
    · exact Loop.counting_ends (by omega)
    · exact Loop.counting_ends (by omega)

end Tables

/-! ## The encoder -/

/-- A round of `header_list_all`, over the rest of the buffer. -/
def allStep (m : Bytes) : Option Bytes :=
  if m = [] then none
  else if cstr m = [] then none
  else some (HeaderList.skipValue (m.drop ((cstr m).length + 1)))

/-- A round of the two loops of `header_list_all` that skip a value and the padding after it. -/
def skipStep (skipped : UInt8 → Bool) : Bytes → Option Bytes
  | [] => none
  | b :: m => if skipped b then some m else none

/-- The loops of `header_list_all` that skip a value and its padding. -/
def skipLoops : ℕ → Bytes → List Loop
  | 0, _ => []
  | fuel + 1, m =>
    let v := m.drop ((cstr m).length + 1)
    ⟨skipStep (· != 0), v⟩ :: ⟨skipStep (· == 0), v.dropWhile (· != 0)⟩ ::
      skipLoops fuel (HeaderList.skipValue v)

/-- The loops of `hpack_encoder_pack_header`. -/
def packHeaderLoops (t : DynamicTable) (h : Header) : List Loop :=
  findIndexLoops t h ++
    if 0 < findIndex t h.1 h.2 then [] else findIndexNameLoops t h ++ addEntryLoops t h

/-- The loops of `hpack_encoder_encode_header`. -/
def encodeHeaderLoops (bufferSize : ℕ) (f : Field) : List Loop :=
  (if f.packed.index = 0 then stringLoops bufferSize f.header.1
    else integerLoops f.packed.index (findPrefixSize f.packed.preamble)) ++
    if f.packed.preamble = .indexedHeaderField then [] else stringLoops bufferSize f.header.2

/-- `for (uint8_t i = 0; i < rc + pointer; i++)`, which prints the bytes. -/
def traceLoop (bound : ℤ) : Loop := ⟨forLoop 8 bound fun _ (s : Unit) => some s, (0, ())⟩

/-- The loops of `hpack_encoder_encode` for every header. -/
def headersLoops (bufferSize : ℕ) :
    List Header → DynamicTable → OutBuffer → ℤ → List Loop
  | [], _, _, _ => []
  | h :: hs, t, o, pointer =>
    let (packed, t') := packHeader t h.1 h.2
    let (rc, o) := encodeHeader packed h.1 h.2 o pointer bufferSize
    packHeaderLoops t h ++ encodeHeaderLoops bufferSize ⟨packed, h⟩ ++ [traceLoop (rc + pointer)] ++
      headersLoops bufferSize hs t' o (pointer + rc)

/-- The loops of `hpack_encode`. The index of the loop over the headers is an `int32_t`. -/
def encodeLoops (t : DynamicTable) (headers : HeaderList) (o : OutBuffer) (bufferSize : ℕ) :
    List Loop :=
  ⟨allStep, headers.buffer⟩ :: skipLoops headers.size headers.buffer ++
    [.counting 31 0 headers.count fun _ => false] ++
    headersLoops bufferSize (listed headers) t o 0

/-- All loops end, and the encoder returns. -/
structure Terminates (t : DynamicTable) (headers : HeaderList) (o : OutBuffer)
    (bufferSize : ℕ) : Prop where
  loops : ∀ l ∈ encodeLoops t headers o bufferSize, l.Ends
  returns : (encode t headers o bufferSize).isSome

section Encoder

variable {t : DynamicTable} {D : List Header} {h : Header} {bufferSize : ℕ}

theorem length_skipValue_le (m : Bytes) : (HeaderList.skipValue m).length ≤ m.length :=
  ((List.dropWhile_sublist _).trans (List.dropWhile_sublist _)).length_le

theorem allStep_ends (m : Bytes) : Halts allStep m := by
  refine Halts.of_measure (fun _ => True) List.length ?_ trivial
  intro m m' _ hstep
  rw [allStep] at hstep
  split at hstep
  · cases hstep
  · rename_i hne
    split at hstep
    · cases hstep
    · obtain rfl := Option.some.inj hstep
      have hle := length_skipValue_le (m.drop ((cstr m).length + 1))
      have hpos := List.length_pos_of_ne_nil hne
      rw [List.length_drop] at hle
      exact ⟨trivial, by omega⟩

theorem skipStep_ends (skipped : UInt8 → Bool) (m : Bytes) : Halts (skipStep skipped) m := by
  induction m with
  | nil => exact .stop rfl
  | cons b m ih =>
    by_cases hb : skipped b
    · exact .next (by rw [skipStep, if_pos hb]) ih
    · exact .stop (by rw [skipStep, if_neg hb])

theorem skipLoops_end (fuel : ℕ) (m : Bytes) : ∀ l ∈ skipLoops fuel m, l.Ends := by
  induction fuel generalizing m with
  | zero => simp [skipLoops]
  | succ fuel ih =>
    simp only [skipLoops, List.forall_mem_cons, Loop.ends_mk]
    exact ⟨skipStep_ends _ _, skipStep_ends _ _, ih _⟩

theorem packHeaderLoops_end (ht : Represents t D) : ∀ l ∈ packHeaderLoops t h, l.Ends := by
  have hsize := ht.maxSize_lt
  rw [packHeaderLoops, List.forall_mem_append]
  refine ⟨findIndexLoops_end hsize, ?_⟩
  split
  · simp
  · rw [List.forall_mem_append]
    exact ⟨findIndexNameLoops_end hsize, addEntryLoops_end ht⟩

theorem encodeHeaderLoops_end (f : Field) : ∀ l ∈ encodeHeaderLoops bufferSize f, l.Ends := by
  rw [encodeHeaderLoops, List.forall_mem_append]
  constructor
  · split
    · exact stringLoops_end bufferSize _
    · exact integerLoops_end _ _
  · split
    · simp
    · exact stringLoops_end bufferSize _

/-- **The loop that prints the bytes** ends if they are fewer than 256. -/
theorem traceLoop_ends_iff (bound : ℤ) : (traceLoop bound).Ends ↔ bound < 256 :=
  Loop.ends_mk.trans (forLoop_halts_iff (fun _ _ => rfl) (by decide))

/-- The headers of a list of at most `headerListMaxSize` bytes. -/
structure Small (h : Header) : Prop where
  nulFree : NulFree h.1 ∧ NulFree h.2
  length_le : h.1.length ≤ headerListMaxSize ∧ h.2.length ≤ headerListMaxSize

theorem Small.entrySize_lt (hh : Small h) : entrySize h < 2 ^ 16 := by
  have hmax : headerListMaxSize = 512 := rfl
  have := hh.length_le
  rw [entrySize]
  omega

theorem allLoop_small (fuel : ℕ) {m : Bytes} (hm : m.length ≤ headerListMaxSize) :
    ∀ h ∈ HeaderList.allLoop fuel m, Small h := by
  induction fuel generalizing m with
  | zero => simp [HeaderList.allLoop]
  | succ fuel ih =>
    have hcstr : ∀ m : Bytes, (cstr m).length ≤ m.length := fun m =>
      (List.takeWhile_sublist _).length_le
    rw [HeaderList.allLoop]
    split
    · simp
    · simp only
      split
      · simp
      · have hdrop := List.length_drop (i := (cstr m).length + 1) (l := m)
        have hskip := length_skipValue_le (m.drop ((cstr m).length + 1))
        have hvalue := hcstr (m.drop ((cstr m).length + 1))
        rw [List.forall_mem_cons]
        refine ⟨⟨⟨nulFree_cstr _, nulFree_cstr _⟩, (hcstr m).trans hm, ?_⟩, ih ?_⟩
        · simp only
          omega
        · omega

theorem listed_small {headers : HeaderList} (hsize : headers.size ≤ headerListMaxSize) :
    ∀ h ∈ listed headers, Small h := fun h hh =>
  allLoop_small headers.size hsize h (List.mem_of_mem_take hh)

/-- **The loops for the headers** end exactly if the trace loops do. -/
theorem headersLoops_end_iff {hs : List Header} {o : OutBuffer} {pointer : ℤ} (ht : Table t D)
    (hhs : ∀ h ∈ hs, Small h) :
    (∀ l ∈ headersLoops bufferSize hs t o pointer, l.Ends) ↔
      Returns bufferSize (packHeaders t hs).1 pointer := by
  induction hs generalizing t D o pointer with
  | nil => simp [headersLoops, Returns]
  | cons h hs ih =>
    rw [List.forall_mem_cons] at hhs
    obtain ⟨D', ht'⟩ := ht.packHeader hhs.1.nulFree hhs.1.entrySize_lt
    have hmax : headerListMaxSize = 512 := rfl
    have hlen := hhs.1.length_le
    have hrc := (@encodeHeader_result o pointer bufferSize ⟨(packHeader t h.1 h.2).1, h⟩).1
    have hpack : ∀ l ∈ packHeaderLoops t h, l.Ends := packHeaderLoops_end ht.represents
    have hencode : ∀ l ∈ encodeHeaderLoops bufferSize ⟨(packHeader t h.1 h.2).1, h⟩, l.Ends :=
      encodeHeaderLoops_end _
    rw [packHeaders_cons, Returns, headersLoops]
    simp only [List.forall_mem_append, List.forall_mem_singleton, traceLoop_ends_iff, hrc]
    rw [ih ht' hhs.2, add_comm pointer]
    constructor
    · rintro ⟨⟨-, hlt⟩, hrest⟩
      exact ⟨hlt, hrest⟩
    · rintro ⟨hlt, hrest⟩
      exact ⟨⟨⟨hpack, hencode⟩, hlt⟩, hrest⟩

end Encoder

/-- **The encoder terminates** exactly if after every header the bytes so far are fewer than 256,
whatever the size of its buffer. -/
theorem terminates_iff {t : DynamicTable} (ht : Reachable t) {headers : HeaderList}
    {hs : List Header} (hl : headers.Holds hs) (o : OutBuffer) (bufferSize : ℕ) :
    Terminates t headers o bufferSize ↔ Returns bufferSize (emitted t headers) 0 := by
  have hmax : headerListMaxSize = 512 := rfl
  obtain ⟨D, htable⟩ := ht.table
  have hsize : headers.size ≤ headerListMaxSize := by
    rw [HeaderList.size, hl.buffer]
    exact hl.fits
  have hcount : headers.count < 2 ^ 31 := by
    have hlen := HeaderList.two_mul_length_le_packedSize hs
    have hfits := hl.fits
    rw [hl.count]
    omega
  -- every loop but the one over the headers counts up to a bound that fits its type
  have hloops : (∀ l ∈ encodeLoops t headers o bufferSize, l.Ends) ↔
      Returns bufferSize (emitted t headers) 0 := by
    rw [emitted, ← headersLoops_end_iff (o := o) htable (listed_small hsize)]
    simp only [encodeLoops, List.cons_append, List.forall_mem_append, List.forall_mem_cons,
      Loop.ends_mk]
    refine ⟨fun h => h.2.2, fun h => ⟨allStep_ends _, ⟨skipLoops_end _ _, ?_, by simp⟩, h⟩⟩
    exact Loop.counting_ends hcount
  have hreturns : (encode t headers o bufferSize).isSome ↔
      Returns bufferSize (emitted t headers) 0 := by
    rw [encode_eq]
    split
    · rename_i hr
      exact iff_of_true rfl hr
    · rename_i hr
      exact iff_of_false (by simp) hr
  exact ⟨fun h => hloops.mp h.loops, fun h => ⟨hloops.mpr h, hreturns.mpr h⟩⟩

/-- A list with the header `a: b`. -/
def shortList : HeaderList := ⟨HeaderList.records [(ascii "a", ascii "b")], 1⟩

/-- A list with one header, whose value has no code shorter than a byte. -/
def longList : HeaderList :=
  ⟨HeaderList.records [(ascii "a", List.replicate 255 88)], 1⟩

theorem reachable_newTable : Reachable newTable := .init _ (by decide)

theorem terminates_shortList : Terminates newTable shortList .empty 503 := by
  have hl : shortList.Holds [(ascii "a", ascii "b")] := ⟨rfl, rfl, by decide⟩
  exact (terminates_iff reachable_newTable hl .empty 503).mpr (by decide +kernel)

/-- One header is encoded in 261 bytes, and the loop that prints them does not end. -/
theorem not_terminates :
    ¬ ∀ (t : DynamicTable) (headers : HeaderList) (hs : List Header) (o : OutBuffer)
      (bufferSize : ℕ), Reachable t → headers.Holds hs → bufferSize ≤ frameMaxSize - 9 →
        Terminates t headers o bufferSize := by
  intro h
  have hret := (h newTable longList [(ascii "a", List.replicate 255 88)] .empty 503
    reachable_newTable ⟨rfl, rfl, by decide +kernel⟩ (by decide)).returns
  rw [encode_eq, if_neg (by decide +kernel)] at hret
  cases hret

end Two.Hpack
