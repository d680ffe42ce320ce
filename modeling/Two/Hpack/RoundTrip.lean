import Two.Hpack.Codec
import Two.Hpack.TableSearch

/-!
# The codec round trip

With equal tables on both sides, a header list comes back from the decoder if and only if every
header is, when the encoder reaches it, equal to the newest entry that it is a beginning of. The
search of the encoder takes that entry for the header, since `hpack_tables_dynamic_compare_string`
stops at the end of the string it is given.

## Main definitions

* `Reachable t`: tables reached by any history of `hpack_init`, additions and resizes
* `entries t`: the entries of a table, newest first
* `Faithful t h`: the search of the encoder takes no other entry for the header `h`
* `RoundTrips t blocks`: every block comes back, and the tables stay equal

## Main results

* `Reachable.represents`: a reachable table represents the list of its entries
* `applyField_packHeader_iff`: one header comes back if and only if it is `Faithful`
* `roundTrips_iff_faithful`: a sequence of blocks comes back if and only if all its headers are
-/

namespace Two.Hpack

/-! ## Reachable tables -/

/-- The tables reached by any history of `hpack_init`, additions and resizes. The strings added are
C strings whose entry is accounted for in 16 bits, as those of every caller are. -/
inductive Reachable : DynamicTable → Prop
  | init (t : DynamicTable) {size : ℕ} (h : size ≤ http2HeaderTableSize) : Reachable (t.init size)
  | addEntry {t : DynamicTable} {name value : Bytes} (ht : Reachable t) (hn : NulFree name)
    (hv : NulFree value) (h16 : name.length + value.length + 32 < 2 ^ 16) :
    Reachable (t.addEntry name value).1
  | resize {t : DynamicTable} (ht : Reachable t) (newMaxSize : ℕ) :
    Reachable (t.resize newMaxSize).1
  | dynamicChangeMaxSize {t : DynamicTable} (ht : Reachable t) (size : ℕ) :
    Reachable (dynamicChangeMaxSize t size)

/-- A table of bounded capacity with its entries. -/
structure Table (t : DynamicTable) (D : List Header) : Prop where
  represents : Represents t D
  maxSize_le : t.maxSize ≤ http2HeaderTableSize
  limit_le : t.settingsMaxTableSize ≤ http2HeaderTableSize

theorem Table.resize {t : DynamicTable} {D : List Header} (h : Table t D) (newMaxSize : ℕ) :
    ∃ D', Table (t.resize newMaxSize).1 D' := by
  by_cases hle : newMaxSize ≤ t.settingsMaxTableSize
  · have hcap : http2HeaderTableSize = 4096 := rfl
    have hlim := h.limit_le
    obtain ⟨-, hrep⟩ := h.represents.resize hle
    refine ⟨_, hrep, ?_, ?_⟩
    all_goals
      rw [DynamicTable.resize, if_neg (by omega)]
      simp only
    · rw [Nat.mod_eq_of_lt (by omega)]
      omega
    · rw [DynamicTable.reorganize_settingsMaxTableSize,
        DynamicTable.evictLoop_settingsMaxTableSize]
      exact hlim
  · rw [DynamicTable.resize, if_pos (by omega)]
    exact ⟨D, h⟩

theorem Table.addEntry {t : DynamicTable} {D : List Header} (h : Table t D) {e : Header}
    (he : NulFree e.1 ∧ NulFree e.2) (h16 : entrySize e < 2 ^ 16) :
    ∃ D', Table (t.addEntry e.1 e.2).1 D' := by
  by_cases hfit : entrySize e ≤ t.maxSize
  · exact ⟨_, (h.represents.addEntry he hfit).2,
      by rw [t.addEntry_maxSize h16]; exact h.maxSize_le,
      by rw [t.addEntry_settingsMaxTableSize h16]; exact h.limit_le⟩
  · rw [Represents.addEntry_of_gt h16 (by omega)]
    exact ⟨D, h⟩

/-- **A reachable table represents the list of its entries.** -/
theorem Reachable.table {t : DynamicTable} (ht : Reachable t) : ∃ D, Table t D := by
  have hcap : http2HeaderTableSize = 4096 := rfl
  induction ht with
  | init t h =>
    -- a new table is empty and within the capacity of its memory
    refine ⟨[], Represents.init t (by omega), ?_, ?_⟩
    all_goals
      simp only [DynamicTable.init]
      rw [Nat.mod_eq_of_lt (by omega)]
      exact h
  | addEntry ht hn hv h16 ih =>
    obtain ⟨D, h⟩ := ih
    exact h.addEntry (e := (_, _)) ⟨hn, hv⟩ h16
  | resize ht newMaxSize ih =>
    obtain ⟨D, h⟩ := ih
    exact h.resize newMaxSize
  | dynamicChangeMaxSize ht size ih =>
    obtain ⟨D, h⟩ := ih
    rw [Hpack.dynamicChangeMaxSize]
    split
    · have hr := h.represents
      have hset : Table { (_ : DynamicTable) with settingsMaxTableSize := size } D :=
        ⟨⟨hr.maxSize_lt, by simp only; omega, hr.first_lt, hr.next_eq, hr.nulFree, hr.actualSize,
          hr.size_le, hr.nEntries, hr.lies⟩, h.maxSize_le, by assumption⟩
      exact hset.resize size
    · exact ⟨D, h⟩

/-! ## Entries -/

/-- The entries of a table, newest first, as lookup by index gives them. -/
def entries (t : DynamicTable) : List Header :=
  (List.range t.nEntries).map fun k => (t.findEntryNameAndValue (62 + k)).toOption.getD ([], [])

theorem Represents.entries_eq {t : DynamicTable} {D : List Header} (h : Represents t D) :
    entries t = D := by
  apply List.ext_getElem
  · simp [entries, h.nEntries]
  · intro k _ hk
    simp [entries, h.findEntryNameAndValue, hk, Except.toOption]

/-- The static entry equal to a header. -/
def staticIndex (h : Header) : Option ℕ :=
  staticSearch fun i => staticName i == h.1 && staticValue i == h.2

/-- The first static entry with the name of a header. -/
def staticNameIndex (h : Header) : Option ℕ := staticSearch fun i => staticName i == h.1

/-- The searches of the encoder take no other entry for the header `h`. With 128 entries, which can
only be empty ones, the 8-bit counter of strings wraps and the search goes on behind the entries:
there it must find nothing. -/
structure Faithful (t : DynamicTable) (h : Header) : Prop where
  whole : t.nEntries < 128 → ∀ e, (entries t).find? (prefixMatches h) = some e → e = h
  name : t.nEntries < 128 → (entries t).find? (prefixMatches h) = none →
    staticNameIndex h = none → ∀ e, (entries t).find? (namePrefixMatches h) = some e → e.1 = h.1
  wrapped : 128 ≤ t.nEntries → t.searchLoop (t.matchesEntry h.1 h.2) t.maxSize 1 0 < 0 ∧
    (staticNameIndex h = none → t.searchLoop (t.matchesName h.1) t.maxSize 1 0 < 0)

/-- Every header of a list is, when the encoder reaches it, in the static table or faithful. -/
def FaithfulList (t : DynamicTable) : List Header → Prop
  | [] => True
  | h :: hs => (staticIndex h = none → Faithful t h) ∧ FaithfulList (packHeader t h.1 h.2).2 hs

/-! ## One header -/

section Header

variable {t : DynamicTable} {D : List Header} {h : Header}

/-- The static table has no empty name before its end. -/
theorem lt_61_of_staticName {i : ℕ} (hi : i < 62) (hne : staticName i ≠ []) : i < 61 := by
  rcases Nat.lt_or_ge i 61 with h | h
  · exact h
  · obtain rfl : i = 61 := by omega
    exact absurd (by decide) hne

theorem staticSearch_some {hit : ℕ → Bool} {i : ℕ} (h : staticSearch hit = some i) :
    i < 62 ∧ hit i = true :=
  ⟨List.mem_range.mp (List.mem_of_find?_eq_some h), List.find?_some h⟩

theorem findEntryNameAndValue_static {i : ℕ} (hi : i < 61) :
    findEntryNameAndValue t (i + 1) = .ok (staticName i, staticValue i) := by
  rw [findEntryNameAndValue, if_neg (by omega), Nat.add_sub_cancel]

theorem findEntryName_static {i : ℕ} (hi : i < 61) :
    findEntryName t (i + 1) = .ok (staticName i) := by
  rw [findEntryName, if_neg (by omega), Nat.add_sub_cancel]

/-- A header of the static table is found there. -/
theorem findIndex_static (hh : Codable h) {i : ℕ} (hs : staticIndex h = some i) :
    findIndex t h.1 h.2 = i + 1 ∧ findEntryNameAndValue t (i + 1) = .ok h := by
  obtain ⟨hi, hhit⟩ := staticSearch_some hs
  simp only [Bool.and_eq_true, beq_iff_eq] at hhit
  have h61 := lt_61_of_staticName hi (by rw [hhit.1]; exact hh.name_ne_nil)
  refine ⟨?_, by rw [findEntryNameAndValue_static h61, hhit.1, hhit.2]⟩
  rw [findIndex]
  rw [staticIndex] at hs
  simp only [hs]

/-- With 128 entries all of them are empty. -/
theorem Table.getElem_empty (ht : Table t D) (h128 : 128 ≤ D.length) {k : ℕ} (hk : k < D.length) :
    D[k] = ([], []) := by
  have hcap : http2HeaderTableSize = 4096 := rfl
  have hle := ht.represents.size_le
  have hmax := ht.maxSize_le
  have hsum := packedSize_add D
  have hge := Represents.depth_ge hk
  have hdepth := depth_le D k
  have hsplit : HeaderList.packedSize D = HeaderList.packedSize (D.take k) +
      (D[k].1.length + D[k].2.length + 2 + HeaderList.packedSize (D.drop (k + 1))) := by
    rw [← HeaderList.packedSize_cons, ← List.drop_eq_getElem_cons hk, ← HeaderList.packedSize_append,
      List.take_append_drop]
  have hA := HeaderList.two_mul_length_le_packedSize (D.take k)
  have hB := HeaderList.two_mul_length_le_packedSize (D.drop (k + 1))
  rw [List.length_take, Nat.min_eq_left (by omega)] at hA
  rw [List.length_drop] at hB
  exact Prod.ext (List.eq_nil_of_length_eq_zero (by omega))
    (List.eq_nil_of_length_eq_zero (by omega))

/-- A search gives a dynamic index or nothing. -/
theorem searchLoop_cases (t : DynamicTable) (hit : ℕ → Bool) :
    ∀ (fuel i c : ℕ), c < 256 → t.searchLoop hit fuel i c = internalError ∨
      ∃ k < 127, t.searchLoop hit fuel i c = ((62 + k : ℕ) : ℤ) := by
  intro fuel
  induction fuel with
  | zero => intros; exact Or.inl rfl
  | succ fuel ih =>
    intro i c hc
    have hlt : (if t.back i = 0 then (c + 1) % 2 ^ 8 else c) < 256 := by split <;> omega
    simp only [DynamicTable.searchLoop]
    generalize (if t.back i = 0 then (c + 1) % 2 ^ 8 else c) = c' at hlt
    split
    · next hcond =>
      right
      refine ⟨c' / 2 - 1, by omega, ?_⟩
      omega
    · split
      · exact Or.inl rfl
      · exact ih _ _ hlt

/-- **A dynamic index is right** if and only if the newest entry that matches is: `look` is the
lookup by index, `proj` what it gives for an entry. -/
theorem found_iff {α : Type} (ht : Table t D) (proj : Header → α) {hit : ℕ → Bool}
    {m : Header → Bool} (hhit : ∀ (k : ℕ) (hk : k < D.length), hit (depth D k) = m D[k])
    {look : ℕ → Except ℤ α}
    (hlook : ∀ (k : ℕ) (hk : k < D.length), look (62 + k) = .ok (proj D[k])) {x : α}
    (hx : proj ([], []) ≠ x) :
    (0 < t.searchLoop hit t.maxSize 1 0 → look (t.searchLoop hit t.maxSize 1 0).toNat = .ok x) ↔
      (t.nEntries < 128 → ∀ e, (entries t).find? m = some e → proj e = x) ∧
        (128 ≤ t.nEntries → t.searchLoop hit t.maxSize 1 0 < 0) := by
  have hrep := ht.represents
  rw [hrep.entries_eq, hrep.nEntries]
  -- a table of 128 entries has room for empty ones only, and a search finds one of those
  rcases Nat.lt_or_ge D.length 128 with h128 | h128
  · rw [hrep.searchLoop h128 hhit, List.find?_eq_bind_findIdx?_getElem?]
    cases hidx : D.findIdx? m with
    | none => simp [h128, internalError]
    | some k =>
      obtain ⟨hk, -⟩ := List.findIdx?_eq_some_iff_getElem.mp hidx
      dsimp only
      rw [Int.toNat_natCast, Nat.add_comm, hlook k hk]
      constructor
      · intro hfound
        refine ⟨fun _ e he => ?_, fun hge => absurd hge (by omega)⟩
        obtain rfl : D[k] = e := by simpa [hk] using he
        exact Except.ok.inj (hfound (Int.natCast_pos.mpr (by omega)))
      · rintro ⟨hfound, -⟩ -
        rw [hfound h128 D[k] (by simp [hk])]
  · rcases searchLoop_cases t hit t.maxSize 1 0 (by decide) with hnone | ⟨k, hk, hsome⟩
    · rw [hnone]
      simp [internalError, h128]
    · rw [hsome, Int.toNat_natCast, hlook k (by omega), ht.getElem_empty h128]
      constructor
      · intro hfound
        exact absurd (Except.ok.inj (hfound (Int.natCast_pos.mpr (by omega)))) hx
      · rintro ⟨-, hfound⟩
        have := hfound h128
        omega

theorem findIndex_of_none (hs : staticIndex h = none) :
    findIndex t h.1 h.2 = t.searchLoop (t.matchesEntry h.1 h.2) t.maxSize 1 0 := by
  rw [staticIndex] at hs
  rw [findIndex]
  simp only [hs]

theorem findIndexName_of_none (hs : staticNameIndex h = none) :
    findIndexName t h.1 = t.searchLoop (t.matchesName h.1) t.maxSize 1 0 := by
  rw [staticNameIndex] at hs
  rw [findIndexName]
  simp only [hs]

/-- A name of the static table is found there. -/
theorem findIndexName_static (hh : Codable h) {i : ℕ} (hs : staticNameIndex h = some i) :
    findIndexName t h.1 = i + 1 ∧ findEntryName t (i + 1) = .ok h.1 := by
  obtain ⟨hi, hhit⟩ := staticSearch_some hs
  simp only [beq_iff_eq] at hhit
  have h61 := lt_61_of_staticName hi (by rw [hhit]; exact hh.name_ne_nil)
  refine ⟨?_, by rw [findEntryName_static h61, hhit]⟩
  rw [findIndexName]
  rw [staticNameIndex] at hs
  simp only [hs]

/-- The index for the whole header is right, or there is none. -/
theorem whole_iff (ht : Table t D) (hh : Codable h) (hs : staticIndex h = none) :
    (0 < findIndex t h.1 h.2 → findEntryNameAndValue t (findIndex t h.1 h.2).toNat = .ok h) ↔
      (t.nEntries < 128 → ∀ e, (entries t).find? (prefixMatches h) = some e → e = h) ∧
        (128 ≤ t.nEntries → t.searchLoop (t.matchesEntry h.1 h.2) t.maxSize 1 0 < 0) := by
  rw [findIndex_of_none hs]
  refine found_iff ht id (fun k hk => ht.represents.matchesEntry
    ⟨hh.storable.name_nulFree, hh.storable.value_nulFree⟩ hk) (fun k hk => ?_)
    fun heq => hh.name_ne_nil (by rw [← heq]; rfl)
  rw [findEntryNameAndValue, if_pos (by omega), ht.represents.findEntryNameAndValue,
    List.getElem?_eq_getElem hk]
  rfl

/-- The index for the name is right, or there is none. -/
theorem name_iff (ht : Table t D) (hh : Codable h) :
    (0 < findIndexName t h.1 → findEntryName t (findIndexName t h.1).toNat = .ok h.1) ↔
      (staticNameIndex h = none →
        (t.nEntries < 128 → ∀ e, (entries t).find? (namePrefixMatches h) = some e → e.1 = h.1) ∧
          (128 ≤ t.nEntries → t.searchLoop (t.matchesName h.1) t.maxSize 1 0 < 0)) := by
  cases hs : staticNameIndex h with
  | some i =>
    obtain ⟨h1, h2⟩ := findIndexName_static (t := t) hh hs
    rw [h1, show ((i : ℤ) + 1).toNat = i + 1 by omega, h2]
    simp
  | none =>
    rw [findIndexName_of_none hs]
    have hhit : ∀ (k : ℕ) (hk : k < D.length),
        t.matchesName h.1 (depth D k) = namePrefixMatches h D[k] :=
      fun k hk => ht.represents.matchesName hh.storable.name_nulFree hk
    have hlook : ∀ (k : ℕ) (hk : k < D.length), findEntryName t (62 + k) = .ok D[k].1 := by
      intro k hk
      rw [findEntryName, if_pos (by omega), ht.represents.findEntryName, List.getElem?_eq_getElem hk]
    rw [found_iff ht Prod.fst hhit hlook fun heq => hh.name_ne_nil heq.symm]
    simp

/-- Without an index for the whole header no entry matches it. -/
theorem find?_none_of_findIndex (ht : Table t D) (hh : Codable h) (hs : staticIndex h = none)
    (h128 : t.nEntries < 128) :
    (entries t).find? (prefixMatches h) = none ↔ ¬ 0 < findIndex t h.1 h.2 := by
  have hrep := ht.represents
  rw [hrep.nEntries] at h128
  rw [findIndex_of_none hs, hrep.entries_eq, hrep.searchLoop h128 (m := prefixMatches h)
    fun k hk => hrep.matchesEntry ⟨hh.storable.name_nulFree, hh.storable.value_nulFree⟩ hk,
    List.find?_eq_bind_findIdx?_getElem?]
  cases hidx : D.findIdx? (prefixMatches h) with
  | none => simp [internalError]
  | some k =>
    obtain ⟨hk, -⟩ := List.findIdx?_eq_some_iff_getElem.mp hidx
    simp [hk]
    omega

theorem Codable.entrySize_lt (hh : Codable h) : entrySize h < 2 ^ 16 := by
  have h1 := hh.name_length
  have h2 := hh.value_length
  have hcap : hpackHeaderNameLen = 32 ∧ hpackHeaderValueLen = 64 := ⟨rfl, rfl⟩
  rw [entrySize]
  omega

/-- An addition that fails changes nothing. -/
theorem Table.addEntry_neg (ht : Table t D) (hh : Codable h) (hneg : (t.addEntry h.1 h.2).2 < 0) :
    (t.addEntry h.1 h.2).1 = t := by
  by_cases hfit : entrySize h ≤ t.maxSize
  · have := (ht.represents.addEntry
      ⟨hh.storable.name_nulFree, hh.storable.value_nulFree⟩ hfit).1
    omega
  · rw [Represents.addEntry_of_gt hh.entrySize_lt (by omega)]

/-- The name a literal field means. -/
def fieldName (t : DynamicTable) (h : Header) : Except ℤ Bytes :=
  if (findIndexName t h.1).toNat = 0 then .ok h.1 else findEntryName t (findIndexName t h.1).toNat

theorem fieldName_iff (t : DynamicTable) (h : Header) :
    fieldName t h = .ok h.1 ↔
      (0 < findIndexName t h.1 → findEntryName t (findIndexName t h.1).toNat = .ok h.1) := by
  rw [fieldName]
  by_cases h0 : 0 < findIndexName t h.1
  · rw [if_neg (by omega)]
    simp [h0]
  · rw [if_pos (by omega)]
    simp [h0]

/-- **A literal field means its header** if and only if it means its name; the decoder then adds the
entry that the encoder added. -/
theorem applyField_literal (ht : Table t D) (hh : Codable h) (hnot : ¬ 0 < findIndex t h.1 h.2) :
    ((applyField t ⟨(packHeader t h.1 h.2).1, h⟩).2 = .ok h ↔ fieldName t h = .ok h.1) ∧
    (fieldName t h = .ok h.1 →
      (applyField t ⟨(packHeader t h.1 h.2).1, h⟩).1 = (packHeader t h.1 h.2).2) := by
  rw [packHeader_eq, if_neg hnot, applyField]
  simp only
  rw [if_neg (by split <;> decide)]
  rw [← fieldName]
  cases hname : fieldName t h with
  | error rc => simp
  | ok name =>
    simp only
    -- an entry that the table refuses is sent as a literal without indexing
    by_cases hneg : (t.addEntry h.1 h.2).2 < 0
    · rw [if_pos hneg, if_neg (by decide), ht.addEntry_neg hh hneg]
      refine ⟨?_, fun _ => rfl⟩
      constructor
      · intro heq
        rw [← (Prod.ext_iff.mp (Except.ok.inj heq)).1]
      · intro heq
        rw [Except.ok.inj heq]
    · rw [if_neg hneg, if_pos rfl]
      refine ⟨⟨fun heq => ?_, fun heq => ?_⟩, fun heq => ?_⟩
      · split at heq
        · exact absurd heq (by simp)
        · rw [← (Prod.ext_iff.mp (Except.ok.inj heq)).1]
      · obtain rfl := Except.ok.inj heq
        rw [if_neg hneg]
      · obtain rfl := Except.ok.inj heq
        rw [if_neg hneg]

/-- **One header comes back** if and only if it is in the static table or faithful, and then the
tables stay equal. -/
theorem applyField_packHeader_iff (ht : Table t D) (hh : Codable h) :
    ((applyField t ⟨(packHeader t h.1 h.2).1, h⟩).2 = .ok h ↔
      (staticIndex h = none → Faithful t h)) ∧
    ((applyField t ⟨(packHeader t h.1 h.2).1, h⟩).2 = .ok h →
      (applyField t ⟨(packHeader t h.1 h.2).1, h⟩).1 = (packHeader t h.1 h.2).2) := by
  by_cases hpos : 0 < findIndex t h.1 h.2
  -- the whole header is an index, and means what the decoder finds there
  · have hap : applyField t ⟨(packHeader t h.1 h.2).1, h⟩ =
        (t, findEntryNameAndValue t (findIndex t h.1 h.2).toNat) := by
      rw [packHeader_eq, if_pos hpos, applyField, if_pos rfl]
    refine ⟨?_, fun _ => by rw [hap, packHeader_eq, if_pos hpos]⟩
    rw [hap]
    cases hs : staticIndex h with
    | some i =>
      obtain ⟨h1, h2⟩ := findIndex_static (t := t) hh hs
      rw [h1, show ((i : ℤ) + 1).toNat = i + 1 by omega]
      simp [h2]
    | none =>
      have hiff := whole_iff ht hh hs
      constructor
      · intro heq _
        obtain ⟨hwhole, hwrap⟩ := hiff.mp fun _ => heq
        refine ⟨hwhole, fun h128 hnone => ?_, fun h128 => ?_⟩
        -- an index was found, so some entry matches
        · exact absurd hpos ((find?_none_of_findIndex ht hh hs h128).mp hnone)
        · have := hwrap h128
          rw [findIndex_of_none hs] at hpos
          omega
      · intro hfaith
        have hf := hfaith rfl
        exact hiff.mpr ⟨hf.whole, fun h128 => (hf.wrapped h128).1⟩ hpos
  · obtain ⟨hlit, htable⟩ := applyField_literal ht hh hpos
    refine ⟨?_, fun heq => htable (hlit.mp heq)⟩
    -- without an index the header is not in the static table
    have hs : staticIndex h = none := by
      cases hs : staticIndex h with
      | none => rfl
      | some i =>
        obtain ⟨h1, -⟩ := findIndex_static (t := t) hh hs
        omega
    rw [hlit, fieldName_iff, name_iff ht hh]
    obtain ⟨hwhole, hwrap⟩ := (whole_iff ht hh hs).mp fun h => absurd h hpos
    constructor
    · intro hname _
      exact ⟨hwhole, fun h128 _ hsn => (hname hsn).1 h128,
        fun h128 => ⟨hwrap h128, fun hsn => (hname hsn).2 h128⟩⟩
    · intro hfaith hsn
      have hf := hfaith hs
      exact ⟨fun h128 => hf.name h128 ((find?_none_of_findIndex ht hh hs h128).mpr hpos) hsn,
        fun h128 => (hf.wrapped h128).2 hsn⟩

end Header

/-! ## Blocks -/

section Blocks

variable {t : DynamicTable} {D : List Header}

theorem Table.packHeader (ht : Table t D) {h : Header} (hh : NulFree h.1 ∧ NulFree h.2)
    (h16 : entrySize h < 2 ^ 16) : ∃ D', Table (Hpack.packHeader t h.1 h.2).2 D' := by
  rw [packHeader_eq]
  split
  · exact ⟨D, ht⟩
  · exact ht.addEntry hh h16

theorem Table.packHeader_codable (ht : Table t D) {h : Header} (hh : Codable h) :
    ∃ D', Table (Hpack.packHeader t h.1 h.2).2 D' :=
  ht.packHeader ⟨hh.storable.name_nulFree, hh.storable.value_nulFree⟩ hh.entrySize_lt

theorem Table.packHeaders (ht : Table t D) {hs : List Header} (hhs : ∀ h ∈ hs, Codable h) :
    ∃ D', Table (Hpack.packHeaders t hs).2 D' := by
  induction hs generalizing t D with
  | nil => exact ⟨D, ht⟩
  | cons h hs ih =>
    obtain ⟨D', ht'⟩ := ht.packHeader_codable (hhs h List.mem_cons_self)
    exact ih ht' fun k hk => hhs k (List.mem_cons_of_mem _ hk)

/-- The fields of a longer list: a decoder with the table `d` reads the first one, which leaves it
with the table `d'` if it means its header, and then the others. -/
theorem means_packHeaders_cons {d d' : DynamicTable} {h : Header} {hs : List Header}
    (htable : (applyField d ⟨(Hpack.packHeader t h.1 h.2).1, h⟩).2 = .ok h →
      (applyField d ⟨(Hpack.packHeader t h.1 h.2).1, h⟩).1 = d') :
    (Means d (Hpack.packHeaders t (h :: hs)).1 ↔
      (applyField d ⟨(Hpack.packHeader t h.1 h.2).1, h⟩).2 = .ok h ∧
        Means d' (Hpack.packHeaders (Hpack.packHeader t h.1 h.2).2 hs).1) ∧
    (Means d (Hpack.packHeaders t (h :: hs)).1 →
      applyFields d (Hpack.packHeaders t (h :: hs)).1 =
        applyFields d' (Hpack.packHeaders (Hpack.packHeader t h.1 h.2).2 hs).1) := by
  rw [packHeaders_cons, Means]
  constructor
  · refine and_congr_right fun hok => ?_
    rw [htable hok]
  · rintro ⟨hok, -⟩
    rw [← htable hok]
    rfl

/-- The fields of a header list mean their headers if and only if the list is faithful, and then
the tables stay equal. -/
theorem means_packHeaders_iff {hs : List Header} (ht : Table t D) (hhs : ∀ h ∈ hs, Codable h) :
    (Means t (Hpack.packHeaders t hs).1 ↔ FaithfulList t hs) ∧
      (Means t (Hpack.packHeaders t hs).1 →
        applyFields t (Hpack.packHeaders t hs).1 = (Hpack.packHeaders t hs).2) := by
  induction hs generalizing t D with
  | nil => exact ⟨Iff.rfl, fun _ => rfl⟩
  | cons h hs ih =>
    have hh := hhs h List.mem_cons_self
    obtain ⟨hiff, htable⟩ := applyField_packHeader_iff ht hh
    obtain ⟨D', ht'⟩ := ht.packHeader_codable hh
    obtain ⟨ihiff, ihtable⟩ := ih ht' fun k hk => hhs k (List.mem_cons_of_mem _ hk)
    obtain ⟨hmeans, hfields⟩ := @means_packHeaders_cons t t _ h hs htable
    refine ⟨?_, fun hm => ?_⟩
    · rw [hmeans, hiff, ihiff]
      rfl
    · rw [hfields hm, ihtable (hmeans.mp hm).2]
      rfl

/-- A block comes back: `hpack_encode` leaves the table `t'`; `hpack_decode` of its bytes with the
same table succeeds, whatever lies behind its buffers, passes the headers of the list to
`header_list_add` in their order, and leaves the same table. -/
def RoundTrip (t : DynamicTable) (l : HeaderList) (bufferSize : ℕ) (t' : DynamicTable) : Prop :=
  ∀ o, ∃ (rc : ℕ) (out : OutBuffer), encode t l o bufferSize = some ((rc : ℤ), t', out) ∧
    ∀ behind, 0 ≤ (decode behind t (out.bytes rc) rc .reset).rc ∧
      (decode behind t (out.bytes rc) rc .reset).added = l.all ∧
      (decode behind t (out.bytes rc) rc .reset).table = t'

/-- Every block of a sequence, given with the sizes of the output buffers, comes back. -/
def RoundTrips : DynamicTable → List (HeaderList × ℕ) → Prop
  | _, [] => True
  | t, (l, bufferSize) :: blocks => ∃ t', RoundTrip t l bufferSize t' ∧ RoundTrips t' blocks

/-- The blocks the codec is made for: well-formed lists of printable headers, whose encoding is
shorter than the buffer and than 256 bytes. -/
def Admissible : DynamicTable → List (HeaderList × ℕ) → Prop
  | _, [] => True
  | t, (l, bufferSize) :: blocks =>
    l.Holds l.all ∧ (∀ h ∈ l.all, Codable h) ∧
      (blockBytes (packHeaders t l.all).1).length < bufferSize ∧
      (blockBytes (packHeaders t l.all).1).length < 256 ∧
      Admissible (packHeaders t l.all).2 blocks

/-- Every header of a sequence of blocks is faithful when the encoder reaches it. -/
def FaithfulBlocks : DynamicTable → List (HeaderList × ℕ) → Prop
  | _, [] => True
  | t, (l, _) :: blocks => FaithfulList t l.all ∧ FaithfulBlocks (packHeaders t l.all).2 blocks

theorem header_packHeaders (t : DynamicTable) (hs : List Header) :
    (packHeaders t hs).1.map Field.header = hs := by
  induction hs generalizing t with
  | nil => rfl
  | cons h hs ih => rw [packHeaders_cons, List.map_cons, ih]

theorem valid_packHeaders {hs : List Header} (t : DynamicTable) (hhs : ∀ h ∈ hs, Codable h) :
    ∀ f ∈ (packHeaders t hs).1, f.Valid := by
  induction hs generalizing t with
  | nil => simp
  | cons h hs ih =>
    intro f hf
    rw [packHeaders_cons] at hf
    rcases List.mem_cons.mp hf with rfl | hf
    · exact packHeader_valid t (hhs h List.mem_cons_self)
    · exact ih _ (fun k hk => hhs k (List.mem_cons_of_mem _ hk)) f hf

/-- One block with different tables on the two sides: the headers come back if and only if every
field means its header to the decoder. -/
theorem decode_encode_iff {l : HeaderList} {hs : List Header} {bufferSize : ℕ}
    (behind : Behind) (t d : DynamicTable) (hl : l.Holds hs) (hhs : ∀ h ∈ hs, Codable h)
    (hN : (blockBytes (packHeaders t hs).1).length < bufferSize)
    (h256 : (blockBytes (packHeaders t hs).1).length < 256) (o : OutBuffer) :
    ∃ out, encode t l o bufferSize =
        some (((blockBytes (packHeaders t hs).1).length : ℤ), (packHeaders t hs).2, out) ∧
      out.bytes (blockBytes (packHeaders t hs).1).length = blockBytes (packHeaders t hs).1 ∧
      ((decode behind d (blockBytes (packHeaders t hs).1) (blockBytes (packHeaders t hs).1).length
        .reset).added = hs → Means d (packHeaders t hs).1) ∧
      (Means d (packHeaders t hs).1 →
        (decode behind d (blockBytes (packHeaders t hs).1) (blockBytes (packHeaders t hs).1).length
          .reset).rc = (blockBytes (packHeaders t hs).1).length ∧
        (decode behind d (blockBytes (packHeaders t hs).1) (blockBytes (packHeaders t hs).1).length
          .reset).table = applyFields d (packHeaders t hs).1 ∧
        (decode behind d (blockBytes (packHeaders t hs).1) (blockBytes (packHeaders t hs).1).length
          .reset).added = hs) := by
  obtain ⟨out, hout, hbytes⟩ := encode_writes t hl hhs o hN h256
  have hvalid := valid_packHeaders t hhs
  have hheader := header_packHeaders t hs
  -- the decoded fields carry the listed headers, so what holds of those holds here
  have hcod : ∀ f ∈ (packHeaders t hs).1, Codable f.header := by
    intro f hf
    have : f.header ∈ (packHeaders t hs).1.map Field.header := List.mem_map_of_mem hf
    rw [hheader] at this
    exact hhs _ this
  refine ⟨out, hout, hbytes, fun hadded => ?_, fun hmeans => ?_⟩
  · exact means_of_decode_fields behind hvalid (by rw [hadded, hheader])
  · have := decode_fields behind hvalid hcod (by rw [hheader]; exact hl.fits) hmeans
    rwa [hheader] at this

/-- One block with equal tables. -/
theorem roundTrip_iff {l : HeaderList} {bufferSize : ℕ} (ht : Table t D) (hl : l.Holds l.all)
    (hhs : ∀ h ∈ l.all, Codable h)
    (hN : (blockBytes (packHeaders t l.all).1).length < bufferSize)
    (h256 : (blockBytes (packHeaders t l.all).1).length < 256) (t' : DynamicTable) :
    RoundTrip t l bufferSize t' ↔ t' = (packHeaders t l.all).2 ∧ FaithfulList t l.all := by
  obtain ⟨hiff, htable⟩ := means_packHeaders_iff ht hhs
  constructor
  · intro h
    obtain ⟨rc, out, heq, hdec⟩ := h .empty
    obtain ⟨-, hadded, -⟩ := hdec zeroBehind
    obtain ⟨out', heq', hbytes, hmeans, -⟩ :=
      decode_encode_iff zeroBehind t t hl hhs hN h256 .empty
    rw [heq'] at heq
    simp only [Option.some.injEq, Prod.mk.injEq, Nat.cast_inj] at heq
    obtain ⟨rfl, rfl, rfl⟩ := heq
    rw [hbytes] at hadded
    exact ⟨rfl, hiff.mp (hmeans hadded)⟩
  · rintro ⟨rfl, hfaith⟩ o
    obtain ⟨out, heq, hbytes⟩ := encode_writes t hl hhs o hN h256
    refine ⟨_, out, heq, fun behind => ?_⟩
    obtain ⟨-, -, -, -, hdec⟩ := decode_encode_iff behind t t hl hhs hN h256 o
    obtain ⟨hrc, htab, hadded⟩ := hdec (hiff.mpr hfaith)
    refine ⟨?_, ?_, ?_⟩
    · rw [hbytes, hrc]
      exact Int.natCast_nonneg _
    · rw [hbytes, hadded]
    · rw [hbytes, htab, htable (hiff.mpr hfaith)]

end Blocks

/-- **The codec round trip**: from a reachable table that both sides share, a sequence of blocks
comes back, with equal tables after each, if and only if every header is faithful when the encoder
reaches it. -/
theorem roundTrips_iff_faithful {t : DynamicTable} (ht : Reachable t)
    {blocks : List (HeaderList × ℕ)} (hb : Admissible t blocks) :
    RoundTrips t blocks ↔ FaithfulBlocks t blocks := by
  obtain ⟨D, htable⟩ := ht.table
  clear ht
  induction blocks generalizing t D with
  | nil => exact Iff.rfl
  | cons b blocks ih =>
    obtain ⟨l, bufferSize⟩ := b
    obtain ⟨hl, hhs, hN, h256, hrest⟩ := hb
    obtain ⟨D', ht'⟩ := htable.packHeaders hhs
    rw [RoundTrips, FaithfulBlocks]
    constructor
    · rintro ⟨t', h, hrec⟩
      obtain ⟨rfl, hfaith⟩ := (roundTrip_iff htable hl hhs hN h256 t').mp h
      exact ⟨hfaith, (ih hrest D' ht').mp hrec⟩
    · rintro ⟨hfaith, hrec⟩
      exact ⟨_, (roundTrip_iff htable hl hhs hN h256 _).mpr ⟨rfl, hfaith⟩, (ih hrest D' ht').mpr hrec⟩

/-- The table after `("x-ab", "v1")` was added to a fresh one. -/
def prefixTable : DynamicTable :=
  ((DynamicTable.init ⟨0, 0, 0, 0, 0, 0, fun _ => 0⟩ 4096).addEntry (ascii "x-ab") (ascii "v1")).1

/-- The list with the only header `("x-a", "w")`. -/
def prefixList : HeaderList := ⟨HeaderList.records [(ascii "x-a", ascii "w")], 1⟩

theorem reachable_prefixTable : Reachable prefixTable :=
  .addEntry (.init _ (by decide)) (by decide +kernel) (by decide +kernel) (by decide +kernel)

theorem prefixList_all : prefixList.all = [(ascii "x-a", ascii "w")] := by decide +kernel

theorem codable_x_a : Codable (ascii "x-a", ascii "w") :=
  ⟨by decide +kernel, by decide +kernel, by decide +kernel, by decide +kernel, by decide +kernel,
    by decide +kernel⟩

theorem admissible_prefixList : Admissible prefixTable [(prefixList, 128)] := by
  rw [Admissible, prefixList_all]
  refine ⟨⟨rfl, rfl, by decide⟩, ?_, by decide +kernel, by decide +kernel, trivial⟩
  intro h hh
  rw [List.mem_singleton.mp hh]
  exact codable_x_a

/-- A header whose name is a beginning of the name of an entry does not come back. -/
theorem roundTrips_prefixList_iff :
    RoundTrips prefixTable [(prefixList, 128)] ↔ FaithfulBlocks prefixTable [(prefixList, 128)] :=
  roundTrips_iff_faithful reachable_prefixTable admissible_prefixList

/-- The name `x-a` is taken for `x-ab`, and so comes back. -/
theorem not_roundTrips_of_prefix_name :
    ¬ ∀ (t : DynamicTable) (blocks : List (HeaderList × ℕ)), Reachable t → Admissible t blocks →
      RoundTrips t blocks := by
  intro h
  obtain ⟨t', hround, -⟩ :=
    h prefixTable [(prefixList, 128)] reachable_prefixTable admissible_prefixList
  obtain ⟨rc, out, heq, hdec⟩ := hround .empty
  obtain ⟨-, hadded, -⟩ := hdec zeroBehind
  have heval : (encode prefixTable prefixList .empty 128).map (fun r =>
      (decode zeroBehind prefixTable (r.2.2.bytes r.1.toNat) r.1.toNat .reset).added) =
        some [(ascii "x-ab", ascii "w")] := by decide +kernel
  rw [heq, Option.map_some, Int.toNat_natCast, hadded, prefixList_all] at heval
  exact absurd heval (by decide)

end Two.Hpack
