import Mathlib.Tactic.Common
import Mathlib.Algebra.Order.Ring.Int
import Two.Base.Bytes
import Two.Base.Conf

/-!
# The header list

`header_list.c`: name-value pairs packed one after the other in one buffer, each string followed by
a NUL. Only the first `size` bytes of the buffer are ever meaningful, so the list is the byte
string of these bytes together with the entry counter.

## Main definitions

* `HeaderList`: the packed list; `HeaderList.reset` is the empty one
* `HeaderList.index`, `HeaderList.get`: search by name
* `HeaderList.add`, `HeaderList.set`, `HeaderList.append`: updates, `none` when they return `-1`
* `HeaderList.all`: the entries in packed order
* `records`: the bytes of a list of pairs, packed

## Main results

* `all_records`: the entries of a packed list of non-empty pairs are these pairs
* `add_records`: adding a pair that fits beside the others packs the added or merged pairs
-/

namespace Two

/-- A header name with its value. -/
abbrev Header := Bytes × Bytes

/-- `header_list_t`: `buffer` holds the first `size` bytes. -/
structure HeaderList where
  buffer : Bytes
  count : ℤ
  deriving DecidableEq, Repr

namespace HeaderList

/-- The `size` field. -/
def size (l : HeaderList) : ℕ := l.buffer.length

/-- `header_list_reset`. -/
def reset : HeaderList := ⟨[], 0⟩

/-- The bytes after the value and the padding of the entry whose value starts at `m`: the two
skipping loops of `header_list_index`. -/
def skipValue (m : Bytes) : Bytes := (m.dropWhile (· != 0)).dropWhile (· == 0)

/-- The loop of `header_list_index` over the rest `m` of the buffer, which starts at `pos`. Every
round consumes a byte, so the size of the buffer bounds the rounds. -/
def indexLoop (name : Bytes) : ℕ → ℕ → Bytes → Option ℕ
  | 0, _, _ => none
  | fuel + 1, pos, m =>
    if m = [] then none
    else
      let key := cstr m
      -- as many characters are compared as the stored name has
      if strncasecmpEq name key then some pos
      else
        let m' := skipValue (m.drop (key.length + 1))
        indexLoop name fuel (pos + (m.length - m'.length)) m'

/-- `header_list_index`: the position of the first entry whose whole name is a prefix of `name`, up
to case. -/
def index (l : HeaderList) (name : Bytes) : Option ℕ := indexLoop name l.size 0 l.buffer

/-- `header_list_get`. -/
def get (l : HeaderList) (name : Bytes) : Option Bytes :=
  (l.index name).map fun pos =>
    let m := l.buffer.drop pos
    cstr (m.drop ((cstr m).length + 1))

/-- `header_list_splice`: `count` bytes are removed at `start`. -/
def splice (l : HeaderList) (start count : ℕ) : HeaderList :=
  { l with buffer := l.buffer.take start ++ l.buffer.drop (start + count) }

/-- The packed bytes of one pair. -/
def packed (h : Header) : Bytes := h.1 ++ 0 :: (h.2 ++ [0])

/-- `memcpy` and `memmove` to the offset `dst` of a region. -/
def copyTo (m : Bytes) (dst : ℕ) (data : Bytes) : Bytes :=
  m.take dst ++ data ++ m.drop (dst + data.length)

/-- The sum that `header_list_append` compares with the space left, an `unsigned int`. -/
def appendSize (name value : Bytes) : ℕ :=
  (unsignedLength name + 1 + unsignedLength value + 1) % 2 ^ 32

/-- What `header_list_append` writes from the end of the list on. -/
def appendBytes (name value : Bytes) : Bytes :=
  -- `ptr += nlen + 1`
  copyTo (counted name ++ [0]) ((unsignedLength name + 1) % 2 ^ 32) (counted value ++ [0])

/-- The pair that is written: the lengths of the strings are `unsigned int`. -/
def written (p : Header) : Header := (counted p.1, counted p.2)

/-- `header_list_append`. -/
def append (l : HeaderList) (name value : Bytes) : Option HeaderList :=
  if appendSize name value > headerListMaxSize - l.size then none
  else
    some ⟨(l.buffer ++ appendBytes name value).take (l.size + appendSize name value), l.count + 1⟩

/-- The length of the name and of the value of the entry at `start`. -/
def entryLengths (l : HeaderList) (start : ℕ) : ℕ × ℕ :=
  let m := l.buffer.drop start
  let nlen := (cstr m).length
  (nlen, (cstr (m.drop (nlen + 1))).length)

/-- `header_list_add`. -/
def add (l : HeaderList) (name value : Bytes) : Option HeaderList :=
  match l.index name with
  | none => l.append name value
  | some start =>
    let (nlen, vlen) := l.entryLengths start
    if 1 + value.length > headerListMaxSize - l.size then none
    else
      -- `name` is stored in place of the name that was found, and may be longer
      let old := (l.buffer.drop (start + nlen + 1)).take vlen
      let l' := l.splice start (nlen + 1 + vlen + 1)
      -- the values are joined by a comma, at the end of the list
      { l' with count := l'.count - 1 }.append name (old ++ 44 :: value)

/-- `header_list_set`. The space left is computed without the old value and compared unsigned. -/
def set (l : HeaderList) (name value : Bytes) : Option HeaderList :=
  match l.index name with
  | none => l.append name value
  | some start =>
    let (nlen, vlen) := l.entryLengths start
    let left : ℤ := (headerListMaxSize : ℤ) - l.size - vlen
    if 1 + (value.length : ℤ) + 1 > left % 2 ^ 32 then none
    else
      let l' := l.splice start (nlen + 1 + vlen + 1)
      { l' with count := l'.count - 1 }.append name value

/-- The loop of `header_list_all`, which stops early at an empty name. -/
def allLoop : ℕ → Bytes → List Header
  | 0, _ => []
  | fuel + 1, m =>
    if m = [] then []
    else
      let key := cstr m
      -- an empty name ends the list
      if key = [] then []
      else
        let v := m.drop (key.length + 1)
        (key, cstr v) :: allLoop fuel (skipValue v)

/-- `header_list_all`. -/
def all (l : HeaderList) : List Header := allLoop l.size l.buffer

/-- A list of pairs, packed. -/
def records (hs : List Header) : Bytes := hs.flatMap packed

/-- The packed size of a list of pairs. -/
def packedSize (hs : List Header) : ℕ := (records hs).length

/-- A pair the list can store: its name is not empty and neither string has a NUL. -/
structure Storable (h : Header) : Prop where
  name_ne_nil : h.1 ≠ []
  name_nulFree : NulFree h.1
  value_nulFree : NulFree h.2

/-- The list holds exactly the pairs `hs`, in this order. -/
structure Holds (l : HeaderList) (hs : List Header) : Prop where
  buffer : l.buffer = records hs
  count : l.count = hs.length
  fits : packedSize hs ≤ headerListMaxSize

@[simp] theorem records_nil : records [] = [] := rfl

@[simp] theorem records_cons (h : Header) (hs : List Header) :
    records (h :: hs) = packed h ++ records hs := rfl

@[simp] theorem records_append (hs ks : List Header) :
    records (hs ++ ks) = records hs ++ records ks := List.flatMap_append

@[simp] theorem length_packed (h : Header) : (packed h).length = h.1.length + h.2.length + 2 := by
  simp [packed]; omega

@[simp] theorem packedSize_nil : packedSize [] = 0 := rfl

@[simp] theorem packedSize_cons (h : Header) (hs : List Header) :
    packedSize (h :: hs) = h.1.length + h.2.length + 2 + packedSize hs := by simp [packedSize]

@[simp] theorem packedSize_append (hs ks : List Header) :
    packedSize (hs ++ ks) = packedSize hs + packedSize ks := by simp [packedSize]

@[simp] theorem packedSize_reverse (hs : List Header) : packedSize hs.reverse = packedSize hs := by
  induction hs with
  | nil => rfl
  | cons h hs ih =>
    rw [List.reverse_cons, packedSize_append, ih]
    simp
    omega

theorem two_mul_length_le_packedSize (hs : List Header) : 2 * hs.length ≤ packedSize hs := by
  induction hs with
  | nil => simp
  | cons h hs ih =>
    rw [packedSize_cons, List.length_cons]
    omega

/-! ## What an append writes -/

section Append

variable {p : Header}

theorem length_written (p : Header) :
    (written p).1.length = unsignedLength p.1 ∧ (written p).2.length = unsignedLength p.2 :=
  ⟨length_counted _, length_counted _⟩

/-- The sum of `header_list_append` is the size of the record, modulo `2 ^ 32`. -/
theorem appendSize_eq (p : Header) : appendSize p.1 p.2 = (packed (written p)).length % 2 ^ 32 := by
  obtain ⟨hname, hvalue⟩ := length_written p
  rw [appendSize, length_packed, hname, hvalue]
  omega

/-- Short strings are written as they are. -/
theorem written_of_lt (h : (packed p).length < 2 ^ 32) : written p = p := by
  rw [length_packed] at h
  rw [written, counted_of_lt (by omega), counted_of_lt (by omega)]

theorem copyTo_length (m data : Bytes) : copyTo m m.length data = m ++ data := by
  rw [copyTo, List.take_length, List.drop_of_length_le (by omega), List.append_nil]

theorem length_copyTo {m : Bytes} {dst : ℕ} (data : Bytes) (h : dst ≤ m.length) :
    (copyTo m dst data).length = max m.length (dst + data.length) := by
  simp only [copyTo, List.length_append, List.length_take, List.length_drop]
  omega

/-- The value is written behind the name, unless `nlen + 1` wraps around. -/
theorem appendBytes_eq (h : (written p).1.length + 1 < 2 ^ 32) :
    appendBytes p.1 p.2 = packed (written p) := by
  have hname := (length_written p).1
  have hend : unsignedLength p.1 + 1 = ((written p).1 ++ [0]).length := by
    rw [List.length_append, hname]
    rfl
  rw [appendBytes, Nat.mod_eq_of_lt (by omega), hend]
  exact (copyTo_length _ _).trans (by simp [packed, written])

/-- No fewer bytes are written than are counted, and at least as many as the record has if it has
less than `2 ^ 32`. -/
theorem le_length_appendBytes (p : Header) :
    min (packed (written p)).length (2 ^ 32) ≤ (appendBytes p.1 p.2).length := by
  obtain ⟨hname, hvalue⟩ := length_written p
  have hlt := unsignedLength_lt p.1
  rcases Nat.lt_or_ge ((written p).1.length + 1) (2 ^ 32) with h | h
  · rw [appendBytes_eq h]
    omega
  · -- the value is written over the name
    have hzero : (unsignedLength p.1 + 1) % 2 ^ 32 = 0 := by omega
    have hlen : (counted p.1 ++ [0]).length = 2 ^ 32 := by
      rw [List.length_append, length_counted, List.length_singleton]
      omega
    rw [appendBytes, hzero, length_copyTo _ (Nat.zero_le _), hlen]
    omega

theorem appendSize_le_length_appendBytes (p : Header) :
    appendSize p.1 p.2 ≤ (appendBytes p.1 p.2).length := by
  have hle := le_length_appendBytes p
  rw [appendSize_eq]
  omega

/-- Appending a pair whose record has less than `2 ^ 32` bytes. -/
theorem append_of_lt (l : HeaderList) (h : (packed p).length < 2 ^ 32) :
    l.append p.1 p.2 =
      if (packed p).length > headerListMaxSize - l.size then none
      else some ⟨l.buffer ++ packed p, l.count + 1⟩ := by
  have hwritten := written_of_lt h
  have hsize : appendSize p.1 p.2 = (packed p).length := by
    rw [appendSize_eq, hwritten, Nat.mod_eq_of_lt h]
  have hbytes : appendBytes p.1 p.2 = packed p := by
    rw [appendBytes_eq, hwritten]
    rw [hwritten]
    rw [length_packed] at h
    omega
  have hlen : l.size + (packed p).length = (l.buffer ++ packed p).length := by
    rw [List.length_append]
    rfl
  rw [append, hsize, hbytes, hlen, List.take_length]

end Append

/-! ## Walking over packed records -/

section Walk

variable {h : Header} {hs : List Header}

theorem cstr_packed (hh : Storable h) (m : Bytes) : cstr (packed h ++ m) = h.1 := by
  rw [packed, List.append_assoc, List.cons_append]
  exact cstr_append_zero hh.name_nulFree _

theorem drop_packed_name (h : Header) (m : Bytes) :
    (packed h ++ m).drop (h.1.length + 1) = h.2 ++ 0 :: m := by
  have he : packed h ++ m = (h.1 ++ [0]) ++ (h.2 ++ 0 :: m) := by simp [packed]
  rw [he]
  exact List.drop_left' (by simp)

theorem packed_ne_nil (h : Header) (m : Bytes) : packed h ++ m ≠ [] := by simp [packed]

/-- Packed records do not begin with a NUL. -/
theorem dropWhile_zero_records (hs : List Header) (hhs : ∀ h ∈ hs, Storable h) :
    (records hs).dropWhile (· == 0) = records hs := by
  cases hs with
  | nil => rfl
  | cons h hs =>
    have hh := hhs h List.mem_cons_self
    obtain ⟨b, n, hn⟩ := List.exists_cons_of_ne_nil hh.name_ne_nil
    have hb : b ≠ 0 := (nulFree_cons.mp (hn ▸ hh.name_nulFree)).1
    simp [packed, hn, hb]

theorem dropWhile_nulFree_append {s : Bytes} (hs : NulFree s) (m : Bytes) :
    (s ++ 0 :: m).dropWhile (· != 0) = 0 :: m := by
  induction s with
  | nil => simp
  | cons b s ih =>
    obtain ⟨hb, hs⟩ := nulFree_cons.mp hs
    simp [hb, ih hs]

/-- Skipping a value and its padding leads to the next record. -/
theorem skipValue_records (hh : Storable h) (hhs : ∀ h ∈ hs, Storable h) :
    skipValue (h.2 ++ 0 :: records hs) = records hs := by
  rw [skipValue, dropWhile_nulFree_append hh.value_nulFree]
  simp [dropWhile_zero_records hs hhs]

/-- One round of the search over packed records. -/
theorem indexLoop_records_cons (name : Bytes) (fuel pos : ℕ) (hh : Storable h)
    (hhs : ∀ h ∈ hs, Storable h) :
    indexLoop name (fuel + 1) pos (records (h :: hs)) =
      if strncasecmpEq name h.1 then some pos
      else indexLoop name fuel (pos + (packed h).length) (records hs) := by
  rw [indexLoop, records_cons, if_neg (packed_ne_nil h _)]
  simp only [cstr_packed hh, drop_packed_name, skipValue_records hh hhs, List.length_append,
    Nat.add_sub_cancel]

end Walk

/-- The search finds the first entry whose name is matched, at its byte position. -/
theorem indexLoop_records (name : Bytes) :
    ∀ (hs : List Header) (fuel pos : ℕ), (∀ h ∈ hs, Storable h) → (records hs).length ≤ fuel →
      indexLoop name fuel pos (records hs) =
        (hs.findIdx? fun h => strncasecmpEq name h.1).map fun j =>
          pos + (records (hs.take j)).length := by
  intro hs
  induction hs with
  | nil =>
    intro fuel pos _ _
    cases fuel <;> simp [indexLoop]
  | cons h hs ih =>
    intro fuel pos hhs hfuel
    have hlen : (records (h :: hs)).length = (packed h).length + (records hs).length := by simp
    have hpos : 0 < (packed h).length := by simp
    obtain ⟨fuel, rfl⟩ : ∃ f, fuel = f + 1 := ⟨fuel - 1, by omega⟩
    rw [indexLoop_records_cons name fuel pos (hhs h List.mem_cons_self)
      fun k hk => hhs k (List.mem_cons_of_mem _ hk), List.findIdx?_cons]
    by_cases hm : strncasecmpEq name h.1 = true
    · simp [hm]
    · rw [if_neg hm, if_neg hm, ih fuel _ (fun k hk => hhs k (List.mem_cons_of_mem _ hk)) (by omega)]
      cases hs.findIdx? (fun h => strncasecmpEq name h.1) <;> simp [Nat.add_assoc]

theorem index_records {l : HeaderList} {hs : List Header} (hl : l.buffer = records hs)
    (hhs : ∀ h ∈ hs, Storable h) (name : Bytes) :
    l.index name = (hs.findIdx? fun h => strncasecmpEq name h.1).map fun j =>
      (records (hs.take j)).length := by
  rw [index, size, hl, indexLoop_records name hs _ 0 hhs (Nat.le_refl _)]
  simp

/-- The entries of packed records are the records. -/
theorem allLoop_records :
    ∀ (hs : List Header) (fuel : ℕ), (∀ h ∈ hs, Storable h) → (records hs).length ≤ fuel →
      allLoop fuel (records hs) = hs := by
  intro hs
  induction hs with
  | nil => intro fuel _ _; cases fuel <;> simp [allLoop]
  | cons h hs ih =>
    intro fuel hhs hfuel
    have hh := hhs h List.mem_cons_self
    have hhs' : ∀ k ∈ hs, Storable k := fun k hk => hhs k (List.mem_cons_of_mem _ hk)
    have hlen : (records (h :: hs)).length = (packed h).length + (records hs).length := by simp
    have hpos : 0 < (packed h).length := by simp
    obtain ⟨fuel, rfl⟩ : ∃ f, fuel = f + 1 := ⟨fuel - 1, by omega⟩
    rw [allLoop, records_cons, if_neg (packed_ne_nil h _)]
    simp only [cstr_packed hh, drop_packed_name, if_neg hh.name_ne_nil,
      cstr_append_zero hh.value_nulFree, skipValue_records hh hhs', ih fuel hhs' (by omega)]

/-- **The entries of a list** that holds `hs` are `hs`. -/
theorem all_records {l : HeaderList} {hs : List Header} (hl : l.buffer = records hs)
    (hhs : ∀ h ∈ hs, Storable h) : l.all = hs := by
  rw [all, size, hl]
  exact allLoop_records hs _ hhs (Nat.le_refl _)

/-! ## Adding to packed records -/

/-- The pairs after `header_list_add`: appended, or merged with the first entry it matches. -/
def addTo (hs : List Header) (h : Header) : List Header :=
  match hs.findIdx? fun k => strncasecmpEq h.1 k.1 with
  | none => hs ++ [h]
  | some j => hs.take j ++ hs.drop (j + 1) ++ [(h.1, (hs.getD j ([], [])).2 ++ 44 :: h.2)]

/-- The pairs can be stored again. -/
theorem storable_addTo {es : List Header} {h : Header} (hes : ∀ e ∈ es, Storable e)
    (hh : Storable h) : ∀ e ∈ addTo es h, Storable e := by
  intro e he
  rw [addTo] at he
  cases hfind : es.findIdx? (fun k => strncasecmpEq h.1 k.1) with
  | none =>
    rw [hfind] at he
    rcases List.mem_append.mp he with he | he
    · exact hes e he
    · rwa [List.mem_singleton.mp he]
  | some j =>
    obtain ⟨hj, -⟩ := List.findIdx?_eq_some_iff_getElem.mp hfind
    have hget : es.getD j ([], []) = es[j] := by simp [List.getD_eq_getElem?_getD, hj]
    simp only [hfind, hget] at he
    rcases List.mem_append.mp he with he | he
    · rcases List.mem_append.mp he with he | he
      · exact hes e (List.mem_of_mem_take he)
      · exact hes e (List.mem_of_mem_drop he)
    · have hold := (hes _ (List.getElem_mem hj)).value_nulFree
      rw [List.mem_singleton.mp he]
      exact ⟨hh.name_ne_nil, hh.name_nulFree, by simp [hold, hh.value_nulFree]⟩

theorem records_split {hs : List Header} {j : ℕ} (hj : j < hs.length) :
    records hs = records (hs.take j) ++ (packed hs[j] ++ records (hs.drop (j + 1))) := by
  have he : hs = hs.take j ++ hs[j] :: hs.drop (j + 1) := by
    rw [← List.drop_eq_getElem_cons hj, List.take_append_drop]
  conv_lhs => rw [he]
  simp only [records_append, records_cons]

/-- The bytes `header_list_add` removes are exactly the record it found. -/
theorem entry_at_record {l : HeaderList} {hs : List Header} (hl : l.buffer = records hs)
    (hhs : ∀ h ∈ hs, Storable h) {j : ℕ} (hj : j < hs.length) :
    l.entryLengths (records (hs.take j)).length = (hs[j].1.length, hs[j].2.length) ∧
      (l.buffer.drop ((records (hs.take j)).length + hs[j].1.length + 1)).take hs[j].2.length
        = hs[j].2 ∧
      (l.splice (records (hs.take j)).length (hs[j].1.length + 1 + hs[j].2.length + 1)).buffer =
        records (hs.take j ++ hs.drop (j + 1)) := by
  have hh : Storable hs[j] := hhs _ (List.getElem_mem hj)
  have hbuf := hl.trans (records_split hj)
  -- the buffer from the entry on
  have hd : l.buffer.drop (records (hs.take j)).length =
      packed hs[j] ++ records (hs.drop (j + 1)) := by rw [hbuf]; exact List.drop_left' rfl
  have hv := drop_packed_name hs[j] (records (hs.drop (j + 1)))
  refine ⟨?_, ?_, ?_⟩
  · rw [entryLengths]
    simp only [hd, cstr_packed hh, hv, cstr_append_zero hh.value_nulFree]
  · rw [Nat.add_assoc, ← List.drop_drop, hd, hv]
    exact List.take_left' rfl
  -- the splice removes exactly the bytes of the entry
  · have ht : l.buffer.take (records (hs.take j)).length = records (hs.take j) := by
      rw [hbuf]; exact List.take_left' rfl
    have hlen : (packed hs[j]).length = hs[j].1.length + 1 + hs[j].2.length + 1 := by
      rw [length_packed]; omega
    have hr : l.buffer.drop ((records (hs.take j)).length +
        (hs[j].1.length + 1 + hs[j].2.length + 1)) = records (hs.drop (j + 1)) := by
      rw [← List.drop_drop, hd]
      exact List.drop_left' hlen
    simp only [splice, ht, hr, records_append]

/-- A name begins with the name that the search matches. -/
theorem length_le_of_strncasecmpEq {name key : Bytes} (h : strncasecmpEq name key = true) :
    key.length ≤ name.length := by
  have hlen := congrArg List.length (beq_iff_eq.mp h)
  simp only [List.length_map, List.length_take] at hlen
  omega

/-- The sizes around the entry that is taken out. -/
theorem packedSize_erase {hs : List Header} {j : ℕ} (hj : j < hs.length) :
    packedSize hs = packedSize (hs.take j ++ hs.drop (j + 1)) +
      (hs[j].1.length + hs[j].2.length + 2) := by
  rw [packedSize, records_split hj, packedSize, records_append]
  simp only [List.length_append, length_packed]
  omega

/-- A header whose name is not found is one pair more. -/
theorem packedSize_addTo_absent {hs : List Header} {h : Header}
    (hfind : hs.findIdx? (fun k => strncasecmpEq h.1 k.1) = none) :
    packedSize (addTo hs h) = packedSize hs + (packed h).length := by
  rw [addTo, hfind]
  simp [packedSize]

/-- A header that is merged makes the value longer, and perhaps the name. -/
theorem packedSize_addTo_found {hs : List Header} {h : Header} {j : ℕ}
    (hfind : hs.findIdx? (fun k => strncasecmpEq h.1 k.1) = some j) (hj : j < hs.length) :
    packedSize (addTo hs h) =
      packedSize hs + (h.1.length - hs[j].1.length) + 1 + h.2.length := by
  have hlen := length_le_of_strncasecmpEq (List.findIdx?_eq_some_iff_getElem.mp hfind).2.1
  have hget : hs.getD j ([], []) = hs[j] := by simp [List.getD_eq_getElem?_getD, hj]
  have herase := packedSize_erase hj
  rw [addTo, hfind]
  simp only [packedSize_append _ [_], packedSize_cons, packedSize_nil, hget, List.length_append,
    List.length_cons]
  omega

theorem packedSize_addTo_le (hs : List Header) {h : Header} (hh : h.1 ≠ []) :
    packedSize (addTo hs h) ≤ packedSize hs + (packed h).length := by
  have hpos := List.length_pos_of_ne_nil hh
  have hlen := length_packed h
  cases hfind : hs.findIdx? (fun k => strncasecmpEq h.1 k.1) with
  | none => exact (packedSize_addTo_absent hfind).le
  | some j =>
    obtain ⟨hj, -⟩ := List.findIdx?_eq_some_iff_getElem.mp hfind
    rw [packedSize_addTo_found hfind hj]
    omega

/-- **Adding to packed records** packs the added or merged pairs, if these fit. -/
theorem add_records {l : HeaderList} {hs : List Header} {h : Header} (hl : l.buffer = records hs)
    (hhs : ∀ k ∈ hs, Storable k) (hfit : packedSize (addTo hs h) ≤ headerListMaxSize) :
    ∃ l', l.add h.1 h.2 = some l' ∧ l'.buffer = records (addTo hs h) := by
  have hsize : l.size = packedSize hs := by rw [size, hl]; rfl
  have hmax : headerListMaxSize = 512 := rfl
  rw [add, index_records hl hhs]
  cases hj : hs.findIdx? (fun k => strncasecmpEq h.1 k.1) with
  | none =>
    rw [packedSize_addTo_absent hj] at hfit
    rw [addTo, hj]
    exact ⟨_, (append_of_lt l (by omega)).trans (if_neg (by rw [hsize]; omega)), by simp [hl]⟩
  | some j =>
    -- the value is merged with the first entry whose name is a prefix
    obtain ⟨hlt, hmatch, -⟩ := List.findIdx?_eq_some_iff_getElem.mp hj
    obtain ⟨hlens, hold, hspl⟩ := entry_at_record hl hhs hlt
    have hget : hs.getD j ([], []) = hs[j] := by simp [List.getD_eq_getElem?_getD, hlt]
    have hprefix := length_le_of_strncasecmpEq hmatch
    -- the entry that is taken out makes room for the one that is put in
    have herase := packedSize_erase hlt
    have hrest : (l.splice (records (hs.take j)).length
        (hs[j].1.length + 1 + hs[j].2.length + 1)).size =
          packedSize (hs.take j ++ hs.drop (j + 1)) := by rw [size, hspl]; rfl
    have hlen := length_packed (h.1, hs[j].2 ++ 44 :: h.2)
    simp only [List.length_append, List.length_cons] at hlen
    rw [packedSize_addTo_found hj hlt] at hfit
    simp only [addTo, hj, Option.map_some, hlens, hsize, hold, hget]
    rw [if_neg (by omega), append_of_lt (p := (h.1, hs[j].2 ++ 44 :: h.2)) _ (by omega), if_neg ?_]
    · refine ⟨_, rfl, ?_⟩
      simp only [records_append, records_cons, records_nil, hspl, List.append_nil]
    · rw [hlen]
      simp only [size] at hrest ⊢
      rw [hrest]
      omega

end HeaderList

end Two
