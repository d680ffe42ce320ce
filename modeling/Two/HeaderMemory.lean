import Two.HeaderMap

/-!
# The memory of a header list

`header_list_t` with all its fields: the buffer keeps its size, and behind the first `size` bytes it
holds whatever earlier entries left there. An update that finds an entry takes it out before it
knows whether the new one fits, so a call that returns `-1` may have changed the list. The lengths
that `header_list_append` adds up are `unsigned int`, so a pair of nearly `2 ^ 32` bytes passes its
space check and is written over the end of the buffer.

## Main definitions

* `HeaderMemory`: the buffer, the counter and the size; `HeaderMemory.list` is what is read of them
* `HeaderMemory.splice`, `HeaderMemory.append`, `HeaderMemory.add`, `HeaderMemory.set`: the updates,
  with the value they return and the memory they leave
* `HeaderMemory.run`: a sequence of calls, successful or not
* `Represents l hs`: the memory holds the records of `hs`
* `Placed hs p`, `InBounds hs c`: appending the pair `p`, or the call `c`, stays in the buffer
* `CapacityAtomic l c`: a call succeeds exactly where the result fits, and changes nothing otherwise
* `ChecksAgree hs c`: the space checks of a call agree with the size of the result

## Main results

* `call_eq`: a call on the memory is the call on the list, as long as it succeeds
* `representation_iff`: exactly when the memory is a sequence of records after every call
* `capacityAtomic_iff`: exactly when a call is atomic and uses the whole capacity
-/

namespace Two

open HeaderList

/-- `header_list_t`. -/
structure HeaderMemory where
  buffer : Bytes
  count : ℤ
  size : ℕ
  deriving DecidableEq, Repr

namespace HeaderMemory

/-- What the functions read of the memory. -/
def list (l : HeaderMemory) : HeaderList := ⟨l.buffer.take l.size, l.count⟩

/-- `header_list_reset`. -/
def reset : HeaderMemory := ⟨List.replicate headerListMaxSize 0, 0, 0⟩

/-- `header_list_splice`. The bytes behind the new size stay in the buffer. -/
def splice (l : HeaderMemory) (start count : ℕ) : HeaderMemory :=
  { l with
    buffer := copyTo l.buffer start
      ((l.buffer.drop (start + count)).take (l.size - start - count))
    size := l.size - count }

/-- The space that is left beside the list and `n` more bytes, as an unsigned number. -/
def left (l : HeaderMemory) (n : ℕ) : ℤ := ((headerListMaxSize : ℤ) - l.size - n) % 2 ^ 32

/-- `header_list_append`. -/
def append (l : HeaderMemory) (name value : Bytes) : ℤ × HeaderMemory :=
  if (appendSize name value : ℤ) > l.left 0 then (-1, l)
  else
    (0, { buffer := copyTo l.buffer l.size (appendBytes name value)
          count := l.count + 1
          size := l.size + appendSize name value })

/-- The end of `header_list_add` and `header_list_set`: the entry at `start` is taken out and the new
one appended. -/
def reinsert (l : HeaderMemory) (start count : ℕ) (name value : Bytes) : ℤ × HeaderMemory :=
  let l := l.splice start count
  { l with count := l.count - 1 }.append name value

/-- `header_list_add`. -/
def add (l : HeaderMemory) (name value : Bytes) : ℤ × HeaderMemory :=
  match l.list.index name with
  | none => l.append name value
  | some start =>
    let (nlen, vlen) := l.list.entryLengths start
    if 1 + (value.length : ℤ) > l.left 0 then (-1, l)
    else
      let v := (l.list.buffer.drop (start + nlen + 1)).take vlen
      l.reinsert start (nlen + 1 + vlen + 1) name (v ++ 44 :: value)

/-- `header_list_set`. The length of the old value is subtracted from the space that is left. -/
def set (l : HeaderMemory) (name value : Bytes) : ℤ × HeaderMemory :=
  match l.list.index name with
  | none => l.append name value
  | some start =>
    let (nlen, vlen) := l.list.entryLengths start
    if 1 + (value.length : ℤ) + 1 > l.left vlen then (-1, l)
    else l.reinsert start (nlen + 1 + vlen + 1) name value

/-- One call: the value it returns and the memory it leaves. -/
def call (l : HeaderMemory) : ListCall → ℤ × HeaderMemory
  | .reset => (0, reset)
  | .add name value => l.add name value
  | .set name value => l.set name value

/-- A sequence of calls on a list that was reset, whatever they return. -/
def run (cs : List ListCall) : HeaderMemory := cs.foldl (fun l c => (l.call c).2) reset

theorem run_snoc (cs : List ListCall) (c : ListCall) : run (cs ++ [c]) = ((run cs).call c).2 := by
  rw [run, List.foldl_append]
  rfl

/-- The memory holds the records of `hs`. -/
structure Represents (l : HeaderMemory) (hs : List Header) : Prop where
  memory : l.buffer.length = headerListMaxSize
  records : l.buffer.take l.size = records hs
  size : l.size = packedSize hs
  fits : packedSize hs ≤ headerListMaxSize
  count : l.count = hs.length
  storable : ∀ h ∈ hs, Storable h

theorem represents_reset : Represents reset [] where
  memory := List.length_replicate
  records := rfl
  size := rfl
  fits := Nat.zero_le _
  count := rfl
  storable := by simp

/-- What is copied to the end of a prefix extends it. -/
theorem take_copyTo {m data : Bytes} {dst : ℕ} (h : dst ≤ m.length) :
    (copyTo m dst data).take (dst + data.length) = m.take dst ++ data := by
  rw [copyTo]
  exact List.take_left' (by rw [List.length_append, List.length_take]; omega)

section Calls

variable {l : HeaderMemory} {hs : List Header} {c : ListCall} {p : Header} {name value : Bytes}
  {j : ℕ}

/-- The space left beside a list in its memory is not negative. -/
theorem Represents.left_zero (h : Represents l hs) :
    l.left 0 = ((headerListMaxSize - packedSize hs : ℕ) : ℤ) := by
  have hfits := h.fits
  have hmax : headerListMaxSize = 512 := rfl
  rw [left, h.size]
  omega

/-- Appending the pair `p` to the entries `hs` stays in the memory: the space check refuses it, or
what is written has a name and fits. -/
def Placed (hs : List Header) (p : Header) : Prop :=
  headerListMaxSize - packedSize hs < appendSize p.1 p.2 ∨
    (written p).1 ≠ [] ∧ packedSize (hs ++ [written p]) ≤ headerListMaxSize

instance (hs : List Header) (p : Header) : Decidable (Placed hs p) :=
  inferInstanceAs (Decidable (_ ∨ _))

theorem Represents.append_refused (h : Represents l hs)
    (hfull : headerListMaxSize - packedSize hs < appendSize p.1 p.2) :
    l.append p.1 p.2 = (-1, l) := by
  rw [HeaderMemory.append, h.left_zero, if_pos (by omega)]

theorem Represents.append_passed (h : Represents l hs)
    (hroom : appendSize p.1 p.2 ≤ headerListMaxSize - packedSize hs) :
    l.append p.1 p.2 =
      (0, { buffer := copyTo l.buffer l.size (appendBytes p.1 p.2)
            count := l.count + 1
            size := l.size + appendSize p.1 p.2 }) := by
  rw [HeaderMemory.append, h.left_zero, if_neg (by omega)]

/-- What is written of a pair of strings without NUL has none. -/
theorem nulFree_written (hp : Storable p) :
    NulFree (written p).1 ∧ NulFree (written p).2 :=
  ⟨fun hb => hp.name_nulFree (List.mem_of_mem_take hb),
    fun hb => hp.value_nulFree (List.mem_of_mem_take hb)⟩

/-- Appending a pair whose record fits. -/
theorem Represents.append_written (h : Represents l hs) (hp : Storable p)
    (hname : (written p).1 ≠ []) (hfit : packedSize (hs ++ [written p]) ≤ headerListMaxSize) :
    ∃ l', l.append p.1 p.2 = (0, l') ∧ Represents l' (hs ++ [written p]) := by
  have hmax : headerListMaxSize = 512 := rfl
  have hsum : packedSize (hs ++ [written p]) = packedSize hs + (packed (written p)).length := by
    simp [packedSize]
  have hsize : appendSize p.1 p.2 = (packed (written p)).length := by
    rw [appendSize_eq, Nat.mod_eq_of_lt (by omega)]
  have hbytes : appendBytes p.1 p.2 = packed (written p) := by
    refine appendBytes_eq ?_
    have hlen := length_packed (written p)
    omega
  refine ⟨_, h.append_passed (by omega), ?_⟩
  exact
    { memory := by
        dsimp only
        rw [length_copyTo _ (by rw [h.memory, h.size]; exact h.fits), hbytes, h.memory, h.size]
        omega
      records := by
        dsimp only
        rw [hsize, hbytes, take_copyTo (by rw [h.memory, h.size]; exact h.fits), h.records]
        simp
      size := by
        dsimp only
        rw [hsum, h.size, hsize]
      fits := hfit
      count := by
        dsimp only
        rw [h.count]
        simp
      storable := by
        intro k hk
        rcases List.mem_append.mp hk with hk | hk
        · exact h.storable k hk
        · rw [List.mem_singleton.mp hk]
          exact ⟨hname, (nulFree_written hp).1, (nulFree_written hp).2⟩ }

/-- Records that are followed by an empty name are not the records of any pairs. -/
theorem records_append_zero_ne {hs hs' : List Header} (hhs : ∀ h ∈ hs, Storable h)
    (hhs' : ∀ h ∈ hs', Storable h) (m : Bytes) :
    HeaderList.records hs ++ 0 :: m ≠ HeaderList.records hs' := by
  induction hs generalizing hs' with
  | nil =>
    cases hs' with
    | nil => simp
    | cons h' hs' =>
      have hh' := hhs' h' List.mem_cons_self
      obtain ⟨b, n, hn⟩ := List.exists_cons_of_ne_nil hh'.name_ne_nil
      have hb : b ≠ 0 := (nulFree_cons.mp (hn ▸ hh'.name_nulFree)).1
      simp [packed, hn, hb.symm]
  | cons h hs ih =>
    cases hs' with
    | nil => simp [packed]
    | cons h' hs' =>
      have hh := hhs h List.mem_cons_self
      have hh' := hhs' h' List.mem_cons_self
      rw [records_cons, records_cons, List.append_assoc]
      intro heq
      -- the two begin with the same name and the same value
      have hname : h.1 = h'.1 := by rw [← cstr_packed hh, heq, cstr_packed hh']
      have hrest := congrArg (List.drop (h.1.length + 1)) heq
      rw [drop_packed_name, hname, drop_packed_name] at hrest
      have hvalue : h.2 = h'.2 := by
        rw [← cstr_append_zero hh.value_nulFree, hrest, cstr_append_zero hh'.value_nulFree]
      rw [hvalue, List.append_cancel_left_eq, List.cons.injEq] at hrest
      exact ih (fun k hk => hhs k (List.mem_cons_of_mem _ hk))
        (fun k hk => hhs' k (List.mem_cons_of_mem _ hk)) hrest.2

/-- **Appending** leaves records exactly where it stays in the memory. -/
theorem Represents.append_iff (h : Represents l hs) (hp : Storable p) :
    (∃ hs', Represents (l.append p.1 p.2).2 hs') ↔ Placed hs p := by
  have hfits := h.fits
  have hmax : headerListMaxSize = 512 := rfl
  have hend : l.size ≤ l.buffer.length := by
    rw [h.memory, h.size]
    exact hfits
  constructor
  · rintro ⟨hs', h'⟩
    rcases Nat.lt_or_ge (headerListMaxSize - packedSize hs) (appendSize p.1 p.2) with hfull | hroom
    · exact .inl hfull
    rw [h.append_passed hroom] at h'
    -- what was written ends in the buffer
    have hmemory := h'.memory
    dsimp only at hmemory
    rw [length_copyTo _ hend, h.memory, h.size] at hmemory
    have hle := le_length_appendBytes p
    have hlt : (packed (written p)).length < 2 ^ 32 := by omega
    have hsum : packedSize (hs ++ [written p]) = packedSize hs + (packed (written p)).length := by
      simp [packedSize]
    refine .inr ⟨fun hname => ?_, by omega⟩
    -- a record without a name is no record
    have hlen := length_packed (written p)
    have hbytes : appendBytes p.1 p.2 = packed (written p) := appendBytes_eq (by omega)
    have hrecords := h'.records
    dsimp only at hrecords
    rw [appendSize_eq, Nat.mod_eq_of_lt hlt, hbytes, take_copyTo hend, h.records, packed, hname,
      List.nil_append] at hrecords
    exact records_append_zero_ne h.storable h'.storable _ hrecords
  · rintro (hfull | ⟨hname, hfit⟩)
    · exact ⟨hs, by rwa [h.append_refused hfull]⟩
    · obtain ⟨l', heq, hrep⟩ := h.append_written hp hname hfit
      exact ⟨_, by rwa [heq]⟩

/-- Appending a pair that fits beside the others puts it behind them. -/
theorem Represents.append (h : Represents l hs) (hp : Storable p)
    (hfit : packedSize (hs ++ [p]) ≤ headerListMaxSize) :
    ∃ l', l.append p.1 p.2 = (0, l') ∧ Represents l' (hs ++ [p]) := by
  have hmax : headerListMaxSize = 512 := rfl
  have hwritten : written p = p := by
    refine written_of_lt ?_
    rw [packedSize_append, packedSize_cons, packedSize_nil] at hfit
    rw [length_packed]
    omega
  have happ := h.append_written hp (by rw [hwritten]; exact hp.name_ne_nil) (by rwa [hwritten])
  rwa [hwritten] at happ

/-- Where the record of an entry stands in the memory. -/
theorem Represents.entry (h : Represents l hs) (hj : j < hs.length) :
    l.list.entryLengths (HeaderList.records (hs.take j)).length =
        (hs[j].1.length, hs[j].2.length) ∧
      (l.list.buffer.drop ((HeaderList.records (hs.take j)).length + hs[j].1.length + 1)).take
        hs[j].2.length = hs[j].2 := by
  obtain ⟨hlens, hold, -⟩ := entry_at_record (l := l.list) h.records h.storable hj
  exact ⟨hlens, hold⟩

/-- Taking out an entry leaves the records of the others. -/
theorem Represents.splice (h : Represents l hs) (hj : j < hs.length) :
    Represents { l.splice (HeaderList.records (hs.take j)).length
      (hs[j].1.length + 1 + hs[j].2.length + 1) with count := l.count - 1 }
      (hs.take j ++ hs.drop (j + 1)) := by
  have hfits := h.fits
  have herase := packedSize_erase hj
  have hsplit : packedSize (hs.take j ++ hs.drop (j + 1)) =
      (HeaderList.records (hs.take j)).length + packedSize (hs.drop (j + 1)) := by
    rw [packedSize_append]
    rfl
  set start := (HeaderList.records (hs.take j)).length with hstart
  set n := hs[j].1.length + 1 + hs[j].2.length + 1 with hn
  -- the bytes that are moved are the records behind the entry
  have hmoved : (l.buffer.drop (start + n)).take (l.size - start - n) =
      HeaderList.records (hs.drop (j + 1)) := by
    have hused : (l.buffer.drop (start + n)).take (l.size - start - n) =
        (l.buffer.take l.size).drop (start + n) := by
      rw [List.drop_take, Nat.sub_sub]
    have hpacked : (packed hs[j]).length = n := by rw [length_packed]; omega
    rw [hused, h.records, records_split hj, ← List.append_assoc]
    exact List.drop_left' (by rw [List.length_append, hpacked])
  have hkept : l.buffer.take start = HeaderList.records (hs.take j) := by
    have hle : start ≤ l.size := by rw [h.size]; omega
    have htake : l.buffer.take start = (l.buffer.take l.size).take start := by
      rw [List.take_take, min_eq_left hle]
    rw [htake, h.records, records_split hj]
    exact List.take_left' rfl
  have hlen : (HeaderList.records (hs.drop (j + 1))).length = packedSize (hs.drop (j + 1)) := rfl
  have hsize : l.size - n = start + packedSize (hs.drop (j + 1)) := by
    rw [h.size]
    omega
  refine
    { memory := ?_
      records := ?_
      size := by
        dsimp only [HeaderMemory.splice]
        rw [hsize, hsplit]
      fits := by omega
      count := ?_
      storable := ?_ }
  · dsimp only [HeaderMemory.splice]
    rw [hmoved, length_copyTo _ (by rw [h.memory]; omega), h.memory]
    omega
  · dsimp only [HeaderMemory.splice]
    rw [hmoved, hsize, ← hlen, take_copyTo (by rw [h.memory]; omega), hkept, records_append]
  · dsimp only
    rw [h.count, List.length_append, List.length_take, List.length_drop]
    omega
  · intro k hk
    rcases List.mem_append.mp hk with hk | hk
    · exact h.storable k (List.mem_of_mem_take hk)
    · exact h.storable k (List.mem_of_mem_drop hk)

/-! ### What a call does -/

/-- The pairs after `header_list_set`: appended, or in place of the first entry it matches. -/
def setTo (hs : List Header) (h : Header) : List Header :=
  match hs.findIdx? fun k => strncasecmpEq h.1 k.1 with
  | none => hs ++ [h]
  | some j => hs.take j ++ hs.drop (j + 1) ++ [h]

/-- The list that results from a call. -/
def updated (hs : List Header) : ListCall → List Header
  | .reset => []
  | .add name value => addTo hs (name, value)
  | .set name value => setTo hs (name, value)

/-- The space check of a call that has found the entry `e`. -/
def Passes (hs : List Header) (e : Header) : ListCall → Prop
  | .reset => True
  | .add _ value => packedSize hs + 1 + value.length ≤ headerListMaxSize
  | .set _ value =>
    1 + (value.length : ℤ) + 1 ≤ ((headerListMaxSize : ℤ) - packedSize hs - e.2.length) % 2 ^ 32

/-- The space check that comes first in a call passes: no entry is found, or the check of the call
that has found it passes. -/
def Passing (hs : List Header) (c : ListCall) : Prop :=
  ∀ name, c.name? = some name →
    ∀ e, hs.find? (fun h => strncasecmpEq name h.1) = some e → Passes hs e c

/-- A call stays in the memory: where its space check passes, the pair that it appends to the
remaining entries is placed. -/
def InBounds (hs : List Header) (c : ListCall) : Prop :=
  Passing hs c → ∀ rest p, updated hs c = rest ++ [p] → Placed rest p

/-- A call for a name that is not found appends. -/
theorem Represents.call_absent (h : Represents l hs) (hc : c.Valid) (hname : c.name? = some name)
    (hfind : hs.findIdx? (fun k => strncasecmpEq name k.1) = none) :
    ∃ value, Storable (name, value) ∧ updated hs c = hs ++ [(name, value)] ∧
      l.call c = l.append name value := by
  have hindex : l.list.index name = none := by
    rw [index_records (l := l.list) h.records h.storable, hfind]
    rfl
  cases c with
  | reset => simp [ListCall.name?] at hname
  | add name' value =>
    obtain rfl : name' = name := Option.some.inj hname
    simp only [call, HeaderMemory.add, hindex, updated, addTo, hfind]
    exact ⟨value, hc, rfl, rfl⟩
  | set name' value =>
    obtain rfl : name' = name := Option.some.inj hname
    simp only [call, HeaderMemory.set, hindex, updated, setTo, hfind]
    exact ⟨value, hc, rfl, rfl⟩

/-- A call that finds the entry `j` changes nothing if its space check fails, and otherwise takes the
entry out and appends a pair to the others. -/
theorem Represents.call_found (h : Represents l hs) (hc : c.Valid) (hname : c.name? = some name)
    (hfind : hs.findIdx? (fun k => strncasecmpEq name k.1) = some j) (hj : j < hs.length) :
    (¬ Passes hs hs[j] c → l.call c = (-1, l)) ∧
    (Passes hs hs[j] c → ∃ l₀ value, Storable (name, value) ∧
      Represents l₀ (hs.take j ++ hs.drop (j + 1)) ∧
      updated hs c = hs.take j ++ hs.drop (j + 1) ++ [(name, value)] ∧
      l.call c = l₀.append name value) := by
  have hindex : l.list.index name = some (HeaderList.records (hs.take j)).length := by
    rw [index_records (l := l.list) h.records h.storable, hfind]
    rfl
  obtain ⟨hlens, hold⟩ := h.entry hj
  have hfits := h.fits
  have hstored : Storable hs[j] := h.storable _ (List.getElem_mem hj)
  have hrest := h.splice hj
  cases c with
  | reset => simp [ListCall.name?] at hname
  | add name' value =>
    obtain rfl : name' = name := Option.some.inj hname
    have hget : hs.getD j ([], []) = hs[j] := by simp [List.getD_eq_getElem?_getD, hj]
    -- the old value and the new one are joined before the pair is appended again
    have hp : Storable (name', hs[j].2 ++ 44 :: value) :=
      ⟨hc.name_ne_nil, hc.name_nulFree, by simp [hstored.value_nulFree, show NulFree value from hc.3]⟩
    simp only [call, HeaderMemory.add, hindex, hlens, hold, h.left_zero, updated, addTo, hfind, hget,
      Passes]
    refine ⟨fun hpass => if_pos (by omega), fun hpass => ?_⟩
    rw [if_neg (by omega)]
    exact ⟨_, _, hp, hrest, rfl, rfl⟩
  | set name' value =>
    obtain rfl : name' = name := Option.some.inj hname
    have hleft : l.left hs[j].2.length =
        ((headerListMaxSize : ℤ) - packedSize hs - hs[j].2.length) % 2 ^ 32 := by
      rw [left, h.size]
    simp only [call, HeaderMemory.set, hindex, hlens, hleft, updated, setTo, hfind, Passes]
    refine ⟨fun hpass => if_pos (not_le.mp hpass), fun hpass => ?_⟩
    rw [if_neg (not_lt.mpr hpass)]
    exact ⟨_, _, hc, hrest, rfl, rfl⟩

/-- The check of the entry that is found is the one that comes first. -/
theorem passing_iff (hname : c.name? = some name)
    (hfind : hs.findIdx? (fun k => strncasecmpEq name k.1) = some j) (hj : j < hs.length) :
    Passing hs c ↔ Passes hs hs[j] c := by
  have hfirst := find?_of_findIdx? hfind hj
  constructor
  · exact fun hpass => hpass name hname _ hfirst
  · intro hpass n hn e he
    obtain rfl : name = n := Option.some.inj (hname.symm.trans hn)
    obtain rfl : hs[j] = e := Option.some.inj (hfirst.symm.trans he)
    exact hpass

/-- **A call** leaves the memory of a sequence of records exactly where it stays in the memory. -/
theorem Represents.call_iff (h : Represents l hs) (hc : c.Valid) :
    (∃ hs', Represents (l.call c).2 hs') ↔ InBounds hs c := by
  cases hname : c.name? with
  | none =>
    cases c with
    | reset => exact iff_of_true ⟨[], represents_reset⟩ fun _ rest p hrest => by simp [updated] at hrest
    | add | set => simp [ListCall.name?] at hname
  | some name =>
    have hplaced : ∀ {l₀ rest value}, Storable (name, value) → Represents l₀ rest →
        updated hs c = rest ++ [(name, value)] → l.call c = l₀.append name value →
        ((∃ hs', Represents (l.call c).2 hs') ↔
          ∀ rest p, updated hs c = rest ++ [p] → Placed rest p) := by
      intro l₀ rest value hp hl₀ hupdated hcall
      rw [hcall, hl₀.append_iff hp, hupdated]
      refine ⟨fun hplace rest' p heq => ?_, fun hplace => hplace _ _ rfl⟩
      obtain ⟨rfl, hlast⟩ := List.append_inj' heq rfl
      rwa [← List.singleton_inj.mp hlast]
    cases hfind : hs.findIdx? (fun k => strncasecmpEq name k.1) with
    | none =>
      obtain ⟨value, hp, hupdated, hcall⟩ := h.call_absent hc hname hfind
      rw [hplaced hp h hupdated hcall, InBounds, forall_prop_of_true]
      intro n hn e he
      obtain rfl : name = n := Option.some.inj (hname.symm.trans hn)
      rw [List.find?_eq_bind_findIdx?_getElem?, hfind] at he
      cases he
    | some j =>
      obtain ⟨hj, -⟩ := List.findIdx?_eq_some_iff_getElem.mp hfind
      -- a call on an entry that exists is refused, or takes the entry out and appends
      obtain ⟨hrefused, hpassed⟩ := h.call_found hc hname hfind hj
      rw [InBounds, passing_iff hname hfind hj]
      by_cases hpass : Passes hs hs[j] c
      · obtain ⟨l₀, value, hp, hl₀, hupdated, hcall⟩ := hpassed hpass
        rw [hplaced hp hl₀ hupdated hcall, forall_prop_of_true hpass]
      · exact iff_of_true ⟨hs, by rwa [hrefused hpass]⟩ fun hpass' => absurd hpass' hpass

/-! ### Every sequence of calls -/

/-- The memory is the representation of a header list: the size is at most that of the buffer, the
first `size` bytes are the records of `count` pairs, and `header_list_all` lists exactly these. -/
structure Represented (l : HeaderMemory) : Prop where
  memory : l.buffer.length = headerListMaxSize
  size : l.size ≤ headerListMaxSize
  records : ∃ hs, l.buffer.take l.size = HeaderList.records hs ∧ l.count = hs.length ∧
    l.list.all = hs ∧ ∀ h ∈ hs, Storable h

theorem Represents.all (h : Represents l hs) : l.list.all = hs := all_records h.records h.storable

theorem represented_iff : Represented l ↔ ∃ hs, Represents l hs := by
  constructor
  · intro h
    obtain ⟨hs, hrecords, hcount, -, hstorable⟩ := h.records
    have hsize : l.size = packedSize hs := by
      rw [packedSize, ← hrecords, List.length_take, h.memory, min_eq_left h.size]
    exact ⟨hs, h.memory, hrecords, hsize, hsize ▸ h.size, hcount, hstorable⟩
  · rintro ⟨hs, h⟩
    exact ⟨h.memory, h.size ▸ h.fits, hs, h.records, h.count, h.all, h.storable⟩

/-- The calls of a sequence all stay in the memory that the calls before them left. -/
def Contained (cs : List ListCall) : Prop :=
  ∀ ds c, ds ++ [c] <+: cs → InBounds (run ds).list.all c

theorem contained_nil : Contained [] := by
  intro ds c hds
  simp at hds

theorem contained_snoc {cs : List ListCall} :
    Contained (cs ++ [c]) ↔ Contained cs ∧ InBounds (run cs).list.all c := by
  constructor
  · exact fun h => ⟨fun ds d hds => h ds d (hds.trans (List.prefix_append _ _)),
      h cs c List.prefix_rfl⟩
  · rintro ⟨hcs, hlast⟩ ds d hds
    rcases List.prefix_concat_iff.mp hds with heq | hds
    · obtain ⟨rfl, hd⟩ := List.append_inj' heq rfl
      rwa [List.singleton_inj.mp hd]
    · exact hcs ds d hds

/-- A call stays in the memory if the pair at the end of the list that results is placed. -/
theorem inBounds_of_placed {rest : List Header} (hupdated : updated hs c = rest ++ [p])
    (hplaced : Placed rest p) : InBounds hs c := by
  intro _ rest' p' heq
  obtain ⟨rfl, hlast⟩ := List.append_inj' (hupdated.symm.trans heq) rfl
  rwa [← List.singleton_inj.mp hlast]

/-- **After every sequence of calls** that stay in the memory it holds the records of some pairs. -/
theorem run_represents {cs : List ListCall} (hvalid : ∀ c ∈ cs, c.Valid) (hcs : Contained cs) :
    ∃ hs, Represents (run cs) hs := by
  induction cs using List.reverseRecOn with
  | nil => exact ⟨[], represents_reset⟩
  | append_singleton cs c ih =>
    obtain ⟨hcs, hlast⟩ := contained_snoc.mp hcs
    obtain ⟨hs, h⟩ := ih (fun d hd => hvalid d (List.mem_append_left _ hd)) hcs
    rw [h.all] at hlast
    rw [run_snoc]
    exact (h.call_iff (hvalid c (by simp))).mpr hlast

/-- **The representation of a header list.** For every sequence of calls, successful or not, with
names that are not empty and strings without NUL: the memory is the representation of a header list
after each of them if and only if each stays in the memory, where a call that passes its space
checks because the sum of the lengths wraps around does not. -/
theorem representation_iff {cs : List ListCall} (hvalid : ∀ c ∈ cs, c.Valid) :
    (∀ ds, ds <+: cs → Represented (run ds)) ↔ Contained cs := by
  constructor
  · intro hall ds c hds
    have hc : c.Valid := hvalid c (hds.subset (by simp))
    obtain ⟨hs, h⟩ := represented_iff.mp (hall ds ((List.prefix_append _ _).trans hds))
    have hlast := represented_iff.mp (hall _ hds)
    rw [run_snoc] at hlast
    rw [h.all]
    exact (h.call_iff hc).mp hlast
  · intro hcs ds hds
    exact represented_iff.mpr (run_represents (fun d hd => hvalid d (hds.subset hd))
      fun es c hes => hcs es c (hes.trans hds))

/-! ### The calls on the list -/

/-- Appending to the memory is appending to the list, as long as it succeeds. -/
theorem Represents.append_eq (h : Represents l hs) (name value : Bytes) :
    l.list.append name value =
      if (l.append name value).1 = 0 then some (l.append name value).2.list else none := by
  have hsize : l.list.size = packedSize hs := size_records h.records
  -- both sides make the same comparison, the list on the records it stores
  rcases Nat.lt_or_ge (headerListMaxSize - packedSize hs) (appendSize name value) with hfull | hroom
  · rw [h.append_refused (p := (name, value)) hfull, HeaderList.append, hsize, if_pos hfull]
    rfl
  · rw [h.append_passed (p := (name, value)) hroom, HeaderList.append, hsize,
      if_neg (not_lt.mpr hroom)]
    have hend : l.size ≤ l.buffer.length := by
      rw [h.memory, h.size]
      exact h.fits
    have hle : appendSize name value ≤ (appendBytes name value).length :=
      appendSize_le_length_appendBytes (name, value)
    -- only the bytes that are counted are read
    have htake : (copyTo l.buffer l.size (appendBytes name value)).take
        (l.size + appendSize name value) =
          (l.buffer.take l.size ++ appendBytes name value).take (l.size + appendSize name value) := by
      rw [← take_copyTo hend, List.take_take, min_eq_left (by omega)]
    simp only [list, htake, ← h.size, if_true]

/-- What is read of the memory after an entry was taken out. -/
theorem Represents.splice_list (h : Represents l hs) (hj : j < hs.length) :
    ({ l.splice (HeaderList.records (hs.take j)).length
        (hs[j].1.length + 1 + hs[j].2.length + 1) with count := l.count - 1 } : HeaderMemory).list =
      { l.list.splice (HeaderList.records (hs.take j)).length
        (hs[j].1.length + 1 + hs[j].2.length + 1) with count := l.count - 1 } := by
  obtain ⟨-, -, hspl⟩ := entry_at_record (l := l.list) h.records h.storable hj
  simp only [list, HeaderList.mk.injEq, and_true] at hspl ⊢
  exact (h.splice hj).records.trans hspl.symm

/-- **A call on the memory** is the call on the list, as long as it succeeds. -/
theorem Represents.call_eq (h : Represents l hs) (c : ListCall) :
    l.list.call c = if (l.call c).1 = 0 then some (l.call c).2.list else none := by
  have hfits := h.fits
  have hsize : l.list.size = packedSize hs := size_records h.records
  have hindex := fun name => index_records (l := l.list) h.records h.storable name
  cases c with
  | reset => rfl
  | add name value =>
    rw [HeaderList.call, HeaderMemory.call, HeaderList.add, HeaderMemory.add, hindex]
    cases hfind : hs.findIdx? (fun k => strncasecmpEq name k.1) with
    | none => exact h.append_eq name value
    | some j =>
      obtain ⟨hj, -⟩ := List.findIdx?_eq_some_iff_getElem.mp hfind
      obtain ⟨hlens, hold⟩ := h.entry hj
      -- the list compares natural numbers where the memory compares signed ones
      have hcheck : 1 + value.length > headerListMaxSize - packedSize hs ↔
          1 + (value.length : ℤ) > ((headerListMaxSize - packedSize hs : ℕ) : ℤ) := by omega
      simp only [Option.map_some, hlens, hold, h.left_zero, hsize, hcheck]
      split
      · rfl
      · rw [HeaderMemory.reinsert]
        refine Eq.trans ?_ ((h.splice hj).append_eq name _)
        rw [h.splice_list hj]
        rfl
  | set name value =>
    rw [HeaderList.call, HeaderMemory.call, HeaderList.set, HeaderMemory.set, hindex]
    cases hfind : hs.findIdx? (fun k => strncasecmpEq name k.1) with
    | none => exact h.append_eq name value
    | some j =>
      obtain ⟨hj, -⟩ := List.findIdx?_eq_some_iff_getElem.mp hfind
      obtain ⟨hlens, -⟩ := h.entry hj
      simp only [Option.map_some, hlens, left, hsize, h.size]
      split
      · rfl
      · rw [HeaderMemory.reinsert]
        refine Eq.trans ?_ ((h.splice hj).append_eq name _)
        rw [h.splice_list hj]
        rfl

/-! ### Capacity and atomicity -/

/-- A call succeeds exactly where the resulting list fits, and a call that fails changes nothing. -/
structure CapacityAtomic (l : HeaderMemory) (c : ListCall) : Prop where
  capacity : (l.call c).1 = 0 ↔ packedSize (updated l.list.all c) ≤ headerListMaxSize
  atomic : (l.call c).1 = -1 → (l.call c).2.list.all = l.list.all ∧
    (l.call c).2.count = l.count ∧ (l.call c).2.size = l.size

/-- The space check of an append agrees with the size of the resulting list: the pair fits, or the
sum of its lengths exceeds the space left even modulo `2 ^ 32`. -/
def AppendAgrees (hs : List Header) (p : Header) : Prop :=
  packedSize (hs ++ [p]) ≤ headerListMaxSize ∨
    headerListMaxSize - packedSize hs < (p.1.length + p.2.length + 2) % 2 ^ 32

/-- The space checks of a call agree with the size of the resulting list. Where no entry is found,
the check of the append does. For `header_list_add` and an entry that is found, the name found is as
long as the new one, or the value does not fit anyway, or the longer name fits too. For
`header_list_set` the two values fit beside the list exactly where the result fits; where the list
and the old value exceed the memory and the subtraction wraps around, the result fits, or the new
value has nearly 2 ^ 32 bytes. -/
def ChecksAgree (hs : List Header) : ListCall → Prop
  | .reset => True
  | .add name value =>
    (hs.find? (fun h => strncasecmpEq name h.1) = none → AppendAgrees hs (name, value)) ∧
    ∀ e, hs.find? (fun h => strncasecmpEq name h.1) = some e →
      headerListMaxSize < packedSize hs + 1 + value.length ∨
        packedSize hs + (name.length - e.1.length) + 1 + value.length ≤ headerListMaxSize
  | .set name value =>
    (hs.find? (fun h => strncasecmpEq name h.1) = none → AppendAgrees hs (name, value)) ∧
    ∀ e, hs.find? (fun h => strncasecmpEq name h.1) = some e →
      if packedSize hs + e.2.length ≤ headerListMaxSize then
        (packedSize hs + e.2.length + value.length + 2 ≤ headerListMaxSize ↔
          packedSize hs + (name.length - e.1.length) + value.length ≤
            headerListMaxSize + e.2.length)
      else
        packedSize hs + (name.length - e.1.length) + value.length ≤ headerListMaxSize + e.2.length ∨
          2 ^ 32 + headerListMaxSize < packedSize hs + e.2.length + value.length + 2

theorem appendAgrees_iff : AppendAgrees hs p ↔
    packedSize (hs ++ [p]) ≤ headerListMaxSize ∨
      headerListMaxSize - packedSize hs < appendSize p.1 p.2 := by
  have hsize : appendSize p.1 p.2 = (p.1.length + p.2.length + 2) % 2 ^ 32 := by
    rw [appendSize, unsignedLength, unsignedLength]
    omega
  rw [AppendAgrees, hsize]

theorem capacityAtomic_of_absent (h : Represents l hs) (hp : Storable p)
    (hupdated : updated hs c = hs ++ [p]) (hcall : l.call c = l.append p.1 p.2) :
    CapacityAtomic l c ↔ AppendAgrees hs p := by
  rw [appendAgrees_iff]
  rcases le_or_gt (packedSize (hs ++ [p])) headerListMaxSize with hsize | hsize
  · obtain ⟨l', heq, -⟩ := h.append hp hsize
    refine iff_of_true ⟨?_, fun hrc => by simp [hcall, heq] at hrc⟩ (.inl hsize)
    rw [hcall, heq, h.all, hupdated]
    exact iff_of_true rfl hsize
  · rcases Nat.lt_or_ge (headerListMaxSize - packedSize hs) (appendSize p.1 p.2) with hfull | hroom
    · have heq := hcall.trans (h.append_refused hfull)
      refine iff_of_true ⟨?_, fun _ => by rw [heq]; exact ⟨rfl, rfl, rfl⟩⟩ (.inr hfull)
      rw [heq, h.all, hupdated]
      exact iff_of_false (by simp) (not_le.mpr hsize)
    · -- the sum of the lengths has wrapped around
      refine iff_of_false (fun hatomic => ?_) (by omega)
      have hfit := hatomic.capacity.mp (by rw [hcall, h.append_passed hroom])
      rw [h.all, hupdated] at hfit
      exact absurd hfit (not_le.mpr hsize)

/-- A call that has found an entry is atomic and uses the whole capacity exactly where its space
check says whether the result fits. -/
theorem capacityAtomic_of_found (h : Represents l hs) (hc : c.Valid) (hname : c.name? = some name)
    (hfind : hs.findIdx? (fun k => strncasecmpEq name k.1) = some j) (hj : j < hs.length) :
    CapacityAtomic l c ↔
      (Passes hs hs[j] c ↔ packedSize (updated hs c) ≤ headerListMaxSize) := by
  obtain ⟨hrefused, hpassed⟩ := h.call_found hc hname hfind hj
  by_cases hpass : Passes hs hs[j] c
  · obtain ⟨l₀, value, hp, hl₀, hupdated, hcall⟩ := hpassed hpass
    rcases le_or_gt (packedSize (updated hs c)) headerListMaxSize with hsize | hsize
    · obtain ⟨l', heq, -⟩ := hl₀.append hp (hupdated ▸ hsize)
      refine iff_of_true ⟨?_, fun hrc => by simp [hcall, heq] at hrc⟩ (iff_of_true hpass hsize)
      rw [hcall, heq, h.all]
      exact iff_of_true rfl hsize
    · refine iff_of_false (fun hatomic => ?_) fun hagree => absurd (hagree.mp hpass) (not_le.mpr hsize)
      rcases Nat.lt_or_ge (headerListMaxSize - packedSize (hs.take j ++ hs.drop (j + 1)))
        (appendSize name value) with hfull | hroom
      · -- the entry that was found is lost
        have heq := hcall.trans (hl₀.append_refused (p := (name, value)) hfull)
        have hcount := (hatomic.atomic (by rw [heq])).2.1
        rw [heq, hl₀.count, h.count, List.length_append, List.length_take,
          List.length_drop] at hcount
        omega
      · have heq := hcall.trans (hl₀.append_passed (p := (name, value)) hroom)
        have hfit := hatomic.capacity.mp (by rw [heq])
        rw [h.all] at hfit
        exact absurd hfit (not_le.mpr hsize)
  · have heq := hrefused hpass
    constructor
    · intro hatomic
      refine iff_of_false hpass fun hsize => ?_
      have hrc := hatomic.capacity.mpr (by rwa [h.all])
      rw [heq] at hrc
      exact absurd hrc (by simp)
    · intro hagree
      refine ⟨?_, fun _ => by rw [heq]; exact ⟨rfl, rfl, rfl⟩⟩
      rw [heq, h.all]
      exact iff_of_false (by simp) fun hsize => hpass (hagree.mpr hsize)

/-- The arithmetic of the space checks. -/
theorem checksAgree_iff (h : Represents l hs) (hname : c.name? = some name)
    (hfind : hs.findIdx? (fun k => strncasecmpEq name k.1) = some j) (hj : j < hs.length) :
    ChecksAgree hs c ↔
      (Passes hs hs[j] c ↔ packedSize (updated hs c) ≤ headerListMaxSize) := by
  have hfits := h.fits
  have hmax : headerListMaxSize = 512 := rfl
  have hfirst := find?_of_findIdx? hfind hj
  have hmatch : strncasecmpEq name hs[j].1 = true := by simpa using List.find?_some hfirst
  have hlen := length_le_of_strncasecmpEq hmatch
  have herase := packedSize_erase hj
  cases c with
  | reset => simp [ListCall.name?] at hname
  | add name' value =>
    obtain rfl : name' = name := Option.some.inj hname
    -- the merged pair is longer by the value, a comma and the rest of the name
    have hsize : packedSize (addTo hs (name', value)) =
        packedSize hs + (name'.length - hs[j].1.length) + 1 + value.length :=
      packedSize_addTo_found hfind hj
    simp only [ChecksAgree, Passes, updated, hfirst, hsize, Option.some.injEq, forall_eq', reduceCtorEq,
      false_implies, true_and]
    omega
  | set name' value =>
    obtain rfl : name' = name := Option.some.inj hname
    -- the new pair has the value in place of the old one
    have hsize : packedSize (setTo hs (name', value)) + hs[j].2.length =
        packedSize hs + (name'.length - hs[j].1.length) + value.length := by
      simp only [setTo, hfind]
      rw [packedSize_append _ [_], packedSize_cons, packedSize_nil]
      dsimp only
      omega
    simp only [ChecksAgree, Passes, updated, hfirst, Option.some.injEq, forall_eq', reduceCtorEq,
      false_implies, true_and]
    split
    · rw [Int.emod_eq_of_lt (by omega) (by omega)]
      omega
    · -- the subtraction has wrapped around
      have hwrap : ((headerListMaxSize : ℤ) - packedSize hs - hs[j].2.length) % 2 ^ 32 =
          2 ^ 32 + headerListMaxSize - packedSize hs - hs[j].2.length := by
        rw [← Int.add_emod_right, Int.emod_eq_of_lt (by omega) (by omega)]
        omega
      rw [hwrap]
      omega

/-- **Capacity and atomicity of the updates.** After every sequence of calls that stay in the memory,
successful or not, a call returns 0 exactly where the resulting list fits and changes nothing where
it returns -1, if and only if its space checks agree with the size of the resulting list. -/
theorem capacityAtomic_iff {cs : List ListCall} (hvalid : ∀ c ∈ cs, c.Valid) (hcs : Contained cs)
    (hc : c.Valid) : CapacityAtomic (run cs) c ↔ ChecksAgree (run cs).list.all c := by
  obtain ⟨hs, h⟩ := run_represents hvalid hcs
  rw [h.all]
  cases hname : c.name? with
  | none =>
    cases c with
    | reset =>
      refine iff_of_true ⟨iff_of_true rfl (Nat.zero_le _), fun hrc => ?_⟩ trivial
      exact absurd hrc (by simp [HeaderMemory.call])
    | add | set => simp [ListCall.name?] at hname
  | some name =>
    cases hfind : hs.findIdx? (fun k => strncasecmpEq name k.1) with
    | none =>
      -- no entry of that name: the call appends
      obtain ⟨value, hp, hupdated, hcall⟩ := h.call_absent hc hname hfind
      rw [capacityAtomic_of_absent h hp hupdated hcall]
      have hnone : hs.find? (fun k => strncasecmpEq name k.1) = none := by
        rw [List.find?_eq_bind_findIdx?_getElem?, hfind]
        rfl
      cases c with
      | reset => simp [ListCall.name?] at hname
      | add name' value' =>
        obtain rfl : name' = name := Option.some.inj hname
        simp only [updated, addTo, hfind, List.append_cancel_left_eq, List.cons.injEq,
          Prod.mk.injEq, true_and, and_true] at hupdated
        simp [ChecksAgree, hnone, hupdated]
      | set name' value' =>
        obtain rfl : name' = name := Option.some.inj hname
        simp only [updated, setTo, hfind, List.append_cancel_left_eq, List.cons.injEq,
          Prod.mk.injEq, true_and, and_true] at hupdated
        simp [ChecksAgree, hnone, hupdated]
    | some j =>
      obtain ⟨hj, -⟩ := List.findIdx?_eq_some_iff_getElem.mp hfind
      rw [capacityAtomic_of_found h hc hname hfind hj, checksAgree_iff h hname hfind hj]

end Calls

/-- A value of 300 bytes, and a value that does not fit any more in its place. -/
def lostEntry : List ListCall :=
  [.set [97] (List.replicate 300 120), .set [97] (List.replicate 510 121)]

theorem lostEntry_valid : ∀ c ∈ lostEntry, c.Valid := by
  simp only [lostEntry, List.mem_cons, List.not_mem_nil, or_false]
  rintro c (rfl | rfl)
  · exact ⟨by decide, by decide, by decide +kernel⟩
  · exact ⟨by decide, by decide, by decide +kernel⟩

/-- The first call fits, and the second one is refused after its entry was taken out. -/
theorem lostEntry_contained : Contained lostEntry := by
  have hfirst : InBounds (run []).list.all (.set [97] (List.replicate 300 120)) :=
    inBounds_of_placed
      (show updated _ _ = [] ++ [([97], List.replicate 300 120)] by decide +kernel)
      (by decide +kernel)
  have hsecond : InBounds (run [.set [97] (List.replicate 300 120)]).list.all
      (.set [97] (List.replicate 510 121)) :=
    inBounds_of_placed
      (show updated _ _ = [] ++ [([97], List.replicate 510 121)] by decide +kernel)
      (by decide +kernel)
  exact contained_snoc.mpr ⟨contained_snoc.mpr ⟨contained_nil, hfirst⟩, hsecond⟩

/-- The failing call leaves an empty list, which is well formed. -/
theorem representation_lostEntry :
    (run lostEntry).count = 0 ∧ ∀ ds, ds <+: lostEntry → Represented (run ds) :=
  ⟨by decide +kernel, (representation_iff lostEntry_valid).mpr lostEntry_contained⟩

/-- A value so long that the sum of the lengths is 0 modulo `2 ^ 32` is written over the end of the
buffer, and the entry is counted. -/
theorem not_represented_of_wrap {value : Bytes} (hnul : NulFree value)
    (hlen : value.length = 2 ^ 32 - 3) : ¬ Represented (run [.add [97] value]) := by
  intro h
  have hc : (ListCall.add [97] value).Valid :=
    ⟨List.cons_ne_nil _ _, show NulFree [97] by decide, hnul⟩
  have hin : InBounds [] (.add [97] value) :=
    (represents_reset.call_iff hc).mp (represented_iff.mp h)
  have hplaced : Placed [] ([97], value) := by
    refine hin (fun name _ e he => ?_) [] _ rfl
    cases he
  rcases hplaced with hfull | ⟨-, hfit⟩
  · have hzero : appendSize [97] value = 0 := by
      rw [appendSize, unsignedLength, unsignedLength, hlen]
      rfl
    dsimp only at hfull
    omega
  · have hwritten := (length_written ([97], value)).2
    rw [unsignedLength, hlen] at hwritten
    rw [packedSize_append, packedSize_cons, hwritten] at hfit
    have hmax : headerListMaxSize = 512 := rfl
    omega

/-- A pair of a name of one byte and a value of `2 ^ 32 - 3` bytes. -/
theorem not_representation : ¬ ∀ cs, (∀ c ∈ cs, ListCall.Valid c) → Represented (run cs) := by
  intro h
  have hnul : NulFree (List.replicate (2 ^ 32 - 3) 120) := by
    intro hmem
    exact absurd (List.eq_of_mem_replicate hmem) (by decide)
  refine not_represented_of_wrap hnul List.length_replicate (h _ ?_)
  intro c hc
  rw [List.mem_singleton.mp hc]
  exact ⟨by decide, by decide, hnul⟩

/-- The entry of a name is found, and its new value fits in place of the old one. -/
theorem capacityAtomic_replaced :
    CapacityAtomic (run [.set [97] (List.replicate 300 120)]) (.add [65] (List.replicate 100 121)) := by
  have hvalid : ∀ c ∈ [ListCall.set [97] (List.replicate 300 120)], c.Valid := fun c hc =>
    lostEntry_valid c (by rw [List.mem_singleton.mp hc]; exact .head _)
  have hboth : Contained ([.set [97] (List.replicate 300 120)] ++
    [.set [97] (List.replicate 510 121)]) := lostEntry_contained
  have hcs := (contained_snoc.mp hboth).1
  have hc : (ListCall.add [65] (List.replicate 100 121)).Valid :=
    ⟨by decide, by decide, by decide +kernel⟩
  have hall : (run [.set [97] (List.replicate 300 120)]).list.all =
      [([97], List.replicate 300 120)] := by decide +kernel
  refine (capacityAtomic_iff hvalid hcs hc).mpr ?_
  rw [hall]
  have hfound : [(([97] : Bytes), (List.replicate 300 120 : Bytes))].find?
      (fun h => strncasecmpEq [65] h.1) = some ([97], List.replicate 300 120) := by decide +kernel
  refine ⟨fun hnone => ?_, fun e he => ?_⟩
  · rw [hfound] at hnone
    cases hnone
  · obtain rfl := Option.some.inj (hfound.symm.trans he)
    exact .inr (by decide +kernel)

/-- The entry of a name is lost when its new value does not fit. -/
theorem not_capacityAtomic :
    ¬ ∀ cs c, (∀ c ∈ cs, ListCall.Valid c) → c.Valid → CapacityAtomic (run cs) c := by
  intro h
  have hfirst : ∀ c ∈ lostEntry.take 1, c.Valid := fun c hc =>
    lostEntry_valid c (List.mem_of_mem_take hc)
  have hlast : (ListCall.set [97] (List.replicate 510 121)).Valid :=
    lostEntry_valid _ (.tail _ (.head _))
  have hlost := (h _ _ hfirst hlast).atomic (by decide +kernel)
  exact absurd hlost.2.1 (by decide +kernel)

end HeaderMemory

end Two
