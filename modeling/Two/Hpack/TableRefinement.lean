import Two.Hpack.TableSearch

/-!
# The dynamic table refines the table of RFC 7541

The functions of the dynamic table are run once more with every access to the buffer checked: the
index lies in a buffer of `capacity` bytes, no modulus is zero, the positions returned fit into
`int16_t` and the eviction loops stop. On every table reached by a sequence of calls the checks
succeed, and the entries are those of the abstract table.

## Main definitions

* `DynamicTable.addEntry?`, `DynamicTable.resize?`, `DynamicTable.findEntryNameAndValue?`,
  `DynamicTable.findEntryName?`: the functions with their checks, `none` where a check fails
* `TableCall`, `DynamicTable.call?`, `DynamicTable.calls?`: sequences of calls
* `AbstractTable`, `AbstractTable.Step`, `AbstractTable.Steps`: the table of RFC 7541
* `Abstracts capacity t a`: the table `t` holds the entries of `a`

## Main results

* `Abstracts.call`: a call is a step of the abstract table
* `calls_refine`: a sequence of calls is a run of the abstract table
-/

namespace Two.Hpack

open HeaderList (packedSize packedSize_nil packedSize_cons)

/-! ## Checked accesses -/

/-- A value returned as `int16_t`. -/
def int16? (x : ℤ) : Option ℤ := if -2 ^ 15 ≤ x ∧ x < 2 ^ 15 then some x else none

/-- A read of `buffer[i]`, where the buffer has `capacity` bytes. -/
def load? (capacity : ℕ) (buffer : ℕ → UInt8) (i : ℕ) : Option UInt8 :=
  if i < capacity then some (buffer i) else none

/-- An assignment to `buffer[i]`. -/
def store? (capacity : ℕ) (buffer : ℕ → UInt8) (i : ℕ) (b : UInt8) : Option (ℕ → UInt8) :=
  if i < capacity then some (Function.update buffer i b) else none

namespace DynamicTable

section Checked

variable (capacity : ℕ) (t : DynamicTable)

/-- The index `k % max_size` of C. -/
def index? (k : ℤ) : Option ℕ :=
  if t.maxSize = 0 then none
  else if 0 ≤ k.tmod t.maxSize then some (k.tmod t.maxSize).toNat else none

/-- A read of `buffer[k % max_size]`. -/
def cell? (k : ℤ) : Option UInt8 := do load? capacity t.buffer (← t.index? k)

/-- An assignment to `buffer[k % max_size]`. -/
def put? (k : ℤ) (b : UInt8) : Option DynamicTable := do
  let buffer ← store? capacity t.buffer (← t.index? k) b
  return { t with buffer := buffer }

/-- The loop of `hpack_tables_dynamic_pos_of_index`. -/
def posOfIndexLoop? (index : ℕ) : ℕ → ℕ → ℕ → ℕ → Option ℤ
  | 0, _, _, _ => some internalError
  | fuel + 1, i, counter0, entriesCounter => do
    let isEnd := (← t.cell? capacity (t.next - i + t.maxSize)) = 0
    let counter0 := if isEnd then counter0 + 1 else counter0
    let entriesCounter :=
      if isEnd ∧ counter0 % 2 = 0 then entriesCounter + 1 else entriesCounter
    if entriesCounter = index - 61 then int16? i
    else posOfIndexLoop? index fuel (i + 1) counter0 entriesCounter

/-- `hpack_tables_dynamic_pos_of_index`. -/
def posOfIndex? (index : ℕ) : Option ℤ := t.posOfIndexLoop? capacity index (t.maxSize - 1) 1 0 0

/-- The loop of `hpack_tables_dynamic_copy_to_ext`. -/
def copyToExtLoop? (initialPosition : ℕ) : ℕ → ℕ → Option (Option (Bytes × ℤ))
  | 0, _ => some none
  | fuel + 1, i => do
    let b ← t.cell? capacity (t.next - initialPosition + i + t.maxSize)
    if b = 0 then return some ([], ← int16? (initialPosition - i))
    else
      let rest ← copyToExtLoop? initialPosition fuel (i + 1)
      return rest.map fun p => (b :: p.1, p.2)

/-- `hpack_tables_dynamic_copy_to_ext`. -/
def copyToExt? (initialPosition : ℕ) : Option (Option (Bytes × ℤ)) :=
  t.copyToExtLoop? capacity initialPosition (t.maxSize - 1) 1

/-- The loop of `hpack_tables_dynamic_copy_from_ext`. -/
def copyFromExtLoop? (initialPosition : ℕ) :
    ℕ → ℕ → Bytes → DynamicTable → Option (DynamicTable × ℤ)
  | 0, _, _, t => some (t, internalError)
  | _ + 1, i, [], t => do
    return (← t.put? capacity (t.next + initialPosition + i + t.maxSize) 0,
      ← int16? (initialPosition + i))
  | fuel + 1, i, b :: s, t => do
    copyFromExtLoop? initialPosition fuel (i + 1) s
      (← t.put? capacity (t.next + initialPosition + i + t.maxSize) b)

/-- `hpack_tables_dynamic_copy_from_ext`. -/
def copyFromExt? (initialPosition : ℕ) (s : Bytes) : Option (DynamicTable × ℤ) := do
  copyFromExtLoop? capacity initialPosition (t.maxSize - 1) 1 s
    (← t.put? capacity (t.next + initialPosition + t.maxSize) 0)

/-- The loop of `hpack_tables_dynamic_pop`. -/
def popLoop? : ℕ → ℕ → ℕ → ℕ → Option (Option (ℕ × ℕ))
  | 0, _, _, _ => some none
  | fuel + 1, i, entryLength, counter0 => do
    if (← t.cell? capacity (t.first + i + t.maxSize)) = 0 then
      if counter0 + 1 = 2 then return some (i, entryLength)
      else popLoop? fuel (i + 1) entryLength (counter0 + 1)
    else popLoop? fuel (i + 1) (entryLength + 1) counter0

/-- `hpack_tables_dynamic_pop`. -/
def pop? : Option DynamicTable := do
  if t.nEntries = 0 then return t
  else
    match ← t.popLoop? capacity (t.maxSize - 1) 1 0 0 with
    | none => return t
    | some (i, entryLength) =>
      return { t with
        first := ← t.index? (t.first + i + t.maxSize)
        actualSize := (t.actualSize + 2 ^ 16 - (entryLength + 32)) % 2 ^ 16
        nEntries := t.nEntries - 1 }

/-- `hpack_tables_dynamic_find_entry_name`. -/
def findEntryName? (index : ℕ) : Option (Except ℤ Bytes) := do
  if t.nEntries < index - 61 then return .error compressionError
  else
    let position ← t.posOfIndex? capacity index
    if position < 0 then return .error internalError
    else
      match ← t.copyToExt? capacity position.toNat with
      | none => return .error internalError
      | some (name, position) => if position < 0 then return .error internalError else return .ok name

/-- `hpack_tables_dynamic_find_entry_name_and_value`. -/
def findEntryNameAndValue? (index : ℕ) : Option (Except ℤ Header) := do
  if t.nEntries < index - 61 then return .error compressionError
  else
    let position ← t.posOfIndex? capacity index
    if position < 0 then return .error internalError
    else
      match ← t.copyToExt? capacity position.toNat with
      | none => return .error internalError
      | some (name, position) =>
        if position < 0 then return .error internalError
        else
          match ← t.copyToExt? capacity position.toNat with
          | none => return .error internalError
          | some (value, position) =>
            if position < 0 then return .error internalError else return .ok (name, value)

/-- The loop `while (actual_size > limit) pop`; a loop that goes on when every entry is gone never
stops. -/
def evictLoop? (limit : ℕ) : ℕ → DynamicTable → Option DynamicTable
  | 0, t => if t.actualSize > limit then none else some t
  | fuel + 1, t => do
    if t.actualSize > limit then evictLoop? limit fuel (← t.pop? capacity) else return t

/-- `hpack_tables_dynamic_table_add_entry`. -/
def addEntry? (name value : Bytes) : Option (DynamicTable × ℤ) := do
  let entrySize := (name.length + value.length + 32) % 2 ^ 16
  if entrySize > t.maxSize then return (t, internalError)
  else
    let t ← evictLoop? capacity (t.maxSize - entrySize) t.nEntries t
    let (t, continuePos) ← t.copyFromExt? capacity 0 name
    if continuePos < 0 then return (t, continuePos)
    else
      let (t, continuePos) ← t.copyFromExt? capacity continuePos.toNat value
      if continuePos < 0 then return (t, continuePos)
      else
        return ({ t with
          nEntries := (t.nEntries + 1) % 2 ^ 16
          actualSize := (t.actualSize + entrySize) % 2 ^ 16
          next := ← t.index? (t.next + continuePos + t.maxSize) }, 0)

/-- A loop `for (i = 0; i < n; i++) buffer[to + i] = from(i)`. -/
def copyUp? (source : (ℕ → UInt8) → ℕ → Option UInt8) (target : ℕ) :
    ℕ → (ℕ → UInt8) → Option (ℕ → UInt8)
  | 0, buffer => some buffer
  | n + 1, buffer => do
    let buffer ← copyUp? source target n buffer
    store? capacity buffer (target + n) (← source buffer n)

/-- The loop that shifts `buffer[0..next]` by `shift` to the right, from right to left. -/
def copyDown? (next shift : ℕ) : ℕ → (ℕ → UInt8) → Option (ℕ → UInt8)
  | 0, buffer => some buffer
  | n + 1, buffer => do
    let buffer ← copyDown? next shift n buffer
    store? capacity buffer (next - n + shift) (← load? capacity buffer (next - n))

/-- The reorganisation of `hpack_tables_dynamic_table_resize`. -/
def reorganize? : Option DynamicTable := do
  if t.next ≤ t.first then
    if t.nEntries = 0 then return { t with first := 0, next := 0 }
    else
      let tail := t.maxSize - t.first
      if t.next ≤ tail then
        let aux := load? capacity t.buffer
        let buffer ← copyUp? capacity (fun b i => load? capacity b (i + t.first)) 0 tail t.buffer
        let buffer ← copyUp? capacity (fun _ i => aux i) tail (t.next + 1) buffer
        return { t with first := 0, next := tail + t.next, buffer := buffer }
      else
        let aux := fun i => load? capacity t.buffer (t.first + i)
        let buffer ← copyDown? capacity t.next tail (t.next + 1) t.buffer
        let buffer ← copyUp? capacity (fun _ i => aux i) 0 tail buffer
        return { t with first := 0, next := tail + t.next, buffer := buffer }
  else
    let buffer ← copyUp? capacity (fun b i => load? capacity b (t.first + i)) 0
      (t.next - t.first + 1) t.buffer
    return { t with first := 0, next := t.next - t.first, buffer := buffer }

/-- `hpack_tables_dynamic_table_resize`. -/
def resize? (newMaxSize : ℕ) : Option (DynamicTable × ℤ) := do
  if newMaxSize > t.settingsMaxTableSize then return (t, compressionError)
  else
    let t ← evictLoop? capacity newMaxSize t.nEntries t
    let t ← t.reorganize? capacity
    return ({ t with maxSize := newMaxSize % 2 ^ 16 }, 0)

/-- `hpack_tables_init_dynamic_table`, whose `memset` writes `dynamic_table_max_size` bytes. -/
def init? (dynamicTableMaxSize : ℕ) : Option DynamicTable :=
  if dynamicTableMaxSize ≤ capacity then some (t.init dynamicTableMaxSize) else none

end Checked

/-! ## The checks succeed -/

/-- The ring is not empty and lies in a buffer of `capacity` bytes. -/
structure Sized (capacity : ℕ) (t : DynamicTable) : Prop where
  pos : 0 < t.maxSize
  le_capacity : t.maxSize ≤ capacity
  lt : t.maxSize < 2 ^ 15

section Safe

variable {capacity : ℕ} {t : DynamicTable}

theorem index?_eq (hpos : 0 < t.maxSize) {k : ℤ} {n : ℕ} (hk : k = n) :
    t.index? k = some (n % t.maxSize) := by
  subst hk
  rw [index?, if_neg (by omega), ← Int.ofNat_tmod, if_pos (by omega), Int.toNat_natCast]

theorem cell?_eq (h : Sized capacity t) {k : ℤ} {n : ℕ} (hk : k = n) :
    t.cell? capacity k = some (t.cell n) := by
  have hlt := Nat.mod_lt n h.pos
  have hle := h.le_capacity
  rw [cell?, index?_eq h.pos hk]
  simp only [Option.bind_eq_bind, Option.bind_some]
  rw [load?, if_pos (by omega), cell]

theorem put?_eq (h : Sized capacity t) {k : ℤ} {n : ℕ} (hk : k = n) (b : UInt8) :
    t.put? capacity k b = some (t.put n b) := by
  have hlt := Nat.mod_lt n h.pos
  have hle := h.le_capacity
  rw [put?, index?_eq h.pos hk]
  simp only [Option.bind_eq_bind, Option.bind_some]
  rw [store?, if_pos (by omega)]
  rfl

theorem int16?_eq {x : ℤ} (h1 : -2 ^ 15 ≤ x) (h2 : x < 2 ^ 15) : int16? x = some x :=
  if_pos ⟨h1, h2⟩

theorem posOfIndexLoop?_eq (h : Sized capacity t) (index : ℕ) :
    ∀ fuel i counter0 entriesCounter, i + fuel ≤ t.maxSize →
      t.posOfIndexLoop? capacity index fuel i counter0 entriesCounter =
        some (t.posOfIndexLoop index fuel i counter0 entriesCounter) := by
  intro fuel
  induction fuel with
  | zero => intros; rfl
  | succ fuel ih =>
    intro i counter0 entriesCounter hi
    have h15 := h.lt
    have hcell : t.cell? capacity (t.next - i + t.maxSize) = some (t.back i) :=
      cell?_eq h (by omega)
    have hi16 : int16? i = some (i : ℤ) := int16?_eq (by omega) (by omega)
    rw [posOfIndexLoop?, posOfIndexLoop, hcell]
    simp only [Option.bind_eq_bind, Option.bind_some, hi16]
    rw [ih _ _ _ (by omega), apply_ite some]

theorem posOfIndex?_eq (h : Sized capacity t) (index : ℕ) :
    t.posOfIndex? capacity index = some (t.posOfIndex index) := by
  have hpos := h.pos
  exact posOfIndexLoop?_eq h index _ _ _ _ (by omega)

/-- The position found is a distance in the ring. -/
theorem posOfIndexLoop_le (index : ℕ) :
    ∀ fuel i counter0 entriesCounter, i + fuel ≤ t.maxSize →
      t.posOfIndexLoop index fuel i counter0 entriesCounter ≤ t.maxSize := by
  intro fuel
  induction fuel with
  | zero =>
    intro i _ _ _
    simp only [posOfIndexLoop, internalError]
    omega
  | succ fuel ih =>
    intro i counter0 entriesCounter hi
    rw [posOfIndexLoop]
    exact iteInduction (motive := fun x => x ≤ (t.maxSize : ℤ)) (fun _ => by omega)
      fun _ => ih _ _ _ (by omega)

theorem copyToExtLoop?_eq (h : Sized capacity t) {pos : ℕ} (hpos : pos ≤ t.maxSize) :
    ∀ fuel i, i + fuel ≤ t.maxSize →
      t.copyToExtLoop? capacity pos fuel i = some (t.copyToExtLoop pos fuel i) := by
  intro fuel
  induction fuel with
  | zero => intros; rfl
  | succ fuel ih =>
    intro i hi
    have h15 := h.lt
    have hcell : t.cell? capacity (t.next - pos + i + t.maxSize) =
        some (t.cell (t.next + t.maxSize - pos + i)) := cell?_eq h (by omega)
    have hp16 : int16? ((pos : ℤ) - i) = some ((pos : ℤ) - i) := int16?_eq (by omega) (by omega)
    rw [copyToExtLoop?, copyToExtLoop, hcell]
    simp only [Option.bind_eq_bind, Option.bind_some, hp16, ih (i + 1) (by omega)]
    split
    · rfl
    · rfl

theorem copyToExt?_eq (h : Sized capacity t) {pos : ℤ} (hpos : pos ≤ t.maxSize) :
    t.copyToExt? capacity pos.toNat = some (t.copyToExt pos.toNat) := by
  have := h.pos
  exact copyToExtLoop?_eq h (by omega) _ _ (by omega)

/-- Copying ends before where it starts. -/
theorem copyToExtLoop_le {pos : ℕ} :
    ∀ {fuel i : ℕ} {s : Bytes} {p : ℤ}, t.copyToExtLoop pos fuel i = some (s, p) → p ≤ pos := by
  intro fuel
  induction fuel with
  | zero => intro i s p h; simp [copyToExtLoop] at h
  | succ fuel ih =>
    intro i s p h
    rw [copyToExtLoop] at h
    simp only at h
    split at h
    · simp only [Option.some.injEq, Prod.mk.injEq] at h
      omega
    · obtain ⟨q, hq, heq⟩ := Option.map_eq_some_iff.mp h
      obtain ⟨-, rfl⟩ := Prod.ext_iff.mp heq
      exact ih hq

theorem findEntryNameAndValue?_eq (h : Sized capacity t) (index : ℕ) :
    t.findEntryNameAndValue? capacity index = some (t.findEntryNameAndValue index) := by
  have h1 := h.pos
  have hle : t.posOfIndex index ≤ t.maxSize := posOfIndexLoop_le index _ _ _ _ (by omega)
  rw [findEntryNameAndValue?, findEntryNameAndValue]
  by_cases hn : t.nEntries < index - 61
  · rw [if_pos hn, if_pos hn]
    rfl
  rw [if_neg hn, if_neg hn, posOfIndex?_eq h]
  simp only [Option.bind_eq_bind, Option.bind_some]
  by_cases hneg : t.posOfIndex index < 0
  · rw [if_pos hneg, if_pos hneg]
    rfl
  rw [if_neg hneg, if_neg hneg, copyToExt?_eq h hle]
  rcases hname : t.copyToExt (t.posOfIndex index).toNat with _ | ⟨name, position⟩
  · rfl
  have hle' := copyToExtLoop_le hname
  simp only [Option.bind_some]
  by_cases hneg' : position < 0
  · rw [if_pos hneg', if_pos hneg']
    rfl
  rw [if_neg hneg', if_neg hneg', copyToExt?_eq h (by omega)]
  -- the value is read from where the name ended, still inside the ring
  rcases t.copyToExt position.toNat with _ | ⟨value, position'⟩
  · rfl
  · simp only [Option.bind_some]
    rw [apply_ite some]
    rfl

theorem findEntryName?_eq (h : Sized capacity t) (index : ℕ) :
    t.findEntryName? capacity index = some (t.findEntryName index) := by
  have h1 := h.pos
  have hle : t.posOfIndex index ≤ t.maxSize := posOfIndexLoop_le index _ _ _ _ (by omega)
  rw [findEntryName?, findEntryName]
  by_cases hn : t.nEntries < index - 61
  · rw [if_pos hn, if_pos hn]
    rfl
  rw [if_neg hn, if_neg hn, posOfIndex?_eq h]
  simp only [Option.bind_eq_bind, Option.bind_some]
  by_cases hneg : t.posOfIndex index < 0
  · rw [if_pos hneg, if_pos hneg]
    rfl
  rw [if_neg hneg, if_neg hneg, copyToExt?_eq h hle]
  rcases t.copyToExt (t.posOfIndex index).toNat with _ | ⟨name, position⟩
  · rfl
  · simp only [Option.bind_some]
    rw [apply_ite some]
    rfl

theorem popLoop?_eq (h : Sized capacity t) :
    ∀ fuel i entryLength counter0,
      t.popLoop? capacity fuel i entryLength counter0 =
        some (t.popLoop fuel i entryLength counter0) := by
  intro fuel
  induction fuel with
  | zero => intros; rfl
  | succ fuel ih =>
    intro i entryLength counter0
    have hcell : t.cell? capacity (t.first + i + t.maxSize) =
        some (t.cell (t.first + i + t.maxSize)) := cell?_eq h (by omega)
    rw [popLoop?, popLoop, hcell]
    simp only [Option.bind_eq_bind, Option.bind_some, ih]
    rw [apply_ite some, apply_ite some]
    rfl

theorem pop?_eq (h : Sized capacity t) : t.pop? capacity = some t.pop := by
  rw [pop?, pop]
  by_cases h0 : t.nEntries = 0
  · rw [if_pos h0, if_pos h0]
    rfl
  rw [if_neg h0, if_neg h0, popLoop?_eq h]
  rcases t.popLoop (t.maxSize - 1) 1 0 0 with _ | ⟨i, entryLength⟩
  · rfl
  · have hindex : t.index? (t.first + i + t.maxSize) =
        some ((t.first + i + t.maxSize) % t.maxSize) := index?_eq h.pos (by omega)
    simp only [Option.bind_eq_bind, Option.bind_some, hindex]
    rfl

theorem copyFromExtLoop?_eq {pos : ℕ} :
    ∀ (s : Bytes) {fuel i : ℕ} {t : DynamicTable}, Sized capacity t → s.length < fuel →
      pos + i + s.length < 2 ^ 15 →
      copyFromExtLoop? capacity pos fuel i s t = some (copyFromExtLoop pos fuel i s t) := by
  intro s
  induction s with
  | nil =>
    intro fuel i t h hf hp
    obtain ⟨fuel, rfl⟩ : ∃ f, fuel = f + 1 := ⟨fuel - 1, by simp at hf; omega⟩
    rw [List.length_nil] at hp
    have hput : t.put? capacity (t.next + pos + i + t.maxSize) 0 =
        some (t.put (t.next + pos + i + t.maxSize) 0) := put?_eq h (by omega) 0
    have hp16 : int16? ((pos : ℤ) + i) = some ((pos : ℤ) + i) := int16?_eq (by omega) (by omega)
    rw [copyFromExtLoop?, copyFromExtLoop, hput, hp16]
    rfl
  | cons b s ih =>
    intro fuel i t h hf hp
    rw [List.length_cons] at hf hp
    obtain ⟨fuel, rfl⟩ : ∃ f, fuel = f + 1 := ⟨fuel - 1, by omega⟩
    have hput : t.put? capacity (t.next + pos + i + t.maxSize) b =
        some (t.put (t.next + pos + i + t.maxSize) b) := put?_eq h (by omega) b
    rw [copyFromExtLoop?, copyFromExtLoop, hput]
    simp only [Option.bind_eq_bind, Option.bind_some]
    -- the checked store leaves the sizes alone, so the rest is checked the same
    exact ih ⟨h.pos, h.le_capacity, h.lt⟩ (by omega) (by omega)

theorem copyFromExt?_eq (h : Sized capacity t) {pos : ℕ} {s : Bytes}
    (hs : pos + s.length + 1 < t.maxSize) :
    t.copyFromExt? capacity pos s = some (t.copyFromExt pos s) := by
  have h15 := h.lt
  have hput : t.put? capacity (t.next + pos + t.maxSize) 0 =
      some (t.put (t.next + pos + t.maxSize) 0) := put?_eq h (by omega) 0
  rw [copyFromExt?, copyFromExt, hput]
  simp only [Option.bind_eq_bind, Option.bind_some]
  exact copyFromExtLoop?_eq s ⟨h.pos, h.le_capacity, h.lt⟩ (by omega) (by omega)

theorem copyUp?_eq {source? : (ℕ → UInt8) → ℕ → Option UInt8}
    (source : (ℕ → UInt8) → ℕ → UInt8) {target n : ℕ} (ht : target + n ≤ capacity)
    (hs : ∀ buffer, ∀ i < n, source? buffer i = some (source buffer i)) (buffer : ℕ → UInt8) :
    copyUp? capacity source? target n buffer = some (copyUp source target n buffer) := by
  induction n with
  | zero => rfl
  | succ n ih =>
    rw [copyUp?, copyUp, ih (by omega) fun b i hi => hs b i (by omega)]
    simp only [Option.bind_eq_bind, Option.bind_some, hs _ n (Nat.lt_succ_self n)]
    rw [store?, if_pos (by omega)]

theorem copyDown?_eq {next shift n : ℕ} (h : next + shift < capacity) (buffer : ℕ → UInt8) :
    copyDown? capacity next shift n buffer = some (copyDown next shift n buffer) := by
  induction n with
  | zero => rfl
  | succ n ih =>
    rw [copyDown?, copyDown, ih]
    simp only [Option.bind_eq_bind, Option.bind_some]
    rw [load?, if_pos (by omega)]
    simp only [Option.bind_some]
    rw [store?, if_pos (by omega)]

/-- Reorganising only touches the buffer when the cells from `first` to `next` lie in it. -/
theorem reorganize?_eq {n : ℕ} (hcap : t.maxSize ≤ capacity)
    (h0 : t.nEntries ≠ 0 → 0 < n ∧ n < t.maxSize ∧ t.first < t.maxSize ∧
      t.next = (t.first + n) % t.maxSize)
    (hempty : t.nEntries = 0 → t.next ≤ t.first) :
    t.reorganize? capacity = some t.reorganize := by
  rw [reorganize?, reorganize]
  by_cases hne : t.nEntries = 0
  · rw [if_pos (hempty hne), if_pos (hempty hne), if_pos hne, if_pos hne]
    rfl
  obtain ⟨hpos, hn, hfirst, hnext⟩ := h0 hne
  have hload : ∀ (b : ℕ → UInt8) (i : ℕ), i < t.maxSize → load? capacity b i = some (b i) :=
    fun b i hi => if_pos (by omega)
  rcases Nat.lt_or_ge (t.first + n) t.maxSize with hlt | hge
  · -- the entries do not wrap around
    rw [Nat.mod_eq_of_lt hlt] at hnext
    have hwrap : ¬ t.next ≤ t.first := by omega
    rw [if_neg hwrap, if_neg hwrap, copyUp?_eq (fun b i => b (t.first + i))
      (by omega) fun b i hi => hload b _ (by omega)]
    rfl
  · have hnext : t.next = t.first + n - t.maxSize := by
      rw [hnext, Nat.mod_eq_sub_mod hge, Nat.mod_eq_of_lt (by omega)]
    have hwrap : t.next ≤ t.first := by omega
    rw [if_pos hwrap, if_pos hwrap, if_neg hne, if_neg hne]
    by_cases hle : t.next ≤ t.maxSize - t.first
    · simp only [if_pos hle]
      rw [copyUp?_eq (fun b i => b (i + t.first)) (by omega)
        fun b i hi => hload b _ (by omega)]
      simp only [Option.bind_eq_bind, Option.bind_some]
      rw [copyUp?_eq (fun _ i => t.buffer i) (by omega)
        fun b i hi => hload _ _ (by omega)]
      rfl
    · simp only [if_neg hle]
      rw [copyDown?_eq (by omega)]
      simp only [Option.bind_eq_bind, Option.bind_some]
      rw [copyUp?_eq (fun _ i => t.buffer (t.first + i)) (by omega)
        fun b i hi => hload _ _ (by omega)]
      rfl

end Safe

end DynamicTable

namespace Represents

variable {capacity : ℕ} {t : DynamicTable} {D : List Header} {e : Header}

/-- A table that holds an entry has a ring. -/
theorem sized (h : Represents t D) (hD : D ≠ []) (hcap : t.maxSize ≤ capacity) :
    DynamicTable.Sized capacity t := by
  have := h.packedSize_lt hD
  exact ⟨by omega, hcap, h.maxSize_lt⟩

/-- The eviction loops stop, with every access in bounds. -/
theorem evictLoop?_eq {limit : ℕ} :
    ∀ {D : List Header} {fuel : ℕ} {t : DynamicTable}, Represents t D → t.maxSize ≤ capacity →
      D.length ≤ fuel →
      DynamicTable.evictLoop? capacity limit fuel t =
        some (DynamicTable.evictLoop limit fuel t) := by
  intro D
  induction D using List.reverseRecOn with
  | nil =>
    intro fuel t h _ _
    have hstop : ¬ t.actualSize > limit := by rw [h.actualSize]; simp
    cases fuel with
    | zero => rw [DynamicTable.evictLoop?, if_neg hstop, DynamicTable.evictLoop]
    | succ fuel =>
      rw [DynamicTable.evictLoop?, if_neg hstop, DynamicTable.evictLoop, if_neg hstop]
      rfl
  | append_singleton D e ih =>
    intro fuel t h hcap hf
    rw [List.length_append, List.length_singleton] at hf
    obtain ⟨fuel, rfl⟩ : ∃ f, fuel = f + 1 := ⟨fuel - 1, by omega⟩
    rw [DynamicTable.evictLoop?, DynamicTable.evictLoop]
    -- each round pops the oldest entry, which lies at the end of the list
    by_cases hl : t.actualSize > limit
    · rw [if_pos hl, if_pos hl, DynamicTable.pop?_eq (h.sized (by simp) hcap)]
      simp only [Option.bind_eq_bind, Option.bind_some]
      exact ih h.pop (by simpa using hcap) (by omega)
    · rw [if_neg hl, if_neg hl]
      rfl

theorem findEntryNameAndValue?_eq (h : Represents t D) (hcap : t.maxSize ≤ capacity) (k : ℕ) :
    t.findEntryNameAndValue? capacity (62 + k) = some (t.findEntryNameAndValue (62 + k)) := by
  by_cases hD : D = []
  · -- an empty table is not read
    have hn : t.nEntries < 62 + k - 61 := by rw [h.nEntries, hD, List.length_nil]; omega
    rw [DynamicTable.findEntryNameAndValue?, DynamicTable.findEntryNameAndValue, if_pos hn,
      if_pos hn]
    rfl
  · exact DynamicTable.findEntryNameAndValue?_eq (h.sized hD hcap) _

theorem findEntryName?_eq (h : Represents t D) (hcap : t.maxSize ≤ capacity) (k : ℕ) :
    t.findEntryName? capacity (62 + k) = some (t.findEntryName (62 + k)) := by
  by_cases hD : D = []
  · have hn : t.nEntries < 62 + k - 61 := by rw [h.nEntries, hD, List.length_nil]; omega
    rw [DynamicTable.findEntryName?, DynamicTable.findEntryName, if_pos hn, if_pos hn]
    rfl
  · exact DynamicTable.findEntryName?_eq (h.sized hD hcap) _

theorem addEntry?_eq (h : Represents t D) (hcap : t.maxSize ≤ capacity) {name value : Bytes}
    (h16 : name.length + value.length + 32 < 2 ^ 16) :
    t.addEntry? capacity name value = some (t.addEntry name value) := by
  rw [DynamicTable.addEntry?, DynamicTable.addEntry]
  simp only [Nat.mod_eq_of_lt h16]
  by_cases hfit : name.length + value.length + 32 > t.maxSize
  · rw [if_pos hfit, if_pos hfit]
    rfl
  rw [if_neg hfit, if_neg hfit, h.evictLoop?_eq hcap (Nat.le_of_eq h.nEntries.symm)]
  simp only [Option.bind_eq_bind, Option.bind_some]
  generalize ht : DynamicTable.evictLoop (t.maxSize - (name.length + value.length + 32))
    t.nEntries t = t₁
  have hmax : t₁.maxSize = t.maxSize := by rw [← ht, DynamicTable.evictLoop_maxSize]
  have hsized : DynamicTable.Sized capacity t₁ :=
    ⟨by omega, by omega, by rw [hmax]; exact h.maxSize_lt⟩
  -- copying a string changes the buffer and returns a position
  obtain ⟨t₂, q, hname, hq, hmax₂⟩ : ∃ t₂, ∃ q : ℕ, t₁.copyFromExt 0 name = (t₂, (q : ℤ)) ∧
      q = 1 + name.length ∧ t₂.maxSize = t₁.maxSize :=
    ⟨_, _, t₁.copyFromExt_eq 0 (by omega), by omega, rfl⟩
  obtain ⟨t₃, p, hvalue, hmax₃⟩ : ∃ t₃, ∃ p : ℕ, t₂.copyFromExt q value = (t₃, (p : ℤ)) ∧
      t₃.maxSize = t₂.maxSize :=
    ⟨_, _, t₂.copyFromExt_eq q (by omega), rfl⟩
  have hsized₂ : DynamicTable.Sized capacity t₂ :=
    ⟨by rw [hmax₂]; exact hsized.pos, by rw [hmax₂]; exact hsized.le_capacity,
      by rw [hmax₂]; exact hsized.lt⟩
  have hindex : t₃.index? (t₃.next + p + t₃.maxSize) =
      some ((t₃.next + p + t₃.maxSize) % t₃.maxSize) :=
    DynamicTable.index?_eq (by rw [hmax₃]; exact hsized₂.pos) (by omega)
  rw [DynamicTable.copyFromExt?_eq hsized (by omega), hname]
  simp only [Option.bind_some, Int.toNat_natCast]
  rw [if_neg (by omega), if_neg (by omega), DynamicTable.copyFromExt?_eq hsized₂ (by omega), hvalue]
  simp only [Option.bind_some, Int.toNat_natCast, hindex]
  rw [if_neg (by omega), if_neg (by omega)]
  rfl

theorem reorganize?_eq (h : Represents t D) (hcap : t.maxSize ≤ capacity) :
    t.reorganize? capacity = some t.reorganize := by
  refine DynamicTable.reorganize?_eq (n := packedSize D) hcap (fun hne => ?_) fun h0 => ?_
  · have hD : D ≠ [] := by
      rintro rfl
      exact hne h.nEntries
    have hlt := h.packedSize_lt hD
    obtain ⟨e, D', rfl⟩ := List.exists_cons_of_ne_nil hD
    refine ⟨by rw [packedSize_cons]; omega, by omega, h.first_lt.resolve_right (by omega), h.next_eq⟩
  · obtain rfl : D = [] := List.eq_nil_of_length_eq_zero (by rw [← h.nEntries, h0])
    have hnext := h.next_eq
    rw [packedSize_nil, Nat.add_zero] at hnext
    rw [hnext]
    exact Nat.mod_le _ _

theorem resize?_eq (h : Represents t D) (hcap : t.maxSize ≤ capacity) (newMaxSize : ℕ) :
    t.resize? capacity newMaxSize = some (t.resize newMaxSize) := by
  rw [DynamicTable.resize?, DynamicTable.resize]
  by_cases hle : newMaxSize > t.settingsMaxTableSize
  · rw [if_pos hle, if_pos hle]
    rfl
  have hrep : Represents (DynamicTable.evictLoop newMaxSize t.nEntries t) (evictTo newMaxSize D) :=
    h.evictLoop (Nat.le_of_eq h.nEntries.symm)
  rw [if_neg hle, if_neg hle, h.evictLoop?_eq hcap (Nat.le_of_eq h.nEntries.symm)]
  simp only [Option.bind_eq_bind, Option.bind_some]
  rw [hrep.reorganize?_eq (by simpa using hcap)]
  rfl

end Represents

/-! ## Sequences of calls -/

/-- A call of the interface of the dynamic table. -/
inductive TableCall
  | init (size : ℕ)
  | addEntry (name value : Bytes)
  | resize (newMaxSize : ℕ)
  deriving DecidableEq

/-- The calls considered: tables that fit into the buffer, and C strings whose entry is accounted for
in 16 bits. -/
def TableCall.Valid (capacity : ℕ) : TableCall → Prop
  | .init size => size ≤ capacity
  | .addEntry name value => NulFree name ∧ NulFree value ∧ name.length + value.length ≤ 65503
  | .resize _ => True

/-- One call, with its checks: the table and the return value. -/
def DynamicTable.call? (capacity : ℕ) (t : DynamicTable) : TableCall → Option (DynamicTable × ℤ)
  | .init size => do return (← t.init? capacity size, 0)
  | .addEntry name value => t.addEntry? capacity name value
  | .resize newMaxSize => t.resize? capacity newMaxSize

/-- A sequence of calls: the table and the values returned. -/
def DynamicTable.calls? (capacity : ℕ) : DynamicTable → List TableCall →
    Option (DynamicTable × List ℤ)
  | t, [] => some (t, [])
  | t, c :: cs => do
    let (t, rc) ← t.call? capacity c
    let (t, rcs) ← calls? capacity t cs
    return (t, rc :: rcs)

/-! ## The table of RFC 7541 -/

/-- `D'` is the longest run of newest entries of `D` of size at most `limit`. -/
structure Longest (limit : ℕ) (D D' : List Header) : Prop where
  newest : D' <+: D
  fits : tableSize D' ≤ limit
  longest : ∀ E, E <+: D → tableSize E ≤ limit → E <+: D'

/-- The abstract table: the limit of the settings, the maximum size and the entries, newest
first. -/
structure AbstractTable where
  limit : ℕ
  maxSize : ℕ
  entries : List Header

namespace AbstractTable

/-- A call on the abstract table and the value it returns. -/
inductive Step : AbstractTable → TableCall → ℤ → AbstractTable → Prop
  | init (a : AbstractTable) (size : ℕ) : Step a (.init size) 0 ⟨size, size, []⟩
  | addEntry {a : AbstractTable} {name value : Bytes} {D : List Header}
    (hfit : entrySize (name, value) ≤ a.maxSize)
    (h : Longest (a.maxSize - entrySize (name, value)) a.entries D) :
    Step a (.addEntry name value) 0 { a with entries := (name, value) :: D }
  | addRefused {a : AbstractTable} {name value : Bytes}
    (hfit : a.maxSize < entrySize (name, value)) : Step a (.addEntry name value) internalError a
  | resize {a : AbstractTable} {newMaxSize : ℕ} {D : List Header} (hle : newMaxSize ≤ a.limit)
    (h : Longest newMaxSize a.entries D) :
    Step a (.resize newMaxSize) 0 { a with maxSize := newMaxSize, entries := D }
  | resizeRefused {a : AbstractTable} {newMaxSize : ℕ} (hlt : a.limit < newMaxSize) :
    Step a (.resize newMaxSize) compressionError a

/-- A sequence of calls on the abstract table and the values they return. -/
inductive Steps : AbstractTable → List TableCall → List ℤ → AbstractTable → Prop
  | nil (a : AbstractTable) : Steps a [] [] a
  | cons {a b c : AbstractTable} {call : TableCall} {calls : List TableCall} {rc : ℤ} {rcs : List ℤ}
    (h : Step a call rc b) (hs : Steps b calls rcs c) : Steps a (call :: calls) (rc :: rcs) c

end AbstractTable

/-- What a caller sees of the table `t` is the abstract table `a`. -/
structure Agrees (capacity : ℕ) (t : DynamicTable) (a : AbstractTable) : Prop where
  lookup : ∀ k, t.findEntryNameAndValue? capacity (62 + k) =
    some (a.entries[k]?.elim (.error compressionError) .ok)
  lookupName : ∀ k, t.findEntryName? capacity (62 + k) =
    some ((a.entries[k]?.map Prod.fst).elim (.error compressionError) .ok)
  nEntries : t.nEntries = a.entries.length
  actualSize : t.actualSize = (a.entries.map fun e => e.1.length + e.2.length + 32).sum
  size_le : t.actualSize ≤ t.maxSize
  maxSize : t.maxSize = a.maxSize
  limit : t.settingsMaxTableSize = a.limit

/-! ## Refinement -/

/-- The table `t`, in a buffer of `capacity` bytes, holds the abstract table `a`. -/
structure Abstracts (capacity : ℕ) (t : DynamicTable) (a : AbstractTable) : Prop where
  represents : Represents t a.entries
  maxSize : t.maxSize = a.maxSize
  limit : t.settingsMaxTableSize = a.limit
  maxSize_le : a.maxSize ≤ capacity
  limit_le : a.limit ≤ capacity

/-- Eviction keeps the longest run of newest entries that fits. -/
theorem longest_evictTo (limit : ℕ) (D : List Header) : Longest limit D (evictTo limit D) := by
  refine ⟨ evictTo_initial limit D, tableSize_evictTo_le limit D, ?_⟩
  induction D generalizing limit with
  | nil =>
    rintro E hE -
    rw [List.prefix_nil.mp hE]
    exact List.prefix_rfl
  | cons e D ih =>
    rintro (_ | ⟨f, E⟩) hE hsize
    · exact List.nil_prefix
    · obtain ⟨rfl, hE'⟩ := List.cons_prefix_cons.mp hE
      rw [tableSize_cons] at hsize
      rw [evictTo, if_pos (by omega)]
      exact List.cons_prefix_cons.mpr ⟨rfl, ih _ E hE' (by omega)⟩

section Refinement

variable {capacity : ℕ} {t : DynamicTable} {a : AbstractTable}

theorem Abstracts.agrees (h : Abstracts capacity t a) : Agrees capacity t a := by
  have hcap : t.maxSize ≤ capacity := by rw [h.maxSize]; exact h.maxSize_le
  refine ⟨fun k => ?_, fun k => ?_, h.represents.nEntries, h.represents.actualSize, ?_, h.maxSize,
    h.limit⟩
  · rw [h.represents.findEntryNameAndValue?_eq hcap, h.represents.findEntryNameAndValue]
    cases a.entries[k]? <;> rfl
  · rw [h.represents.findEntryName?_eq hcap, h.represents.findEntryName]
    cases a.entries[k]? <;> rfl
  · rw [h.represents.actualSize]
    exact h.represents.size_le

/-- **One call** on a table is a step of the abstract table; a refused call changes nothing. -/
theorem Abstracts.call (hcap : capacity ≤ 32767) (h : Abstracts capacity t a) {c : TableCall}
    (hc : c.Valid capacity) :
    ∃ t' rc a', t.call? capacity c = some (t', rc) ∧ a.Step c rc a' ∧ Abstracts capacity t' a' ∧
      (rc ≠ 0 → t' = t) := by
  have hle : t.maxSize ≤ capacity := by rw [h.maxSize]; exact h.maxSize_le
  cases c with
  | init size =>
    have hle' : size ≤ capacity := hc
    have hsize : size % 2 ^ 16 = size := Nat.mod_eq_of_lt (by omega)
    refine ⟨t.init size, 0, ⟨size, size, []⟩, ?_, .init a size, ?_, fun h0 => absurd rfl h0⟩
    · rw [DynamicTable.call?, DynamicTable.init?, if_pos hle']
      rfl
    · exact ⟨.init t (by omega), hsize, hsize, hle', hle'⟩
  | addEntry name value =>
    -- the entry is added after the oldest were evicted, or refused if it is larger than the table
    obtain ⟨hn, hv, hlen⟩ := hc
    have h16 : name.length + value.length + 32 < 2 ^ 16 := by omega
    have heq := h.represents.addEntry?_eq hle h16
    by_cases hfit : entrySize (name, value) ≤ t.maxSize
    · obtain ⟨hrc, hrep⟩ := h.represents.addEntry (e := (name, value)) ⟨hn, hv⟩ hfit
      rw [← Prod.mk.eta (p := t.addEntry name value), hrc] at heq
      refine ⟨_, 0, _, heq, .addEntry (by rw [← h.maxSize]; exact hfit) (longest_evictTo _ _), ?_,
        fun h0 => absurd rfl h0⟩
      · rw [h.maxSize] at hrep
        refine ⟨hrep, ?_, ?_, h.maxSize_le, h.limit_le⟩
        · rw [t.addEntry_maxSize h16, h.maxSize]
        · rw [t.addEntry_settingsMaxTableSize h16, h.limit]
    · have hadd := t.addEntry_of_gt h16 (Nat.lt_of_not_le hfit)
      refine ⟨t, internalError, a, heq.trans (congrArg some hadd), .addRefused ?_, h, fun _ => rfl⟩
      rw [← h.maxSize]
      exact Nat.lt_of_not_le hfit
  | resize newMaxSize =>
    -- the oldest entries that do not fit are evicted; a size above the limit is refused
    have heq := h.represents.resize?_eq hle newMaxSize
    by_cases hlim : newMaxSize ≤ t.settingsMaxTableSize
    · obtain ⟨hrc, hrep⟩ := h.represents.resize hlim
      have hlim' : newMaxSize ≤ a.limit := by rw [← h.limit]; exact hlim
      have hcap' := h.limit_le
      rw [← Prod.mk.eta (p := t.resize newMaxSize), hrc] at heq
      refine ⟨_, 0, _, heq, .resize hlim' (longest_evictTo _ _), ?_, fun h0 => absurd rfl h0⟩
      · refine ⟨hrep, ?_, ?_, by simp only; omega, h.limit_le⟩
        · rw [DynamicTable.resize, if_neg (by omega)]
          exact Nat.mod_eq_of_lt (by omega)
        · rw [DynamicTable.resize, if_neg (by omega)]
          simp [h.limit]
    · have hres : t.resize newMaxSize = (t, compressionError) := by
        rw [DynamicTable.resize, if_pos (by omega)]
      refine ⟨t, compressionError, a, heq.trans (congrArg some hres), .resizeRefused ?_, h,
        fun _ => rfl⟩
      rw [← h.limit]
      omega

theorem Abstracts.calls (hcap : capacity ≤ 32767) :
    ∀ {calls : List TableCall} {t : DynamicTable} {a : AbstractTable}, Abstracts capacity t a →
      (∀ c ∈ calls, c.Valid capacity) →
      ∃ t' rcs a', t.calls? capacity calls = some (t', rcs) ∧ a.Steps calls rcs a' ∧
        Abstracts capacity t' a' := by
  intro calls
  induction calls with
  | nil => exact fun {t a} h _ => ⟨t, [], a, rfl, .nil a, h⟩
  | cons c calls ih =>
    intro t a h hvalid
    obtain ⟨t₁, rc, a₁, hcall, hstep, h₁, -⟩ := h.call hcap (hvalid c List.mem_cons_self)
    obtain ⟨t₂, rcs, a₂, hcalls, hsteps, h₂⟩ :=
      ih h₁ fun d hd => hvalid d (List.mem_cons_of_mem _ hd)
    refine ⟨t₂, rc :: rcs, a₂, ?_, .cons hstep hsteps, h₂⟩
    rw [DynamicTable.calls?, hcall]
    simp only [Option.bind_eq_bind, Option.bind_some, hcalls]
    rfl

/-- **The dynamic table is the table of RFC 7541.** Over any memory, every sequence of calls is
carried out with every access in the buffer, no modulus by zero and every eviction loop ended; it
returns what the abstract table returns, and leaves a table on which lookups, counters and sizes are
those of the abstract table, and on which a further call that fails changes nothing. -/
theorem calls_refine (hcap : capacity ≤ 32767) (memory : DynamicTable) {size : ℕ}
    (hsize : size ≤ capacity) {calls : List TableCall} (hvalid : ∀ c ∈ calls, c.Valid capacity) :
    ∃ t₀ t rcs a, memory.init? capacity size = some t₀ ∧
      t₀.calls? capacity calls = some (t, rcs) ∧
      AbstractTable.Steps ⟨size, size, []⟩ calls rcs a ∧ Agrees capacity t a ∧
      ∀ c : TableCall, c.Valid capacity → ∃ t' rc, t.call? capacity c = some (t', rc) ∧
        (rc ≠ 0 → t' = t) := by
  have hmod : size % 2 ^ 16 = size := Nat.mod_eq_of_lt (by omega)
  have h₀ : Abstracts capacity (memory.init size) ⟨size, size, []⟩ :=
    ⟨.init memory (by omega), hmod, hmod, hsize, hsize⟩
  obtain ⟨t, rcs, a, hcalls, hsteps, h⟩ := h₀.calls hcap hvalid
  refine ⟨memory.init size, t, rcs, a, if_pos hsize, hcalls, hsteps, h.agrees, fun c hc => ?_⟩
  obtain ⟨t', rc, -, hcall, -, -, hkeep⟩ := h.call hcap hc
  exact ⟨t', rc, hcall, hkeep⟩

/-- Additions, one of them refused, and resizes, one of them refused. -/
def mixedCalls : List TableCall :=
  [.addEntry [97] [98], .addEntry [99, 100] [101], .resize 40, .addEntry (List.replicate 9 120) [],
    .resize 71, .resize 70]

theorem mixedCalls_refine :
    ∃ t₀ t rcs a, DynamicTable.init? 70 ⟨0, 0, 0, 0, 0, 0, fun _ => 7⟩ 70 = some t₀ ∧
      t₀.calls? 70 mixedCalls = some (t, rcs) ∧
      AbstractTable.Steps ⟨70, 70, []⟩ mixedCalls rcs a ∧ Agrees 70 t a ∧
      ∀ c : TableCall, c.Valid 70 → ∃ t' rc, t.call? 70 c = some (t', rc) ∧ (rc ≠ 0 → t' = t) := by
  refine calls_refine (by decide) ⟨0, 0, 0, 0, 0, 0, fun _ => 7⟩ (le_refl 70) ?_
  simp only [mixedCalls, List.mem_cons, List.not_mem_nil, or_false]
  rintro c (rfl | rfl | rfl | rfl | rfl | rfl)
  · exact ⟨by decide, by decide, by decide⟩
  · exact ⟨by decide, by decide, by decide⟩
  · trivial
  · exact ⟨by decide, by decide, by decide⟩
  · trivial
  · trivial

end Refinement

end Two.Hpack
