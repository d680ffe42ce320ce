import Mathlib.Data.List.Induction
import Two.Library.Ring
import Two.Hpack.Tables

/-!
# The contents of the dynamic table

The ring of the dynamic table represents the list of its entries, newest first. Every operation on
the ring is the operation of RFC 7541 on the list.

## Main definitions

* `tableSize D`, `evictTo limit D`: the accounted size of a list of entries, and its longest
  beginning of at most that size
* `content D`: the bytes of the ring from `first` to `next`
* `Represents t D`: the table `t` holds the entries `D`

## Main results

* `Represents.pop`, `Represents.evictLoop`: eviction removes the oldest entries
* `Represents.addEntry`: addition evicts, then puts the entry in front
* `Represents.resize`: resizing evicts and keeps the rest
-/

namespace Two.Hpack

open HeaderList (packed records packedSize packedSize_nil packedSize_cons packedSize_append packedSize_reverse)

/-- The size of an entry as accounted by RFC 7541. -/
def entrySize (e : Header) : ℕ := e.1.length + e.2.length + 32

/-- The accounted size of a list of entries. -/
def tableSize (D : List Header) : ℕ := (D.map entrySize).sum

/-- The longest beginning of a list of entries, newest first, of size at most `limit`. -/
def evictTo : ℕ → List Header → List Header
  | _, [] => []
  | limit, e :: D => if entrySize e ≤ limit then e :: evictTo (limit - entrySize e) D else []

/-- The bytes from `first` to `next`: a NUL, then the entries from the oldest to the newest. -/
def content (D : List Header) : Bytes := 0 :: records D.reverse

/-- The table `t` holds the entries `D`, newest first. The ring of a table without entries holds
nothing that is ever read. -/
structure Represents (t : DynamicTable) (D : List Header) : Prop where
  maxSize_lt : t.maxSize < 2 ^ 15
  limit_lt : t.settingsMaxTableSize < 2 ^ 15
  first_lt : t.first < t.maxSize ∨ t.maxSize = 0 ∧ t.first = 0
  next_eq : t.next = (t.first + packedSize D) % t.maxSize
  nulFree : ∀ e ∈ D, NulFree e.1 ∧ NulFree e.2
  actualSize : t.actualSize = tableSize D
  size_le : tableSize D ≤ t.maxSize
  nEntries : t.nEntries = D.length
  lies : D ≠ [] → Ring.Lies t.buffer t.maxSize t.first (content D)

/-! ## Lists of entries -/

section Lists

variable {limit : ℕ} {e : Header} {D : List Header}

@[simp] theorem tableSize_nil : tableSize [] = 0 := rfl

@[simp] theorem tableSize_cons : tableSize (e :: D) = entrySize e + tableSize D := by
  simp [tableSize]

@[simp] theorem tableSize_append (D D' : List Header) :
    tableSize (D ++ D') = tableSize D + tableSize D' := by simp [tableSize]

/-- The ring needs thirty bytes less than accounted for each entry. -/
theorem packedSize_add (D : List Header) : packedSize D + 30 * D.length = tableSize D := by
  induction D with
  | nil => rfl
  | cons e D ih =>
    simp only [packedSize_cons, tableSize_cons, entrySize, List.length_cons]
    omega

theorem evictTo_of_le (h : tableSize D ≤ limit) : evictTo limit D = D := by
  induction D generalizing limit with
  | nil => rfl
  | cons e D ih =>
    rw [tableSize_cons] at h
    rw [evictTo, if_pos (by omega), ih (by omega)]

/-- An oldest entry that does not fit is evicted first. -/
theorem evictTo_concat (h : limit < tableSize (D ++ [e])) :
    evictTo limit (D ++ [e]) = evictTo limit D := by
  induction D generalizing limit with
  | nil =>
    have : ¬ entrySize e ≤ limit := by simpa [tableSize] using h
    simp [evictTo, this]
  | cons f D ih =>
    rw [List.cons_append, tableSize_cons] at h
    rw [List.cons_append, evictTo, evictTo]
    by_cases hf : entrySize f ≤ limit
    · rw [if_pos hf, if_pos hf, ih (by omega)]
    · rw [if_neg hf, if_neg hf]

theorem tableSize_evictTo_le (limit : ℕ) (D : List Header) : tableSize (evictTo limit D) ≤ limit := by
  induction D generalizing limit with
  | nil => exact Nat.zero_le _
  | cons e D ih =>
    rw [evictTo]
    split
    · have := ih (limit - entrySize e)
      rw [tableSize_cons]
      omega
    · exact Nat.zero_le _

theorem evictTo_initial (limit : ℕ) (D : List Header) : evictTo limit D <+: D := by
  induction D generalizing limit with
  | nil => exact List.prefix_rfl
  | cons e D ih =>
    rw [evictTo]
    split
    · exact List.cons_prefix_cons.mpr ⟨rfl, ih _⟩
    · exact List.nil_prefix

theorem content_cons (e : Header) (D : List Header) : content (e :: D) = content D ++ packed e := by
  simp [content]

theorem length_content (D : List Header) : (content D).length = packedSize D + 1 := by
  rw [content, List.length_cons, ← packedSize_reverse]
  rfl

/-- The contents end with a NUL. -/
theorem exists_content_eq (D : List Header) :
    ∃ xs : Bytes, content D = xs ++ [0] ∧ xs.length = packedSize D := by
  have hne : content D ≠ [] := by simp [content]
  have hlast : (content D).getLast hne = 0 := by
    cases D with
    | nil => rfl
    | cons e D => simp [content_cons, packed]
  refine ⟨(content D).dropLast, ?_, ?_⟩
  · conv_lhs => rw [← List.dropLast_append_getLast hne, hlast]
  · rw [List.length_dropLast, length_content, Nat.add_sub_cancel]

end Lists

namespace DynamicTable

variable (t : DynamicTable)

theorem cell_eq (k : ℕ) : t.cell k = t.buffer (k % t.maxSize) := rfl

theorem cell_add_maxSize (k : ℕ) : t.cell (k + t.maxSize) = t.buffer (k % t.maxSize) := by
  rw [cell_eq, Nat.add_mod_right]

/-! ## Eviction -/

/-- The loop of `pop` counts the characters of a string. -/
theorem popLoop_skip {s : Bytes} (hs : NulFree s) (fuel : ℕ) {i : ℕ}
    (h : Ring.Lies t.buffer t.maxSize (t.first + i) s) (n c : ℕ) :
    t.popLoop (s.length + fuel) i n c = t.popLoop fuel (i + s.length) (n + s.length) c := by
  induction s generalizing i n with
  | nil => simp
  | cons b s ih =>
    obtain ⟨hb, hs⟩ := nulFree_cons.mp hs
    rw [List.length_cons, show s.length + 1 + fuel = s.length + fuel + 1 by omega, popLoop,
      cell_add_maxSize, h.head, if_neg hb, ih hs (by simpa [Nat.add_assoc] using h.tail)]
    congr 1 <;> omega

/-- The loop of `pop` finds the end of the oldest entry. -/
theorem popLoop_packed {e : Header} (he : NulFree e.1 ∧ NulFree e.2) (fuel : ℕ)
    (h : Ring.Lies t.buffer t.maxSize (t.first + 1) (packed e)) (hf : (packed e).length ≤ fuel) :
    t.popLoop fuel 1 0 0 = some ((packed e).length, e.1.length + e.2.length) := by
  rw [HeaderList.length_packed] at hf ⊢
  obtain ⟨f, rfl⟩ : ∃ f, fuel = e.1.length + (e.2.length + (f + 1) + 1) :=
    ⟨fuel - (e.1.length + e.2.length + 2), by omega⟩
  have hn : Ring.Lies t.buffer t.maxSize (t.first + 1) e.1 := h.left
  have hz := h.right
  have hv : Ring.Lies t.buffer t.maxSize (t.first + (1 + e.1.length + 1)) e.2 := by
    have := hz.tail.left
    rwa [show t.first + 1 + e.1.length + 1 = t.first + (1 + e.1.length + 1) by omega] at this
  have hend := hz.tail.right.head
  rw [t.popLoop_skip he.1 _ hn, popLoop, cell_add_maxSize, ← Nat.add_assoc, hz.head, if_pos rfl,
    if_neg (by omega), t.popLoop_skip he.2 _ hv, popLoop, cell_add_maxSize,
    show t.first + (1 + e.1.length + 1 + e.2.length) =
      t.first + 1 + e.1.length + 1 + e.2.length by omega, hend, if_pos rfl, if_pos rfl]
  congr 2 <;> omega

@[simp] theorem pop_maxSize : t.pop.maxSize = t.maxSize := by
  rw [pop]; repeat' split
  all_goals rfl

@[simp] theorem pop_settingsMaxTableSize :
    t.pop.settingsMaxTableSize = t.settingsMaxTableSize := by
  rw [pop]; repeat' split
  all_goals rfl

@[simp] theorem pop_next : t.pop.next = t.next := by
  rw [pop]; repeat' split
  all_goals rfl

@[simp] theorem evictLoop_maxSize (limit fuel : ℕ) (t : DynamicTable) :
    (evictLoop limit fuel t).maxSize = t.maxSize := by
  induction fuel generalizing t with
  | zero => rfl
  | succ fuel ih => rw [evictLoop]; split <;> simp [ih]

@[simp] theorem evictLoop_next (limit fuel : ℕ) (t : DynamicTable) :
    (evictLoop limit fuel t).next = t.next := by
  induction fuel generalizing t with
  | zero => rfl
  | succ fuel ih => rw [evictLoop]; split <;> simp [ih]

end DynamicTable

namespace Represents

variable {t : DynamicTable} {D : List Header} {e : Header}

/-- The entries fit into the ring. -/
theorem packedSize_lt (h : Represents t D) (hD : D ≠ []) : packedSize D + 30 ≤ t.maxSize := by
  have h1 := packedSize_add D
  have h2 := h.size_le
  have h3 := List.length_pos_of_ne_nil hD
  omega

/-- **The oldest entry is removed.** -/
theorem pop (h : Represents t (D ++ [e])) : Represents t.pop D := by
  have hne : D ++ [e] ≠ [] := by simp
  have hlt := h.packedSize_lt hne
  have he := h.nulFree e (by simp)
  have hsize := h.actualSize
  have hle := h.size_le
  have h15 := h.maxSize_lt
  rw [tableSize_append] at hsize hle
  simp only [tableSize_cons, tableSize_nil, entrySize] at hsize hle
  rw [packedSize_append] at hlt
  simp only [packedSize_cons, packedSize_nil] at hlt
  have hcontent : content (D ++ [e]) = (0 :: packed e) ++ records D.reverse := by simp [content]
  have hlies := h.lies hne
  rw [hcontent] at hlies
  have hloop := t.popLoop_packed he (t.maxSize - 1) hlies.left.tail
    (by rw [HeaderList.length_packed]; omega)
  have hpop : t.pop = { t with
      first := (t.first + (packed e).length + t.maxSize) % t.maxSize
      actualSize := (t.actualSize + 2 ^ 16 - (e.1.length + e.2.length + 32)) % 2 ^ 16
      nEntries := t.nEntries - 1 } := by
    rw [DynamicTable.pop, if_neg (by rw [h.nEntries]; simp), hloop]
  rw [hpop, HeaderList.length_packed]
  refine ⟨h15, h.limit_lt, Or.inl (Nat.mod_lt _ (by omega)), ?_, ?_, ?_, ?_, ?_, ?_⟩
  · have := h.next_eq
    rw [packedSize_append] at this
    simp only [packedSize_cons, packedSize_nil] at this
    simp only
    rw [this, Nat.add_mod_right, Nat.mod_add_mod]
    congr 1
    omega
  · exact fun f hf => h.nulFree f (List.mem_append_left _ hf)
  · simp only
    omega
  · simp only
    omega
  · simp only [h.nEntries, List.length_append, List.length_singleton, Nat.add_sub_cancel]
  · intro _
    simp only
    rw [Nat.add_mod_right, Ring.lies_mod]
    -- the last NUL of the entry removed is the NUL before the next entry
    have hsplit : (0 :: packed e) ++ records D.reverse = (0 :: e.1 ++ 0 :: e.2) ++ content D := by
      simp [packed, content]
    rw [hsplit] at hlies
    have := hlies.right
    simp only [List.length_append, List.length_cons] at this
    rwa [show t.first + (e.1.length + 1 + (e.2.length + 1)) =
      t.first + (e.1.length + e.2.length + 2) by omega] at this

/-- **Eviction** keeps the longest beginning that fits. -/
theorem evictLoop {limit : ℕ} :
    ∀ {D : List Header} {fuel : ℕ} {t : DynamicTable}, Represents t D → D.length ≤ fuel →
      Represents (DynamicTable.evictLoop limit fuel t) (evictTo limit D) := by
  intro D
  induction D using List.reverseRecOn with
  | nil =>
    intro fuel t h _
    cases fuel with
    | zero => exact h
    | succ fuel =>
      rw [DynamicTable.evictLoop, if_neg (by rw [h.actualSize]; simp)]
      exact h
  | append_singleton D e ih =>
    intro fuel t h hf
    rw [List.length_append, List.length_singleton] at hf
    obtain ⟨fuel, rfl⟩ : ∃ f, fuel = f + 1 := ⟨fuel - 1, by omega⟩
    rw [DynamicTable.evictLoop, h.actualSize]
    by_cases hl : tableSize (D ++ [e]) > limit
    · rw [if_pos hl, evictTo_concat hl]
      exact ih h.pop (by omega)
    · rw [if_neg hl, evictTo_of_le (by omega)]
      exact h

end Represents

/-! ## Addition -/

namespace DynamicTable

variable (t : DynamicTable)

/-- The copying loop writes the string and a NUL. -/
theorem copyFromExtLoop_eq {s : Bytes} (pos : ℕ) {fuel : ℕ} (i : ℕ) (hf : s.length < fuel) :
    copyFromExtLoop pos fuel i s t =
      ({ t with buffer := Ring.write t.buffer t.maxSize (t.next + pos + i) (s ++ [0]) },
        ((pos + i + s.length : ℕ) : ℤ)) := by
  induction s generalizing fuel i t with
  | nil =>
    obtain ⟨fuel, rfl⟩ : ∃ f, fuel = f + 1 := ⟨fuel - 1, by simp at hf; omega⟩
    rw [copyFromExtLoop, put, Nat.add_mod_right]
    simp [Ring.write]
  | cons b s ih =>
    rw [List.length_cons] at hf
    obtain ⟨fuel, rfl⟩ : ∃ f, fuel = f + 1 := ⟨fuel - 1, by omega⟩
    rw [copyFromExtLoop, ih _ _ (by omega), put, Nat.add_mod_right, List.cons_append, Ring.write,
      List.length_cons]
    refine Prod.ext rfl ?_
    simp only
    omega

/-- Copying a string into the table writes it between two NULs. -/
theorem copyFromExt_eq {s : Bytes} (pos : ℕ) (hs : s.length + 1 < t.maxSize) :
    t.copyFromExt pos s =
      ({ t with buffer := Ring.write t.buffer t.maxSize (t.next + pos) (0 :: (s ++ [0])) },
        ((pos + 1 + s.length : ℕ) : ℤ)) := by
  rw [copyFromExt, copyFromExtLoop_eq _ _ _ (by omega), put, Nat.add_mod_right, Ring.write]

/-- `addEntry` when the entry fits: eviction, then the two strings behind `next`. -/
theorem addEntry_eq (name value : Bytes) (h16 : name.length + value.length + 32 < 2 ^ 16)
    (hfit : name.length + value.length + 32 ≤ t.maxSize) :
    ∃ t', t' = evictLoop (t.maxSize - (name.length + value.length + 32)) t.nEntries t ∧
      t.addEntry name value =
        ({ t' with
          buffer := Ring.write (Ring.write t'.buffer t'.maxSize t'.next (0 :: (name ++ [0])))
            t'.maxSize (t'.next + (1 + name.length)) (0 :: (value ++ [0]))
          nEntries := (t'.nEntries + 1) % 2 ^ 16
          actualSize := (t'.actualSize + (name.length + value.length + 32)) % 2 ^ 16
          next := (t'.next + (1 + name.length + 1 + value.length) + t'.maxSize) % t'.maxSize }, 0) := by
  refine ⟨_, rfl, ?_⟩
  have hmod : (name.length + value.length + 32) % 2 ^ 16 = name.length + value.length + 32 :=
    Nat.mod_eq_of_lt h16
  rw [addEntry]
  simp only [hmod]
  rw [if_neg (by omega)]
  generalize ht' : evictLoop (t.maxSize - (name.length + value.length + 32)) t.nEntries t = t'
  have hmax : t'.maxSize = t.maxSize := by rw [← ht', evictLoop_maxSize]
  -- both strings are shorter than the ring, so neither copy reports an error
  have h1 := t'.copyFromExt_eq (s := name) 0 (by omega)
  rw [h1]
  simp only [Nat.zero_add, Nat.add_zero, Int.toNat_natCast]
  rw [if_neg (by omega), copyFromExt_eq _ _ (by simp only; omega)]
  simp only [Int.toNat_natCast]
  rw [if_neg (by omega)]

/-- `addEntry` when the entry does not fit: nothing happens. -/
theorem addEntry_of_gt {name value : Bytes} (h16 : name.length + value.length + 32 < 2 ^ 16)
    (hfit : t.maxSize < name.length + value.length + 32) :
    t.addEntry name value = (t, internalError) := by
  rw [addEntry]
  simp only [Nat.mod_eq_of_lt h16]
  rw [if_pos hfit]

end DynamicTable

namespace Represents

variable {t : DynamicTable} {D : List Header} {e : Header}

/-- **An entry that fits** is put in front of the entries that fit beside it. -/
theorem addEntry (h : Represents t D) (he : NulFree e.1 ∧ NulFree e.2)
    (hfit : entrySize e ≤ t.maxSize) :
    (t.addEntry e.1 e.2).2 = 0 ∧
      Represents (t.addEntry e.1 e.2).1 (e :: evictTo (t.maxSize - entrySize e) D) := by
  have h15 := h.maxSize_lt
  rw [entrySize] at hfit ⊢
  obtain ⟨t', ht', heq⟩ := t.addEntry_eq e.1 e.2 (by omega) hfit
  have hrep : Represents t' (evictTo (t.maxSize - (e.1.length + e.2.length + 32)) D) := by
    rw [ht']
    exact h.evictLoop (Nat.le_of_eq h.nEntries.symm)
  have hmax : t'.maxSize = t.maxSize := by rw [ht', DynamicTable.evictLoop_maxSize]
  have hle := tableSize_evictTo_le (t.maxSize - (e.1.length + e.2.length + 32)) D
  generalize evictTo (t.maxSize - (e.1.length + e.2.length + 32)) D = D' at hrep hle
  have hsum := packedSize_add D'
  have hnext := hrep.next_eq
  obtain ⟨xs, hxs, hlen⟩ := exists_content_eq D'
  rw [heq]
  refine ⟨rfl, by simp only; omega, hrep.limit_lt, hrep.first_lt, ?_, ?_, ?_, ?_, ?_, ?_⟩
  · simp only [packedSize_cons]
    rw [hnext, Nat.add_mod_right, Nat.mod_add_mod]
    congr 1
    omega
  · intro f hf
    rcases List.mem_cons.mp hf with rfl | hf
    · exact he
    · exact hrep.nulFree f hf
  · simp only [tableSize_cons, entrySize, hrep.actualSize]
    omega
  · simp only [tableSize_cons, entrySize]
    omega
  · simp only [hrep.nEntries, List.length_cons]
    omega
  · intro _
    simp only
    -- the new strings stand from the NUL at the end of the old contents on
    have hcontent : content (e :: D') = xs ++ ((0 :: e.1) ++ (0 :: (e.2 ++ [0]))) := by
      rw [content_cons, hxs, packed]
      simp
    rw [hcontent]
    have hpos : t'.next % t'.maxSize = (t'.first + xs.length) % t'.maxSize := by
      rw [hnext, hlen, Nat.mod_mod]
    rw [Ring.write_congr hpos, Ring.write_congr (k := t'.next + (1 + e.1.length))
      (l := t'.first + xs.length + (1 + e.1.length))
      (by rw [Nat.add_mod, hpos, ← Nat.add_mod])]
    refine Ring.Lies.append ?_ (Ring.Lies.append ?_ ?_)
    · have hold : Ring.Lies t'.buffer t'.maxSize t'.first xs := by
        by_cases hD : D' = []
        · subst hD
          obtain rfl : xs = [] := List.eq_nil_of_length_eq_zero hlen
          exact Ring.lies_nil _ _ _
        · have := hrep.lies hD
          rw [hxs] at this
          exact this.left
      refine (hold.write (by omega) ?_).write (by omega) ?_
      all_goals
        simp only [List.length_cons, List.length_append, List.length_nil]
        omega
    · refine Ring.Lies.write ?_ (by simp only [List.length_cons]; omega) ?_
      · have hw : Ring.Lies
            (Ring.write t'.buffer t'.maxSize (t'.first + xs.length) (0 :: (e.1 ++ [0])))
            t'.maxSize (t'.first + xs.length) ((0 :: e.1) ++ [0]) :=
          Ring.lies_write
            (by simp only [List.length_cons, List.length_append, List.length_nil]; omega)
        exact hw.left
      · simp only [List.length_cons, List.length_append, List.length_nil]
        omega
    · rw [List.length_cons, Nat.add_comm e.1.length 1]
      exact Ring.lies_write
        (by simp only [List.length_cons, List.length_append, List.length_nil]; omega)

/-- **An entry that does not fit** leaves the table as it is. -/
theorem addEntry_of_gt (h16 : entrySize e < 2 ^ 16) (hfit : t.maxSize < entrySize e) :
    t.addEntry e.1 e.2 = (t, internalError) := DynamicTable.addEntry_of_gt t h16 hfit

end Represents

/-! ## Resizing -/

namespace DynamicTable

/-- Moving cells to the left, reading ahead of the cells written. -/
theorem copyUp_shift (shift n : ℕ) (buffer : ℕ → UInt8) (j : ℕ) :
    copyUp (fun b i => b (i + shift)) 0 n buffer j = if j < n then buffer (j + shift) else buffer j := by
  induction n generalizing j with
  | zero => rfl
  | succ n ih =>
    simp only [copyUp, Nat.zero_add]
    by_cases hj : j = n
    · subst hj
      rw [Function.update_self, ih, if_neg (by omega), if_pos (by omega)]
    · rw [Function.update_of_ne hj, ih]
      by_cases hlt : j < n
      · rw [if_pos hlt, if_pos (by omega)]
      · rw [if_neg hlt, if_neg (by omega)]

/-- Copying from a fixed source. -/
theorem copyUp_const (source : ℕ → UInt8) (target n : ℕ) (buffer : ℕ → UInt8) (j : ℕ) :
    copyUp (fun _ i => source i) target n buffer j =
      if target ≤ j ∧ j < target + n then source (j - target) else buffer j := by
  induction n generalizing j with
  | zero => rw [if_neg (by omega)]; rfl
  | succ n ih =>
    simp only [copyUp]
    by_cases hj : j = target + n
    · subst hj
      rw [Function.update_self, if_pos (by omega), Nat.add_sub_cancel_left]
    · rw [Function.update_of_ne hj, ih]
      by_cases hin : target ≤ j ∧ j < target + n
      · rw [if_pos hin, if_pos (by omega)]
      · rw [if_neg hin, if_neg (by omega)]

/-- Moving cells to the right, from right to left. -/
theorem copyDown_eq (next shift n : ℕ) (hn : n ≤ next + 1) (buffer : ℕ → UInt8) (j : ℕ) :
    copyDown next shift n buffer j =
      if next + 1 - n + shift ≤ j ∧ j ≤ next + shift then buffer (j - shift) else buffer j := by
  induction n generalizing j with
  | zero => rw [if_neg (by omega)]; rfl
  | succ n ih =>
    have ih := ih (by omega)
    simp only [copyDown]
    by_cases hj : j = next - n + shift
    · subst hj
      rw [Function.update_self, ih, if_neg (by omega), if_pos (by omega), Nat.add_sub_cancel]
    · rw [Function.update_of_ne hj, ih]
      by_cases hin : next + 1 - n + shift ≤ j ∧ j ≤ next + shift
      · rw [if_pos hin, if_pos (by omega)]
      · rw [if_neg hin, if_neg (by omega)]

/-- **Reorganising** moves the cells from `first` to `next`, of which there are `n + 1`, to the start
of the buffer. -/
theorem reorganize_eq {t : DynamicTable} {n : ℕ} (hne : t.nEntries ≠ 0) (h0 : 0 < n)
    (hn : n < t.maxSize) (hfirst : t.first < t.maxSize)
    (hnext : t.next = (t.first + n) % t.maxSize) :
    ∃ buffer, t.reorganize = { t with first := 0, next := n, buffer := buffer } ∧
      ∀ j ≤ n, buffer j = t.buffer ((t.first + j) % t.maxSize) := by
  rw [reorganize]
  rcases Nat.lt_or_ge (t.first + n) t.maxSize with hlt | hge
  · -- the entries do not wrap around
    rw [Nat.mod_eq_of_lt hlt] at hnext
    rw [if_neg (by omega), hnext, show t.first + n - t.first = n by omega]
    refine ⟨_, rfl, fun j hj => ?_⟩
    have := copyUp_shift t.first (n + 1) t.buffer j
    simp only [Nat.add_comm _ t.first] at this
    rw [this, if_pos (by omega), Nat.mod_eq_of_lt (by omega)]
  · have hnext : t.next = t.first + n - t.maxSize := by
      rw [hnext, Nat.mod_eq_sub_mod hge, Nat.mod_eq_of_lt (by omega)]
    have hsum : t.maxSize - t.first + t.next = n := by omega
    have hlow : ∀ j < t.maxSize - t.first, (t.first + j) % t.maxSize = j + t.first := fun j hj => by
      rw [Nat.mod_eq_of_lt (by omega), Nat.add_comm]
    have hhigh : ∀ j ≤ n, t.maxSize - t.first ≤ j →
        (t.first + j) % t.maxSize = j - (t.maxSize - t.first) := fun j hj hge => by
      rw [Nat.mod_eq_sub_mod (by omega), Nat.mod_eq_of_lt (by omega)]
      omega
    rw [if_pos (by omega), if_neg hne]
    simp only [hsum]
    -- the shorter part goes through the auxiliary buffer, the other one is moved in place
    split
    · refine ⟨_, rfl, fun j hj => ?_⟩
      rw [copyUp_const]
      by_cases hj' : t.maxSize - t.first ≤ j
      · rw [if_pos (by omega), hhigh j hj hj']
      · rw [if_neg (by omega), copyUp_shift, if_pos (by omega), hlow j (by omega)]
    · refine ⟨_, rfl, fun j hj => ?_⟩
      rw [copyUp_const]
      by_cases hj' : t.maxSize - t.first ≤ j
      · rw [if_neg (by omega), copyDown_eq _ _ _ (by omega), if_pos (by omega), hhigh j hj hj']
      · rw [if_pos (by omega), hlow j (by omega), Nat.sub_zero, Nat.add_comm]

@[simp] theorem reorganize_settingsMaxTableSize (t : DynamicTable) :
    t.reorganize.settingsMaxTableSize = t.settingsMaxTableSize := by
  simp only [reorganize]
  repeat' split
  all_goals rfl

@[simp] theorem evictLoop_settingsMaxTableSize (limit fuel : ℕ) (t : DynamicTable) :
    (evictLoop limit fuel t).settingsMaxTableSize = t.settingsMaxTableSize := by
  induction fuel generalizing t with
  | zero => rfl
  | succ fuel ih => rw [evictLoop]; split <;> simp [ih]

@[simp] theorem addEntry_settingsMaxTableSize (t : DynamicTable) {name value : Bytes}
    (h16 : name.length + value.length + 32 < 2 ^ 16) :
    (t.addEntry name value).1.settingsMaxTableSize = t.settingsMaxTableSize := by
  by_cases hfit : name.length + value.length + 32 ≤ t.maxSize
  · obtain ⟨t', ht', heq⟩ := t.addEntry_eq _ _ h16 hfit
    rw [heq, ht']
    exact DynamicTable.evictLoop_settingsMaxTableSize _ _ _
  · rw [t.addEntry_of_gt h16 (by omega)]

@[simp] theorem addEntry_maxSize (t : DynamicTable) {name value : Bytes}
    (h16 : name.length + value.length + 32 < 2 ^ 16) :
    (t.addEntry name value).1.maxSize = t.maxSize := by
  by_cases hfit : name.length + value.length + 32 ≤ t.maxSize
  · obtain ⟨t', ht', heq⟩ := t.addEntry_eq _ _ h16 hfit
    rw [heq, ht']
    exact DynamicTable.evictLoop_maxSize _ _ _
  · rw [t.addEntry_of_gt h16 (by omega)]

end DynamicTable

namespace Represents

variable {t : DynamicTable} {D : List Header}

/-- A table whose entries were evicted to `newMaxSize` can be given that size. -/
theorem reorganize (h : Represents t D) {newMaxSize : ℕ} (hn : newMaxSize < 2 ^ 15)
    (hD : tableSize D ≤ newMaxSize) :
    Represents { t.reorganize with maxSize := newMaxSize } D := by
  by_cases hnil : D = []
  -- without entries the ring begins at 0 again
  · subst hnil
    have hre : ∃ buffer, t.reorganize = { t with first := 0, next := 0, buffer := buffer } := by
      have hnext : t.next = t.first := by
        have := h.next_eq
        rw [packedSize_nil, Nat.add_zero] at this
        rcases h.first_lt with hf | ⟨h0, hf⟩
        · rw [this, Nat.mod_eq_of_lt hf]
        · rw [this, h0, hf]
      rw [DynamicTable.reorganize, if_pos (by omega), if_pos (by rw [h.nEntries]; rfl)]
      exact ⟨t.buffer, rfl⟩
    obtain ⟨buffer, hre⟩ := hre
    rw [hre]
    refine ⟨hn, h.limit_lt, ?_, by simp, h.nulFree, h.actualSize, hD, h.nEntries,
      fun hne => absurd rfl hne⟩
    exact (Nat.eq_zero_or_pos newMaxSize).elim (fun h0 => Or.inr ⟨h0, rfl⟩) Or.inl
  -- else the entries are moved to the beginning of the buffer, in their order
  · have hlt := h.packedSize_lt hnil
    have hpos : 0 < packedSize D := by
      obtain ⟨e, D', rfl⟩ := List.exists_cons_of_ne_nil hnil
      rw [packedSize_cons]
      omega
    have hsum := packedSize_add D
    have hlen := List.length_pos_of_ne_nil hnil
    obtain ⟨buffer, hre, hcells⟩ := DynamicTable.reorganize_eq (t := t) (n := packedSize D)
      (by rw [h.nEntries]; omega) hpos (by omega)
      (h.first_lt.resolve_right (by omega)) h.next_eq
    rw [hre]
    refine ⟨hn, h.limit_lt, Or.inl (by simp only; omega), ?_, h.nulFree, h.actualSize, hD,
      h.nEntries, fun _ => ?_⟩
    · simp only [Nat.zero_add]
      rw [Nat.mod_eq_of_lt (by omega)]
    · intro j x hj
      obtain ⟨hlt', -⟩ := List.getElem?_eq_some_iff.mp hj
      rw [length_content] at hlt'
      simp only
      rw [Nat.zero_add, Nat.mod_eq_of_lt (by omega), hcells j (by omega)]
      exact h.lies hnil j x hj

/-- **Resizing** within the limit of the settings evicts and keeps the rest. -/
theorem resize (h : Represents t D) {newMaxSize : ℕ} (hn : newMaxSize ≤ t.settingsMaxTableSize) :
    (t.resize newMaxSize).2 = 0 ∧ Represents (t.resize newMaxSize).1 (evictTo newMaxSize D) := by
  have h15 := h.limit_lt
  rw [DynamicTable.resize, if_neg (by omega)]
  simp only [Nat.mod_eq_of_lt (show newMaxSize < 2 ^ 16 by omega)]
  exact ⟨trivial, (h.evictLoop (Nat.le_of_eq h.nEntries.symm)).reorganize (by omega)
    (tableSize_evictTo_le _ _)⟩

/-- A fresh table has no entries. -/
theorem init (t : DynamicTable) {size : ℕ} (hs : size < 2 ^ 15) : Represents (t.init size) [] := by
  have h16 : size % 2 ^ 16 = size := Nat.mod_eq_of_lt (by omega)
  refine ⟨?_, ?_, ?_, ?_, by simp, rfl, by simp, rfl, fun hne => absurd rfl hne⟩
  · simpa only [DynamicTable.init, h16] using hs
  · simpa only [DynamicTable.init, h16] using hs
  · simp only [DynamicTable.init, h16]
    exact (Nat.eq_zero_or_pos size).elim (fun h0 => Or.inr ⟨h0, trivial⟩) Or.inl
  · simp [DynamicTable.init]

end Represents

end Two.Hpack
