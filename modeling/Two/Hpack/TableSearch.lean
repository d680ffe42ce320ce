import Two.Hpack.TableContents

/-!
# Lookup and search in the dynamic table

Lookup by index is lookup in the list of entries. The search by content compares only as many
characters as the header has, so what it finds is the newest entry that the header is a beginning
of.

## Main definitions

* `prefixMatches h e`, `namePrefixMatches h e`: the comparisons of the searches
* `entries t`: the entries of a table, as its own lookup gives them

## Main results

* `Represents.findEntryNameAndValue`, `Represents.findEntryName`: lookup by index
* `Represents.searchLoop`: the search finds the newest entry that matches
-/

namespace Two.Hpack

open HeaderList (packed records packedSize packedSize_cons packedSize_append)

/-- The comparison of `hpack_tables_find_index`: the name of the header is a beginning of the name
of the entry, and its value is a beginning of what follows there one character later. -/
def prefixMatches (h e : Header) : Bool :=
  h.1.isPrefixOf e.1 && h.2.isPrefixOf ((e.1 ++ 0 :: e.2).drop (h.1.length + 1))

/-- The comparison of `hpack_tables_find_index_name`. -/
def namePrefixMatches (h e : Header) : Bool := h.1.isPrefixOf e.1

/-- A NUL-free beginning ends before the first NUL. -/
theorem isPrefixOf_zero_cons {s xs : Bytes} (hs : NulFree s) (ys : Bytes) :
    s.isPrefixOf (xs ++ 0 :: ys) = s.isPrefixOf xs := by
  induction s generalizing xs with
  | nil => simp
  | cons b s ih =>
    obtain ⟨hb, hs⟩ := nulFree_cons.mp hs
    cases xs with
    | nil => rw [List.nil_append, List.isPrefixOf_cons_cons, beq_false_of_ne hb, Bool.false_and]; rfl
    | cons c xs => rw [List.cons_append, List.isPrefixOf_cons_cons, List.isPrefixOf_cons_cons, ih hs]

namespace DynamicTable

variable (t : DynamicTable)

/-- The list `xs` is read going back from distance `i`. -/
def ReadsBack (i : ℕ) (xs : Bytes) : Prop := ∀ j x, xs[j]? = some x → t.back (i + j) = x

/-- The list `xs` is read going forward, from the cell behind distance `pos` on. -/
def ReadsForward (pos : ℕ) (xs : Bytes) : Prop :=
  ∀ j x, xs[j]? = some x → t.cell (t.next + t.maxSize - pos + 1 + j) = x

variable {t} {i pos : ℕ} {x : UInt8} {xs ys : Bytes}

theorem ReadsBack.head (h : t.ReadsBack i (x :: xs)) : t.back i = x := h 0 x rfl

theorem ReadsBack.right (h : t.ReadsBack i (xs ++ ys)) : t.ReadsBack (i + xs.length) ys := by
  intro j y hj
  rw [Nat.add_assoc]
  exact h (xs.length + j) y (by rw [List.getElem?_append_right (by omega)]; simpa using hj)

theorem ReadsBack.left (h : t.ReadsBack i (xs ++ ys)) : t.ReadsBack i xs := by
  intro j y hj
  obtain ⟨hlt, -⟩ := List.getElem?_eq_some_iff.mp hj
  exact h j y (by rw [List.getElem?_append_left hlt, hj])

theorem ReadsBack.tail (h : t.ReadsBack i (x :: xs)) : t.ReadsBack (i + 1) xs :=
  ReadsBack.right (show t.ReadsBack i ([x] ++ xs) from h)

/-! ## Lookup -/

/-- The loop of `posOfIndex` passes over a string. -/
theorem posOfIndexLoop_skip {s : Bytes} (hs : NulFree s) (fuel : ℕ) {i index c e : ℕ}
    (h : t.ReadsBack i s) (he : e ≠ index - 61) :
    t.posOfIndexLoop index (s.length + fuel) i c e =
      t.posOfIndexLoop index fuel (i + s.length) c e := by
  induction s generalizing i with
  | nil => simp
  | cons b s ih =>
    obtain ⟨hb, hs⟩ := nulFree_cons.mp hs
    rw [List.length_cons, show s.length + 1 + fuel = s.length + fuel + 1 by omega, posOfIndexLoop]
    simp only [h.head, hb, if_false, false_and, if_neg he]
    rw [ih hs h.tail]
    congr 1
    omega

theorem nulFree_reverse {s : Bytes} (hs : NulFree s) : NulFree s.reverse := by
  simpa [NulFree] using hs

end DynamicTable

/-- What is read going back from the newest entry, the NUL at `next` excluded. -/
def backContent : List Header → Bytes
  | [] => []
  | e :: D => e.2.reverse ++ 0 :: (e.1.reverse ++ 0 :: backContent D)

theorem reverse_content (D : List Header) : (content D).reverse = 0 :: backContent D := by
  induction D with
  | nil => rfl
  | cons e D ih => simp [content_cons, packed, backContent, ih]

/-- The contents split at an entry. -/
theorem content_split {D : List Header} {k : ℕ} (hk : k < D.length) :
    content D = content (D.drop (k + 1)) ++ (packed D[k] ++ records (D.take k).reverse) := by
  have hsplit : ∀ (A B : List Header) (e : Header),
      content (A ++ e :: B) = content B ++ (packed e ++ records A.reverse) := by simp [content]
  rw [← hsplit, ← List.drop_eq_getElem_cons hk, List.take_append_drop]

section Depth

variable {D : List Header} {k : ℕ}

/-- The distance of an entry from `next`. -/
def depth (D : List Header) (k : ℕ) : ℕ := packedSize (D.take (k + 1))

theorem depth_cons_succ (e : Header) (D : List Header) (k : ℕ) :
    depth (e :: D) (k + 1) = e.1.length + e.2.length + 2 + depth D k := by
  simp [depth]

theorem depth_cons_zero (e : Header) (D : List Header) :
    depth (e :: D) 0 = e.1.length + e.2.length + 2 := by
  simp [depth]

theorem depth_le (D : List Header) (k : ℕ) : depth D k ≤ packedSize D := by
  conv_rhs => rw [← List.take_append_drop (k + 1) D, packedSize_append]
  exact Nat.le_add_right _ _

theorem length_drop_content : (content (D.drop (k + 1))).length + depth D k = packedSize D + 1 := by
  have h : packedSize D = depth D k + packedSize (D.drop (k + 1)) := by
    conv_lhs => rw [← List.take_append_drop (k + 1) D, packedSize_append]
    rfl
  rw [length_content]
  omega

end Depth

/-- The loop of `posOfIndex` counts entries, newest first. -/
theorem DynamicTable.posOfIndexLoop_entry {t : DynamicTable} {index : ℕ} :
    ∀ (D : List Header) (k : ℕ) (i c e fuel : ℕ), t.ReadsBack i (backContent D) → k < D.length →
      (∀ e ∈ D, NulFree e.1 ∧ NulFree e.2) → e + k + 1 = index - 61 → c % 2 = 0 →
      depth D k ≤ fuel →
      t.posOfIndexLoop index fuel i c e = ((i + depth D k - 1 : ℕ) : ℤ) := by
  intro D
  induction D with
  | nil => intro k i c e fuel _ hk; simp at hk
  | cons a D ih =>
    intro k i c e fuel h hk hnul he hc hfuel
    -- the value and the name of the newest entry are skipped, each up to its NUL
    obtain ⟨hn, hv⟩ := hnul a List.mem_cons_self
    have hmin : a.1.length + a.2.length + 2 ≤ fuel := by
      cases k with
      | zero => rwa [depth_cons_zero] at hfuel
      | succ k => rw [depth_cons_succ] at hfuel; omega
    obtain ⟨f, rfl⟩ : ∃ f, fuel = a.2.reverse.length + (a.1.reverse.length + (f + 1) + 1) :=
      ⟨fuel - (a.1.length + a.2.length + 2), by simp only [List.length_reverse]; omega⟩
    rw [backContent] at h
    have hz := h.right
    have hn' := hz.tail.left
    have hend := hz.tail.right
    rw [posOfIndexLoop_skip (nulFree_reverse hv) _ h.left (by omega), posOfIndexLoop]
    simp only [hz.head, if_true, true_and]
    -- behind the value the counter is odd, behind the name an entry is complete
    have hodd : ¬ (c + 1) % 2 = 0 := by omega
    simp only [hodd, if_false]
    rw [if_neg (by omega), posOfIndexLoop_skip (nulFree_reverse hn) _ hn' (by omega),
      posOfIndexLoop]
    simp only [hend.head, if_true, true_and]
    have heven : (c + 1 + 1) % 2 = 0 := by omega
    simp only [heven, if_true]
    -- it is the one that is looked for, or the loop goes on behind it
    cases k with
    | zero =>
      rw [if_pos (by omega), depth_cons_zero]
      simp only [List.length_reverse]
      congr 1
      omega
    | succ k =>
      rw [depth_cons_succ] at hfuel ⊢
      simp only [List.length_cons] at hk
      simp only [List.length_reverse] at hfuel hend ⊢
      rw [if_neg (by omega), ih k _ _ _ _ hend.tail (by omega)
        (fun b hb => hnul b (List.mem_cons_of_mem _ hb)) (by omega) heven (by omega)]
      congr 1
      omega

/-- The loop of `copyToExt` copies a string and stops behind its NUL. -/
theorem DynamicTable.copyToExtLoop_eq {t : DynamicTable} {pos : ℕ} {s : Bytes} (rest : Bytes) :
    ∀ {fuel i : ℕ}, NulFree s →
      (∀ j x, (s ++ 0 :: rest)[j]? = some x → t.cell (t.next + t.maxSize - pos + i + j) = x) →
      s.length < fuel →
      t.copyToExtLoop pos fuel i = some (s, (pos : ℤ) - ((i + s.length : ℕ) : ℤ)) := by
  induction s with
  | nil =>
    intro fuel i _ h hf
    obtain ⟨fuel, rfl⟩ : ∃ f, fuel = f + 1 := ⟨fuel - 1, by omega⟩
    have h0 : t.cell (t.next + t.maxSize - pos + i) = 0 := h 0 0 rfl
    rw [copyToExtLoop]
    simp [h0]
  | cons b s ih =>
    intro fuel i hs h hf
    rw [List.length_cons] at hf
    obtain ⟨fuel, rfl⟩ : ∃ f, fuel = f + 1 := ⟨fuel - 1, by omega⟩
    obtain ⟨hb, hs⟩ := nulFree_cons.mp hs
    have h0 : t.cell (t.next + t.maxSize - pos + i) = b := h 0 b rfl
    have htail : t.copyToExtLoop pos fuel (i + 1) =
        some (s, (pos : ℤ) - ((i + 1 + s.length : ℕ) : ℤ)) := by
      refine ih hs (fun j x hj => ?_) (by omega)
      rw [show t.next + t.maxSize - pos + (i + 1) + j = t.next + t.maxSize - pos + i + (j + 1) by omega]
      exact h (j + 1) x (by simpa using hj)
    rw [copyToExtLoop]
    simp only [h0, if_neg hb, htail, Option.map_some, List.length_cons]
    congr 2
    omega

namespace Represents

variable {t : DynamicTable} {D : List Header} {k : ℕ}

/-- Going back from `next`, the contents are read from their end. -/
theorem back_eq (h : Represents t D) (hD : D ≠ []) {i : ℕ} (hi : i ≤ packedSize D) {x : UInt8}
    (hx : (content D)[packedSize D - i]? = some x) : t.back i = x := by
  have hlt := h.packedSize_lt hD
  rw [DynamicTable.back, DynamicTable.cell_eq, h.next_eq,
    Ring.mod_add_sub_mod (by omega) (by omega),
    show t.first + packedSize D - i = t.first + (packedSize D - i) by omega]
  exact h.lies hD _ _ hx

theorem readsBack (h : Represents t D) (hD : D ≠ []) : t.ReadsBack 1 (backContent D) := by
  intro j x hj
  have hrev : (content D).reverse[j + 1]? = some x := by rw [reverse_content]; simpa using hj
  obtain ⟨hlt, -⟩ := List.getElem?_eq_some_iff.mp hrev
  rw [List.length_reverse, length_content] at hlt
  rw [List.getElem?_reverse (by rw [length_content]; omega), length_content] at hrev
  refine h.back_eq hD (by omega) ?_
  rw [← hrev]
  congr 1
  omega

/-- Going forward from an entry, its strings are read. -/
theorem readsForward (h : Represents t D) (hk : k < D.length) :
    t.ReadsForward (depth D k) (packed D[k] ++ records (D.take k).reverse) := by
  intro j x hj
  have hD : D ≠ [] := List.ne_nil_of_length_pos (by omega)
  have hlt := h.packedSize_lt hD
  have hle := depth_le D k
  have hsum := length_drop_content (D := D) (k := k)
  obtain ⟨hj', -⟩ := List.getElem?_eq_some_iff.mp hj
  have hlen := congrArg List.length (content_split hk)
  rw [List.length_append, length_content D] at hlen
  have hback : t.back (depth D k - 1 - j) = x := by
    refine h.back_eq hD (by omega) ?_
    rw [content_split hk, List.getElem?_append_right (by omega), ← hj]
    congr 1
    omega
  rw [← hback, DynamicTable.back]
  congr 1
  omega

/-- The position of an entry. -/
theorem posOfIndex (h : Represents t D) (hk : k < D.length) :
    t.posOfIndex (62 + k) = (depth D k : ℤ) := by
  have hD : D ≠ [] := List.ne_nil_of_length_pos (by omega)
  have hlt := h.packedSize_lt hD
  have hle := depth_le D k
  rw [DynamicTable.posOfIndex, DynamicTable.posOfIndexLoop_entry D k 1 0 0 _ (h.readsBack hD) hk
    h.nulFree (by omega) rfl (by omega)]
  congr 1
  omega

theorem depth_ge (hk : k < D.length) : D[k].1.length + D[k].2.length + 2 ≤ depth D k := by
  rw [depth, List.take_succ_eq_append_getElem hk, packedSize_append]
  simp

/-- The two strings of an entry are copied one after the other. -/
theorem copyToExt (h : Represents t D) (hk : k < D.length) :
    t.copyToExt (depth D k) = some (D[k].1, ((depth D k - (D[k].1.length + 1) : ℕ) : ℤ)) ∧
      ∃ p : ℕ, t.copyToExt (depth D k - (D[k].1.length + 1)) = some (D[k].2, (p : ℤ)) := by
  have hD : D ≠ [] := List.ne_nil_of_length_pos (by omega)
  have hlt := h.packedSize_lt hD
  have hle := depth_le D k
  have hge := depth_ge hk
  have hread := h.readsForward hk
  obtain ⟨hn, hv⟩ := h.nulFree _ (List.getElem_mem hk)
  -- the value starts where the name and its NUL end
  refine ⟨?_, depth D k - (D[k].1.length + 1) - (1 + D[k].2.length), ?_⟩
  · rw [DynamicTable.copyToExt, DynamicTable.copyToExtLoop_eq
      (D[k].2 ++ [0] ++ records (D.take k).reverse) hn (fun j x hj => ?_) (by omega)]
    · congr 2
      omega
    · refine hread j x ?_
      rw [← hj, packed]
      simp
  · rw [DynamicTable.copyToExt, DynamicTable.copyToExtLoop_eq
      (records (D.take k).reverse) hv (fun j x hj => ?_) (by omega)]
    · congr 2
      omega
    · have := hread (D[k].1.length + 1 + j) x (by
        rw [show packed D[k] ++ records (D.take k).reverse =
          (D[k].1 ++ [0]) ++ (D[k].2 ++ 0 :: records (D.take k).reverse) by simp [packed],
          List.getElem?_append_right (by simp), ← hj]
        congr 1
        simp)
      rw [← this]
      congr 1
      omega

/-- **Lookup by index** gives the entry counted from the newest. -/
theorem findEntryNameAndValue (h : Represents t D) (k : ℕ) :
    t.findEntryNameAndValue (62 + k) =
      match D[k]? with
      | some e => .ok e
      | none => .error compressionError := by
  rw [DynamicTable.findEntryNameAndValue, h.nEntries]
  by_cases hk : k < D.length
  · obtain ⟨hname, p, hvalue⟩ := h.copyToExt hk
    rw [if_neg (by omega), h.posOfIndex hk, List.getElem?_eq_getElem hk]
    simp only [Int.toNat_natCast, hname, hvalue]
    rw [if_neg (by omega), if_neg (by omega), if_neg (by omega)]
  · rw [if_pos (by omega), List.getElem?_eq_none (by omega)]

/-- **Lookup of a name by index.** -/
theorem findEntryName (h : Represents t D) (k : ℕ) :
    t.findEntryName (62 + k) =
      match D[k]? with
      | some e => .ok e.1
      | none => .error compressionError := by
  rw [DynamicTable.findEntryName, h.nEntries]
  by_cases hk : k < D.length
  · obtain ⟨hname, -⟩ := h.copyToExt hk
    rw [if_neg (by omega), h.posOfIndex hk, List.getElem?_eq_getElem hk]
    simp only [Int.toNat_natCast, hname]
    rw [if_neg (by omega), if_neg (by omega)]
  · rw [if_pos (by omega), List.getElem?_eq_none (by omega)]

end Represents

/-! ## Search -/

namespace DynamicTable

variable {t : DynamicTable}

/-- A NUL-free string is compared with what is read, which ends with a NUL. -/
theorem compareString_eq {pos : ℕ} {s : Bytes} :
    ∀ (xs : Bytes) {i : ℕ}, NulFree s → 0 ∈ xs →
      (∀ j x, xs[j]? = some x → t.cell (t.next + t.maxSize - pos + 1 + (i + j)) = x) →
      t.compareString pos i s = s.isPrefixOf xs := by
  induction s with
  | nil => intros; simp [compareString]
  | cons b s ih =>
    intro xs i hs hmem h
    obtain ⟨hb, hs⟩ := nulFree_cons.mp hs
    cases xs with
    | nil => simp at hmem
    | cons c xs =>
      have hc : t.cell (t.next + t.maxSize - pos + 1 + i) = c := h 0 c rfl
      rw [compareString, hc, List.isPrefixOf_cons_cons]
      by_cases hbc : b = c
      · subst hbc
        rw [if_neg (by simp), beq_self_eq_true, Bool.true_and]
        refine ih xs hs ((List.mem_cons.mp hmem).resolve_left (Ne.symm hb)) fun j x hj => ?_
        rw [show i + 1 + j = i + (j + 1) by omega]
        exact h (j + 1) x (by simpa using hj)
      · rw [if_pos hbc, beq_false_of_ne hbc, Bool.false_and]

/-- The search passes over a string. -/
theorem searchLoop_skip {hit : ℕ → Bool} {s : Bytes} (hs : NulFree s) (fuel : ℕ) {i c : ℕ}
    (h : t.ReadsBack i s) (hc : c / 2 < t.nEntries) :
    t.searchLoop hit (s.length + fuel) i c = t.searchLoop hit fuel (i + s.length) c := by
  induction s generalizing i with
  | nil => simp
  | cons b s ih =>
    obtain ⟨hb, hs⟩ := nulFree_cons.mp hs
    rw [List.length_cons, show s.length + 1 + fuel = s.length + fuel + 1 by omega, searchLoop]
    simp only [h.head, hb, if_false, false_and]
    rw [if_neg (by omega), ih hs h.tail]
    congr 1
    omega

/-- The search visits the entries, newest first. The 8-bit counter does not wrap for less than 128
entries. -/
theorem searchLoop_entries {hit : ℕ → Bool} {m : Header → Bool} :
    ∀ (D : List Header) (i c fuel : ℕ), D ≠ [] → t.ReadsBack i (backContent D) →
      (∀ e ∈ D, NulFree e.1 ∧ NulFree e.2) →
      (∀ (k : ℕ) (hk : k < D.length), hit (i + depth D k - 1) = m D[k]) →
      c % 2 = 0 → c / 2 + D.length = t.nEntries → c + 2 * D.length < 256 →
      packedSize D ≤ fuel →
      t.searchLoop hit fuel i c =
        match D.findIdx? m with
        | some k => ((c / 2 + k + 62 : ℕ) : ℤ)
        | none => internalError := by
  intro D
  induction D with
  | nil => intro i c fuel hne; exact absurd rfl hne
  | cons a D ih =>
    intro i c fuel _ h hnul hhit hc hn h256 hfuel
    -- an entry is stored as its value and its name, each read backwards up to a NUL
    obtain ⟨hna, hva⟩ := hnul a List.mem_cons_self
    rw [packedSize_cons] at hfuel
    rw [List.length_cons] at hn h256
    obtain ⟨f, rfl⟩ : ∃ f, fuel = a.2.reverse.length + (a.1.reverse.length + (f + 1) + 1) :=
      ⟨fuel - (a.1.length + a.2.length + 2), by simp only [List.length_reverse]; omega⟩
    rw [backContent] at h
    have hz := h.right
    have hend := hz.tail.right
    rw [searchLoop_skip (nulFree_reverse hva) _ h.left (by omega), searchLoop]
    simp only [hz.head, if_true, true_and]
    -- behind the value the counter is odd: no entry is complete
    have h1 : (c + 1) % 2 ^ 8 = c + 1 := Nat.mod_eq_of_lt (by omega)
    have hodd : ¬ (c + 1) % 2 = 0 := by omega
    simp only [h1, hodd, false_and, if_false]
    rw [if_neg (by omega), searchLoop_skip (nulFree_reverse hna) _ hz.tail.left (by omega),
      searchLoop]
    simp only [hend.head, if_true, true_and]
    -- behind the name it is even: the entry is compared
    have h2 : (c + 1 + 1) % 2 ^ 8 = c + 2 := Nat.mod_eq_of_lt (by omega)
    have heven : (c + 2) % 2 = 0 := by omega
    have hpos : 0 < c + 2 := by omega
    have hhead : hit (i + a.2.reverse.length + 1 + a.1.reverse.length) = m a := by
      have := hhit 0 (by simp)
      rw [depth_cons_zero, List.getElem_cons_zero] at this
      rw [← this]
      congr 1
      simp only [List.length_reverse]
      omega
    simp only [h2, heven, hpos, hhead, true_and]
    rw [List.findIdx?_cons]
    by_cases hm : m a = true
    · rw [if_pos hm, if_pos hm]
      simp only
      omega
    · rw [if_neg hm, if_neg hm]
      -- the search ends with the last entry, and else goes on behind this one
      by_cases hD : D = []
      · subst hD
        rw [if_pos (by simp at hn; omega)]
        rfl
      · have hlen := List.length_pos_of_ne_nil hD
        simp only [List.length_reverse] at hfuel hend ⊢
        rw [if_neg (by omega), ih _ _ _ hD hend.tail
          (fun b hb => hnul b (List.mem_cons_of_mem _ hb)) ?_ heven (by omega) (by omega) (by omega)]
        · cases D.findIdx? m with
          | none => rfl
          | some k =>
            simp only [Option.map_some]
            congr 1
            omega
        -- the positions of the later entries count from there
        · intro k hk
          have := hhit (k + 1) (by simpa using hk)
          rw [depth_cons_succ, List.getElem_cons_succ] at this
          rw [← this]
          congr 1
          omega

end DynamicTable

namespace Represents

variable {t : DynamicTable} {D : List Header} {h : Header}

/-- What is read going forward from an entry, split at the NUL behind its name. -/
theorem readsForward_name (ht : Represents t D) {k : ℕ} (hk : k < D.length) :
    t.ReadsForward (depth D k) (D[k].1 ++ 0 :: (D[k].2 ++ 0 :: records (D.take k).reverse)) := by
  have hread := ht.readsForward hk
  rwa [show packed D[k] ++ records (D.take k).reverse =
    D[k].1 ++ 0 :: (D[k].2 ++ 0 :: records (D.take k).reverse) by simp [packed]] at hread

/-- At an entry the search for a name compares beginnings. -/
theorem matchesName (ht : Represents t D) {s : Bytes} (hs : NulFree s) {k : ℕ}
    (hk : k < D.length) : t.compareString (depth D k) 0 s = s.isPrefixOf D[k].1 := by
  rw [DynamicTable.compareString_eq
    (D[k].1 ++ 0 :: (D[k].2 ++ 0 :: records (D.take k).reverse)) hs (by simp)
    (fun j x hj => by rw [Nat.zero_add]; exact ht.readsForward_name hk j x hj),
    isPrefixOf_zero_cons hs]

/-- At an entry the search compares beginnings. -/
theorem matchesEntry (ht : Represents t D) (hh : NulFree h.1 ∧ NulFree h.2) {k : ℕ}
    (hk : k < D.length) :
    t.matchesEntry h.1 h.2 (depth D k) = prefixMatches h D[k] := by
  have hread := ht.readsForward_name hk
  have hge := depth_ge hk
  have hlt := ht.packedSize_lt (List.ne_nil_of_length_pos (by omega))
  have hle := depth_le D k
  rw [DynamicTable.matchesEntry, prefixMatches, ht.matchesName hh.1 hk]
  by_cases hp : h.1.isPrefixOf D[k].1 = true
  · have hlen := (List.isPrefixOf_iff_prefix.mp hp).length_le
    have hdrop : (D[k].1 ++ 0 :: (D[k].2 ++ 0 :: records (D.take k).reverse)).drop (h.1.length + 1) =
        (D[k].1 ++ 0 :: D[k].2).drop (h.1.length + 1) ++ 0 :: records (D.take k).reverse := by
      rw [show D[k].1 ++ 0 :: (D[k].2 ++ 0 :: records (D.take k).reverse) =
        (D[k].1 ++ 0 :: D[k].2) ++ 0 :: records (D.take k).reverse by simp,
        List.drop_append_of_le_length (by simp; omega)]
    have hvalue : t.compareString (depth D k - (h.1.length + 1)) 0 h.2 =
        h.2.isPrefixOf ((D[k].1 ++ 0 :: D[k].2).drop (h.1.length + 1)) := by
      rw [DynamicTable.compareString_eq
        ((D[k].1 ++ 0 :: (D[k].2 ++ 0 :: records (D.take k).reverse)).drop (h.1.length + 1))
        hh.2 (by rw [hdrop]; simp) fun j x hj => ?_, hdrop, isPrefixOf_zero_cons hh.2]
      rw [List.getElem?_drop] at hj
      rw [← hread _ x hj]
      congr 1
      omega
    rw [hvalue]
  · rw [Bool.not_eq_true] at hp
    rw [hp, Bool.false_and, Bool.false_and]

/-- **The search** of a table with less than 128 entries finds the newest entry that matches. -/
theorem searchLoop (ht : Represents t D) (h128 : D.length < 128) {hit : ℕ → Bool}
    {m : Header → Bool} (hhit : ∀ (k : ℕ) (hk : k < D.length), hit (depth D k) = m D[k]) :
    t.searchLoop hit t.maxSize 1 0 =
      match D.findIdx? m with
      | some k => ((k + 62 : ℕ) : ℤ)
      | none => internalError := by
  by_cases hD : D = []
  · subst hD
    have hn : t.nEntries = 0 := ht.nEntries
    cases t.maxSize with
    | zero => rfl
    | succ fuel =>
      rw [DynamicTable.searchLoop]
      by_cases hb : t.back 1 = 0 <;> simp [hb, hn]
  · have hlt := ht.packedSize_lt hD
    rw [DynamicTable.searchLoop_entries D 1 0 _ hD (ht.readsBack hD) ht.nulFree
      (fun k hk => by rw [Nat.add_sub_cancel_left, hhit k hk]) rfl (by simp [ht.nEntries])
      (by omega) (by omega)]
    simp

end Represents

end Two.Hpack
