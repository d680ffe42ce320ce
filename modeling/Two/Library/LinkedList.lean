import Mathlib.Logic.Function.Basic
import Mathlib.Data.List.Nodup
import Mathlib.Data.List.Perm.Subperm
import Mathlib.Tactic.Common

/-!
# Linked lists in one memory

Elements of one kind are linked by a field `next`, and several lists of them start at the heads of a
family. A list is finite and without cycles when its head leads through distinct elements to the
null pointer.

## Main definitions

* `Links`: the field `next` of the elements, and the heads of the lists
* `Links.pop`, `Links.push`, `Links.append`, `Links.delete`, `Links.moveFront`, `Links.moveBack`:
  the usual operations, on pointers
* `Links.Chain`: a pointer leads through the elements of a list
* `Links.Represents`: the heads lead through the lists of a family, which have no element in common

## Main results

* `Links.Represents.push`, `Links.Represents.pop`, `Links.Represents.append`,
  `Links.Represents.delete`: the operations do to the lists what they should
-/

/-- Elements that are linked by `next`, and the heads of lists of them. Loops over a list end after
`size` elements, if they end at all. -/
structure Links (ι : Type) where
  next : ℕ → Option ℕ
  head : ι → Option ℕ
  size : ℕ

namespace Links

variable {ι : Type} [DecidableEq ι]

/-! ## Operations -/

section Operations

variable (k : Links ι)

/-- Sets the field `next` of an element. -/
def setNext (e : ℕ) (p : Option ℕ) : Links ι := { k with next := Function.update k.next e p }

/-- Sets the head of a list. -/
def setHead (l : ι) (p : Option ℕ) : Links ι := { k with head := Function.update k.head l p }

/-- Takes the first element from a list; its field `next` is left as it is. -/
def pop (l : ι) : Option ℕ × Links ι :=
  match k.head l with
  | none => (none, k)
  | some e => (some e, k.setHead l (k.next e))

/-- Puts an element in front of a list. -/
def push (e : ℕ) (l : ι) : Links ι := (k.setNext e (k.head l)).setHead l (some e)

/-- The last element of a list, or nothing if the list does not end. -/
def lastFrom : ℕ → ℕ → Option ℕ
  | 0, _ => none
  | fuel + 1, curr =>
    match k.next curr with
    | none => some curr
    | some e => lastFrom fuel e

/-- Puts an element, whose field `next` is null, behind a list. -/
def append (e : ℕ) (l : ι) : Option (Links ι) :=
  match k.head l with
  | none => some (k.setHead l (some e))
  | some first => do
    let last ← k.lastFrom k.size first
    return k.setNext last (some e)

/-- The element in front of `e`, from `prev` and `curr` on; `none` for a loop without end. -/
def findPrev (e : ℕ) : ℕ → Option ℕ → Option ℕ → Option (Option (Option ℕ))
  | 0, _, _ => none
  | _ + 1, _, none => some none
  | fuel + 1, prev, some curr =>
    if curr = e then some (some prev) else findPrev e fuel (some curr) (k.next curr)

/-- Makes what comes before an element lead to `p`. -/
def unlink (l : ι) (prev : Option ℕ) (p : Option ℕ) : Links ι :=
  match prev with
  | none => k.setHead l p
  | some q => k.setNext q p

/-- Takes an element out of a list. -/
def delete (e : ℕ) (l : ι) : Option (Links ι) := do
  match ← k.findPrev e (k.size + 1) none (k.head l) with
  | none => return k
  | some prev => return k.unlink l prev (k.next e)

/-- Puts the elements from a pointer on in front of a list, one after the other. -/
def pushAll (k : Links ι) (l : ι) : ℕ → Option ℕ → Option (Links ι)
  | 0, _ => none
  | _ + 1, none => some k
  | fuel + 1, some e => pushAll (k.push e l) l fuel (k.next e)

/-- Moves the first element of a list, with its memory cleared, in front of another list. -/
def moveFront (src dst : ι) : Option ℕ × Links ι :=
  match (k.pop src).1 with
  | none => (none, k)
  | some e => (some e, ((k.pop src).2.setNext e none).push e dst)

/-- Moves the first element of a list, with its memory cleared, behind another list. -/
def moveBack (src dst : ι) : Option (Option ℕ × Links ι) :=
  match (k.pop src).1 with
  | none => some (none, k)
  | some e => do
    let k ← ((k.pop src).2.setNext e none).append e dst
    return (some e, k)

end Operations

/-! ## Representation -/

/-- The pointer leads through the elements of the list to null. -/
def Chain (next : ℕ → Option ℕ) : Option ℕ → List ℕ → Prop
  | p, [] => p = none
  | p, e :: xs => p = some e ∧ Chain next (next e) xs

/-- The heads of the live lists lead through their elements, which are all distinct. A list that is
not live has no elements, and its head may be anything. -/
structure Represents (k : Links ι) (lists : ι → Option (List ℕ)) : Prop where
  chain : ∀ l xs, lists l = some xs → Chain k.next (k.head l) xs
  nodup : ∀ l xs, lists l = some xs → xs.Nodup
  disjoint : ∀ l xs l' ys, l ≠ l' → lists l = some xs → lists l' = some ys → List.Disjoint xs ys
  bound : ∀ l xs, lists l = some xs → ∀ e ∈ xs, e < k.size

/-- An element that is in none of the live lists. -/
def Outside (lists : ι → Option (List ℕ)) (e : ℕ) : Prop := ∀ l xs, lists l = some xs → e ∉ xs

section Chains

variable {next : ℕ → Option ℕ} {p : Option ℕ} {xs ys : List ℕ} {e : ℕ}

/-- The field `next` of other elements does not matter. -/
theorem Chain.congr {next' : ℕ → Option ℕ} (h : Chain next p xs) (hn : ∀ e ∈ xs, next' e = next e) :
    Chain next' p xs := by
  induction xs generalizing p with
  | nil => exact h
  | cons a xs ih =>
    refine ⟨h.1, ?_⟩
    rw [hn a (List.mem_cons_self ..)]
    exact ih h.2 fun e he => hn e (List.mem_cons_of_mem a he)

theorem Chain.update (h : Chain next p xs) (he : e ∉ xs) (q : Option ℕ) :
    Chain (Function.update next e q) p xs :=
  h.congr fun a ha => by rw [Function.update_of_ne (ne_of_mem_of_not_mem ha he)]

end Chains

section Represents

variable {k k' : Links ι} {lists : ι → Option (List ℕ)} {l : ι} {xs : List ℕ} {e : ℕ}

/-- The rule for an operation on one list: the links between the elements of the others stay. -/
theorem Represents.change (h : Represents k lists) (hsize : k'.size = k.size)
    (hhead : ∀ l', l' ≠ l → k'.head l' = k.head l')
    (hnext : ∀ l' ys, l' ≠ l → lists l' = some ys → ∀ a ∈ ys, k'.next a = k.next a)
    (hchain : Chain k'.next (k'.head l) xs) (hnodup : xs.Nodup)
    (hdisj : ∀ l' ys, l' ≠ l → lists l' = some ys → List.Disjoint xs ys)
    (hbound : ∀ a ∈ xs, a < k.size) : Represents k' (Function.update lists l (some xs)) := by
  -- a list after the update is the changed one or an old one
  have hcases : ∀ {l' ys}, Function.update lists l (some xs) l' = some ys →
      (l' = l ∧ ys = xs) ∨ (l' ≠ l ∧ lists l' = some ys) := by
    intro l' ys hl
    by_cases hll : l' = l
    · subst hll
      rw [Function.update_self] at hl
      exact .inl ⟨rfl, (Option.some.inj hl).symm⟩
    · rw [Function.update_of_ne hll] at hl
      exact .inr ⟨hll, hl⟩
  refine ⟨fun l' ys hl => ?_, fun l' ys hl => ?_, fun l' ys l'' zs hne hl hl' => ?_, fun l' ys hl => ?_⟩
  · rcases hcases hl with ⟨rfl, rfl⟩ | ⟨hne, hl⟩
    · exact hchain
    · rw [hhead l' hne]
      exact (h.chain l' ys hl).congr (hnext l' ys hne hl)
  · rcases hcases hl with ⟨rfl, rfl⟩ | ⟨hne, hl⟩
    · exact hnodup
    · exact h.nodup l' ys hl
  · rcases hcases hl with ⟨h1, rfl⟩ | ⟨h1, hys⟩ <;> rcases hcases hl' with ⟨h2, rfl⟩ | ⟨h2, hzs⟩
    · exact absurd (h1.trans h2.symm) hne
    · exact hdisj l'' zs h2 hzs
    · exact fun a ha ha' => hdisj l' ys h1 hys ha' ha
    · exact h.disjoint l' ys l'' zs hne hys hzs
  · rw [hsize]
    rcases hcases hl with ⟨rfl, rfl⟩ | ⟨hne, hl⟩
    · exact hbound
    · exact h.bound l' ys hl

omit [DecidableEq ι] in
/-- The length of a list is limited by the number of elements. -/
theorem Represents.length_le (h : Represents k lists) (hl : lists l = some xs) : xs.length ≤ k.size := by
  have hsub : xs ⊆ List.range k.size := fun a ha => List.mem_range.mpr (h.bound l xs hl a ha)
  simpa using (List.subperm_of_subset (h.nodup l xs hl) hsub).length_le

omit [DecidableEq ι] in
theorem Represents.head_nil (h : Represents k lists) (hl : lists l = some []) : k.head l = none :=
  h.chain l [] hl

omit [DecidableEq ι] in
theorem Represents.head_cons (h : Represents k lists) (hl : lists l = some (e :: xs)) :
    k.head l = some e ∧ Chain k.next (k.next e) xs := h.chain l _ hl

theorem Represents.pop (h : Represents k lists) (hl : lists l = some (e :: xs)) :
    (k.pop l).1 = some e ∧
      Represents (k.pop l).2 (Function.update lists l (some xs)) ∧
      Outside (Function.update lists l (some xs)) e := by
  obtain ⟨hhead, hchain⟩ := h.head_cons hl
  have hnd := List.nodup_cons.mp (h.nodup l _ hl)
  -- the tail is already chained, so only the head moves
  refine ⟨by simp [Links.pop, hhead], ?_, ?_⟩
  · simp only [Links.pop, hhead]
    refine h.change rfl ?_ (fun _ _ _ _ _ _ => rfl) ?_ hnd.2 ?_ ?_
    · intro l' hne
      simp [setHead, Function.update_of_ne hne]
    · simpa [setHead] using hchain
    · intro l' ys hne hys a ha
      exact h.disjoint l _ l' ys hne.symm hl hys (List.mem_cons_of_mem e ha)
    · intro a ha
      exact h.bound l _ hl a (List.mem_cons_of_mem e ha)
  · intro l' ys hys hmem
    by_cases hll : l' = l
    · subst hll
      rw [Function.update_self] at hys
      obtain rfl := Option.some.inj hys
      exact hnd.1 hmem
    · rw [Function.update_of_ne hll] at hys
      exact h.disjoint l _ l' ys (Ne.symm hll) hl hys (List.mem_cons_self ..) hmem

theorem Represents.lt_size_pop (h : Represents k lists) (hl : lists l = some (e :: xs)) :
    e < (k.pop l).2.size := by
  have hsize : (k.pop l).2.size = k.size := by simp [Links.pop, (h.head_cons hl).1, setHead]
  rw [hsize]
  exact h.bound l _ hl e (List.mem_cons_self ..)

theorem Represents.push (h : Represents k lists) (hl : lists l = some xs) (he : Outside lists e)
    (hb : e < k.size) : Represents (k.push e l) (Function.update lists l (some (e :: xs))) := by
  refine h.change rfl ?_ ?_ ?_ (List.nodup_cons.mpr ⟨he l xs hl, h.nodup l xs hl⟩) ?_ ?_
  · intro l' hne
    simp [Links.push, setHead, setNext, Function.update_of_ne hne]
  · intro l' ys hne hys a ha
    have : a ≠ e := fun hae => he l' ys hys (hae ▸ ha)
    simp [Links.push, setHead, setNext, Function.update_of_ne this]
  · refine ⟨by simp [Links.push, setHead], ?_⟩
    simp only [Links.push, setHead, setNext, Function.update_self]
    exact (h.chain l xs hl).update (he l xs hl) _
  · intro l' ys hne hys a ha hmem
    rcases List.mem_cons.mp ha with rfl | ha
    · exact he l' ys hys hmem
    · exact h.disjoint l xs l' ys hne.symm hl hys ha hmem
  · intro a ha
    rcases List.mem_cons.mp ha with rfl | ha
    · exact hb
    · exact h.bound l xs hl a ha

omit [DecidableEq ι] in
/-- The field `next` of an element that is in no list can be set. -/
theorem Represents.setNext (h : Represents k lists) (he : Outside lists e) (p : Option ℕ) :
    Represents (k.setNext e p) lists where
  chain l xs hl := (h.chain l xs hl).update (he l xs hl) p
  nodup := h.nodup
  disjoint := h.disjoint
  bound := h.bound

omit [DecidableEq ι] in
theorem lastFrom_eq {fuel : ℕ} (hc : Chain k.next (some e) (e :: xs)) (hf : xs.length < fuel) :
    k.lastFrom fuel e = some ((e :: xs).getLast (by simp)) := by
  induction xs generalizing e fuel with
  | nil =>
    obtain ⟨fuel, rfl⟩ := Nat.exists_eq_add_of_lt (Nat.zero_lt_of_lt hf)
    have hn : k.next e = none := hc.2
    simp [lastFrom, hn]
  | cons a xs ih =>
    obtain ⟨fuel, rfl⟩ : ∃ n, fuel = n + 1 := ⟨fuel - 1, by simp at hf; omega⟩
    have hn : k.next e = some a := hc.2.1
    have hrest := @ih a fuel ⟨rfl, hc.2.2⟩ (by simpa using hf)
    simp only [lastFrom, hn, hrest]
    simp

/-- A list with a new last element. -/
theorem chain_snoc {next : ℕ → Option ℕ} {p : Option ℕ} (hc : Chain next p (xs ++ [e]))
    (hn : (xs ++ [e]).Nodup) {a : ℕ} (ha : a ∉ xs ++ [e]) (hnull : next a = none) :
    Chain (Function.update next e (some a)) p (xs ++ [e] ++ [a]) := by
  induction xs generalizing p with
  | nil =>
    have hae : a ≠ e := by simpa using ha
    refine ⟨hc.1, by simp, ?_⟩
    rw [Function.update_of_ne hae]
    exact hnull
  | cons b xs ih =>
    simp only [List.cons_append, List.nodup_cons, List.mem_append, List.mem_singleton, not_or] at hn
    refine ⟨hc.1, ?_⟩
    rw [Function.update_of_ne hn.1.2]
    exact ih hc.2 hn.2 (fun hmem => ha (List.mem_cons_of_mem b hmem))

theorem Represents.append (h : Represents k lists) (hl : lists l = some xs) (he : Outside lists e)
    (hb : e < k.size) (hnull : k.next e = none) :
    ∃ k', k.append e l = some k' ∧ Represents k' (Function.update lists l (some (xs ++ [e]))) := by
  -- the longer list has no element twice, and none of another list
  have hnd : (xs ++ [e]).Nodup :=
    List.nodup_append.mpr ⟨h.nodup l xs hl, by simp, by
      intro a ha b hb'
      obtain rfl := List.mem_singleton.mp hb'
      exact fun hab => he l xs hl (hab ▸ ha)⟩
  have hdisj : ∀ l' ys, l' ≠ l → lists l' = some ys → List.Disjoint (xs ++ [e]) ys := by
    intro l' ys hne hys a ha hmem
    rcases List.mem_append.mp ha with ha | ha
    · exact h.disjoint l xs l' ys hne.symm hl hys ha hmem
    · obtain rfl := List.mem_singleton.mp ha
      exact he l' ys hys hmem
  have hbound : ∀ a ∈ xs ++ [e], a < k.size := by
    intro a ha
    rcases List.mem_append.mp ha with ha | ha
    · exact h.bound l xs hl a ha
    · obtain rfl := List.mem_singleton.mp ha
      exact hb
  rcases List.eq_nil_or_concat xs with rfl | ⟨ys, last, rfl⟩
  -- the first element of an empty list becomes its head
  · have hhead := h.head_nil hl
    refine ⟨k.setHead l (some e), by simp [Links.append, hhead], ?_⟩
    refine h.change rfl ?_ (fun _ _ _ _ _ _ => rfl) ?_ hnd hdisj hbound
    · intro l' hne
      simp [setHead, Function.update_of_ne hne]
    · exact ⟨by simp [setHead], hnull⟩
  · rw [List.concat_eq_append] at *
    -- the loop of `LL_APPEND` finds the last element, which then points to the new one
    obtain ⟨first, rest, hcons⟩ : ∃ first rest, ys ++ [last] = first :: rest := by
      cases ys <;> simp
    have hchain := h.chain l _ hl
    have hlast : k.lastFrom k.size first = some last := by
      have hlen := h.length_le hl
      rw [hcons] at hchain hlen
      have hc : Chain k.next (some first) (first :: rest) := ⟨rfl, hchain.2⟩
      rw [List.length_cons] at hlen
      rw [lastFrom_eq hc (Nat.lt_of_succ_le hlen)]
      simp [← hcons]
    have hhead : k.head l = some first := by
      rw [hcons] at hchain
      exact hchain.1
    refine ⟨k.setNext last (some e), by simp [Links.append, hhead, hlast], ?_⟩
    refine h.change rfl (fun _ _ => rfl) ?_ ?_ hnd hdisj hbound
    · intro l' zs hne hzs a ha
      have : a ≠ last := by
        rintro rfl
        exact h.disjoint l _ l' zs hne.symm hl hzs (by simp) ha
      simp [Links.setNext, Function.update_of_ne this]
    · exact chain_snoc hchain (h.nodup l _ hl) (he l _ hl) hnull

omit [DecidableEq ι] in
/-- The search for an element ends at the one in front of it. -/
theorem findPrev_eq {fuel : ℕ} {prev p : Option ℕ} {ys : List ℕ}
    (hc : Chain k.next p (xs ++ e :: ys)) (he : e ∉ xs) (hf : xs.length < fuel) :
    k.findPrev e fuel prev p = some (some (xs.getLast?.or prev)) := by
  induction xs generalizing fuel prev p with
  | nil =>
    obtain ⟨fuel, rfl⟩ : ∃ n, fuel = n + 1 := ⟨fuel - 1, by omega⟩
    obtain rfl : p = some e := hc.1
    simp [findPrev]
  | cons a xs ih =>
    obtain ⟨fuel, rfl⟩ : ∃ n, fuel = n + 1 := ⟨fuel - 1, by omega⟩
    obtain rfl : p = some a := hc.1
    rw [List.mem_cons, not_or] at he
    rw [findPrev, if_neg (Ne.symm he.1), ih hc.2 he.2 (by simpa using hf)]
    cases xs <;> simp [List.getLast?_cons]

/-- The chain without one of its elements. -/
theorem chain_unlink {next : ℕ → Option ℕ} {p : Option ℕ} {ys : List ℕ} {a : ℕ}
    (hc : Chain next p (xs ++ [a] ++ e :: ys)) (hn : (xs ++ [a] ++ e :: ys).Nodup) :
    Chain (Function.update next a (next e)) p (xs ++ [a] ++ ys) := by
  induction xs generalizing p with
  | nil =>
    simp only [List.nil_append, List.cons_append, List.nodup_cons, List.mem_cons, not_or] at hn
    refine ⟨hc.1, ?_⟩
    rw [Function.update_self]
    exact Chain.update hc.2.2 hn.1.2 _
  | cons b xs ih =>
    simp only [List.cons_append, List.nodup_cons, List.mem_append, List.mem_singleton, not_or] at hn
    refine ⟨hc.1, ?_⟩
    rw [Function.update_of_ne hn.1.1.2]
    exact ih hc.2 hn.2

/-- What comes before an element is made to lead behind it. -/
theorem Represents.unlink {ys : List ℕ} (h : Represents k lists) (hl : lists l = some (xs ++ e :: ys)) :
    Represents (k.unlink l xs.getLast? (k.next e)) (Function.update lists l (some (xs ++ ys))) ∧
      Outside (Function.update lists l (some (xs ++ ys))) e := by
  have hnd := h.nodup l _ hl
  have hsub : (xs ++ ys).Sublist (xs ++ e :: ys) := (List.Sublist.refl xs).append (List.sublist_cons_self e ys)
  have hdisj : ∀ l' zs, l' ≠ l → lists l' = some zs → List.Disjoint (xs ++ ys) zs := by
    intro l' zs hne hzs a ha
    exact h.disjoint l _ l' zs hne.symm hl hzs (hsub.subset ha)
  have hbound : ∀ a ∈ xs ++ ys, a < k.size := fun a ha => h.bound l _ hl a (hsub.subset ha)
  constructor
  -- the first element is unlinked at the head, any other at its predecessor
  · rcases List.eq_nil_or_concat xs with rfl | ⟨zs, a, rfl⟩
    · refine h.change rfl ?_ (fun _ _ _ _ _ _ => rfl) ?_ (hnd.sublist hsub) hdisj hbound
      · intro l' hne
        simp [Links.unlink, setHead, Function.update_of_ne hne]
      · simpa [Links.unlink, setHead] using (h.chain l _ hl).2
    · rw [List.concat_eq_append] at *
      refine h.change ?_ ?_ ?_ ?_ (hnd.sublist hsub) hdisj hbound
      · simp [Links.unlink, Links.setNext]
      · intro l' hne
        simp [Links.unlink, Links.setNext]
      · intro l' us hne hus b hb
        have : b ≠ a := by
          rintro rfl
          exact h.disjoint l _ l' us hne.symm hl hus (by simp) hb
        simp [Links.unlink, Links.setNext, Function.update_of_ne this]
      · simpa [Links.unlink, Links.setNext] using chain_unlink (h.chain l _ hl) hnd
  · intro l' zs hzs hmem
    by_cases hll : l' = l
    · subst hll
      rw [Function.update_self] at hzs
      obtain rfl := Option.some.inj hzs
      have hmid := List.nodup_middle.mp hnd
      exact (List.nodup_cons.mp hmid).1 hmem
    · rw [Function.update_of_ne hll] at hzs
      exact h.disjoint l _ l' zs (Ne.symm hll) hl hzs (by simp) hmem

theorem Represents.delete (h : Represents k lists) (hl : lists l = some xs) (he : e ∈ xs) :
    ∃ k', k.delete e l = some k' ∧ Represents k' (Function.update lists l (some (xs.erase e))) ∧
      Outside (Function.update lists l (some (xs.erase e))) e := by
  obtain ⟨ys, zs, rfl⟩ := List.append_of_mem he
  have hnd := h.nodup l _ hl
  have hnot : e ∉ ys := by
    intro hmem
    exact (List.nodup_append.mp hnd).2.2 e hmem e (by simp) rfl
  have hlen : ys.length < k.size + 1 := by
    have := h.length_le hl
    simp at this
    omega
  rw [List.erase_append_right _ hnot, List.erase_cons_head]
  refine ⟨_, ?_, h.unlink hl⟩
  simp [Links.delete, findPrev_eq (h.chain l _ hl) hnot hlen]

/-- A list becomes live, empty. -/
theorem Represents.start (h : Represents k lists) (l : ι) :
    Represents (k.setHead l none) (Function.update lists l (some [])) := by
  refine h.change rfl ?_ (fun _ _ _ _ _ _ => rfl) (by simp [setHead, Chain]) List.nodup_nil ?_ (by simp)
  · intro l' hne
    simp [setHead, Function.update_of_ne hne]
  · intro l' ys hne hys a ha
    simp at ha

/-- A list is no longer live. -/
theorem Represents.drop (h : Represents k lists) (l : ι) :
    Represents k (Function.update lists l none) := by
  have hne : ∀ {l' ys}, Function.update lists l none l' = some ys → lists l' = some ys := by
    intro l' ys hys
    by_cases hll : l' = l
    · simp [hll] at hys
    · rwa [Function.update_of_ne hll] at hys
  exact ⟨fun l' ys hys => h.chain l' ys (hne hys), fun l' ys hys => h.nodup l' ys (hne hys),
    fun l' ys l'' zs hll hys hzs => h.disjoint l' ys l'' zs hll (hne hys) (hne hzs),
    fun l' ys hys => h.bound l' ys (hne hys)⟩

theorem Outside.update {l : ι} (h : Outside lists e) (he : e ∉ xs) :
    Outside (Function.update lists l (some xs)) e := by
  intro l' ys hys
  by_cases hll : l' = l
  · subst hll
    rw [Function.update_self] at hys
    exact Option.some.inj hys ▸ he
  · rw [Function.update_of_ne hll] at hys
    exact h l' ys hys

/-- The elements from a pointer on, which are in no list, all go in front of a list. -/
theorem Represents.pushAll {fuel : ℕ} {p : Option ℕ} {ys : List ℕ} (h : Represents k lists)
    (hl : lists l = some ys) (hc : Chain k.next p xs) (hn : xs.Nodup)
    (ho : ∀ e ∈ xs, Outside lists e ∧ e < k.size) (hf : xs.length ≤ fuel) :
    ∃ k', k.pushAll l (fuel + 1) p = some k' ∧
      Represents k' (Function.update lists l (some (xs.reverse ++ ys))) := by
  induction xs generalizing k lists fuel p ys with
  | nil =>
    obtain rfl : p = none := hc
    refine ⟨k, rfl, ?_⟩
    rw [List.reverse_nil, List.nil_append, ← hl, Function.update_eq_self]
    exact h
  | cons a xs ih =>
    obtain rfl : p = some a := hc.1
    obtain ⟨fuel, rfl⟩ : ∃ n, fuel = n + 1 := ⟨fuel - 1, by simp at hf; omega⟩
    obtain ⟨ha, hxs⟩ := List.nodup_cons.mp hn
    have hpush := h.push hl (ho a (List.mem_cons_self ..)).1 (ho a (List.mem_cons_self ..)).2
    -- what is left of the chain stays outside every list
    have hrest : ∀ e ∈ xs, Outside (Function.update lists l (some (a :: ys))) e ∧
        e < (k.push a l).size := by
      intro e he
      obtain ⟨hout, hb⟩ := ho e (List.mem_cons_of_mem a he)
      refine ⟨hout.update ?_, hb⟩
      rw [List.mem_cons, not_or]
      exact ⟨fun hea => ha (hea ▸ he), hout l ys hl⟩
    have hfuel : xs.length ≤ fuel := by simpa using hf
    obtain ⟨k', hk', hrep⟩ := ih hpush (Function.update_self ..) (hc.2.update ha (k.head l)) hxs
      hrest hfuel
    refine ⟨k', by rw [Links.pushAll, hk'], ?_⟩
    rw [Function.update_idem] at hrep
    simpa using hrep

theorem Represents.moveFront {src dst : ι} {ys : List ℕ} (h : Represents k lists)
    (hs : lists src = some (e :: xs)) (hd : lists dst = some ys) (hne : src ≠ dst) :
    (k.moveFront src dst).1 = some e ∧ Represents (k.moveFront src dst).2
      (Function.update (Function.update lists src (some xs)) dst (some (e :: ys))) := by
  obtain ⟨hfst, hrep, hout⟩ := h.pop hs
  have hb := h.lt_size_pop hs
  have hd' : Function.update lists src (some xs) dst = some ys := by
    rw [Function.update_of_ne (Ne.symm hne), hd]
  have hmove : k.moveFront src dst = (some e, ((k.pop src).2.setNext e none).push e dst) := by
    rw [Links.moveFront, hfst]
  rw [hmove]
  exact ⟨rfl, (hrep.setNext hout none).push hd' hout hb⟩

theorem Represents.moveBack {src dst : ι} {ys : List ℕ} (h : Represents k lists)
    (hs : lists src = some (e :: xs)) (hd : lists dst = some ys) (hne : src ≠ dst) :
    ∃ k', k.moveBack src dst = some (some e, k') ∧ Represents k'
      (Function.update (Function.update lists src (some xs)) dst (some (ys ++ [e]))) := by
  obtain ⟨hfst, hrep, hout⟩ := h.pop hs
  have hb := h.lt_size_pop hs
  have hd' : Function.update lists src (some xs) dst = some ys := by
    rw [Function.update_of_ne (Ne.symm hne), hd]
  obtain ⟨k', hk', hrep'⟩ := (hrep.setNext hout none).append hd' hout hb
    (by simp [Links.setNext])
  refine ⟨k', ?_, hrep'⟩
  rw [Links.moveBack, hfst]
  simp [hk']

/-- An element of one list is put in front of another one before it is taken out of its own. -/
theorem Represents.transfer {l' : ι} {ys zs : List ℕ} (h : Represents k lists)
    (hl : lists l = some (xs ++ e :: ys)) (hl' : lists l' = some zs) (hne : l ≠ l') :
    Represents ((k.push e l').unlink l xs.getLast? (k.next e))
      (Function.update (Function.update lists l (some (xs ++ ys))) l' (some (e :: zs))) := by
  obtain ⟨hrep, hout⟩ := h.unlink hl
  have hzs : Function.update lists l (some (xs ++ ys)) l' = some zs := by
    rw [Function.update_of_ne (Ne.symm hne), hl']
  have hsize : (k.unlink l xs.getLast? (k.next e)).size = k.size := by
    cases xs.getLast? <;> rfl
  have hb : e < (k.unlink l xs.getLast? (k.next e)).size := by
    rw [hsize]
    exact h.bound l _ hl e (by simp)
  have hpush := hrep.push hzs hout hb
  -- the two operations write to different places
  have hcomm : (k.push e l').unlink l xs.getLast? (k.next e) =
      (k.unlink l xs.getLast? (k.next e)).push e l' := by
    rcases List.eq_nil_or_concat xs with rfl | ⟨us, a, rfl⟩
    · simp only [List.getLast?_nil, Links.unlink, Links.push, setHead, Links.setNext]
      rw [Function.update_comm hne, Function.update_of_ne (Ne.symm hne)]
    · have hae : a ≠ e := by
        rintro rfl
        have := h.nodup l _ hl
        simp [List.nodup_append] at this
      simp only [List.concat_eq_append, List.getLast?_concat, Links.unlink, Links.push, setHead,
        Links.setNext]
      rw [Function.update_comm hae]
  rw [hcomm]
  exact hpush

end Represents

section Sizes

variable {k k' : Links ι} {l : ι} {e : ℕ}

@[simp] theorem pop_size (k : Links ι) (l : ι) : (k.pop l).2.size = k.size := by
  unfold pop
  split <;> rfl

@[simp] theorem push_size (k : Links ι) (e : ℕ) (l : ι) : (k.push e l).size = k.size := rfl

@[simp] theorem moveFront_size (k : Links ι) (src dst : ι) : (k.moveFront src dst).2.size = k.size := by
  unfold moveFront
  split
  · rfl
  · simp [setNext]

theorem append_size (h : k.append e l = some k') : k'.size = k.size := by
  unfold append at h
  split at h
  · exact (Option.some.inj h) ▸ rfl
  · obtain ⟨last, -, h⟩ := Option.bind_eq_some_iff.mp h
    exact (Option.some.inj h) ▸ rfl

theorem moveBack_size {src dst : ι} {r : Option ℕ × Links ι} (h : k.moveBack src dst = some r) :
    r.2.size = k.size := by
  unfold moveBack at h
  split at h
  · exact (Option.some.inj h) ▸ rfl
  · obtain ⟨k', hk, h⟩ := Option.bind_eq_some_iff.mp h
    have := append_size hk
    rw [← Option.some.inj h]
    simpa [setNext] using this

theorem delete_size (h : k.delete e l = some k') : k'.size = k.size := by
  unfold delete at h
  obtain ⟨r, -, h⟩ := Option.bind_eq_some_iff.mp h
  cases r with
  | none => exact (Option.some.inj h) ▸ rfl
  | some prev =>
    rw [← Option.some.inj h]
    cases prev <;> rfl

end Sizes

end Links
