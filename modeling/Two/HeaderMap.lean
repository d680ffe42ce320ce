import Mathlib.Data.List.Induction
import Mathlib.Data.List.Infix
import Two.HeaderList

/-!
# The header list as a map

The entries of the header list are to be a map from names, compared up to case, to values. The
search takes the first entry whose whole name begins the name looked for, so the list is a map
exactly as long as that entry is always the one of the name itself.

## Main definitions

* `sameName`: equality of names up to ASCII case
* `ListCall`, `calls`: sequences of calls on a header list
* `expected n cs`: the value of the name `n` after the calls `cs`
* `entriesOf cs`: the entries of the map after the calls `cs`, in the order of the list
* `MapLike cs n`: the list behaves as a map on the calls `cs` and the query `n`
* `Unambiguous hs n`, `Roomy hs c`: the search finds the entry of `n`, the space check lets `c` pass

## Main results

* `lookup_entriesOf`: the entries hold the values expected
* `mapLike_iff`: exactly when the list behaves as a map
-/

namespace Two.HeaderList

/-! ## Names -/

/-- Equality of names up to ASCII case. -/
def sameName (a b : Bytes) : Bool := a.map toLower == b.map toLower

section Names

variable {a b c : Bytes}

@[simp] theorem sameName_self : sameName a a = true := by simp [sameName]

theorem sameName_comm : sameName a b = sameName b a := by
  rw [sameName, sameName, Bool.beq_comm]

theorem sameName_trans (h : sameName a b = true) (h' : sameName b c = true) :
    sameName a c = true := by
  simp only [sameName, beq_iff_eq] at *
  exact h.trans h'

theorem sameName_length (h : sameName a b = true) : a.length = b.length := by
  simp only [sameName, beq_iff_eq] at h
  simpa using congrArg List.length h

/-- Names that are the same begin each other. -/
theorem strncasecmpEq_of_sameName (h : sameName a b = true) : strncasecmpEq a b = true := by
  rw [strncasecmpEq, ← sameName_length h, List.take_length]
  exact h

end Names

/-! ## Calls -/

/-- A call on a header list. -/
inductive ListCall
  | reset
  | add (name value : Bytes)
  | set (name value : Bytes)
  deriving DecidableEq

namespace ListCall

/-- The calls considered: names that are not empty, and no NUL in a name or a value. -/
def Valid : ListCall → Prop
  | .reset => True
  | .add name value | .set name value => Storable (name, value)

/-- The name a call is about. -/
def name? : ListCall → Option Bytes
  | .reset => none
  | .add name _ | .set name _ => some name

/-- The value of the name `n` after a call, if it was `old` before. -/
def expectedAfter (n : Bytes) (old : Option Bytes) : ListCall → Option Bytes
  | .reset => none
  | .add name value =>
    if sameName n name then some (old.elim value fun o => o ++ 44 :: value) else old
  | .set name value => if sameName n name then some value else old

end ListCall

/-- The value of a name in a list of entries. -/
def lookup (n : Bytes) (hs : List Header) : Option Bytes :=
  (hs.find? fun h => sameName n h.1).map Prod.snd

/-- The entries of other names. -/
def others (n : Bytes) (hs : List Header) : List Header := hs.filter fun h => !sameName n h.1

/-- The entries of the map after a call: the entry of the name moves to the end. -/
def ListCall.entriesAfter (hs : List Header) : ListCall → List Header
  | .reset => []
  | .add name value =>
    others name hs ++ [(name, (lookup name hs).elim value fun o => o ++ 44 :: value)]
  | .set name value => others name hs ++ [(name, value)]

/-- The value of the name `n` after a sequence of calls. -/
def expected (n : Bytes) (cs : List ListCall) : Option Bytes :=
  cs.foldl (ListCall.expectedAfter n) none

/-- The entries of the map after a sequence of calls. -/
def entriesOf (cs : List ListCall) : List Header := cs.foldl ListCall.entriesAfter []

/-- One call on a list, `none` when it returns `-1`. -/
def call (l : HeaderList) : ListCall → Option HeaderList
  | .reset => some reset
  | .add name value => l.add name value
  | .set name value => l.set name value

/-- A sequence of calls on a list that was reset. -/
def calls (cs : List ListCall) : Option HeaderList := cs.foldlM call reset

/-- The calls of the sequence all fit: the entries of the map never exceed the memory of a list. -/
def Fits (cs : List ListCall) : Prop :=
  ∀ pre, pre <+: cs → packedSize (entriesOf pre) ≤ headerListMaxSize

/-- The header list behaves as a map on the calls `cs` and the query `n`: every call succeeds, the
query returns the value expected, and no call touches an entry of another name. -/
structure MapLike (cs : List ListCall) (n : Bytes) : Prop where
  result : ∃ l, calls cs = some l ∧ l.get n = expected n cs
  kept : ∀ pre c post, cs = pre ++ c :: post → ∀ name l l', c.name? = some name →
    calls pre = some l → l.call c = some l' → others name l'.all = others name l.all

/-- The first entry whose whole name begins `n` is the entry of `n`. -/
def Unambiguous (hs : List Header) (n : Bytes) : Prop :=
  ∀ e, hs.find? (fun h => strncasecmpEq n h.1) = some e → sameName n e.1 = true

/-- The space check of `header_list_set` lets the call pass: the old value `o` and the new one fit
beside the list, or the list and the old value do not and the subtraction wraps around. -/
def Roomy (hs : List Header) : ListCall → Prop
  | .set name value => ∀ o, lookup name hs = some o →
    packedSize hs + o.length + (1 + value.length + 1) ≤ headerListMaxSize ∨
      headerListMaxSize < packedSize hs + o.length
  | _ => True

/-! ## Entries of the map -/

/-- No two entries have the same name. -/
def Distinct (hs : List Header) : Prop := hs.Pairwise fun h k => sameName h.1 k.1 = false

/-- Entries that a header list can hold. -/
structure Sound (hs : List Header) : Prop where
  storable : ∀ h ∈ hs, Storable h
  distinct : Distinct hs

section Entries

variable {hs : List Header} {n : Bytes} {c : ListCall}

theorem others_append (hs ks : List Header) : others n (hs ++ ks) = others n hs ++ others n ks :=
  List.filter_append _ _

theorem mem_others {h : Header} : h ∈ others n hs ↔ h ∈ hs ∧ sameName n h.1 = false := by
  simp [others]

theorem others_of_none (h : ∀ k ∈ hs, sameName n k.1 = false) : others n hs = hs := by
  rw [others, List.filter_eq_self]
  intro k hk
  simp [h k hk]

/-- An entry put behind the entries of other names. -/
theorem Sound.put (h : Sound hs) {e : Header} (he : Storable e) : Sound (others e.1 hs ++ [e]) := by
  constructor
  · intro k hk
    rcases List.mem_append.mp hk with hk | hk
    · exact h.storable k (mem_others.mp hk).1
    · rwa [List.mem_singleton.mp hk]
  · rw [Distinct, List.pairwise_append]
    refine ⟨h.distinct.filter _, List.pairwise_singleton _ _, ?_⟩
    intro k hk e' he'
    rw [List.mem_singleton.mp he', sameName_comm]
    exact (mem_others.mp hk).2

theorem storable_lookup (h : Sound hs) {o : Bytes} (ho : lookup n hs = some o) : NulFree o := by
  obtain ⟨e, he, rfl⟩ := Option.map_eq_some_iff.mp ho
  exact (h.storable e (List.mem_of_find?_eq_some he)).value_nulFree

theorem Sound.after (h : Sound hs) (hc : c.Valid) : Sound (c.entriesAfter hs) := by
  cases c with
  | reset => exact ⟨by simp [ListCall.entriesAfter], .nil⟩
  | set name value => exact h.put hc
  | add name value =>
    refine h.put (e := (name, _)) ⟨hc.name_ne_nil, hc.name_nulFree, ?_⟩
    cases ho : lookup name hs with
    | none => exact hc.value_nulFree
    | some o =>
      have := storable_lookup h ho
      have hv : NulFree value := hc.value_nulFree
      simp [this, hv]

/-- A call leaves the entries of other names. -/
theorem others_entriesAfter (hname : c.name? = some n) :
    others n (c.entriesAfter hs) = others n hs := by
  have hput : ∀ value, others n (others n hs ++ [(n, value)]) = others n hs := by
    intro value
    rw [others_append, others_of_none fun k hk => (mem_others.mp hk).2, others, others,
      List.filter_cons_of_neg (by simp)]
    exact List.append_nil _
  cases c with
  | reset => simp [ListCall.name?] at hname
  | add name value | set name value =>
    obtain rfl : name = n := Option.some.inj hname
    exact hput _

/-- Looking up behind the entries of other names. -/
theorem lookup_put (n : Bytes) (hs : List Header) (name value : Bytes) :
    lookup n (others name hs ++ [(name, value)]) =
      if sameName n name then some value else lookup n hs := by
  rw [lookup, List.find?_append]
  by_cases hn : sameName n name = true
  -- the other entries have other names, so the new one is found
  · have hnone : (others name hs).find? (fun h => sameName n h.1) = none := by
      rw [List.find?_eq_none]
      intro k hk hk'
      have := sameName_trans (sameName_comm.trans hn) hk'
      rw [(mem_others.mp hk).2] at this
      exact absurd this (by decide)
    rw [hnone, if_pos hn]
    simp [hn]
  · rw [if_neg hn, others, List.find?_filter, lookup]
    -- an entry with the name that is looked up is not removed
    have hfind : (hs.find? fun h => !sameName name h.1 && sameName n h.1) =
        hs.find? fun h => sameName n h.1 := by
      congr 1
      funext h
      by_cases hh : sameName n h.1 = true
      · have hne : sameName name h.1 = false := by
          by_contra hne
          exact hn (sameName_trans hh (sameName_comm.trans (by simpa using hne)))
        simp [hh, hne]
      · simp [hh]
    simp [hfind, hn]

/-- **The entries hold the values expected.** -/
theorem lookup_entriesAfter (n : Bytes) (hs : List Header) (c : ListCall) :
    lookup n (c.entriesAfter hs) = c.expectedAfter n (lookup n hs) := by
  cases c with
  | reset => rfl
  | set name value => exact lookup_put n hs name value
  | add name value =>
    rw [ListCall.entriesAfter, lookup_put, ListCall.expectedAfter]
    by_cases hn : sameName n name = true
    · have hsame : lookup name hs = lookup n hs := by
        rw [lookup, lookup]
        congr 2
        funext h
        rw [Bool.eq_iff_iff]
        exact ⟨sameName_trans hn, sameName_trans (sameName_comm.trans hn)⟩
      rw [if_pos hn, if_pos hn, hsame]
    · rw [if_neg hn, if_neg hn]

theorem lookup_entriesOf (n : Bytes) (cs : List ListCall) :
    lookup n (entriesOf cs) = expected n cs := by
  induction cs using List.reverseRecOn with
  | nil => rfl
  | append_singleton cs c ih =>
    rw [entriesOf, expected, List.foldl_append, List.foldl_append]
    exact (lookup_entriesAfter n (entriesOf cs) c).trans (congrArg (c.expectedAfter n ·) ih)

end Entries

/-! ## The calls on packed records -/

section Records

variable {l : HeaderList} {hs : List Header} {n value : Bytes} {j : ℕ}

theorem size_records (hl : l.buffer = records hs) : l.size = packedSize hs := by
  rw [size, hl]
  rfl

/-- The query returns the value of the first entry whose name begins `n`. -/
theorem get_records (hl : l.buffer = records hs) (hhs : ∀ h ∈ hs, Storable h) (n : Bytes) :
    l.get n = (hs.find? fun h => strncasecmpEq n h.1).map Prod.snd := by
  rw [get, index_records hl hhs, List.find?_eq_bind_findIdx?_getElem?]
  cases hj : hs.findIdx? (fun h => strncasecmpEq n h.1) with
  | none => rfl
  | some j =>
    obtain ⟨hlt, -⟩ := List.findIdx?_eq_some_iff_getElem.mp hj
    have hh : Storable hs[j] := hhs _ (List.getElem_mem hlt)
    have hd : l.buffer.drop (records (hs.take j)).length =
        packed hs[j] ++ records (hs.drop (j + 1)) := by
      rw [hl, records_split hlt]
      exact List.drop_left' rfl
    simp only [Option.map_some, Option.bind_some, List.getElem?_eq_getElem hlt, hd, cstr_packed hh,
      drop_packed_name, cstr_append_zero hh.value_nulFree]

theorem append_records (hl : l.buffer = records hs) {name value : Bytes}
    (hshort : name.length + value.length + 2 < 2 ^ 32) :
    l.append name value =
      if packedSize hs + (name.length + value.length + 2) ≤ headerListMaxSize then
        some ⟨records (hs ++ [(name, value)]), l.count + 1⟩
      else none := by
  have hlen : (packed (name, value)).length = name.length + value.length + 2 := length_packed _
  have happ := append_of_lt l (hlen.trans_lt hshort)
  rw [hlen, size_records hl, hl] at happ
  rw [happ]
  by_cases hfit : packedSize hs + (name.length + value.length + 2) ≤ headerListMaxSize
  · rw [if_neg (by omega), if_pos hfit]
    simp
  · rw [if_pos (by omega), if_neg hfit]

/-- `header_list_add` of a name that is found at `j`. -/
theorem add_found (hl : l.buffer = records hs) (hhs : ∀ h ∈ hs, Storable h)
    (hfind : hs.findIdx? (fun h => strncasecmpEq n h.1) = some j) (hj : j < hs.length)
    (value : Bytes) :
    ∃ l₀ : HeaderList, l₀.buffer = records (hs.take j ++ hs.drop (j + 1)) ∧
      l.add n value = if 1 + value.length > headerListMaxSize - packedSize hs then none
        else l₀.append n (hs[j].2 ++ 44 :: value) := by
  obtain ⟨hlens, hold, hspl⟩ := entry_at_record hl hhs hj
  refine ⟨{ l.splice (records (hs.take j)).length (hs[j].1.length + 1 + hs[j].2.length + 1) with
    count := l.count - 1 }, hspl, ?_⟩
  rw [add, index_records hl hhs, hfind]
  simp only [Option.map_some, hlens, hold, size_records hl]
  rfl

/-- `header_list_set` of a name that is found at `j`. -/
theorem set_found (hl : l.buffer = records hs) (hhs : ∀ h ∈ hs, Storable h)
    (hfind : hs.findIdx? (fun h => strncasecmpEq n h.1) = some j) (hj : j < hs.length)
    (value : Bytes) :
    ∃ l₀ : HeaderList, l₀.buffer = records (hs.take j ++ hs.drop (j + 1)) ∧
      l.set n value =
        if 1 + (value.length : ℤ) + 1 >
          ((headerListMaxSize : ℤ) - packedSize hs - hs[j].2.length) % 2 ^ 32 then none
        else l₀.append n value := by
  obtain ⟨hlens, -, hspl⟩ := entry_at_record hl hhs hj
  refine ⟨{ l.splice (records (hs.take j)).length (hs[j].1.length + 1 + hs[j].2.length + 1) with
    count := l.count - 1 }, hspl, ?_⟩
  rw [set, index_records hl hhs, hfind]
  simp only [Option.map_some, hlens, size_records hl]
  rfl

/-- A call on a name that is not found appends. -/
theorem call_absent (hl : l.buffer = records hs) (hhs : ∀ h ∈ hs, Storable h) {c : ListCall}
    (hname : c.name? = some n) (hfind : hs.findIdx? (fun h => strncasecmpEq n h.1) = none) :
    ∃ value, (c = .add n value ∨ c = .set n value) ∧ l.call c = l.append n value := by
  cases c with
  | reset => simp [ListCall.name?] at hname
  | add name value =>
    obtain rfl : name = n := Option.some.inj hname
    exact ⟨value, Or.inl rfl, by rw [call, add, index_records hl hhs, hfind]; rfl⟩
  | set name value =>
    obtain rfl : name = n := Option.some.inj hname
    exact ⟨value, Or.inr rfl, by rw [call, set, index_records hl hhs, hfind]; rfl⟩

end Records

/-! ## One call -/

section Call

variable {l l' : HeaderList} {hs : List Header} {n : Bytes} {j : ℕ} {c : ListCall}

theorem others_of_notFound (hfind : hs.findIdx? (fun h => strncasecmpEq n h.1) = none) :
    others n hs = hs ∧ lookup n hs = none := by
  have hnone : ∀ k ∈ hs, sameName n k.1 = false := by
    intro k hk
    by_contra hsame
    have hk' := List.findIdx?_eq_none_iff.mp hfind k hk
    rw [strncasecmpEq_of_sameName (by simpa using hsame)] at hk'
    exact absurd hk' (by decide)
  refine ⟨others_of_none hnone, ?_⟩
  rw [lookup, List.find?_eq_none.mpr fun k hk => by simp [hnone k hk]]
  rfl

/-- The entry found, when it has the name looked for, is the only one of that name. -/
theorem others_of_found (h : Sound hs) (hj : j < hs.length) (hsame : sameName n hs[j].1 = true) :
    others n hs = hs.take j ++ hs.drop (j + 1) ∧ lookup n hs = some hs[j].2 := by
  have hsplit : hs = hs.take j ++ hs[j] :: hs.drop (j + 1) := by
    rw [← List.drop_eq_getElem_cons hj, List.take_append_drop]
  have hdist := h.distinct
  rw [Distinct, hsplit, List.pairwise_append, List.pairwise_cons] at hdist
  obtain ⟨-, ⟨hafter, -⟩, hbefore⟩ := hdist
  -- the entry is the only one of its name, before it and after it
  have hb : ∀ k ∈ hs.take j, sameName n k.1 = false := by
    intro k hk
    by_contra hne
    have := hbefore k hk _ List.mem_cons_self
    rw [sameName_trans (sameName_comm.trans (by simpa using hne)) hsame] at this
    exact absurd this (by decide)
  have ha : ∀ k ∈ hs.drop (j + 1), sameName n k.1 = false := by
    intro k hk
    by_contra hne
    have := hafter k hk
    rw [sameName_trans (sameName_comm.trans hsame) (by simpa using hne)] at this
    exact absurd this (by decide)
  constructor
  · conv_lhs => rw [hsplit]
    rw [others_append, others_of_none hb, others, List.filter_cons_of_neg (by simp [hsame])]
    exact congrArg _ (others_of_none ha)
  · rw [lookup]
    conv_lhs => rw [hsplit]
    rw [List.find?_append, List.find?_eq_none.mpr fun k hk => by simp [hb k hk],
      List.find?_cons_of_pos (by simp [hsame])]
    rfl

/-- The entry found at `j` is the first whose name begins `n`. -/
theorem find?_of_findIdx? (hfind : hs.findIdx? (fun h => strncasecmpEq n h.1) = some j)
    (hj : j < hs.length) : hs.find? (fun h => strncasecmpEq n h.1) = some hs[j] := by
  rw [List.find?_eq_bind_findIdx?_getElem?, hfind]
  exact List.getElem?_eq_getElem hj

/-- The space check of `header_list_set`, computed modulo `2 ^ 32`. -/
theorem roomy_iff {size old new : ℕ} (hold : old ≤ size) (hsize : size ≤ headerListMaxSize)
    (hnew : size + new ≤ headerListMaxSize + old) :
    ¬ 1 + (new : ℤ) + 1 > ((headerListMaxSize : ℤ) - size - old) % 2 ^ 32 ↔
      size + old + (1 + new + 1) ≤ headerListMaxSize ∨ headerListMaxSize < size + old := by
  have hmax : headerListMaxSize = 512 := rfl
  rw [hmax] at hsize hnew ⊢
  rcases Nat.lt_or_ge 512 (size + old) with hlt | hge
  · rw [Int.emod_eq_add_self_emod, Int.emod_eq_of_lt (by omega) (by omega)]
    omega
  · rw [Int.emod_eq_of_lt (by omega) (by omega)]
    omega

/-- **A call that finds the entry of its name** does what the map does. -/
theorem call_ok (h : Sound hs) (hl : l.buffer = records hs)
    (hsize : packedSize hs ≤ headerListMaxSize)
    (hfit : packedSize (c.entriesAfter hs) ≤ headerListMaxSize)
    (hu : ∀ name, c.name? = some name → Unambiguous hs name) (hr : Roomy hs c) :
    ∃ l', l.call c = some l' ∧ l'.buffer = records (c.entriesAfter hs) := by
  have hmax : headerListMaxSize = 512 := rfl
  cases hname : c.name? with
  | none =>
    cases c with
    | reset => exact ⟨reset, rfl, rfl⟩
    | add | set => simp [ListCall.name?] at hname
  | some name =>
    cases hfind : hs.findIdx? (fun k => strncasecmpEq name k.1) with
    | none =>
      -- no entry matches: the pair is appended
      obtain ⟨hothers, hlook⟩ := others_of_notFound hfind
      obtain ⟨value, hc, hcall⟩ := call_absent hl h.storable hname hfind
      have hafter : c.entriesAfter hs = hs ++ [(name, value)] := by
        rcases hc with rfl | rfl
        · rw [ListCall.entriesAfter, hothers, hlook]
          rfl
        · rw [ListCall.entriesAfter, hothers]
      rw [hafter] at hfit ⊢
      simp only [packedSize_append, packedSize_cons, packedSize_nil] at hfit
      rw [hcall, append_records hl (by omega), if_pos (by omega)]
      exact ⟨_, rfl, rfl⟩
    | some j =>
      obtain ⟨hj, -⟩ := List.findIdx?_eq_some_iff_getElem.mp hfind
      -- the entry that is found has the name of the call, so it is the only one
      have hsame := hu name hname _ (find?_of_findIdx? hfind hj)
      have hlen := sameName_length hsame
      have herase := packedSize_erase hj
      obtain ⟨hothers, hlook⟩ := others_of_found h hj hsame
      cases c with
      | reset => simp [ListCall.name?] at hname
      | add name' value =>
        obtain rfl : name' = name := Option.some.inj hname
        obtain ⟨l₀, hl₀, hadd⟩ := add_found hl h.storable hfind hj value
        rw [ListCall.entriesAfter, hothers, hlook] at hfit ⊢
        simp only [packedSize_append _ [_], packedSize_cons, packedSize_nil, Option.elim_some,
          List.length_append, List.length_cons] at hfit
        rw [call, hadd, if_neg (by omega),
          append_records hl₀ (by rw [List.length_append, List.length_cons]; omega),
          if_pos (by rw [List.length_append, List.length_cons]; omega)]
        exact ⟨_, rfl, rfl⟩
      | set name' value =>
        obtain rfl : name' = name := Option.some.inj hname
        obtain ⟨l₀, hl₀, hset⟩ := set_found hl h.storable hfind hj value
        rw [ListCall.entriesAfter, hothers] at hfit ⊢
        simp only [packedSize_append _ [_], packedSize_cons, packedSize_nil] at hfit
        have hroom := (roomy_iff (by omega) hsize (by omega)).mpr (hr _ hlook)
        rw [call, hset, if_neg hroom, append_records hl₀ (by omega), if_pos (by omega)]
        exact ⟨_, rfl, rfl⟩

/-- The strings of a call whose entries fit are short. -/
theorem length_le_of_fits {value : Bytes} (hcall : c = .add n value ∨ c = .set n value)
    (hfit : packedSize (c.entriesAfter hs) ≤ headerListMaxSize) :
    n.length + value.length + 2 ≤ headerListMaxSize := by
  rcases hcall with rfl | rfl
  · rw [ListCall.entriesAfter, packedSize_append, packedSize_cons] at hfit
    have hvalue : value.length ≤
        ((lookup n hs).elim value fun o => o ++ 44 :: value).length := by
      cases lookup n hs with
      | none => exact Nat.le_refl _
      | some o =>
        rw [Option.elim_some, List.length_append, List.length_cons]
        omega
    dsimp only at hfit
    omega
  · rw [ListCall.entriesAfter, packedSize_append, packedSize_cons] at hfit
    dsimp only at hfit
    omega

/-- A call that finds an entry of another name takes that entry out. -/
theorem call_found (hl : l.buffer = records hs) (hhs : ∀ h ∈ hs, Storable h)
    (hsize : packedSize hs ≤ headerListMaxSize)
    (hfit : packedSize (c.entriesAfter hs) ≤ headerListMaxSize)
    (hname : c.name? = some n) (hc : c.Valid)
    (hfind : hs.findIdx? (fun h => strncasecmpEq n h.1) = some j) (hj : j < hs.length)
    (hcall : l.call c = some l') :
    ∃ value, l'.all = hs.take j ++ hs.drop (j + 1) ++ [(n, value)] := by
  -- the call takes out the entry that it found, and appends one of its own name
  have hrest : ∀ h ∈ hs.take j ++ hs.drop (j + 1), Storable h := by
    intro h hh
    rcases List.mem_append.mp hh with hh | hh
    · exact hhs h (List.mem_of_mem_take hh)
    · exact hhs h (List.mem_of_mem_drop hh)
  have hmax : headerListMaxSize = 512 := rfl
  have hold : hs[j].2.length ≤ packedSize hs := by
    rw [packedSize_erase hj]
    omega
  have hdone : ∀ (l₀ : HeaderList) (value : Bytes), Storable (n, value) →
      n.length + value.length + 2 < 2 ^ 32 →
      l₀.buffer = records (hs.take j ++ hs.drop (j + 1)) → l₀.append n value = some l' →
      ∃ value, l'.all = hs.take j ++ hs.drop (j + 1) ++ [(n, value)] := by
    intro l₀ value hv hshort hl₀ happ
    rw [append_records hl₀ hshort] at happ
    split at happ
    · obtain rfl := Option.some.inj happ
      refine ⟨value, all_records rfl fun h hh => ?_⟩
      rcases List.mem_append.mp hh with hh | hh
      · exact hrest h hh
      · rwa [List.mem_singleton.mp hh]
    · exact absurd happ (by simp)
  cases c with
  | reset => simp [ListCall.name?] at hname
  | add name value =>
    obtain rfl : name = n := Option.some.inj hname
    obtain ⟨l₀, hl₀, hadd⟩ := add_found hl hhs hfind hj value
    rw [call, hadd] at hcall
    split at hcall
    · exact absurd hcall (by simp)
    · have hnul := (hhs _ (List.getElem_mem hj)).value_nulFree
      have hv : NulFree value := hc.value_nulFree
      have hlen := length_le_of_fits (.inl rfl) hfit
      exact hdone l₀ (hs[j].2 ++ 44 :: value)
        ⟨hc.name_ne_nil, hc.name_nulFree, by simp [hnul, hv]⟩
        (by rw [List.length_append, List.length_cons]; omega) hl₀ hcall
  | set name value =>
    obtain rfl : name = n := Option.some.inj hname
    obtain ⟨l₀, hl₀, hset⟩ := set_found hl hhs hfind hj value
    rw [call, hset] at hcall
    split at hcall
    · exact absurd hcall (by simp)
    · have hlen := length_le_of_fits (.inr rfl) hfit
      exact hdone l₀ _ hc (by omega) hl₀ hcall

/-- **A call that touches no other entry** found the entry of its name. -/
theorem unambiguous_of_call (h : Sound hs) (hl : l.buffer = records hs)
    (hsize : packedSize hs ≤ headerListMaxSize)
    (hfit : packedSize (c.entriesAfter hs) ≤ headerListMaxSize) (hc : c.Valid)
    (hname : c.name? = some n) (hcall : l.call c = some l')
    (hkept : others n l'.all = others n l.all) : Unambiguous hs n := by
  intro e he
  rw [List.find?_eq_bind_findIdx?_getElem?] at he
  obtain ⟨j, hfind, hget⟩ := Option.bind_eq_some_iff.mp he
  obtain ⟨hj, rfl⟩ := List.getElem?_eq_some_iff.mp hget
  obtain ⟨value, hall⟩ := call_found hl h.storable hsize hfit hname hc hfind hj hcall
  -- the entry taken out would be missing among the others
  by_contra hne
  have hsplit : hs = hs.take j ++ hs[j] :: hs.drop (j + 1) := by
    rw [← List.drop_eq_getElem_cons hj, List.take_append_drop]
  have hlen := congrArg List.length hkept
  rw [hall, all_records hl h.storable] at hlen
  conv_rhs at hlen => rw [hsplit]
  have hout : others n (hs[j] :: hs.drop (j + 1)) = hs[j] :: others n (hs.drop (j + 1)) :=
    List.filter_cons_of_pos (by simpa using hne)
  have hin : others n [(n, value)] = [] := List.filter_cons_of_neg (by simp)
  simp only [others_append, hout, hin, List.length_append, List.length_cons, List.length_nil] at hlen
  omega

/-- A call of `header_list_set` that succeeds passed the space check. -/
theorem roomy_of_call (h : Sound hs) (hl : l.buffer = records hs)
    (hsize : packedSize hs ≤ headerListMaxSize)
    (hfit : packedSize (c.entriesAfter hs) ≤ headerListMaxSize)
    (hu : ∀ name, c.name? = some name → Unambiguous hs name) (hcall : l.call c = some l') :
    Roomy hs c := by
  cases c with
  | reset => trivial
  | add name value => trivial
  | set name value =>
    intro o ho
    cases hfind : hs.findIdx? (fun k => strncasecmpEq name k.1) with
    | none => rw [(others_of_notFound hfind).2] at ho; exact absurd ho (by simp)
    | some j =>
      obtain ⟨hj, -⟩ := List.findIdx?_eq_some_iff_getElem.mp hfind
      have hsame := hu name rfl _ (find?_of_findIdx? hfind hj)
      have hlen := sameName_length hsame
      have herase := packedSize_erase hj
      obtain ⟨hothers, hlook⟩ := others_of_found h hj hsame
      obtain rfl : hs[j].2 = o := Option.some.inj (hlook.symm.trans ho)
      obtain ⟨l₀, hl₀, hset⟩ := set_found hl h.storable hfind hj value
      rw [ListCall.entriesAfter, hothers] at hfit
      simp only [packedSize_append _ [_], packedSize_cons, packedSize_nil] at hfit
      rw [call, hset] at hcall
      -- a call that found no room would have failed
      refine (roomy_iff (by omega) hsize (by omega)).mp fun hroom => ?_
      rw [if_pos hroom] at hcall
      exact absurd hcall (by simp)

end Call

/-! ## Sequences of calls -/

section Sequences

variable {l : HeaderList} {cs : List ListCall} {c : ListCall} {n : Bytes}

theorem calls_snoc (cs : List ListCall) (c : ListCall) :
    calls (cs ++ [c]) = (calls cs).bind (call · c) := by
  rw [calls, List.foldlM_append]
  simp only [List.foldlM_cons, List.foldlM_nil, Option.bind_eq_bind, Option.pure_def,
    Option.bind_fun_some]
  rfl

theorem entriesOf_snoc (cs : List ListCall) (c : ListCall) :
    entriesOf (cs ++ [c]) = c.entriesAfter (entriesOf cs) := by
  rw [entriesOf, List.foldl_append]
  rfl

theorem sound_entriesOf (hvalid : ∀ c ∈ cs, c.Valid) : Sound (entriesOf cs) := by
  induction cs using List.reverseRecOn with
  | nil => exact ⟨by simp [entriesOf], .nil⟩
  | append_singleton cs c ih =>
    rw [entriesOf_snoc]
    exact (ih fun d hd => hvalid d (List.mem_append_left _ hd)).after (hvalid c (by simp))

/-- The calls of the sequence all find the entry of their name and pass the space check. -/
def Clear (cs : List ListCall) : Prop :=
  ∀ pre c post, cs = pre ++ c :: post → ∀ name, c.name? = some name →
    Unambiguous (entriesOf pre) name ∧ Roomy (entriesOf pre) c

/-- The beginning of a clear sequence is clear. -/
theorem Clear.left {ds : List ListCall} (h : Clear (cs ++ ds)) : Clear cs := by
  rintro pre d post rfl
  exact h pre d (post ++ ds) (by simp)

theorem Clear.last (h : Clear (cs ++ [c])) :
    (∀ name, c.name? = some name → Unambiguous (entriesOf cs) name) ∧ Roomy (entriesOf cs) c := by
  refine ⟨fun name hname => (h cs c [] rfl name hname).1, ?_⟩
  cases c with
  | set name value => exact (h cs _ [] rfl name rfl).2
  | _ => trivial

/-- **A clear sequence of calls** packs the entries of the map. -/
theorem calls_of_clear (hvalid : ∀ c ∈ cs, c.Valid) (hfit : Fits cs) (hclear : Clear cs) :
    ∃ l, calls cs = some l ∧ l.buffer = records (entriesOf cs) := by
  induction cs using List.reverseRecOn with
  | nil => exact ⟨reset, rfl, rfl⟩
  | append_singleton cs c ih =>
    have hvalid' : ∀ d ∈ cs, d.Valid := fun d hd => hvalid d (List.mem_append_left _ hd)
    have hfit' : Fits cs := fun pre hpre => hfit pre (hpre.trans (List.prefix_append _ _))
    obtain ⟨l, hcalls, hl⟩ := ih hvalid' hfit' hclear.left
    have hafter := hfit _ List.prefix_rfl
    rw [entriesOf_snoc] at hafter ⊢
    obtain ⟨l', hcall, hl'⟩ := call_ok (sound_entriesOf hvalid') hl (hfit' cs List.prefix_rfl) hafter
      hclear.last.1 hclear.last.2
    exact ⟨l', by rw [calls_snoc, hcalls]; exact hcall, hl'⟩

/-- A sequence that succeeds and touches no entry of another name is clear. -/
theorem clear_of_kept (hvalid : ∀ c ∈ cs, c.Valid) (hfit : Fits cs) (hcalls : calls cs = some l)
    (hkept : ∀ pre c post, cs = pre ++ c :: post → ∀ name l l', c.name? = some name →
      calls pre = some l → l.call c = some l' → others name l'.all = others name l.all) :
    Clear cs := by
  induction cs using List.reverseRecOn generalizing l with
  | nil =>
    rintro pre c post h
    simp at h
  | append_singleton cs c ih =>
    have hvalid' : ∀ d ∈ cs, d.Valid := fun d hd => hvalid d (List.mem_append_left _ hd)
    have hfit' : Fits cs := fun pre hpre => hfit pre (hpre.trans (List.prefix_append _ _))
    rw [calls_snoc] at hcalls
    obtain ⟨l₀, hcalls₀, hcall⟩ := Option.bind_eq_some_iff.mp hcalls
    -- the calls before the last one were clear, so the list is known there
    have hclear : Clear cs := ih hvalid' hfit' hcalls₀ fun pre d post h =>
      hkept pre d (post ++ [c]) (by simp [h])
    obtain ⟨l₁, hcalls₁, hl⟩ := calls_of_clear hvalid' hfit' hclear
    obtain rfl : l₀ = l₁ := Option.some.inj (hcalls₀.symm.trans hcalls₁)
    have hsound := sound_entriesOf hvalid'
    have hafter := hfit _ List.prefix_rfl
    rw [entriesOf_snoc] at hafter
    have hu : ∀ name, c.name? = some name → Unambiguous (entriesOf cs) name := fun name hname =>
      unambiguous_of_call hsound hl (hfit' cs List.prefix_rfl) hafter (hvalid c (by simp)) hname
        hcall (hkept cs c [] rfl name l₀ l hname hcalls₀ hcall)
    have hr := roomy_of_call hsound hl (hfit' cs List.prefix_rfl) hafter hu hcall
    intro pre d post heq name hname
    -- the last call, or one of those before it
    rcases List.eq_nil_or_concat' post with rfl | ⟨post, d', rfl⟩
    · obtain ⟨rfl, hd⟩ := List.append_inj' heq rfl
      obtain rfl := List.singleton_inj.mp hd
      exact ⟨hu name hname, hr⟩
    · rw [← List.cons_append, ← List.append_assoc] at heq
      obtain ⟨rfl, -⟩ := List.append_inj' heq rfl
      exact hclear pre d post rfl name hname

/-- **The header list is a map exactly when no name shadows another.** For calls with names that are
not empty and strings without NUL, whose entries all fit: every call succeeds, touches no entry of
another name, and the query returns the value expected, if and only if each call finds the entry of
its own name first and passes the space check, and the first entry whose whole name begins the name
of the query has that name or the value expected. -/
theorem mapLike_iff (hvalid : ∀ c ∈ cs, c.Valid) (hfit : Fits cs) (n : Bytes) :
    MapLike cs n ↔ Clear cs ∧
      ∀ e, (entriesOf cs).find? (fun h => strncasecmpEq n h.1) = some e →
        sameName n e.1 = true ∨ expected n cs = some e.2 := by
  have hsound := sound_entriesOf hvalid
  constructor
  -- the value that is returned is that of the first entry that matches
  · rintro ⟨⟨l, hcalls, hget⟩, hkept⟩
    have hclear := clear_of_kept hvalid hfit hcalls hkept
    obtain ⟨l', hcalls', hl⟩ := calls_of_clear hvalid hfit hclear
    obtain rfl : l = l' := Option.some.inj (hcalls.symm.trans hcalls')
    refine ⟨hclear, fun e he => Or.inr ?_⟩
    rw [← hget, get_records hl hsound.storable, he]
    rfl
  · rintro ⟨hclear, hquery⟩
    obtain ⟨l, hcalls, hl⟩ := calls_of_clear hvalid hfit hclear
    refine ⟨⟨l, hcalls, ?_⟩, ?_⟩
    -- the query finds nothing, the entry of its name, or another one with the expected value
    · rw [get_records hl hsound.storable]
      cases he : (entriesOf cs).find? (fun h => strncasecmpEq n h.1) with
      | none =>
        rw [← lookup_entriesOf, (others_of_notFound ?_).2]
        · rfl
        · rw [List.findIdx?_eq_none_iff]
          exact fun k hk => by simpa using List.find?_eq_none.mp he k hk
      | some e =>
        rcases hquery e he with hsame | hvalue
        · rw [List.find?_eq_bind_findIdx?_getElem?] at he
          obtain ⟨j, -, hget⟩ := Option.bind_eq_some_iff.mp he
          obtain ⟨hj, rfl⟩ := List.getElem?_eq_some_iff.mp hget
          rw [← lookup_entriesOf, (others_of_found hsound hj hsame).2]
          rfl
        · exact hvalue.symm
    -- a call of the sequence: the list before it has the entries of the calls before it
    · rintro pre c post rfl name l₀ l₁ hname hcalls₀ hcall
      have hvalid' : ∀ d ∈ pre, d.Valid := fun d hd => hvalid d (List.mem_append_left _ hd)
      have hfit' : Fits pre := fun p hp => hfit p (hp.trans (List.prefix_append _ _))
      have hsound' := sound_entriesOf hvalid'
      obtain ⟨l', hcalls', hl₀⟩ := calls_of_clear hvalid' hfit' hclear.left
      obtain rfl : l₀ = l' := Option.some.inj (hcalls₀.symm.trans hcalls')
      have hlast : Clear (pre ++ [c]) := @Clear.left _ post (by simpa using hclear)
      have hafter := hfit (pre ++ [c]) ⟨post, by simp⟩
      rw [entriesOf_snoc] at hafter
      obtain ⟨l', hcall', hl₁⟩ := call_ok hsound' hl₀ (hfit' pre List.prefix_rfl) hafter hlast.last.1
        hlast.last.2
      obtain rfl : l₁ = l' := Option.some.inj (hcall.symm.trans hcall')
      rw [all_records hl₁ (hsound'.after (hvalid c (by simp))).storable,
        all_records hl₀ hsound'.storable]
      exact others_entriesAfter hname

end Sequences

/-- The name `x`, then the name `xy`, which `x` begins. -/
def shadowingCalls : List ListCall := [.add [120] [49], .set [120, 121] [50]]

theorem shadowingCalls_valid : ∀ c ∈ shadowingCalls, c.Valid := by
  simp only [shadowingCalls, List.mem_cons, List.not_mem_nil, or_false]
  rintro c (rfl | rfl)
  · exact ⟨by decide, by decide, by decide⟩
  · exact ⟨by decide, by decide, by decide⟩

theorem shadowingCalls_fits : Fits shadowingCalls := by
  intro pre hpre
  have hall : ∀ pre ∈ shadowingCalls.inits, packedSize (entriesOf pre) ≤ headerListMaxSize := by
    decide
  exact hall pre (List.mem_inits pre _ |>.mpr hpre)

theorem mapLike_shadowingCalls_iff :
    MapLike shadowingCalls [120] ↔ Clear shadowingCalls ∧
      ∀ e, (entriesOf shadowingCalls).find? (fun h => strncasecmpEq [120] h.1) = some e →
        sameName [120] e.1 = true ∨ expected [120] shadowingCalls = some e.2 :=
  mapLike_iff shadowingCalls_valid shadowingCalls_fits [120]

/-- Setting `xy` renames the entry of `x`: the query for `x` finds nothing. -/
theorem not_mapLike_of_shadowing :
    ¬ ∀ cs n, (∀ c ∈ cs, ListCall.Valid c) → Fits cs → MapLike cs n := by
  intro h
  obtain ⟨l, hcalls, hget⟩ :=
    (h shadowingCalls [120] shadowingCalls_valid shadowingCalls_fits).result
  have hl : calls shadowingCalls = some ⟨[120, 121, 0, 50, 0], 1⟩ := by decide
  obtain rfl := Option.some.inj (hcalls.symm.trans hl)
  revert hget
  decide

end Two.HeaderList
