import Mathlib.Data.List.Find
import Two.HeaderMap
import Two.Http

/-!
# The checks on a request

`validate_pseudoheaders` looks up five names in the list that `header_list_add` has built from the
headers of a request. It tells a header that occurs twice from the comma with which the values were
merged, and the lookups find the first name that begins the one they look for.

## Main definitions

* `adds hs`: the list after the headers `hs` were added
* `gathered hs`: the pairs in this list; `Fitting hs`: they fit after each header
* `occurrences n hs`: the values of the headers of a name
* `ValidRequest hs`: what a request has to satisfy
* `Unshadowed hs n`: the pair of the name `n` is found for the headers of this name and no others

## Main results

* `get_adds`: the lookup of an unshadowed name finds its values, merged
* `validates_iff`: exactly when the checks agree with the definition, where no name is shadowed
-/

namespace Two

open HeaderList

/-- The list after the headers of a request were added, if all fit. -/
def adds (hs : List Header) : Option HeaderList := hs.foldlM (fun l h => l.add h.1 h.2) .reset

/-- The pairs in the list after the headers of a request were added: each header is appended, or
merged with the first pair whose name begins its own. -/
def gathered (hs : List Header) : List Header := hs.foldl addTo []

/-- What the list holds fits after each of the headers. -/
def Fitting (hs : List Header) : Prop :=
  ∀ ks, ks <+: hs → packedSize (gathered ks) ≤ headerListMaxSize

/-- The values of the headers of a name, compared up to case. -/
def occurrences (n : Bytes) (hs : List Header) : List Bytes :=
  (hs.filter fun h => sameName n h.1).map Prod.snd

/-- The pseudo-headers that are required. -/
def pseudoheaders : List Bytes := [ascii ":method", ascii ":scheme", ascii ":path"]

/-- The names that `validate_pseudoheaders` looks up. -/
def inspected : List Bytes := pseudoheaders ++ [ascii "connection", ascii "te"]

/-- The pseudo-headers occur exactly once, no header is named `connection`, and `te` occurs at most
once, with the value `trailers`. -/
structure ValidRequest (hs : List Header) : Prop where
  once : ∀ n ∈ pseudoheaders, (occurrences n hs).length = 1
  connection : occurrences (ascii "connection") hs = []
  te : occurrences (ascii "te") hs = [] ∨ occurrences (ascii "te") hs = [ascii "trailers"]

/-- The name `n` is not shadowed by others: a header that is merged with a pair has the name `n`
exactly if the pair had it, and the search for `n` finds a pair of this name or none. -/
structure Unshadowed (hs : List Header) (n : Bytes) : Prop where
  adds : ∀ ks h, ks ++ [h] <+: hs →
    ∀ e, (gathered ks).find? (fun e => strncasecmpEq h.1 e.1) = some e →
      sameName n e.1 = sameName n h.1
  search : ∀ e, (gathered hs).find? (fun e => strncasecmpEq n e.1) = some e → sameName n e.1 = true

/-! ## Merged values -/

/-- The value in which `header_list_add` merges the values of a name. -/
def merged : List Bytes → Option Bytes
  | [] => none
  | v :: vs => some (vs.foldl (fun o v => o ++ 44 :: v) v)

section Merged

variable {v : Bytes} {vs : List Bytes}

theorem merged_snoc (vs : List Bytes) (v : Bytes) :
    merged (vs ++ [v]) = some ((merged vs).elim v fun o => o ++ 44 :: v) := by
  cases vs with
  | nil => rfl
  | cons u vs => simp [merged]

theorem merged_eq_none : merged vs = none ↔ vs = [] := by
  cases vs <;> simp [merged]

/-- A merged value without a comma is a single value. -/
theorem eq_singleton_of_merged (h : merged vs = some v) (hv : 44 ∉ v) : vs = [v] := by
  rcases List.eq_nil_or_concat' vs with rfl | ⟨us, u, rfl⟩
  · cases h
  · rw [merged_snoc, Option.some.injEq] at h
    cases hus : merged us with
    | none =>
      rw [merged_eq_none] at hus
      subst hus
      rw [← h]
      rfl
    | some o =>
      rw [hus] at h
      exact absurd (by rw [← h]; simp) hv

end Merged

/-! ## The list of a request -/

section Adds

variable {l l' : HeaderList} {hs es : List Header} {h : Header} {n : Bytes}

theorem adds_snoc (hs : List Header) (h : Header) :
    adds (hs ++ [h]) = (adds hs).bind fun l => l.add h.1 h.2 := by
  rw [adds, List.foldlM_append]
  simp only [List.foldlM_cons, List.foldlM_nil, Option.bind_eq_bind, Option.pure_def,
    Option.bind_fun_some]
  rfl

theorem occurrences_append (n : Bytes) (hs ks : List Header) :
    occurrences n (hs ++ ks) = occurrences n hs ++ occurrences n ks := by
  simp [occurrences]

theorem occurrences_of_same (hn : sameName n h.1 = true) : occurrences n [h] = [h.2] := by
  simp [occurrences, hn]

theorem occurrences_of_other (hn : sameName n h.1 = false) : occurrences n [h] = [] := by
  simp [occurrences, hn]

theorem gathered_snoc (hs : List Header) (h : Header) : gathered (hs ++ [h]) = addTo (gathered hs) h := by
  rw [gathered, List.foldl_append]
  rfl

theorem storable_gathered (hstored : ∀ h ∈ hs, Storable h) : ∀ e ∈ gathered hs, Storable e := by
  induction hs using List.reverseRecOn with
  | nil => simp [gathered]
  | append_singleton hs h ih =>
    rw [gathered_snoc]
    exact storable_addTo (ih fun k hk => hstored k (List.mem_append_left _ hk)) (hstored h (by simp))

/-- Headers that fit are added, and the list packs the pairs. -/
theorem adds_gathered (hstored : ∀ h ∈ hs, Storable h) (hfit : Fitting hs) :
    ∃ l, adds hs = some l ∧ l.buffer = records (gathered hs) := by
  induction hs using List.reverseRecOn with
  | nil => exact ⟨HeaderList.reset, rfl, rfl⟩
  | append_singleton hs h ih =>
    have hstored' : ∀ k ∈ hs, Storable k := fun k hk => hstored k (List.mem_append_left _ hk)
    obtain ⟨l, hadds, hbuffer⟩ := ih hstored'
      fun ks hks => hfit ks (hks.trans (List.prefix_append _ _))
    have hlast := hfit _ List.prefix_rfl
    rw [gathered_snoc] at hlast
    obtain ⟨l', hadd, hbuffer'⟩ := add_records hbuffer (storable_gathered hstored') hlast
    refine ⟨l', ?_, by rw [gathered_snoc, hbuffer']⟩
    rw [adds_snoc, hadds]
    exact hadd

/-- The list has room for headers that fit unmerged. -/
theorem fitting_of_packedSize (hstored : ∀ h ∈ hs, Storable h)
    (hfit : packedSize hs ≤ headerListMaxSize) : Fitting hs := by
  have hle : ∀ ks, (∀ k ∈ ks, Storable k) → packedSize (gathered ks) ≤ packedSize ks := by
    intro ks hks
    induction ks using List.reverseRecOn with
    | nil => simp [gathered]
    | append_singleton ks k ih =>
      have hk := packedSize_addTo_le (gathered ks) (hks k (by simp)).name_ne_nil
      have hks' := ih fun j hj => hks j (List.mem_append_left _ hj)
      rw [gathered_snoc, packedSize_append, packedSize_cons, packedSize_nil]
      rw [length_packed] at hk
      omega
  rintro ks ⟨ts, rfl⟩
  rw [packedSize_append] at hfit
  have hks := hle ks fun k hk => hstored k (List.mem_append_left _ hk)
  omega

/-- The pairs show the values of the name `n`, merged. -/
def Shows (n : Bytes) (hs es : List Header) : Prop :=
  occurrences n es = (merged (occurrences n hs)).toList

/-- One header more: it is merged with the pair of its name, or leaves the pairs of `n`. -/
theorem Shows.addTo (hshows : Shows n hs es)
    (hclear : ∀ e, es.find? (fun e => strncasecmpEq h.1 e.1) = some e →
      sameName n e.1 = sameName n h.1) :
    Shows n (hs ++ [h]) (addTo es h) := by
  rw [Shows] at hshows ⊢
  rw [HeaderList.addTo]
  cases hfind : es.findIdx? (fun k => strncasecmpEq h.1 k.1) with
  | none =>
    rw [occurrences_append, occurrences_append]
    cases hsame : sameName n h.1 with
    | false => rw [occurrences_of_other hsame, List.append_nil, List.append_nil, hshows]
    | true =>
      -- no pair has the name, so no header before had it
      have hnone : occurrences n es = [] := by
        rw [occurrences, List.map_eq_nil_iff, List.filter_eq_nil_iff]
        intro e he hn
        have hno := List.findIdx?_eq_none_iff.mp hfind e he
        rw [strncasecmpEq_of_sameName (sameName_trans (sameName_comm.trans hsame) hn)] at hno
        cases hno
      have hmerged : merged (occurrences n hs) = none := by
        rw [← Option.toList_eq_nil_iff, ← hshows, hnone]
      rw [occurrences_of_same hsame, merged_snoc, hmerged, hnone]
      rfl
  | some j =>
    obtain ⟨hj, -⟩ := List.findIdx?_eq_some_iff_getElem.mp hfind
    have hget : es.getD j ([], []) = es[j] := by simp [List.getD_eq_getElem?_getD, hj]
    have hfound := hclear _ (find?_of_findIdx? hfind hj)
    have hsplit : es = es.take j ++ ([es[j]] ++ es.drop (j + 1)) := by
      rw [List.singleton_append, ← List.drop_eq_getElem_cons hj, List.take_append_drop]
    rw [hsplit, occurrences_append, occurrences_append] at hshows
    simp only [hget]
    rw [occurrences_append, occurrences_append, occurrences_append]
    cases hsame : sameName n h.1 with
    | false =>
      -- neither the pair nor the header has the name
      rw [occurrences_of_other (hfound.trans hsame), List.nil_append] at hshows
      have hadded := occurrences_of_other (h := (h.1, es[j].2 ++ 44 :: h.2)) hsame
      rw [hadded, occurrences_of_other hsame, List.append_nil, List.append_nil, hshows]
    | true =>
      rw [occurrences_of_same (hfound.trans hsame)] at hshows
      have hadded := occurrences_of_same (h := (h.1, es[j].2 ++ 44 :: h.2)) hsame
      rw [hadded, occurrences_of_same hsame, merged_snoc]
      -- it is the only pair of the name
      cases hm : merged (occurrences n hs) with
      | none => simp [hm] at hshows
      | some o =>
        rw [hm, Option.toList_some] at hshows
        obtain ⟨hbefore, hrest⟩ := List.append_eq_singleton_iff.mp hshows |>.resolve_right
          fun hc => by simp at hc
        rw [List.singleton_append, List.cons.injEq] at hrest
        rw [hbefore, hrest.2, hrest.1]
        rfl

/-- The list of a request shows the values of a name that is not shadowed. -/
theorem shows_gathered
    (hclear : ∀ ks h, ks ++ [h] <+: hs →
      ∀ e, (gathered ks).find? (fun e => strncasecmpEq h.1 e.1) = some e →
        sameName n e.1 = sameName n h.1) : Shows n hs (gathered hs) := by
  induction hs using List.reverseRecOn with
  | nil => rfl
  | append_singleton hs h ih =>
    rw [gathered_snoc]
    exact (ih fun ks k hks => hclear ks k (hks.trans (List.prefix_append _ _))).addTo
      (hclear hs h List.prefix_rfl)

/-- **The lookup of a name that is not shadowed** finds its values, merged. -/
theorem get_adds (hstored : ∀ h ∈ hs, Storable h) (hbuffer : l.buffer = records (gathered hs))
    (hclear : Unshadowed hs n) : l.get n = merged (occurrences n hs) := by
  have hshows := shows_gathered hclear.adds
  have hfirst : (gathered hs).find? (fun e => strncasecmpEq n e.1) =
      (gathered hs).find? fun e => sameName n e.1 := by
    cases hfind : (gathered hs).find? (fun e => strncasecmpEq n e.1) with
    | none =>
      refine (List.find?_eq_none.mpr fun e he hn => ?_).symm
      exact List.find?_eq_none.mp hfind e he (strncasecmpEq_of_sameName hn)
    | some e =>
      -- the pairs before it do not begin the name, so they do not have it
      obtain ⟨hmatch, as, bs, heq, hbefore⟩ := List.find?_eq_some_iff_append.mp hfind
      symm
      rw [List.find?_eq_some_iff_append]
      refine ⟨hclear.search e hfind, as, bs, heq, fun a ha => ?_⟩
      by_contra hn
      have hbegins := strncasecmpEq_of_sameName (by simpa using hn : sameName n a.1 = true)
      have hno := hbefore a ha
      rw [hbegins] at hno
      cases hno
  have hhead : ((gathered hs).find? fun e => sameName n e.1).map Prod.snd =
      (occurrences n (gathered hs)).head? := by
    rw [occurrences, List.head?_map, List.head?_filter]
  rw [get_records hbuffer (storable_gathered hstored), hfirst, hhead, hshows]
  cases merged (occurrences n hs) <;> rfl

end Adds

/-! ## The checks -/

section Checks

variable {l : HeaderList} {hs : List Header}

theorem validatePseudoheaders_iff : validatePseudoheaders l = true ↔
    (∀ n ∈ pseudoheaders, ∃ v, l.get n = some v ∧ v ≠ [] ∧ 44 ∉ v) ∧
      l.get (ascii "connection") = none ∧
      ∀ v, l.get (ascii "te") = some v → v = ascii "trailers" := by
  simp only [validatePseudoheaders, pseudoheaders, List.all_cons, List.all_nil, Bool.and_true,
    Bool.and_eq_true, beq_iff_eq, List.forall_mem_cons, List.not_mem_nil, false_implies,
    implies_true, and_true, and_assoc]
  refine and_congr ?_ (and_congr ?_ (and_congr ?_ (and_congr_right' ?_)))
  · cases l.get (ascii ":method") <;> simp
  · cases l.get (ascii ":scheme") <;> simp
  · cases l.get (ascii ":path") <;> simp
  · cases l.get (ascii "te") <;> simp

/-- A request for a path. -/
def requestFor (path : Bytes) : List Header :=
  [(ascii ":method", ascii "GET"), (ascii ":scheme", ascii "http"), (ascii ":path", path),
    (ascii "accept", ascii "*/*")]

theorem requestFor_storable {path : Bytes} (hpath : NulFree path) :
    ∀ h ∈ requestFor path, Storable h := by
  simp only [requestFor, List.forall_mem_cons, List.not_mem_nil, false_implies, implies_true,
    and_true]
  exact ⟨⟨by decide, by decide, by decide⟩, ⟨by decide, by decide, by decide⟩,
    ⟨show ascii ":path" ≠ [] by decide, show NulFree (ascii ":path") by decide, hpath⟩,
    ⟨by decide, by decide, by decide⟩⟩

/-- A request with the headers `te` and `t`: a name that begins another may come after it. -/
def requestWithTe : List Header :=
  requestFor (ascii "/a") ++ [(ascii "te", ascii "trailers"), (ascii "t", ascii "x")]

theorem requestWithTe_storable : ∀ h ∈ requestWithTe, Storable h := by
  intro h hh
  rcases List.mem_append.mp hh with hh | hh
  · exact requestFor_storable (by decide) h hh
  · have hall : ∀ h ∈ [(ascii "te", ascii "trailers"), (ascii "t", ascii "x")],
        h.1 ≠ [] ∧ NulFree h.1 ∧ NulFree h.2 := by decide
    exact ⟨(hall h hh).1, (hall h hh).2.1, (hall h hh).2.2⟩

/-- No name of the request shadows one that is looked up. -/
theorem requestWithTe_unshadowed : ∀ n ∈ inspected, Unshadowed requestWithTe n := by
  have hadds : ∀ p ∈ requestWithTe.inits, ∀ h ∈ p.getLast?,
      (gathered p.dropLast).find? (fun e => strncasecmpEq h.1 e.1) = none := by decide
  have hsearch : ∀ n ∈ inspected,
      ∀ e ∈ (gathered requestWithTe).find? (fun e => strncasecmpEq n e.1),
        sameName n e.1 = true := by decide
  refine fun n hn => ⟨fun ks h hks e he => ?_, hsearch n hn⟩
  -- no name begins one that comes after it
  have hnone := hadds _ (List.mem_inits _ _ |>.mpr hks) h (by simp)
  rw [List.dropLast_concat, he] at hnone
  cases hnone

end Checks

end Two
