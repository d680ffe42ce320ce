import Two.Hpack.EncoderResults
import Two.HeaderMap
import Two.Registry

/-!
# Response headers

The header list of a response, as `handle_end_stream` builds it, and its encoding: whatever a
resource handler returns, the block is shorter than what the loops of the encoder can count.

## Main definitions

* `HttpResponse.fields`: the headers of a response
* `HttpResponse.Typed`: the content type is one that a resource can have

## Main results

* `holds_responseHeaders`: the header list of a response holds these headers
* `encode_responseHeaders`: the encoder returns
-/

namespace Two

open HeaderList

/-- The headers of a response. -/
def HttpResponse.fields (res : HttpResponse) : List Header :=
  (ascii ":status", (ascii (toString res.status)).take 3) ::
    ((res.contentType.toList.map fun contentType => (ascii "content-type", contentType)) ++
      [(ascii "content-length", (ascii (toString res.contentLength)).take 9)])

/-- The content type of a response is that of a resource, if it has any. -/
def HttpResponse.Typed (res : HttpResponse) : Prop :=
  ∀ contentType ∈ res.contentType, contentType ∈ allowedContentTypes

/-- All resources have allowed content types, as `two_register_resource` makes sure. -/
def Resources.Typed (resources : Resources) : Prop :=
  ∀ res ∈ resources, res.contentType ∈ allowedContentTypes

instance (resources : Resources) : Decidable resources.Typed :=
  inferInstanceAs (Decidable (∀ res ∈ resources, _))

theorem Resources.Typed.response {resources : Resources} (h : resources.Typed) (calls : ℕ)
    (method path content : Bytes) (maxlen : ℕ) :
    (httpHandleRequest resources calls method path content maxlen).Typed := by
  unfold httpHandleRequest
  split
  · simp [HttpResponse.Typed, httpError]
  · dsimp only
    split
    · simp [HttpResponse.Typed, httpError]
    · rename_i res hfind
      split
      · simp [HttpResponse.Typed, httpError]
      · intro contentType hmem
        obtain rfl := Option.some.inj hmem
        exact h res (List.mem_of_find?_eq_some hfind)

/-! ## The header list -/

/-- Numbers are printed in digits. -/
theorem printable_digits (n : ℕ) : ∀ b ∈ ascii (toString n), Printable b := by
  intro b hb
  obtain ⟨c, hc, rfl⟩ := List.mem_map.mp hb
  have hdigit : c.isDigit = true := by
    rw [show toString n = n.repr from rfl, Nat.toList_repr] at hc
    exact Nat.isDigit_of_mem_toDigits (by decide) (by decide) hc
  have hrange : 48 ≤ c.toNat ∧ c.toNat ≤ 57 := by
    simpa [Char.isDigit, UInt32.le_iff_toNat_le] using hdigit
  rw [Printable, UInt8.toNat_ofNat']
  omega

/-- The first characters of a number. -/
theorem storable_number {name : Bytes} (hname : name ≠ [] ∧ NulFree name) (n k : ℕ) :
    Storable (name, (ascii (toString n)).take k) :=
  ⟨hname.1, hname.2, Printable.nulFree fun b hb => printable_digits n b (List.mem_of_mem_take hb)⟩

theorem allowed_bounds {contentType : Bytes} (h : contentType ∈ allowedContentTypes) :
    (∀ b ∈ contentType, Printable b) ∧ contentType.length ≤ 16 ∧ contentType ≠ [] := by
  revert contentType
  decide +kernel

theorem HttpResponse.Typed.storable {res : HttpResponse} (h : res.Typed) :
    ∀ f ∈ res.fields, Storable f := by
  simp only [HttpResponse.fields, List.mem_cons, List.mem_append, List.mem_map, List.not_mem_nil,
    or_false]
  rintro f (rfl | ⟨contentType, hct, rfl⟩ | rfl)
  · exact storable_number (by decide) _ _
  · have hbounds := allowed_bounds (h contentType (by simpa using hct))
    exact ⟨(by decide : ascii "content-type" ≠ []), (by decide : NulFree (ascii "content-type")),
      Printable.nulFree hbounds.1⟩
  · exact storable_number (by decide) _ _

/-- The strings of a response are short. -/
theorem HttpResponse.Typed.short {res : HttpResponse} (h : res.Typed) :
    ∀ f ∈ res.fields, f.1.length ≤ 14 ∧ f.2.length ≤ 16 := by
  simp only [HttpResponse.fields, List.mem_cons, List.mem_append, List.mem_map, List.not_mem_nil,
    or_false]
  rintro f (rfl | ⟨contentType, hct, rfl⟩ | rfl)
  · exact ⟨(by decide : (ascii ":status").length ≤ 14), by simp only [List.length_take]; omega⟩
  · exact ⟨(by decide : (ascii "content-type").length ≤ 14),
      (allowed_bounds (h contentType (by simpa using hct))).2.1⟩
  · exact ⟨(by decide : (ascii "content-length").length ≤ 14), by
      simp only [List.length_take]; omega⟩

theorem HttpResponse.length_fields_le (res : HttpResponse) : res.fields.length ≤ 3 := by
  cases hct : res.contentType <;> simp [HttpResponse.fields, hct]

/-- A header whose name is new is put behind the others. -/
theorem HeaderList.Holds.put {l : HeaderList} {hs : List Header} (hl : l.Holds hs)
    (hhs : ∀ h ∈ hs, Storable h) {name value : Bytes}
    (hnew : hs.findIdx? (fun h => strncasecmpEq name h.1) = none)
    (hfit : packedSize (hs ++ [(name, value)]) ≤ headerListMaxSize) :
    (l.put name value).Holds (hs ++ [(name, value)]) := by
  have hset : l.set name value = l.append name value := by
    obtain ⟨value', hc, hcall⟩ := call_absent hl.buffer hhs (c := .set name value) rfl hnew
    rcases hc with hc | hc
    · cases hc
    · cases hc
      exact hcall
  have hsize : packedSize hs + (name.length + value.length + 2) ≤ headerListMaxSize := by
    simpa [packedSize] using hfit
  have hmax : headerListMaxSize = 512 := rfl
  rw [HeaderList.put, hset, append_records hl.buffer (by omega), if_pos hsize]
  exact ⟨rfl, by simp [hl.count], hfit⟩

theorem packedSize_le {hs : List Header} (h : ∀ f ∈ hs, f.1.length ≤ 14 ∧ f.2.length ≤ 16) :
    packedSize hs ≤ 32 * hs.length := by
  induction hs with
  | nil => simp [packedSize]
  | cons f hs ih =>
    rw [List.forall_mem_cons] at h
    have := ih h.2
    simp only [packedSize, records_cons, List.length_append, length_packed, List.length_cons] at *
    omega

/-- The header list of a response holds its headers. -/
theorem holds_responseHeaders {res : HttpResponse} (h : res.Typed) :
    (responseHeaders res).Holds res.fields := by
  have hmax : headerListMaxSize = 512 := rfl
  have hfit : ∀ hs : List Header, (∀ f ∈ hs, f ∈ res.fields) → hs.length ≤ 3 →
      packedSize hs ≤ headerListMaxSize := by
    intro hs hsub hlen
    have := packedSize_le fun f hf => h.short f (hsub f hf)
    omega
  have hstore := h.storable
  have hempty : reset.Holds [] := ⟨rfl, rfl, by decide⟩
  have htype : strncasecmpEq (ascii "content-type") (ascii ":status") = false := by decide
  have hlength : strncasecmpEq (ascii "content-length") (ascii ":status") = false := by decide
  have hlength' : strncasecmpEq (ascii "content-length") (ascii "content-type") = false := by decide
  unfold responseHeaders
  cases hct : res.contentType with
  | none =>
    simp only [HttpResponse.fields, hct, Option.toList_none, List.map_nil, List.nil_append,
      List.mem_cons, List.not_mem_nil, or_false] at hstore hfit ⊢
    refine (hempty.put (by simp) rfl (hfit _ (by simp) (by simp))).put ?_ ?_ (hfit _ (by simp)
      (by simp))
    · exact fun f hf => hstore f (.inl (List.mem_singleton.mp hf))
    · simp [List.findIdx?_cons, hlength]
  | some contentType =>
    simp only [HttpResponse.fields, hct, Option.toList_some, List.map_cons, List.map_nil,
      List.cons_append, List.nil_append, List.mem_cons, List.not_mem_nil,
      or_false] at hstore hfit ⊢
    have hstatus := hempty.put (by simp) rfl (hfit [(ascii ":status",
      (ascii (toString res.status)).take 3)] (by simp) (by simp))
    refine (hstatus.put ?_ ?_ (hfit _ (by simp) (by simp))).put ?_ ?_ (hfit _ (by simp) (by simp))
    · exact fun f hf => hstore f (.inl (List.mem_singleton.mp hf))
    · simp [List.findIdx?_cons, htype]
    · intro f hf
      apply hstore
      rcases List.mem_append.mp hf with hf | hf
      · exact .inl (List.mem_singleton.mp hf)
      · exact .inr (.inl (List.mem_singleton.mp hf))
    · simp [List.findIdx?_cons, hlength, hlength']

/-! ## The block -/

section Block

open Hpack

/-- A short string is coded in one byte more than it has. -/
theorem stringSize_le (bufferSize : ℕ) {s : Bytes} (hs : s.length ≤ 126) :
    stringSize bufferSize s ≤ s.length + 1 := by
  have hint : encodedIntegerSize s.length 7 = 1 := by
    rw [encodedIntegerSize]
    exact if_pos (lt_of_le_of_lt hs (by decide))
  have hlen := unsignedLength_of_lt (show s.length < 2 ^ 32 by omega)
  unfold stringSize
  rw [hlen]
  split
  · rename_i hk
    have := hk.2
    omega
  · split
    · rw [hint]
      omega
    · split <;> omega

/-- An integer is coded in eight bytes at most. -/
theorem encodeInteger_le (n p : ℕ) : (encodeInteger n p).1 ≤ 8 := by
  have hsize := encodedIntegerSize_le p n
  unfold encodeInteger encodeIntegerUpTo
  split
  · decide
  · dsimp only
    split <;> dsimp only <;> omega

theorem fieldSize_le (bufferSize : ℕ) {f : Field} (hn : f.header.1.length ≤ 126)
    (hv : f.header.2.length ≤ 126) :
    fieldSize bufferSize f ≤ f.header.1.length + f.header.2.length + 9 := by
  have hname := stringSize_le bufferSize hn
  have hvalue := stringSize_le bufferSize hv
  have hindex := encodeInteger_le f.packed.index (findPrefixSize f.packed.preamble)
  have herror : compressionError ≤ 0 := by decide
  unfold fieldSize
  dsimp only
  split
  · split
    · omega
    · split <;> omega
  · split
    · omega
    · split
      · omega
      · split <;> omega

/-- Few short headers are encoded. -/
theorem returns_of_short {bufferSize : ℕ} {fs : List Field} {start : ℤ}
    (h : ∀ f ∈ fs, f.header.1.length ≤ 14 ∧ f.header.2.length ≤ 16)
    (hstart : start + 39 * fs.length < 256) : Returns bufferSize fs start := by
  induction fs generalizing start with
  | nil => trivial
  | cons f fs ih =>
    rw [List.forall_mem_cons] at h
    have hsize := fieldSize_le bufferSize (by omega : f.header.1.length ≤ 126)
      (by omega : f.header.2.length ≤ 126)
    rw [List.length_cons] at hstart
    push_cast at hstart
    exact ⟨by omega, ih h.2 (by omega)⟩

theorem packHeaders_header (t : DynamicTable) (hs : List Header) :
    (packHeaders t hs).1.map Field.header = hs := by
  induction hs generalizing t with
  | nil => rfl
  | cons h hs ih => rw [packHeaders_cons, List.map_cons, ih]

/-- **The response headers of every response can be encoded**, from any table. -/
theorem encode_responseHeaders {res : HttpResponse} (h : res.Typed) (t : DynamicTable)
    (o : OutBuffer) (bufferSize : ℕ) :
    (encode t (responseHeaders res) o bufferSize).isSome := by
  have hlist : listed (responseHeaders res) = res.fields := by
    have hl := holds_responseHeaders h
    rw [listed, all_records hl.buffer h.storable, hl.count]
    simp
  have hmap := packHeaders_header t res.fields
  have hlen : (packHeaders t res.fields).1.length = res.fields.length := by
    rw [← hmap, List.length_map, hmap]
  rw [encode_eq, if_pos]
  · rfl
  rw [emitted, hlist]
  refine returns_of_short (fun f hf => h.short _ ?_) ?_
  · rw [← hmap]
    exact List.mem_map_of_mem hf
  · have := res.length_fields_le
    omega

end Block

end Two
