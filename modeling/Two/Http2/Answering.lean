import Two.Hpack.EncoderConformance
import Two.Http2.Collecting
import Two.Http2.Responses

/-!
# The answer to a request

When the request of a stream is complete, its header block is decoded and the response headers are
encoded and written. For a block that follows RFC 7541 and stays within the limits, and a server
whose resources have registered content types, nothing on this way fails.

## Main definitions

* `responseTo`: the response to a request, apart from what lies in the stream buffer behind it

## Main results

* `responseTo_respond`: the response does not depend on the stream buffer
* `handleEndStream_answers`: a complete request is answered
-/

namespace Two

open Program Hpack

/-! ## Responses -/

/-- The response to the decoded headers of a request, in memory of its own. -/
def responseTo (server : Server) (headers : HeaderList) (calls : ℕ) : HttpResponse :=
  httpHandleRequest server.resources calls ((headers.get (ascii ":method")).getD [])
    ((headers.get (ascii ":path")).getD []) [] http2StreamBufSize

/-- Responses with the same status, content type and body. -/
structure HttpResponse.Same (res res' : HttpResponse) : Prop where
  status : res.status = res'.status
  contentType : res.contentType = res'.contentType
  contentLength : res.contentLength = res'.contentLength
  body : res.body = res'.body

/-- What lies in the response memory makes no difference. -/
theorem httpHandleRequest_same (resources : Resources) (calls : ℕ)
    (method path content content' : Bytes) (maxlen : ℕ) :
    (httpHandleRequest resources calls method path content maxlen).Same
      (httpHandleRequest resources calls method path content' maxlen) := by
  unfold httpHandleRequest
  split
  · exact ⟨rfl, rfl, rfl, rfl⟩
  · dsimp only
    split
    · exact ⟨rfl, rfl, rfl, rfl⟩
    · split <;> exact ⟨rfl, rfl, rfl, rfl⟩

theorem responseTo_respond (server : Server) (headers : HeaderList) (c : Context) (calls : ℕ) :
    (respond server headers c calls).Same (responseTo server headers calls) :=
  httpHandleRequest_same _ _ _ _ _ _ _

theorem HttpResponse.Same.fields {res res' : HttpResponse} (h : res.Same res') :
    res.fields = res'.fields := by
  simp only [HttpResponse.fields, h.status, h.contentType, h.contentLength]

theorem digits_ne_nil (n : ℕ) : ascii (toString n) ≠ [] := by
  rw [show toString n = n.repr from rfl, ascii, Nat.toList_repr]
  simp [Nat.toDigits_ne_nil]

/-- The codec is made for the headers of a response. -/
theorem HttpResponse.Typed.codable {res : HttpResponse} (h : res.Typed) :
    ∀ f ∈ res.fields, Codable f := by
  have hname : hpackHeaderNameLen = 32 := rfl
  have hvalue : hpackHeaderValueLen = 64 := rfl
  have hdigits : ∀ n k : ℕ, 0 < k → (ascii (toString n)).take k ≠ [] := by
    intro n k hk hnil
    rcases List.take_eq_nil_iff.mp hnil with h0 | h0
    · omega
    · exact digits_ne_nil n h0
  have hprint : ∀ n k : ℕ, ∀ b ∈ (ascii (toString n)).take k, Printable b := fun n k b hb =>
    printable_digits n b (List.mem_of_mem_take hb)
  intro f hf
  have hshort := h.short f hf
  simp only [HttpResponse.fields, List.mem_cons, List.mem_append, List.mem_map, List.not_mem_nil,
    or_false] at hf
  rcases hf with rfl | ⟨contentType, hct, rfl⟩ | rfl
  · exact ⟨(by decide : ascii ":status" ≠ []), hdigits _ _ (by decide),
      (by decide +kernel : ∀ b ∈ ascii ":status", Printable b), hprint _ _, by omega, by omega⟩
  · have hallowed := allowed_bounds (h contentType (by simpa using hct))
    exact ⟨(by decide : ascii "content-type" ≠ []), hallowed.2.2,
      (by decide +kernel : ∀ b ∈ ascii "content-type", Printable b), hallowed.1, by omega, by omega⟩
  · exact ⟨(by decide : ascii "content-length" ≠ []), hdigits _ _ (by decide),
      (by decide +kernel : ∀ b ∈ ascii "content-length", Printable b), hprint _ _, by omega, by omega⟩

/-- A field is coded in nine bytes more than its strings have. -/
theorem length_fieldBytes_le {f : Field} (hf : f.Valid) (hn : f.header.1.length ≤ 126)
    (hv : f.header.2.length ≤ 126) :
    (Hpack.fieldBytes f).length ≤ f.header.1.length + f.header.2.length + 9 := by
  obtain ⟨o', heq, -⟩ := encodeHeader_writes hf (Nat.lt_succ_self _) .empty 0
  have hsize := (@encodeHeader_result .empty 0 ((Hpack.fieldBytes f).length + 1) f).1
  rw [heq] at hsize
  have hle := fieldSize_le ((Hpack.fieldBytes f).length + 1) hn hv
  simp only at hsize
  omega

theorem length_blockBytes_le {fs : List Field} (hfs : ∀ f ∈ fs, f.Valid)
    (hshort : ∀ f ∈ fs, f.header.1.length ≤ 14 ∧ f.header.2.length ≤ 16) :
    (blockBytes fs).length ≤ 39 * fs.length := by
  induction fs with
  | nil => exact le_rfl
  | cons f fs ih =>
    rw [List.forall_mem_cons] at hfs hshort
    have hrest := ih hfs.2 hshort.2
    have hfield := length_fieldBytes_le hfs.1 (by omega) (by omega)
    rw [blockBytes_cons, List.length_append, List.length_cons]
    omega

/-- The block of the response headers. -/
def responseBlock (t : DynamicTable) (res : HttpResponse) : Bytes :=
  blockBytes (packHeaders t res.fields).1

/-- The response headers of every response fit in a frame. -/
theorem HttpResponse.Typed.length_responseBlock {res : HttpResponse} (h : res.Typed)
    (t : DynamicTable) : (responseBlock t res).length ≤ 117 := by
  have hmap := packHeaders_header t res.fields
  have hlen : (packHeaders t res.fields).1.length = res.fields.length := by
    rw [← hmap, List.length_map, hmap]
  have hle := length_blockBytes_le (valid_packHeaders t h.codable) fun f hf =>
    h.short f.header (by
      rw [← hmap]
      exact List.mem_map_of_mem hf)
  have := res.length_fields_le
  unfold responseBlock
  omega

/-! ## The answer -/

section Answer

variable {server : Server} {c : Context} {w : World} {id : ℕ} {Q : ℤ → World → Prop}
  {E : Assertion → World → Prop}

/-- The response headers are encoded and written. -/
theorem sendHeadersFrame_wp {res : HttpResponse} (hres : res.Typed) {fin : Bool} {cb : WriteCb}
    (hw : Writable w)
    (hQ : ∀ n : ℕ, Q n ((w.onCtx fun c => { c with
        hpackDynamicTable := (packHeaders w.ctx.hpackDynamicTable res.fields).2 }).written
      (.headers id fin (responseBlock w.ctx.hpackDynamicTable res)) cb)) :
    wp (sendHeadersFrame (responseHeaders res) id fin cb) Q E w := by
  have hlen := hres.length_responseBlock w.ctx.hpackDynamicTable
  have hmax : frameMaxSize = 512 := rfl
  have hfits : (responseBlock w.ctx.hpackDynamicTable res).length < frameMaxSize - 9 := by omega
  obtain ⟨out, heq, hbytes⟩ := encode_writes w.ctx.hpackDynamicTable (holds_responseHeaders hres)
    hres.codable .empty hfits (hlen.trans_lt (by decide))
  simp only [sendHeadersFrame, wp_bind, wp_getCtx, heq, wp_modifyCtx, wp_ite, wp_pure]
  refine ⟨fun hneg => by omega, fun _ => ?_⟩
  rw [Int.toNat_natCast, hbytes]
  refine sendFrame_wp (fun _ n => hQ n) fun hnot => ?_
  exact absurd ⟨hw.connected, hw.enabled, hw.pool⟩ hnot

/-- A spelled block is decoded, whatever lies behind it. -/
theorem decode_spelled_append (behind : Behind) {t : DynamicTable} {a : AbstractTable}
    (ht : Abstracts http2HeaderTableSize t a) (b : SpelledBlock) (l : HeaderList) (rest : Bytes) :
    match limitedMeaning true a l b.representations with
    | none => (decode behind t (b.bytes ++ rest) b.bytes.length l).rc < 0
    | some (a', l', ks) => ∃ t', Abstracts http2HeaderTableSize t' a' ∧
        decode behind t (b.bytes ++ rest) b.bytes.length l = ⟨b.bytes.length, t', l', ks⟩ := by
  have hle := b.spells.length_le
  exact decodeLoop_spells b.spells b.supported ht rfl (Nat.zero_add _) (by omega)

/-- **A complete request is answered**, if its block is accepted: the response headers are written,
and the content lies in the stream buffer. -/
theorem handleEndStream_answers {b : SpelledBlock} {a a' : AbstractTable} {l : HeaderList}
    {ks : List Header} (hserver : server.resources.Typed)
    (hc : w.ctx = c.collecting id b.bytes false true)
    (ht : Abstracts http2HeaderTableSize c.hpackDynamicTable a)
    (hmeaning : limitedMeaning true a .reset b.representations = some (a', l, ks))
    (hvalid : validatePseudoheaders l = true) (hw : Writable w)
    (hQ : ∀ t' : DynamicTable, Abstracts http2HeaderTableSize t' a' →
      let res := respond server l w.ctx w.loop.calls
      Q 0 (((w.decoded t').requested l res).answering (packHeaders t' res.fields).2
        (responseBlock t' res))) :
    wp (handleEndStream server) Q E w := by
  obtain ⟨t', ht', hdecode⟩ : ∃ t', Abstracts http2HeaderTableSize t' a' ∧
      Hpack.decode (server.behind w.loop.calls) w.ctx.hpackDynamicTable w.ctx.stream.buf
        w.ctx.stream.buflen .reset = ⟨b.bytes.length, t', l, ks⟩ := by
    have hspelled := decode_spelled_append (server.behind w.loop.calls) ht b .reset (c.stream.buf.drop b.bytes.length)
    rw [hmeaning] at hspelled
    rw [hc]
    exact hspelled
  -- the result is a length, and no error
  have hrc : ∀ e : ℤ, e < 0 → ¬ ((b.bytes.length : ℤ) = e) := fun e he => by omega
  have hres : (respond server l w.ctx w.loop.calls).Typed := hserver.response _ _ _ _ _
  have hready : Writable ((w.decoded t').requested l (respond server l w.ctx w.loop.calls)) :=
    ⟨hw.connected, hw.enabled, hw.pool⟩
  simp only [handleEndStream, wp_bind, wp_record, wp_modifyCtx, hdecode,
    if_neg (hrc _ (by decide : compressionError < 0)), if_neg (hrc _ (by decide : memoryError < 0)),
    if_neg (hrc _ (by decide : internalError < 0)), hvalid, Bool.not_true, Bool.false_eq_true,
    if_false, handleRequest, wp_get, wp_set]
  refine sendHeadersFrame_wp hres hready fun n => ?_
  simp only [wp_ite, wp_pure]
  exact ⟨fun hneg => by omega, fun _ => hQ t' ht'⟩

end Answer

end Two
