import Two.Http2.Streams

/-!
# Where the data of a response comes from

The stream buffer holds the header block of a request until `http_handle_request` replaces it by the
content of the response, and `http2_continue_send` sends whatever it holds. As long as nothing is
sent before the response headers and no stream has a second request, the DATA frames of a stream are
the content of its response, and the pointer into the buffer stays inside it.

## Main definitions

* `ResponseFirst`: the condition on the events of a trace
* `Buffered`: what the stream buffer holds
* `FromContent`: the provenance of a DATA frame

## Main results

* `data_from_content`: in every run that meets the condition, DATA frames carry the content of the
  response, after its headers
* `buffer_in_bounds`: in such a run the pointer and the length stay inside the buffer
-/

namespace Two

open Program Relation Trace

/-- Nothing is sent from the stream buffer before the response headers of the stream, and no DATA
frame is accepted for a stream whose request was already handled. -/
def ResponseFirst (before : List Entry) : Entry → Prop
  | .frame h _ s => h.type = .data → h.streamId = s.ctx.lastOpenedStreamId →
      s.ctx.stream.state = .opened → contents s.ctx.stream.id before = []
  | .increment id n s => id ≠ 0 → answered s.ctx.stream.id before = false →
      sendLength { s.ctx with stream.windowSize := int32 (s.ctx.stream.windowSize + n) } ≤ 0
  | .completed op status s => op.cb = .onStreamSendComplete → status = 0 →
      answered s.ctx.stream.id before = false → sendLength s.ctx ≤ 0
  | _ => True

instance (before : List Entry) : DecidablePred (ResponseFirst before)
  | .frame h _ s => inferInstanceAs (Decidable (h.type = .data →
      h.streamId = s.ctx.lastOpenedStreamId → s.ctx.stream.state = .opened → _))
  | .increment id _ s => inferInstanceAs (Decidable (id ≠ 0 →
      answered s.ctx.stream.id before = false → _ ≤ _))
  | .completed op status s => inferInstanceAs (Decidable (op.cb = .onStreamSendComplete →
      status = 0 → answered s.ctx.stream.id before = false → _))
  | .send .. | .error .. | .eventRead .. | .streamState .. | .reset .. | .setting .. | .decode ..
  | .request .. | .ready | .consumed .. => inferInstanceAs (Decidable True)

/-- The payload of a DATA frame continues the content of the response, whose headers were sent
before; the END_STREAM flag is on the frame that completes it. -/
def FromContent (before : List Entry) : Entry → Prop
  | .send (.data id fin data) _ => answered id before = true ∧ ∃ content ∈ contents id before,
      contents id before = [content] ∧ sentData id before ++ data <+: content ∧
        (fin = true ↔ sentData id before ++ data = content)
  | _ => True

instance (before : List Entry) : DecidablePred (FromContent before)
  | .send (.data id _ _) _ => inferInstanceAs (Decidable (answered id before = true ∧ ∃ _ ∈ _, _))
  | .send (.ping ..) _ | .send (.goaway ..) _ | .send (.settings ..) _ | .send .settingsAck _
  | .send (.headers ..) _ | .send (.rstStream ..) _ | .frame .. | .increment .. | .completed ..
  | .error .. | .eventRead .. | .streamState .. | .reset .. | .setting .. | .decode .. | .request ..
  | .ready | .consumed .. => inferInstanceAs (Decidable True)

/-- The bytes of a DATA frame are read inside the stream buffer. -/
def InBuffer (_before : List Entry) : Entry → Prop
  | .send (.data _ _ data) s => s.ctx.stream.bufptr + data.length ≤ http2StreamBufSize
  | _ => True

/-- The stream buffer before the response headers, and after them. -/
structure Buffered (w : World) : Prop where
  bound : w.ctx.stream.bufptr + w.ctx.stream.buflen ≤ http2StreamBufSize
  unanswered : answered w.ctx.stream.id w.log = false →
    sentData w.ctx.stream.id w.log = [] ∧ w.ctx.stream.bufptr = 0
  response : answered w.ctx.stream.id w.log = true →
    contents w.ctx.stream.id w.log = [sentData w.ctx.stream.id w.log ++
      slice w.ctx.stream.buf w.ctx.stream.bufptr w.ctx.stream.buflen]

section Steps

variable {w w' : World}

/-- The buffer and what the trace says about the current stream are the same. -/
structure SameBuffer (w w' : World) : Prop where
  id : w'.ctx.stream.id = w.ctx.stream.id
  buf : w'.ctx.stream.buf = w.ctx.stream.buf
  buflen : w'.ctx.stream.buflen = w.ctx.stream.buflen
  bufptr : w'.ctx.stream.bufptr = w.ctx.stream.bufptr
  answered : answered w.ctx.stream.id w'.log = answered w.ctx.stream.id w.log
  contents : contents w.ctx.stream.id w'.log = contents w.ctx.stream.id w.log
  sentData : sentData w.ctx.stream.id w'.log = sentData w.ctx.stream.id w.log

theorem Buffered.same (hb : Buffered w) (h : SameBuffer w w') : Buffered w' := by
  obtain ⟨hid, hbuf, hlen, hptr, hans, hcont, hsent⟩ := h
  constructor
  · rw [hlen, hptr]
    exact hb.bound
  · rw [hid, hans, hsent, hptr]
    exact hb.unanswered
  · rw [hid, hans, hcont, hsent, hbuf, hptr, hlen]
    exact hb.response

theorem dataLength_le (w : World) : w.dataLength ≤ w.ctx.stream.buflen := by
  have : sendLength w.ctx ≤ w.ctx.stream.buflen := min_le_left _ _
  simp only [World.dataLength]
  omega

/-- The buffer is what is sent next, and the rest. -/
theorem slice_dataLength (w : World) :
    slice w.ctx.stream.buf w.ctx.stream.bufptr w.ctx.stream.buflen =
      slice w.ctx.stream.buf w.ctx.stream.bufptr w.dataLength ++
        slice w.ctx.stream.buf (w.ctx.stream.bufptr + w.dataLength)
          (w.ctx.stream.buflen - w.dataLength) := by
  rw [← slice_add, Nat.add_sub_cancel' (dataLength_le w)]

/-- The next DATA frame of an answered stream. -/
theorem Buffered.continued (hb : Buffered w) (hans : answered w.ctx.stream.id w.log = true) :
    Buffered w.continued := by
  have hle := dataLength_le w
  have hans' : answered w.ctx.stream.id w.continued.log = true := by simp [hans]
  constructor
  · have := hb.bound
    simp only [World.continued_ctx, Context.advance]
    omega
  · intro h
    rw [World.continued_ctx, Context.advance, hans'] at h
    cases h
  · intro _
    have := hb.response hans
    rw [slice_dataLength] at this
    simpa [Context.advance, World.dataFrame] using this

/-- The provenance of the next DATA frame of an answered stream. -/
theorem Buffered.fromContent (hb : Buffered w) (hans : answered w.ctx.stream.id w.log = true) :
    FromContent w.log (.send w.dataFrame w.toState) := by
  have hresponse := hb.response hans
  refine ⟨hans, _, by rw [hresponse]; exact List.mem_singleton_self _, hresponse, ?_, ?_⟩
  · rw [slice_dataLength, ← List.append_assoc]
    exact List.prefix_append _ _
  · rw [slice_dataLength, ← List.append_assoc, List.self_eq_append_right,
      ← List.length_eq_zero_iff, length_slice]
    simp

/-- Where `http2_continue_send` is called, the buffer is the same, and if there is something to send
the stream was answered. -/
theorem Sending.buffered {w₁ : World} {a : List Entry} (h : Sending w w₁ a) (hb : Buffered w)
    (hs : 0 < sendLength w₁.ctx) (hc : Along ResponseFirst (w.log ++ a)) :
    Buffered w₁ ∧ answered w₁.ctx.stream.id w₁.log = true ∧ w₁.log = w.log ++ a := by
  cases h with
  | window h region hr =>
    obtain ⟨-, hcond⟩ := along_append_singleton.mp hc
    refine ⟨hb.same (by constructor <;> simp), ?_, World.increment_log _ _ _⟩
    by_contra hans
    have := hcond hr.stream (by simpa using hans)
    exact absurd hs (not_lt.mpr this)
  | complete op rest hq hcb =>
    obtain ⟨-, hcond⟩ := along_append_singleton.mp hc
    refine ⟨hb.same (by constructor <;> simp), ?_, World.calling_log _ _ _⟩
    by_contra hans
    have := hcond hcb rfl (by simpa using hans)
    exact absurd hs (not_lt.mpr this)

/-- A request on a stream that was not answered. -/
theorem Buffered.request (hb : Buffered w) (hans : answered w.ctx.stream.id w.log = false)
    {res : HttpResponse} (hl : res.contentLength ≤ http2StreamBufSize) (t : Hpack.DynamicTable)
    (headers : HeaderList) : Buffered ((w.decoded t).requested headers res) := by
  obtain ⟨hsent, hptr⟩ := hb.unanswered hans
  constructor
  · simpa [hptr] using hl
  · simp [hsent, hptr]
  · simp [hans]

theorem Orderly.unanswered (ho : Orderly w) {id : ℕ} (h : contents id w.log = []) :
    answered id w.log = false := by
  by_contra hans
  exact ho.answers id (by simpa using hans) h

theorem Buffered.block (hb : Buffered w) (ho : Orderly w) {h : FrameHeader} {data : Bytes} {n : ℕ}
    (hr : BlockReady w h n) : Buffered (w.block h data n) := by
  have hm := silent_markEntry (w.copied data n) h
  have hans := ho.unanswered (ho.waiting hr.waiting).2
  obtain ⟨hsent, hptr⟩ := hb.unanswered hans
  constructor
  · have := hr.fits
    have hb := hb.bound
    simp only [World.block_ctx, Context.block_bufptr, Context.block_buflen, hptr]
    split <;> omega
  · simp [World.block_log, hm.sentData, hsent, hptr]
  · simp [World.block_log, hm.answered, hans]

theorem Buffered.marked (hb : Buffered w) (h : FrameHeader) : Buffered (w.marked h) := by
  have hm := silent_markEntry w h
  refine hb.same ?_
  constructor <;> simp [World.marked_log, hm.answered, hm.contents, hm.sentData]

/-- A request is received only for a stream that has none. -/
theorem RequestReady.no_contents {w₁ : World} (h : RequestReady w w₁) (ho : Orderly w)
    (hc : Along ResponseFirst w.log) : contents w₁.ctx.stream.id w₁.log = [] := by
  cases h with
  | block h data n hb hcomp =>
    have hm := silent_markEntry (w.copied data n) h
    simpa [World.block_log, hm.contents] using (ho.waiting hb.waiting).2
  | data h hd hcomp =>
    have hm := silent_markEntry w h
    obtain ⟨region, before, hlog⟩ := hd.frame
    have hcond := hc before _ [] hlog hd.type hd.stream hd.state
    simp [World.marked_log, hm.contents, hlog, hcond]

theorem RequestReady.buffered {w₁ : World} (h : RequestReady w w₁) (ho : Orderly w)
    (hb : Buffered w) : Buffered w₁ := by
  cases h with
  | block h data n hr hcomp => exact hb.block ho hr
  | data h hd hcomp => exact hb.marked h

/-- The response headers, right after the request. -/
theorem Buffered.answer (hb : Buffered w) (hcont : contents w.ctx.stream.id w.log = [])
    (hans : answered w.ctx.stream.id w.log = false) {res : HttpResponse}
    (hl : res.contentLength ≤ http2StreamBufSize) (t t' : Hpack.DynamicTable)
    (headers : HeaderList) (block : Bytes) :
    Buffered (((w.decoded t).requested headers res).answering t' block) := by
  obtain ⟨hsent, hptr⟩ := hb.unanswered hans
  constructor
  · simpa [hptr] using hl
  · simp
  · simp [hcont, hsent, hptr, HttpResponse.body]

theorem FrameStep.buffered (h : FrameStep true w w') (ho : Orderly w) (hb : Buffered w)
    (hc : Along ResponseFirst w'.log) : Buffered w' := by
  have hcw := hc.of_prefix h.log_prefix
  cases h with
  -- steps that leave the stream buffer, and what was recorded of the stream
  | quiet _ hq =>
    exact hb.same ⟨hq.id, hq.buf, hq.buflen, hq.bufptr, by rw [hq.log], by rw [hq.log],
      by rw [hq.log]⟩
  | reply f hf hs hw =>
    have hsil : Silent [Entry.send f w.toState] := silent_of_all (by simp [Entry.silent, hf])
    refine hb.same ?_
    constructor <;> simp only [World.written_ctx, World.written_log, answered_append,
      contents_append, sentData_append, hsil.answered, hsil.contents, hsil.sentData, Bool.or_false,
      List.append_nil]
  | reset e id hid hw =>
    refine hb.same ?_
    by_cases hcur : id = w.ctx.stream.id
    · constructor <;> simp [hcur]
    · constructor <;> simp [hcur]
  | openStream h region hh ht hc hid ho' hs =>
    -- a new stream has sent nothing
    have hf := ho.fresh _ hid
    constructor
    · simp [Context.openStream]
    · intro _
      simpa [Context.openStream] using hf.sentData
    · simp [Context.openStream, hf.answered]
  | block h data n hr => exact hb.block ho hr
  | data h hd => exact hb.marked h
  | request w₁ t headers res hr hl =>
    -- the buffer is that of the response from here on; before, the stream was not answered
    exact (hr.buffered ho hb).request ((ho.ready hr).unanswered (hr.no_contents ho hcw)) hl t headers
  | answer w₁ t headers res t' block hr hl _ hw =>
    have hcont := hr.no_contents ho hcw
    exact (hr.buffered ho hb).answer hcont ((ho.ready hr).unanswered hcont) hl t t' headers block
  | setting id value c hset =>
    obtain ⟨_, _, _, rfl⟩ := applySetting_eq hset
    refine hb.same ?_
    constructor <;> simp
  | windowSend h region n hr hn hs hw =>
    subst hn
    -- data is sent from the front of the buffer, after the headers of the response
    have hstart : Along ResponseFirst (w.log ++ [_]) := hc.of_prefix (by
      rw [World.continued_log, World.increment_log]
      exact List.prefix_append _ _)
    obtain ⟨hb', hans, -⟩ := (Sending.window h region hr).buffered hb hs hstart
    exact hb'.continued hans
  | _ =>
    refine hb.same ?_
    constructor <;> simp

theorem Transition.buffered (h : Transition true w w') (ho : Orderly w) (hb : Buffered w)
    (hc : Along ResponseFirst w'.log) : Buffered w' := by
  cases h with
  | frame _ h => exact h.buffered ho hb hc
  | complete op rest w₁ hq hcall =>
    generalize hcb : op.cb = cb at hcall
    have hcalling : Buffered (w.popped.calling op 0) := hb.same (by constructor <;> simp)
    have hreturn : ∀ {u : World}, Buffered u → Buffered (u.returned op) :=
      fun hu => hu.same (by constructor <;> simp)
    cases hcall with
    | settings _ _ hq' =>
      refine hreturn (hcalling.same ?_)
      exact ⟨hq'.id, hq'.buf, hq'.buflen, hq'.bufptr, by rw [hq'.log], by rw [hq'.log],
        by rw [hq'.log]⟩
    | send _ hs hw =>
      have hstart : Along ResponseFirst (w.log ++ [_]) := hc.of_prefix (by
        rw [World.returned_log, World.continued_log, World.calling_log, World.popped_log]
        exact List.prefix_append _ _)
      obtain ⟨hb', hans, -⟩ := (Sending.complete op rest hq hcb).buffered hb hs hstart
      exact hreturn (hb'.continued hans)
    | _ => exact hreturn (hcalling.same (by constructor <;> simp))
  | _ => exact hb.same (by constructor <;> simp)

end Steps

/-- The run rule for the provenance of data. -/
theorem runRule_buffered :
    RunRule ResponseFirst (fun before e => FromContent before e ∧ InBuffer before e)
      fun w => Orderly w ∧ Buffered w := by
  refine .of_orderly ?_ ?_ (fun w w' ht _ ho hb hc => ht.buffered ho hb hc) ?_
  · intro pools r s
    exact ⟨by simp [Context.init], fun _ => ⟨rfl, rfl⟩, by simp⟩
  · intro w pools hb
    exact ⟨hb.bound, hb.unanswered, hb.response⟩
  · intro live w w' ht _ ho hb new hlog a e b hnew hc
    by_cases hdata : ∃ id fin data s, e = .send (.data id fin data) s
    · obtain ⟨id, fin, data, s, rfl⟩ := hdata
      obtain ⟨w₁, hsend, hs, rfl, hf⟩ := ht.data_entry hlog hnew
      obtain ⟨hb', hans, hlog₁⟩ := hsend.buffered hb hs (hc.of_prefix (List.prefix_append _ _))
      rw [hf, ← hlog₁]
      refine ⟨hb'.fromContent hans, ?_⟩
      have := hb'.bound
      have := dataLength_le w₁
      simp only [InBuffer, World.dataFrame, length_slice]
      omega
    -- the rule says nothing about the other entries
    · unfold FromContent InBuffer
      constructor
      · split
        · exact absurd ⟨_, _, _, _, rfl⟩ hdata
        · trivial
      · split
        · exact absurd ⟨_, _, _, _, rfl⟩ hdata
        · trivial

section Runs

variable {server : Server} {actions : List EventLoop.Action} {w : World}

/-- **DATA provenance.** In every run in which nothing is sent from the stream buffer before the
response headers of the stream and no DATA frame is accepted for a stream that already has a
request, the DATA frames of a stream come after its response headers and carry the content of its
response, END_STREAM being on the frame that completes it. -/
theorem data_from_content (hw : w ∈ (EventLoop.run server actions).worlds)
    (hc : Along ResponseFirst w.log) : Along FromContent w.log :=
  (runRule_buffered.trace hw hc).mono fun _ _ h => h.1

/-- **Stream buffer bounds.** In every such run the pointer into the stream buffer and the length of
what is left stay inside the buffer, and DATA frames are read from inside it. -/
theorem buffer_in_bounds (hw : w ∈ (EventLoop.run server actions).worlds)
    (hc : Along ResponseFirst w.log) :
    Along InBuffer w.log ∧ ((EventLoop.run server actions).aborted = none →
      w.ctx.stream.bufptr + w.ctx.stream.buflen ≤ http2StreamBufSize) :=
  ⟨(runRule_buffered.trace hw hc).mono fun _ _ h => h.2,
    fun ha => (runRule_buffered.invariant ha hw hc).2.2.bound⟩

end Runs

/-! ## A request, and data sent too early -/

/-- The write of the first response completes while the next stream is not answered, and the DATA
frame of the next request comes before its response. -/
theorem responseFirst_conversation :
    (∃ w ∈ (EventLoop.run (Sample.server 4) Sample.resetRequest).worlds,
      w.ctx.stream.state = .opened ∧ answered w.ctx.stream.id w.log = false ∧
        ∃ op ∈ w.sock.queue, op.cb = .onStreamSendComplete) ∧
      ∃ w ∈ (EventLoop.run (Sample.server 4) Sample.conversation).worlds,
        Along ResponseFirst w.log ∧ contents 3 w.log = [[0, 0, 0, 0]] ∧
          sentData 3 w.log = [0, 0, 0, 0] := by decide +kernel

/-- The response of the second request. -/
theorem data_from_content_conversation :
    ∃ w ∈ (EventLoop.run (Sample.server 4) Sample.conversation).worlds,
      Along FromContent w.log ∧ sentData 3 w.log = [0, 0, 0, 0] := by
  obtain ⟨w, hw, hc, -, hsent⟩ := responseFirst_conversation.2
  exact ⟨w, hw, data_from_content hw hc, hsent⟩

/-- The stream buffer in both requests. -/
theorem buffer_in_bounds_conversation :
    ∃ w ∈ (EventLoop.run (Sample.server 4) Sample.conversation).worlds,
      Along InBuffer w.log ∧ sentData 3 w.log = [0, 0, 0, 0] := by
  obtain ⟨w, hw, hc, -, hsent⟩ := responseFirst_conversation.2
  exact ⟨w, hw, (buffer_in_bounds hw hc).1, hsent⟩

/-- A WINDOW_UPDATE frame that comes while the body of the request is awaited makes the server send
the header block back as data. -/
theorem not_data_from_content : ¬ ∀ (server : Server) (actions : List EventLoop.Action) (w : World),
    w ∈ (EventLoop.run server actions).worlds → Along FromContent w.log := by
  intro h
  have hall := h (Sample.server 2) (Sample.handshake (Sample.frame 4 0 0 []) ++
    Sample.receive (Sample.headers 4 1 Sample.getBlock ++ Sample.windowUpdate 1 1))
  revert hall
  decide +kernel

/-- One byte of the header block is sent before the content takes its place: the pointer is not set
back, and 512 bytes of content end behind the buffer. -/
theorem not_buffer_in_bounds : ¬ ∀ (server : Server) (actions : List EventLoop.Action) (w : World),
    w ∈ (EventLoop.run server actions).worlds → (EventLoop.run server actions).aborted = none →
      w.ctx.stream.bufptr + w.ctx.stream.buflen ≤ http2StreamBufSize := by
  intro h
  have hall := h (Sample.server 512) (Sample.handshake (Sample.setting 4 [0, 0, 0, 0]) ++
    Sample.receive (Sample.headers 4 1 (Sample.getBlock ++ [0x90]) ++ Sample.windowUpdate 1 1 ++
      Sample.data 1 1))
  revert hall
  decide +kernel

end Two
