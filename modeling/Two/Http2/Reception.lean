import Two.Http2.Receiving

/-!
# The frames of a new stream

What the HEADERS, CONTINUATION and DATA frames of a new stream lead to: the request that is passed
to the handler of its resource, or an error. It is computed by an automaton on the frames, which
keeps what was collected of the header block and three flags, and knows nothing of the rest of the
connection.

## Main definitions

* `Grown`, `Adds`: what a program adds to the trace
* `Verdict`: a request, an error of the connection, or an error of the stream
* `requestVerdict`: what a complete header block leads to
* `Reception`: what is known of a stream while its request is not complete
* `reception`: the automaton on the frames of a new stream
* `Receives`, `Ended`: what the automaton says of the connection

## Main results

* `Receives.receiveFrame`, `receiveFrame_new`: one frame
* `receiveFrames_reception`: the connection follows the automaton
-/

namespace Two

open Program Trace

/-! ## Programs and the trace -/

/-- The trace is longer by entries that satisfy `P`. -/
def Grown (P : Entry → Prop) (w w' : World) : Prop :=
  ∃ new, w'.log = w.log ++ new ∧ ∀ e ∈ new, P e

/-- The program, however it ends, only adds entries that satisfy `P` to the trace. -/
def Adds {α : Type} (P : Entry → Prop) (m : M α) : Prop :=
  ∀ w, wp m (fun _ => Grown P w) (fun _ => Grown P w) w

section Adds

variable {α β : Type} {P P' : Entry → Prop} {w w' w'' : World}

theorem Grown.of_log (h : w'.log = w.log) : Grown P w w' := ⟨[], by simp [h], by simp⟩

theorem Grown.trans (h : Grown P w w') (h' : Grown P w' w'') : Grown P w w'' := by
  obtain ⟨new, hlog, hp⟩ := h
  obtain ⟨new', hlog', hp'⟩ := h'
  refine ⟨new ++ new', by rw [hlog', hlog, List.append_assoc], ?_⟩
  simpa [or_imp, forall_and] using ⟨hp, hp'⟩

theorem Grown.mono (h : Grown P w w') (hP : ∀ e, P e → P' e) : Grown P' w w' := by
  obtain ⟨new, hlog, hp⟩ := h
  exact ⟨new, hlog, fun e he => hP e (hp e he)⟩

theorem Adds.mono {m : M α} (h : Adds P m) (hP : ∀ e, P e → P' e) : Adds P' m :=
  fun w => (h w).mono (fun _ _ hg => hg.mono hP) fun _ _ hg => hg.mono hP

theorem adds_pure (a : α) : Adds P (pure a : M α) := fun _ => .of_log rfl

theorem Adds.bind {m : M α} {f : α → M β} (hm : Adds P m) (hf : ∀ a, Adds P (f a)) :
    Adds P (m >>= f) := by
  intro w
  rw [wp_bind]
  refine (hm w).mono (fun a w' hw => ?_) fun _ _ => id
  exact (hf a w').mono (fun _ _ => hw.trans) fun _ _ => hw.trans

theorem Adds.ite {c : Prop} [Decidable c] {m n : M α} (hm : Adds P m) (hn : Adds P n) :
    Adds P (if c then m else n) := by
  split
  · exact hm
  · exact hn

theorem adds_record {e : State → Entry} (h : ∀ s, P (e s)) : Adds P (record e) :=
  fun w => ⟨[e w.toState], rfl, by simpa using h _⟩

theorem adds_getCtx : Adds P getCtx := fun _ => .of_log rfl

theorem adds_modifyCtx (f : Context → Context) : Adds P (modifyCtx f) := fun _ => .of_log rfl

theorem adds_eventReadStop : Adds P eventReadStop := fun w => .of_log w.readStop_log

theorem adds_eventWrite (bytes : Bytes) (cb : WriteCb) (stream : Option ℕ) :
    Adds P (eventWrite bytes cb stream) := by
  intro w
  simp only [eventWrite, wp_bind, wp_get, wp_ite]
  refine ⟨fun _ => .of_log rfl, fun _ => ?_⟩
  cases w.sock.write with
  | none => exact .of_log rfl
  | some e =>
    simp only [wp_ite]
    refine ⟨fun _ => ?_, fun _ => .of_log rfl⟩
    cases w.loop.writes <;> exact .of_log rfl

theorem adds_sendFrame {f : Frame} {cb : WriteCb} (h : ∀ s, P (.send f s)) :
    Adds P (sendFrame f cb) := (adds_record h).bind fun _ => adds_eventWrite _ _ _

theorem adds_setStreamState {new : StreamState} (h : ∀ s, P (.streamState new s)) :
    Adds P (setStreamState new) := (adds_record h).bind fun _ => adds_modifyCtx _

end Adds

/-! ## Verdicts -/

/-- What the frames of a stream lead to: a request, an error of the connection, or one of the
stream. -/
inductive Verdict
  | request (headers : HeaderList)
  | error (e : Http2Error)
  | reset (code : ℕ)
  deriving DecidableEq

/-- The verdict that an entry of the trace shows. -/
def Entry.verdict? : Entry → Option Verdict
  | .request _ headers _ => some (.request headers)
  | .error e _ => some (.error e)
  | .send (.rstStream code _) _ => some (.reset code)
  | _ => none

/-- An entry of the trace that is not a call of `hpack_decode`. -/
def Entry.notDecode : Entry → Prop
  | .decode _ _ => False
  | _ => True

/-- An entry of the trace without a verdict, and not a call of `hpack_decode`. -/
def Entry.plain (e : Entry) : Prop := e.verdict? = none ∧ e.notDecode

/-- The trace begins with a verdict, and nothing is decoded in it. -/
def Settled (v : Verdict) (log : List Entry) : Prop :=
  (∃ e rest, log = e :: rest ∧ e.verdict? = some v) ∧ ∀ e ∈ log, e.notDecode

/-- The trace is longer by a verdict and what follows it. -/
def Gives (v : Verdict) (w w' : World) : Prop := ∃ new, w'.log = w.log ++ new ∧ Settled v new

/-- The program, however it ends, first adds a verdict to the trace. -/
def Settles {α : Type} (v : Verdict) (m : M α) : Prop :=
  ∀ w, wp m (fun _ => Gives v w) (fun _ => Gives v w) w

section Settles

variable {α β : Type} {v : Verdict}

theorem notDecode_of_verdict {e : Entry} (h : e.verdict? = some v) : e.notDecode := by
  cases e with
  | decode => cases h
  | _ => trivial

theorem Gives.grown {w w' w'' : World} (h : Gives v w w') (hg : Grown Entry.notDecode w' w'') :
    Gives v w w'' := by
  obtain ⟨new, hlog, ⟨e, rest, rfl, he⟩, hnot⟩ := h
  obtain ⟨more, hlog', hmore⟩ := hg
  refine ⟨e :: (rest ++ more), by simp [hlog', hlog], ⟨e, _, rfl, he⟩, fun x hx => ?_⟩
  rw [← List.cons_append, List.mem_append] at hx
  exact hx.elim (hnot x) (hmore x)

theorem settles_record {e : State → Entry} (h : ∀ s, (e s).verdict? = some v) :
    Settles v (record e) :=
  fun w => ⟨[e w.toState], rfl, ⟨_, [], rfl, h _⟩, by simpa using notDecode_of_verdict (h _)⟩

/-- A program that gives a verdict goes on without decoding. -/
theorem Settles.bind {m : M α} {f : α → M β} (hm : Settles v m)
    (hf : ∀ a, Adds Entry.notDecode (f a)) : Settles v (m >>= f) := by
  intro w
  rw [wp_bind]
  refine (hm w).mono (fun a w' hw => ?_) fun _ _ => id
  exact (hf a w').mono (fun _ _ => hw.grown) fun _ _ => hw.grown

/-- An error of the connection. -/
theorem settles_http2Error (e : Http2Error) : Settles (.error e) (http2Error e) :=
  (settles_record fun _ => rfl).bind fun _ => (adds_modifyCtx _).bind fun _ =>
    adds_eventReadStop.bind fun _ => adds_getCtx.bind fun _ =>
      (adds_sendFrame fun _ => trivial).bind fun _ => adds_pure _

theorem settles_failWith (e : Http2Error) : Settles (.error e) (failWith e) :=
  (settles_http2Error e).bind fun _ => adds_pure _

theorem Settles.adds {m : M α} (hm : Settles v m) : Adds Entry.notDecode m := by
  have hgrown : ∀ w w', Gives v w w' → Grown Entry.notDecode w w' := by
    rintro w w' ⟨new, hlog, -, hnot⟩
    exact ⟨new, hlog, hnot⟩
  exact fun w => (hm w).mono (fun _ => hgrown w) fun _ => hgrown w

/-- An error of the stream. -/
theorem settles_http2StreamError (id : ℕ) (e : Http2Error) :
    Settles (.reset e.code) (http2StreamError id e) :=
  ((settles_record fun _ => rfl).bind fun _ => adds_eventWrite _ _ _).bind fun _ =>
    (adds_record fun _ => trivial).bind fun _ => adds_getCtx.bind fun _ =>
      .ite (adds_setStreamState fun _ => trivial) (adds_pure _)

theorem adds_sendHeadersFrame (headers : HeaderList) (id : ℕ) (fin : Bool) (cb : WriteCb) :
    Adds Entry.notDecode (sendHeadersFrame headers id fin cb) := by
  refine adds_getCtx.bind fun c => ?_
  cases Hpack.encode c.hpackDynamicTable headers .empty (frameMaxSize - 9) with
  | none => exact fun _ => .of_log rfl
  | some r =>
    obtain ⟨size, table, buffer⟩ := r
    refine (adds_modifyCtx _).bind fun _ => ?_
    exact .ite (adds_pure _) ((adds_sendFrame fun _ => trivial).bind fun _ => adds_pure _)

/-- A request. -/
theorem settles_handleRequest (server : Server) (headers : HeaderList) :
    Settles (.request headers) (handleRequest server headers) := by
  intro w
  simp only [handleRequest, wp_bind, wp_get, wp_set]
  set u : World := { w with
    loop.calls := w.loop.calls + 1
    ctx.stream.buf := (respond server headers w.ctx w.loop.calls).content
    ctx.stream.buflen := (respond server headers w.ctx w.loop.calls).contentLength
    log := w.log ++ [Entry.request w.ctx.stream.id headers
      (respond server headers w.ctx w.loop.calls).body] }
  have hgives : Gives (.request headers) w u :=
    ⟨[_], rfl, ⟨_, [], rfl, rfl⟩, by simp [Entry.notDecode]⟩
  refine (adds_sendHeadersFrame _ _ _ _ u).mono (fun hlen w' hw => ?_) fun _ _ => hgives.grown
  have hrest : Adds Entry.notDecode
      (if hlen < 0 then failWith .internalError else return 0 : M ℤ) :=
    .ite (settles_failWith _).adds (adds_pure _)
  exact (hrest w').mono (fun _ _ => (hgives.grown hw).grown) fun _ _ => (hgives.grown hw).grown

end Settles

/-- What the header block in the first `size` bytes of `buf` leads to. -/
def requestVerdict (behind : Hpack.Behind) (table : Hpack.DynamicTable) (buf : Bytes) (size : ℕ) :
    Verdict :=
  let result := Hpack.decode behind table buf size .reset
  if result.rc = Hpack.compressionError then .error .compressionError
  else if result.rc = Hpack.memoryError then .error .flowControlError
  else if result.rc = Hpack.internalError then .error .internalError
  else if !validatePseudoheaders result.headers then .error .protocolError
  else .request result.headers

/-- `handle_end_stream` decodes the header block in the stream buffer, and nothing else. -/
theorem handleEndStream_gives (server : Server) (w : World) :
    wp (handleEndStream server)
      (fun _ => Gives (requestVerdict (server.behind w.loop.calls) w.ctx.hpackDynamicTable
        w.ctx.stream.buf w.ctx.stream.buflen) (w.decoded w.ctx.hpackDynamicTable))
      (fun _ => Gives (requestVerdict (server.behind w.loop.calls) w.ctx.hpackDynamicTable
        w.ctx.stream.buf w.ctx.stream.buflen) (w.decoded w.ctx.hpackDynamicTable)) w := by
  have hrest : ∀ {m : M ℤ} {v : Verdict} (t : Hpack.DynamicTable), Settles v m →
      wp m (fun _ => Gives v (w.decoded w.ctx.hpackDynamicTable))
        (fun _ => Gives v (w.decoded w.ctx.hpackDynamicTable)) (w.decoded t) :=
    fun t hm => hm (w.decoded t)
  simp only [handleEndStream, wp_bind, wp_get, wp_record, wp_modifyCtx, requestVerdict]
  split
  · exact hrest _ (settles_failWith _)
  split
  · exact hrest _ (settles_failWith _)
  split
  · exact hrest _ (settles_failWith _)
  split
  · exact hrest _ (settles_failWith _)
  · exact hrest _ (settles_handleRequest server _)

/-! ## The automaton -/

/-- How the frames of a stream end: with a verdict, or with a header block that is complete. -/
inductive Ending
  | verdict (v : Verdict)
  | complete (block : Bytes)

/-- An error of the connection. -/
def Ending.error (e : Http2Error) : Ending := .verdict (.error e)

/-- What is known of a stream while its request is not complete: what was collected of the header
block, whether the flag for trailers is set, whether a CONTINUATION frame is expected, and whether
the end of the stream was received. -/
structure Reception where
  block : Bytes
  trailers : Bool
  waiting : Bool
  fin : Bool

namespace Reception

/-- The end of a frame: the request is complete, or more frames are expected. -/
def next (r : Reception) : Except Ending Reception :=
  if !r.waiting && r.fin then .error (.complete r.block) else .ok r

/-- The effect of `n` bytes of a header block, with the flags of their frame. -/
def copy (r : Reception) (h : FrameHeader) (data : Bytes) (n : ℕ) : Reception where
  block := if r.trailers then r.block else r.block ++ slice data 0 n
  trailers := r.trailers
  waiting := r.waiting && !h.has frameFlagsEndHeaders
  fin := r.fin || h.has frameFlagsEndStream

/-- `handle_header_block`. -/
def append (r : Reception) (h : FrameHeader) (data : Bytes) (size : ℤ) : Except Ending Reception :=
  let n := min size (http2StreamBufSize - r.block.length)
  if n ≤ 0 then .error (.error .flowControlError) else (r.copy h data n.toNat).next

/-- The payload of a HEADERS frame. -/
def headers (r : Reception) (h : FrameHeader) (payload : Bytes) : Except Ending Reception :=
  let padded := h.has frameFlagsPadded
  if padded ∧ byteAt payload 0 ≥ h.length then .error (.error .protocolError)
  else
    let size : ℤ := if padded then h.length - 1 - byteAt payload 0 else h.length
    let payload := if padded then payload.drop 1 else payload
    if h.has frameFlagsPriority then r.append h (payload.drop 5) (size - 5)
    else r.append h payload size

/-- A DATA frame. -/
def data (r : Reception) (h : FrameHeader) (payload : Bytes) : Except Ending Reception :=
  if h.has frameFlagsPadded ∧ byteAt payload 0 ≥ h.length then .error (.error .protocolError)
  else { r with fin := r.fin || h.has frameFlagsEndStream }.next

/-- A second HEADERS frame, which has to be the end of the stream. -/
def trailer (r : Reception) (h : FrameHeader) (payload : Bytes) : Except Ending Reception :=
  if !h.has frameFlagsEndStream then .error (.verdict (.reset Http2Error.protocolError.code))
  else { r with trailers := true, waiting := true }.headers h payload

/-- A CONTINUATION frame. -/
def continuation (r : Reception) (h : FrameHeader) (payload : Bytes) : Except Ending Reception :=
  if !r.waiting then .error (.error .protocolError) else r.append h payload h.length

/-- A frame of the stream. -/
def frame (r : Reception) (f : FrameHeader × Bytes) : Except Ending Reception :=
  if r.waiting ∧ f.1.type ≠ .continuation then .error (.error .protocolError)
  else
    match f.1.type with
    | .headers => r.trailer f.1 f.2
    | .continuation => r.continuation f.1 f.2
    | .data => r.data f.1 f.2
    | _ => .ok r

/-- The request is not complete. -/
def Open (r : Reception) : Prop := r.fin = true → r.waiting = true

/-- A frame that leads to `res` if it is handled. One that is too large is an error, and nothing
comes of one that does not fit in the read buffer with its header. -/
def taken (h : FrameHeader) (res : Except Ending Reception) : Option (Except Ending Reception) :=
  if h.Fits then some res
  else if h.length > http2SockReadSize then some (.error (.error (sizeError h.length)))
  else none

/-- The frames up to the one that ends the reception, and the frames behind it. -/
def run (r : Reception) : List (FrameHeader × Bytes) →
    Option (Ending × List (FrameHeader × Bytes))
  | [] => none
  | f :: frames =>
    match taken f.1 (r.frame f) with
    | none => none
    | some (.ok r) => r.run frames
    | some (.error e) => some (e, frames)

/-- The frames behind one of which `res` came. -/
def after (frames : List (FrameHeader × Bytes)) :
    Option (Except Ending Reception) → Option (Ending × List (FrameHeader × Bytes))
  | none => none
  | some (.ok r) => r.run frames
  | some (.error e) => some (e, frames)

theorem run_cons (r : Reception) (f : FrameHeader × Bytes) (frames : List (FrameHeader × Bytes)) :
    r.run (f :: frames) = after frames (taken f.1 (r.frame f)) := rfl

end Reception

/-- The first frame of a new stream, where the two flags are left over from earlier streams. -/
def openReception (waiting trailers : Bool) (f : FrameHeader × Bytes) : Except Ending Reception :=
  if waiting ∧ f.1.type ≠ .continuation then .error (.error .protocolError)
  else if f.1.type = .headers ∧ f.1.streamId % 2 = 1 then
    (⟨[], trailers, true, false⟩ : Reception).headers f.1 f.2
  else .error (.error .protocolError)

/-- The frames of a new stream, up to the one that ends its reception. -/
def reception (waiting trailers : Bool) : List (FrameHeader × Bytes) →
    Option (Ending × List (FrameHeader × Bytes))
  | [] => none
  | f :: frames => Reception.after frames (Reception.taken f.1 (openReception waiting trailers f))

/-! ## The connection follows the automaton -/

/-- The types of the frames that carry a request. -/
def FrameType.ofRequest (t : FrameType) : Prop := t = .headers ∨ t = .continuation ∨ t = .data

instance (t : FrameType) : Decidable t.ofRequest := inferInstanceAs (Decidable (_ ∨ _ ∨ _))

/-- Since the world `w₀` the stream `id` was opened, and `r` is what is known of it. -/
structure Receives (w₀ : World) (id : ℕ) (r : Reception) (w : World) : Prop where
  grown : Grown Entry.plain w₀ w
  odd : id % 2 = 1
  ready : w.ctx.state = .ready
  state : w.ctx.stream.state = if r.fin then .halfClosedRemote else .opened
  last : w.ctx.lastOpenedStreamId = id
  endHeaders : w.ctx.flags.waitingEndHeaders = r.waiting
  endStream : w.ctx.flags.waitingEndStream = !r.fin
  trailers : w.ctx.flags.waitingTrailers = r.trailers
  table : w.ctx.hpackDynamicTable = w₀.ctx.hpackDynamicTable
  buflen : w.ctx.stream.buflen = r.block.length
  buf : w.ctx.stream.buf = r.block ++ w₀.ctx.stream.buf.drop r.block.length
  calls : w.loop.calls = w₀.loop.calls

section Steps

variable (server : Server) {w₀ w : World} {id : ℕ} {r : Reception}

/-- What a header block that is complete leads to. What earlier streams have left in the stream
buffer lies behind it. -/
def blockVerdict (w : World) (block : Bytes) : Verdict :=
  requestVerdict (server.behind w.loop.calls) w.ctx.hpackDynamicTable
    (block ++ w.ctx.stream.buf.drop block.length) block.length

/-- What an ending leaves in the trace. -/
def Ending.Shows (w₀ : World) (log : List Entry) : Ending → Prop
  | .verdict v => Settled v log
  | .complete block => ∃ s rest, log = .decode block s :: rest ∧
      s.ctx.hpackDynamicTable = w₀.ctx.hpackDynamicTable ∧ s.ctx.stream.buflen = block.length ∧
        s.ctx.stream.buf = block ++ w₀.ctx.stream.buf.drop block.length ∧
          Settled (blockVerdict server w₀ block) rest

/-- Since the world `w₀` the reception of a stream has come to its end. -/
def Ended (w₀ : World) (e : Ending) (w : World) : Prop :=
  ∃ new rest, w.log = w₀.log ++ new ++ rest ∧ (∀ x ∈ new, x.plain) ∧ e.Shows server w₀ rest

/-- What a frame leads to, with the result of its handler: the reception goes on, or it has come to
its end, with a negative result unless the header block was complete. -/
def Follows (w₀ : World) (id : ℕ) (res : Except Ending Reception) (rc : ℤ) (w : World) : Prop :=
  match res with
  | .ok r => rc = 0 ∧ Receives w₀ id r w
  | .error e => Ended server w₀ e w ∧ ((∃ v, e = .verdict v) → rc < 0)

theorem slice_zero_eq_take {m : Bytes} {n : ℕ} (h : n ≤ m.length) : slice m 0 n = m.take n := by
  refine List.ext_getElem (by simp [h]) fun i h1 h2 => ?_
  have hi : i < m.length := by simp at h2; omega
  simp [slice, hi]

/-- The frame is answered with an error. -/
theorem Grown.failWith (hg : Grown Entry.plain w₀ w) (e : Http2Error) :
    wp (failWith e) (Follows server w₀ id (.error (.error e)))
      (fun _ => Follows server w₀ id (.error (.error e)) (-1)) w := by
  obtain ⟨new, hlog, hnew⟩ := hg
  have hend : ∀ w', Gives (.error e) w w' → Ended server w₀ (.error e) w' := by
    rintro w' ⟨rest, hrest, hset⟩
    exact ⟨new, rest, by rw [hrest, hlog], hnew, hset⟩
  have hrc : wp (Two.failWith e) (fun rc _ => rc < 0) (fun _ _ => True) w := by
    simp only [Two.failWith, wp_bind, wp_pure]
    exact http2Error_wp (fun _ => by decide) fun _ _ _ _ _ => trivial
  refine ((settles_failWith e w).and hrc).mono (fun rc w' hw => ?_) fun _ w' hw => ?_
  · exact ⟨hend w' hw.1, fun _ => hw.2⟩
  · exact ⟨hend w' hw.1, fun _ => by decide⟩

/-- The frame is answered with RST_STREAM. -/
theorem Grown.resets (hg : Grown Entry.plain w₀ w) (streamId : ℕ) (e : Http2Error) :
    wp (http2StreamError streamId e)
      (fun _ => Follows server w₀ id (.error (.verdict (.reset e.code))) (-1))
      (fun _ => Follows server w₀ id (.error (.verdict (.reset e.code))) (-1)) w := by
  obtain ⟨new, hlog, hnew⟩ := hg
  have hend : ∀ w', Gives (.reset e.code) w w' →
      Follows server w₀ id (.error (.verdict (.reset e.code))) (-1) w' := by
    rintro w' ⟨rest, hrest, hset⟩
    exact ⟨⟨new, rest, by rw [hrest, hlog], hnew, hset⟩, fun _ => by decide⟩
  exact (settles_http2StreamError streamId e w).mono (fun _ => hend) fun _ => hend

/-- An entry without a verdict is recorded. -/
theorem Receives.add (hr : Receives w₀ id r w) {e : State → Entry} (he : ∀ s, (e s).plain) :
    Receives w₀ id r (w.add e) :=
  { hr with grown := hr.grown.trans ⟨[e w.toState], rfl, by simpa using he _⟩ }

/-- The header block is complete. -/
theorem Receives.handleEndStream (hr : Receives w₀ id r w) :
    wp (handleEndStream server) (Follows server w₀ id (.error (.complete r.block)))
      (fun _ => Follows server w₀ id (.error (.complete r.block)) (-1)) w := by
  obtain ⟨new, hlog, hnew⟩ := hr.grown
  have hblock : slice w.ctx.stream.buf 0 w.ctx.stream.buflen = r.block := by
    rw [hr.buflen, hr.buf, slice_zero_eq_take (by simp), List.take_left]
  have hverdict : requestVerdict (server.behind w.loop.calls) w.ctx.hpackDynamicTable
      w.ctx.stream.buf w.ctx.stream.buflen = blockVerdict server w₀ r.block := by
    rw [hr.calls, hr.table, hr.buf, hr.buflen, blockVerdict]
  have hend : ∀ w', Gives (blockVerdict server w₀ r.block)
      (w.decoded w.ctx.hpackDynamicTable) w' →
      Ended server w₀ (.complete r.block) w' := by
    rintro w' ⟨rest, hrest, hset⟩
    rw [World.decoded_log, hlog, hblock] at hrest
    exact ⟨new, .decode r.block w.toState :: rest, by simp [hrest], hnew, w.toState, rest, rfl,
      hr.table, hr.buflen, hr.buf, hset⟩
  have hgives := handleEndStream_gives server w
  rw [hverdict] at hgives
  refine hgives.mono (fun _ w' hw => ⟨hend w' hw, ?_⟩) fun _ w' hw => ⟨hend w' hw, ?_⟩
  · rintro ⟨v, hv⟩
    cases hv
  · exact fun _ => by decide

/-- The end of a frame. -/
theorem Receives.endStreamIfComplete (hr : Receives w₀ id r w) :
    wp (endStreamIfComplete server) (Follows server w₀ id r.next) (fun _ => Follows server w₀ id r.next (-1)) w := by
  simp only [Two.endStreamIfComplete, wp_bind, wp_getCtx, wp_ite, wp_pure, hr.endStream,
    hr.endHeaders]
  unfold Reception.next
  refine ⟨fun hc => ?_, fun hc => ?_⟩
  · rw [if_pos (by simpa using hc)]
    exact hr.handleEndStream server
  · rw [if_neg (by simpa using hc)]
    exact ⟨rfl, hr⟩

/-- `handle_data_frame` does not look at the result of `handle_end_stream`. -/
theorem Follows.next_zero {rc : ℤ} (h : Follows server w₀ id r.next rc w) :
    Follows server w₀ id r.next 0 w := by
  unfold Reception.next at h ⊢
  by_cases hc : (!r.waiting && r.fin) = true
  · rw [if_pos hc] at h ⊢
    refine ⟨h.1, ?_⟩
    rintro ⟨v, hv⟩
    cases hv
  · rw [if_neg hc] at h ⊢
    exact ⟨rfl, h.2⟩

/-- Some bytes of a header block are copied, unless the flag for trailers is set. -/
theorem Receives.copy (hr : Receives w₀ id r w) (h : FrameHeader) (data : Bytes) (n : ℕ) :
    Receives w₀ id (r.copy h data n) (w.block h data n) := by
  -- each field of the world follows the reassembly, flag by flag
  constructor
  · refine hr.grown.trans ⟨_, World.block_log _ _ _ _, fun e he => ?_⟩
    obtain ⟨s, rfl, -⟩ := World.mem_markEntry _ _ he
    exact ⟨rfl, trivial⟩
  · exact hr.odd
  · simpa using hr.ready
  · simp only [World.block_ctx, Context.block_streamState, hr.state, Reception.copy]
    rcases r.fin.eq_false_or_eq_true with hfin | hfin <;> simp [hfin]
  · simpa using hr.last
  · simp only [World.block_ctx, Context.block_waitingEndHeaders, hr.endHeaders, Reception.copy]
    cases r.waiting <;> cases h.has frameFlagsEndHeaders <;> rfl
  · simp only [World.block_ctx, Context.block_waitingEndStream, hr.endStream, Reception.copy]
    cases r.fin <;> cases h.has frameFlagsEndStream <;> rfl
  · simpa [Reception.copy] using hr.trailers
  · simpa using hr.table
  · simp only [World.block_ctx, Context.block_buflen, hr.trailers, hr.buflen, Reception.copy]
    split
    · rfl
    · simp
  · simp only [World.block_ctx, Context.block_buf, hr.trailers, Reception.copy]
    split
    · exact hr.buf
    · simp only [Context.appendBlock, hr.buflen, hr.buf, List.take_left]
      rw [List.length_append, length_slice, ← List.drop_drop, List.drop_left, List.drop_drop]
  · simpa using hr.calls

/-- `handle_header_block` raises an error where it copies nothing, and else looks at the flags. -/
theorem handleHeaderBlock_wp {h : FrameHeader} {data : Bytes} {size n : ℤ} {Q : ℤ → World → Prop}
    {E : Assertion → World → Prop} (hn : n = min size (http2StreamBufSize - w.ctx.stream.buflen))
    (hfail : n ≤ 0 → wp (failWith .flowControlError) Q E w)
    (hnext : ¬ n ≤ 0 → wp (endStreamIfComplete server) Q E (w.block h data n.toNat)) :
    wp (handleHeaderBlock server h data size) Q E w := by
  simp only [handleHeaderBlock, wp_bind, wp_getCtx]
  rw [← hn]
  simp only [wp_ite]
  refine ⟨hfail, fun hle => ?_⟩
  have hnext := hnext hle
  by_cases ht : w.ctx.flags.waitingTrailers = true
  · simpa [World.block, ht] using hnext
  · simpa [World.block, ht] using hnext

theorem Receives.handleHeaderBlock (hr : Receives w₀ id r w) (h : FrameHeader) (data : Bytes)
    (size : ℤ) :
    wp (handleHeaderBlock server h data size) (Follows server w₀ id (r.append h data size))
      (fun _ => Follows server w₀ id (r.append h data size) (-1)) w := by
  unfold Reception.append
  rw [← hr.buflen]
  refine handleHeaderBlock_wp server rfl (fun hle => ?_) fun hle => ?_
  · simp only [if_pos hle]
    exact hr.grown.failWith server _
  · simp only [if_neg hle]
    exact (hr.copy h data _).endStreamIfComplete server

theorem Receives.handleHeadersPayload (hr : Receives w₀ id r w) (h : FrameHeader)
    (payload : Bytes) :
    wp (handleHeadersPayload server h payload) (Follows server w₀ id (r.headers h payload))
      (fun _ => Follows server w₀ id (r.headers h payload) (-1)) w := by
  unfold Two.handleHeadersPayload Reception.headers
  by_cases hpad : h.has frameFlagsPadded ∧ byteAt payload 0 ≥ h.length
  · simp only [if_pos hpad]
    exact hr.grown.failWith server _
  · simp only [if_neg hpad]
    split
    · exact hr.handleHeaderBlock server h _ _
    · exact hr.handleHeaderBlock server h _ _

/-- A DATA frame, where no CONTINUATION frame is expected. -/
theorem Receives.handleDataFrame (hr : Receives w₀ id r w) (hfin : r.fin = false)
    {h : FrameHeader} (hid : h.streamId = id) (payload : Bytes) :
    wp (handleDataFrame server h payload) (Follows server w₀ id (r.data h payload))
      (fun _ => Follows server w₀ id (r.data h payload) (-1)) w := by
  have hstate : w.ctx.stream.state = .opened := by simp [hr.state, hfin]
  have hodd := hr.odd
  simp only [Two.handleDataFrame, wp_bind, wp_getCtx, wp_ite, hid, hr.last, hstate,
    wp_markEndStream, wp_pure]
  refine ⟨fun h => by omega, fun _ => ⟨fun h => absurd h (lt_irrefl _), fun _ =>
    ⟨fun h => absurd rfl h, fun _ => ⟨fun hpad => ?_, fun hpad => ?_⟩⟩⟩⟩
  · simp only [Reception.data, if_pos hpad]
    exact hr.grown.failWith server _
  · simp only [Reception.data, if_neg hpad]
    -- the flag that ends the stream is all the payload does to the reception
    have hmark : Receives w₀ id { r with fin := r.fin || h.has frameFlagsEndStream }
        (w.marked h) := by
      constructor
      · refine hr.grown.trans ⟨_, World.marked_log _ _, fun e he => ?_⟩
        obtain ⟨s, rfl, -⟩ := World.mem_markEntry _ _ he
        exact ⟨rfl, trivial⟩
      · exact hr.odd
      · simpa using hr.ready
      · simp only [World.marked_ctx, Context.marked_streamState, hr.state, hfin]
        simp
      · simpa using hr.last
      · simpa using hr.endHeaders
      · simp only [World.marked_ctx, Context.marked_waitingEndStream, hr.endStream]
        cases r.fin <;> cases h.has frameFlagsEndStream <;> rfl
      · simpa using hr.trailers
      · simpa using hr.table
      · simpa using hr.buflen
      · simpa using hr.buf
      · simpa using hr.calls
    exact (hmark.endStreamIfComplete server).mono (fun _ _ hw => hw.next_zero) fun _ _ hw => hw

/-- A second HEADERS frame, where no CONTINUATION frame is expected. -/
theorem Receives.handleHeadersFrame (hr : Receives w₀ id r w) (hfin : r.fin = false)
    {h : FrameHeader} (hid : h.streamId = id) (payload : Bytes) :
    wp (handleHeadersFrame server h payload) (Follows server w₀ id (r.trailer h payload))
      (fun _ => Follows server w₀ id (r.trailer h payload) (-1)) w := by
  have hstate : w.ctx.stream.state = .opened := by simp [hr.state, hfin]
  have hodd := hr.odd
  unfold Reception.trailer
  simp only [Two.handleHeadersFrame, wp_bind, wp_getCtx, wp_ite, hid, hr.last, hr.ready, hstate,
    wp_modifyCtx]
  refine ⟨fun h => by simp at h, fun _ => ⟨fun h => by omega, fun _ => ⟨fun h => by omega,
    fun _ => ⟨fun h => by omega, fun _ => ⟨fun h => by simp at h, fun _ =>
      ⟨fun _ => ⟨fun he => ?_, fun he => ?_⟩, fun h => absurd trivial h⟩⟩⟩⟩⟩⟩
  · rw [if_pos he]
    exact hr.grown.resets server id _
  · rw [if_neg he]
    have htrailers : Receives w₀ id { r with trailers := true, waiting := true }
        (w.onCtx fun c =>
          { c with flags.waitingTrailers := true, flags.waitingEndHeaders := true }) :=
      { hr with endHeaders := rfl, trailers := rfl }
    exact htrailers.handleHeadersPayload server h payload

theorem Receives.handleContinuationFrame (hr : Receives w₀ id r w) {h : FrameHeader}
    (hid : h.streamId = id) (payload : Bytes) :
    wp (handleContinuationFrame server h payload) (Follows server w₀ id (r.continuation h payload))
      (fun _ => Follows server w₀ id (r.continuation h payload) (-1)) w := by
  have hodd := hr.odd
  have hstate : w.ctx.stream.state = .opened ∨ w.ctx.stream.state = .halfClosedRemote := by
    rw [hr.state]
    split
    · exact .inr rfl
    · exact .inl rfl
  unfold Reception.continuation
  simp only [Two.handleContinuationFrame, wp_bind, wp_getCtx, wp_ite, hid, hr.endHeaders]
  refine ⟨fun h => ?_, fun h => ?_⟩
  · have hwait : (!r.waiting) = true := by
      rcases h with h | h | h
      · omega
      · exact absurd hstate (by simpa using h)
      · exact h
    rw [if_pos hwait]
    exact hr.grown.failWith server _
  · rw [if_neg fun hwait => h (.inr (.inr hwait))]
    exact hr.handleHeaderBlock server _ payload _

/-- A frame of the stream whose request is being received. -/
theorem Receives.receiveFrame (hr : Receives w₀ id r w) (hopen : r.Open) {f : FrameHeader × Bytes}
    (hid : f.1.streamId = id) (htype : f.1.type.ofRequest) :
    wp (receiveFrame server f.1 f.2) (Follows server w₀ id (r.frame f))
      (fun _ => Follows server w₀ id (r.frame f) (-1)) w := by
  have hadd : Receives w₀ id r (w.add (.frame f.1 f.2)) := hr.add fun _ => ⟨rfl, trivial⟩
  simp only [Two.receiveFrame, wp_bind, wp_getCtx, wp_record, wp_ite, hr.endHeaders]
  refine ⟨fun hc => ?_, fun hc => ?_⟩
  · rw [Reception.frame, if_pos hc]
    exact hadd.grown.failWith server _
  · rw [Reception.frame, if_neg hc]
    -- where no CONTINUATION frame is expected, the stream is still open
    have hfin : f.1.type ≠ .continuation → r.fin = false := by
      intro ht
      have hwait : r.waiting = false := by simpa [ht] using hc
      simpa [hwait] using mt hopen
    rcases htype with ht | ht | ht
    · simp only [handleFrame, ht]
      exact hadd.handleHeadersFrame server (hfin (by simp [ht])) hid f.2
    · simp only [handleFrame, ht]
      exact hadd.handleContinuationFrame server hid f.2
    · simp only [handleFrame, ht]
      exact hadd.handleDataFrame server (hfin (by simp [ht])) hid f.2

/-- The first frame of a new stream. -/
theorem receiveFrame_new (hstate : w.ctx.state = .ready) (hclosed : w.ctx.stream.state = .closed)
    (hlast : w.ctx.lastOpenedStreamId < id) {f : FrameHeader × Bytes} (hid : f.1.streamId = id)
    (htype : f.1.type.ofRequest) :
    wp (receiveFrame server f.1 f.2)
      (Follows server w id (openReception w.ctx.flags.waitingEndHeaders w.ctx.flags.waitingTrailers f))
      (fun _ => Follows server w id
        (openReception w.ctx.flags.waitingEndHeaders w.ctx.flags.waitingTrailers f) (-1)) w := by
  have hadd : Grown Entry.plain w (w.add (.frame f.1 f.2)) :=
    ⟨_, World.add_log _ _, by simp [Entry.plain, Entry.verdict?, Entry.notDecode]⟩
  simp only [receiveFrame, wp_bind, wp_getCtx, wp_record, wp_ite]
  refine ⟨fun hc => ?_, fun hc => ?_⟩
  -- the frame is not what the connection waits for
  · rw [openReception, if_pos hc]
    exact hadd.failWith server _
  · rw [openReception, if_neg hc]
    rcases htype with ht | ht | ht
    -- a HEADERS frame opens the stream if its identifier is odd
    · simp only [handleFrame, ht, Two.handleHeadersFrame, wp_bind, wp_getCtx, wp_ite, hid,
        wp_modifyCtx, wp_setStreamState, true_and]
      simp only [World.add_toState, hstate, hclosed]
      by_cases hodd : id % 2 = 1
      · rw [if_pos hodd]
        have hopen : Receives w id ⟨[], w.ctx.flags.waitingTrailers, true, false⟩
            ((w.add (.frame f.1 f.2)).opening id) := by
          refine ⟨hadd.trans ⟨_, World.opening_log _ _, ?_⟩, hodd, hstate, rfl, rfl, rfl, rfl, rfl,
            rfl, rfl, ?_, rfl⟩
          · simp [Entry.plain, Entry.verdict?, Entry.notDecode]
          · simp [Context.openStream]
        refine ⟨fun h => by simp at h, fun _ => ⟨fun h => by omega, fun _ => ⟨fun h => by omega,
          fun _ => ⟨fun h => absurd rfl h.2, fun _ => ⟨fun h => by omega, fun _ =>
            ⟨fun h => by omega, fun _ => ?_⟩⟩⟩⟩⟩⟩
        exact hopen.handleHeadersPayload server f.1 f.2
      · rw [if_neg hodd]
        refine ⟨fun h => by simp at h, fun _ => ⟨fun h => by omega, fun _ =>
          ⟨fun _ => hadd.failWith server _, fun h => by omega⟩⟩⟩
    -- a CONTINUATION or DATA frame is an error, since the stream is not open
    · rw [if_neg (by simp [ht])]
      simp only [handleFrame, ht, Two.handleContinuationFrame, wp_bind, wp_getCtx, wp_ite]
      refine ⟨fun _ => hadd.failWith server _, fun h => absurd ?_ h⟩
      simp [hclosed]
    · rw [if_neg (by simp [ht])]
      simp only [handleFrame, ht, Two.handleDataFrame, wp_bind, wp_getCtx, wp_ite, hid]
      exact ⟨fun _ => hadd.failWith server _, fun h => absurd (.inr hlast) h⟩

/-- The checks of the length come first. -/
theorem Reception.taken_of_some {h : FrameHeader} {res res' : Except Ending Reception}
    (hres : Reception.taken h res = some res') :
    (h.Fits ∧ res' = res) ∨ (¬ h.Fits ∧ h.length > http2SockReadSize ∧
      res' = .error (.error (sizeError h.length))) := by
  unfold Reception.taken at hres
  split at hres
  · exact .inl ⟨‹_›, (Option.some.inj hres).symm⟩
  split at hres
  · exact .inr ⟨‹_›, ‹_›, (Option.some.inj hres).symm⟩
  · cases hres

/-- A frame is handled, or refused for its length. -/
theorem Grown.takeFrame (hg : Grown Entry.plain w₀ w) {f : FrameHeader × Bytes}
    {res res' : Except Ending Reception} (hres : Reception.taken f.1 res = some res')
    (hframe : wp (Two.receiveFrame server f.1 f.2) (Follows server w₀ id res)
      (fun _ => Follows server w₀ id res (-1)) w) :
    wp (Two.takeFrame server f.1 f.2) (Follows server w₀ id res')
      (fun _ => Follows server w₀ id res' (-1)) w := by
  rcases Reception.taken_of_some hres with ⟨hfits, rfl⟩ | ⟨hfits, hlarge, rfl⟩
  · rw [takeFrame_of_fits hfits]
    exact hframe
  · have hadd : Grown Entry.plain w₀ (w.add (.frame f.1 f.2)) :=
      hg.trans ⟨_, World.add_log _ _, by simp [Entry.plain, Entry.verdict?, Entry.notDecode]⟩
    rw [wp, takeFrame_unfit hfits, if_pos hlarge]
    exact hadd.failWith server _

end Steps

/-! ## All frames -/

section Open

variable {r r' : Reception}

theorem Reception.next_open (h : r.next = .ok r') : r'.Open := by
  unfold Reception.next at h
  split at h
  · cases h
  · rename_i hc
    cases h
    intro hfin
    by_contra hw
    exact hc (by simp [hfin, Bool.eq_false_iff.mpr hw])

theorem Reception.append_open {h : FrameHeader} {data : Bytes} {size : ℤ}
    (hok : r.append h data size = .ok r') : r'.Open := by
  unfold Reception.append at hok
  dsimp only at hok
  split at hok
  · cases hok
  · exact Reception.next_open hok

theorem Reception.headers_open {h : FrameHeader} {payload : Bytes}
    (hok : r.headers h payload = .ok r') : r'.Open := by
  unfold Reception.headers at hok
  dsimp only at hok
  split at hok
  · cases hok
  split at hok
  · exact Reception.append_open hok
  · exact Reception.append_open hok

theorem Reception.frame_open (hr : r.Open) {f : FrameHeader × Bytes} (hok : r.frame f = .ok r') :
    r'.Open := by
  unfold Reception.frame Reception.trailer Reception.continuation Reception.data at hok
  split at hok
  · cases hok
  split at hok
  · split at hok
    · cases hok
    · exact Reception.headers_open hok
  · split at hok
    · cases hok
    · exact Reception.append_open hok
  · split at hok
    · cases hok
    · exact Reception.next_open hok
  · cases hok
    exact hr

theorem openReception_open {waiting trailers : Bool} {f : FrameHeader × Bytes}
    (hok : openReception waiting trailers f = .ok r) : r.Open := by
  unfold openReception at hok
  split at hok
  · cases hok
  split at hok
  · exact Reception.headers_open hok
  · cases hok

theorem Reception.taken_open {h : FrameHeader} {res : Except Ending Reception}
    (hres : res = .ok r → r.Open) (hok : Reception.taken h res = some (.ok r)) : r.Open := by
  rcases Reception.taken_of_some hok with ⟨-, heq⟩ | ⟨-, -, heq⟩
  · exact hres heq.symm
  · cases heq

end Open

/-- Anything may follow in the trace. -/
abbrev Extends {α : Type} (m : M α) : Prop := Adds (fun _ => True) m

section Extends

variable (server : Server)

theorem Settles.extends {α : Type} {v : Verdict} {m : M α} (h : Settles v m) : Extends m :=
  h.adds.mono fun _ _ => trivial

theorem extends_markEndStream (h : FrameHeader) : Extends (markEndStream h) :=
  .ite ((adds_modifyCtx _).bind fun _ => adds_setStreamState fun _ => trivial) (adds_pure _)

theorem extends_markEndHeaders (h : FrameHeader) : Extends (markEndHeaders h) :=
  .ite (adds_modifyCtx _) (adds_pure _)

theorem extends_handleEndStream : Extends (handleEndStream server) := by
  intro w
  have hgrown : ∀ {v : Verdict} {w' : World}, Gives v (w.decoded w.ctx.hpackDynamicTable) w' →
      Grown (fun _ => True) w w' := by
    rintro v w' ⟨new, hlog, -⟩
    exact ⟨_, by rw [hlog, World.decoded_log, List.append_assoc], fun _ _ => trivial⟩
  exact (handleEndStream_gives server w).mono (fun _ _ => hgrown) fun _ _ => hgrown

theorem extends_endStreamIfComplete : Extends (endStreamIfComplete server) :=
  adds_getCtx.bind fun _ => .ite (extends_handleEndStream server) (adds_pure _)

theorem extends_handleHeaderBlock (h : FrameHeader) (data : Bytes) (size : ℤ) :
    Extends (handleHeaderBlock server h data size) :=
  adds_getCtx.bind fun _ => .ite (settles_failWith _).extends <|
    Adds.bind (.ite (adds_modifyCtx _) (adds_pure _)) fun _ =>
      (extends_markEndStream h).bind fun _ => (extends_markEndHeaders h).bind fun _ =>
        extends_endStreamIfComplete server

theorem extends_handleHeadersPayload (h : FrameHeader) (payload : Bytes) :
    Extends (handleHeadersPayload server h payload) :=
  .ite (settles_failWith _).extends (.ite (extends_handleHeaderBlock server h _ _)
    (extends_handleHeaderBlock server h _ _))

theorem extends_handleHeadersFrame (h : FrameHeader) (payload : Bytes) :
    Extends (handleHeadersFrame server h payload) :=
  adds_getCtx.bind fun _ => .ite (adds_pure _) <| .ite (settles_failWith _).extends <|
    .ite (settles_failWith _).extends <| .ite (settles_failWith _).extends <|
      .ite (settles_failWith _).extends <| .ite
        (.ite ((settles_http2StreamError _ _).extends.bind fun _ => adds_pure _)
          ((adds_modifyCtx _).bind fun _ => extends_handleHeadersPayload server h payload))
        ((adds_modifyCtx _).bind fun _ => (adds_setStreamState fun _ => trivial).bind fun _ =>
          extends_handleHeadersPayload server h payload)

theorem extends_handleDataFrame (h : FrameHeader) (payload : Bytes) :
    Extends (handleDataFrame server h payload) :=
  adds_getCtx.bind fun _ => .ite (settles_failWith _).extends <|
    .ite ((settles_http2StreamError _ _).extends.bind fun _ => adds_pure _) <|
      .ite ((settles_http2StreamError _ _).extends.bind fun _ => adds_pure _) <|
        .ite (settles_failWith _).extends <| (extends_markEndStream h).bind fun _ =>
          (extends_endStreamIfComplete server).bind fun _ => adds_pure _

theorem extends_handleContinuationFrame (h : FrameHeader) (payload : Bytes) :
    Extends (handleContinuationFrame server h payload) :=
  adds_getCtx.bind fun _ => .ite (settles_failWith _).extends
    (extends_handleHeaderBlock server h payload _)

theorem extends_receiveFrame {f : FrameHeader × Bytes} (htype : f.1.type.ofRequest) :
    Extends (receiveFrame server f.1 f.2) := by
  have hframe : Extends (handleFrame server f.1 f.2) := by
    unfold handleFrame
    rcases htype with ht | ht | ht
    · rw [ht]
      exact extends_handleHeadersFrame server f.1 f.2
    · rw [ht]
      exact extends_handleContinuationFrame server f.1 f.2
    · rw [ht]
      exact extends_handleDataFrame server f.1 f.2
  exact adds_getCtx.bind fun _ => (adds_record fun _ => trivial).bind fun _ =>
    .ite (settles_failWith _).extends hframe

theorem extends_takeFrame {f : FrameHeader × Bytes} (htype : f.1.type.ofRequest) :
    Extends (takeFrame server f.1 f.2) :=
  .ite ((adds_record fun _ => trivial).bind fun _ => (settles_failWith _).extends) <|
    .ite (adds_pure _) (extends_receiveFrame server htype)

theorem extends_receiveFrames {frames : List (FrameHeader × Bytes)}
    (htypes : ∀ f ∈ frames, f.1.type.ofRequest) : Extends (receiveFrames server frames) := by
  induction frames with
  | nil => exact adds_pure _
  | cons f frames ih =>
    refine (extends_takeFrame server (htypes f List.mem_cons_self)).bind fun _ => ?_
    exact .ite (adds_pure _) (ih fun g hg => htypes g (List.mem_cons_of_mem _ hg))

end Extends

/-- What all frames of a stream lead to: nothing yet; or an ending, which nothing follows where it is
an error or comes with the last frame. -/
def Concludes (server : Server) (w₀ : World) : Option (Ending × List (FrameHeader × Bytes)) → World → Prop
  | none, w => Grown Entry.plain w₀ w
  | some (e, rest), w => (∃ w₁, Ended server w₀ e w₁ ∧ w₁.log <+: w.log) ∧
      ((∃ v, e = .verdict v) ∨ rest = [] → Ended server w₀ e w)

section Run

variable (server : Server) {w₀ w : World} {id : ℕ} {rest : List (FrameHeader × Bytes)}

/-- A frame and the frames behind it. -/
theorem receiveFrames_cons {f : FrameHeader × Bytes} {res : Except Ending Reception}
    {out : Option (Ending × List (FrameHeader × Bytes))} (hg : Grown Entry.plain w₀ w)
    (hframe : wp (receiveFrame server f.1 f.2) (Follows server w₀ id res)
      (fun _ => Follows server w₀ id res (-1)) w)
    (htypes : ∀ g ∈ rest, g.1.type.ofRequest)
    (hwait : Reception.taken f.1 res = none → out = none)
    (herr : ∀ e, Reception.taken f.1 res = some (.error e) → out = some (e, rest))
    (hok : ∀ r w', Reception.taken f.1 res = some (.ok r) → Receives w₀ id r w' →
      wp (receiveFrames server rest) (fun _ => Concludes server w₀ out) (fun _ => Concludes server w₀ out) w') :
    wp (receiveFrames server (f :: rest)) (fun _ => Concludes server w₀ out)
      (fun _ => Concludes server w₀ out) w := by
  rw [receiveFrames, wp_bind]
  cases htaken : Reception.taken f.1 res with
  | none =>
    -- the frame is waited for
    rw [hwait htaken]
    have hfits : ¬ f.1.Fits ∧ ¬ f.1.length > http2SockReadSize := by
      unfold Reception.taken at htaken
      split at htaken
      · cases htaken
      split at htaken
      · cases htaken
      · exact ⟨‹_›, ‹_›⟩
    rw [wp, takeFrame_unfit hfits.1, if_neg hfits.2]
    exact hg
  | some res' =>
  have hframe := hg.takeFrame server htaken hframe
  cases res' with
  | ok r =>
    refine hframe.mono (fun rc w' hw => ?_) fun _ w' hw => absurd hw.1 (by decide)
    obtain ⟨rfl, hr⟩ := hw
    rw [if_neg (by decide)]
    exact hok r w' htaken hr
  | error e =>
    rw [herr e htaken]
    refine hframe.mono (fun rc w' hw => ?_) fun _ w' hw => ?_
    · obtain ⟨hend, hrc⟩ := hw
      split
      · exact ⟨⟨w', hend, List.prefix_rfl⟩, fun _ => hend⟩
      -- later frames only extend the log, which keeps how the request ended
      · have hgrown : ∀ w'', Grown (fun _ => True) w' w'' → rest ≠ [] →
            Concludes server w₀ (some (e, rest)) w'' := by
          rintro w'' ⟨new, hlog, -⟩ hne
          refine ⟨⟨w', hend, hlog ▸ List.prefix_append _ _⟩, ?_⟩
          rintro (hv | hnil)
          · exact absurd (hrc hv) ‹_›
          · exact absurd hnil hne
        by_cases hne : rest = []
        · subst hne
          exact ⟨⟨w', hend, List.prefix_rfl⟩, fun _ => hend⟩
        · exact (extends_receiveFrames server htypes w').mono (fun _ w'' hg => hgrown w'' hg hne)
            fun _ w'' hg => hgrown w'' hg hne
    · exact ⟨⟨w', hw.1, List.prefix_rfl⟩, fun _ => hw.1⟩

/-- The frames of a stream whose request is being received. -/
theorem Receives.receiveFrames {r : Reception} (hr : Receives w₀ id r w) (hopen : r.Open)
    (hframes : ∀ f ∈ rest, f.1.streamId = id ∧ f.1.type.ofRequest) :
    wp (receiveFrames server rest) (fun _ => Concludes server w₀ (r.run rest))
      (fun _ => Concludes server w₀ (r.run rest)) w := by
  induction rest generalizing r w with
  | nil => exact hr.grown
  | cons f rest ih =>
    obtain ⟨hid, htype⟩ := hframes f List.mem_cons_self
    have hrest : ∀ g ∈ rest, g.1.streamId = id ∧ g.1.type.ofRequest :=
      fun g hg => hframes g (List.mem_cons_of_mem _ hg)
    refine receiveFrames_cons server hr.grown (hr.receiveFrame server hopen hid htype)
      (fun g hg => (hrest g hg).2) (fun hwait => ?_) (fun e he => ?_) fun r' w' hok hr' => ?_
    · rw [Reception.run, hwait]
    · rw [Reception.run, he]
    · rw [Reception.run, hok]
      exact ih hr' (Reception.taken_open (fun h => Reception.frame_open hopen h) hok) hrest

/-- **The connection follows the automaton** on the frames of a new stream. -/
theorem receiveFrames_reception {frames : List (FrameHeader × Bytes)}
    (hstate : w.ctx.state = .ready) (hclosed : w.ctx.stream.state = .closed)
    (hlast : w.ctx.lastOpenedStreamId < id)
    (hframes : ∀ f ∈ frames, f.1.streamId = id ∧ f.1.type.ofRequest) :
    Concludes server w (reception w.ctx.flags.waitingEndHeaders w.ctx.flags.waitingTrailers frames)
      (finalState (Two.receiveFrames server frames w)) := by
  refine wp_finalState.mp ?_
  cases frames with
  | nil => exact Grown.of_log rfl
  | cons f rest =>
    obtain ⟨hid, htype⟩ := hframes f List.mem_cons_self
    have hrest : ∀ g ∈ rest, g.1.streamId = id ∧ g.1.type.ofRequest :=
      fun g hg => hframes g (List.mem_cons_of_mem _ hg)
    refine receiveFrames_cons server (.of_log rfl)
      (receiveFrame_new server hstate hclosed hlast hid htype)
      (fun g hg => (hrest g hg).2) (fun hwait => ?_) (fun e he => ?_) fun r w' hok hr => ?_
    · rw [reception, hwait]
      rfl
    · rw [reception, he]
      rfl
    · rw [reception, hok]
      exact hr.receiveFrames server (Reception.taken_open openReception_open hok) hrest

end Run

end Two
