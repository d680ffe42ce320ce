import Two.Event.Conservation
import Two.Http2.Errors

/-!
# The pool of write operations

Every frame that is queued for sending takes an operation out of a pool that all sockets share, as
long as the write buffer has room for a byte of it. A frame that is received makes `receiving` queue
at most one frame, so the pool is exhausted exactly by a buffer with more frames that are answered
than the pool has operations.

## Main definitions

* `Answers`: the frames that are answered, by their types
* `Costs`: an answer takes an operation
* `framesComeTo`: the frames of a buffer, in the states in which they are handled
* `operationsNeeded`: how many of them take an operation
* `PoolSuffices`: what is claimed of `receiving`

## Main results

* `handleFrame_takes`: a frame takes one operation if it is answered, and otherwise none
* `receivingLoop_takes`: when a buffer exhausts the pool
* `poolSuffices_iff`: the same, where all write queues are empty
-/

namespace Two

open Program

/-! ## The frames that are answered -/

section Answers

variable (server : Server)

/-- A PING frame is answered, by an acknowledgment or an error, unless it is one itself. -/
def AnswersPing (header : FrameHeader) : Prop :=
  ¬ (header.streamId = 0 ∧ header.length = 8 ∧ header.has frameFlagsAck)

/-- A RST_STREAM frame is answered if it is refused. -/
def AnswersRstStream (c : Context) (header : FrameHeader) : Prop :=
  ¬ (header.streamId ≠ 0 ∧ header.length = 4 ∧ header.streamId = c.lastOpenedStreamId)

/-- A GOAWAY frame is answered if it is refused, or if it is the first one and none was sent. -/
def AnswersGoaway (w : World) (header : FrameHeader) : Prop :=
  header.streamId ≠ 0 ∨ header.length < 8 ∨
    (w.ctx.flags.goawaySent = false ∧ w.ctx.flags.goawayRecv = false ∧ w.sock.read.isSome)

/-- A SETTINGS frame is answered if it is refused, or if it has a parameter that is known. -/
def AnswersSettings (header : FrameHeader) (payload : Bytes) : Prop :=
  header.streamId ≠ 0 ∨
    if header.has frameFlagsAck then header.length ≠ 0
    else header.length % 6 ≠ 0 ∨
      ∃ p ∈ settingsParameters payload header.length, 1 ≤ p.1 ∧ p.1 ≤ 6

/-- A WINDOW_UPDATE frame is answered if it is refused, or if the window of the stream lets a DATA
frame pass after it. -/
def AnswersWindowUpdate (c : Context) (header : FrameHeader) (payload : Bytes) : Prop :=
  header.length ≠ 4 ∨ header.streamId > c.lastOpenedStreamId ∨
    (header.streamId ≠ 0 ∧ header.streamId = c.stream.id ∧ c.stream.state = .closed) ∨
    bufferGetU31 payload = 0 ∨
    if header.streamId = 0 then overflows c.windowSize (bufferGetU31 payload)
    else overflows c.stream.windowSize (bufferGetU31 payload) ∨
      0 < sendLength { c with
        stream.windowSize := int32 (c.stream.windowSize + bufferGetU31 payload) }

/-- A complete request is answered, by its response or by an error, if the encoder returns. -/
def AnswersRequest (c : Context) (calls : ℕ) : Prop :=
  let result := Hpack.decode (server.behind calls) c.hpackDynamicTable c.stream.buf
    c.stream.buflen .reset
  result.rc = Hpack.compressionError ∨ result.rc = Hpack.memoryError ∨
    result.rc = Hpack.internalError ∨ validatePseudoheaders result.headers = false ∨
    (Hpack.encode result.table (responseHeaders (respond server result.headers c calls)) .empty
      (frameMaxSize - 9)).isSome

/-- The request is complete in this context, and answered. -/
def AnswersComplete (c : Context) (calls : ℕ) : Prop :=
  c.flags.waitingEndHeaders = false ∧ c.flags.waitingEndStream = false ∧
    AnswersRequest server c calls

/-- A part of a header block is answered if there is no room for it, or if it is the last one. -/
def AnswersHeaderBlock (c : Context) (calls : ℕ) (header : FrameHeader) (data : Bytes) (size : ℤ) :
    Prop :=
  min size (http2StreamBufSize - c.stream.buflen) ≤ 0 ∨
    AnswersComplete server
      (c.block header data (min size (http2StreamBufSize - c.stream.buflen)).toNat) calls

/-- The payload of a HEADERS frame. -/
def AnswersHeadersPayload (c : Context) (calls : ℕ) (header : FrameHeader) (payload : Bytes) :
    Prop :=
  let padded := header.has frameFlagsPadded
  let size : ℤ := if padded then header.length - 1 - byteAt payload 0 else header.length
  let data := if padded then payload.drop 1 else payload
  (padded ∧ byteAt payload 0 ≥ header.length) ∨
    if header.has frameFlagsPriority then
      AnswersHeaderBlock server c calls header (data.drop 5) (size - 5)
    else AnswersHeaderBlock server c calls header data size

/-- A HEADERS frame is answered if it is refused, or if it completes a request. -/
def AnswersHeaders (c : Context) (calls : ℕ) (header : FrameHeader) (payload : Bytes) : Prop :=
  c.state ≠ .closing ∧
    (header.streamId = 0 ∨ header.streamId < c.lastOpenedStreamId ∨ header.streamId % 2 = 0 ∨
      (header.streamId > c.lastOpenedStreamId ∧ c.stream.state ≠ .closed) ∨
      (header.streamId = c.lastOpenedStreamId ∧
        (c.stream.state = .halfClosedRemote ∨ c.stream.state = .closed)) ∨
      if header.streamId = c.lastOpenedStreamId then
        header.has frameFlagsEndStream = false ∨
          AnswersHeadersPayload server
            { c with flags.waitingTrailers := true, flags.waitingEndHeaders := true } calls header
            payload
      else AnswersHeadersPayload server
        { c.openStream header.streamId with stream.state := .opened } calls header payload)

/-- A CONTINUATION frame is answered if it is refused, or if it completes a request. -/
def AnswersContinuation (c : Context) (calls : ℕ) (header : FrameHeader) (payload : Bytes) : Prop :=
  (header.streamId = 0 ∨ (c.stream.state ≠ .opened ∧ c.stream.state ≠ .halfClosedRemote) ∨
      c.flags.waitingEndHeaders = false) ∨
    AnswersHeaderBlock server c calls header payload header.length

/-- A DATA frame is answered if it is refused, or if it completes a request. -/
def AnswersData (c : Context) (calls : ℕ) (header : FrameHeader) (payload : Bytes) : Prop :=
  header.streamId = 0 ∨ header.streamId ≠ c.lastOpenedStreamId ∨ c.stream.state ≠ .opened ∨
    (header.has frameFlagsPadded ∧ byteAt payload 0 ≥ header.length) ∨
    AnswersComplete server (c.marked header) calls

/-- A frame of this type is answered by one that is queued for sending. -/
def AnswersType (w : World) (header : FrameHeader) (payload : Bytes) : FrameType → Prop
  | .goaway => AnswersGoaway w header
  | .settings => AnswersSettings header payload
  | .ping => AnswersPing header
  | .headers => AnswersHeaders server w.ctx w.loop.calls header payload
  | .continuation => AnswersContinuation server w.ctx w.loop.calls header payload
  | .windowUpdate => AnswersWindowUpdate w.ctx header payload
  | .rstStream => AnswersRstStream w.ctx header
  | .data => AnswersData server w.ctx w.loop.calls header payload
  | .pushPromise => True
  | .priority => False
  | .unknown _ => False

/-- The frame is answered: a frame that is too large or stands between the parts of a header block
by an error. -/
def Answers (w : World) (header : FrameHeader) (payload : Bytes) : Prop :=
  header.length > 512 ∨ (w.ctx.flags.waitingEndHeaders = true ∧ header.type ≠ .continuation) ∨
    AnswersType server w header payload header.type

/-- A frame that is queued takes an operation: the socket is connected, and there is room in its
write buffer. -/
def Costs (w : World) : Prop := w.sock.state = .connected ∧ 0 < w.sock.room

variable (w : World) (c : Context) (calls : ℕ) (header : FrameHeader) (payload : Bytes)

instance : Decidable (AnswersPing header) := inferInstanceAs (Decidable (¬ (_ ∧ _ ∧ _)))

instance : Decidable (AnswersRstStream c header) := inferInstanceAs (Decidable (¬ (_ ∧ _ ∧ _)))

instance : Decidable (AnswersGoaway w header) := inferInstanceAs (Decidable (_ ∨ _ ∨ _))

instance : Decidable (AnswersSettings header payload) :=
  inferInstanceAs (Decidable (_ ∨ _))

instance : Decidable (AnswersWindowUpdate c header payload) :=
  inferInstanceAs (Decidable (_ ∨ _ ∨ _ ∨ _ ∨ _))

instance : Decidable (AnswersRequest server c calls) :=
  inferInstanceAs (Decidable (_ ∨ _ ∨ _ ∨ _ ∨ _))

instance : Decidable (AnswersComplete server c calls) := inferInstanceAs (Decidable (_ ∧ _ ∧ _))

instance (size : ℤ) : Decidable (AnswersHeaderBlock server c calls header payload size) :=
  inferInstanceAs (Decidable (_ ∨ _))

instance : Decidable (AnswersHeadersPayload server c calls header payload) :=
  inferInstanceAs (Decidable (_ ∨ _))

instance : Decidable (AnswersHeaders server c calls header payload) :=
  inferInstanceAs (Decidable (_ ∧ (_ ∨ _ ∨ _ ∨ _ ∨ _ ∨ _)))

instance : Decidable (AnswersContinuation server c calls header payload) :=
  inferInstanceAs (Decidable (_ ∨ _))

instance : Decidable (AnswersData server c calls header payload) :=
  inferInstanceAs (Decidable (_ ∨ _ ∨ _ ∨ _ ∨ _))

instance : DecidablePred (AnswersType server w header payload)
  | .goaway => inferInstanceAs (Decidable (AnswersGoaway ..))
  | .settings => inferInstanceAs (Decidable (AnswersSettings ..))
  | .ping => inferInstanceAs (Decidable (AnswersPing _))
  | .headers => inferInstanceAs (Decidable (AnswersHeaders ..))
  | .continuation => inferInstanceAs (Decidable (AnswersContinuation ..))
  | .windowUpdate => inferInstanceAs (Decidable (AnswersWindowUpdate ..))
  | .rstStream => inferInstanceAs (Decidable (AnswersRstStream ..))
  | .data => inferInstanceAs (Decidable (AnswersData ..))
  | .pushPromise => inferInstanceAs (Decidable True)
  | .priority => inferInstanceAs (Decidable False)
  | .unknown _ => inferInstanceAs (Decidable False)

instance : Decidable (Answers server w header payload) := inferInstanceAs (Decidable (_ ∨ _ ∨ _))

instance : Decidable (Costs w) := inferInstanceAs (Decidable (_ ∧ _))

end Answers

/-! ## Operations taken -/

/-- One operation was taken from the pool if `b` holds, and otherwise none. -/
def Took (b : Prop) (w₀ w : World) : Prop :=
  (b ∧ ∃ op, w₀.loop.writes = op :: w.loop.writes) ∨ (¬ b ∧ w.loop.writes = w₀.loop.writes)

/-- The program takes one operation if `b` holds, and otherwise none. -/
def Takes {α : Type} (b : Prop) (w₀ : World) (m : M α) (w : World) : Prop :=
  wp m (fun _ w' => Took b w₀ w') (fun e _ => e = .noWriteOp ↔ b ∧ w₀.loop.writes = []) w

/-- Nothing was taken, and the socket is as writable as before. -/
structure Untouched (w₀ w : World) : Prop where
  writes : w.loop.writes = w₀.loop.writes
  state : w.sock.state = w₀.sock.state
  write : w.sock.write = w₀.sock.write

section Takes

variable {α : Type} {b : Prop} {w₀ w : World} {m : M α} {A : Prop}

theorem Took.same {w' : World} (h : Took b w₀ w) (hw : w'.loop.writes = w.loop.writes) :
    Took b w₀ w' := by
  rw [Took, hw]
  exact h

theorem Untouched.took (h : Untouched w₀ w) (hb : ¬ b) : Took b w₀ w := .inr ⟨hb, h.writes⟩

theorem Takes.of_iff {b' : Prop} (hb : b ↔ b') (h : Takes b w₀ m w) : Takes b' w₀ m w := by
  rw [propext hb] at h
  exact h

/-- The case in which an answer is sent. -/
theorem Takes.answered (h : Takes (Costs w₀) w₀ m w) (hA : A) : Takes (A ∧ Costs w₀) w₀ m w :=
  h.of_iff (and_iff_right hA).symm

/-- The case in which no answer is sent. -/
theorem Untouched.unanswered (h : Untouched w₀ w) (hA : ¬ A) (a : α) :
    Takes (A ∧ Costs w₀) w₀ (pure a : M α) w := by
  rw [Takes, wp_pure]
  exact h.took fun hb => hA hb.1

theorem sendFrame_takes {f : Frame} {cb : WriteCb} (h : Untouched w₀ w) :
    Takes (Costs w₀) w₀ (sendFrame f cb) w := by
  have hroom : w.sock.room = w₀.sock.room := by rw [Sock.room, Sock.room, h.write]
  refine sendFrame_wp (fun hw _ => ?_) fun hw e w' _ he => ?_
  · obtain ⟨e, he⟩ := Option.isSome_iff_exists.mp hw.enabled
    have hr : w.sock.room = e.buf.room := by simp [Sock.room, he]
    rw [World.written, he]
    simp only
    split
    -- no room: nothing is pushed, and no operation is taken
    · rename_i hzero
      rw [World.pushed_eq_zero] at hzero
      refine .inr ⟨fun hc => ?_, h.writes⟩
      have := hc.2
      omega
    · rename_i hpos
      rw [World.pushed_eq_zero] at hpos
      refine .inl ⟨⟨h.state ▸ hw.connected, by omega⟩, ?_⟩
      obtain ⟨op, rest, hpool⟩ := List.exists_cons_of_ne_nil (hw.pool (by omega))
      exact ⟨op, by rw [← h.writes, hpool]; rfl⟩
  · rw [he]
    constructor
    · rintro ⟨hc, henabled⟩
      have hpool : ¬ (0 < w.sock.room → w.loop.writes ≠ []) := fun hp => hw ⟨hc, henabled, hp⟩
      push Not at hpool
      exact ⟨⟨h.state ▸ hc, hroom ▸ hpool.1⟩, h.writes ▸ hpool.2⟩
    · rintro ⟨⟨hc, hpos⟩, -⟩
      refine ⟨h.state ▸ hc, ?_⟩
      by_contra hnone
      rw [← hroom, Sock.room, Option.not_isSome_iff_eq_none.mp hnone] at hpos
      exact absurd hpos (by simp)

theorem http2Error_takes {e : Http2Error} (h : Untouched w₀ w) :
    Takes (Costs w₀) w₀ (http2Error e) w := by
  simp only [Takes, http2Error, sendGoawayFrame, wp_bind, wp_record, wp_modifyCtx,
    wp_eventReadStop, wp_getCtx, wp_pure]
  have hf : Untouched w₀ (w.failing e) :=
    ⟨by simp [World.failing, h.writes], by simp [World.failing, h.state],
      by simp [World.failing, h.write]⟩
  exact sendFrame_takes hf

theorem failWith_takes {e : Http2Error} (h : Untouched w₀ w) :
    Takes (Costs w₀) w₀ (failWith e) w := by
  simp only [Takes, failWith, wp_bind, wp_pure]
  exact http2Error_takes h

theorem http2StreamError_takes {e : Http2Error} {streamId : ℕ} (h : Untouched w₀ w) :
    Takes (Costs w₀) w₀ (http2StreamError streamId e) w := by
  simp only [Takes, http2StreamError, sendRstStreamFrame, wp_bind, wp_record, wp_getCtx, wp_ite,
    wp_setStreamState, wp_pure]
  refine (sendFrame_takes h).mono (fun _ w' hw => ?_) fun _ _ => id
  exact ⟨fun _ => hw.same (by simp), fun _ => hw.same (by simp)⟩

end Takes

/-! ## The handlers -/

section Handlers

variable {server : Server} {w₀ w : World} {header : FrameHeader} {payload : Bytes}

theorem handlePingFrame_takes (h : Untouched w₀ w) :
    Takes (AnswersPing header ∧ Costs w₀) w₀ (handlePingFrame header payload) w := by
  simp only [Takes, handlePingFrame, sendPingFrame, wp_ite, wp_bind, wp_pure]
  refine ⟨fun hid => ?_, fun hid => ⟨fun hlen => ?_, fun hlen => ⟨fun hack => ?_, fun hack => ?_⟩⟩⟩
  · exact (failWith_takes h).answered fun hp => hid hp.1
  · exact (failWith_takes h).answered fun hp => hlen hp.2.1
  · exact h.took fun hb => hb.1 ⟨not_not.mp hid, not_not.mp hlen, hack⟩
  · exact (sendFrame_takes h).answered fun hp => hack hp.2.2

theorem handleRstStreamFrame_takes (h : Untouched w₀ w) :
    Takes (AnswersRstStream w.ctx header ∧ Costs w₀) w₀ (handleRstStreamFrame header) w := by
  simp only [Takes, handleRstStreamFrame, wp_bind, wp_getCtx, wp_ite, wp_record,
    wp_setStreamState, wp_pure]
  refine ⟨fun hid => ?_, fun hid => ⟨fun hlen => ?_, fun hlen => ⟨fun hlast => ?_,
    fun hlast => ?_⟩⟩⟩
  · exact (failWith_takes h).answered fun hp => hp.1 hid
  · exact (failWith_takes h).answered fun hp => hlen hp.2.1
  · exact (failWith_takes h).answered fun hp => hlast hp.2.2
  · have hb : ¬ (AnswersRstStream w.ctx header ∧ Costs w₀) :=
      fun hb => hb.1 ⟨hid, not_not.mp hlen, not_not.mp hlast⟩
    exact (h.took hb).same rfl

/-- `event_read` takes no operation and fails no assertion of the pool. -/
theorem eventRead_untouched {cb : ReadCb} (h : Untouched w₀ w) :
    wp (eventRead cb) (fun _ w' => Untouched w₀ w' ∧ w.sock.read.isSome)
      (fun e _ => e ≠ .noWriteOp ∧ ¬ (w.sock.read.isSome ∧ w.sock.state = .connected)) w := by
  simp only [eventRead, wp_bind, wp_record, wp_get, wp_ite, wp_throw, World.add_toState]
  refine ⟨fun hc => ⟨by simp, fun hp => hc hp.2⟩, fun _ => ?_⟩
  cases hr : w.sock.read with
  | none => exact ⟨by simp, by simp⟩
  | some e => exact ⟨⟨h.writes, h.state, h.write⟩, rfl⟩

theorem handleGoawayFrame_takes (h : Untouched w₀ w) :
    Takes (AnswersGoaway w header ∧ Costs w₀) w₀ (handleGoawayFrame header payload) w := by
  simp only [Takes, handleGoawayFrame, sendGoawayFrame, wp_ite, wp_bind, wp_getCtx, wp_modifyCtx,
    wp_setStreamState, wp_http2CloseImmediate, wp_pure]
  refine ⟨fun hid => ?_, fun hid => ⟨fun hlen => ?_, fun hlen => ⟨fun hsent => ?_, fun hsent =>
    ⟨fun hrecv => ?_, fun hrecv => ?_⟩⟩⟩⟩
  · exact (failWith_takes h).answered (.inl hid)
  · exact (failWith_takes h).answered (.inr (.inl hlen))
  · have hb : ¬ (AnswersGoaway w header ∧ Costs w₀) := by
      rintro ⟨hid' | hlen' | hfirst, -⟩
      · exact hid hid'
      · exact hlen hlen'
      · simp [hsent] at hfirst
    exact (h.took hb).same (by simp)
  · refine h.took ?_
    rintro ⟨hid' | hlen' | hfirst, -⟩
    · exact hid hid'
    · exact hlen hlen'
    · simp [hrecv] at hfirst
  -- whether the stream is closed or not, the frame is answered once the callback is set
  have hanswer : ∀ {u : World}, Untouched w₀ u → u.sock.read = w.sock.read → ∀ last,
      Takes (AnswersGoaway w header ∧ Costs w₀) w₀ (do
        eventRead .receiving
        sendFrame (.goaway Http2Error.noError.code last) .closeOnGoawaySent) u := by
    intro u hu hread last
    rw [Takes, wp_bind]
    refine (eventRead_untouched hu).mono (fun _ w' hw' => ?_) fun e _ he => ?_
    · refine (sendFrame_takes hw'.1).answered (.inr (.inr ⟨?_, ?_, hread ▸ hw'.2⟩))
      · simpa using hsent
      · simpa using hrecv
    · refine iff_of_false he.1 ?_
      rintro ⟨⟨hid' | hlen' | hfirst, hcosts⟩, -⟩
      · exact hid hid'
      · exact hlen hlen'
      · exact he.2 ⟨hread ▸ hfirst.2.2, hu.state ▸ hcosts.1⟩
  refine ⟨fun _ => wp_bind.mp (hanswer ?_ ?_ _), fun _ => wp_bind.mp (hanswer ?_ ?_ _)⟩
  · exact ⟨h.writes, h.state, h.write⟩
  · rfl
  · exact ⟨h.writes, h.state, h.write⟩
  · rfl

theorem http2ContinueSend_takes (h : Untouched w₀ w) :
    Takes (0 < sendLength w.ctx ∧ Costs w₀) w₀ http2ContinueSend w := by
  simp only [Takes, http2ContinueSend, sendDataFrame, wp_bind, wp_getCtx]
  simp only [wp_ite, wp_bind, wp_modifyCtx, wp_pure]
  refine ⟨fun hs => h.took fun hb => absurd hb.1 (not_lt.mpr hs), fun hs => ?_⟩
  refine ((sendFrame_takes h).answered (not_le.mp hs)).mono (fun _ w' hw => ?_) fun _ _ => id
  exact hw.same rfl

theorem handleWindowUpdateFrame_takes (h : Untouched w₀ w) :
    Takes (AnswersWindowUpdate w.ctx header payload ∧ Costs w₀) w₀
      (handleWindowUpdateFrame header payload) w := by
  simp only [Takes, handleWindowUpdateFrame, wp_bind, wp_getCtx]
  simp only [wp_ite, wp_bind, wp_record, wp_modifyCtx, wp_pure]
  refine ⟨fun hlen => ?_, fun hlen => ⟨fun hlast => ?_, fun hlast => ⟨fun hclosed => ?_,
    fun hclosed => ⟨fun hzero => ?_, fun hzero => ?_⟩⟩⟩⟩
  · exact (failWith_takes h).answered (.inl hlen)
  · exact (failWith_takes h).answered (.inr (.inl hlast))
  · exact (failWith_takes h).answered (.inr (.inr (.inl hclosed)))
  · exact (failWith_takes h).answered (.inr (.inr (.inr (.inl hzero))))
  -- the frame is not refused, so the windows decide
  have hiff : AnswersWindowUpdate w.ctx header payload ↔
      if header.streamId = 0 then overflows w.ctx.windowSize (bufferGetU31 payload)
      else overflows w.ctx.stream.windowSize (bufferGetU31 payload) ∨
        0 < sendLength { w.ctx with
          stream.windowSize := int32 (w.ctx.stream.windowSize + bufferGetU31 payload) } := by
    simp only [AnswersWindowUpdate, hlen, hlast, hclosed, hzero, false_or]
  refine ⟨fun hid => ⟨fun hover => ?_, fun hover => ?_⟩, fun hid => ⟨fun hover => ?_,
    fun hover => ?_⟩⟩
  · exact (failWith_takes h).answered (hiff.mpr (by rw [if_pos hid]; exact hover))
  · have hb : ¬ (AnswersWindowUpdate w.ctx header payload ∧ Costs w₀) := by
      rw [hiff, if_pos hid]
      exact fun hb => hover hb.1
    exact (h.took hb).same rfl
  · exact (http2StreamError_takes h).answered (hiff.mpr (by rw [if_neg hid]; exact .inl hover))
  · have hu : Untouched w₀ (w.increment header.streamId (bufferGetU31 payload)) :=
      ⟨h.writes, h.state, h.write⟩
    refine (http2ContinueSend_takes hu).of_iff ?_
    rw [hiff, if_neg hid, or_iff_right hover]
    rfl

/-! ### SETTINGS frames -/

/-- A parameter that raises an error is known. -/
theorem known_of_error {c : Context} {id value : ℕ} {e : Http2Error}
    (h : applySetting c id value = .error e) : 1 ≤ id ∧ id ≤ 6 := by
  have hnot := applySetting_error h
  unfold acceptable at hnot
  by_contra hknown
  exact hnot ⟨fun _ => by omega, fun _ => by omega, fun _ => by omega⟩

/-- What `update_settings` takes: one operation for an error, which makes the result zero. Otherwise
the result says whether a parameter is known. -/
theorem updateSettingsLoop_takes (parameters : List (ℕ × ℕ)) (total : ℕ) {w : World}
    (h : Untouched w₀ w) :
    wp (updateSettingsLoop parameters total)
      (fun t w' => (Untouched w₀ w' ∧ (0 < t ↔ 0 < total ∨ ∃ p ∈ parameters, 1 ≤ p.1 ∧ p.1 ≤ 6)) ∨
        (t = 0 ∧ Took (Costs w₀) w₀ w' ∧ ∃ p ∈ parameters, 1 ≤ p.1 ∧ p.1 ≤ 6))
      (fun e _ => (e = .noWriteOp ↔ Costs w₀ ∧ w₀.loop.writes = []) ∧
        ∃ p ∈ parameters, 1 ≤ p.1 ∧ p.1 ≤ 6) w := by
  induction parameters generalizing total w with
  | nil => exact .inl ⟨h, by simp⟩
  | cons p parameters ih =>
    obtain ⟨id, value⟩ := p
    simp only [updateSettingsLoop, wp_bind, wp_getCtx]
    cases ha : applySetting w.ctx id value with
    | error e =>
      have hknown : ∃ p ∈ (id, value) :: parameters, 1 ≤ p.1 ∧ p.1 ≤ 6 :=
        ⟨_, List.mem_cons_self, known_of_error ha⟩
      simp only [wp_bind, wp_pure]
      exact (http2Error_takes h).mono (fun _ _ ht => .inr ⟨trivial, ht, hknown⟩)
        fun _ _ he => ⟨he, hknown⟩
    | ok c =>
      simp only [wp_bind, wp_record, wp_modifyCtx]
      have hlater : (∃ p ∈ parameters, 1 ≤ p.1 ∧ p.1 ≤ 6) →
          ∃ p ∈ (id, value) :: parameters, 1 ≤ p.1 ∧ p.1 ≤ 6 := by
        rintro ⟨p, hp, hknown⟩
        exact ⟨p, List.mem_cons_of_mem _ hp, hknown⟩
      -- a stored parameter touches neither the pool nor the socket
      have hu : Untouched w₀ (w.stored id value c) := ⟨h.writes, h.state, h.write⟩
      refine (ih (if 1 ≤ id ∧ id ≤ 6 then total + 1 else total) hu).mono (fun t w' ht => ?_)
        fun _ _ he => ⟨he.1, hlater he.2⟩
      refine ht.imp (fun ht => ⟨ht.1, ht.2.trans ?_⟩) fun ht => ⟨ht.1, ht.2.1, hlater ht.2.2⟩
      split
      · rename_i hknown
        refine iff_of_true (.inl (Nat.succ_pos _)) (.inr ⟨_, List.mem_cons_self, hknown⟩)
      · rename_i hunknown
        simp only [List.exists_mem_cons_iff, hunknown, false_or]

theorem handleSettingsFrame_takes (h : Untouched w₀ w) :
    Takes (AnswersSettings header payload ∧ Costs w₀) w₀ (handleSettingsFrame header payload)
      w := by
  simp only [Takes, handleSettingsFrame, updateSettings, sendSettingsFrame, wp_ite, wp_bind,
    wp_getCtx, wp_modifyCtx, wp_pure]
  refine ⟨fun hid => ?_, fun hid => ⟨fun hack => ⟨fun hlen => ?_, fun hlen => ?_⟩, fun hack =>
    ⟨fun hlen => ?_, fun hlen => ?_⟩⟩⟩
  · exact (failWith_takes h).answered (.inl hid)
  · have hack : ¬ header.has frameFlagsAck = true := by simpa using hack
    exact (failWith_takes h).answered (.inr (by rw [if_neg hack]; exact .inl hlen))
  -- a frame without ACK is answered if it has a parameter that is known
  · have hiff : AnswersSettings header payload ↔
        ∃ p ∈ settingsParameters payload header.length, 1 ≤ p.1 ∧ p.1 ≤ 6 := by
      have hack : ¬ header.has frameFlagsAck = true := by simpa using hack
      rw [AnswersSettings, or_iff_right hid, if_neg hack, or_iff_right hlen]
    refine (updateSettingsLoop_takes _ 0 h).mono (fun t w' ht => ?_) fun e _ he => ?_
    · rcases ht with ⟨hu, ht⟩ | ⟨rfl, ht, hknown⟩
      · rw [or_iff_right (lt_irrefl 0), ← hiff] at ht
        exact ⟨fun hpos => (sendFrame_takes hu).answered (ht.mp hpos),
          fun hpos => hu.took fun hb => hpos (ht.mpr hb.1)⟩
      · refine ⟨fun hpos => absurd hpos (lt_irrefl 0), fun _ => ?_⟩
        rw [propext (and_iff_right (hiff.mpr hknown))]
        exact ht
    · rw [propext (and_iff_right (hiff.mpr he.2))]
      exact he.1
  · have hack : header.has frameFlagsAck = true := by simpa using hack
    exact (failWith_takes h).answered (.inr (by rw [if_pos hack]; exact hlen))
  -- an acknowledgment only stops the timer
  · have hb : ¬ (AnswersSettings header payload ∧ Costs w₀) := by
      have hack : header.has frameFlagsAck = true := by simpa using hack
      rw [AnswersSettings, or_iff_right hid, if_pos hack]
      exact fun hb => hlen hb.1
    refine ⟨fun _ => h.took hb, fun _ => ?_⟩
    cases ht : w.ctx.timer with
    | none =>
      simp only [eventTimerStop, wp_pure]
      exact (h.took hb).same rfl
    | some timer =>
      simp only [eventTimerStop, wp_bind, wp_get, wp_ite, wp_throw, wp_set]
      exact ⟨fun _ => iff_of_false (by simp) fun hp => hb hp.1, fun _ => (h.took hb).same rfl⟩

/-! ### Requests -/

/-- The response is sent, or an error in its place, if the encoder returns. -/
theorem handleRequest_takes {headers : HeaderList} (h : Untouched w₀ w) :
    Takes ((Hpack.encode w.ctx.hpackDynamicTable
        (responseHeaders (respond server headers w.ctx w.loop.calls)) .empty
        (frameMaxSize - 9)).isSome ∧ Costs w₀) w₀ (handleRequest server headers) w := by
  simp only [Takes, handleRequest, sendHeadersFrame, wp_bind, wp_get, wp_set, wp_getCtx]
  cases he : Hpack.encode w.ctx.hpackDynamicTable
      (responseHeaders (respond server headers w.ctx w.loop.calls)) .empty (frameMaxSize - 9) with
  | none => exact iff_of_false (by simp) (by simp)
  | some r =>
    obtain ⟨size, table, buffer⟩ := r
    simp only [wp_bind, wp_modifyCtx]
    have hu : Untouched w₀ ((w.requested headers (respond server headers w.ctx w.loop.calls)).onCtx
        fun c => { c with hpackDynamicTable := table }) := ⟨h.writes, h.state, h.write⟩
    split
    · rename_i hsize
      simp only [wp_pure, if_pos hsize]
      exact (failWith_takes hu).answered rfl
    · simp only [wp_bind, wp_pure]
      refine ((sendFrame_takes hu).answered rfl).mono (fun n w' hw => ?_) fun _ _ => id
      rw [wp_ite]
      exact ⟨fun hneg => absurd hneg (by omega), fun _ => hw⟩

theorem handleEndStream_takes (h : Untouched w₀ w) :
    Takes (AnswersRequest server w.ctx w.loop.calls ∧ Costs w₀) w₀ (handleEndStream server) w := by
  have hu : ∀ t, Untouched w₀ (w.decoded t) := fun t => ⟨h.writes, h.state, h.write⟩
  simp only [Takes, handleEndStream, wp_bind, wp_get, wp_record, wp_modifyCtx]
  simp only [wp_ite]
  refine ⟨fun h1 => ?_, fun h1 => ⟨fun h2 => ?_, fun h2 => ⟨fun h3 => ?_, fun h3 => ⟨fun h4 => ?_,
    fun h4 => ?_⟩⟩⟩⟩
  · exact (failWith_takes (hu _)).answered (.inl h1)
  · exact (failWith_takes (hu _)).answered (.inr (.inl h2))
  · exact (failWith_takes (hu _)).answered (.inr (.inr (.inl h3)))
  · exact (failWith_takes (hu _)).answered (.inr (.inr (.inr (.inl (by simpa using h4)))))
  · refine (handleRequest_takes (hu _)).of_iff (and_congr_left' ?_)
    have h4 : ¬ validatePseudoheaders (Hpack.decode (server.behind w.loop.calls)
        w.ctx.hpackDynamicTable w.ctx.stream.buf w.ctx.stream.buflen .reset).headers = false := by
      simpa using h4
    rw [AnswersRequest, or_iff_right h1, or_iff_right h2, or_iff_right h3, or_iff_right h4]
    exact Iff.rfl

theorem endStreamIfComplete_takes (h : Untouched w₀ w) :
    Takes (AnswersComplete server w.ctx w.loop.calls ∧ Costs w₀) w₀ (endStreamIfComplete server)
      w := by
  simp only [Takes, endStreamIfComplete, wp_bind, wp_getCtx, wp_ite, wp_pure, Bool.not_eq_true']
  refine ⟨fun hc => ?_, fun hc => h.took fun hb => hc ⟨hb.1.1, hb.1.2.1⟩⟩
  refine (handleEndStream_takes h).of_iff (and_congr_left' ?_)
  rw [AnswersComplete, and_iff_right hc.1, and_iff_right hc.2]

theorem handleHeaderBlock_takes {data : Bytes} {size : ℤ} (h : Untouched w₀ w) :
    Takes (AnswersHeaderBlock server w.ctx w.loop.calls header data size ∧ Costs w₀) w₀
      (handleHeaderBlock server header data size) w := by
  unfold AnswersHeaderBlock
  simp only [Takes, handleHeaderBlock, wp_bind, wp_getCtx]
  simp only [wp_ite]
  generalize min size (http2StreamBufSize - w.ctx.stream.buflen) = copylen
  refine ⟨fun hfull => (failWith_takes h).answered (.inl hfull), fun hroom => ?_⟩
  have hu : Untouched w₀ (w.block header data copylen.toNat) :=
    ⟨by simp [h.writes], by simp [h.state], by simp [h.write]⟩
  have hblock := @endStreamIfComplete_takes server _ _ hu
  simp only [World.block_ctx, World.block_loop] at hblock
  rw [propext (or_iff_right hroom)]
  by_cases ht : w.ctx.flags.waitingTrailers = true
  · simpa [World.block, ht, Takes] using hblock
  · simpa [World.block, ht, Takes] using hblock

theorem handleHeadersPayload_takes (h : Untouched w₀ w) :
    Takes (AnswersHeadersPayload server w.ctx w.loop.calls header payload ∧ Costs w₀) w₀
      (handleHeadersPayload server header payload) w := by
  simp only [Takes, handleHeadersPayload, wp_ite]
  refine ⟨fun hpad => (failWith_takes h).answered (.inl hpad), fun hpad => ⟨fun hprio => ?_,
    fun hprio => ?_⟩⟩
  · refine (handleHeaderBlock_takes h).of_iff (and_congr_left' ?_)
    rw [AnswersHeadersPayload, or_iff_right hpad, if_pos hprio]
  · refine (handleHeaderBlock_takes h).of_iff (and_congr_left' ?_)
    rw [AnswersHeadersPayload, or_iff_right hpad, if_neg hprio]

theorem handleHeadersFrame_takes (h : Untouched w₀ w) :
    Takes (AnswersHeaders server w.ctx w.loop.calls header payload ∧ Costs w₀) w₀
      (handleHeadersFrame server header payload) w := by
  simp only [Takes, handleHeadersFrame, wp_bind, wp_getCtx]
  simp only [wp_ite, wp_bind, wp_modifyCtx, wp_setStreamState, wp_pure]
  refine ⟨fun hclosing => h.took fun hb => hb.1.1 hclosing, fun hclosing => ⟨fun hzero => ?_,
    fun hzero => ⟨fun hold => ?_, fun hold => ⟨fun hbusy => ?_, fun hbusy => ⟨fun hdone => ?_,
      fun hdone => ?_⟩⟩⟩⟩⟩
  · exact (failWith_takes h).answered ⟨hclosing, .inl hzero⟩
  · exact (failWith_takes h).answered ⟨hclosing, .inr (or_assoc.mp (.inl hold))⟩
  · exact (failWith_takes h).answered ⟨hclosing, .inr (.inr (.inr (.inl hbusy)))⟩
  · exact (failWith_takes h).answered ⟨hclosing, .inr (.inr (.inr (.inr (.inl hdone))))⟩
  -- none of the checks has failed, so the stream decides: trailers or a new request
  obtain ⟨hlt, heven⟩ := not_or.mp hold
  have hiff : AnswersHeaders server w.ctx w.loop.calls header payload ↔
      if header.streamId = w.ctx.lastOpenedStreamId then
        header.has frameFlagsEndStream = false ∨
          AnswersHeadersPayload server
            { w.ctx with flags.waitingTrailers := true, flags.waitingEndHeaders := true }
            w.loop.calls header payload
      else AnswersHeadersPayload server
        { w.ctx.openStream header.streamId with stream.state := .opened } w.loop.calls header
        payload := by
    rw [AnswersHeaders, and_iff_right hclosing, or_iff_right hzero, or_iff_right hlt,
      or_iff_right heven, or_iff_right hbusy, or_iff_right hdone]
  refine ⟨fun hlast => ⟨fun hend => ?_, fun hend => ?_⟩, fun hlast => ?_⟩
  · -- trailers without END_STREAM are a stream error
    have hend : header.has frameFlagsEndStream = false := by simpa using hend
    exact (http2StreamError_takes h).answered (hiff.mpr (by rw [if_pos hlast]; exact .inl hend))
  · have hu : Untouched w₀ (w.onCtx fun c =>
        { c with flags.waitingTrailers := true, flags.waitingEndHeaders := true }) :=
      ⟨h.writes, h.state, h.write⟩
    have hend : ¬ header.has frameFlagsEndStream = false := by simpa using hend
    refine (handleHeadersPayload_takes hu).of_iff (and_congr_left' ?_)
    rw [hiff, if_pos hlast, or_iff_right hend]
    exact Iff.rfl
  · have hu : Untouched w₀ (w.opening header.streamId) := ⟨h.writes, h.state, h.write⟩
    refine (handleHeadersPayload_takes hu).of_iff (and_congr_left' ?_)
    rw [hiff, if_neg hlast]
    exact Iff.rfl

theorem handleContinuationFrame_takes (h : Untouched w₀ w) :
    Takes (AnswersContinuation server w.ctx w.loop.calls header payload ∧ Costs w₀) w₀
      (handleContinuationFrame server header payload) w := by
  simp only [Takes, handleContinuationFrame, wp_bind, wp_getCtx]
  simp only [wp_ite, Bool.not_eq_true']
  refine ⟨fun hrefused => (failWith_takes h).answered (.inl hrefused), fun hrefused => ?_⟩
  refine (handleHeaderBlock_takes h).of_iff (and_congr_left' ?_)
  rw [AnswersContinuation, or_iff_right hrefused]

theorem handleDataFrame_takes (h : Untouched w₀ w) :
    Takes (AnswersData server w.ctx w.loop.calls header payload ∧ Costs w₀) w₀
      (handleDataFrame server header payload) w := by
  simp only [Takes, handleDataFrame, wp_bind, wp_getCtx]
  simp only [wp_ite, wp_bind, wp_markEndStream, wp_pure]
  refine ⟨fun hid => ?_, fun hid => ⟨fun hlt => ?_, fun hlt => ⟨fun hopen => ?_, fun hopen =>
    ⟨fun hpad => ?_, fun hpad => ?_⟩⟩⟩⟩
  · exact (failWith_takes h).answered (hid.imp id fun hgt => .inl (Nat.ne_of_gt hgt))
  · exact (http2StreamError_takes h).answered (.inr (.inl (Nat.ne_of_lt hlt)))
  · exact (http2StreamError_takes h).answered (.inr (.inr (.inl hopen)))
  · exact (failWith_takes h).answered (.inr (.inr (.inr (.inl hpad))))
  · have hu : Untouched w₀ (w.marked header) :=
      ⟨by simp [h.writes], by simp [h.state], by simp [h.write]⟩
    have hiff : AnswersData server w.ctx w.loop.calls header payload ↔
        AnswersComplete server (w.marked header).ctx (w.marked header).loop.calls := by
      obtain ⟨hzero, hgt⟩ := not_or.mp hid
      have hlast : ¬ header.streamId ≠ w.ctx.lastOpenedStreamId := by omega
      rw [AnswersData, or_iff_right hzero, or_iff_right hlast, or_iff_right hopen,
        or_iff_right hpad, World.marked_ctx, World.marked_loop]
    exact (endStreamIfComplete_takes hu).of_iff (and_congr_left' hiff.symm)

/-! ### Frames -/

/-- **A handler takes one operation** if it answers its frame, and otherwise none. -/
theorem handleFrame_takes (h : Untouched w₀ w) :
    Takes (AnswersType server w header payload header.type ∧ Costs w₀) w₀
      (handleFrame server header payload) w := by
  unfold handleFrame
  cases header.type with
  | goaway => exact handleGoawayFrame_takes h
  | settings => exact handleSettingsFrame_takes h
  | ping => exact handlePingFrame_takes h
  | headers => exact handleHeadersFrame_takes h
  | continuation => exact handleContinuationFrame_takes h
  | windowUpdate => exact handleWindowUpdateFrame_takes h
  | rstStream => exact handleRstStreamFrame_takes h
  | data => exact handleDataFrame_takes h
  | pushPromise =>
    simp only [Takes, wp_bind, wp_pure]
    exact (http2Error_takes h).answered trivial
  | priority => exact h.unanswered id 0
  | unknown => exact h.unanswered id 0

/-- A whole frame takes one operation if it is answered, and otherwise none. -/
theorem receiveFrame_takes (hlen : header.length ≤ 512) :
    Takes (Answers server w header payload ∧ Costs w) w (receiveFrame server header payload) w := by
  have hu : Untouched w (w.add (.frame header payload)) := ⟨rfl, rfl, rfl⟩
  have hlarge : ¬ header.length > 512 := not_lt.mpr hlen
  simp only [Takes, receiveFrame, wp_bind, wp_getCtx, wp_record]
  simp only [wp_ite]
  refine ⟨fun hwait => (failWith_takes hu).answered (.inr (.inl hwait)), fun hwait => ?_⟩
  refine (handleFrame_takes hu).of_iff (and_congr_left' ?_)
  rw [Answers, or_iff_right hlarge, or_iff_right hwait]
  exact Iff.rfl

end Handlers

/-! ## The loop -/

instance (buf : Bytes) : Decidable (NothingWhole buf) := inferInstanceAs (Decidable (_ ∨ _))

/-- A frame in the read buffer, and the state in which `receiving` comes to it. -/
structure Arrival where
  world : World
  header : FrameHeader
  payload : Bytes

/-- The frames of the read buffer that `receiving` comes to: up to one that is too large or whose
handler makes it leave the loop. -/
def framesComeTo (server : Server) : ℕ → Bytes → World → List Arrival
  | 0, _, _ => []
  | fuel + 1, buf, w =>
    let header := frameParseHeader buf
    if NothingWhole buf then []
    else
      ⟨w, header, buf.drop 9⟩ ::
        if header.length > 512 then []
        else
          match receiveFrame server header (buf.drop 9) w with
          | .ok rc w' =>
            if rc < 0 then [] else framesComeTo server fuel (buf.drop (9 + header.length)) w'
          | .error _ _ => []

/-- The frame takes an operation from the pool: it is answered, and the write buffer has room for
the answer. -/
def Arrival.Takes (server : Server) (f : Arrival) : Prop :=
  Answers server f.world f.header f.payload ∧ Costs f.world

instance (server : Server) : DecidablePred (Arrival.Takes server) :=
  fun _ => inferInstanceAs (Decidable (_ ∧ _))

/-- The number of frames in the read buffer that `receiving` comes to and that take an operation. -/
def operationsNeeded (server : Server) (fuel : ℕ) (buf : Bytes) (w : World) : ℕ :=
  (framesComeTo server fuel buf w).countP fun f => decide (f.Takes server)

section Loop

variable {server : Server} {w w' : World} {buf : Bytes} {fuel n : ℕ}

theorem Took.length {b : Prop} [Decidable b] (h : Took b w w') :
    w.loop.writes.length = w'.loop.writes.length + if b then 1 else 0 := by
  rcases h with ⟨hb, op, hw⟩ | ⟨hb, hw⟩
  · rw [if_pos hb, hw, List.length_cons]
  · rw [if_neg hb, hw, Nat.add_zero]

/-- The pool is exhausted by one frame if it is empty. -/
theorem exhausted_iff {b : Prop} [Decidable b] {pool : List ℕ} :
    b ∧ pool = [] ↔ pool.length < if b then 1 else 0 := by
  rw [← List.length_eq_zero_iff]
  split
  · rename_i hb
    rw [and_iff_right hb, Nat.lt_one_iff]
  · rename_i hb
    exact iff_of_false (fun h => hb h.1) (Nat.not_lt_zero _)

theorem operationsNeeded_idle (h : NothingWhole buf) : operationsNeeded server fuel buf w = 0 := by
  cases fuel with
  | zero => rfl
  | succ fuel => simp [operationsNeeded, framesComeTo, h]

/-- A frame that is too large is the last one. -/
theorem operationsNeeded_large (hshort : 9 ≤ buf.length)
    (hlarge : 512 < (frameParseHeader buf).length) :
    operationsNeeded server (fuel + 1) buf w = if Costs w then 1 else 0 := by
  have hidle : ¬ NothingWhole buf := by
    unfold NothingWhole
    omega
  have htakes : Arrival.Takes server ⟨w, frameParseHeader buf, buf.drop 9⟩ ↔ Costs w :=
    and_iff_right (.inl hlarge)
  simp [operationsNeeded, framesComeTo, hidle, hlarge, List.countP_cons, htakes]

/-- A whole frame, and what the loop comes to behind it. -/
theorem operationsNeeded_whole (h : Whole buf) :
    operationsNeeded server (fuel + 1) buf w =
      (match receiveFrame server (frameParseHeader buf) (buf.drop 9) w with
        | .ok rc w' =>
          if rc < 0 then 0
          else operationsNeeded server fuel (buf.drop (9 + (frameParseHeader buf).length)) w'
        | .error _ _ => 0) +
      if Arrival.Takes server ⟨w, frameParseHeader buf, buf.drop 9⟩ then 1 else 0 := by
  obtain ⟨hlen, hwhole⟩ := h
  have hidle : ¬ NothingWhole buf := by
    unfold NothingWhole
    omega
  simp only [operationsNeeded, framesComeTo, if_neg hidle, if_neg (not_lt.mpr hlen),
    List.countP_cons, decide_eq_true_eq]
  congr 1
  cases receiveFrame server (frameParseHeader buf) (buf.drop 9) w with
  | ok rc w' =>
    dsimp only
    split <;> rfl
  | error e w' => rfl

/-- **When the loop exhausts the pool**: if it comes to more frames that take an operation than the
pool has. -/
theorem receivingLoop_takes (fuel n : ℕ) (buf : Bytes) (w : World) :
    wp (receivingLoop server fuel n buf)
      (fun _ _ => operationsNeeded server fuel buf w ≤ w.loop.writes.length)
      (fun e _ => e = .noWriteOp ↔ w.loop.writes.length < operationsNeeded server fuel buf w) w := by
  induction fuel generalizing n buf w with
  | zero => exact Nat.zero_le _
  | succ fuel ih =>
    rcases idle_or_large_or_whole buf with hidle | ⟨hshort, hlarge⟩ | hwhole
    · rw [wp, receivingLoop_idle hidle, operationsNeeded_idle hidle]
      exact Nat.zero_le _
    -- a frame that is too large is refused, which takes an operation
    · rw [wp_congr (receivingLoop_large hshort hlarge), operationsNeeded_large hshort hlarge]
      simp only [wp_bind, wp_record, wp_pure]
      have hu : Untouched w (w.add (.frame (frameParseHeader buf) (buf.drop 9))) := ⟨rfl, rfl, rfl⟩
      refine (http2Error_takes hu).mono (fun _ w' ht => ?_) fun e _ he => he.trans exhausted_iff
      have := ht.length
      omega
    -- a whole frame takes an operation or none
    · rw [wp_congr (receivingLoop_whole hwhole.1 hwhole.2), wp_bind]
      have hframe : Takes (Arrival.Takes server ⟨w, frameParseHeader buf, buf.drop 9⟩) w
          (receiveFrame server (frameParseHeader buf) (buf.drop 9)) w := receiveFrame_takes hwhole.1
      rw [operationsNeeded_whole hwhole]
      unfold Takes at hframe
      unfold wp at hframe ⊢
      cases hrun : receiveFrame server (frameParseHeader buf) (buf.drop 9) w with
      | error e w' =>
        rw [hrun] at hframe
        rw [Nat.zero_add]
        exact Iff.trans hframe exhausted_iff
      | ok rc w' =>
        rw [hrun] at hframe
        have hlength := Took.length hframe
        dsimp only
        -- the loop stops, or goes on with the operations that are left
        by_cases hrc : rc < 0
        · rw [if_pos hrc, if_pos hrc]
          show _ ≤ _
          omega
        · rw [if_neg hrc, if_neg hrc]
          have hrest := ih (n + 9 + (frameParseHeader buf).length)
            (buf.drop (9 + (frameParseHeader buf).length)) w'
          refine hrest.mono (fun _ _ hle => ?_) fun e _ he => he.trans ?_
          · omega
          · omega

end Loop

/-! ## Runs -/

/-- `event_write` never finds the pool empty while `receiving` handles the buffer. -/
def PoolSuffices (server : Server) (buf : Bytes) (w : World) : Prop :=
  thrown (receiving server buf.length buf w) ≠ some .noWriteOp

instance (server : Server) (buf : Bytes) (w : World) : Decidable (PoolSuffices server buf w) :=
  inferInstanceAs (Decidable (_ ≠ _))

/-- Whatever the pool holds, it suffices exactly for as many frames that take an operation. -/
theorem poolSuffices_iff_le (server : Server) (buf : Bytes) (w : World) :
    PoolSuffices server buf w ↔
      operationsNeeded server buf.length buf w ≤ w.loop.writes.length := by
  unfold PoolSuffices receiving
  rcases Nat.eq_zero_or_pos buf.length with hzero | hpos
  · obtain rfl := List.length_eq_zero_iff.mp hzero
    exact iff_of_true (fun h => by cases h) (Nat.zero_le _)
  rw [if_neg (by omega)]
  have hloop := @receivingLoop_takes server buf.length 0 buf w
  refine (@wp_thrown _ _ _ _ _ fun e => e ≠ some Assertion.noWriteOp).symm.trans ?_
  constructor
  · intro hsuffices
    refine (hsuffices.and hloop).elim (fun _ _ h => h.2) fun e _ h => not_lt.mp fun hlt => ?_
    exact h.1 (congrArg some (h.2.mpr hlt))
  · intro hle
    refine hloop.mono (fun _ _ _ h => by cases h) fun e _ he h => ?_
    exact absurd (he.mp (Option.some_inj.mp h)) (not_lt.mpr hle)

namespace EventLoop

/-- The write queues of all sockets are empty. -/
def WritesIdle (l : EventLoop) : Prop := ∀ conn ∈ l.reserved, conn.sock.queue = []

instance (l : EventLoop) : Decidable l.WritesIdle := inferInstanceAs (Decidable (∀ _ ∈ _, _))

variable {server : Server} {actions : List Action} {w : World}

/-- Where all write queues are empty, the pool is full. -/
theorem pool_full (ha : (run server actions).aborted = none)
    (hidle : (run server actions).WritesIdle) (hw : w ∈ (run server actions).worlds) :
    w.loop.writes.length = eventWriteQueueSize := by
  have hpools : w.loop = (run server actions).pools := by
    simp only [worlds, List.mem_filterMap, Option.map_eq_some_iff] at hw
    obtain ⟨conn, -, client, -, rfl⟩ := hw
    rfl
  have hused : (run server actions).usedWrites = [] := by
    rw [usedWrites, List.flatMap_eq_nil_iff]
    intro conn hconn
    rw [hidle conn hconn, List.map_nil]
  have hperm := ((@kept_run server actions).conserved ha).writes
  rw [hused, List.append_nil] at hperm
  rw [hpools, hperm.length_eq, List.length_range]

end EventLoop

/-- **The pool suffices for a buffer** that is received while all write queues are empty exactly if
`receiving` comes to no more frames that take an operation than the pool has. -/
theorem poolSuffices_iff {server : Server} {actions : List EventLoop.Action} {w : World}
    (ha : (EventLoop.run server actions).aborted = none)
    (hidle : (EventLoop.run server actions).WritesIdle)
    (hw : w ∈ (EventLoop.run server actions).worlds) (buf : Bytes) :
    PoolSuffices server buf w ↔
      operationsNeeded server buf.length buf w ≤ eventWriteQueueSize := by
  rw [poolSuffices_iff_le, EventLoop.pool_full ha hidle hw]

/-- A read buffer with thirty PING frames, and two bytes of the next one. -/
def Sample.pings : Bytes :=
  (List.replicate 30 (Sample.frame 6 0 0 (List.replicate 8 0))).flatten ++ [0, 0]

/-- Twelve PING frames are answered. -/
theorem poolSuffices_twelve :
    ∃ w ∈ (EventLoop.run .empty (Sample.handshake (Sample.frame 4 0 0 []))).worlds,
      (PoolSuffices .empty (Sample.pings.take 204) w ↔
        operationsNeeded .empty (Sample.pings.take 204).length (Sample.pings.take 204) w ≤
          eventWriteQueueSize) ∧
      operationsNeeded .empty (Sample.pings.take 204).length (Sample.pings.take 204) w = 12 := by
  have hex : ∃ w ∈ (EventLoop.run .empty (Sample.handshake (Sample.frame 4 0 0 []))).worlds,
      operationsNeeded .empty (Sample.pings.take 204).length (Sample.pings.take 204) w = 12 := by
    decide +kernel
  obtain ⟨w, hw, hneeded⟩ := hex
  exact ⟨w, hw, poolSuffices_iff (by decide +kernel) (by decide +kernel) hw _, hneeded⟩

/-- The thirteenth PING frame of a full read buffer finds the pool empty. -/
theorem not_poolSuffices :
    ¬ ∀ (server : Server) (actions : List EventLoop.Action) (w : World) (e : EventRead),
      (EventLoop.run server actions).aborted = none →
      (EventLoop.run server actions).WritesIdle →
      w ∈ (EventLoop.run server actions).worlds → w.sock.read = some e → e.cb = .receiving →
      e.buf.bytes.length = http2SockReadSize → PoolSuffices server e.buf.bytes w := by
  intro h
  have hall : ∀ w ∈ (EventLoop.run .empty (Sample.handshake (Sample.frame 4 0 0 []) ++
      [.recv 0 Sample.pings])).worlds, ∀ e ∈ w.sock.read, e.cb = .receiving →
        e.buf.bytes.length = http2SockReadSize → PoolSuffices .empty e.buf.bytes w :=
    fun w hw e he hcb hlen => h _ _ w e (by decide +kernel) (by decide +kernel) hw he hcb hlen
  revert hall
  decide +kernel

end Two
