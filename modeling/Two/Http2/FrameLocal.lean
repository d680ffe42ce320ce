import Two.Http2.Framing
import Two.Http2.Receiving
import Two.Library.Relational

/-!
# What a handler looks at

The handlers of `http2.c` look neither at the trace nor at the read buffer, and of the memory behind
the header of a frame only at the bytes that the header announces. So a frame has the same effect
wherever it stands in the read buffer and whatever follows it there.

## Main definitions

* `sentBytes`: the bytes of the frames that were passed to `event_write`
* `Same`: two worlds that differ in the bytes of the read buffer and in the trace

## Main results

* `handleFrame_local`: a frame has the same effect without the bytes behind it
-/

namespace Two

open Program

/-- The bytes of the frames that were passed to `event_write`. -/
def sentBytes (log : List Entry) : List Bytes := (sentFrames log).map Frame.bytes

@[simp] theorem sentBytes_append (log new : List Entry) :
    sentBytes (log ++ new) = sentBytes log ++ sentBytes new := by
  simp [sentBytes, sentFrames]

/-- The entries show the same frame that is sent, if any, and the same error, if any. -/
def SameEntry (e e' : Entry) : Prop := sentBytes [e] = sentBytes [e'] ∧ e.isError = e'.isError

/-- Two worlds that differ in the trace and in the bytes of the read buffer: the read event is `ev` in
one, and has the buffer `buf` in the other. Reading stops only after an error. -/
structure Same (ev : EventRead) (buf : Fifo) (w w' : World) : Prop where
  loop : w'.loop = w.loop
  ctx : w'.ctx = w.ctx
  callback : w'.callback = w.callback
  connected : w.sock.state = .connected
  connected' : w'.sock.state = .connected
  write : w'.sock.write = w.sock.write
  timers : w'.sock.timers = w.sock.timers
  read : (w.sock.read = some ev ∧ w'.sock.read = some { ev with buf := buf }) ∨
    (w.sock.read = none ∧ w'.sock.read = none ∧ errored w.log = true)
  sent : sentBytes w'.log = sentBytes w.log
  errors : errored w'.log = errored w.log
  goaway : w.ctx.flags.goawaySent = false

section Primitives

variable {ev : EventRead} {buf : Fifo} {w w' : World} {α : Type}

theorem Same.add {e e' : State → Entry} (h : Same ev buf w w')
    (he : ∀ s s', SameEntry (e s) (e' s')) : Same ev buf (w.add e) (w'.add e') := by
  obtain ⟨hsent, herror⟩ := he w.toState w'.toState
  refine { h with read := ?_, sent := ?_, errors := ?_ }
  · refine h.read.imp id fun ⟨hr, hr', herr⟩ => ⟨hr, hr', ?_⟩
    simp [World.add, herr]
  · simp only [World.add, sentBytes_append, h.sent, hsent]
  · simp only [World.add, errored_append, errored_cons, h.errors, herror]

theorem Same.onCtx {f : Context → Context} (h : Same ev buf w w')
    (hf : ∀ c, c.flags.goawaySent = false → (f c).flags.goawaySent = false) :
    Same ev buf (w.onCtx f) (w'.onCtx f) :=
  { h with ctx := congrArg f h.ctx, goaway := hf _ h.goaway }

theorem related_record {e e' : State → Entry} (he : ∀ s s', SameEntry (e s) (e' s')) :
    Related (Same ev buf) (record e) (record e') :=
  .modify fun _ _ h => h.add he

theorem related_modifyCtx {f : Context → Context}
    (hf : ∀ c, c.flags.goawaySent = false → (f c).flags.goawaySent = false) :
    Related (Same ev buf) (modifyCtx f) (modifyCtx f) :=
  .modify fun _ _ h => h.onCtx hf

/-- The context is the same in both worlds, and no GOAWAY frame counts as sent in it. -/
theorem related_getCtx_bind {f f' : Context → M α}
    (hf : ∀ c, c.flags.goawaySent = false → Related (Same ev buf) (f c) (f' c)) :
    Related (Same ev buf) (getCtx >>= f) (getCtx >>= f') := by
  intro w w' h
  rw [bind_getCtx, bind_getCtx, h.ctx]
  exact hf w.ctx h.goaway w w' h

theorem related_setStreamState (new : StreamState) :
    Related (Same ev buf) (setStreamState new) (setStreamState new) :=
  .bind (related_record fun _ _ => ⟨rfl, rfl⟩) fun _ => related_modifyCtx fun _ hc => hc

/-- The callback that is already there is set again. -/
theorem related_eventRead {cb : ReadCb} (hcb : ev.cb = cb) :
    Related (Same ev buf) (eventRead cb) (eventRead cb) := by
  refine .bind (related_record fun _ _ => ⟨rfl, rfl⟩) fun _ => .get_bind fun w w' h => ?_
  rw [if_neg (not_not.mpr h.connected), if_neg (not_not.mpr h.connected')]
  rcases h.read with ⟨hr, hr'⟩ | ⟨hr, hr', -⟩
  · rw [hr, hr']
    refine .ok () { h with read := .inl ?_ }
    subst hcb
    exact ⟨rfl, rfl⟩
  · rw [hr, hr']
    exact .error _ h

theorem related_eventWrite (bytes : Bytes) (cb : WriteCb) (stream : Option ℕ) :
    Related (Same ev buf) (eventWrite bytes cb stream) (eventWrite bytes cb stream) := by
  refine .get_bind fun w w' h => ?_
  rw [if_neg (not_not.mpr h.connected), if_neg (not_not.mpr h.connected'), h.write, h.loop]
  cases w.sock.write with
  | none => exact .error _ h
  | some e =>
    dsimp only
    split
    · cases w.loop.writes with
      | nil => exact .error _ { h with write := rfl, loop := rfl }
      | cons op writes => exact .ok _ { h with write := rfl, loop := rfl }
    · exact .ok _ h

theorem related_sendFrame {f f' : Frame} (cb : WriteCb) (hbytes : f'.bytes = f.bytes)
    (hstream : f'.stream? = f.stream?) :
    Related (Same ev buf) (sendFrame f cb) (sendFrame f' cb) := by
  unfold sendFrame
  rw [hbytes, hstream]
  refine .bind (related_record fun _ _ => ⟨?_, rfl⟩) fun _ => related_eventWrite _ _ _
  simp [sentBytes, sentFrames, hbytes]

theorem related_eventTimerStop (timer : Option ℕ) :
    Related (Same ev buf) (eventTimerStop timer) (eventTimerStop timer) := by
  cases timer with
  | none => exact .pure ()
  | some id =>
    refine .get_bind fun w w' h => ?_
    have hid : w'.sock.read.map EventRead.id = w.sock.read.map EventRead.id := by
      rcases h.read with ⟨hr, hr'⟩ | ⟨hr, hr', -⟩
      · rw [hr, hr']
        rfl
      · rw [hr, hr']
    rw [hid, h.write]
    split
    · exact .error _ h
    · exact .ok () { h with timers := by rw [h.timers], loop := by rw [h.loop] }

theorem Same.readStop (h : Same ev buf w w') (herr : errored w.log = true) :
    Same ev buf w.readStop w'.readStop := by
  unfold World.readStop
  rcases h.read with ⟨hr, hr'⟩ | ⟨hr, hr', -⟩
  · rw [hr, hr']
    exact { h with loop := by rw [h.loop], read := .inr ⟨rfl, rfl, herr⟩ }
  · rw [hr, hr']
    exact h

/-- An error stops the reading in both worlds. -/
theorem related_http2Error (e : Http2Error) :
    Related (Same ev buf) (http2Error e) (http2Error e) := by
  have hfailing : Related (Same ev buf) (modify fun w => w.failing e : M PUnit)
      (modify fun w => w.failing e) := by
    refine .modify fun w w' h => Same.readStop ?_ (by simp)
    refine Same.onCtx (Same.add h fun _ _ => ⟨rfl, rfl⟩) fun _ hc => hc
  have heq : http2Error e = (do
      modify fun w => w.failing e
      let c ← getCtx
      let _ ← sendGoawayFrame e.code c.lastOpenedStreamId .closeOnGoawaySent) := rfl
  rw [heq]
  refine .bind hfailing fun _ => related_getCtx_bind fun c _ => ?_
  exact .bind (related_sendFrame _ rfl rfl) fun _ => .pure ()

theorem related_failWith (e : Http2Error) : Related (Same ev buf) (failWith e) (failWith e) :=
  .bind (related_http2Error e) fun _ => .pure _

theorem related_http2StreamError (streamId : ℕ) (e : Http2Error) :
    Related (Same ev buf) (http2StreamError streamId e) (http2StreamError streamId e) :=
  .bind (related_sendFrame _ rfl rfl) fun _ => .bind (related_record fun _ _ => ⟨rfl, rfl⟩) fun _ =>
    related_getCtx_bind fun _ _ => .ite (fun _ => related_setStreamState _) fun _ => .pure ()

end Primitives

/-! ## The handlers -/

section Handlers

variable {ev : EventRead} {buf : Fifo} {header : FrameHeader} {payload : Bytes}

theorem byteAt_payload {i : ℕ} (h : i < header.length) :
    byteAt (payload.take header.length) i = byteAt payload i := byteAt_take h

theorem slice_payload {k n : ℕ} (h : k + n ≤ header.length) :
    slice ((payload.take header.length).drop k) 0 n = slice (payload.drop k) 0 n := by
  rw [slice_drop, slice_drop, slice_take (by omega)]

theorem handlePingFrame_local :
    Related (Same ev buf) (handlePingFrame header payload)
      (handlePingFrame header (payload.take header.length)) := by
  refine .ite (fun _ => related_failWith _) fun _ => .ite (fun _ => related_failWith _) fun hlen =>
    .ite (fun _ => .pure _) fun _ => ?_
  refine .bind (related_sendFrame _ ?_ rfl) fun _ => .pure _
  have hlen : 0 + 8 ≤ header.length := by omega
  rw [Frame.bytes, Frame.bytes, Frame.payload, Frame.payload, slice_take hlen]
  rfl

theorem handleGoawayFrame_local (hcb : ev.cb = .receiving) :
    Related (Same ev buf) (handleGoawayFrame header payload)
      (handleGoawayFrame header (payload.take header.length)) := by
  refine .ite (fun _ => related_failWith _) fun _ => .ite (fun _ => related_failWith _) fun hlen => ?_
  have hlast : bufferGetU31 (payload.take header.length) = bufferGetU31 payload := by
    simp only [bufferGetU31]
    rw [byteAt_payload (by omega), byteAt_payload (by omega), byteAt_payload (by omega),
      byteAt_payload (by omega)]
  rw [hlast]
  refine related_getCtx_bind fun c hc => .ite (fun hsent => ?_) fun _ => .ite (fun _ => .pure _)
    fun _ => ?_
  · rw [hc] at hsent
    exact absurd hsent Bool.false_ne_true
  refine .bind (related_modifyCtx fun _ hc => hc) fun _ => ?_
  refine .bind (.ite (fun _ => related_setStreamState _) fun _ => .pure ()) fun _ => ?_
  refine .bind (related_modifyCtx fun _ hc => hc) fun _ => ?_
  refine .bind (related_eventRead hcb) fun _ => ?_
  exact .bind (related_sendFrame _ rfl rfl) fun _ => .pure _

theorem related_updateSettingsLoop (parameters : List (ℕ × ℕ)) (total : ℕ) :
    Related (Same ev buf) (updateSettingsLoop parameters total)
      (updateSettingsLoop parameters total) := by
  induction parameters generalizing total with
  | nil => exact .pure total
  | cons p parameters ih =>
    obtain ⟨id, value⟩ := p
    refine related_getCtx_bind fun c hc => ?_
    cases ha : applySetting c id value with
    | error e => exact .bind (related_http2Error e) fun _ => .pure 0
    | ok c' =>
      have hsent : c'.flags.goawaySent = false := by
        obtain ⟨_, _, _, rfl⟩ := applySetting_eq ha
        exact hc
      refine .bind (related_record fun _ _ => ⟨rfl, rfl⟩) fun _ => ?_
      exact .bind (related_modifyCtx fun _ _ => hsent) fun _ => ih _

theorem handleSettingsFrame_local :
    Related (Same ev buf) (handleSettingsFrame header payload)
      (handleSettingsFrame header (payload.take header.length)) := by
  refine .ite (fun _ => related_failWith _) fun _ => .ite (fun _ => .ite (fun _ => related_failWith _)
    fun hlen => ?_) fun _ => .ite (fun _ => related_failWith _) fun _ => ?_
  · rw [updateSettings, updateSettings, settingsParameters_take (not_not.mp hlen)]
    refine .bind (related_updateSettingsLoop _ 0) fun total => .ite (fun _ => ?_) fun _ => .pure 0
    exact .bind (related_sendFrame _ rfl rfl) fun _ => .pure 0
  · refine related_getCtx_bind fun c _ => .ite (fun _ => .pure 0) fun _ => ?_
    refine .bind (related_modifyCtx fun _ hc => hc) fun _ => ?_
    refine .bind (related_eventTimerStop _) fun _ => ?_
    exact .bind (related_modifyCtx fun _ hc => hc) fun _ => .pure 0

theorem related_http2ContinueSend :
    Related (Same ev buf) http2ContinueSend http2ContinueSend := by
  refine related_getCtx_bind fun c _ => .ite (fun _ => .pure ()) fun _ => ?_
  exact .bind (related_sendFrame _ rfl rfl) fun _ => related_modifyCtx fun _ hc => hc

theorem handleWindowUpdateFrame_local :
    Related (Same ev buf) (handleWindowUpdateFrame header payload)
      (handleWindowUpdateFrame header (payload.take header.length)) := by
  refine related_getCtx_bind fun c _ => .ite (fun _ => related_failWith _) fun hlen =>
    .ite (fun _ => related_failWith _) fun _ => .ite (fun _ => related_failWith _) fun _ => ?_
  have hincrement : bufferGetU31 (payload.take header.length) = bufferGetU31 payload := by
    simp only [bufferGetU31]
    rw [byteAt_payload (by omega), byteAt_payload (by omega), byteAt_payload (by omega),
      byteAt_payload (by omega)]
  rw [hincrement]
  refine .ite (fun _ => related_failWith _) fun _ => .ite (fun _ => .ite
    (fun _ => related_failWith _) fun _ => ?_) fun _ => .ite (fun _ => ?_) fun _ => ?_
  · refine .bind (related_record fun _ _ => ⟨rfl, rfl⟩) fun _ => ?_
    exact .bind (related_modifyCtx fun _ hc => hc) fun _ => .pure 0
  · exact .bind (related_http2StreamError _ _) fun _ => .pure _
  · refine .bind (related_record fun _ _ => ⟨rfl, rfl⟩) fun _ => ?_
    refine .bind (related_modifyCtx fun _ hc => hc) fun _ => ?_
    exact .bind related_http2ContinueSend fun _ => .pure 0

theorem related_handleRstStreamFrame :
    Related (Same ev buf) (handleRstStreamFrame header) (handleRstStreamFrame header) := by
  refine related_getCtx_bind fun c _ => .ite (fun _ => related_failWith _) fun _ =>
    .ite (fun _ => related_failWith _) fun _ => .ite (fun _ => related_failWith _) fun _ => ?_
  refine .bind (related_record fun _ _ => ⟨rfl, rfl⟩) fun _ => ?_
  exact .bind (related_setStreamState _) fun _ => .pure 0

/-! ### Requests -/

section Requests

variable {server : Server}

theorem related_sendHeadersFrame (headers : HeaderList) (streamId : ℕ) (endStream : Bool)
    (cb : WriteCb) :
    Related (Same ev buf) (sendHeadersFrame headers streamId endStream cb)
      (sendHeadersFrame headers streamId endStream cb) := by
  refine related_getCtx_bind fun c _ => ?_
  cases Hpack.encode c.hpackDynamicTable headers .empty (frameMaxSize - 9) with
  | none => exact .throw _
  | some r =>
    obtain ⟨size, table, buffer⟩ := r
    refine .bind (related_modifyCtx fun _ hc => hc) fun _ => .ite (fun _ => .pure _) fun _ => ?_
    exact .bind (related_sendFrame _ rfl rfl) fun _ => .pure _

theorem related_handleRequest (headers : HeaderList) :
    Related (Same ev buf) (handleRequest server headers) (handleRequest server headers) := by
  refine .get_bind fun w w' h => ?_
  simp only [h.ctx, h.loop]
  generalize respond server headers w.ctx w.loop.calls = res
  have hset : Related (Same ev buf)
      (set { w with
        loop.calls := w.loop.calls + 1
        ctx.stream.buf := res.content
        ctx.stream.buflen := res.contentLength
        log := w.log ++ [Entry.request w.ctx.stream.id headers res.body] } : M PUnit)
      (set { w' with
        loop := { w.loop with calls := w.loop.calls + 1 }
        ctx := { w.ctx with stream.buf := res.content, stream.buflen := res.contentLength }
        log := w'.log ++ [Entry.request w.ctx.stream.id headers res.body] }) := by
    intro _ _ _
    have hadd : Same ev buf (w.add fun _ => .request w.ctx.stream.id headers res.body)
        (w'.add fun _ => .request w.ctx.stream.id headers res.body) := h.add fun _ _ => ⟨rfl, rfl⟩
    exact .ok () { hadd with loop := rfl, ctx := rfl, goaway := h.goaway }
  refine Related.bind hset (fun _ => ?_) w w' h
  refine .bind (related_sendHeadersFrame _ _ _ _) fun hlen => ?_
  exact .ite (fun _ => related_failWith _) fun _ => .pure _

theorem related_handleEndStream :
    Related (Same ev buf) (handleEndStream server) (handleEndStream server) := by
  refine .get_bind fun w w' h => ?_
  simp only [h.ctx, h.loop]
  generalize Hpack.decode _ _ _ _ _ = result
  have hrecord : Related (Same ev buf)
      (record (.decode (slice w.ctx.stream.buf 0 w.ctx.stream.buflen)))
      (record (.decode (slice w.ctx.stream.buf 0 w.ctx.stream.buflen))) :=
    related_record fun _ _ => ⟨rfl, rfl⟩
  refine hrecord.bind (fun _ => ?_) w w' h
  refine .bind (related_modifyCtx fun _ hc => hc) fun _ => ?_
  refine .ite (fun _ => related_failWith _) fun _ => .ite (fun _ => related_failWith _) fun _ =>
    .ite (fun _ => related_failWith _) fun _ => .ite (fun _ => related_failWith _) fun _ => ?_
  exact related_handleRequest _

theorem related_endStreamIfComplete :
    Related (Same ev buf) (endStreamIfComplete server) (endStreamIfComplete server) :=
  related_getCtx_bind fun _ _ => .ite (fun _ => related_handleEndStream) fun _ => .pure 0

theorem related_markEndStream :
    Related (Same ev buf) (markEndStream header) (markEndStream header) :=
  .ite (fun _ => .bind (related_modifyCtx fun _ hc => hc) fun _ => related_setStreamState _)
    fun _ => .pure ()

theorem related_markEndHeaders :
    Related (Same ev buf) (markEndHeaders header) (markEndHeaders header) :=
  .ite (fun _ => related_modifyCtx fun _ hc => hc) fun _ => .pure ()

/-- Of a part of a header block the bytes up to its size are copied. -/
theorem handleHeaderBlock_local {data data' : Bytes} {size : ℤ}
    (h : ∀ n : ℕ, n ≤ size → slice data' 0 n = slice data 0 n) :
    Related (Same ev buf) (handleHeaderBlock server header data size)
      (handleHeaderBlock server header data' size) := by
  refine related_getCtx_bind fun c _ => .ite (fun _ => related_failWith _) fun hpos => ?_
  have hslice := h (min size (http2StreamBufSize - c.stream.buflen)).toNat (by omega)
  have hblock : ∀ c' : Context,
      c'.appendBlock data' (min size (http2StreamBufSize - c.stream.buflen)).toNat =
        c'.appendBlock data (min size (http2StreamBufSize - c.stream.buflen)).toNat := by
    intro c'
    rw [Context.appendBlock, Context.appendBlock, hslice]
  simp only [hblock]
  refine .bind (.ite (fun _ => related_modifyCtx fun _ hc => hc) fun _ => .pure ()) fun _ => ?_
  refine .bind related_markEndStream fun _ => .bind related_markEndHeaders fun _ => ?_
  exact related_endStreamIfComplete

theorem handleHeadersPayload_local :
    Related (Same ev buf) (handleHeadersPayload server header payload)
      (handleHeadersPayload server header (payload.take header.length)) := by
  unfold handleHeadersPayload
  by_cases hpad : header.has frameFlagsPadded = true
  · simp only [hpad, if_true, true_and]
    rcases Nat.eq_zero_or_pos header.length with hzero | hpos
    · -- the length of the padding is looked up behind an empty payload, but is refused whatever it is
      rw [if_pos (by omega), if_pos (by omega)]
      exact related_failWith _
    · rw [byteAt_payload hpos]
      refine .ite (fun _ => related_failWith _) fun _ => .ite (fun _ => ?_) fun _ => ?_
      · refine handleHeaderBlock_local fun n hn => ?_
        rw [List.drop_drop, List.drop_drop, slice_payload (by omega)]
      · exact handleHeaderBlock_local fun n hn => slice_payload (by omega)
  · simp only [hpad, Bool.false_eq_true, if_false, false_and]
    refine .ite (fun _ => ?_) fun _ => ?_
    · exact handleHeaderBlock_local fun n hn => slice_payload (by omega)
    · refine handleHeaderBlock_local fun n hn => slice_take ?_
      omega

theorem handleHeadersFrame_local :
    Related (Same ev buf) (handleHeadersFrame server header payload)
      (handleHeadersFrame server header (payload.take header.length)) := by
  refine related_getCtx_bind fun c _ => .ite (fun _ => .pure 0) fun _ =>
    .ite (fun _ => related_failWith _) fun _ => .ite (fun _ => related_failWith _) fun _ =>
    .ite (fun _ => related_failWith _) fun _ => .ite (fun _ => related_failWith _) fun _ =>
    .ite (fun _ => .ite (fun _ => ?_) fun _ => ?_) fun _ => ?_
  · exact .bind (related_http2StreamError _ _) fun _ => .pure _
  · exact .bind (related_modifyCtx fun _ hc => hc) fun _ => handleHeadersPayload_local
  · refine .bind (related_modifyCtx fun _ hc => hc) fun _ => ?_
    exact .bind (related_setStreamState _) fun _ => handleHeadersPayload_local

theorem handleContinuationFrame_local :
    Related (Same ev buf) (handleContinuationFrame server header payload)
      (handleContinuationFrame server header (payload.take header.length)) := by
  refine related_getCtx_bind fun c _ => .ite (fun _ => related_failWith _) fun _ => ?_
  refine handleHeaderBlock_local fun n hn => slice_take ?_
  omega

theorem handleDataFrame_local :
    Related (Same ev buf) (handleDataFrame server header payload)
      (handleDataFrame server header (payload.take header.length)) := by
  have hpad : (header.has frameFlagsPadded = true ∧
      byteAt (payload.take header.length) 0 ≥ header.length) ↔
        (header.has frameFlagsPadded = true ∧ byteAt payload 0 ≥ header.length) := by
    rcases Nat.eq_zero_or_pos header.length with hzero | hpos
    · exact and_congr_right fun _ => iff_of_true (by omega) (by omega)
    · rw [byteAt_payload hpos]
  unfold handleDataFrame
  simp only [hpad]
  refine related_getCtx_bind fun c _ => .ite (fun _ => related_failWith _) fun _ =>
    .ite (fun _ => ?_) fun _ => .ite (fun _ => ?_) fun _ => .ite (fun _ => related_failWith _)
    fun _ => ?_
  · exact .bind (related_http2StreamError _ _) fun _ => .pure _
  · exact .bind (related_http2StreamError _ _) fun _ => .pure _
  · refine .bind related_markEndStream fun _ => ?_
    exact .bind related_endStreamIfComplete fun _ => .pure 0

/-- **A frame has the same effect without the bytes behind it.** -/
theorem handleFrame_local (hcb : ev.cb = .receiving) :
    Related (Same ev buf) (handleFrame server header payload)
      (handleFrame server header (payload.take header.length)) := by
  unfold handleFrame
  cases header.type with
  | goaway => exact handleGoawayFrame_local hcb
  | settings => exact handleSettingsFrame_local
  | ping => exact handlePingFrame_local
  | headers => exact handleHeadersFrame_local
  | continuation => exact handleContinuationFrame_local
  | windowUpdate => exact handleWindowUpdateFrame_local
  | rstStream => exact related_handleRstStreamFrame
  | data => exact handleDataFrame_local
  | pushPromise => exact .bind (related_http2Error _) fun _ => .pure 0
  | priority => exact .pure 0
  | unknown => exact .pure 0

theorem receiveFrame_local (hcb : ev.cb = .receiving) :
    Related (Same ev buf) (receiveFrame server header payload)
      (receiveFrame server header (payload.take header.length)) :=
  related_getCtx_bind fun _ _ => .bind (related_record fun _ _ => ⟨rfl, rfl⟩) fun _ =>
    .ite (fun _ => related_failWith _) fun _ => handleFrame_local hcb

end Requests

end Handlers

end Two
