import Two.Http2.Handlers

/-!
# Closed properties of programs

Many properties of the handlers of `http2.c` hold because they hold of the operations that the
handlers are made of, and of a sequence if they hold of its parts. They are proved here once for all
such properties.

## Main definitions

* `Closed K`: the property `K` of programs is kept by sequencing, and the operations have it

## Main results

* `Closed.handleFrame`, `Closed.receiving`, `Closed.waitingForSettings`, `Closed.callWriteCb`: the
  handlers and callbacks have every closed property
-/

namespace Two

/-! ## Closed properties of programs -/

/-- A property of programs that sequencing keeps and that the operations of the handlers have. Left
out are the operations that single handlers use: the SETTINGS and PING frames of the server, the
first read callback, and the answer to a request. -/
structure Closed (K : ∀ {α : Type}, M α → Prop) : Prop where
  pure : ∀ {α : Type} (a : α), K (pure a : M α)
  bind : ∀ {α β : Type} {m : M α} {f : α → M β}, K m → (∀ a, K (f a)) → K (m >>= f)
  get : K (get : M World)
  record : ∀ e, K (record e)
  modifyCtx : ∀ f, K (modifyCtx f)
  eventReadStop : K eventReadStop
  eventClose : K eventClose
  eventRead : ∀ cb, cb ≠ .waitingForPreface → K (eventRead cb)
  eventTimerStop : ∀ timer, K (eventTimerStop timer)
  sendFrame : ∀ f cb, cb ≠ .onSettingsSent → (∀ opaqueData ack, f ≠ .ping opaqueData ack) →
    K (sendFrame f cb)

namespace Closed

variable {K : ∀ {α : Type}, M α → Prop} {α : Type}

/-- Both branches have the property. -/
theorem ite {c : Prop} [Decidable c] {m n : M α} (hm : K m) (hn : K n) :
    K (if c then m else n) := by
  split
  · exact hm
  · exact hn

section Operations

variable (h : Closed @K)
include h

theorem getCtx : K getCtx := h.bind h.get fun _ => h.pure _

theorem setStreamState (new : StreamState) : K (setStreamState new) :=
  h.bind (h.record _) fun _ => h.modifyCtx _

/-- Closing a connection at once. -/
theorem http2CloseImmediate : K http2CloseImmediate :=
  h.bind (h.modifyCtx _) fun _ => h.bind (h.setStreamState _) fun _ =>
    h.bind h.eventReadStop fun _ => h.eventClose

/-- An error of the connection. -/
theorem http2Error (e : Http2Error) : K (http2Error e) :=
  h.bind (h.record _) fun _ => h.bind (h.modifyCtx _) fun _ => h.bind h.eventReadStop fun _ =>
    h.bind h.getCtx fun _ => h.bind (h.sendFrame _ _ (by decide) (by simp)) fun _ => h.pure _

theorem failWith (e : Http2Error) : K (failWith e) := h.bind (h.http2Error e) fun _ => h.pure _

/-- An error of a stream, the current one or another. -/
theorem http2StreamError (id : ℕ) (e : Http2Error) : K (http2StreamError id e) :=
  h.bind (h.sendFrame _ _ (by decide) (by simp)) fun _ => h.bind (h.record _) fun _ =>
    h.bind h.getCtx fun _ => ite (h.setStreamState _) (h.pure _)

/-! ### Frames -/

/-- The parameters of a SETTINGS frame, one after the other up to the first that is refused. -/
theorem updateSettingsLoop (parameters : List (ℕ × ℕ)) (total : ℕ) :
    K (updateSettingsLoop parameters total) := by
  induction parameters generalizing total with
  | nil => exact h.pure _
  | cons p parameters ih =>
    refine h.bind h.getCtx fun c => ?_
    split
    · exact h.bind (h.http2Error _) fun _ => h.pure _
    · exact h.bind (h.record _) fun _ => h.bind (h.modifyCtx _) fun _ => ih _

/-- A SETTINGS frame: refused, applied and acknowledged, or an acknowledgement. -/
theorem handleSettingsFrame (header : FrameHeader) (payload : Bytes) :
    K (handleSettingsFrame header payload) := by
  refine ite (h.failWith _) (ite (ite (h.failWith _) ?_) (ite (h.failWith _) ?_))
  · exact h.bind (h.updateSettingsLoop _ _) fun _ =>
      ite (h.bind (h.sendFrame _ _ (by decide) (by simp)) fun _ => h.pure _) (h.pure _)
  · refine h.bind h.getCtx fun c => ite (h.pure _) ?_
    exact h.bind (h.modifyCtx _) fun _ => h.bind (h.eventTimerStop _) fun _ =>
      h.bind (h.modifyCtx _) fun _ => h.pure _

/-- A GOAWAY frame: refused, or the connection is closed, or it is answered. -/
theorem handleGoawayFrame (header : FrameHeader) (payload : Bytes) :
    K (handleGoawayFrame header payload) := by
  refine ite (h.failWith _) (ite (h.failWith _) (h.bind h.getCtx fun c => ?_))
  refine ite (h.bind h.http2CloseImmediate fun _ => h.pure _) (ite (h.pure _) ?_)
  refine h.bind (h.modifyCtx _) fun _ => h.bind (ite (h.setStreamState _) (h.pure _)) fun _ => ?_
  exact h.bind (h.modifyCtx _) fun _ => h.bind (h.eventRead _ (by decide)) fun _ =>
    h.bind (h.sendFrame _ _ (by decide) (by simp)) fun _ => h.pure _

/-- The next part of a response, as far as the windows allow. -/
theorem http2ContinueSend : K http2ContinueSend :=
  h.bind h.getCtx fun _ => ite (h.pure _)
    (h.bind (h.sendFrame _ _ (by decide) (by simp)) fun _ => h.modifyCtx _)

/-- A WINDOW_UPDATE frame: refused, or an increment of the window of the connection or the stream. -/
theorem handleWindowUpdateFrame (header : FrameHeader) (payload : Bytes) :
    K (handleWindowUpdateFrame header payload) := by
  refine h.bind h.getCtx fun c => ite (h.failWith _) (ite (h.failWith _) (ite (h.failWith _) ?_))
  refine ite (h.failWith _) (ite (ite (h.failWith _) ?_) (ite ?_ ?_))
  · exact h.bind (h.record _) fun _ => h.bind (h.modifyCtx _) fun _ => h.pure _
  · exact h.bind (h.http2StreamError _ _) fun _ => h.pure _
  · exact h.bind (h.record _) fun _ => h.bind (h.modifyCtx _) fun _ =>
      h.bind h.http2ContinueSend fun _ => h.pure _

/-- A RST_STREAM frame. -/
theorem handleRstStreamFrame (header : FrameHeader) : K (handleRstStreamFrame header) :=
  h.bind h.getCtx fun _ => ite (h.failWith _) (ite (h.failWith _) (ite (h.failWith _)
    (h.bind (h.record _) fun _ => h.bind (h.setStreamState _) fun _ => h.pure _)))

theorem markEndStream (header : FrameHeader) : K (markEndStream header) :=
  ite (h.bind (h.modifyCtx _) fun _ => h.setStreamState _) (h.pure _)

/-- A frame of a response was sent, or could not be. -/
theorem onStreamSendComplete (status : ℤ) : K (onStreamSendComplete status) :=
  ite h.http2CloseImmediate
    (h.bind h.getCtx fun _ => ite (h.setStreamState _) h.http2ContinueSend)

/-- Every write callback but the one for the SETTINGS of the server, which sets a timer. -/
theorem callWriteCb {cb : WriteCb} (hcb : cb ≠ .onSettingsSent) (status : ℤ) :
    K (callWriteCb cb status) := by
  cases cb with
  | closeOnWriteError => exact ite h.http2CloseImmediate (h.pure _)
  | closeOnGoawaySent => exact h.http2CloseImmediate
  | onSettingsSent => exact absurd rfl hcb
  | onStreamSendComplete => exact h.onStreamSendComplete status

/-- The read callback for the first SETTINGS frame. -/
theorem waitingForSettings (size : ℤ) (buf : Bytes) : K (waitingForSettings size buf) := by
  refine ite (h.bind h.http2CloseImmediate fun _ => h.pure _)
    (ite (h.pure _) (ite ?_ (ite (h.pure _) ?_)))
  · exact h.bind (h.record _) fun _ => h.bind (h.http2Error _) fun _ => h.pure _
  · refine h.bind (h.record _) fun _ => h.bind (h.handleSettingsFrame _ _) fun rc => ?_
    refine ite (h.pure _) (h.bind (h.record _) fun _ => h.bind (h.modifyCtx _) fun _ => ?_)
    exact h.bind (h.eventRead _ (by decide)) fun _ => h.pure _

end Operations

section Requests

variable {server : Server} (h : Closed @K)
  (hrequest : ∀ headers, K (Two.handleRequest server headers))
include h hrequest

/-- A header block is decoded and checked; its request is answered as is assumed. -/
theorem handleEndStream : K (handleEndStream server) := by
  refine h.bind h.get fun w => h.bind (h.record _) fun _ => h.bind (h.modifyCtx _) fun _ => ?_
  exact ite (h.failWith _) (ite (h.failWith _) (ite (h.failWith _)
    (ite (h.failWith _) (hrequest _))))

theorem endStreamIfComplete : K (endStreamIfComplete server) :=
  h.bind h.getCtx fun _ => ite (h.handleEndStream hrequest) (h.pure _)

/-- A part of a header block, in whichever frame it came. -/
theorem handleHeaderBlock (header : FrameHeader) (data : Bytes) (size : ℤ) :
    K (handleHeaderBlock server header data size) := by
  refine h.bind h.getCtx fun c => ite (h.failWith _) ?_
  refine h.bind (ite (h.modifyCtx _) (h.pure _)) fun _ => h.bind (h.markEndStream _) fun _ => ?_
  exact h.bind (ite (h.modifyCtx _) (h.pure _)) fun _ => (h.endStreamIfComplete hrequest)

/-- The payload of a HEADERS frame, with or without padding. -/
theorem handleHeadersPayload (header : FrameHeader) (payload : Bytes) :
    K (handleHeadersPayload server header payload) :=
  ite (h.failWith _) (ite (h.handleHeaderBlock hrequest _ _ _) (h.handleHeaderBlock hrequest _ _ _))

/-- A HEADERS frame: refused, or trailers, or a new stream. -/
theorem handleHeadersFrame (header : FrameHeader) (payload : Bytes) :
    K (handleHeadersFrame server header payload) := by
  refine h.bind h.getCtx fun c => ite (h.pure _) (ite (h.failWith _) (ite (h.failWith _) ?_))
  refine ite (h.failWith _) (ite (h.failWith _) (ite (ite ?_ ?_) ?_))
  · exact h.bind (h.http2StreamError _ _) fun _ => h.pure _
  · exact h.bind (h.modifyCtx _) fun _ => h.handleHeadersPayload hrequest _ _
  · exact h.bind (h.modifyCtx _) fun _ => h.bind (h.setStreamState _) fun _ =>
      h.handleHeadersPayload hrequest _ _

/-- A DATA frame, whose payload is not kept. -/
theorem handleDataFrame (header : FrameHeader) (payload : Bytes) :
    K (handleDataFrame server header payload) := by
  refine h.bind h.getCtx fun c => ite (h.failWith _) (ite ?_ (ite ?_ (ite (h.failWith _) ?_)))
  · exact h.bind (h.http2StreamError _ _) fun _ => h.pure _
  · exact h.bind (h.http2StreamError _ _) fun _ => h.pure _
  · exact h.bind (h.markEndStream _) fun _ => h.bind (h.endStreamIfComplete hrequest) fun _ => h.pure _

/-- A CONTINUATION frame. -/
theorem handleContinuationFrame (header : FrameHeader) (payload : Bytes) :
    K (handleContinuationFrame server header payload) :=
  h.bind h.getCtx fun _ => ite (h.failWith _) (h.handleHeaderBlock hrequest _ _ _)

variable (hping : ∀ header payload, K (Two.handlePingFrame header payload))
include hping

/-- Every handler of a frame has the property if the answers to requests and to PING have it. -/
theorem handleFrame (header : FrameHeader) (payload : Bytes) :
    K (handleFrame server header payload) := by
  unfold Two.handleFrame
  split
  · exact h.handleGoawayFrame _ _
  · exact h.handleSettingsFrame _ _
  · exact hping _ _
  · exact h.handleHeadersFrame hrequest _ _
  · exact h.handleContinuationFrame hrequest _ _
  · exact h.handleWindowUpdateFrame _ _
  · exact h.handleRstStreamFrame _
  · exact h.handleDataFrame hrequest _ _
  · exact h.bind (h.http2Error _) fun _ => h.pure _
  · exact h.pure _
  · exact h.pure _

/-- The loop of `receiving`, by induction on its rounds. -/
theorem receivingLoop (fuel bytesRead : ℕ) (buf : Bytes) :
    K (receivingLoop server fuel bytesRead buf) := by
  have hrefused : ∀ e header region (n : ℕ),
      K (do Two.record (.frame header region); Two.http2Error e; return n) := fun _ _ _ _ =>
    h.bind (h.record _) fun _ => h.bind (h.http2Error _) fun _ => h.pure _
  induction fuel generalizing bytesRead buf with
  | zero => exact h.pure _
  | succ fuel ih =>
    refine ite (h.pure _) (ite (hrefused _ _ _ _) (ite (hrefused _ _ _ _) (ite (h.pure _) ?_)))
    refine h.bind h.getCtx fun c => h.bind (h.record _) fun _ => ite ?_ ?_
    · exact h.bind (h.http2Error _) fun _ => h.pure _
    · exact h.bind (h.handleFrame hrequest hping _ _) fun rc => ite (h.pure _) (ih _ _)

/-- The read callback of a connection that is ready. -/
theorem receiving (size : ℤ) (buf : Bytes) : K (receiving server size buf) :=
  ite (h.bind h.http2CloseImmediate fun _ => h.pure _) (h.receivingLoop hrequest hping _ _ _)

end Requests

end Closed

end Two
