import Two.Event.Loop

/-!
# The effects of the code

The changes that the code of `http2.c` and `event.c` makes to the world of a connection when no
assertion fails, and what each of them leaves as it was.

## Main definitions

* `World.written`, `World.fail`, `World.resetBy`, `World.closeImmediate`: sending and closing
* `World.marked`, `World.block`, `World.requested`, `World.continued`: the life of a stream
* `World.popped`, `World.calling`, `World.returned`, `World.flushed`: the write queue
* `Writable`: `event_write` fails no assertion
-/

namespace Two

/-- The context after the END_STREAM flag of a frame. -/
def Context.marked (c : Context) (h : FrameHeader) : Context :=
  if h.has frameFlagsEndStream then
    { c with flags.waitingEndStream := false, stream.state := .halfClosedRemote }
  else c

/-- The context after a part of a header block. -/
def Context.block (c : Context) (h : FrameHeader) (data : Bytes) (n : ℕ) : Context :=
  let c := if c.flags.waitingTrailers then c else c.appendBlock data n
  let c := c.marked h
  if h.has frameFlagsEndHeaders then { c with flags.waitingEndHeaders := false } else c

namespace Context

variable (c : Context) (h : FrameHeader) (data : Bytes) (n : ℕ)

@[simp] theorem marked_id : (c.marked h).stream.id = c.stream.id := by
  unfold marked
  split <;> rfl

@[simp] theorem marked_buf : (c.marked h).stream.buf = c.stream.buf := by
  unfold marked
  split <;> rfl

@[simp] theorem marked_buflen : (c.marked h).stream.buflen = c.stream.buflen := by
  unfold marked
  split <;> rfl

@[simp] theorem marked_bufptr : (c.marked h).stream.bufptr = c.stream.bufptr := by
  unfold marked
  split <;> rfl

@[simp] theorem marked_last : (c.marked h).lastOpenedStreamId = c.lastOpenedStreamId := by
  unfold marked
  split <;> rfl

@[simp] theorem marked_state : (c.marked h).state = c.state := by
  unfold marked
  split <;> rfl

@[simp] theorem marked_goawaySent : (c.marked h).flags.goawaySent = c.flags.goawaySent := by
  unfold marked
  split <;> rfl

@[simp] theorem marked_waitingTrailers : (c.marked h).flags.waitingTrailers = c.flags.waitingTrailers := by
  unfold marked
  split <;> rfl

@[simp] theorem marked_waitingEndHeaders : (c.marked h).flags.waitingEndHeaders = c.flags.waitingEndHeaders := by
  unfold marked
  split <;> rfl

/-- END_STREAM half-closes the stream. -/
@[simp] theorem marked_streamState : (c.marked h).stream.state =
    if h.has frameFlagsEndStream then .halfClosedRemote else c.stream.state := by
  unfold marked
  split <;> rfl

/-- END_STREAM is no longer waited for. -/
@[simp] theorem marked_waitingEndStream : (c.marked h).flags.waitingEndStream =
    if h.has frameFlagsEndStream then false else c.flags.waitingEndStream := by
  unfold marked
  split <;> rfl

@[simp] theorem marked_windowSize : (c.marked h).windowSize = c.windowSize := by
  unfold marked
  split <;> rfl

@[simp] theorem marked_streamWindow : (c.marked h).stream.windowSize = c.stream.windowSize := by
  unfold marked
  split <;> rfl

@[simp] theorem marked_settings : (c.marked h).settings = c.settings := by
  unfold marked
  split <;> rfl

@[simp] theorem marked_table : (c.marked h).hpackDynamicTable = c.hpackDynamicTable := by
  unfold marked
  split <;> rfl

/-- The frame of a part of a header block half-closes the stream with END_STREAM only. -/
@[simp] theorem block_streamState : (c.block h data n).stream.state =
    if h.has frameFlagsEndStream then .halfClosedRemote else c.stream.state := by
  simp only [block]
  split <;> split <;> simp [appendBlock]

@[simp] theorem block_waitingEndStream : (c.block h data n).flags.waitingEndStream =
    if h.has frameFlagsEndStream then false else c.flags.waitingEndStream := by
  simp only [block]
  split <;> split <;> simp [appendBlock]

/-- The header block goes on unless the frame has END_HEADERS. -/
@[simp] theorem block_waitingEndHeaders : (c.block h data n).flags.waitingEndHeaders =
    if h.has frameFlagsEndHeaders then false else c.flags.waitingEndHeaders := by
  simp only [block]
  split <;> split <;> simp_all [appendBlock]

/-- A part of trailers is not copied into the stream buffer. -/
@[simp] theorem block_buflen : (c.block h data n).stream.buflen =
    if c.flags.waitingTrailers then c.stream.buflen else c.stream.buflen + n := by
  simp only [block]
  split <;> split <;> simp [appendBlock]

@[simp] theorem block_id : (c.block h data n).stream.id = c.stream.id := by
  simp only [block]
  split <;> split <;> simp [appendBlock]

@[simp] theorem block_bufptr : (c.block h data n).stream.bufptr = c.stream.bufptr := by
  simp only [block]
  split <;> split <;> simp [appendBlock]

@[simp] theorem block_last : (c.block h data n).lastOpenedStreamId = c.lastOpenedStreamId := by
  simp only [block]
  split <;> split <;> simp [appendBlock]

@[simp] theorem block_state : (c.block h data n).state = c.state := by
  simp only [block]
  split <;> split <;> simp [appendBlock]

@[simp] theorem block_goawaySent : (c.block h data n).flags.goawaySent = c.flags.goawaySent := by
  simp only [block]
  split <;> split <;> simp [appendBlock]

@[simp] theorem block_waitingTrailers : (c.block h data n).flags.waitingTrailers = c.flags.waitingTrailers := by
  simp only [block]
  split <;> split <;> simp [appendBlock]

@[simp] theorem block_windowSize : (c.block h data n).windowSize = c.windowSize := by
  simp only [block]
  split <;> split <;> simp [appendBlock]

@[simp] theorem block_streamWindow :
    (c.block h data n).stream.windowSize = c.stream.windowSize := by
  simp only [block]
  split <;> split <;> simp [appendBlock]

@[simp] theorem block_settings : (c.block h data n).settings = c.settings := by
  simp only [block]
  split <;> split <;> simp [appendBlock]

@[simp] theorem block_table : (c.block h data n).hpackDynamicTable = c.hpackDynamicTable := by
  simp only [block]
  split <;> split <;> simp [appendBlock]

/-- Only a part that does not belong to trailers is written into the stream buffer. -/
@[simp] theorem block_buf : (c.block h data n).stream.buf =
    if c.flags.waitingTrailers then c.stream.buf else (c.appendBlock data n).stream.buf := by
  simp only [block]
  split <;> split <;> simp

end Context

namespace World

/-- A `send_*` function that fails no assertion. -/
def written (w : World) (f : Frame) (cb : WriteCb) : World :=
  match w.sock.write with
  | none => w.add (.send f)
  | some e =>
    if e.buf.pushed f.bytes = 0 then w.add (.send f)
    else
      { w.add (.send f) with
        loop.writes := w.loop.writes.tail
        sock.write := some { e with
          buf := e.buf.push f.bytes
          queue := e.queue ++ [⟨w.loop.writes.headD 0, e.buf.pushed f.bytes, cb, f.stream?⟩] } }

/-- The assignment of the stream state. -/
def streamTo (w : World) (new : StreamState) : World :=
  (w.add (.streamState new)).onCtx fun c => { c with stream.state := new }

/-- `http2_error` up to the GOAWAY frame. -/
def failing (w : World) (error : Http2Error) : World :=
  ((w.add (.error error)).onCtx fun c =>
    { c with state := .closing, flags := c.flags.keepGoawaySent }).readStop

/-- `http2_error`. -/
def fail (w : World) (error : Http2Error) : World :=
  (w.failing error).written (.goaway error.code w.ctx.lastOpenedStreamId) .closeOnGoawaySent

/-- `http2_stream_error`. -/
def resetBy (w : World) (error : Http2Error) (streamId : ℕ) : World :=
  let w := (w.written (.rstStream error.code streamId) .closeOnWriteError).add fun _ => .reset streamId
  if streamId = w.ctx.stream.id then w.streamTo .closed else w

/-- `http2_close_immediate`. -/
def closeImmediate (w : World) : World :=
  ((w.onCtx fun c => { c with state := .closed }).streamTo .closed).readStop.close

/-- The END_STREAM flag of a frame. -/
def marked (w : World) (h : FrameHeader) : World :=
  if h.has frameFlagsEndStream then
    (w.onCtx fun c => { c with flags.waitingEndStream := false }).streamTo .halfClosedRemote
  else w

/-- A part of a header block, copied unless it belongs to trailers, with the flags of its frame. -/
def block (w : World) (h : FrameHeader) (data : Bytes) (n : ℕ) : World :=
  let w :=
    if w.ctx.flags.waitingTrailers then w else w.onCtx fun c => c.appendBlock data n
  let w := w.marked h
  if h.has frameFlagsEndHeaders then w.onCtx fun c => { c with flags.waitingEndHeaders := false }
  else w

/-- The header block in the stream buffer is decoded. -/
def decoded (w : World) (table : Hpack.DynamicTable) : World :=
  (w.add (.decode (slice w.ctx.stream.buf 0 w.ctx.stream.buflen))).onCtx fun c =>
    { c with hpackDynamicTable := table }

/-- The call of `http_handle_request`, after the header block was decoded. -/
def requested (w : World) (headers : HeaderList) (res : HttpResponse) : World :=
  { w with
    loop.calls := w.loop.calls + 1
    ctx.stream.buf := res.content
    ctx.stream.buflen := res.contentLength
    log := w.log ++ [.request w.ctx.stream.id headers res.body] }

/-- The response headers are sent, which leaves the HPACK table `table`. -/
def answering (w : World) (table : Hpack.DynamicTable) (block : Bytes) : World :=
  (w.onCtx fun c => { c with hpackDynamicTable := table }).written
    (.headers w.ctx.stream.id (w.ctx.stream.buflen = 0) block) .onStreamSendComplete

/-- The length of the DATA frame that `http2_continue_send` sends. -/
def dataLength (w : World) : ℕ := min (sendLength w.ctx).toNat http2SockWriteSize

/-- The DATA frame that `http2_continue_send` sends. -/
def dataFrame (w : World) : Frame :=
  .data w.ctx.stream.id (w.ctx.stream.buflen - w.dataLength = 0)
    (slice w.ctx.stream.buf w.ctx.stream.bufptr w.dataLength)

/-- `http2_continue_send` when flow control allows it to send. -/
def continued (w : World) : World :=
  (w.written w.dataFrame .onStreamSendComplete).onCtx fun c => c.advance w.dataLength

/-- The increment of the window of the stream, by a frame that names `id`. -/
def increment (w : World) (id n : ℕ) : World :=
  (w.add (.increment id n)).onCtx fun c =>
    { c with stream.windowSize := int32 (c.stream.windowSize + n) }

/-- The increment of the window of the connection. -/
def connIncrement (w : World) (n : ℕ) : World :=
  (w.add (.increment 0 n)).onCtx fun c => { c with windowSize := int32 (c.windowSize + n) }

/-- A parameter of a SETTINGS frame is accepted, which leaves the context `c`. -/
def stored (w : World) (id value : ℕ) (c : Context) : World :=
  (w.add (.setting id value)).onCtx fun _ => c

/-- The write event, changed. -/
def onWrite (w : World) (f : EventWrite → EventWrite) : World :=
  { w with sock.write := w.sock.write.map f }

/-- The oldest operation leaves the queue. -/
def popped (w : World) : World := w.onWrite fun e => { e with queue := e.queue.tail }

/-- The callback of an operation is called. -/
def calling (w : World) (op : WriteOp) (status : ℤ) : World :=
  { w.add (.completed op status) with callback := op.stream }

/-- The callback of an operation has returned, and the operation goes back to the pool. -/
def returned (w : World) (op : WriteOp) : World :=
  { w with callback := none, loop.writes := op.id :: w.loop.writes }

/-- `event_sock_close` without the callbacks: the buffer is closed and emptied, and all operations
go back to the pool. -/
def flushed (w : World) : World :=
  { w.onWrite fun e => { e with buf := { e.buf.finish with bytes := [] }, queue := [] } with
    loop.writes := (w.sock.queue.map WriteOp.id).reverse ++ w.loop.writes }

/-- The bytes that a read callback consumed leave the read buffer. -/
def consumed (w : World) (bytes : Bytes) (n : ℕ) : World :=
  { w.add fun _ => .consumed (bytes.take n) with
    sock.read := w.sock.read.map fun e => { e with buf := e.buf.pop n } }

/-- The callback of the read event is changed by `event_read`. -/
def reading (w : World) (cb : ReadCb) : World :=
  { w.add (.eventRead cb) with sock.read := w.sock.read.map fun e => { e with cb := cb } }

/-- A HEADERS frame opens a stream. -/
def opening (w : World) (id : ℕ) : World := (w.onCtx fun c => c.openStream id).streamTo .opened

/-- A RST_STREAM frame closes the stream. -/
def rstBy (w : World) (id : ℕ) : World := (w.add fun _ => .reset id).streamTo .closed

/-- A GOAWAY frame is answered. -/
def goneAway (w : World) : World :=
  ((w.onCtx fun c => { c with state := .closing }).reading .receiving).written
    (.goaway Http2Error.noError.code w.ctx.lastOpenedStreamId) .closeOnGoawaySent

/-- The preface at the beginning of `bytes` was received. -/
def greeted (w : World) (bytes : Bytes) : World :=
  (((w.onCtx fun c => { c with state := .waitingSettings }).written
    (.settings localSettings) .onSettingsSent).reading .waitingForSettings).consumed bytes 24

/-- The first SETTINGS frame, the first `n` of `bytes`, was handled. -/
def readied (w : World) (bytes : Bytes) (n : ℕ) : World :=
  (((w.add fun _ => .ready).onCtx fun c => { c with state := .ready }).reading
    .receiving).consumed bytes n

/-- The callback of an operation closes the connection, and all operations go back to the pool. -/
def dropped (w : World) (op : WriteOp) (status : ℤ) : World :=
  ((w.popped.calling op status).closeImmediate.returned op).flushed

/-! ## What the effects change -/

section Add

variable (w : World) (e : State → Entry)

@[simp] theorem add_log : (w.add e).log = w.log ++ [e w.toState] := rfl

@[simp] theorem add_toState : (w.add e).toState = w.toState := rfl

end Add

section OnCtx

variable (w : World) (f : Context → Context)

@[simp] theorem onCtx_ctx : (w.onCtx f).ctx = f w.ctx := rfl

@[simp] theorem onCtx_log : (w.onCtx f).log = w.log := rfl

@[simp] theorem onCtx_sock : (w.onCtx f).sock = w.sock := rfl

@[simp] theorem onCtx_loop : (w.onCtx f).loop = w.loop := rfl

@[simp] theorem onCtx_callback : (w.onCtx f).callback = w.callback := rfl

end OnCtx

section ReadStop

variable (w : World)

@[simp] theorem readStop_log : w.readStop.log = w.log := by
  unfold readStop
  split <;> rfl

@[simp] theorem readStop_ctx : w.readStop.ctx = w.ctx := by
  unfold readStop
  split <;> rfl

@[simp] theorem readStop_callback : w.readStop.callback = w.callback := by
  unfold readStop
  split <;> rfl

@[simp] theorem readStop_state : w.readStop.sock.state = w.sock.state := by
  unfold readStop
  split <;> rfl

/-- The write event goes on, so that what is queued is still sent. -/
@[simp] theorem readStop_write : w.readStop.sock.write = w.sock.write := by
  unfold readStop
  split <;> rfl

/-- Without a read event nothing is read any more. -/
@[simp] theorem readStop_read : w.readStop.sock.read = none := by
  unfold readStop
  split <;> simp_all

@[simp] theorem readStop_writes : w.readStop.loop.writes = w.loop.writes := by
  unfold readStop
  split <;> rfl

end ReadStop

/-- The queue after a frame was written: an operation is added unless the buffer takes nothing. -/
theorem pushed_eq_zero {q : Fifo} {f : Frame} : q.pushed f.bytes = 0 ↔ q.room = 0 := by
  have := f.length_bytes
  simp only [Fifo.pushed]
  omega

section Written

variable (w : World) (f : Frame) (cb : WriteCb)

/-- The frame is in the trace, whether the write buffer has room for it or not. -/
@[simp] theorem written_log : (w.written f cb).log = w.log ++ [.send f w.toState] := by
  unfold written
  split
  · rfl
  · split <;> rfl

/-- Writing a frame leaves the context alone. -/
@[simp] theorem written_ctx : (w.written f cb).ctx = w.ctx := by
  unfold written
  split
  · rfl
  · split <;> rfl

@[simp] theorem written_callback : (w.written f cb).callback = w.callback := by
  unfold written
  split
  · rfl
  · split <;> rfl

@[simp] theorem written_state : (w.written f cb).sock.state = w.sock.state := by
  unfold written
  split
  · rfl
  · split <;> rfl

@[simp] theorem written_read : (w.written f cb).sock.read = w.sock.read := by
  unfold written
  split
  · rfl
  · split <;> rfl

@[simp] theorem written_isSome : (w.written f cb).sock.write.isSome = w.sock.write.isSome := by
  unfold written
  split
  · rfl
  · split <;> simp_all

/-- The operation that a written frame adds to the queue. -/
def newOps : List WriteOp :=
  if w.sock.room = 0 then []
  else [⟨w.loop.writes.headD 0, min f.bytes.length w.sock.room, cb, f.stream?⟩]

/-- The frame adds at most one operation, at the end of the queue. -/
@[simp] theorem written_queue : (w.written f cb).sock.queue = w.sock.queue ++ w.newOps f cb := by
  unfold written newOps
  cases he : w.sock.write with
  | none => simp [he, Sock.queue, Sock.room]
  | some e =>
    have hr : w.sock.room = e.buf.room := by simp [Sock.room, he]
    dsimp only
    by_cases h : e.buf.pushed f.bytes = 0
    · rw [if_pos h, if_pos (hr ▸ pushed_eq_zero.mp h)]
      simp
    · rw [if_neg h, if_neg (hr ▸ fun h0 => h (pushed_eq_zero.mpr h0))]
      simp [Sock.queue, he, hr, Fifo.pushed]

end Written

/-- The operation added depends on the write event and the pool alone. -/
theorem newOps_congr {w w' : World} (f : Frame) (cb : WriteCb) (hw : w'.sock.write = w.sock.write)
    (hl : w'.loop.writes = w.loop.writes) : w'.newOps f cb = w.newOps f cb := by
  simp [newOps, Sock.room, hw, hl]

section StreamTo

variable (w : World) (new : StreamState)

/-- Every assignment of the stream state is in the trace. -/
@[simp] theorem streamTo_log : (w.streamTo new).log = w.log ++ [.streamState new w.toState] := rfl

@[simp] theorem streamTo_ctx : (w.streamTo new).ctx = { w.ctx with stream.state := new } := rfl

@[simp] theorem streamTo_sock : (w.streamTo new).sock = w.sock := rfl

@[simp] theorem streamTo_loop : (w.streamTo new).loop = w.loop := rfl

@[simp] theorem streamTo_callback : (w.streamTo new).callback = w.callback := rfl

end StreamTo

section Fail

variable (w : World) (e : Http2Error)

/-- `http2_error` closes the connection for new frames and keeps no flag but the one of GOAWAY. -/
@[simp] theorem failing_ctx : (w.failing e).ctx =
    { w.ctx with state := .closing, flags := w.ctx.flags.keepGoawaySent } := by
  simp [failing]

/-- `http2_error` raises the error and sends GOAWAY. -/
@[simp] theorem fail_log : (w.fail e).log = w.log ++ [.error e w.toState,
    .send (.goaway e.code w.ctx.lastOpenedStreamId) (w.failing e).toState] := by
  simp [fail, failing]

@[simp] theorem fail_ctx : (w.fail e).ctx =
    { w.ctx with state := .closing, flags := w.ctx.flags.keepGoawaySent } := by
  simp [fail]

@[simp] theorem fail_state : (w.fail e).sock.state = w.sock.state := by simp [fail, failing]

/-- After `http2_error` nothing is read. -/
@[simp] theorem fail_read : (w.fail e).sock.read = none := by simp [fail, failing]

@[simp] theorem fail_isSome : (w.fail e).sock.write.isSome = w.sock.write.isSome := by
  simp [fail, failing]

@[simp] theorem fail_callback : (w.fail e).callback = w.callback := by simp [fail, failing]

/-- After the GOAWAY frame of `http2_error` the connection is closed. -/
@[simp] theorem fail_queue : (w.fail e).sock.queue = w.sock.queue ++
    w.newOps (.goaway e.code w.ctx.lastOpenedStreamId) .closeOnGoawaySent := by
  have hw : (w.failing e).sock.write = w.sock.write := by simp [failing]
  have hl : (w.failing e).loop.writes = w.loop.writes := by simp [failing]
  rw [fail, written_queue, newOps_congr _ _ hw hl]
  simp [Sock.queue, hw]

end Fail

section Reset

variable (w : World) (e : Http2Error) (id : ℕ)

/-- On the socket `http2_stream_error` only sends RST_STREAM. -/
@[simp] theorem resetBy_sock : (w.resetBy e id).sock =
    (w.written (.rstStream e.code id) .closeOnWriteError).sock := by
  unfold resetBy
  dsimp only
  split <;> rfl

@[simp] theorem resetBy_loop : (w.resetBy e id).loop =
    (w.written (.rstStream e.code id) .closeOnWriteError).loop := by
  unfold resetBy
  dsimp only
  split <;> rfl

@[simp] theorem resetBy_callback : (w.resetBy e id).callback = w.callback := by
  unfold resetBy
  dsimp only
  split <;> simp

/-- `http2_stream_error` closes the stream if it is the current one. -/
@[simp] theorem resetBy_ctx : (w.resetBy e id).ctx =
    if id = w.ctx.stream.id then { w.ctx with stream.state := .closed } else w.ctx := by
  simp only [resetBy, add_toState, written_ctx]
  split <;> simp

/-- `http2_stream_error` in the trace: the frame, the reset, and the current stream closed. -/
@[simp] theorem resetBy_log : (w.resetBy e id).log =
    w.log ++ [.send (.rstStream e.code id) w.toState, .reset id] ++
      if id = w.ctx.stream.id then
        [.streamState .closed (w.written (.rstStream e.code id) .closeOnWriteError).toState]
      else [] := by
  simp only [resetBy, add_toState, written_ctx]
  split <;> simp

end Reset

section Close

variable (w : World)

@[simp] theorem close_log : w.close.log = w.log := rfl

@[simp] theorem close_ctx : w.close.ctx = w.ctx := rfl

@[simp] theorem close_callback : w.close.callback = w.callback := rfl

/-- `event_close` waits for the queue: the socket is closing, and its operations stay. -/
@[simp] theorem close_state : w.close.sock.state = .closing := rfl

@[simp] theorem close_read : w.close.sock.read = w.sock.read := rfl

@[simp] theorem close_loop : w.close.loop = w.loop := rfl

@[simp] theorem close_queue : w.close.sock.queue = w.sock.queue := by
  cases h : w.sock.write <;> simp [close, Sock.queue, h]

@[simp] theorem close_isSome : w.close.sock.write.isSome = w.sock.write.isSome := by
  simp [close]

/-- `http2_close_immediate` in the trace: the stream is closed. -/
@[simp] theorem closeImmediate_log : w.closeImmediate.log =
    w.log ++ [.streamState .closed (w.onCtx fun c => { c with state := .closed }).toState] := by
  simp [closeImmediate]

/-- `http2_close_immediate` closes the connection and the stream. -/
@[simp] theorem closeImmediate_ctx : w.closeImmediate.ctx =
    { w.ctx with state := .closed, stream.state := .closed } := by
  simp [closeImmediate]

@[simp] theorem closeImmediate_callback : w.closeImmediate.callback = w.callback := by
  simp [closeImmediate]

@[simp] theorem closeImmediate_state : w.closeImmediate.sock.state = .closing := by
  simp [closeImmediate]

@[simp] theorem closeImmediate_read : w.closeImmediate.sock.read = none := by
  simp [closeImmediate]

/-- The operations that are queued stay until the socket is closed. -/
@[simp] theorem closeImmediate_queue : w.closeImmediate.sock.queue = w.sock.queue := by
  rw [closeImmediate, close_queue]
  simp [Sock.queue]

@[simp] theorem closeImmediate_isSome :
    w.closeImmediate.sock.write.isSome = w.sock.write.isSome := by
  simp [closeImmediate]

@[simp] theorem closeImmediate_writes : w.closeImmediate.loop.writes = w.loop.writes := by
  simp [closeImmediate]

end Close

section Block

variable (w : World) (h : FrameHeader) (data : Bytes) (n : ℕ)

@[simp] theorem marked_sock : (w.marked h).sock = w.sock := by
  unfold marked
  split <;> rfl

@[simp] theorem marked_loop : (w.marked h).loop = w.loop := by
  unfold marked
  split <;> rfl

@[simp] theorem marked_callback : (w.marked h).callback = w.callback := by
  unfold marked
  split <;> rfl

@[simp] theorem marked_ctx : (w.marked h).ctx = w.ctx.marked h := by
  unfold marked Context.marked
  split <;> rfl

/-- The trace of the END_STREAM flag. -/
def markEntry : List Entry :=
  if h.has frameFlagsEndStream then
    [.streamState .halfClosedRemote (w.onCtx fun c => { c with flags.waitingEndStream := false }).toState]
  else []

/-- The flag is noted outside or inside the callback that was running. -/
theorem mem_markEntry {e : Entry} (he : e ∈ w.markEntry h) :
    ∃ s, e = .streamState .halfClosedRemote s ∧ s.callback = w.callback := by
  unfold markEntry at he
  split at he
  · exact ⟨_, List.mem_singleton.mp he, rfl⟩
  · simp at he

/-- END_STREAM in the trace. -/
theorem marked_log : (w.marked h).log = w.log ++ w.markEntry h := by
  unfold marked markEntry
  split <;> simp

/-- The world after the bytes of a block were copied. -/
def copied : World :=
  if w.ctx.flags.waitingTrailers then w else w.onCtx fun c => c.appendBlock data n

/-- A part of a header block: copied, then marked, then the flag for END_HEADERS. -/
theorem block_eq : w.block h data n =
    if h.has frameFlagsEndHeaders then
      ((w.copied data n).marked h).onCtx fun c => { c with flags.waitingEndHeaders := false }
    else (w.copied data n).marked h := rfl

@[simp] theorem copied_sock : (w.copied data n).sock = w.sock := by
  unfold copied
  split <;> rfl

@[simp] theorem copied_loop : (w.copied data n).loop = w.loop := by
  unfold copied
  split <;> rfl

@[simp] theorem copied_callback : (w.copied data n).callback = w.callback := by
  unfold copied
  split <;> rfl

@[simp] theorem copied_log : (w.copied data n).log = w.log := by
  unfold copied
  split <;> rfl

@[simp] theorem block_sock : (w.block h data n).sock = w.sock := by
  rw [block_eq]
  split <;> simp

@[simp] theorem block_loop : (w.block h data n).loop = w.loop := by
  rw [block_eq]
  split <;> simp

@[simp] theorem block_callback : (w.block h data n).callback = w.callback := by
  rw [block_eq]
  split <;> simp

/-- On the context, a part of a header block has the effect `Context.block`. -/
@[simp] theorem block_ctx : (w.block h data n).ctx = w.ctx.block h data n := by
  rw [block_eq, Context.block]
  unfold copied
  split <;> split <;> simp

/-- Of a part of a header block only END_STREAM shows in the trace. -/
theorem block_log : (w.block h data n).log = w.log ++ (w.copied data n).markEntry h := by
  rw [block_eq]
  split <;> simp [marked_log]

end Block

section Requested

variable (w : World) (t : Hpack.DynamicTable) (headers : HeaderList) (res : HttpResponse)

/-- The bytes given to the decoder are in the trace. -/
@[simp] theorem decoded_log : (w.decoded t).log =
    w.log ++ [.decode (slice w.ctx.stream.buf 0 w.ctx.stream.buflen) w.toState] := rfl

@[simp] theorem decoded_sock : (w.decoded t).sock = w.sock := rfl

@[simp] theorem decoded_callback : (w.decoded t).callback = w.callback := rfl

@[simp] theorem decoded_loop : (w.decoded t).loop = w.loop := rfl

@[simp] theorem decoded_ctx : (w.decoded t).ctx = { w.ctx with hpackDynamicTable := t } := rfl

/-- The headers of the request and the body of its response are in the trace. -/
@[simp] theorem requested_log : (w.requested headers res).log =
    w.log ++ [.request w.ctx.stream.id headers res.body] := rfl

@[simp] theorem requested_sock : (w.requested headers res).sock = w.sock := rfl

@[simp] theorem requested_callback : (w.requested headers res).callback = w.callback := rfl

@[simp] theorem requested_writes : (w.requested headers res).loop.writes = w.loop.writes := rfl

/-- The response takes the place of the header block in the stream buffer. -/
@[simp] theorem requested_ctx : (w.requested headers res).ctx = { w.ctx with
    stream.buf := res.content
    stream.buflen := res.contentLength } := rfl

variable (block : Bytes)

/-- The HEADERS frame of a response has END_STREAM exactly if there is no content. -/
@[simp] theorem answering_log : (w.answering t block).log =
    w.log ++ [.send (.headers w.ctx.stream.id (w.ctx.stream.buflen = 0) block)
      (w.onCtx fun c => { c with hpackDynamicTable := t }).toState] := by
  simp [answering]

@[simp] theorem answering_ctx : (w.answering t block).ctx =
    { w.ctx with hpackDynamicTable := t } := by
  simp [answering]

@[simp] theorem answering_state : (w.answering t block).sock.state = w.sock.state := by
  simp [answering]

@[simp] theorem answering_read : (w.answering t block).sock.read = w.sock.read := by
  simp [answering]

@[simp] theorem answering_isSome :
    (w.answering t block).sock.write.isSome = w.sock.write.isSome := by
  simp [answering]

/-- After the HEADERS frame the content is sent. -/
@[simp] theorem answering_queue : (w.answering t block).sock.queue = w.sock.queue ++
    w.newOps (.headers w.ctx.stream.id (w.ctx.stream.buflen = 0) block) .onStreamSendComplete := by
  rw [answering, written_queue, newOps_congr]
  · rfl
  · rfl
  · rfl

@[simp] theorem answering_callback : (w.answering t block).callback = w.callback := by
  simp [answering]

end Requested

section Continued

variable (w : World)

/-- A DATA frame is sent. -/
@[simp] theorem continued_log : w.continued.log = w.log ++ [.send w.dataFrame w.toState] := by
  simp [continued]

/-- The windows and the pointer into the content move on by what the DATA frame carries. -/
@[simp] theorem continued_ctx : w.continued.ctx = w.ctx.advance w.dataLength := by
  simp [continued]

@[simp] theorem continued_callback : w.continued.callback = w.callback := by simp [continued]

@[simp] theorem continued_state : w.continued.sock.state = w.sock.state := by simp [continued]

@[simp] theorem continued_read : w.continued.sock.read = w.sock.read := by simp [continued]

@[simp] theorem continued_isSome : w.continued.sock.write.isSome = w.sock.write.isSome := by
  simp [continued]

/-- After a DATA frame the rest of the content is sent. -/
@[simp] theorem continued_queue :
    w.continued.sock.queue = w.sock.queue ++ w.newOps w.dataFrame .onStreamSendComplete := by
  simp [continued]

end Continued

section Windows

variable (w : World) (id n value : ℕ) (c : Context)

@[simp] theorem increment_log : (w.increment id n).log =
    w.log ++ [.increment id n w.toState] := rfl

/-- The window of the stream is a signed 32-bit number. -/
@[simp] theorem increment_ctx : (w.increment id n).ctx =
    { w.ctx with stream.windowSize := int32 (w.ctx.stream.windowSize + n) } := rfl

@[simp] theorem increment_sock : (w.increment id n).sock = w.sock := rfl

@[simp] theorem increment_loop : (w.increment id n).loop = w.loop := rfl

@[simp] theorem increment_callback : (w.increment id n).callback = w.callback := rfl

@[simp] theorem connIncrement_log : (w.connIncrement n).log =
    w.log ++ [.increment 0 n w.toState] := rfl

/-- The window of the connection is a signed 32-bit number. -/
@[simp] theorem connIncrement_ctx : (w.connIncrement n).ctx =
    { w.ctx with windowSize := int32 (w.ctx.windowSize + n) } := rfl

@[simp] theorem connIncrement_sock : (w.connIncrement n).sock = w.sock := rfl

@[simp] theorem connIncrement_loop : (w.connIncrement n).loop = w.loop := rfl

@[simp] theorem connIncrement_callback : (w.connIncrement n).callback = w.callback := rfl

/-- Every accepted parameter is in the trace. -/
@[simp] theorem stored_log : (w.stored id value c).log =
    w.log ++ [.setting id value w.toState] := rfl

@[simp] theorem stored_ctx : (w.stored id value c).ctx = c := rfl

@[simp] theorem stored_sock : (w.stored id value c).sock = w.sock := rfl

@[simp] theorem stored_loop : (w.stored id value c).loop = w.loop := rfl

@[simp] theorem stored_callback : (w.stored id value c).callback = w.callback := rfl

end Windows

section Queue

variable (w : World)

@[simp] theorem onWrite_log (f : EventWrite → EventWrite) : (w.onWrite f).log = w.log := rfl

@[simp] theorem onWrite_ctx (f : EventWrite → EventWrite) : (w.onWrite f).ctx = w.ctx := rfl

@[simp] theorem onWrite_callback (f : EventWrite → EventWrite) :
    (w.onWrite f).callback = w.callback := rfl

@[simp] theorem onWrite_state (f : EventWrite → EventWrite) :
    (w.onWrite f).sock.state = w.sock.state := rfl

@[simp] theorem onWrite_read (f : EventWrite → EventWrite) :
    (w.onWrite f).sock.read = w.sock.read := rfl

@[simp] theorem onWrite_loop (f : EventWrite → EventWrite) : (w.onWrite f).loop = w.loop := rfl

@[simp] theorem onWrite_isSome (f : EventWrite → EventWrite) :
    (w.onWrite f).sock.write.isSome = w.sock.write.isSome := by simp [onWrite]

@[simp] theorem popped_log : w.popped.log = w.log := rfl

@[simp] theorem popped_ctx : w.popped.ctx = w.ctx := rfl

@[simp] theorem popped_callback : w.popped.callback = w.callback := rfl

@[simp] theorem popped_state : w.popped.sock.state = w.sock.state := rfl

@[simp] theorem popped_read : w.popped.sock.read = w.sock.read := rfl

@[simp] theorem popped_loop : w.popped.loop = w.loop := rfl

@[simp] theorem popped_isSome : w.popped.sock.write.isSome = w.sock.write.isSome := by
  simp [popped]

/-- The queue loses its oldest operation and nothing else. -/
@[simp] theorem popped_queue : w.popped.sock.queue = w.sock.queue.tail := by
  cases h : w.sock.write <;> simp [popped, onWrite, Sock.queue, h]

variable (op : WriteOp) (status : ℤ)

/-- A completed operation is in the trace. -/
@[simp] theorem calling_log : (w.calling op status).log =
    w.log ++ [.completed op status w.toState] := rfl

@[simp] theorem calling_ctx : (w.calling op status).ctx = w.ctx := rfl

/-- While its callback runs, the stream of an operation is the one being called back. -/
@[simp] theorem calling_callback : (w.calling op status).callback = op.stream := rfl

@[simp] theorem calling_sock : (w.calling op status).sock = w.sock := rfl

@[simp] theorem calling_loop : (w.calling op status).loop = w.loop := rfl

@[simp] theorem returned_log : (w.returned op).log = w.log := rfl

@[simp] theorem returned_ctx : (w.returned op).ctx = w.ctx := rfl

@[simp] theorem returned_callback : (w.returned op).callback = none := rfl

@[simp] theorem returned_sock : (w.returned op).sock = w.sock := rfl

/-- An operation whose callback has returned is free again. -/
@[simp] theorem returned_writes : (w.returned op).loop.writes = op.id :: w.loop.writes := rfl

@[simp] theorem flushed_log : w.flushed.log = w.log := rfl

@[simp] theorem flushed_ctx : w.flushed.ctx = w.ctx := rfl

@[simp] theorem flushed_callback : w.flushed.callback = w.callback := rfl

@[simp] theorem flushed_state : w.flushed.sock.state = w.sock.state := rfl

@[simp] theorem flushed_read : w.flushed.sock.read = w.sock.read := rfl

@[simp] theorem flushed_isSome : w.flushed.sock.write.isSome = w.sock.write.isSome := by
  simp [flushed, onWrite]

/-- Closing a socket empties the queue. -/
@[simp] theorem flushed_queue : w.flushed.sock.queue = [] := by
  cases h : w.sock.write <;> simp [flushed, onWrite, Sock.queue, h]

/-- The operations of a closed socket go back to the pool. -/
@[simp] theorem flushed_writes : w.flushed.loop.writes =
    (w.sock.queue.map WriteOp.id).reverse ++ w.loop.writes := rfl

end Queue

section Read

variable (w : World)

/-- The new read callback is in the trace. -/
@[simp] theorem reading_log (cb : ReadCb) : (w.reading cb).log =
    w.log ++ [.eventRead cb w.toState] := rfl

@[simp] theorem reading_ctx (cb : ReadCb) : (w.reading cb).ctx = w.ctx := rfl

@[simp] theorem reading_callback (cb : ReadCb) : (w.reading cb).callback = w.callback := rfl

@[simp] theorem reading_state (cb : ReadCb) : (w.reading cb).sock.state = w.sock.state := rfl

@[simp] theorem reading_write (cb : ReadCb) : (w.reading cb).sock.write = w.sock.write := rfl

@[simp] theorem reading_loop (cb : ReadCb) : (w.reading cb).loop = w.loop := rfl

@[simp] theorem reading_queue (cb : ReadCb) : (w.reading cb).sock.queue = w.sock.queue := rfl

/-- Only the callback of the read event changes. -/
@[simp] theorem reading_read (cb : ReadCb) : (w.reading cb).sock.read =
    w.sock.read.map fun e => { e with cb := cb } := rfl

/-- The bytes that a callback consumed are in the trace. -/
@[simp] theorem consumed_log (bytes : Bytes) (n : ℕ) : (w.consumed bytes n).log =
    w.log ++ [.consumed (bytes.take n)] := rfl

@[simp] theorem consumed_ctx (bytes : Bytes) (n : ℕ) : (w.consumed bytes n).ctx = w.ctx := rfl

@[simp] theorem consumed_callback (bytes : Bytes) (n : ℕ) :
    (w.consumed bytes n).callback = w.callback := rfl

@[simp] theorem consumed_state (bytes : Bytes) (n : ℕ) :
    (w.consumed bytes n).sock.state = w.sock.state := rfl

@[simp] theorem consumed_write (bytes : Bytes) (n : ℕ) :
    (w.consumed bytes n).sock.write = w.sock.write := rfl

@[simp] theorem consumed_loop (bytes : Bytes) (n : ℕ) : (w.consumed bytes n).loop = w.loop := rfl

@[simp] theorem consumed_queue (bytes : Bytes) (n : ℕ) :
    (w.consumed bytes n).sock.queue = w.sock.queue := rfl

/-- Only the read buffer changes. -/
@[simp] theorem consumed_read (bytes : Bytes) (n : ℕ) : (w.consumed bytes n).sock.read =
    w.sock.read.map fun e => { e with buf := e.buf.pop n } := rfl

end Read

section Compound

variable (w : World) (id n : ℕ) (bytes : Bytes) (op : WriteOp) (status : ℤ)

@[simp] theorem opening_log : (w.opening id).log =
    w.log ++ [.streamState .opened (w.onCtx fun c => c.openStream id).toState] := rfl

/-- The stream is opened with its flags, its buffer and its window as for a new one. -/
@[simp] theorem opening_ctx : (w.opening id).ctx =
    { w.ctx.openStream id with stream.state := .opened } := rfl

@[simp] theorem opening_sock : (w.opening id).sock = w.sock := rfl

@[simp] theorem opening_loop : (w.opening id).loop = w.loop := rfl

@[simp] theorem opening_callback : (w.opening id).callback = w.callback := rfl

/-- A RST_STREAM frame resets its stream and closes it. -/
@[simp] theorem rstBy_log : (w.rstBy id).log =
    w.log ++ [.reset id, .streamState .closed w.toState] := by
  simp [rstBy]

@[simp] theorem rstBy_ctx : (w.rstBy id).ctx = { w.ctx with stream.state := .closed } := rfl

@[simp] theorem rstBy_sock : (w.rstBy id).sock = w.sock := rfl

@[simp] theorem rstBy_loop : (w.rstBy id).loop = w.loop := rfl

@[simp] theorem rstBy_callback : (w.rstBy id).callback = w.callback := rfl

/-- The answer to a GOAWAY frame in the trace. -/
@[simp] theorem goneAway_log : w.goneAway.log = w.log ++
    [.eventRead .receiving (w.onCtx fun c => { c with state := .closing }).toState,
      .send (.goaway Http2Error.noError.code w.ctx.lastOpenedStreamId)
        ((w.onCtx fun c => { c with state := .closing }).reading .receiving).toState] := by
  simp [goneAway]

@[simp] theorem goneAway_ctx : w.goneAway.ctx = { w.ctx with state := .closing } := by
  simp [goneAway]

@[simp] theorem goneAway_state : w.goneAway.sock.state = w.sock.state := by simp [goneAway]

@[simp] theorem goneAway_read : w.goneAway.sock.read =
    w.sock.read.map fun e => { e with cb := .receiving } := by
  simp [goneAway]

@[simp] theorem goneAway_isSome : w.goneAway.sock.write.isSome = w.sock.write.isSome := by
  simp [goneAway]

/-- After the answer to GOAWAY the connection is closed. -/
@[simp] theorem goneAway_queue : w.goneAway.sock.queue = w.sock.queue ++
    w.newOps (.goaway Http2Error.noError.code w.ctx.lastOpenedStreamId) .closeOnGoawaySent := by
  rw [goneAway, written_queue, newOps_congr]
  · rfl
  · rfl
  · rfl

@[simp] theorem goneAway_callback : w.goneAway.callback = w.callback := by simp [goneAway]

/-- The preface is answered with SETTINGS, then consumed. -/
@[simp] theorem greeted_log : (w.greeted bytes).log = w.log ++
    [.send (.settings localSettings) (w.onCtx fun c => { c with state := .waitingSettings }).toState,
      .eventRead .waitingForSettings ((w.onCtx fun c => { c with state := .waitingSettings }).written
        (.settings localSettings) .onSettingsSent).toState,
      .consumed (bytes.take 24)] := by
  simp [greeted]

@[simp] theorem greeted_ctx : (w.greeted bytes).ctx = { w.ctx with state := .waitingSettings } := by
  simp [greeted]

@[simp] theorem greeted_state : (w.greeted bytes).sock.state = w.sock.state := by simp [greeted]

/-- After the preface, SETTINGS are waited for. -/
@[simp] theorem greeted_read : (w.greeted bytes).sock.read =
    w.sock.read.map fun e => { e with cb := .waitingForSettings, buf := e.buf.pop 24 } := by
  simp [greeted, Function.comp_def]

@[simp] theorem greeted_isSome : (w.greeted bytes).sock.write.isSome = w.sock.write.isSome := by
  simp [greeted]

/-- Once the SETTINGS are sent, a timer waits for their acknowledgement. -/
@[simp] theorem greeted_queue : (w.greeted bytes).sock.queue = w.sock.queue ++
    w.newOps (.settings localSettings) .onSettingsSent := by
  have : (w.greeted bytes).sock.queue =
    ((w.onCtx fun c => { c with state := .waitingSettings }).written (.settings localSettings)
      .onSettingsSent).sock.queue := rfl
  rw [this, written_queue, newOps_congr]
  · rfl
  · rfl
  · rfl

@[simp] theorem greeted_callback : (w.greeted bytes).callback = w.callback := by simp [greeted]

/-- The connection becomes ready, and the first SETTINGS frame is consumed. -/
@[simp] theorem readied_log : (w.readied bytes n).log = w.log ++
    [.ready, .eventRead .receiving
      ((w.add fun _ => .ready).onCtx fun c => { c with state := .ready }).toState,
      .consumed (bytes.take n)] := by
  simp [readied]

@[simp] theorem readied_ctx : (w.readied bytes n).ctx = { w.ctx with state := .ready } := rfl

@[simp] theorem readied_state : (w.readied bytes n).sock.state = w.sock.state := rfl

/-- After the first SETTINGS frame, any frame is received. -/
@[simp] theorem readied_read : (w.readied bytes n).sock.read =
    w.sock.read.map fun e => { e with cb := .receiving, buf := e.buf.pop n } := by
  simp [readied, Function.comp_def]

@[simp] theorem readied_write : (w.readied bytes n).sock.write = w.sock.write := rfl

@[simp] theorem readied_queue : (w.readied bytes n).sock.queue = w.sock.queue := rfl

@[simp] theorem readied_loop : (w.readied bytes n).loop = w.loop := rfl

@[simp] theorem readied_callback : (w.readied bytes n).callback = w.callback := rfl

/-- A callback that closes the connection completes its operation first. -/
@[simp] theorem dropped_log : (w.dropped op status).log = w.log ++
    [.completed op status w.popped.toState, .streamState .closed
      ((w.popped.calling op status).onCtx fun c => { c with state := .closed }).toState] := by
  simp [dropped]

@[simp] theorem dropped_ctx : (w.dropped op status).ctx =
    { w.ctx with state := .closed, stream.state := .closed } := by
  simp [dropped]

@[simp] theorem dropped_state : (w.dropped op status).sock.state = .closing := by simp [dropped]

@[simp] theorem dropped_read : (w.dropped op status).sock.read = none := by simp [dropped]

@[simp] theorem dropped_isSome : (w.dropped op status).sock.write.isSome = w.sock.write.isSome := by
  simp [dropped]

/-- Nothing is queued on a connection that was dropped. -/
@[simp] theorem dropped_queue : (w.dropped op status).sock.queue = [] := by simp [dropped]

@[simp] theorem dropped_callback : (w.dropped op status).callback = none := by simp [dropped]

end Compound

end World

/-- `event_write` fails no assertion. -/
structure Writable (w : World) : Prop where
  connected : w.sock.state = .connected
  enabled : w.sock.write.isSome
  pool : 0 < w.sock.room → w.loop.writes ≠ []

end Two
