import Two.Http2.Context

/-!
# Event operations

The operations of `event.c` that `http2.c` calls on its socket, and the `send_*` functions of
`frames.c` on top of `event_write`.

## Main definitions

* `eventRead`, `eventReadStop`, `eventClose`, `eventTimerSet`, `eventTimerStop`
* `eventWrite`: queues the bytes that fit, and an operation for them
* `sendPingFrame`, `sendGoawayFrame`, `sendSettingsFrame`, `sendHeadersFrame`, `sendRstStreamFrame`,
  `sendDataFrame`
-/

namespace Two

/-- The effect of `event_read_stop`: the read event goes back to the pool. -/
def World.readStop (w : World) : World :=
  match w.sock.read with
  | none => w
  | some e => { w with sock.read := none, loop.events := e.id :: w.loop.events }

/-- `event_read_stop`. -/
def eventReadStop : M Unit := modify World.readStop

/-- `event_read`. -/
def eventRead (cb : ReadCb) : M Unit := do
  record (.eventRead cb)
  let w ← get
  if w.sock.state ≠ .connected then throw .notConnected
  else
    match w.sock.read with
    | none => throw .noReadEvent
    -- only the callback changes: the bytes in the buffer are kept
    | some e => set { w with sock.read := some { e with cb := cb } }

/-- The effect of `event_close`. -/
def World.close (w : World) : World :=
  { w with
    sock.state := .closing
    sock.write := w.sock.write.map fun e => { e with buf := e.buf.finish } }

/-- `event_close`. -/
def eventClose : M Unit := modify World.close

/-- `event_timer_set`. -/
def eventTimerSet : M ℕ := do
  let w ← get
  match w.loop.events with
  | [] => throw .noEvent
  | id :: events =>
    set { w with loop.events := events, sock.timers := id :: w.sock.timers }
    return id

/-- `event_timer_stop`. -/
def eventTimerStop : Option ℕ → M Unit
  | none => return ()
  | some id => do
    let w ← get
    -- the event must be a timer
    if (w.sock.read.map EventRead.id) = some id ∨ (w.sock.write.map EventWrite.id) = some id then
      throw .notTimer
    else
      set { w with sock.timers := w.sock.timers.erase id, loop.events := id :: w.loop.events }

/-- `event_write`. The argument `stream` only marks the operation. -/
def eventWrite (bytes : Bytes) (cb : WriteCb) (stream : Option ℕ) : M ℕ := do
  let w ← get
  if w.sock.state ≠ .connected then throw .notConnected
  else
    match w.sock.write with
    | none => throw .writeNotEnabled
    | some e =>
      -- what does not fit into the buffer is dropped
      let toWrite := e.buf.pushed bytes
      let e := { e with buf := e.buf.push bytes }
      -- an operation is queued only for bytes
      if toWrite > 0 then
        match w.loop.writes with
        | [] =>
          -- the bytes are in the buffer already when the pool is found empty
          set { w with sock.write := some e }
          throw .noWriteOp
        | op :: writes =>
          let e := { e with queue := e.queue ++ [⟨op, toWrite, cb, stream⟩] }
          set { w with sock.write := some e, loop.writes := writes }
          return toWrite
      else return toWrite

/-- The end of every `send_*` function. -/
def sendFrame (f : Frame) (cb : WriteCb) : M ℕ := do
  record (.send f)
  eventWrite f.bytes cb f.stream?

/-- `send_ping_frame`. -/
def sendPingFrame (opaqueData : Bytes) (ack : Bool) (cb : WriteCb) : M ℕ :=
  sendFrame (.ping opaqueData ack) cb

/-- `send_goaway_frame`. -/
def sendGoawayFrame (errorCode lastOpenStreamId : ℕ) (cb : WriteCb) : M ℕ :=
  sendFrame (.goaway errorCode lastOpenStreamId) cb

/-- `send_settings_frame`. -/
def sendSettingsFrame (ack : Bool) (settingsValues : List ℕ) (cb : WriteCb) : M ℕ :=
  sendFrame (if ack then .settingsAck else .settings settingsValues) cb

/-- `send_rst_stream_frame`. -/
def sendRstStreamFrame (errorCode streamId : ℕ) (cb : WriteCb) : M ℕ :=
  sendFrame (.rstStream errorCode streamId) cb

/-- `send_data_frame`. -/
def sendDataFrame (data : Bytes) (streamId : ℕ) (endStream : Bool) (cb : WriteCb) : M ℕ :=
  sendFrame (.data streamId endStream data) cb

/-- `send_headers_frame`. -/
def sendHeadersFrame (headersList : HeaderList) (streamId : ℕ) (endStream : Bool) (cb : WriteCb) :
    M ℤ := do
  let c ← getCtx
  match Hpack.encode c.hpackDynamicTable headersList .empty (frameMaxSize - 9) with
  | none => throw .diverges
  | some (encodedSize, table, buffer) =>
    modifyCtx fun c => { c with hpackDynamicTable := table }
    -- the entries that were added stay, also when the block does not fit
    if encodedSize < 0 then return encodedSize
    else
      let queued ← sendFrame (.headers streamId endStream (buffer.bytes encodedSize.toNat)) cb
      return queued

end Two
