import Two.Event.Operations

/-!
# The handlers of http2.c

The callbacks and frame handlers of `http2.c`, in the order of the source. A handler returns a
negative number to make `receiving` leave its loop.

## Main definitions

* `http2CloseImmediate`, `http2CloseGracefully`, `http2Error`, `http2StreamError`
* `applySetting`, `updateSettings`: the parameters of a SETTINGS frame
* `sendLength`, `http2ContinueSend`: the next DATA frame of the stream buffer
* `handleEndStream`: decodes the request and sends the response headers
* `handleFrame`, `receiving`: the dispatch on the frame type, and the loop over the read buffer
* `waitingForPreface`, `waitingForSettings`: the handshake
-/

namespace Two

/-- Assigns the state of the current stream. -/
def setStreamState (new : StreamState) : M Unit := do
  record (.streamState new)
  modifyCtx fun c => { c with stream.state := new }

/-- `http2_close_immediate`. -/
def http2CloseImmediate : M Unit := do
  modifyCtx fun c => { c with state := .closed }
  setStreamState .closed
  eventReadStop
  eventClose

/-- `http2_close_gracefully`. -/
def http2CloseGracefully : M ℤ := do
  let c ← getCtx
  if c.state = .closed ∨ c.state = .closing then return -1
  else
    modifyCtx fun c => { c with state := .closing, flags := c.flags.keepGoawaySent }
    let c ← getCtx
    let _ ← sendGoawayFrame Http2Error.noError.code c.lastOpenedStreamId .closeOnWriteError
    return 0

/-- `http2_error`. -/
def http2Error (error : Http2Error) : M Unit := do
  record (.error error)
  modifyCtx fun c => { c with state := .closing, flags := c.flags.keepGoawaySent }
  eventReadStop
  let c ← getCtx
  let _ ← sendGoawayFrame error.code c.lastOpenedStreamId .closeOnGoawaySent

/-- `http2_stream_error`. -/
def http2StreamError (streamId : ℕ) (error : Http2Error) : M Unit := do
  let _ ← sendRstStreamFrame error.code streamId .closeOnWriteError
  record fun _ => .reset streamId
  let c ← getCtx
  -- only the current stream has a state to close
  if streamId = c.stream.id then setStreamState .closed else return ()

/-- An `http2_error` reported by a negative result. -/
def failWith (error : Http2Error) : M ℤ := do
  http2Error error
  return -1

/-- `on_settings_sent`. -/
def onSettingsSent (status : ℤ) : M Unit := do
  if status < 0 then http2CloseImmediate
  else
    modifyCtx fun c => { c with flags.waitingSettingsAck := true }
    let timer ← eventTimerSet
    -- kept in the context, so that the acknowledgment can stop it
    modifyCtx fun c => { c with timer := some timer }

/-- One parameter of `update_settings`. Unknown identifiers are ignored. -/
def applySetting (c : Context) (id value : ℕ) : Except Http2Error Context :=
  match id with
  | 1 => .ok { c with
      settings.headerTableSize := value
      hpackDynamicTable :=
        Hpack.dynamicChangeMaxSize c.hpackDynamicTable (min http2HeaderTableSize value) }
  | 2 =>
    -- SETTINGS_ENABLE_PUSH is a boolean
    if value ≠ 0 ∧ value ≠ 1 then .error .protocolError
    else .ok { c with settings.enablePush := value }
  | 3 => .ok { c with settings.maxConcurrentStreams := value }
  | 4 =>
    if value > 2 ^ 31 - 1 then .error .flowControlError
    else if c.stream.state = .opened ∨ c.stream.state = .halfClosedRemote then
      -- a stream with an active window has it adjusted by the difference
      let diff := int32 (value - c.settings.initialWindowSize)
      let sum := int32 (c.stream.windowSize + diff)
      -- the sum is an `int32_t`, compared after a conversion to unsigned
      if sum > 0 ∧ sum % 2 ^ 32 > 2 ^ 31 - 1 then .error .flowControlError
      else .ok { c with stream.windowSize := sum, settings.initialWindowSize := value }
    else .ok { c with settings.initialWindowSize := value }
  | 5 =>
    if value < 2 ^ 14 ∨ value > 2 ^ 24 - 1 then .error .protocolError
    else .ok { c with settings.maxFrameSize := value }
  | 6 => .ok { c with settings.maxHeaderListSize := value }
  | _ => .ok c

/-- The parameters of a SETTINGS payload. -/
def settingsParameters (data : Bytes) (length : ℕ) : List (ℕ × ℕ) :=
  (List.range ((length + 5) / 6)).map fun i =>
    (bufferGetU16 (data.drop (6 * i)), bufferGetU32 (data.drop (6 * i + 2)))

/-- The loop of `update_settings`: the number of known parameters, or zero after an error. -/
def updateSettingsLoop : List (ℕ × ℕ) → ℕ → M ℕ
  | [], total => return total
  | (id, value) :: parameters, total => do
    let c ← getCtx
    match applySetting c id value with
    | .error error =>
      -- the parameters before the bad one stay applied
      http2Error error
      return 0
    | .ok c =>
      record (.setting id value)
      modifyCtx fun _ => c
      updateSettingsLoop parameters (if 1 ≤ id ∧ id ≤ 6 then total + 1 else total)

/-- `update_settings`. -/
def updateSettings (data : Bytes) (length : ℕ) : M ℕ :=
  updateSettingsLoop (settingsParameters data length) 0

/-- `handle_settings_frame`. -/
def handleSettingsFrame (header : FrameHeader) (payload : Bytes) : M ℤ := do
  if header.streamId ≠ 0 then failWith .protocolError
  else if !header.has frameFlagsAck then
    if header.length % 6 ≠ 0 then failWith .frameSizeError
    else
      let total ← updateSettings payload header.length
      -- only a frame with a known parameter is acknowledged
      if total > 0 then
        let _ ← sendSettingsFrame true [] .closeOnWriteError
        return 0
      else return 0
  else if header.length ≠ 0 then failWith .frameSizeError
  else
    let c ← getCtx
    -- an acknowledgment that nobody waits for is ignored
    if !c.flags.waitingSettingsAck then return 0
    else
      modifyCtx fun c => { c with flags.waitingSettingsAck := false }
      eventTimerStop c.timer
      modifyCtx fun c => { c with timer := none }
      return 0

/-- `handle_goaway_frame`. -/
def handleGoawayFrame (header : FrameHeader) (payload : Bytes) : M ℤ := do
  if header.streamId ≠ 0 then failWith .protocolError
  else if header.length < 8 then failWith .frameSizeError
  else
    let lastStreamId := bufferGetU31 payload
    let c ← getCtx
    if c.flags.goawaySent then
      -- both sides have announced the end
      http2CloseImmediate
      return 0
    else if c.flags.goawayRecv then return 0
    else
      modifyCtx fun c => { c with flags.goawayRecv := true }
      -- the peer has not seen the current stream
      (if c.stream.id > lastStreamId then setStreamState .closed else return ())
      modifyCtx fun c => { c with state := .closing }
      eventRead .receiving
      let _ ← sendGoawayFrame Http2Error.noError.code c.lastOpenedStreamId .closeOnGoawaySent
      return 0

/-- `handle_ping_frame`. -/
def handlePingFrame (header : FrameHeader) (payload : Bytes) : M ℤ := do
  if header.streamId ≠ 0 then failWith .protocolError
  else if header.length ≠ 8 then failWith .frameSizeError
  -- the server sends no PING that could be acknowledged
  else if header.has frameFlagsAck then return 0
  else
    let _ ← sendPingFrame payload true .closeOnWriteError
    return 0

/-- The number of bytes of the stream buffer that flow control allows to send, as
`http2_continue_send` computes it before it limits it to the write buffer. -/
def sendLength (c : Context) : ℤ := min (c.stream.buflen : ℤ) (min c.windowSize c.stream.windowSize)

/-- The context after `len` bytes of the stream buffer were sent. -/
def Context.advance (c : Context) (len : ℕ) : Context :=
  { c with
    stream.bufptr := c.stream.bufptr + len
    stream.buflen := c.stream.buflen - len
    stream.windowSize := c.stream.windowSize - len
    windowSize := c.windowSize - len }

/-- `http2_continue_send`. -/
def http2ContinueSend : M Unit := do
  let c ← getCtx
  if sendLength c ≤ 0 then return ()
  else
    let len := min (sendLength c).toNat http2SockWriteSize
    let _ ← sendDataFrame (slice c.stream.buf c.stream.bufptr len) c.stream.id
      (c.stream.buflen - len = 0) .onStreamSendComplete
    modifyCtx fun c => c.advance len

/-- `on_stream_send_complete`. -/
def onStreamSendComplete (status : ℤ) : M Unit := do
  if status < 0 then http2CloseImmediate
  else
    let c ← getCtx
    -- the stream is done, or the rest of its data goes on
    if c.stream.buflen = 0 then setStreamState .closed else http2ContinueSend

/-- Whether an increment overflows a window: the sum is an unsigned 32-bit number. -/
def overflows (windowSize : ℤ) (increment : ℕ) : Prop := (windowSize + increment) % 2 ^ 32 > 2 ^ 31 - 1

instance (windowSize : ℤ) (increment : ℕ) : Decidable (overflows windowSize increment) :=
  inferInstanceAs (Decidable (_ > _))

/-- `handle_window_update_frame`. -/
def handleWindowUpdateFrame (header : FrameHeader) (payload : Bytes) : M ℤ := do
  let c ← getCtx
  if header.length ≠ 4 then failWith .frameSizeError
  else if header.streamId > c.lastOpenedStreamId then failWith .protocolError
  else if header.streamId ≠ 0 ∧ header.streamId = c.stream.id ∧ c.stream.state = .closed then
    failWith .streamClosedError
  else
    let increment := bufferGetU31 payload
    if increment = 0 then failWith .protocolError
    else if header.streamId = 0 then
      if overflows c.windowSize increment then failWith .flowControlError
      else
        record (.increment header.streamId increment)
        modifyCtx fun c => { c with windowSize := int32 (c.windowSize + increment) }
        return 0
    -- the window is that of the current stream, whatever stream the frame names
    else if overflows c.stream.windowSize increment then
      http2StreamError c.stream.id .flowControlError
      return -1
    else
      record (.increment header.streamId increment)
      modifyCtx fun c => { c with stream.windowSize := int32 (c.stream.windowSize + increment) }
      http2ContinueSend
      return 0

/-- The registered resources, and what stands behind the decoder's string buffers in the decoding
of each request, by the number of requests handled before it. -/
structure Server where
  resources : Resources
  behind : ℕ → Hpack.Behind

/-- A server without resources; zeros stand behind its buffers. -/
def Server.empty : Server := ⟨[], fun _ => Hpack.zeroBehind⟩

section Requests

variable (server : Server)

/-- The response to a decoded request, written to the stream buffer. -/
def respond (headers : HeaderList) (c : Context) (calls : ℕ) : HttpResponse :=
  httpHandleRequest server.resources calls ((headers.get (ascii ":method")).getD [])
    ((headers.get (ascii ":path")).getD []) c.stream.buf http2StreamBufSize

/-- The part of `handle_end_stream` from the call of `http_handle_request` on. -/
def handleRequest (headers : HeaderList) : M ℤ := do
  let w ← get
  let res := respond server headers w.ctx w.loop.calls
  set { w with
    loop.calls := w.loop.calls + 1
    ctx.stream.buf := res.content
    ctx.stream.buflen := res.contentLength
    log := w.log ++ [Entry.request w.ctx.stream.id headers res.body] }
  -- the content lies in the stream buffer, which held the header block before
  let hlen ← sendHeadersFrame (responseHeaders res) w.ctx.stream.id (res.contentLength = 0)
    .onStreamSendComplete
  if hlen < 0 then failWith .internalError else return 0

/-- `handle_end_stream`. -/
def handleEndStream : M ℤ := do
  let w ← get
  let c := w.ctx
  record (.decode (slice c.stream.buf 0 c.stream.buflen))
  let result := Hpack.decode (server.behind w.loop.calls) c.hpackDynamicTable c.stream.buf
    c.stream.buflen .reset
  modifyCtx fun c => { c with hpackDynamicTable := result.table }
  if result.rc = Hpack.compressionError then failWith .compressionError
  else if result.rc = Hpack.memoryError then failWith .flowControlError
  else if result.rc = Hpack.internalError then failWith .internalError
  else if !validatePseudoheaders result.headers then failWith .protocolError
  else handleRequest server result.headers

/-- The end of `handle_header_block` and of `handle_data_frame`: the request is complete once
neither flag is set. -/
def endStreamIfComplete : M ℤ := do
  let c ← getCtx
  if !c.flags.waitingEndHeaders ∧ !c.flags.waitingEndStream then handleEndStream server
  else return 0

/-- The END_STREAM flag of a frame. -/
def markEndStream (header : FrameHeader) : M Unit := do
  if header.has frameFlagsEndStream then
    modifyCtx fun c => { c with flags.waitingEndStream := false }
    setStreamState .halfClosedRemote
  else return ()

/-- The END_HEADERS flag of a frame. -/
def markEndHeaders (header : FrameHeader) : M Unit := do
  if header.has frameFlagsEndHeaders then
    modifyCtx fun c => { c with flags.waitingEndHeaders := false }
  else return ()

/-- The context after `n` bytes of `data` were copied behind the header block. -/
def Context.appendBlock (c : Context) (data : Bytes) (n : ℕ) : Context :=
  { c with
    stream.buf := c.stream.buf.take c.stream.buflen ++ slice data 0 n ++
      c.stream.buf.drop (c.stream.buflen + n)
    stream.buflen := c.stream.buflen + n }

/-- `handle_header_block`. -/
def handleHeaderBlock (header : FrameHeader) (data : Bytes) (size : ℤ) : M ℤ := do
  let c ← getCtx
  let copylen := min size (http2StreamBufSize - c.stream.buflen)
  if copylen ≤ 0 then failWith .flowControlError
  else
    -- trailers are not kept
    (if !c.flags.waitingTrailers then modifyCtx fun c => c.appendBlock data copylen.toNat
      else return ())
    markEndStream header
    markEndHeaders header
    endStreamIfComplete server

/-- The end of `handle_headers_frame`: the padding and the priority are cut off. -/
def handleHeadersPayload (header : FrameHeader) (payload : Bytes) : M ℤ := do
  let padded := header.has frameFlagsPadded
  if padded ∧ byteAt payload 0 ≥ header.length then failWith .protocolError
  else
    let size : ℤ := if padded then header.length - 1 - byteAt payload 0 else header.length
    let payload := if padded then payload.drop 1 else payload
    if header.has frameFlagsPriority then
      handleHeaderBlock server header (payload.drop 5) (size - 5)
    else handleHeaderBlock server header payload size

/-- The context after a HEADERS frame opened a stream. -/
def Context.openStream (c : Context) (streamId : ℕ) : Context :=
  { c with
    stream.id := streamId
    stream.windowSize := c.settings.initialWindowSize
    stream.buflen := 0
    stream.bufptr := 0
    lastOpenedStreamId := streamId
    flags.waitingEndHeaders := true
    flags.waitingEndStream := true }

/-- `handle_headers_frame`. -/
def handleHeadersFrame (header : FrameHeader) (payload : Bytes) : M ℤ := do
  let c ← getCtx
  -- a connection that closes takes no new streams
  if c.state = .closing then return 0
  else if header.streamId = 0 then failWith .protocolError
  else if header.streamId < c.lastOpenedStreamId ∨ header.streamId % 2 = 0 then
    failWith .protocolError
  else if header.streamId > c.lastOpenedStreamId ∧ c.stream.state ≠ .closed then
    -- there is one stream at a time
    failWith .refusedStream
  else if header.streamId = c.lastOpenedStreamId ∧
      (c.stream.state = .halfClosedRemote ∨ c.stream.state = .closed) then
    failWith .streamClosedError
  else if header.streamId = c.lastOpenedStreamId then
    -- trailers end the stream
    if !header.has frameFlagsEndStream then
      http2StreamError header.streamId .protocolError
      return -1
    else
      modifyCtx fun c => { c with flags.waitingTrailers := true, flags.waitingEndHeaders := true }
      handleHeadersPayload server header payload
  else
    -- a new stream, with a fresh window and an empty buffer
    modifyCtx fun c => c.openStream header.streamId
    setStreamState .opened
    handleHeadersPayload server header payload

/-- `handle_data_frame`. The result of `handle_end_stream` is not looked at. -/
def handleDataFrame (header : FrameHeader) (payload : Bytes) : M ℤ := do
  let c ← getCtx
  if header.streamId = 0 ∨ header.streamId > c.lastOpenedStreamId then failWith .protocolError
  else if header.streamId < c.lastOpenedStreamId then
    http2StreamError header.streamId .streamClosedError
    return -1
  else if c.stream.state ≠ .opened then
    http2StreamError header.streamId .streamClosedError
    return -1
  else if header.has frameFlagsPadded ∧ byteAt payload 0 ≥ header.length then
    failWith .protocolError
  else
    -- the data itself is ignored
    markEndStream header
    let _ ← endStreamIfComplete server
    return 0

/-- `handle_continuation_frame`. -/
def handleContinuationFrame (header : FrameHeader) (payload : Bytes) : M ℤ := do
  let c ← getCtx
  if header.streamId = 0 ∨ (c.stream.state ≠ .opened ∧ c.stream.state ≠ .halfClosedRemote) ∨
      !c.flags.waitingEndHeaders then
    failWith .protocolError
  else handleHeaderBlock server header payload header.length

/-- `handle_rst_stream_frame`. -/
def handleRstStreamFrame (header : FrameHeader) : M ℤ := do
  let c ← getCtx
  if header.streamId = 0 then failWith .protocolError
  else if header.length ≠ 4 then failWith .frameSizeError
  else if header.streamId ≠ c.lastOpenedStreamId then failWith .protocolError
  else
    record fun _ => .reset header.streamId
    setStreamState .closed
    return 0

/-- The dispatch of `receiving` on the type of a frame. -/
def handleFrame (header : FrameHeader) (payload : Bytes) : M ℤ :=
  match header.type with
  | .goaway => handleGoawayFrame header payload
  | .settings => handleSettingsFrame header payload
  | .ping => handlePingFrame header payload
  | .headers => handleHeadersFrame server header payload
  | .continuation => handleContinuationFrame server header payload
  | .windowUpdate => handleWindowUpdateFrame header payload
  | .rstStream => handleRstStreamFrame header
  | .data => handleDataFrame server header payload
  | .pushPromise => do
    -- the error is raised, but the loop goes on
    http2Error .protocolError
    return 0
  | .priority => return 0
  | .unknown _ => return 0

/-- The loop of `receiving` over the bytes that remain; every round consumes nine of them. -/
def receivingLoop : ℕ → ℕ → Bytes → M ℕ
  | 0, bytesRead, _ => return bytesRead
  | fuel + 1, bytesRead, buf => do
    if buf.length < http2FrameHeaderSize then return bytesRead
    else
      let header := frameParseHeader buf
      let payload := buf.drop http2FrameHeaderSize
      -- too large for the protocol, or for the read buffer
      if header.length > http2MaxFrameSize then
        record (.frame header payload)
        http2Error .frameSizeError
        return bytesRead
      else if header.length > http2SockReadSize then
        record (.frame header payload)
        http2Error .flowControlError
        return bytesRead
      -- the rest of the frame is still to come
      else if buf.length < http2FrameHeaderSize + header.length then return bytesRead
      else
        let c ← getCtx
        record (.frame header payload)
        if c.flags.waitingEndHeaders ∧ header.type ≠ .continuation then
          -- a header block is not interrupted
          http2Error .protocolError
          return bytesRead + http2FrameHeaderSize
        else
          let rc ← handleFrame server header payload
          let bytesRead := bytesRead + http2FrameHeaderSize + header.length
          if rc < 0 then return bytesRead
          else receivingLoop fuel bytesRead (payload.drop header.length)

/-- `receiving`; `size` is negative or zero when the socket was closed. -/
def receiving (size : ℤ) (buf : Bytes) : M ℕ := do
  if size ≤ 0 then
    http2CloseImmediate
    return 0
  else receivingLoop server buf.length 0 buf

end Requests

/-- `HTTP2_PREFACE`. -/
def http2Preface : Bytes := ascii "PRI * HTTP/2.0\r\n\r\nSM\r\n\r\n"

/-- The settings that the server announces. -/
def localSettings : List ℕ :=
  [http2HeaderTableSize, http2EnablePush, http2MaxConcurrentStreams, http2InitialWindowSize,
    http2MaxFrameSize, headerListMaxSize]

/-- `waiting_for_preface`. -/
def waitingForPreface (size : ℤ) (buf : Bytes) : M ℕ := do
  if size ≤ 0 then
    http2CloseImmediate
    return 0
  -- the preface may come in pieces
  else if size < 24 then return 0
  else if buf.take 24 ≠ http2Preface then
    http2CloseImmediate
    return 24
  else
    modifyCtx fun c => { c with state := .waitingSettings }
    let _ ← sendSettingsFrame false localSettings .onSettingsSent
    eventRead .waitingForSettings
    return 24

/-- `waiting_for_settings`. -/
def waitingForSettings (size : ℤ) (buf : Bytes) : M ℕ := do
  if size ≤ 0 then
    http2CloseImmediate
    return 0
  else if size < http2FrameHeaderSize then return 0
  else
    let header := frameParseHeader buf
    let payload := buf.drop http2FrameHeaderSize
    let frameSize := http2FrameHeaderSize + header.length
    -- the first frame has to be a SETTINGS frame that is no acknowledgment
    if header.type ≠ .settings ∨ header.flags ≠ 0 then
      record (.frame header payload)
      http2Error .protocolError
      return frameSize
    else if size < frameSize then return 0
    else
      record (.frame header payload)
      let rc ← handleSettingsFrame header payload
      -- after an error whatever was read is dropped
      if rc < 0 then return buf.length
      else
        record fun _ => .ready
        modifyCtx fun c => { c with state := .ready }
        eventRead .receiving
        return frameSize

/-- `close_on_write_error`. -/
def closeOnWriteError (status : ℤ) : M Unit := do
  if status < 0 then http2CloseImmediate else return ()

/-- `close_on_goaway_sent`. -/
def closeOnGoawaySent : M Unit := http2CloseImmediate

/-- `on_settings_timeout`: the result asks for the removal of the timer. -/
def onSettingsTimeout : M ℤ := do
  http2Error .settingsTimeout
  return 1

/-- The call of a write callback. -/
def callWriteCb (cb : WriteCb) (status : ℤ) : M Unit :=
  match cb with
  | .closeOnWriteError => closeOnWriteError status
  | .closeOnGoawaySent => closeOnGoawaySent
  | .onSettingsSent => onSettingsSent status
  | .onStreamSendComplete => onStreamSendComplete status

/-- The call of a read callback. -/
def callReadCb (server : Server) (cb : ReadCb) (size : ℤ) (buf : Bytes) : M ℕ :=
  match cb with
  | .waitingForPreface => waitingForPreface size buf
  | .waitingForSettings => waitingForSettings size buf
  | .receiving => receiving server size buf

end Two
