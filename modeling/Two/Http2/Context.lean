import Two.Event.State
import Two.Hpack.Decoder
import Two.Hpack.Encoder
import Two.Http

/-!
# The state of a connection

The context of `http2.h` with the socket it belongs to, the trace of what a connection does, and
the monad in which the handlers of `http2.c` are written: an assertion that fails ends the program
and leaves the state and the trace as they are at that point.

## Main definitions

* `Context`, `Stream`, `Settings`, `Flags`: `http2_context_t`
* `State`: the pools, the socket and the context that a handler works on
* `Entry`: one event of the trace
* `World`, `M`: a state with its trace, and the actions on it
-/

namespace Two

/-- The values of `http2_error_t` that the code uses. -/
inductive Http2Error
  | noError
  | protocolError
  | internalError
  | flowControlError
  | settingsTimeout
  | streamClosedError
  | frameSizeError
  | refusedStream
  | compressionError
  deriving DecidableEq, Repr

/-- The code of an error. -/
def Http2Error.code : Http2Error → ℕ
  | noError => 0x0
  | protocolError => 0x1
  | internalError => 0x2
  | flowControlError => 0x3
  | settingsTimeout => 0x4
  | streamClosedError => 0x5
  | frameSizeError => 0x6
  | refusedStream => 0x7
  | compressionError => 0x9

/-- The states of a stream; `HTTP2_STREAM_CLOSED` and `HTTP2_STREAM_IDLE` are the same value. -/
inductive StreamState
  | closed
  | opened
  | halfClosedLocal
  | halfClosedRemote
  deriving DecidableEq, Repr

/-- `http2_stream_t`; `bufptr` is the offset of the pointer into `buf`. -/
structure Stream where
  id : ℕ
  state : StreamState
  windowSize : ℤ
  buf : Bytes
  buflen : ℕ
  bufptr : ℕ
  deriving DecidableEq, Repr

/-- `http2_settings_t`. -/
structure Settings where
  headerTableSize : ℕ
  enablePush : ℕ
  maxConcurrentStreams : ℕ
  initialWindowSize : ℕ
  maxFrameSize : ℕ
  maxHeaderListSize : ℕ
  deriving DecidableEq, Repr

/-- `default_settings`. -/
def defaultSettings : Settings := ⟨4096, 1, 1, 65535, 16384, 0xFFFFFFFF⟩

/-- The bits of `flags`. -/
structure Flags where
  waitingSettingsAck : Bool
  waitingEndHeaders : Bool
  waitingEndStream : Bool
  goawayRecv : Bool
  goawaySent : Bool
  waitingTrailers : Bool
  deriving DecidableEq, Repr

/-- `HTTP2_FLAGS_NONE`. -/
def Flags.none : Flags := ⟨false, false, false, false, false, false⟩

/-- `flags & HTTP2_FLAGS_GOAWAY_SENT`. -/
def Flags.keepGoawaySent (f : Flags) : Flags := { Flags.none with goawaySent := f.goawaySent }

/-- The states of a connection. -/
inductive ConnState
  | closed
  | waitingPreface
  | waitingSettings
  | ready
  | closing
  deriving DecidableEq, Repr

/-- `http2_context_t`. -/
structure Context where
  settings : Settings
  state : ConnState
  windowSize : ℤ
  stream : Stream
  lastOpenedStreamId : ℕ
  flags : Flags
  hpackDynamicTable : Hpack.DynamicTable
  timer : Option ℕ

/-- A dynamic table in zeroed memory. -/
def zeroedTable : Hpack.DynamicTable where
  maxSize := 0
  first := 0
  next := 0
  actualSize := 0
  nEntries := 0
  settingsMaxTableSize := 0
  buffer := fun _ => 0

/-- The context that `http2_new_client` sets up in zeroed memory. -/
def Context.init : Context where
  settings := defaultSettings
  state := .waitingPreface
  windowSize := defaultSettings.initialWindowSize
  stream := ⟨0, .closed, 0, List.replicate http2StreamBufSize 0, 0, 0⟩
  lastOpenedStreamId := 0
  flags := .none
  hpackDynamicTable := zeroedTable.init http2HeaderTableSize
  timer := none

/-- What a handler works on. The field `callback` is not in the source: while the callback of a
write operation runs it is the operation's `stream`. -/
structure State where
  loop : Pools
  sock : Sock
  ctx : Context
  callback : Option ℕ

/-- One event of the trace of a connection. A state in an entry is the one before the event. -/
inductive Entry
  /-- `receiving` or `waiting_for_settings` acts on a frame; `region` starts at its payload. -/
  | frame (header : FrameHeader) (region : Bytes) (s : State)
  /-- A `send_*` function has built a frame and calls `event_write`. -/
  | send (f : Frame) (s : State)
  /-- `http2_error` is called. -/
  | error (code : Http2Error) (s : State)
  /-- `event_read` is called. -/
  | eventRead (cb : ReadCb) (s : State)
  /-- The state of the current stream is assigned. -/
  | streamState (new : StreamState) (s : State)
  /-- A stream was closed by a received RST_STREAM or by `http2_stream_error`. -/
  | reset (streamId : ℕ)
  /-- `update_settings` has accepted a parameter. -/
  | setting (id value : ℕ) (s : State)
  /-- The increment of a WINDOW_UPDATE frame is added to a window. -/
  | increment (streamId n : ℕ) (s : State)
  /-- `hpack_decode` is called on a header block. -/
  | decode (block : Bytes) (s : State)
  /-- `http_handle_request` has produced a content for the decoded headers of a stream. -/
  | request (streamId : ℕ) (headers : HeaderList) (content : Bytes)
  /-- The callback of a write operation is called. -/
  | completed (op : WriteOp) (status : ℤ) (s : State)
  /-- The state of the connection becomes `HTTP2_READY`. -/
  | ready
  /-- A read callback has consumed bytes of the read buffer. -/
  | consumed (bytes : Bytes)

/-- A state with its trace. -/
structure World extends State where
  log : List Entry

/-- The assertions that can fail, a call through a null pointer, and a loop without end. -/
inductive Assertion
  | notConnected
  | writeNotEnabled
  | noWriteOp
  | noReadEvent
  | noEvent
  | notTimer
  | nullCallback
  | diverges
  deriving DecidableEq, Repr

/-- Actions that may fail an assertion. -/
abbrev M := EStateM Assertion World

/-- Extends the trace. -/
def World.add (w : World) (e : State → Entry) : World := { w with log := w.log ++ [e w.toState] }

/-- Extends the trace. -/
def record (e : State → Entry) : M Unit := modify fun w => w.add e

/-- The context. -/
def getCtx : M Context := do return (← get).ctx

/-- Changes the context. -/
def World.onCtx (w : World) (f : Context → Context) : World := { w with ctx := f w.ctx }

/-- Changes the context. -/
def modifyCtx (f : Context → Context) : M Unit := modify fun w => w.onCtx f

/-- Conversion to `int32_t`. -/
def int32 (x : ℤ) : ℤ := (x + 2 ^ 31) % 2 ^ 32 - 2 ^ 31

end Two
