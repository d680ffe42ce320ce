import Two.Frames
import Two.Base.Conf

/-!
# Sockets, events and pools

The data of `event.h`. A socket's event list is split by the type of its events: at most one read
event, at most one write event, and timers. The pools of the loop hold the identities of the free
`event_t` and `event_write_op_t`.

## Main definitions

* `Fifo`: a bounded byte queue, as `cbuf_t` is used by the event loop
* `EventRead`, `EventWrite`, `WriteOp`, `Sock`, `Pools`
* `Sock.room`: the bytes that the write buffer still takes
-/

namespace Two

/-- A queue of at most `maxlen` bytes that takes no more of them once it has ended. -/
structure Fifo where
  bytes : Bytes
  maxlen : ℕ
  ended : Bool
  deriving DecidableEq, Repr

namespace Fifo

/-- `cbuf_init`. -/
def init (maxlen : ℕ) : Fifo := ⟨[], maxlen, false⟩

/-- The number of bytes the queue still takes. -/
def room (q : Fifo) : ℕ := if q.ended then 0 else q.maxlen - q.bytes.length

/-- `cbuf_push`: the longest beginning of `src` that fits is appended. -/
def push (q : Fifo) (src : Bytes) : Fifo := { q with bytes := q.bytes ++ src.take q.room }

/-- What `cbuf_push` returns. -/
def pushed (q : Fifo) (src : Bytes) : ℕ := min src.length q.room

/-- `cbuf_pop`. -/
def pop (q : Fifo) (len : ℕ) : Fifo := { q with bytes := q.bytes.drop len }

/-- `cbuf_end`. -/
def finish (q : Fifo) : Fifo := { q with ended := true }

end Fifo

/-- The functions of `http2.c` that are passed as `event_read_cb`. -/
inductive ReadCb
  | waitingForPreface
  | waitingForSettings
  | receiving
  deriving DecidableEq, Repr

/-- The functions of `http2.c` that are passed as `event_write_cb`. -/
inductive WriteCb
  | closeOnWriteError
  | closeOnGoawaySent
  | onSettingsSent
  | onStreamSendComplete
  deriving DecidableEq, Repr

/-- `event_read_t`, with the identity of its event. -/
structure EventRead where
  id : ℕ
  buf : Fifo
  cb : ReadCb
  deriving DecidableEq, Repr

/-- `event_write_op_t`. The field `stream` is not in the source: it is the stream of the HEADERS or
DATA frame that was written. -/
structure WriteOp where
  id : ℕ
  bytes : ℕ
  cb : WriteCb
  stream : Option ℕ
  deriving DecidableEq, Repr

/-- `event_write_t`, with the identity of its event. -/
structure EventWrite where
  id : ℕ
  buf : Fifo
  queue : List WriteOp
  deriving DecidableEq, Repr

/-- The states of a socket. -/
inductive SockState
  | closed
  | connected
  | closing
  deriving DecidableEq, Repr

/-- The fields of `event_sock_t` that the code for clients uses. A timer event is given by its
identity; every timer has the callback `on_settings_timeout`. -/
structure Sock where
  state : SockState
  read : Option EventRead
  write : Option EventWrite
  timers : List ℕ
  deriving DecidableEq, Repr

namespace Sock

/-- The queued write operations. -/
def queue (s : Sock) : List WriteOp := (s.write.map EventWrite.queue).getD []

/-- The bytes that the write buffer still takes. -/
def room (s : Sock) : ℕ := (s.write.map fun e => e.buf.room).getD 0

/-- The bytes in the write buffer. -/
def unsent (s : Sock) : Bytes := (s.write.map fun e => e.buf.bytes).getD []

end Sock

/-- The pools of `event_loop_t` that all sockets share, and the number of requests served. -/
structure Pools where
  events : List ℕ
  writes : List ℕ
  calls : ℕ
  deriving DecidableEq, Repr

end Two
