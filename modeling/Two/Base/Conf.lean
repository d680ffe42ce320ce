import Mathlib.Algebra.Order.Ring.Nat
import Mathlib.Algebra.Order.Ring.Int

/-!
# The library configuration

The constants of `two-conf.h`, `event.h`, `http2.h`, `header_list.h`, `frames.c` and
`hpack/structs.h` at their default values.
-/

namespace Two

/-- `HTTP2_HEADER_TABLE_SIZE`, which is also `HPACK_MAX_DYNAMIC_TABLE_SIZE`. -/
def http2HeaderTableSize : ℕ := 4096

/-- `HTTP2_ENABLE_PUSH`. -/
def http2EnablePush : ℕ := 0

/-- `HTTP2_MAX_CONCURRENT_STREAMS`. -/
def http2MaxConcurrentStreams : ℕ := 1

/-- `HTTP2_INITIAL_WINDOW_SIZE`. -/
def http2InitialWindowSize : ℕ := 512

/-- `HTTP2_MAX_FRAME_SIZE`. -/
def http2MaxFrameSize : ℕ := 16384

/-- `HTTP2_MAX_HEADER_LIST_SIZE`, which is also `HEADER_LIST_MAX_SIZE`. -/
def headerListMaxSize : ℕ := 512

/-- `HTTP2_SOCK_READ_SIZE`. -/
def http2SockReadSize : ℕ := 512

/-- `HTTP2_SOCK_WRITE_SIZE`. -/
def http2SockWriteSize : ℕ := 512

/-- `FRAME_MAX_SIZE`: the size of the static buffer in which frames are built. -/
def frameMaxSize : ℕ := http2SockWriteSize

/-- `HTTP2_STREAM_BUF_SIZE`. -/
def http2StreamBufSize : ℕ := 512

/-- `HTTP2_FRAME_HEADER_SIZE`. -/
def http2FrameHeaderSize : ℕ := 9

/-- `EVENT_MAX_SOCKETS`. -/
def eventMaxSockets : ℕ := 3

/-- `EVENT_MAX_EVENTS`. -/
def eventMaxEvents : ℕ := eventMaxSockets * 3

/-- `EVENT_WRITE_QUEUE_SIZE`: the number of write operations shared by all sockets. -/
def eventWriteQueueSize : ℕ := 4 * eventMaxSockets

/-- `HPACK_MAXIMUM_INTEGER`. -/
def hpackMaximumInteger : ℕ := 4096

/-- `HPACK_HEADER_NAME_LEN`: the size of the decoder's name buffer. -/
def hpackHeaderNameLen : ℕ := 32

/-- `HPACK_HEADER_VALUE_LEN`: the size of the decoder's value buffer. -/
def hpackHeaderValueLen : ℕ := 64

/-- `TWO_MAX_PATH_SIZE`. -/
def twoMaxPathSize : ℕ := 32

/-- `TWO_MAX_RESOURCES`. -/
def twoMaxResources : ℕ := 4

end Two
