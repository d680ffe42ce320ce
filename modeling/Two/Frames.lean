import Two.Base.Bytes
import Mathlib.Algebra.Order.Ring.Nat
import Mathlib.Algebra.Order.Ring.Int

/-!
# Frames

The frame header of `frames.c`, the big-endian accessors of `buffer.c` it is read and written
with, and the frames the server sends.

## Main definitions

* `slice`: the bytes of a memory region from an offset on
* `FrameType`, `FrameHeader`, `frameParseHeader`, `frameHeaderToBytes`
* `Frame`, `Frame.bytes`: the frames of the `send_*` functions, and the bytes they build

## Main results

* `Frame.length_bytes`: a frame is its 9-byte header and its payload
-/

namespace Two

/-- The `len` bytes at offset `pos` of a region; memory past the region reads as zero. -/
def slice (m : Bytes) (pos len : ℕ) : Bytes :=
  (List.range len).map fun i => m.getD (pos + i) 0

@[simp] theorem length_slice (m : Bytes) (pos len : ℕ) : (slice m pos len).length = len := by
  simp [slice]

@[simp] theorem slice_zero (m : Bytes) (pos : ℕ) : slice m pos 0 = [] := rfl

theorem slice_add (m : Bytes) (pos n k : ℕ) :
    slice m pos (n + k) = slice m pos n ++ slice m (pos + n) k := by
  simp [slice, List.range_add, Nat.add_assoc, Function.comp_def]

theorem slice_drop (m : Bytes) (k pos len : ℕ) : slice (m.drop k) pos len = slice m (k + pos) len := by
  simp [slice, Nat.add_assoc]

theorem slice_take {m : Bytes} {pos len n : ℕ} (h : pos + len ≤ n) :
    slice (m.take n) pos len = slice m pos len := by
  refine List.map_congr_left fun i hi => ?_
  have hi : i < len := List.mem_range.mp hi
  rw [List.getD_eq_getElem?_getD, List.getD_eq_getElem?_getD, List.getElem?_take_of_lt (by omega)]

/-- Byte `i` of a region. -/
def byteAt (m : Bytes) (i : ℕ) : ℕ := (m.getD i 0).toNat

theorem byteAt_take {m : Bytes} {n i : ℕ} (h : i < n) : byteAt (m.take n) i = byteAt m i := by
  rw [byteAt, byteAt, List.getD_eq_getElem?_getD, List.getD_eq_getElem?_getD,
    List.getElem?_take_of_lt h]

theorem byteAt_drop (m : Bytes) (k i : ℕ) : byteAt (m.drop k) i = byteAt m (k + i) := by
  rw [byteAt, byteAt, List.getD_eq_getElem?_getD, List.getD_eq_getElem?_getD, List.getElem?_drop]

/-- `buffer_get_u32`. -/
def bufferGetU32 (m : Bytes) : ℕ :=
  ((byteAt m 0 * 256 + byteAt m 1) * 256 + byteAt m 2) * 256 + byteAt m 3

/-- `buffer_get_u31`. -/
def bufferGetU31 (m : Bytes) : ℕ :=
  ((byteAt m 0 % 128 * 256 + byteAt m 1) * 256 + byteAt m 2) * 256 + byteAt m 3

/-- `buffer_get_u24`. -/
def bufferGetU24 (m : Bytes) : ℕ := (byteAt m 0 * 256 + byteAt m 1) * 256 + byteAt m 2

/-- `buffer_get_u16`. -/
def bufferGetU16 (m : Bytes) : ℕ := byteAt m 0 * 256 + byteAt m 1

/-- `buffer_put_u32`. -/
def bufferPutU32 (x : ℕ) : Bytes :=
  [.ofNat (x / 2 ^ 24), .ofNat (x / 2 ^ 16), .ofNat (x / 2 ^ 8), .ofNat x]

/-- `buffer_put_u31`. -/
def bufferPutU31 (x : ℕ) : Bytes :=
  [.ofNat (x / 2 ^ 24 % 128), .ofNat (x / 2 ^ 16), .ofNat (x / 2 ^ 8), .ofNat x]

/-- `buffer_put_u24`. -/
def bufferPutU24 (x : ℕ) : Bytes := [.ofNat (x / 2 ^ 16), .ofNat (x / 2 ^ 8), .ofNat x]

/-- `buffer_put_u16`. -/
def bufferPutU16 (x : ℕ) : Bytes := [.ofNat (x / 2 ^ 8), .ofNat x]

/-- The type of a frame; `receiving` ignores the types it does not know. -/
inductive FrameType
  | data
  | headers
  | priority
  | rstStream
  | settings
  | pushPromise
  | ping
  | goaway
  | windowUpdate
  | continuation
  | unknown (code : UInt8)
  deriving DecidableEq, Repr

namespace FrameType

/-- The code of a type on the wire. -/
def toByte : FrameType → UInt8
  | data => 0
  | headers => 1
  | priority => 2
  | rstStream => 3
  | settings => 4
  | pushPromise => 5
  | ping => 6
  | goaway => 7
  | windowUpdate => 8
  | continuation => 9
  | unknown code => code

/-- The type with a given code. -/
def ofByte (b : UInt8) : FrameType :=
  [data, headers, priority, rstStream, settings, pushPromise, ping, goaway, windowUpdate,
    continuation].getD b.toNat (unknown b)

end FrameType

/-- `FRAME_FLAGS_ACK`. -/
def frameFlagsAck : UInt8 := 0x1

/-- `FRAME_FLAGS_END_STREAM`, the same bit as `FRAME_FLAGS_ACK`. -/
def frameFlagsEndStream : UInt8 := 0x1

/-- `FRAME_FLAGS_END_HEADERS`. -/
def frameFlagsEndHeaders : UInt8 := 0x4

/-- `FRAME_FLAGS_PADDED`. -/
def frameFlagsPadded : UInt8 := 0x8

/-- `FRAME_FLAGS_PRIORITY`. -/
def frameFlagsPriority : UInt8 := 0x20

/-- `frame_header_t`; the reserved bit is never read. -/
structure FrameHeader where
  length : ℕ
  type : FrameType
  flags : UInt8
  streamId : ℕ
  deriving DecidableEq, Repr

/-- Whether a header carries a flag. -/
def FrameHeader.has (h : FrameHeader) (flag : UInt8) : Bool := h.flags &&& flag != 0

/-- `frame_parse_header`. -/
def frameParseHeader (data : Bytes) : FrameHeader where
  length := bufferGetU24 data
  type := .ofByte (data.getD 3 0)
  flags := data.getD 4 0
  streamId := bufferGetU31 (data.drop 5)

/-- A header is parsed from its nine bytes. -/
theorem frameParseHeader_take {m : Bytes} {n : ℕ} (h : 9 ≤ n) :
    frameParseHeader (m.take n) = frameParseHeader m := by
  have hb : ∀ i < 9, (m.take n).getD i 0 = m.getD i 0 := by
    intro i hi
    rw [List.getD_eq_getElem?_getD, List.getD_eq_getElem?_getD, List.getElem?_take_of_lt (by omega)]
  simp only [frameParseHeader, bufferGetU24, bufferGetU31, byteAt_drop]
  simp only [byteAt, hb, Nat.reduceLT, Nat.reduceAdd]

/-- Byte 5 of a header on the wire has the reserved bit set. -/
def setReserved : Bytes → Bytes
  | [] => []
  | b :: bs => (b ||| 0x80) :: bs

/-- `frame_header_to_bytes`. -/
def frameHeaderToBytes (h : FrameHeader) : Bytes :=
  bufferPutU24 h.length ++ [h.type.toByte, h.flags] ++ setReserved (bufferPutU31 h.streamId)

@[simp] theorem length_frameHeaderToBytes (h : FrameHeader) :
    (frameHeaderToBytes h).length = 9 := rfl

/-- The frames that the `send_*` functions called by `http2.c` build. -/
inductive Frame
  | ping (opaqueData : Bytes) (ack : Bool)
  | goaway (errorCode lastOpenStreamId : ℕ)
  | settings (settingsValues : List ℕ)
  | settingsAck
  | headers (streamId : ℕ) (endStream : Bool) (block : Bytes)
  | rstStream (errorCode streamId : ℕ)
  | data (streamId : ℕ) (endStream : Bool) (payload : Bytes)
  deriving DecidableEq, Repr

namespace Frame

/-- The payload that follows the header of a frame. -/
def payload : Frame → Bytes
  | ping opaqueData _ => slice opaqueData 0 8
  | goaway errorCode last => bufferPutU31 last ++ bufferPutU32 errorCode
  | settings values =>
    (List.range 6).flatMap fun i => bufferPutU16 (i + 1) ++ bufferPutU32 (values.getD i 0)
  | settingsAck => []
  | headers _ _ block => block
  | rstStream errorCode _ => bufferPutU32 errorCode
  | data _ _ payload => payload

/-- The header that a `send_*` function fills in. -/
def header (f : Frame) : FrameHeader :=
  let flag := fun (b : Bool) (x : UInt8) => if b then x else 0
  match f with
  | ping _ ack => ⟨8, .ping, flag ack frameFlagsAck, 0⟩
  | goaway _ _ => ⟨8, .goaway, 0, 0⟩
  | settings _ => ⟨36, .settings, 0, 0⟩
  | settingsAck => ⟨0, .settings, frameFlagsAck, 0⟩
  | headers id endStream block =>
    ⟨block.length, .headers, frameFlagsEndHeaders ||| flag endStream frameFlagsEndStream, id⟩
  | rstStream _ id => ⟨4, .rstStream, 0, id⟩
  | data id endStream payload => ⟨payload.length, .data, flag endStream frameFlagsEndStream, id⟩

/-- The bytes built in `frame_bytes`. -/
def bytes (f : Frame) : Bytes := frameHeaderToBytes f.header ++ f.payload

/-- The stream a HEADERS or DATA frame belongs to. -/
def stream? : Frame → Option ℕ
  | headers id _ _ => some id
  | data id _ _ => some id
  | _ => none

theorem length_payload (f : Frame) : f.payload.length = f.header.length := by
  cases f <;> rfl

/-- A frame is its 9-byte header and its payload. -/
theorem length_bytes (f : Frame) : f.bytes.length = 9 + f.header.length := by
  simp [bytes, length_payload]

end Frame

end Two
