import Two.Http2.FrameLocal
import Two.Http2.Reassembly
import Two.Event.Connection

/-!
# Frame handlers are confined to their payload

A handler is given a pointer into the read buffer, and looks at offsets and sizes that come from the
header of the frame and, for padding, from the payload itself. Two buffers that agree on the payload
make it do the same, even if the padding in them is different.

## Main definitions

* `IsPadding`, `AgreeOn`: the bytes of padding in a payload, and buffers that agree on the others
* `SameEffect`: two worlds in the same state in which the same bytes were passed to `event_write`
* `blockSize`: the size that `handle_headers_frame` passes to `handle_header_block`

## Main results

* `handleHeadersPayload_eq`: what a HEADERS frame copies into the stream buffer
* `handleFrame_confined`: the handlers are confined to the payload without its padding
-/

namespace Two

open Program

/-- Byte `i` of the payload is padding. The length of the padding stands in the first byte. -/
def IsPadding (header : FrameHeader) (payload : Bytes) (i : ℕ) : Prop :=
  (header.type = .headers ∨ header.type = .data) ∧ header.has frameFlagsPadded = true ∧ 0 < i ∧
    header.length ≤ i + byteAt payload 0

instance (header : FrameHeader) (payload : Bytes) : DecidablePred (IsPadding header payload) :=
  fun _ => inferInstanceAs (Decidable (_ ∧ _ ∧ _ ∧ _))

/-- The buffers agree on the bytes of the payload that are no padding. -/
def AgreeOn (header : FrameHeader) (p p' : Bytes) : Prop :=
  ∀ i < header.length, ¬ IsPadding header p i → p.getD i 0 = p'.getD i 0

instance (header : FrameHeader) (p p' : Bytes) : Decidable (AgreeOn header p p') :=
  inferInstanceAs (Decidable (∀ i < header.length, _ → _))

/-- The state is the same, and the same bytes were passed to `event_write`. -/
structure SameEffect (w w' : World) : Prop where
  state : w'.toState = w.toState
  sent : sentBytes w'.log = sentBytes w.log

theorem SameEffect.refl (w : World) : SameEffect w w := ⟨rfl, rfl⟩

/-- Programs that are the same have the same effect. -/
theorem ends_of_eq {m m' : M ℤ} (h : m = m') (w : World) :
    Program.Ends SameEffect (m w) (m' w) := by
  subst h
  cases m w with
  | ok a w' => exact .ok a (.refl w')
  | error e w' => exact .error e (.refl w')

/-! ## Frames that are sent -/

section Sending

variable {f f' : Frame}

theorem SameEffect.eventWrite (bytes : Bytes) (cb : WriteCb) (stream : Option ℕ) :
    Related SameEffect (eventWrite bytes cb stream) (eventWrite bytes cb stream) := by
  refine .get_bind fun w w' h => ?_
  have hsock : w'.sock = w.sock := congrArg State.sock h.state
  have hloop : w'.loop = w.loop := congrArg State.loop h.state
  rw [hsock, hloop]
  split
  · exact .error _ h
  · cases w.sock.write with
    | none => exact .error _ h
    | some e =>
      dsimp only
      split
      · cases w.loop.writes with
        | nil => exact .error _ ⟨by rw [h.state], h.sent⟩
        | cons op writes => exact .ok _ ⟨by rw [h.state], h.sent⟩
      · exact .ok _ h

/-- Frames with the same bytes are sent. -/
theorem SameEffect.sendFrame (cb : WriteCb) (hbytes : f'.bytes = f.bytes)
    (hstream : f'.stream? = f.stream?) : Related SameEffect (sendFrame f cb) (sendFrame f' cb) := by
  unfold Two.sendFrame
  rw [hbytes, hstream]
  refine .bind (.modify fun w w' h => ⟨h.state, ?_⟩) fun _ => SameEffect.eventWrite _ _ _
  simp only [World.add, sentBytes_append, h.sent]
  simp [sentBytes, sentFrames, hbytes]

end Sending

/-! ## The payload -/

section Payload

variable {header : FrameHeader} {p p' : Bytes}

/-- The size that `handle_headers_frame` passes to `handle_header_block`, negative if the fields of
the payload do not fit. -/
def blockSize (header : FrameHeader) (payload : Bytes) : ℤ :=
  header.length - fieldBytes header - paddingBytes header payload

theorem AgreeOn.byteAt (h : AgreeOn header p p') {i : ℕ} (hi : i < header.length)
    (hpad : ¬ IsPadding header p i) : byteAt p i = byteAt p' i :=
  congrArg UInt8.toNat (h i hi hpad)

/-- Frames of other types have no padding. -/
theorem AgreeOn.byteAt_of_type (h : AgreeOn header p p')
    (ht : ¬ (header.type = .headers ∨ header.type = .data)) :
    ∀ i < header.length, Two.byteAt p i = Two.byteAt p' i :=
  fun _ hi => h.byteAt hi fun hpad => ht hpad.1

/-- The length of the padding is no padding. -/
theorem AgreeOn.byteAt_zero (h : AgreeOn header p p') (hlen : 0 < header.length) :
    Two.byteAt p 0 = Two.byteAt p' 0 :=
  h.byteAt hlen fun hpad => lt_irrefl 0 hpad.2.2.1

theorem slice_congr {k n : ℕ} (h : ∀ i, k ≤ i → i < k + n → p.getD i 0 = p'.getD i 0) :
    slice (p.drop k) 0 n = slice (p'.drop k) 0 n := by
  rw [slice_drop, slice_drop]
  refine List.map_congr_left fun i hi => ?_
  have hi : i < n := List.mem_range.mp hi
  exact h _ (by omega) (by omega)

theorem bufferGetU31_congr (h : ∀ i < 4, byteAt p i = byteAt p' i) :
    bufferGetU31 p = bufferGetU31 p' := by
  rw [bufferGetU31, bufferGetU31, h 0 (by omega), h 1 (by omega), h 2 (by omega), h 3 (by omega)]

theorem settingsParameters_congr {length : ℕ} (hlen : length % 6 = 0)
    (h : ∀ i < length, byteAt p i = byteAt p' i) :
    settingsParameters p length = settingsParameters p' length := by
  refine List.map_congr_left fun i hi => ?_
  have hi : i < (length + 5) / 6 := List.mem_range.mp hi
  have hbyte : ∀ j < 6, byteAt p (6 * i + j) = byteAt p' (6 * i + j) :=
    fun j hj => h _ (by omega)
  simp only [bufferGetU16, bufferGetU32, byteAt_drop, Nat.add_assoc]
  rw [hbyte 0 (by omega), hbyte 1 (by omega), hbyte 2 (by omega), hbyte (2 + 1) (by omega),
    hbyte (2 + 2) (by omega), hbyte (2 + 3) (by omega)]

end Payload

/-! ## The handlers -/

section Handlers

variable {server : Server} {header : FrameHeader} {p p' : Bytes}

theorem handleSettingsFrame_congr (h : ∀ i < header.length, byteAt p i = byteAt p' i) :
    handleSettingsFrame header p = handleSettingsFrame header p' := by
  unfold handleSettingsFrame updateSettings
  by_cases hlen : header.length % 6 = 0
  · rw [settingsParameters_congr hlen h]
  · simp only [if_pos hlen]

theorem handleGoawayFrame_congr (h : ∀ i < header.length, byteAt p i = byteAt p' i) :
    handleGoawayFrame header p = handleGoawayFrame header p' := by
  unfold handleGoawayFrame
  by_cases hlen : header.length < 8
  · simp only [if_pos hlen]
  · rw [bufferGetU31_congr fun i hi => h i (by omega)]

theorem handleWindowUpdateFrame_congr (h : ∀ i < header.length, byteAt p i = byteAt p' i) :
    handleWindowUpdateFrame header p = handleWindowUpdateFrame header p' := by
  unfold handleWindowUpdateFrame
  by_cases hlen : header.length = 4
  · rw [bufferGetU31_congr fun i hi => h i (by omega)]
  · simp only [if_pos hlen]

/-- A PING frame is answered with its payload. -/
theorem handlePingFrame_sameEffect (h : ∀ i < header.length, p.getD i 0 = p'.getD i 0) (w : World) :
    Program.Ends SameEffect (handlePingFrame header p w) (handlePingFrame header p' w) := by
  unfold handlePingFrame
  by_cases hlen : header.length = 8
  · rw [if_neg (not_not.mpr hlen), if_neg (not_not.mpr hlen)]
    have hslice : slice p' 0 8 = slice p 0 8 :=
      @slice_congr p' p 0 8 fun i _ hi => (h i (by omega)).symm
    have hsend : Related SameEffect (do
        let _ ← sendPingFrame p true .closeOnWriteError
        return 0 : M ℤ) (do
        let _ ← sendPingFrame p' true .closeOnWriteError
        return 0) := by
      refine .bind (SameEffect.sendFrame _ ?_ rfl) fun _ => .pure 0
      rw [Frame.bytes, Frame.bytes, Frame.payload, Frame.payload, hslice]
      rfl
    split
    · exact ends_of_eq rfl w
    · split
      · exact ends_of_eq rfl w
      · exact hsend w w (.refl w)
  · rw [if_pos hlen, if_pos hlen]
    exact ends_of_eq rfl w

/-- Of a part of a header block the bytes up to its size are copied. -/
theorem handleHeaderBlock_congr {data data' : Bytes} {size : ℤ}
    (h : ∀ n : ℕ, n ≤ size → slice data 0 n = slice data' 0 n) :
    handleHeaderBlock server header data size = handleHeaderBlock server header data' size := by
  funext w
  rw [handleHeaderBlock, handleHeaderBlock, bind_getCtx, bind_getCtx]
  split
  · rfl
  · rename_i hpos
    have hslice := h (min size (http2StreamBufSize - w.ctx.stream.buflen)).toNat (by omega)
    have hblock : ∀ c : Context,
        c.appendBlock data (min size (http2StreamBufSize - w.ctx.stream.buflen)).toNat =
          c.appendBlock data' (min size (http2StreamBufSize - w.ctx.stream.buflen)).toNat := by
      intro c
      rw [Context.appendBlock, Context.appendBlock, hslice]
    simp only [hblock]

/-- A HEADERS frame passes on what stands between the fields at the beginning of its payload and the
padding at its end. -/
theorem handleHeadersPayload_eq (server : Server) (header : FrameHeader) (p : Bytes) :
    handleHeadersPayload server header p =
      if header.has frameFlagsPadded ∧ byteAt p 0 ≥ header.length then failWith .protocolError
      else handleHeaderBlock server header (p.drop (fieldBytes header)) (blockSize header p) := by
  unfold handleHeadersPayload blockSize fieldBytes paddingBytes
  cases hpad : header.has frameFlagsPadded <;> cases hprio : header.has frameFlagsPriority <;>
    simp only [if_true, if_false, true_and, false_and, Bool.false_eq_true, List.drop_drop]
  · refine congrArg₂ (handleHeaderBlock server header) rfl ?_
    omega
  · refine congrArg₂ (handleHeaderBlock server header) rfl ?_
    omega
  · split
    · rfl
    · refine congrArg₂ (handleHeaderBlock server header) rfl ?_
      omega
  · split
    · rfl
    · refine congrArg₂ (handleHeaderBlock server header) rfl ?_
      omega

theorem handleHeadersPayload_congr (h : AgreeOn header p p') :
    handleHeadersPayload server header p = handleHeadersPayload server header p' := by
  rw [handleHeadersPayload_eq, handleHeadersPayload_eq]
  by_cases hpad : header.has frameFlagsPadded = true
  · rcases Nat.eq_zero_or_pos header.length with hzero | hpos
    · -- the length of the padding is looked up behind an empty payload, but refused whatever it is
      rw [if_pos ⟨hpad, by omega⟩, if_pos ⟨hpad, by omega⟩]
    · have hzero := h.byteAt_zero hpos
      have hsize : blockSize header p = blockSize header p' := by
        rw [blockSize, blockSize, paddingBytes, paddingBytes, hzero]
      rw [hsize, hzero]
      split
      · rfl
      · refine handleHeaderBlock_congr fun n hn => slice_congr fun i hi hin => h i ?_ ?_
        · rw [← hsize, blockSize] at hn
          omega
        · intro hpadding
          have hbound := hpadding.2.2.2
          rw [← hsize, blockSize, paddingBytes, if_pos hpad] at hn
          omega
  · have hsize : ∀ q, blockSize header q = header.length - fieldBytes header := by
      intro q
      rw [blockSize, paddingBytes, if_neg hpad]
      simp
    rw [if_neg fun hbad => hpad hbad.1, if_neg fun hbad => hpad hbad.1, hsize, hsize]
    refine handleHeaderBlock_congr fun n hn => slice_congr fun i hi hin => h i (by omega) ?_
    exact fun hpadding => hpad hpadding.2.1

theorem handleHeadersFrame_congr (h : AgreeOn header p p') :
    handleHeadersFrame server header p = handleHeadersFrame server header p' := by
  unfold handleHeadersFrame
  rw [handleHeadersPayload_congr h]

theorem handleContinuationFrame_congr (h : ∀ i < header.length, p.getD i 0 = p'.getD i 0) :
    handleContinuationFrame server header p = handleContinuationFrame server header p' := by
  unfold handleContinuationFrame
  rw [handleHeaderBlock_congr fun n hn => ?_]
  exact slice_congr (k := 0) fun i _ hi => h i (by omega)

/-- A DATA frame is looked at for the length of its padding. -/
theorem handleDataFrame_congr (h : AgreeOn header p p') :
    handleDataFrame server header p = handleDataFrame server header p' := by
  have hpad : byteAt p 0 ≥ header.length ↔ byteAt p' 0 ≥ header.length := by
    rcases Nat.eq_zero_or_pos header.length with hzero | hpos
    · exact iff_of_true (by omega) (by omega)
    · rw [h.byteAt_zero hpos]
  unfold handleDataFrame
  simp only [hpad]

/-- Buffers that agree on the payload without its padding. -/
theorem handleFrame_sameEffect (h : AgreeOn header p p') (w : World) :
    Program.Ends SameEffect (handleFrame server header p w) (handleFrame server header p' w) := by
  have hother : ¬ (header.type = .headers ∨ header.type = .data) →
      ∀ i < header.length, p.getD i 0 = p'.getD i 0 :=
    fun ht i hi => h i hi fun hpad => ht hpad.1
  unfold handleFrame
  cases ht : header.type with
  | goaway => exact ends_of_eq (handleGoawayFrame_congr (h.byteAt_of_type (by simp [ht]))) w
  | settings =>
    exact ends_of_eq (handleSettingsFrame_congr (h.byteAt_of_type (by simp [ht]))) w
  | ping => exact handlePingFrame_sameEffect (hother (by simp [ht])) w
  | headers => exact ends_of_eq (handleHeadersFrame_congr h) w
  | continuation => exact ends_of_eq (handleContinuationFrame_congr (hother (by simp [ht]))) w
  | windowUpdate =>
    exact ends_of_eq (handleWindowUpdateFrame_congr (h.byteAt_of_type (by simp [ht]))) w
  | data => exact ends_of_eq (handleDataFrame_congr h) w
  | rstStream => exact ends_of_eq rfl w
  | pushPromise => exact ends_of_eq rfl w
  | priority => exact ends_of_eq rfl w
  | unknown => exact ends_of_eq rfl w

/-- Nothing but the bytes up to the size can be copied. -/
theorem handleHeaderBlock_slice (data : Bytes) (size : ℤ) :
    handleHeaderBlock server header data size =
      handleHeaderBlock server header (slice data 0 size.toNat) size := by
  refine handleHeaderBlock_congr fun n hn => ?_
  refine List.map_congr_left fun i hi => ?_
  have hi : i < size.toNat := by
    have := List.mem_range.mp hi
    omega
  simp [slice, hi]

end Handlers

/-- **Frame handlers are confined to their payload.** Whatever the state is, two buffers that agree
on the payload outside of its padding have the same effect, with the same frames and the same
result; and what a HEADERS or CONTINUATION frame adds to the header block is taken from the bytes
between the fields and the padding. -/
theorem handleFrame_confined (server : Server) (header : FrameHeader) :
    (∀ p p', AgreeOn header p p' → ∀ w,
      Program.Ends SameEffect (handleFrame server header p w) (handleFrame server header p' w)) ∧
    (∀ p, handleHeadersPayload server header p =
      if header.has frameFlagsPadded ∧ byteAt p 0 ≥ header.length then failWith .protocolError
      else handleHeaderBlock server header
        (slice p (fieldBytes header) (header.length - fieldBytes header - paddingBytes header p))
        (blockSize header p)) ∧
    ∀ p, handleContinuationFrame server header p =
      handleContinuationFrame server header (slice p 0 header.length) := by
  refine ⟨fun p p' h w => handleFrame_sameEffect h w, fun p => ?_, fun p => ?_⟩
  · have hsize : (blockSize header p).toNat =
        header.length - fieldBytes header - paddingBytes header p := by
      rw [blockSize]
      omega
    rw [handleHeadersPayload_eq, handleHeaderBlock_slice, slice_drop, hsize, Nat.add_zero]
  · unfold handleContinuationFrame
    rw [handleHeaderBlock_slice, Int.toNat_natCast]

/-- The padding and the bytes behind a HEADERS frame are different. -/
theorem handleFrame_confined_padded :
    Program.Ends SameEffect
      (handleFrame .empty ⟨6, .headers, 0xd, 1⟩ [2, 0x82, 0x86, 0x84, 0, 0]
        (Connection.init ⟨[], [], 0⟩ 1 2).world)
      (handleFrame .empty ⟨6, .headers, 0xd, 1⟩ [2, 0x82, 0x86, 0x84, 7, 8, 9]
        (Connection.init ⟨[], [], 0⟩ 1 2).world) :=
  (handleFrame_confined .empty ⟨6, .headers, 0xd, 1⟩).1 _ _ (by decide) _

end Two
