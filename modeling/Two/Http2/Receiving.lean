import Two.Http2.Streams

/-!
# Frame by frame

What `receiving` does with the read buffer, one round of its loop at a time, and when a read callback
that finds the read buffer full neither consumes a byte nor ends the connection.

## Main definitions

* `receiveFrame`: what `receiving` does with one whole frame
* `takeFrame`: what it does with any frame, after the checks of its length
* `receiveFrames`: the same for a list of frames, up to the first negative result
* `Progress`: a read callback consumes a byte, closes the connection or raises an error
* `Stuck`: the buffers in which no read callback makes progress

## Main results

* `receivingLoop_whole`, `receivingLoop_incomplete`, `receivingLoop_large`: one round of the loop
* `receivingLoop_takeFrame`: the loop takes one frame after the other
* `progress_iff`: a full read buffer makes progress exactly where it is not stuck
-/

namespace Two

open Program Trace

section Run

variable {α : Type} (w : World)

theorem bind_getCtx (f : Context → M α) : (getCtx >>= f) w = f w.ctx w := rfl

theorem bind_record (e : State → Entry) (f : Unit → M α) :
    (record e >>= f) w = f () (w.add e) := rfl

end Run

section Loop

variable (server : Server)

/-- What `receiving` does with one whole frame; `region` starts at its payload. -/
def receiveFrame (h : FrameHeader) (region : Bytes) : M ℤ := do
  let c ← getCtx
  record (.frame h region)
  if c.flags.waitingEndHeaders ∧ h.type ≠ .continuation then failWith .protocolError
  else handleFrame server h region

/-- The error for a frame that is too large. -/
def sizeError (length : ℕ) : Http2Error :=
  if length > http2MaxFrameSize then .frameSizeError else .flowControlError

/-- A frame fits in the read buffer with its header. -/
def FrameHeader.Fits (h : FrameHeader) : Prop :=
  http2FrameHeaderSize + h.length ≤ http2SockReadSize

instance (h : FrameHeader) : Decidable h.Fits := inferInstanceAs (Decidable (_ ≤ _))

/-- What `receiving` does with a frame, once as much of it has come as the read buffer has room
for. -/
def takeFrame (h : FrameHeader) (region : Bytes) : M ℤ :=
  if h.length > http2SockReadSize then do
    record (.frame h region)
    failWith (sizeError h.length)
  -- with its header the frame is never there as a whole: it is waited for
  else if ¬ h.Fits then return -1
  else receiveFrame server h region

/-- Frames, up to the first one with a negative result. -/
def receiveFrames : List (FrameHeader × Bytes) → M ℤ
  | [] => return 0
  | f :: frames => do
    let rc ← takeFrame server f.1 f.2
    if rc < 0 then return rc else receiveFrames frames

variable {server} {buf : Bytes} {fuel n : ℕ} {w : World}

/-- A frame that fits in the read buffer passes the checks of its length. -/
theorem fits_of_le {length : ℕ} (h : length ≤ 512) :
    ¬ length > http2MaxFrameSize ∧ ¬ length > http2SockReadSize := by
  have hmax : http2MaxFrameSize = 16384 := rfl
  have hsock : http2SockReadSize = 512 := rfl
  omega

/-- A buffer too short for a frame header is left alone. -/
theorem receivingLoop_short (h : buf.length < 9) : receivingLoop server fuel n buf w = .ok n w := by
  cases fuel with
  | zero => rfl
  | succ fuel =>
    have h : buf.length < http2FrameHeaderSize := h
    rw [receivingLoop, if_pos h]
    rfl

/-- A frame that is not there as a whole, but fits in the read buffer, is left alone. -/
theorem receivingLoop_incomplete (hlen : (frameParseHeader buf).length ≤ 512)
    (h : buf.length < 9 + (frameParseHeader buf).length) :
    receivingLoop server fuel n buf w = .ok n w := by
  by_cases hshort : buf.length < http2FrameHeaderSize
  · exact receivingLoop_short hshort
  · cases fuel with
    | zero => rfl
    | succ fuel =>
      obtain ⟨hmax, hsock⟩ := fits_of_le hlen
      have h : buf.length < http2FrameHeaderSize + (frameParseHeader buf).length := h
      rw [receivingLoop, if_neg hshort]
      dsimp only
      rw [if_neg hmax, if_neg hsock, if_pos h]
      rfl

/-- A frame that is too large is an error. -/
theorem receivingLoop_large (hshort : 9 ≤ buf.length) (h : 512 < (frameParseHeader buf).length) :
    receivingLoop server (fuel + 1) n buf w =
      (do
        record (.frame (frameParseHeader buf) (buf.drop 9))
        http2Error (sizeError (frameParseHeader buf).length)
        return n) w := by
  have hshort : ¬ buf.length < http2FrameHeaderSize := not_lt.mpr hshort
  rw [receivingLoop, if_neg hshort, sizeError]
  dsimp only
  split
  · rfl
  · rw [if_pos (show (frameParseHeader buf).length > http2SockReadSize from h)]
    rfl

/-- The bytes that a frame takes from the read buffer: only the header, where a CONTINUATION frame
was expected. -/
def frameTaken (c : Context) (h : FrameHeader) : ℕ :=
  if c.flags.waitingEndHeaders ∧ h.type ≠ .continuation then 9 else 9 + h.length

/-- A whole frame is received, and the loop goes on behind it unless the result is negative. -/
theorem receivingLoop_whole (hlen : (frameParseHeader buf).length ≤ 512)
    (h : 9 + (frameParseHeader buf).length ≤ buf.length) :
    receivingLoop server (fuel + 1) n buf w =
      (do
        let rc ← receiveFrame server (frameParseHeader buf) (buf.drop 9)
        if rc < 0 then return n + frameTaken w.ctx (frameParseHeader buf)
        else
          receivingLoop server fuel (n + 9 + (frameParseHeader buf).length)
            (buf.drop (9 + (frameParseHeader buf).length))) w := by
  obtain ⟨hmax, hsock⟩ := fits_of_le hlen
  have hshort : ¬ buf.length < http2FrameHeaderSize := by
    have : http2FrameHeaderSize = 9 := rfl
    omega
  have hwhole : ¬ buf.length < http2FrameHeaderSize + (frameParseHeader buf).length := not_lt.mpr h
  have hdrop : (buf.drop http2FrameHeaderSize).drop (frameParseHeader buf).length =
      buf.drop (9 + (frameParseHeader buf).length) := by
    rw [List.drop_drop]
    rfl
  rw [receivingLoop, if_neg hshort]
  dsimp only
  rw [if_neg hmax, if_neg hsock, if_neg hwhole, hdrop]
  simp only [receiveFrame, frameTaken, bind_assoc, bind_getCtx, bind_record]
  -- a frame that breaks a header block is refused before its payload is read
  split
  · simp only [failWith, bind_assoc, pure_bind]
    rfl
  · rw [← Nat.add_assoc]
    rfl

/-- A frame that fits in the read buffer. -/
theorem takeFrame_of_fits {h : FrameHeader} (hfits : h.Fits) :
    takeFrame server h = receiveFrame server h := by
  have hlen : ¬ h.length > http2SockReadSize := by
    unfold FrameHeader.Fits at hfits
    omega
  funext region
  rw [takeFrame, if_neg hlen, if_neg (not_not.mpr hfits)]

/-- A frame that does not fit is waited for, or is an error. -/
theorem takeFrame_unfit {h : FrameHeader} (hfits : ¬ h.Fits) (region : Bytes) (w : World) :
    takeFrame server h region w =
      if h.length > http2SockReadSize then
        failWith (sizeError h.length) (w.add (.frame h region))
      else .ok (-1) w := by
  rw [takeFrame, if_pos hfits]
  split
  · rw [bind_record]
  · rfl

/-- The loop of `receiving` takes one frame after the other. -/
theorem receivingLoop_takeFrame (hshort : 9 ≤ buf.length) (hbuf : buf.length ≤ http2SockReadSize)
    (hwhole : (frameParseHeader buf).Fits → 9 + (frameParseHeader buf).length ≤ buf.length) :
    receivingLoop server (fuel + 1) n buf w =
      (do
        let rc ← takeFrame server (frameParseHeader buf) (buf.drop 9)
        if rc < 0 then
          return if (frameParseHeader buf).Fits then n + frameTaken w.ctx (frameParseHeader buf)
            else n
        else
          receivingLoop server fuel (n + 9 + (frameParseHeader buf).length)
            (buf.drop (9 + (frameParseHeader buf).length))) w := by
  have hsock : http2SockReadSize = 512 := rfl
  have hheader : http2FrameHeaderSize = 9 := rfl
  by_cases hfits : (frameParseHeader buf).Fits
  · have hlen : (frameParseHeader buf).length ≤ 512 := by
      unfold FrameHeader.Fits at hfits
      omega
    rw [receivingLoop_whole hlen (hwhole hfits), takeFrame_of_fits hfits, if_pos hfits]
  · by_cases hlen : (frameParseHeader buf).length ≤ 512
    -- not there as a whole
    · have hlarge : buf.length < 9 + (frameParseHeader buf).length := by
        unfold FrameHeader.Fits at hfits
        omega
      rw [receivingLoop_incomplete hlen hlarge, takeFrame, if_neg (by omega), if_pos hfits,
        if_neg hfits]
      rfl
    · rw [receivingLoop_large hshort (by omega), takeFrame, if_pos (by omega), if_neg hfits]
      simp only [failWith, bind_assoc, pure_bind]
      rfl

end Loop

/-! ## A full read buffer -/

/-- A read callback has consumed a byte, closed the connection or raised an error. An assertion that
fails ends the program. -/
def Progressed (w : World) : EStateM.Result Assertion World ℕ → Prop
  | .ok n w' => 0 < n ∨ w'.sock.state ≠ .connected ∨ errored (w'.log.drop w.log.length) = true
  | .error _ _ => True

instance (w : World) : DecidablePred (Progressed w)
  | .ok _ _ => inferInstanceAs (Decidable (_ ∨ _ ∨ _))
  | .error _ _ => inferInstanceAs (Decidable True)

/-- A read callback that finds `buf` in the read buffer makes progress. -/
def Progress (server : Server) (cb : ReadCb) (buf : Bytes) (w : World) : Prop :=
  Progressed w (callReadCb server cb buf.length buf w)

instance (server : Server) (cb : ReadCb) (buf : Bytes) (w : World) :
    Decidable (Progress server cb buf w) := inferInstanceAs (Decidable (Progressed w _))

/-- The full buffers with a frame that is not there as a whole and never will be, but passes the
check of its length. -/
def Stuck (cb : ReadCb) (buf : Bytes) : Prop :=
  (cb = .receiving ∧ 504 ≤ (frameParseHeader buf).length ∧ (frameParseHeader buf).length ≤ 512) ∨
    (cb = .waitingForSettings ∧ (frameParseHeader buf).type = .settings ∧
      (frameParseHeader buf).flags = 0 ∧ 504 ≤ (frameParseHeader buf).length)

section Full

variable {server : Server} {cb : ReadCb} {buf : Bytes} {w : World}

/-- A statement about every return of a read callback. -/
theorem progress_iff_wp : Progress server cb buf w ↔ wp (callReadCb server cb buf.length buf)
    (fun n w' => 0 < n ∨ w'.sock.state ≠ .connected ∨ errored (w'.log.drop w.log.length) = true)
    (fun _ _ => True) w := by
  unfold Progress Progressed wp
  cases callReadCb server cb buf.length buf w <;> rfl

/-- Where the callback returns zero in the same world, there is no progress. -/
theorem not_progress (hconn : w.sock.state = .connected)
    (h : callReadCb server cb buf.length buf w = .ok 0 w) : ¬ Progress server cb buf w := by
  unfold Progress
  rw [h]
  simp [Progressed, hconn]

/-- An error is progress. -/
theorem http2Error_progress {e : Http2Error} {n : ℕ} {u : World} (hlog : w.log <+: u.log) :
    wp (do
      http2Error e
      return n)
    (fun n w' => 0 < n ∨ w'.sock.state ≠ .connected ∨ errored (w'.log.drop w.log.length) = true)
    (fun _ _ => True) u := by
  simp only [wp_bind, wp_pure]
  refine http2Error_wp (fun _ => .inr (.inr ?_)) fun _ _ _ _ _ => trivial
  obtain ⟨new, hnew⟩ := hlog
  rw [World.fail_log, ← hnew, List.append_assoc, List.drop_left]
  simp

theorem waitingForPreface_progress (hbuf : buf.length = 512) :
    Progress server .waitingForPreface buf w := by
  rw [progress_iff_wp]
  simp only [callReadCb, waitingForPreface, hbuf, wp_ite, wp_bind, wp_http2CloseImmediate, wp_pure,
    wp_modifyCtx, sendSettingsFrame]
  refine ⟨fun h => ?_, fun _ => ⟨fun h => ?_, fun _ => ⟨fun _ => ?_, fun _ => ?_⟩⟩⟩
  · omega
  · omega
  · exact .inl (by omega)
  · refine sendFrame_wp (fun _ _ => ?_) fun _ _ _ _ _ => trivial
    exact eventRead_wp (fun _ => .inl (by omega)) fun _ _ _ => trivial

/-- What `handle_settings_frame` returns makes no difference to the progress. -/
theorem any_result {m : M ℤ} {Q : ℕ → World → Prop} {u : World} (f : ℤ → M ℕ)
    (hf : ∀ rc u', wp (f rc) Q (fun _ _ => True) u') : wp (m >>= f) Q (fun _ _ => True) u := by
  rw [wp_bind]
  exact wp_of_forall hf fun _ _ => trivial

theorem waitingForSettings_progress (hbuf : buf.length = 512)
    (h : ¬ Stuck .waitingForSettings buf) : Progress server .waitingForSettings buf w := by
  have h9 : http2FrameHeaderSize = 9 := rfl
  rw [progress_iff_wp]
  simp only [callReadCb, waitingForSettings, hbuf]
  rw [wp_ite]
  refine ⟨fun h => by omega, fun _ => ?_⟩
  rw [wp_ite]
  refine ⟨fun h => by omega, fun _ => ?_⟩
  rw [wp_ite]
  refine ⟨fun _ => ?_, fun hset => ?_⟩
  · rw [wp_bind, wp_record]
    exact http2Error_progress (by simp)
  · rw [wp_ite]
    refine ⟨fun hlen => ?_, fun _ => ?_⟩
    · refine absurd ?_ h
      simp only [not_or, not_not] at hset
      exact .inr ⟨rfl, hset.1, hset.2, by omega⟩
    · -- the frame is there as a whole: whatever the handler does, its bytes are consumed
      rw [wp_bind, wp_record]
      refine any_result _ fun rc u' => ?_
      rw [wp_ite]
      refine ⟨fun _ => .inl (by omega), fun _ => ?_⟩
      simp only [wp_bind, wp_record, wp_modifyCtx, wp_pure]
      exact eventRead_wp (fun _ => .inl (by omega)) fun _ _ _ => trivial

/-- An error leaves the number of consumed bytes as it is. -/
theorem http2Error_result {e : Http2Error} {n : ℕ} {P : ℕ → Prop} {u : World} (hn : P n) :
    wp (do
      http2Error e
      return n) (fun m _ => P m) (fun _ _ => True) u := by
  simp only [wp_bind, wp_pure]
  exact http2Error_wp (fun _ => hn) fun _ _ _ _ _ => trivial

/-- The loop never gives back what it has consumed. -/
theorem receivingLoop_mono (fuel n : ℕ) (b : Bytes) (u : World) :
    wp (receivingLoop server fuel n b) (fun m _ => n ≤ m) (fun _ _ => True) u := by
  induction fuel generalizing n b u with
  | zero => exact le_refl n
  | succ fuel ih =>
    rcases Nat.lt_or_ge b.length 9 with hshort | hshort
    · rw [wp, receivingLoop_short hshort]
    rcases Nat.lt_or_ge 512 (frameParseHeader b).length with hlarge | hlen
    · rw [wp_congr (receivingLoop_large hshort hlarge), wp_bind, wp_record]
      exact http2Error_result (le_refl n)
    rcases Nat.lt_or_ge b.length (9 + (frameParseHeader b).length) with hpart | hwhole
    · rw [wp, receivingLoop_incomplete hlen hpart]
    · rw [wp_congr (receivingLoop_whole hlen hwhole)]
      refine any_result _ fun rc u' => ?_
      rw [wp_ite]
      refine ⟨fun _ => Nat.le_add_right _ _, fun _ => ?_⟩
      exact (ih _ _ u').mono (fun m _ hm => by omega) fun _ _ => id

theorem receiving_progress (hbuf : buf.length = 512) (h : ¬ Stuck .receiving buf) :
    Progress server .receiving buf w := by
  rw [progress_iff_wp]
  simp only [callReadCb, receiving, hbuf]
  rw [wp_ite]
  refine ⟨fun h => by omega, fun _ => ?_⟩
  rcases Nat.lt_or_ge 512 (frameParseHeader buf).length with hlarge | hlen
  · rw [wp_congr (receivingLoop_large (by omega) hlarge), wp_bind, wp_record]
    exact http2Error_progress (by simp)
  · have hwhole : 9 + (frameParseHeader buf).length ≤ buf.length := by
      by_contra hpart
      exact h (.inl ⟨rfl, by omega, hlen⟩)
    rw [wp_congr (receivingLoop_whole hlen hwhole)]
    refine any_result _ fun rc u' => ?_
    rw [wp_ite]
    refine ⟨fun _ => .inl ?_, fun _ => ?_⟩
    · simp only [frameTaken]
      split <;> omega
    · exact (receivingLoop_mono _ _ _ u').mono (fun m _ hm => .inl (by omega)) fun _ _ => id

/-- Where a frame never becomes whole, nothing is consumed. -/
theorem callReadCb_stuck (hbuf : buf.length = 512) (h : Stuck cb buf) :
    callReadCb server cb buf.length buf w = .ok 0 w := by
  have h9 : http2FrameHeaderSize = 9 := rfl
  rcases h with ⟨rfl, hlow, hhigh⟩ | ⟨rfl, htype, hflags, hlow⟩
  · simp only [callReadCb, receiving]
    rw [if_neg (by omega), receivingLoop_incomplete hhigh (by omega)]
  · simp only [callReadCb, waitingForSettings, hbuf]
    rw [if_neg (by omega), if_neg (by omega), if_neg (by simp [htype, hflags]), if_pos (by omega)]
    rfl

/-- **Progress of a full read buffer.** A read callback that finds the read buffer of a connected
socket full consumes a byte, closes the connection or raises an error exactly where the buffer does
not start with a frame that can never become whole. -/
theorem progress_iff (hconn : w.sock.state = .connected) (hbuf : buf.length = http2SockReadSize) :
    Progress server cb buf w ↔ ¬ Stuck cb buf := by
  constructor
  · exact fun hp hs => not_progress hconn (callReadCb_stuck hbuf hs) hp
  · intro hs
    cases cb with
    | waitingForPreface => exact waitingForPreface_progress hbuf
    | waitingForSettings => exact waitingForSettings_progress hbuf hs
    | receiving => exact receiving_progress hbuf hs

end Full

/-- 512 bytes that start with the header of a DATA frame of 504 bytes. -/
def Sample.fullBuffer : Bytes := [0, 1, 0xf8, 0, 0, 0, 0, 0, 1] ++ List.replicate 503 0

/-- A full buffer in which a frame of 100 bytes comes first. -/
theorem progress_iff_data :
    (∃ w ∈ (EventLoop.run (Sample.server 2) (Sample.handshake (Sample.frame 4 0 0 []))).worlds,
      w.sock.state = .connected ∧
        (Progress (Sample.server 2) .receiving ([0, 0, 100] ++ List.replicate 509 0) w ↔
          ¬ Stuck .receiving ([0, 0, 100] ++ List.replicate 509 0))) := by
  have hex : ∃ w ∈ (EventLoop.run (Sample.server 2)
      (Sample.handshake (Sample.frame 4 0 0 []))).worlds, w.sock.state = .connected := by
    decide +kernel
  obtain ⟨w, hw, hconn⟩ := hex
  have hlen : ([0, 0, 100] ++ List.replicate 509 0 : Bytes).length = http2SockReadSize := by
    rw [List.length_append, List.length_replicate]
    rfl
  exact ⟨w, hw, hconn, progress_iff hconn hlen⟩

/-- The frame has 504 bytes, one more than fits behind its header: nothing is consumed. -/
theorem not_progress_fullBuffer :
    ¬ ∀ (server : Server) (actions : List EventLoop.Action) (w : World) (e : EventRead),
      w ∈ (EventLoop.run server actions).worlds → (EventLoop.run server actions).aborted = none →
        w.sock.state = .connected → w.sock.read = some e →
          e.buf.bytes.length = http2SockReadSize → Progress server e.cb e.buf.bytes w := by
  intro h
  have hall : ∀ w ∈ (EventLoop.run (Sample.server 2) (Sample.handshake (Sample.frame 4 0 0 []) ++
      [.recv 0 Sample.fullBuffer])).worlds, ∀ e ∈ w.sock.read, w.sock.state = .connected →
        e.buf.bytes.length = http2SockReadSize →
          Progress (Sample.server 2) e.cb e.buf.bytes w :=
    fun w hw e he hconn hlen => h _ _ w e hw (by decide +kernel) hconn he hlen
  revert hall
  decide +kernel

end Two
