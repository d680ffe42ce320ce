import Two.Http2.Confinement
import Two.Http2.WindowArithmetic
import Two.Http2.FrameCodec

/-!
# Header blocks are contiguous

While a header block is being received, `receiving` accepts CONTINUATION frames only. Their handler
does not compare the stream with that of the block, and passes the flags of the frame on to the
function that HEADERS frames use, too, which looks at END_STREAM.

## Main definitions

* `FrameHeader.withoutEndStream`: the header without its END_STREAM flag
* `Contiguous`: only a CONTINUATION frame of the stream is accepted, and its END_STREAM flag has no
  effect
* `ContiguityRegular`: when that is so

## Main results

* `contiguous_iff`: exactly when a frame is taken as it has to be, in every run
-/

namespace Two

open Program Trace

section Definitions

variable (server : Server)

/-- The header without its END_STREAM flag. -/
def FrameHeader.withoutEndStream (h : FrameHeader) : FrameHeader :=
  { h with flags := h.flags &&& ~~~frameFlagsEndStream }

/-- A frame is refused with a PROTOCOL_ERROR. -/
def refuseFrame (h : FrameHeader) (region : Bytes) : M Unit := do
  record (.frame h region)
  http2Error .protocolError

/-- While a header block is being received, a frame other than a CONTINUATION frame of its stream is
refused, with the stream left as it is; and a CONTINUATION frame has the effect that it has without
its END_STREAM flag. -/
structure Contiguous (w : World) (h : FrameHeader) (region : Bytes) : Prop where
  refused : ¬ (h.type = .continuation ∧ h.streamId = w.ctx.stream.id) →
    finalState (takeFrame server h region w) = finalState (refuseFrame h region w) ∧
      (finalState (takeFrame server h region w)).ctx.stream = w.ctx.stream
  endStream : h.type = .continuation →
    Program.Ends SameEffect (takeFrame server h region w)
      (takeFrame server h.withoutEndStream region w)

/-- The payload of a CONTINUATION frame is taken for a part of the header block. -/
def Collected (c : Context) (h : FrameHeader) : Prop :=
  0 < h.length ∧ h.Fits ∧ h.streamId ≠ 0 ∧ c.stream.state.active = true ∧
    c.stream.buflen < http2StreamBufSize

/-- A CONTINUATION frame of the stream does not end a request that its HEADERS frame has left open;
any other frame fits in the read buffer and, if it is a CONTINUATION frame, is on stream 0 or comes
after the stream was closed. -/
def ContiguityRegular (c : Context) (h : FrameHeader) : Prop :=
  if h.type = .continuation ∧ h.streamId = c.stream.id then
    ¬ (h.has frameFlagsEndStream = true ∧ c.flags.waitingEndStream = true ∧ Collected c h)
  else h.Fits ∧
    (h.type = .continuation → h.streamId = 0 ∨ c.stream.state.active = false)

end Definitions

/-! ## Programs that do not look at the trace -/

namespace SameEffect

variable {α : Type} {w w' : World}

theorem ctx_eq (h : SameEffect w w') : w'.ctx = w.ctx := congrArg State.ctx h.state

theorem getCtx_bind {f f' : Context → M α} (hf : ∀ c, Related SameEffect (f c) (f' c)) :
    Related SameEffect (getCtx >>= f) (getCtx >>= f') := by
  intro w w' h
  rw [bind_getCtx, bind_getCtx, h.ctx_eq]
  exact hf w.ctx w w' h

protected theorem record {e e' : State → Entry} (he : ∀ s, sentBytes [e' s] = sentBytes [e s]) :
    Related SameEffect (record e) (record e') := by
  refine .modify fun w w' h => ⟨h.state, ?_⟩
  simp only [World.add, sentBytes_append, h.sent, h.state, he]

protected theorem modifyCtx (f : Context → Context) :
    Related SameEffect (modifyCtx f) (modifyCtx f) := by
  refine .modify fun w w' h => ⟨?_, h.sent⟩
  simp only [World.onCtx, h.state]

protected theorem eventReadStop : Related SameEffect eventReadStop eventReadStop := by
  refine .modify fun w w' h => ?_
  have hsock : w'.sock = w.sock := congrArg State.sock h.state
  unfold World.readStop
  rw [hsock]
  cases w.sock.read with
  | none => exact h
  | some e => exact ⟨by simp only [h.state], h.sent⟩

protected theorem http2Error (e : Http2Error) :
    Related SameEffect (http2Error e) (http2Error e) := by
  refine .bind (SameEffect.record fun _ => rfl) fun _ => ?_
  refine .bind (SameEffect.modifyCtx _) fun _ => .bind SameEffect.eventReadStop fun _ => ?_
  exact getCtx_bind fun c => .bind (SameEffect.sendFrame _ rfl rfl) fun _ => .pure ()

protected theorem failWith (e : Http2Error) : Related SameEffect (failWith e) (failWith e) :=
  .bind (SameEffect.http2Error e) fun _ => .pure _

variable {server : Server}

theorem sendHeadersFrame (headers : HeaderList) (streamId : ℕ) (endStream : Bool) (cb : WriteCb) :
    Related SameEffect (sendHeadersFrame headers streamId endStream cb)
      (sendHeadersFrame headers streamId endStream cb) := by
  refine getCtx_bind fun c => ?_
  cases Hpack.encode c.hpackDynamicTable headers .empty (frameMaxSize - 9) with
  | none => exact .throw _
  | some r =>
    obtain ⟨size, table, buffer⟩ := r
    refine .bind (SameEffect.modifyCtx _) fun _ => .ite (fun _ => .pure _) fun _ => ?_
    exact .bind (SameEffect.sendFrame _ rfl rfl) fun _ => .pure _

theorem handleRequest (headers : HeaderList) :
    Related SameEffect (handleRequest server headers) (handleRequest server headers) := by
  refine .get_bind fun w w' h => ?_
  obtain ⟨s, log⟩ := w
  obtain ⟨s', log'⟩ := w'
  obtain rfl : s' = s := h.state
  refine Related.bind (fun _ _ _ => .ok () ⟨rfl, ?_⟩) (fun _ => ?_) _ _ h
  · refine .bind (SameEffect.sendHeadersFrame _ _ _ _) fun hlen => ?_
    exact .ite (fun _ => SameEffect.failWith _) fun _ => .pure _
  · have hsent : sentBytes log' = sentBytes log := h.sent
    simp only [sentBytes_append, hsent]

theorem handleEndStream :
    Related SameEffect (handleEndStream server) (handleEndStream server) := by
  refine .get_bind fun w w' h => ?_
  obtain ⟨s, log⟩ := w
  obtain ⟨s', log'⟩ := w'
  obtain rfl : s' = s := h.state
  refine Related.bind (SameEffect.record fun _ => rfl) (fun _ => ?_) _ _ h
  refine .bind (SameEffect.modifyCtx _) fun _ => ?_
  have hfail : ∀ {c : Prop} [Decidable c] {e : Http2Error} {m : M ℤ},
      (¬ c → Related SameEffect m m) → Related SameEffect (if c then Two.failWith e else m)
        (if c then Two.failWith e else m) := fun hm => .ite (fun _ => SameEffect.failWith _) hm
  refine hfail fun _ => hfail fun _ => hfail fun _ => hfail fun _ => ?_
  exact handleRequest _

theorem endStreamIfComplete :
    Related SameEffect (endStreamIfComplete server) (endStreamIfComplete server) :=
  getCtx_bind fun _ => .ite (fun _ => handleEndStream) fun _ => .pure 0

end SameEffect

/-! ## One frame -/

section Frame

variable {server : Server} {w : World} {h : FrameHeader} {region : Bytes} {fuel n : ℕ}

/-- An error is the first thing that `http2_error` records. -/
theorem http2Error_first (e : Http2Error) (w : World) :
    ∃ rest, (finalState (http2Error e w)).log = w.log ++ .error e w.toState :: rest := by
  refine (wp_finalState (P := fun w' : World =>
    ∃ rest, w'.log = w.log ++ .error e w.toState :: rest)).mp ?_
  have hfail : ∃ rest, (w.fail e).log = w.log ++ .error e w.toState :: rest :=
    ⟨_, World.fail_log w e⟩
  refine http2Error_wp (fun _ => hfail) fun _ _ w' hlog _ => ?_
  rw [hlog]
  exact hfail

/-- An error leaves the stream as it is. -/
theorem http2Error_stream (e : Http2Error) (w : World) :
    (finalState (http2Error e w)).ctx.stream = w.ctx.stream := by
  have hsend : finalState (http2Error e w) =
      finalState (sendFrame (.goaway e.code (w.failing e).ctx.lastOpenedStreamId)
        .closeOnGoawaySent (w.failing e)) := finalState_return _ _ _
  rw [hsend, (sendFrame_final _ _ _).1, World.failing_ctx]

theorem failWith_final (e : Http2Error) (w : World) :
    finalState (failWith e w) = finalState (http2Error e w) := finalState_return _ _ _

/-- Another error is no refusal. -/
theorem failWith_ne_refuseFrame {e : Http2Error} (he : e ≠ .protocolError) :
    finalState (failWith e (w.add (.frame h region))) ≠ finalState (refuseFrame h region w) := by
  intro heq
  obtain ⟨rest, hrest⟩ := http2Error_first e (w.add (.frame h region))
  obtain ⟨rest', hrest'⟩ := http2Error_first .protocolError (w.add (.frame h region))
  rw [failWith_final, refuseFrame, bind_record] at heq
  rw [heq, hrest', List.append_cancel_left_eq, List.cons.injEq, Entry.error.injEq] at hrest
  exact he hrest.1.1.symm

/-- A refusal is recorded. -/
theorem refuseFrame_ne_self : finalState (refuseFrame h region w) ≠ w := by
  intro heq
  obtain ⟨rest, hrest⟩ := http2Error_first .protocolError (w.add (.frame h region))
  rw [refuseFrame, bind_record] at heq
  rw [heq, World.add_log, List.append_assoc, List.self_eq_append_right] at hrest
  cases hrest

/-- Completing a request begins with the call of `hpack_decode`. -/
theorem endStreamIfComplete_log (server : Server) (w : World) :
    ∃ rest, (finalState (endStreamIfComplete server w)).log = w.log ++ rest ∧
      ∀ e ∈ rest.head?, ∃ b s, e = .decode b s := by
  rw [endStreamIfComplete, bind_getCtx]
  split
  · obtain ⟨new, hnew, -⟩ := (wp_finalState (P := fun w' : World => Gives _ _ w')).mp
      (handleEndStream_gives server w)
    refine ⟨.decode (slice w.ctx.stream.buf 0 w.ctx.stream.buflen) w.toState :: new, ?_, ?_⟩
    · rw [hnew, World.decoded_log, List.append_assoc]
      rfl
    · rintro e ⟨⟩
      exact ⟨_, _, rfl⟩
  · exact ⟨[], by rw [List.append_nil]; rfl, by simp⟩

/-- The end of `handle_header_block`. -/
theorem handleHeaderBlock_run (server : Server) (h : FrameHeader) (data : Bytes) (size : ℤ)
    (w : World) :
    handleHeaderBlock server h data size w =
      if min size (http2StreamBufSize - w.ctx.stream.buflen) ≤ 0 then failWith .flowControlError w
      else endStreamIfComplete server
        (w.block h data (min size (http2StreamBufSize - w.ctx.stream.buflen)).toNat) := by
  rw [handleHeaderBlock, bind_getCtx]
  split
  · rfl
  · generalize (min size (http2StreamBufSize - w.ctx.stream.buflen)).toNat = k
    unfold World.block World.marked markEndStream markEndHeaders
    cases w.ctx.flags.waitingTrailers <;> cases h.has frameFlagsEndStream <;>
      cases h.has frameFlagsEndHeaders <;> rfl

/-- A CONTINUATION frame while a header block is being received. -/
theorem takeFrame_continuation (ht : h.type = .continuation)
    (hwait : w.ctx.flags.waitingEndHeaders = true) (hfits : h.Fits) :
    takeFrame server h region w =
      if h.streamId = 0 ∨ w.ctx.stream.state.active = false then
        failWith .protocolError (w.add (.frame h region))
      else if h.length = 0 ∨ http2StreamBufSize ≤ w.ctx.stream.buflen then
        failWith .flowControlError (w.add (.frame h region))
      else endStreamIfComplete server ((w.add (.frame h region)).block h region
        (min h.length (http2StreamBufSize - w.ctx.stream.buflen))) := by
  have hactive : (w.ctx.stream.state ≠ .opened ∧ w.ctx.stream.state ≠ .halfClosedRemote) ↔
      w.ctx.stream.state.active = false := by
    cases w.ctx.stream.state <;> simp [StreamState.active]
  rw [takeFrame_of_fits hfits, receiveFrame, bind_getCtx, bind_record,
    if_neg fun hbad => hbad.2 ht, handleFrame, ht]
  have hadd : (w.add (.frame h region)).ctx = w.ctx := rfl
  dsimp only
  rw [handleContinuationFrame, bind_getCtx, hadd]
  simp only [hactive, hwait, Bool.not_true, Bool.false_eq_true, or_false]
  split
  · rfl
  · rw [handleHeaderBlock_run, hadd]
    -- the amount that fits is an `int` in the source and may be negative
    have hmin : min (h.length : ℤ) (http2StreamBufSize - w.ctx.stream.buflen) ≤ 0 ↔
        h.length = 0 ∨ http2StreamBufSize ≤ w.ctx.stream.buflen := by omega
    have hnat : (min (h.length : ℤ) (http2StreamBufSize - w.ctx.stream.buflen)).toNat =
        min h.length (http2StreamBufSize - w.ctx.stream.buflen) := by omega
    rw [hnat]
    simp only [hmin]

/-- A header block that goes on is no refusal. -/
theorem endStreamIfComplete_ne_refuseFrame {data : Bytes} {k : ℕ} :
    finalState (endStreamIfComplete server ((w.add (.frame h region)).block h data k)) ≠
      finalState (refuseFrame h region w) := by
  intro heq
  obtain ⟨rest, hrest, hhead⟩ := endStreamIfComplete_log server
    ((w.add (.frame h region)).block h data k)
  obtain ⟨rest', hrest'⟩ := http2Error_first .protocolError (w.add (.frame h region))
  rw [refuseFrame, bind_record] at heq
  rw [heq, hrest', World.block_log, List.append_assoc, List.append_cancel_left_eq,
    World.markEntry] at hrest
  split at hrest
  · cases hrest
  · rw [List.nil_append] at hrest
    subst hrest
    obtain ⟨b, s, he⟩ := hhead _ rfl
    cases he

/-- **Which frames are refused.** -/
theorem refused_iff (hwait : w.ctx.flags.waitingEndHeaders = true) :
    (finalState (takeFrame server h region w) = finalState (refuseFrame h region w) ∧
      (finalState (takeFrame server h region w)).ctx.stream = w.ctx.stream) ↔
    h.Fits ∧
      (h.type = .continuation → h.streamId = 0 ∨ w.ctx.stream.state.active = false) := by
  have hrefused (u : World) (hu : u = w.add (.frame h region)) :
      finalState (failWith .protocolError u) = finalState (refuseFrame h region w) ∧
        (finalState (failWith .protocolError u)).ctx.stream = w.ctx.stream := by
    subst hu
    rw [failWith_final]
    exact ⟨rfl, http2Error_stream _ _⟩
  by_cases hfits : h.Fits
  · by_cases ht : h.type = .continuation
    · rw [takeFrame_continuation ht hwait hfits]
      by_cases hzero : h.streamId = 0 ∨ w.ctx.stream.state.active = false
      · rw [if_pos hzero]
        exact iff_of_true (hrefused _ rfl) ⟨hfits, fun _ => hzero⟩
      -- a frame that is taken goes on, or fails with another error code
      · rw [if_neg hzero]
        refine iff_of_false (fun hboth => ?_) fun hcond => hzero (hcond.2 ht)
        split at hboth
        · exact failWith_ne_refuseFrame (by decide) hboth.1
        · exact endStreamIfComplete_ne_refuseFrame hboth.1
    · have htake : takeFrame server h region w =
          failWith .protocolError (w.add (.frame h region)) := by
        rw [takeFrame_of_fits hfits, receiveFrame, bind_getCtx, bind_record, if_pos ⟨hwait, ht⟩]
      rw [htake]
      exact iff_of_true (hrefused _ rfl) ⟨hfits, fun hc => absurd hc ht⟩
  -- a frame that is too large is another error, and one that is waited for is none
  · refine iff_of_false (fun hboth => ?_) fun hcond => hfits hcond.1
    rw [takeFrame_unfit hfits] at hboth
    split at hboth
    · refine failWith_ne_refuseFrame ?_ hboth.1
      rw [sizeError]
      split <;> decide
    · exact refuseFrame_ne_self hboth.1.symm

/-! ### The END_STREAM flag -/

theorem withoutEndStream_has_endStream : h.withoutEndStream.has frameFlagsEndStream = false := by
  have hflag : ~~~frameFlagsEndStream &&& frameFlagsEndStream = 0 := rfl
  rw [FrameHeader.has, FrameHeader.withoutEndStream, UInt8.and_assoc, hflag, UInt8.and_zero]
  rfl

theorem withoutEndStream_has_endHeaders :
    h.withoutEndStream.has frameFlagsEndHeaders = h.has frameFlagsEndHeaders := by
  have hflag : ~~~frameFlagsEndStream &&& frameFlagsEndHeaders = frameFlagsEndHeaders := rfl
  rw [FrameHeader.has, FrameHeader.withoutEndStream, UInt8.and_assoc, hflag, FrameHeader.has]

theorem withoutEndStream_of_not (hno : h.has frameFlagsEndStream = false) :
    h.withoutEndStream = h := by
  have hall : ∀ b : UInt8, b &&& frameFlagsEndStream = 0 → b &&& ~~~frameFlagsEndStream = b := by
    refine forall_byte (P := fun b => b &&& frameFlagsEndStream = 0 →
      b &&& ~~~frameFlagsEndStream = b) ?_
    decide +kernel
  have hflags := hall h.flags (by simpa [FrameHeader.has] using hno)
  rw [FrameHeader.withoutEndStream, hflags]

/-- The flag changes nothing if the request was already ended by its HEADERS frame. -/
theorem block_withoutEndStream {c : Context} (hended : c.flags.waitingEndStream = false)
    (hstate : c.stream.state = .halfClosedRemote) (data : Bytes) (k : ℕ) :
    c.block h.withoutEndStream data k = c.block h data k := by
  have hmarked : ∀ c' : Context, c'.flags.waitingEndStream = false →
      c'.stream.state = .halfClosedRemote → c'.marked h = c' := by
    intro c' hended' hstate'
    unfold Context.marked
    split
    · rw [← hended', ← hstate']
    · rfl
  have hwithout : ∀ c' : Context, c'.marked h.withoutEndStream = c' := by
    intro c'
    rw [Context.marked, withoutEndStream_has_endStream, if_neg Bool.false_ne_true]
  have hcopied : (if c.flags.waitingTrailers then c else c.appendBlock data k).marked h =
      if c.flags.waitingTrailers then c else c.appendBlock data k := by
    split
    · exact hmarked c hended hstate
    · exact hmarked (c.appendBlock data k) hended hstate
  rw [Context.block, Context.block, withoutEndStream_has_endHeaders]
  simp only [hwithout, hcopied]

/-- A request that is not ended by its HEADERS frame stays open without the flag. -/
theorem endStreamIfComplete_open (hopen : w.ctx.flags.waitingEndStream = true) :
    endStreamIfComplete server w = .ok 0 w := by
  rw [endStreamIfComplete, bind_getCtx, if_neg (by simp [hopen])]
  rfl

/-- A request that is ended stays so. -/
theorem endStreamIfComplete_ended (hended : w.ctx.flags.waitingEndStream = false) :
    wp (endStreamIfComplete server) (fun _ w' => w'.ctx.flags.waitingEndStream = false)
      (fun _ _ => True) w := by
  have hfail : ∀ e u, wp (failWith e) (fun _ w' => w'.ctx.flags.waitingEndStream = false)
      (fun _ _ => True) u := by
    intro e u
    simp only [failWith, wp_bind, wp_pure]
    refine http2Error_wp (fun _ => ?_) fun _ _ _ _ _ => trivial
    rw [World.fail_ctx]
    rfl
  simp only [endStreamIfComplete, handleEndStream, wp_bind, wp_getCtx, wp_record, wp_modifyCtx,
    wp_ite, wp_pure]
  refine ⟨fun _ => ⟨fun _ => hfail _ _, fun _ => ⟨fun _ => hfail _ _, fun _ => ⟨fun _ => hfail _ _,
    fun _ => ⟨fun _ => hfail _ _, fun _ => ?_⟩⟩⟩⟩, fun _ => hended⟩
  simp only [handleRequest, sendHeadersFrame, wp_bind, wp_get, wp_set, wp_getCtx]
  split
  · trivial
  · simp only [wp_bind, wp_modifyCtx, wp_ite, wp_pure]
    refine ⟨fun _ => ⟨fun _ => hfail _ _, fun _ => hended⟩, fun _ => ?_⟩
    refine sendFrame_wp (fun _ _ => ?_) fun _ _ _ _ _ => trivial
    refine ⟨fun _ => hfail _ _, fun _ => ?_⟩
    rw [World.written_ctx]
    exact hended

/-- A part of a header block changes the context and the trace. -/
theorem block_toState (w : World) (h : FrameHeader) (data : Bytes) (k : ℕ) :
    (w.block h data k).toState = { w.toState with ctx := w.ctx.block h data k } := by
  unfold World.block World.marked Context.block Context.marked
  cases w.ctx.flags.waitingTrailers <;> cases h.has frameFlagsEndStream <;>
    cases h.has frameFlagsEndHeaders <;> rfl

/-- A part of a header block has the same effect without the flag unless it ends the request. -/
theorem block_endStream_iff {w' : World} (hw : SameEffect w w')
    (hactive : w.ctx.stream.state.active = true)
    (hopened : w.ctx.stream.state = .opened → w.ctx.flags.waitingEndStream = true) (data : Bytes)
    (k : ℕ) :
    Program.Ends SameEffect (endStreamIfComplete server (w.block h data k))
        (endStreamIfComplete server (w'.block h.withoutEndStream data k)) ↔
      ¬ (h.has frameFlagsEndStream = true ∧ w.ctx.flags.waitingEndStream = true) := by
  have hsent (u : World) (h' : FrameHeader) :
      sentBytes (u.block h' data k).log = sentBytes u.log := by
    rw [World.block_log, World.markEntry, sentBytes_append]
    split
    · exact List.append_nil _
    · exact List.append_nil _
  by_cases hflag : h.has frameFlagsEndStream = true
  · by_cases hwaiting : w.ctx.flags.waitingEndStream = true
    · -- the flag ends the request, which goes on without it
      refine iff_of_false (fun hends => ?_) fun hno => hno ⟨hflag, hwaiting⟩
      have hmarked : (w.block h data k).ctx.flags.waitingEndStream = false := by
        rw [World.block_ctx, Context.block_waitingEndStream, if_pos hflag]
      have hended := @endStreamIfComplete_ended server _ hmarked
      have hgoes : (w'.block h.withoutEndStream data k).ctx.flags.waitingEndStream = true := by
        rw [World.block_ctx, Context.block_waitingEndStream, withoutEndStream_has_endStream,
          if_neg Bool.false_ne_true, hw.ctx_eq, hwaiting]
      rw [endStreamIfComplete_open hgoes] at hends
      unfold wp at hended
      generalize endStreamIfComplete server (w.block h data k) = result at hends hended
      obtain ⟨_, hu⟩ | _ := hends
      rw [hu.ctx_eq] at hgoes
      rw [hended] at hgoes
      cases hgoes
    -- the end of the request was received before, so the stream is half closed already
    · have hhalf : w.ctx.stream.state = .halfClosedRemote := by
        have hne : w.ctx.stream.state ≠ .opened := fun ho => hwaiting (hopened ho)
        revert hactive hne
        cases w.ctx.stream.state <;> simp [StreamState.active]
      refine iff_of_true (SameEffect.endStreamIfComplete _ _ ⟨?_, ?_⟩) fun hbad => hwaiting hbad.2
      · rw [block_toState, block_toState, hw.state,
          block_withoutEndStream (by simpa using hwaiting) hhalf]
      · rw [hsent, hsent, hw.sent]
  -- without the flag it is the same frame
  · have hsame : h.withoutEndStream = h := withoutEndStream_of_not (by simpa using hflag)
    rw [hsame]
    refine iff_of_true (SameEffect.endStreamIfComplete _ _ ⟨?_, ?_⟩) fun hbad => hflag hbad.1
    · rw [block_toState, block_toState, hw.state]
    · rw [hsent, hsent, hw.sent]

/-- **Where the END_STREAM flag has no effect.** -/
theorem endStream_iff (ht : h.type = .continuation) (hwait : w.ctx.flags.waitingEndHeaders = true)
    (hopened : w.ctx.stream.state = .opened → w.ctx.flags.waitingEndStream = true) :
    Program.Ends SameEffect (takeFrame server h region w)
        (takeFrame server h.withoutEndStream region w) ↔
      ¬ (h.has frameFlagsEndStream = true ∧ w.ctx.flags.waitingEndStream = true ∧
        Collected w.ctx h) := by
  have hadd : SameEffect (w.add (.frame h region)) (w.add (.frame h.withoutEndStream region)) := by
    refine ⟨rfl, ?_⟩
    simp only [World.add, sentBytes_append]
    rfl
  have hid : h.withoutEndStream.streamId = h.streamId := rfl
  have hlength : h.withoutEndStream.length = h.length := rfl
  have hfits' : h.withoutEndStream.Fits ↔ h.Fits := Iff.rfl
  by_cases hfits : h.Fits
  · rw [takeFrame_continuation ht hwait hfits,
      takeFrame_continuation (h := h.withoutEndStream) ht hwait hfits, hid, hlength]
    by_cases hzero : h.streamId = 0 ∨ w.ctx.stream.state.active = false
    -- both frames are refused, for the stream
    · rw [if_pos hzero, if_pos hzero]
      refine iff_of_true (SameEffect.failWith _ _ _ hadd) fun hbad => ?_
      obtain ⟨-, -, -, -, hne, hactive, -⟩ := hbad
      obtain h0 | hclosed := hzero
      · exact hne h0
      · rw [hclosed] at hactive
        cases hactive
    · obtain ⟨hne, hactive⟩ := not_or.mp hzero
      have hactive : w.ctx.stream.state.active = true := by simpa using hactive
      rw [if_neg hzero, if_neg hzero]
      by_cases hfull : h.length = 0 ∨ http2StreamBufSize ≤ w.ctx.stream.buflen
      -- both frames are refused, for the space
      · rw [if_pos hfull, if_pos hfull]
        refine iff_of_true (SameEffect.failWith _ _ _ hadd) fun hbad => ?_
        obtain ⟨-, -, hpos, -, -, -, hroom⟩ := hbad
        omega
      · rw [if_neg hfull, if_neg hfull, block_endStream_iff hadd hactive hopened]
        have hcollected : Collected w.ctx h := ⟨by omega, hfits, hne, hactive, by omega⟩
        simp only [hcollected, and_true]
        rfl
  -- both frames are refused for their length, or waited for
  · refine iff_of_true ?_ fun hbad => hfits hbad.2.2.2.1
    rw [takeFrame_unfit hfits, takeFrame_unfit (mt hfits'.mp hfits), hlength]
    split
    · exact SameEffect.failWith _ _ _ hadd
    · exact .ok _ ⟨rfl, rfl⟩

/-! ### HEADERS frames -/

/-- A HEADERS frame without END_HEADERS begins a header block, and says whether the request has
ended. -/
structure BeginsBlock (w : World) (h : FrameHeader) : Prop where
  endHeaders : w.ctx.flags.waitingEndHeaders = true
  stream : w.ctx.stream.id = h.streamId
  endStream : w.ctx.flags.waitingEndStream = !h.has frameFlagsEndStream

/-- A negative result is no acceptance. -/
theorem begins_of_negative (m : M Unit) (w : World) :
    wp (do m; return (-1 : ℤ)) (fun rc w' => rc = 0 → BeginsBlock w' h) (fun _ _ => True) w := by
  simp only [wp_bind, wp_pure]
  exact wp_of_forall (fun _ _ h0 => absurd h0 (by decide)) fun _ _ => trivial

theorem handleHeadersPayload_begins (hend : h.has frameFlagsEndHeaders = false)
    (hwait : w.ctx.flags.waitingEndHeaders = true) (hid : w.ctx.stream.id = h.streamId)
    (hopen : w.ctx.flags.waitingEndStream = true ∨ h.has frameFlagsEndStream = true) :
    wp (handleHeadersPayload server h region) (fun rc w' => rc = 0 → BeginsBlock w' h)
      (fun _ _ => True) w := by
  rw [handleHeadersPayload_eq]
  split
  · exact begins_of_negative _ _
  · refine handleHeaderBlock_wp server rfl (fun _ => begins_of_negative _ _) fun _ => ?_
    simp only [endStreamIfComplete, wp_bind, wp_getCtx, wp_ite, wp_pure]
    refine ⟨fun hdone => ?_, fun _ _ => ⟨?_, ?_, ?_⟩⟩
    · simp [hend, hwait] at hdone
    · simp [hend, hwait]
    · simp [hid]
    · rcases hopen with hopen | hopen
      · simp [hopen]
      · simp [hopen]

theorem handleHeadersFrame_begins (hend : h.has frameFlagsEndHeaders = false)
    (hstate : w.ctx.state ≠ .closing) (hlast : w.ctx.stream.id = w.ctx.lastOpenedStreamId) :
    wp (handleHeadersFrame server h region) (fun rc w' => rc = 0 → BeginsBlock w' h)
      (fun _ _ => True) w := by
  have hneg (e : Http2Error) := begins_of_negative (h := h) (http2Error e) w
  have hreset := begins_of_negative (h := h) (http2StreamError h.streamId .protocolError) w
  rw [wp_bind] at hreset
  simp only [handleHeadersFrame, wp_bind, wp_getCtx, wp_ite, wp_modifyCtx, wp_setStreamState]
  refine ⟨fun hc => absurd hc hstate, fun _ => ⟨fun _ => hneg _, fun _ => ⟨fun _ => hneg _,
    fun _ => ⟨fun _ => hneg _, fun _ => ⟨fun _ => hneg _, fun _ => ⟨fun hid =>
      ⟨fun _ => hreset, fun hfin => ?_⟩, fun _ => ?_⟩⟩⟩⟩⟩⟩
  · -- trailers, which have to end the request
    exact handleHeadersPayload_begins hend rfl (hlast.trans hid.symm) (.inr (by simpa using hfin))
  · exact handleHeadersPayload_begins hend rfl rfl (.inl rfl)

theorem takeFrame_begins (ht : h.type = .headers) (hend : h.has frameFlagsEndHeaders = false)
    (hstate : w.ctx.state ≠ .closing) (hlast : w.ctx.stream.id = w.ctx.lastOpenedStreamId) :
    wp (takeFrame server h region) (fun rc w' => rc = 0 → BeginsBlock w' h) (fun _ _ => True)
      w := by
  unfold takeFrame
  split
  · rw [wp_bind, wp_record]
    exact begins_of_negative _ _
  split
  · exact fun h0 => absurd h0 (by decide)
  · simp only [receiveFrame, wp_bind, wp_getCtx, wp_record, wp_ite, handleFrame, ht]
    exact ⟨fun _ => begins_of_negative _ _,
      fun _ => handleHeadersFrame_begins hend hstate hlast⟩

end Frame

/-! ## Runs -/

section Runs

/-- A frame is received on the stream opened last; while a header block is being received, an open
stream waits for the end of the request. -/
def ReceivedOrderly (_before : List Entry) : Entry → Prop
  | .frame _ _ s => s.ctx.stream.id = s.ctx.lastOpenedStreamId ∧
      (s.ctx.flags.waitingEndHeaders = true → s.ctx.stream.state = .opened →
        s.ctx.flags.waitingEndStream = true)
  | _ => True

theorem runRule_receivedOrderly :
    RunRule (fun _ _ => True) ReceivedOrderly fun w => Orderly w ∧ True := by
  refine .of_orderly (fun _ _ _ => trivial) (fun _ _ _ => trivial) (fun _ _ _ _ _ _ _ => trivial) ?_
  intro live w w' ht _ ho _ new hlog a e b hnew _
  unfold ReceivedOrderly
  split
  · obtain ⟨rfl, rfl⟩ := ht.frame_entry hlog hnew
    refine ⟨ho.last, fun hwait hopened => ho.opened ?_ hopened⟩
    by_contra herrored
    have hfailed := (ho.failed (by simpa using herrored)).2.1
    rw [hwait] at hfailed
    cases hfailed
  · trivial

variable {server : Server} {actions : List EventLoop.Action} {w : World} {header : FrameHeader}
  {region : Bytes} {s : State}

/-- **Header blocks are contiguous.** In every state of every run in which a frame is received: a
HEADERS frame without END_HEADERS that is accepted begins a header block; and while a header block
is being received, a frame is taken as it has to be if and only if it is regular. -/
theorem contiguous_iff (hw : w ∈ (EventLoop.run server actions).worlds)
    (hmem : .frame header region s ∈ w.log) (log : List Entry) (h : FrameHeader) (payload : Bytes) :
    (h.type = .headers → h.has frameFlagsEndHeaders = false → s.ctx.state ≠ .closing →
      ∀ u, takeFrame server h payload ⟨s, log⟩ = .ok 0 u → BeginsBlock u h) ∧
    (s.ctx.flags.waitingEndHeaders = true →
      (Contiguous server ⟨s, log⟩ h payload ↔ ContiguityRegular s.ctx h)) := by
  obtain ⟨before, after, hlog⟩ := List.append_of_mem hmem
  obtain ⟨hlast, hopened⟩ :=
    runRule_receivedOrderly.trace hw (fun _ _ _ _ => trivial) before _ after hlog
  refine ⟨fun ht hend hstate u htake => ?_, fun hwait => ?_⟩
  -- a HEADERS frame without the flag leaves the connection waiting for the rest
  · have hbegins : wp (takeFrame server h payload) (fun rc u => rc = 0 → BeginsBlock u h)
        (fun _ _ => True) ⟨s, log⟩ := takeFrame_begins ht hend hstate hlast
    rw [wp, htake] at hbegins
    exact hbegins rfl
  · have hopened := hopened hwait
    unfold ContiguityRegular
    split
    · rename_i hown
      refine ⟨fun hc => ?_, fun hno => ⟨fun hother => absurd hown hother, fun _ => ?_⟩⟩
      · exact (endStream_iff (w := ⟨s, log⟩) hown.1 hwait hopened).mp (hc.endStream hown.1)
      · exact (endStream_iff (w := ⟨s, log⟩) hown.1 hwait hopened).mpr hno
    · rename_i hother
      refine ⟨fun hc => ?_, fun hcond => ⟨fun _ => ?_, fun ht => ?_⟩⟩
      · exact (refused_iff (w := ⟨s, log⟩) hwait).mp (hc.refused hother)
      · exact (refused_iff (w := ⟨s, log⟩) hwait).mpr hcond
      · refine (endStream_iff (w := ⟨s, log⟩) ht hwait hopened).mpr fun hbad => ?_
        obtain ⟨-, -, -, -, hne, hactive, -⟩ := hbad
        rcases hcond.2 ht with h0 | hclosed
        · exact hne h0
        · have hactive : s.ctx.stream.state.active = true := hactive
          rw [hclosed] at hactive
          cases hactive

/-- The stream of the header block that is being received where a frame is received. -/
def blockStream : Entry → Option ℕ
  | .frame _ _ s =>
    if s.ctx.flags.waitingEndHeaders ∧ s.ctx.stream.state.active then some s.ctx.stream.id else none
  | _ => none

theorem blockStream_eq_some {e : Entry} {id : ℕ} (h : blockStream e = some id) :
    ∃ header region s, e = .frame header region s ∧ s.ctx.flags.waitingEndHeaders = true ∧
      s.ctx.stream.state.active = true ∧ s.ctx.stream.id = id := by
  unfold blockStream at h
  split at h
  · rename_i header region s
    split at h
    · rename_i hboth
      exact ⟨header, region, s, rfl, hboth.1, hboth.2, Option.some.inj h⟩
    · cases h
  · cases h

/-- A header block is begun on stream 1, and a CONTINUATION frame comes on stream 3. -/
def otherContinuation : List EventLoop.Action :=
  Sample.handshake (Sample.setting 4 [0, 0, 0, 5]) ++
    Sample.receive (Sample.headers 1 1 [0x82, 0x86] ++ Sample.frame 9 4 3 [0x84])

theorem otherContinuation_open :
    ∃ w ∈ (EventLoop.run (Sample.server 4) otherContinuation).worlds,
      ∃ e ∈ w.log, blockStream e = some 1 := by decide +kernel

/-- A HEADERS frame inside of the header block is refused. -/
theorem contiguous_iff_headers :
    ∃ w ∈ (EventLoop.run (Sample.server 4) otherContinuation).worlds,
      ∃ header region s, Entry.frame header region s ∈ w.log ∧
        s.ctx.flags.waitingEndHeaders = true ∧
        Contiguous (Sample.server 4) ⟨s, []⟩ ⟨3, .headers, 5, 3⟩ Sample.getBlock := by
  obtain ⟨w, hw, e, he, hblock⟩ := otherContinuation_open
  obtain ⟨header, region, s, rfl, hwait, -, -⟩ := blockStream_eq_some hblock
  refine ⟨w, hw, header, region, s, he, hwait, ?_⟩
  refine ((contiguous_iff hw he [] ⟨3, .headers, 5, 3⟩ Sample.getBlock).2 hwait).mpr ?_
  rw [ContiguityRegular, if_neg fun hown => by cases hown.1]
  exact ⟨by decide, fun ht => by cases ht⟩

/-- The CONTINUATION frame on stream 3 is added to the header block of stream 1. -/
theorem not_contiguous :
    ¬ ∀ (server : Server) (actions : List EventLoop.Action),
      ∀ w ∈ (EventLoop.run server actions).worlds, ∀ (header : FrameHeader) (region : Bytes)
        (s : State), .frame header region s ∈ w.log → s.ctx.flags.waitingEndHeaders = true →
      ∀ (log : List Entry) (h : FrameHeader) (payload : Bytes),
        Contiguous server ⟨s, log⟩ h payload := by
  intro hall
  obtain ⟨w, hw, e, he, hblock⟩ := otherContinuation_open
  obtain ⟨header, region, s, rfl, hwait, hactive, hid⟩ := blockStream_eq_some hblock
  have hcontiguous := hall _ _ w hw header region s he hwait [] ⟨1, .continuation, 4, 3⟩ [0x84]
  have hother : ¬ (3 : ℕ) = s.ctx.stream.id := by
    rw [hid]
    decide
  obtain ⟨-, hcond⟩ := (refused_iff (w := ⟨s, []⟩) hwait).mp
    (hcontiguous.refused fun hown => hother hown.2)
  rcases hcond rfl with h0 | hclosed
  · cases h0
  · have hclosed : s.ctx.stream.state.active = false := hclosed
    rw [hactive] at hclosed
    cases hclosed

end Runs

end Two
