import Two.Http2.Transition
import Two.Library.Hoare
import Mathlib.Order.Basic
import Mathlib.Data.Int.Order.Basic

/-!
# The handlers make frame steps

Every frame handler of `http2.c` ends in a world that frame steps reach; where an assertion fails,
the trace up to there is a beginning of one that frame steps explain.

## Main definitions

* `FrameSteps`: a sequence of frame steps
* `Simulates m w`: from `w`, the program `m` only makes frame steps

## Main results

* `sendFrame_wp`, `http2Error_wp`: the specifications of the operations all handlers use
* `handleFrame_simulates`: every handler only makes frame steps
* `receivingLoop_simulates`: so does the loop over the read buffer
-/

namespace Two

open Program Relation

/-! ## Operations -/

section Operations

variable {w : World} {E : Assertion → World → Prop}

@[simp] theorem wp_record {e : State → Entry} {Q : Unit → World → Prop} :
    wp (record e) Q E w ↔ Q () (w.add e) := ⟨id, id⟩

@[simp] theorem wp_getCtx {Q : Context → World → Prop} : wp getCtx Q E w ↔ Q w.ctx w := ⟨id, id⟩

@[simp] theorem wp_modifyCtx {f : Context → Context} {Q : Unit → World → Prop} :
    wp (modifyCtx f) Q E w ↔ Q () (w.onCtx f) := ⟨id, id⟩

@[simp] theorem wp_setStreamState {new : StreamState} {Q : Unit → World → Prop} :
    wp (setStreamState new) Q E w ↔ Q () (w.streamTo new) := ⟨id, id⟩

@[simp] theorem wp_eventReadStop {Q : Unit → World → Prop} :
    wp eventReadStop Q E w ↔ Q () w.readStop := ⟨id, id⟩

@[simp] theorem wp_http2CloseImmediate {Q : Unit → World → Prop} :
    wp http2CloseImmediate Q E w ↔ Q () w.closeImmediate := ⟨id, id⟩

/-- A frame is written, or an assertion of `event_write` fails after the call was recorded. -/
theorem sendFrame_wp {f : Frame} {cb : WriteCb} {Q : ℕ → World → Prop}
    (hQ : Writable w → ∀ n, Q n (w.written f cb))
    (hE : ¬ Writable w → ∀ e w', w'.log = w.log ++ [.send f w.toState] →
      (e = .noWriteOp ↔ w.sock.state = .connected ∧ w.sock.write.isSome) → E e w') :
    wp (sendFrame f cb) Q E w := by
  simp only [sendFrame, eventWrite, wp_bind, wp_record, wp_get, wp_ite]
  simp only [World.add_toState]
  refine ⟨fun hc => hE (fun h => hc h.connected) _ _ rfl (by simp [hc]), fun hc => ?_⟩
  have hc : w.sock.state = .connected := not_not.mp hc
  cases he : w.sock.write with
  | none =>
    refine hE (fun h => ?_) _ _ rfl (by simp [he])
    simpa [he] using h.enabled
  | some e =>
    have hr : w.sock.room = e.buf.room := by simp [Sock.room, he]
    have hroom : 0 < e.buf.pushed f.bytes ↔ 0 < w.sock.room := by
      rw [hr, Nat.pos_iff_ne_zero, Nat.pos_iff_ne_zero, Ne, Ne, World.pushed_eq_zero]
    simp only [wp_ite, wp_pure]
    refine ⟨fun hp => ?_, fun hp => ?_⟩
    -- only a push that stored bytes takes an operation from the pool
    · cases hl : w.loop.writes with
      | nil => exact hE (fun h => h.pool (hroom.mp hp) hl) _ _ rfl (by simp [hc, he])
      | cons op writes =>
        have hw : Writable w := ⟨hc, by simp [he], fun _ => by simp [hl]⟩
        have := hQ hw (e.buf.pushed f.bytes)
        simp only [World.written, he, if_neg (Nat.pos_iff_ne_zero.mp hp), hl, List.headD_cons,
          List.tail_cons] at this
        exact this
    · have hw : Writable w := ⟨hc, by simp [he], fun h => absurd (hroom.mpr h) hp⟩
      have := hQ hw (e.buf.pushed f.bytes)
      simpa [World.written, he, Nat.eq_zero_of_not_pos hp] using this

@[simp] theorem failing_toState_sock_state (e : Http2Error) :
    (w.failing e).sock.state = w.sock.state := by simp [World.failing]

/-- `event_read` changes the callback, or fails an assertion after the call was recorded. -/
theorem eventRead_wp {cb : ReadCb} {Q : Unit → World → Prop}
    (hQ : w.sock.read.isSome → Q () (w.reading cb))
    (hE : ∀ e w', w'.log = w.log ++ [.eventRead cb w.toState] → E e w') :
    wp (eventRead cb) Q E w := by
  simp only [eventRead, wp_bind, wp_record, wp_get, wp_ite, wp_throw]
  refine ⟨fun _ => hE _ _ rfl, fun _ => ?_⟩
  simp only [World.add_toState]
  cases hr : w.sock.read with
  | none => exact hE _ _ rfl
  | some e =>
    have := hQ (by simp [hr])
    simp only [World.reading, hr, Option.map_some] at this
    exact this

/-- `http2_error` closes the connection for reading and writes a GOAWAY frame. -/
theorem http2Error_wp {e : Http2Error} {Q : Unit → World → Prop}
    (hQ : Writable w → Q () (w.fail e))
    (hE : ¬ Writable w → ∀ a w', w'.log = (w.fail e).log →
      (a = .noWriteOp ↔ w.sock.state = .connected ∧ w.sock.write.isSome) → E a w') :
    wp (http2Error e) Q E w := by
  have hw : Writable (w.failing e) ↔ Writable w := by
    constructor
    · rintro ⟨h1, h2, h3⟩
      exact ⟨by simpa [World.failing] using h1, by simpa [World.failing] using h2,
        by simpa [World.failing, Sock.room] using h3⟩
    · rintro ⟨h1, h2, h3⟩
      exact ⟨by simpa [World.failing] using h1, by simpa [World.failing] using h2,
        by simpa [World.failing, Sock.room] using h3⟩
  have hctx : (w.failing e).ctx.lastOpenedStreamId = w.ctx.lastOpenedStreamId := by
    simp [World.failing]
  simp only [http2Error, sendGoawayFrame, wp_bind, wp_record, wp_modifyCtx, wp_eventReadStop,
    wp_getCtx, World.readStop_ctx]
  refine sendFrame_wp (fun h _ => hQ (hw.mp h)) fun h a w' hlog ha => ?_
  refine hE (fun h' => h (hw.mpr h')) a w' ?_ ?_
  · rw [hlog]
    simp [World.fail, World.failing]
  · simpa [World.failing] using ha

end Operations

/-! ## Frame steps -/

/-- A sequence of frame steps. -/
abbrev FrameSteps : World → World → Prop := ReflTransGen (FrameStep true)

/-- The trace of `w'`, where an assertion failed, begins a trace that frame steps from `w` explain. -/
def FrameAborts (w w' : World) : Prop :=
  ∃ w₁ w₂, FrameSteps w w₁ ∧ (w₂ = w₁ ∨ FrameStep false w₁ w₂) ∧
    w₁.log <+: w'.log ∧ w'.log <+: w₂.log

/-- The program `m`, run in `w`, only makes frame steps, counted from `w₀`. -/
def Simulates {α : Type} (m : M α) (w₀ w : World) : Prop :=
  wp m (fun _ => FrameSteps w₀) (fun _ => FrameAborts w₀) w

section Steps

variable {w₀ w w' : World}

theorem FrameAborts.of_step {w₂ : World} (h : FrameSteps w₀ w) (hs : FrameStep false w w₂)
    (hle : w.log <+: w'.log) (hlog : w'.log <+: w₂.log) : FrameAborts w₀ w' :=
  ⟨w, w₂, h, .inr hs, hle, hlog⟩

theorem FrameAborts.of_log (h : FrameSteps w₀ w) (hlog : w'.log = w.log) : FrameAborts w₀ w' :=
  ⟨w, w, h, .inl rfl, by simp [hlog], by simp [hlog]⟩

/-- A frame that is written in one step. -/
theorem sendFrame_simulates {f : Frame} {cb : WriteCb} (h : FrameSteps w₀ w)
    (hs : ∀ live, (live = true → Writable w) → FrameStep live w (w.written f cb)) :
    Simulates (sendFrame f cb) w₀ w :=
  sendFrame_wp (fun hw _ => h.tail (hs true fun _ => hw)) fun _ _ w' hlog _ =>
    .of_step h (hs false (by simp)) (by simp [hlog]) (by simp [hlog])

theorem http2Error_simulates {e : Http2Error} (h : FrameSteps w₀ w) :
    Simulates (http2Error e) w₀ w :=
  http2Error_wp (fun hw => h.tail (.error w e fun _ => hw)) fun _ _ w' hlog _ =>
    .of_step h (.error w e (by simp)) (by simp [hlog]) (by simp [hlog])

theorem failWith_simulates {e : Http2Error} (h : FrameSteps w₀ w) :
    Simulates (failWith e) w₀ w := by
  simp only [Simulates, failWith, wp_bind, wp_pure]
  exact http2Error_simulates h

theorem http2StreamError_simulates {e : Http2Error} {id : ℕ} (h : FrameSteps w₀ w)
    (hid : id ≤ w.ctx.lastOpenedStreamId ∨ id = w.ctx.stream.id) :
    Simulates (http2StreamError id e) w₀ w := by
  simp only [Simulates, http2StreamError, sendRstStreamFrame, wp_bind, wp_record, wp_getCtx, wp_ite,
    wp_setStreamState, wp_pure]
  refine sendFrame_wp (fun hw _ => ?_) fun _ _ w' hlog _ => ?_
  · have hs : FrameStep true w (w.resetBy e id) := .reset w e id hid fun _ => hw
    simp only [World.resetBy] at hs
    refine ⟨fun hcur => ?_, fun hcur => ?_⟩
    · rw [if_pos hcur] at hs
      exact h.tail hs
    · rw [if_neg hcur] at hs
      exact h.tail hs
  · refine .of_step h (.reset w e id hid (by simp)) (by simp [hlog]) ?_
    simp only [hlog, World.resetBy]
    split <;> simp [World.streamTo]

/-! ## Control frames -/

theorem updateSettingsLoop_simulates (parameters : List (ℕ × ℕ)) (total : ℕ) {w : World}
    (h : FrameSteps w₀ w) : Simulates (updateSettingsLoop parameters total) w₀ w := by
  induction parameters generalizing total w with
  | nil => exact h
  | cons p parameters ih =>
    obtain ⟨id, value⟩ := p
    simp only [Simulates, updateSettingsLoop, wp_bind, wp_getCtx]
    cases ha : applySetting w.ctx id value with
    | error e =>
      simp only [wp_bind, wp_pure]
      exact http2Error_simulates h
    | ok c =>
      simp only [wp_bind, wp_record, wp_modifyCtx]
      exact ih _ (h.tail (.setting w id value c ha))

theorem handleSettingsFrame_simulates {header : FrameHeader} {payload : Bytes}
    (h : FrameSteps w₀ w) : Simulates (handleSettingsFrame header payload) w₀ w := by
  simp only [Simulates, handleSettingsFrame, wp_ite, wp_bind, wp_getCtx, wp_modifyCtx, wp_pure]
  refine ⟨fun _ => failWith_simulates h, fun _ => ⟨fun _ => ⟨fun _ => failWith_simulates h,
    fun _ => ?_⟩, fun _ => ⟨fun _ => failWith_simulates h, fun _ => ⟨fun _ => h, fun _ => ?_⟩⟩⟩⟩
  · refine (updateSettingsLoop_simulates _ 0 h).mono (fun total w' h' => ?_) fun _ _ => id
    exact ⟨fun _ => sendFrame_simulates h' fun live hw => .reply _ _ rfl (by decide) hw (by simp), fun _ => h'⟩
  · have hq : Quiet w (w.onCtx fun c => { c with flags.waitingSettingsAck := false }) := by
      constructor <;> rfl
    have h' := h.tail (.quiet _ _ hq)
    cases ht : w.ctx.timer with
    | none =>
      simp only [eventTimerStop, wp_pure]
      refine h'.tail (.quiet _ _ ?_)
      constructor <;> rfl
    | some id =>
      simp only [eventTimerStop, wp_bind, wp_get, wp_ite, wp_throw, wp_set]
      refine ⟨fun _ => .of_log h' rfl, fun _ => h'.tail (.quiet _ _ ?_)⟩
      constructor <;> rfl

theorem handlePingFrame_simulates {header : FrameHeader} {payload : Bytes} (h : FrameSteps w₀ w) :
    Simulates (handlePingFrame header payload) w₀ w := by
  simp only [Simulates, handlePingFrame, wp_ite, wp_bind, wp_pure]
  refine ⟨fun _ => failWith_simulates h, fun _ => ⟨fun _ => failWith_simulates h, fun _ =>
    ⟨fun _ => h, fun _ => ?_⟩⟩⟩
  exact sendFrame_simulates h fun live hw => .reply _ _ rfl (by simp [Frame.header]) hw (by simp)

/-- The state of the stream may change while a frame is handled. -/
theorem Handling.streamTo {header : FrameHeader} {payload : Bytes} {s : State}
    (h : Handling w header payload s) (new : StreamState) :
    Handling (w.streamTo new) header payload s := by
  obtain ⟨before, after, hlog, hafter⟩ := h
  refine ⟨before, after ++ [.streamState new w.toState], by simp [hlog], fun e he => ?_⟩
  rcases List.mem_append.mp he with he | he
  · exact hafter e he
  · exact ⟨new, _, List.mem_singleton.mp he⟩

/-- The end of `handle_goaway_frame`. -/
theorem answerGoaway_simulates {header : FrameHeader} {payload : Bytes} {s : State}
    (h : FrameSteps w₀ w) (hh : Handling w header payload s) (ht : header.type = .goaway) (last : ℕ)
    (hl : last = w.ctx.lastOpenedStreamId) :
    Simulates (do
      modifyCtx fun c => { c with state := .closing }
      eventRead .receiving
      let _ ← sendGoawayFrame Http2Error.noError.code last .closeOnGoawaySent
      return (0 : ℤ)) w₀ w := by
  subst hl
  simp only [Simulates, sendGoawayFrame, wp_bind, wp_modifyCtx]
  have habort : FrameStep false w _ := .goaway w (by simp) (by simp) header payload s hh ht
  refine eventRead_wp (fun hr => ?_) fun _ w' hlog => ?_
  · refine sendFrame_wp (fun hw _ => ?_) fun _ _ w' hlog _ => ?_
    · refine h.tail (.goaway w (fun _ => hr) (fun _ => ?_) header payload s hh ht)
      exact ⟨hw.connected, hw.enabled, hw.pool⟩
    · exact .of_step h habort (by simp [hlog]) (by simp [hlog])
  · exact .of_step h habort (by simp [hlog]) (by simp [hlog])

theorem handleGoawayFrame_simulates {header : FrameHeader} {payload : Bytes}
    (h : FrameSteps w₀ w) (hsent : w.ctx.flags.goawaySent = false) (ht : header.type = .goaway)
    (hj : JustReceived w header payload) :
    Simulates (handleGoawayFrame header payload) w₀ w := by
  simp only [Simulates, handleGoawayFrame, wp_ite, wp_bind, wp_getCtx, wp_modifyCtx,
    wp_setStreamState, wp_pure]
  refine ⟨fun _ => failWith_simulates h, fun _ => ⟨fun _ => failWith_simulates h, fun _ =>
    ⟨fun hs => ?_, fun _ => ⟨fun _ => h, fun _ => ?_⟩⟩⟩⟩
  · simp [hsent] at hs
  have hq : Quiet w (w.onCtx fun c => { c with flags.goawayRecv := true }) := by
    constructor <;> rfl
  have h' := h.tail (.quiet _ _ hq)
  obtain ⟨before, hlog⟩ := hj
  have hh : Handling (w.onCtx fun c => { c with flags.goawayRecv := true }) header payload
      w.toState := ⟨before, [], hlog, by simp⟩
  refine ⟨fun _ => ?_, fun _ => ?_⟩
  · have := answerGoaway_simulates (h'.tail (.goawayClose _)) (hh.streamTo .closed) ht
      w.ctx.lastOpenedStreamId rfl
    simpa only [Simulates, wp_bind, wp_modifyCtx, wp_pure] using this
  · have := answerGoaway_simulates h' hh ht w.ctx.lastOpenedStreamId rfl
    simpa only [Simulates, wp_bind, wp_modifyCtx, wp_pure] using this

/-! ## Streams -/

/-- `http2_continue_send` sends the next part of the buffer, if flow control allows any. -/
theorem http2ContinueSend_wp {Q : Unit → World → Prop} {E : Assertion → World → Prop}
    (hidle : sendLength w.ctx ≤ 0 → Q () w)
    (hsend : 0 < sendLength w.ctx → Writable w → Q () w.continued)
    (hE : 0 < sendLength w.ctx → ¬ Writable w → ∀ e w', w'.log = w.continued.log →
      (e = .noWriteOp ↔ w.sock.state = .connected ∧ w.sock.write.isSome) → E e w') :
    wp http2ContinueSend Q E w := by
  simp only [http2ContinueSend, sendDataFrame, wp_bind, wp_getCtx]
  simp only [wp_ite, wp_bind, wp_modifyCtx, wp_pure]
  refine ⟨hidle, fun hs => ?_⟩
  have hs : 0 < sendLength w.ctx := not_le.mp hs
  refine sendFrame_wp (fun hw _ => hsend hs hw) fun hw e w' hlog he => hE hs hw e w' ?_ he
  rw [hlog]
  exact (World.written_log _ _ _).symm

theorem handleWindowUpdateFrame_simulates {header : FrameHeader} {payload : Bytes}
    (h : FrameSteps w₀ w) (ht : header.type = .windowUpdate) (hj : JustReceived w header payload) :
    Simulates (handleWindowUpdateFrame header payload) w₀ w := by
  simp only [Simulates, handleWindowUpdateFrame, wp_bind, wp_getCtx]
  simp only [wp_ite, wp_bind, wp_record, wp_modifyCtx, wp_pure]
  refine ⟨fun _ => failWith_simulates h, fun _ => ⟨fun _ => failWith_simulates h, fun hlast =>
    ⟨fun _ => failWith_simulates h, fun halive => ⟨fun _ => failWith_simulates h, fun _ =>
      ⟨fun hid => ⟨fun _ => failWith_simulates h, fun ha => ?_⟩, fun hid =>
        ⟨fun _ => http2StreamError_simulates h (.inr rfl), fun ha => ?_⟩⟩⟩⟩⟩⟩
  · have := h.tail (.connWindow w header payload hj ht hid ha)
    simpa only [World.connIncrement, hid] using this
  · have hr : WindowReady w header payload :=
      ⟨ht, hid, Nat.not_lt.mp hlast, fun he hc => halive ⟨hid, he, hc⟩, ha, hj⟩
    have hwr : Writable (w.increment header.streamId (bufferGetU31 payload)) → Writable w :=
      fun hw => ⟨hw.connected, hw.enabled, hw.pool⟩
    refine http2ContinueSend_wp (fun hs => h.tail (.window w header payload _ hr rfl hs))
      (fun hs hw => h.tail (.windowSend w header payload _ hr rfl hs fun _ => hwr hw))
      (fun hs _ _ w' hlog _ => .of_step h (.windowSend w header payload _ hr rfl hs (by simp))
        (by simp [hlog]) ?_)
    rw [hlog]
    exact List.prefix_refl _

theorem handleRstStreamFrame_simulates {header : FrameHeader} {payload : Bytes}
    (h : FrameSteps w₀ w) (ht : header.type = .rstStream) (hj : JustReceived w header payload) :
    Simulates (handleRstStreamFrame header) w₀ w := by
  simp only [Simulates, handleRstStreamFrame, wp_bind, wp_getCtx, wp_ite, wp_record,
    wp_setStreamState, wp_pure]
  refine ⟨fun _ => failWith_simulates h, fun _ => ⟨fun _ => failWith_simulates h, fun _ =>
    ⟨fun _ => failWith_simulates h, fun hid => ?_⟩⟩⟩
  exact h.tail (.rst w header payload hj ht (not_not.mp hid))

section Requests

variable {server : Server}

/-- `hpack_encode` does not return more than 255. -/
theorem encodeLoop_lt {bufferSize : ℕ} (headers : List Header) {t t' : Hpack.DynamicTable}
    {o o' : Hpack.OutBuffer} {pointer n : ℤ} (hp : pointer < 256)
    (h : Hpack.encodeLoop bufferSize headers t o pointer = some (n, t', o')) : n < 256 := by
  induction headers generalizing t o pointer with
  | nil =>
    simp only [Hpack.encodeLoop, Option.some.injEq, Prod.mk.injEq] at h
    omega
  | cons header headers ih =>
    obtain ⟨name, value⟩ := header
    simp only [Hpack.encodeLoop] at h
    split at h
    · cases h
    · exact ih (by omega) h

theorem length_outBuffer_bytes (o : Hpack.OutBuffer) (n : ℕ) : (o.bytes n).length = n := by
  simp [Hpack.OutBuffer.bytes]

/-- The response headers, after `http_handle_request` was called; both belong to one step. -/
theorem sendHeaders_simulates {w₁ : World} {t : Hpack.DynamicTable} {decoded : HeaderList}
    {res : HttpResponse} (headers : HeaderList) (h : FrameSteps w₀ w) (hr : RequestReady w w₁)
    (hl : res.contentLength ≤ http2StreamBufSize)
    (hw : w' = (w₁.decoded t).requested decoded res) :
    Simulates (do
      let hlen ← sendHeadersFrame headers w'.ctx.stream.id (w'.ctx.stream.buflen = 0)
        .onStreamSendComplete
      if hlen < 0 then failWith .internalError else return 0) w₀ w' := by
  have hreq : FrameSteps w₀ w' := hw ▸ h.tail (.request w w₁ t decoded res hr hl)
  simp only [Simulates, sendHeadersFrame, wp_bind, wp_getCtx]
  cases he : Hpack.encode w'.ctx.hpackDynamicTable headers .empty (frameMaxSize - 9) with
  | none => exact .of_log hreq rfl
  | some r =>
    obtain ⟨size, table, buffer⟩ := r
    simp only [wp_bind, wp_modifyCtx, wp_ite, wp_pure]
    have hq : Quiet w' (w'.onCtx fun c => { c with hpackDynamicTable := table }) := by
      constructor <;> rfl
    refine ⟨fun hneg => ⟨fun _ => failWith_simulates (hreq.tail (.quiet _ _ hq)),
      fun hpos => absurd hneg hpos⟩, fun hpos => ?_⟩
    -- a block that the encoder returns is shorter than its `uint8_t` position
    have hlt : (buffer.bytes size.toNat).length < 256 := by
      have hpos : (0 : ℤ) < 256 := by decide
      have := encodeLoop_lt _ hpos he
      rw [length_outBuffer_bytes]
      omega
    subst hw
    refine sendFrame_wp (fun hw n => ⟨fun hn => absurd hn (by omega), fun _ => ?_⟩)
      fun _ _ w' hlog _ => ?_
    · refine h.tail (.answer w w₁ t decoded res table _ hr hl hlt fun _ => ?_)
      obtain ⟨h1, h2, h3⟩ := hw
      simp only [World.onCtx_sock, World.onCtx_loop, World.requested_sock, World.requested_writes,
        World.decoded_sock, World.decoded_loop, hr.sock, hr.loop] at h1 h2 h3
      exact ⟨h1, h2, h3⟩
    · refine .of_step h (.answer w w₁ t decoded res table _ hr hl hlt (by simp)) ?_ ?_
      · rw [hlog]
        exact hr.log_prefix.trans (by simp)
      · simp only [hlog, World.answering, World.written_log, List.prefix_rfl]

/-- `handle_end_stream` in the world `w₁` that a step from `w` ends in; the request belongs to the
same step. -/
theorem handleEndStream_simulates {w₁ : World} (h : FrameSteps w₀ w) (hstay : FrameStep true w w₁)
    (hr : RequestReady w w₁) : Simulates (handleEndStream server) w₀ w₁ := by
  have hfail : ∀ (t : Hpack.DynamicTable) (e : Http2Error),
      Simulates (failWith e) w₀ (w₁.decoded t) :=
    fun t e => failWith_simulates ((h.tail hstay).tail (.decode _ t))
  simp only [Simulates, handleEndStream, wp_bind, wp_get, wp_record, wp_modifyCtx]
  simp only [wp_ite]
  refine ⟨fun _ => hfail _ _, fun _ => ⟨fun _ => hfail _ _, fun _ => ⟨fun _ => hfail _ _, fun _ =>
    ⟨fun _ => hfail _ _, fun _ => ?_⟩⟩⟩⟩
  simp only [handleRequest, wp_bind, wp_get, wp_set]
  generalize Hpack.decode _ _ _ _ _ = result
  have := sendHeaders_simulates
    (responseHeaders (respond server result.headers w₁.ctx w₁.loop.calls)) h hr
    (contentLength_httpHandleRequest_le _ _ _ _ _ _)
    (Eq.refl ((w₁.decoded result.table).requested result.headers
      (respond server result.headers w₁.ctx w₁.loop.calls)))
  simp only [Simulates, wp_bind] at this
  exact this

theorem endStreamIfComplete_simulates {w₁ : World} (h : FrameSteps w₀ w)
    (hstay : FrameStep true w w₁) (hr : Complete w₁ → RequestReady w w₁) :
    Simulates (endStreamIfComplete server) w₀ w₁ := by
  simp only [Simulates, endStreamIfComplete, wp_bind, wp_getCtx, wp_ite, wp_pure]
  refine ⟨fun hc => handleEndStream_simulates h hstay (hr ?_), fun _ => h.tail hstay⟩
  simpa [Complete] using hc

@[simp] theorem wp_markEndStream {header : FrameHeader} {Q : Unit → World → Prop}
    {E : Assertion → World → Prop} :
    wp (markEndStream header) Q E w ↔ Q () (w.marked header) := by
  unfold markEndStream World.marked
  split <;> exact ⟨id, id⟩

@[simp] theorem wp_markEndHeaders {header : FrameHeader} {Q : Unit → World → Prop}
    {E : Assertion → World → Prop} :
    wp (markEndHeaders header) Q E w ↔
      Q () (if header.has frameFlagsEndHeaders then
        w.onCtx fun c => { c with flags.waitingEndHeaders := false } else w) := by
  unfold markEndHeaders
  split <;> exact ⟨id, id⟩

theorem handleHeaderBlock_simulates {header : FrameHeader} {data : Bytes} {size : ℤ}
    (h : FrameSteps w₀ w)
    (hb : ∀ n, 0 < n → w.ctx.stream.buflen + n ≤ http2StreamBufSize → BlockReady w header n) :
    Simulates (handleHeaderBlock server header data size) w₀ w := by
  simp only [Simulates, handleHeaderBlock, wp_bind, wp_getCtx]
  simp only [wp_ite]
  refine ⟨fun _ => failWith_simulates h, fun hn => ?_⟩
  generalize hc : min size (http2StreamBufSize - w.ctx.stream.buflen) = copylen at hn
  have hready : BlockReady w header copylen.toNat := by
    refine hb _ (by omega) ?_
    have : copylen ≤ (http2StreamBufSize : ℤ) - w.ctx.stream.buflen := hc ▸ min_le_right _ _
    omega
  have hsim : Simulates (endStreamIfComplete server) w₀ (w.block header data copylen.toNat) :=
    endStreamIfComplete_simulates h (.block w header data _ hready) (.block header data _ hready)
  by_cases ht : w.ctx.flags.waitingTrailers = true
  · simpa [World.block, ht, Simulates] using hsim
  · simpa [World.block, ht, Simulates] using hsim

theorem handleHeadersPayload_simulates {header : FrameHeader} {payload : Bytes}
    (h : FrameSteps w₀ w)
    (hb : ∀ n, 0 < n → w.ctx.stream.buflen + n ≤ http2StreamBufSize → BlockReady w header n) :
    Simulates (handleHeadersPayload server header payload) w₀ w := by
  simp only [Simulates, handleHeadersPayload, wp_ite]
  exact ⟨fun _ => failWith_simulates h, fun _ => ⟨fun _ => handleHeaderBlock_simulates h hb,
    fun _ => handleHeaderBlock_simulates h hb⟩⟩

theorem handleHeadersFrame_simulates {header : FrameHeader} {payload : Bytes}
    (h : FrameSteps w₀ w) (ht : header.type = .headers) (hj : JustReceived w header payload)
    (halive : w.ctx.state = .ready ∨ w.ctx.state = .closing) :
    Simulates (handleHeadersFrame server header payload) w₀ w := by
  obtain ⟨before, hlog⟩ := hj
  simp only [Simulates, handleHeadersFrame, wp_bind, wp_getCtx]
  simp only [wp_ite, wp_bind, wp_modifyCtx, wp_setStreamState, wp_pure]
  refine ⟨fun _ => h, fun hclosing => ⟨fun _ => failWith_simulates h, fun _ =>
    ⟨fun _ => failWith_simulates h, fun hodd => ⟨fun _ => failWith_simulates h, fun hrefused =>
      ⟨fun _ => failWith_simulates h, fun hstate => ⟨fun hid => ⟨fun _ =>
        http2StreamError_simulates h (.inl (by omega)), fun _ => ?_⟩, fun hid => ?_⟩⟩⟩⟩⟩⟩
  all_goals have hready : w.ctx.state = .ready := halive.resolve_right hclosing
  · have hs : w.ctx.stream.state ≠ .halfClosedRemote ∧ w.ctx.stream.state ≠ .closed :=
      ⟨fun hs => hstate ⟨hid, .inl hs⟩, fun hs => hstate ⟨hid, .inr hs⟩⟩
    refine handleHeadersPayload_simulates
      (h.tail (.trailers w header payload ⟨before, hlog⟩ ht hready hid hs))
      fun n hn hfit => ?_
    exact ⟨hn, hfit, rfl, hs.2, .inl ⟨ht, hid, payload, w.toState, before, [], hlog, by simp⟩⟩
  -- the identifier is neither below the last one nor equal to it: a new stream
  · have hlt : w.ctx.lastOpenedStreamId < header.streamId := by omega
    have hs : w.ctx.stream.state = .closed := by
      by_contra hs
      exact hrefused ⟨hlt, hs⟩
    have hstep : FrameStep true w (w.opening header.streamId) :=
      .openStream w header payload ⟨before, hlog⟩ ht hready hlt (by omega) hs
    refine handleHeadersPayload_simulates (h.tail hstep) fun n hn hfit => ?_
    refine ⟨hn, hfit, rfl, StreamState.noConfusion, .inl ⟨ht, rfl, payload, w.toState, before,
      [.streamState .opened (w.onCtx fun c => c.openStream header.streamId).toState], ?_, ?_⟩⟩
    · simp [World.streamTo, hlog]
    · simp

theorem handleDataFrame_simulates {header : FrameHeader} {payload : Bytes}
    (h : FrameSteps w₀ w) (ht : header.type = .data) (hj : JustReceived w header payload) :
    Simulates (handleDataFrame server header payload) w₀ w := by
  simp only [Simulates, handleDataFrame, wp_bind, wp_getCtx]
  simp only [wp_ite, wp_bind, wp_markEndStream, wp_pure]
  refine ⟨fun _ => failWith_simulates h, fun hid => ⟨fun hlt =>
    http2StreamError_simulates h (.inl (by omega)), fun hlt => ⟨fun _ =>
      http2StreamError_simulates h (.inl (by omega)), fun hs => ⟨fun _ => failWith_simulates h, fun _ => ?_⟩⟩⟩⟩
  have hd : DataReady w header := ⟨ht, by omega, not_not.mp hs, payload, hj⟩
  exact endStreamIfComplete_simulates h (.data w header hd) (.data header hd)

theorem handleContinuationFrame_simulates {header : FrameHeader} {payload : Bytes}
    (h : FrameSteps w₀ w) (ht : header.type = .continuation) (hj : JustReceived w header payload) :
    Simulates (handleContinuationFrame server header payload) w₀ w := by
  simp only [Simulates, handleContinuationFrame, wp_bind, wp_getCtx]
  simp only [wp_ite]
  refine ⟨fun _ => failWith_simulates h, fun hready => ?_⟩
  simp only [not_or, not_and_or, not_not] at hready
  refine handleHeaderBlock_simulates h fun n hn hfit =>
    ⟨hn, hfit, by simpa using hready.2.2, ?_, .inr ⟨ht, payload, hj⟩⟩
  rcases hready.2.1 with hs | hs <;> simp [hs]

/-- A connection whose frames are handled: it is ready or closing, and `HTTP2_FLAGS_GOAWAY_SENT`,
which no code sets, is not set. -/
structure Alive (w : World) : Prop where
  state : w.ctx.state = .ready ∨ w.ctx.state = .closing
  sent : w.ctx.flags.goawaySent = false

theorem handleFrame_simulates {header : FrameHeader} {payload : Bytes} (h : FrameSteps w₀ w)
    (ha : Alive w) (hj : JustReceived w header payload) :
    Simulates (handleFrame server header payload) w₀ w := by
  unfold handleFrame
  split
  · exact handleGoawayFrame_simulates h ha.sent ‹_› hj
  · exact handleSettingsFrame_simulates h
  · exact handlePingFrame_simulates h
  · exact handleHeadersFrame_simulates h ‹_› hj ha.state
  · exact handleContinuationFrame_simulates h ‹_› hj
  · exact handleWindowUpdateFrame_simulates h ‹_› hj
  · exact handleRstStreamFrame_simulates h ‹_› hj
  · exact handleDataFrame_simulates h ‹_› hj
  · simp only [Simulates, wp_bind, wp_pure]
    exact http2Error_simulates h
  · exact h
  · exact h

/-- A parameter of SETTINGS changes the settings, the window of the stream and the HPACK table. -/
theorem applySetting_eq {id value : ℕ} {c c' : Context} (h : applySetting c id value = .ok c') :
    ∃ settings windowSize table, c' = { c with
      settings := settings, stream.windowSize := windowSize, hpackDynamicTable := table } := by
  unfold applySetting at h
  repeat' split at h
  all_goals first | cases h | (dsimp only at h; split at h <;> cases h)
  all_goals exact ⟨_, _, _, rfl⟩

/-- The state of the connection changes only to `HTTP2_CLOSING` while a frame is handled. -/
theorem FrameStep.ctx_state {live : Bool} (h : FrameStep live w w') :
    w'.ctx.state = w.ctx.state ∨ w'.ctx.state = .closing := by
  cases h with
  | error e hw => simp
  | quiet _ hq => exact .inl hq.state
  | goaway => simp
  | reset e id _ _ =>
    left
    by_cases hid : id = w.ctx.stream.id <;> simp [hid]
  | openStream => exact .inl rfl
  | trailers => exact .inl rfl
  | setting id value c hc => 
    obtain ⟨_, _, _, rfl⟩ := applySetting_eq hc
    exact .inl rfl
  | request w₁ t hs res hr _ => simp [hr.state]
  | answer w₁ t hs res t' block hr _ _ _ => simp [hr.state]
  | windowSend => simp [Context.advance]
  | _ => simp

theorem FrameStep.goawaySent {live : Bool} (h : FrameStep live w w') :
    w'.ctx.flags.goawaySent = w.ctx.flags.goawaySent := by
  cases h with
  | error e hw => simp [Flags.keepGoawaySent]
  | quiet _ hq =>
    have := congrArg Flags.goawaySent hq.flags
    exact this
  | reset e id _ _ => by_cases hid : id = w.ctx.stream.id <;> simp [hid]
  | openStream => rfl
  | trailers => rfl
  | setting id value c hc =>
    obtain ⟨_, _, _, rfl⟩ := applySetting_eq hc
    rfl
  | request w₁ t hs res hr _ => simp [hr.goawaySent]
  | answer w₁ t hs res t' block hr _ _ _ => simp [hr.goawaySent]
  | windowSend => simp [Context.advance]
  | _ => simp

/-- A frame step leaves the connection alive. -/
theorem FrameStep.alive {live : Bool} (h : FrameStep live w w') (ha : Alive w) : Alive w' := by
  refine ⟨?_, h.goawaySent.trans ha.sent⟩
  rcases h.ctx_state with hs | hs
  · rw [hs]
    exact ha.state
  · exact .inr hs

theorem FrameSteps.alive (h : FrameSteps w w') (ha : Alive w) : Alive w' := by
  induction h with
  | refl => exact ha
  | tail _ hs ih => exact hs.alive ih

theorem FrameAborts.trans {w₁ : World} (h : FrameSteps w₀ w) (ha : FrameAborts w w₁) :
    FrameAborts w₀ w₁ := by
  obtain ⟨u, v, hu, hv, hlog⟩ := ha
  exact ⟨u, v, ReflTransGen.trans h hu, hv, hlog⟩

/-- The loop of `receiving` only makes frame steps. -/
theorem receivingLoop_simulates (fuel bytesRead : ℕ) (buf : Bytes) {w : World}
    (h : FrameSteps w₀ w) (ha : Alive w) :
    Simulates (receivingLoop server fuel bytesRead buf) w₀ w := by
  induction fuel generalizing bytesRead buf w with
  | zero => exact h
  | succ fuel ih =>
    simp only [Simulates, receivingLoop, wp_ite, wp_bind, wp_record, wp_getCtx, wp_pure]
    generalize frameParseHeader buf = header
    generalize List.drop http2FrameHeaderSize buf = payload
    have hstep : FrameStep true w (w.add (.frame header payload)) := .frame w header payload
    have hframe := h.tail hstep
    refine ⟨fun _ => h, fun _ => ⟨fun _ => http2Error_simulates hframe, fun _ =>
      ⟨fun _ => http2Error_simulates hframe, fun _ => ⟨fun _ => h, fun _ =>
        ⟨fun _ => http2Error_simulates hframe, fun _ => ?_⟩⟩⟩⟩⟩
    have hsim : Simulates (handleFrame server header payload) _ (w.add (.frame header payload)) :=
      handleFrame_simulates .refl (hstep.alive ha) ⟨w.log, rfl⟩
    refine hsim.mono (fun rc w' h' => ?_) fun _ _ => FrameAborts.trans hframe
    have hall := hframe.trans h'
    exact ⟨fun _ => hall, fun _ => ih _ _ hall (FrameSteps.alive h' (hstep.alive ha))⟩

end Requests

end Steps

end Two
