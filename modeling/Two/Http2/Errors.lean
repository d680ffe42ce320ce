import Two.Http2.Receiving

/-!
# What follows a connection error

After `http2_error` a frame handler should return a negative number, which makes `receiving` leave its
loop. Three errors are not reported: a PUSH_PROMISE frame, an unacceptable parameter of a SETTINGS
frame, and a request that a DATA frame completes and that cannot be answered. Behind such a frame
the loop goes on.

## Main definitions

* `ErrorIsLast`: what is claimed of `receiving`
* `Unanswerable`, `SilentError`: the errors that are not reported
* `Guarded`: behind an error that is not reported there is nothing to handle

## Main results

* `handleFrame_tells`, `handleFrame_hides`: whether a handler reports its error
* `errorIsLast_iff`: when nothing is handled after an error
-/

namespace Two

open Program Trace

/-! ## Traces that end with an error -/

/-- The part of a trace from its first error on. -/
def fromError (log : List Entry) : List Entry := log.dropWhile fun e => !e.isError

/-- A GOAWAY frame with this error code is sent. -/
@[simp] def Entry.isGoaway (code : ℕ) : Entry → Bool
  | .send (.goaway errorCode _) _ => errorCode = code
  | _ => false

/-- Only the GOAWAY frame of an error follows it. -/
@[simp] def onlyGoaway : List Entry → Bool
  | .error code _ :: rest => rest.length = 1 && rest.all (Entry.isGoaway code.code)
  | _ => true

/-- The contexts differ at most in the state of the connection, the flags and the timer. -/
structure SameData (c c' : Context) : Prop where
  stream : c'.stream = c.stream
  window : c'.windowSize = c.windowSize
  settings : c'.settings = c.settings
  table : c'.hpackDynamicTable = c.hpackDynamicTable
  last : c'.lastOpenedStreamId = c.lastOpenedStreamId

/-- Nothing but its GOAWAY frame follows an error that was raised between `w` and `w'`. -/
structure EndsAtError (w w' : World) : Prop where
  trace : onlyGoaway (fromError (w'.log.drop w.log.length))
  data : ∀ code s rest, fromError (w'.log.drop w.log.length) = .error code s :: rest →
    SameData s.ctx w'.ctx

/-- `receiving` handles no frame of the buffer after an error; where an assertion fails, the program
ends. -/
def ErrorIsLast (server : Server) (buf : Bytes) (w : World) : Prop :=
  wp (receiving server buf.length buf) (fun _ w' => EndsAtError w w')
    (fun _ w' => onlyGoaway (fromError (w'.log.drop w.log.length))) w

section Clean

variable {w₀ w w' u : World}

/-- No error since `w₀`. -/
def Clean (w₀ w : World) : Prop := ∃ new, w.log = w₀.log ++ new ∧ errored new = false

/-- An error has been raised since `w₀`, and nothing else happened after it. -/
def Failed (w₀ w : World) : Prop := ∃ u code, Clean w₀ u ∧ w = u.fail code

/-- An assertion failed before an error, or while its GOAWAY frame was written. -/
def Died (w₀ w : World) : Prop := Clean w₀ w ∨ ∃ u code, Clean w₀ u ∧ w.log = (u.fail code).log

theorem Clean.refl (w : World) : Clean w w := ⟨[], by simp, rfl⟩

theorem Clean.append {new : List Entry} (h : Clean w₀ w) (hlog : w'.log = w.log ++ new)
    (hnew : errored new = false) : Clean w₀ w' := by
  obtain ⟨old, hold, herr⟩ := h
  exact ⟨old ++ new, by rw [hlog, hold, List.append_assoc], by simp [herr, hnew]⟩

theorem Clean.same (h : Clean w₀ w) (hlog : w'.log = w.log) : Clean w₀ w' :=
  have hnil : w'.log = w.log ++ [] := by simpa using hlog
  h.append hnil rfl

theorem fromError_append {a b : List Entry} (h : errored a = false) :
    fromError (a ++ b) = fromError b := by
  simp only [fromError]
  rw [List.dropWhile_append_of_pos]
  intro e he
  simpa using List.any_eq_false.mp h e he

theorem fromError_of_clean {new : List Entry} (h : errored new = false) : fromError new = [] := by
  simpa [fromError] using fromError_append (b := []) h

/-- Without an error there is nothing to show. -/
theorem Clean.endsAtError (h : Clean w₀ w) : EndsAtError w₀ w := by
  obtain ⟨new, hlog, hnew⟩ := h
  have hnone : fromError (w.log.drop w₀.log.length) = [] := by
    rw [hlog, List.drop_left, fromError_of_clean hnew]
  refine ⟨by rw [hnone]; rfl, fun code s rest hcons => ?_⟩
  rw [hnone] at hcons
  cases hcons

theorem fromError_fail {code : Http2Error} (h : Clean w₀ u) :
    fromError ((u.fail code).log.drop w₀.log.length) =
      [.error code u.toState, .send (.goaway code.code u.ctx.lastOpenedStreamId)
        (u.failing code).toState] := by
  obtain ⟨new, hlog, hnew⟩ := h
  rw [World.fail_log, hlog, List.append_assoc, List.drop_left, fromError_append hnew]
  rfl

theorem Failed.endsAtError (h : Failed w₀ w) : EndsAtError w₀ w := by
  obtain ⟨u, code, hu, rfl⟩ := h
  refine ⟨?_, fun code' s rest hcons => ?_⟩
  · rw [fromError_fail hu]
    simp
  · rw [fromError_fail hu] at hcons
    obtain ⟨he, -⟩ := List.cons.inj hcons
    obtain ⟨-, rfl⟩ := Entry.error.inj he
    constructor <;> simp

theorem Died.onlyGoaway (h : Died w₀ w) : onlyGoaway (fromError (w.log.drop w₀.log.length)) := by
  rcases h with hclean | ⟨u, code, hu, hlog⟩
  · exact hclean.endsAtError.trace
  · rw [hlog, fromError_fail hu]
    simp

end Clean

/-! ## Handlers that report their errors -/

/-- The program reports an error by a negative result. -/
def Tells (m : M ℤ) (w₀ w : World) : Prop :=
  wp m (fun rc w' => Clean w₀ w' ∨ (rc < 0 ∧ Failed w₀ w')) (fun _ => Died w₀) w

/-- The program raises an error and does not report it, or the GOAWAY frame fails an assertion. -/
def Hides (m : M ℤ) (w₀ w : World) : Prop :=
  wp m (fun rc w' => ¬ rc < 0 ∧ Failed w₀ w' ∧ Writable w) (fun _ w' => Died w₀ w' ∧ ¬ Writable w) w

section Handlers

variable {w₀ w : World} {header : FrameHeader} {payload : Bytes}

/-- An error is raised, or the assertion of its GOAWAY frame fails. -/
theorem http2Error_fails {e : Http2Error} (h : Clean w₀ w) :
    wp (http2Error e) (fun _ w' => Failed w₀ w' ∧ Writable w)
      (fun _ w' => Died w₀ w' ∧ ¬ Writable w) w :=
  http2Error_wp (fun hw => ⟨⟨w, e, h, rfl⟩, hw⟩) fun hw _ _ hlog _ => ⟨.inr ⟨w, e, h, hlog⟩, hw⟩

/-- The same, where the socket is that of another world. -/
theorem http2Error_fails_of {e : Http2Error} {u : World} (h : Clean w₀ u)
    (hw : Writable u ↔ Writable w) :
    wp (http2Error e) (fun _ w' => Failed w₀ w' ∧ Writable w)
      (fun _ w' => Died w₀ w' ∧ ¬ Writable w) u :=
  (http2Error_fails h).mono (fun _ _ hf => ⟨hf.1, hw.mp hf.2⟩)
    fun _ _ hd => ⟨hd.1, fun h' => hd.2 (hw.mpr h')⟩

theorem writable_congr {u : World} (hs : u.sock = w.sock) (hl : u.loop.writes = w.loop.writes) :
    Writable u ↔ Writable w := by
  constructor
  · exact fun h => ⟨hs ▸ h.connected, hs ▸ h.enabled, hl ▸ hs ▸ h.pool⟩
  · exact fun h => ⟨hs ▸ h.connected, hs ▸ h.enabled, hl ▸ hs ▸ h.pool⟩

theorem failWith_tells {e : Http2Error} (h : Clean w₀ w) : Tells (failWith e) w₀ w := by
  simp only [Tells, failWith, wp_bind, wp_pure]
  exact (http2Error_fails h).mono (fun _ _ hf => .inr ⟨by decide, hf.1⟩) fun _ _ hd => hd.1

theorem sendFrame_clean {f : Frame} {cb : WriteCb} (h : Clean w₀ w) :
    wp (sendFrame f cb) (fun _ => Clean w₀) (fun _ => Died w₀) w :=
  sendFrame_wp (fun _ _ => h.append (World.written_log ..) rfl)
    fun _ _ _ hlog _ => .inl (h.append hlog rfl)

theorem http2StreamError_clean {e : Http2Error} {streamId : ℕ} (h : Clean w₀ w) :
    wp (http2StreamError streamId e) (fun _ => Clean w₀) (fun _ => Died w₀) w := by
  simp only [http2StreamError, sendRstStreamFrame, wp_bind, wp_record, wp_getCtx, wp_ite,
    wp_setStreamState, wp_pure]
  refine (sendFrame_clean h).mono (fun _ w' hw => ?_) fun _ _ => id
  have hreset : Clean w₀ (w'.add fun _ => .reset streamId) := hw.append (World.add_log ..) rfl
  exact ⟨fun _ => hreset.append (World.streamTo_log ..) rfl, fun _ => hreset⟩

theorem handlePingFrame_tells (h : Clean w₀ w) : Tells (handlePingFrame header payload) w₀ w := by
  simp only [Tells, handlePingFrame, wp_ite, wp_bind, wp_pure]
  refine ⟨fun _ => failWith_tells h, fun _ => ⟨fun _ => failWith_tells h, fun _ =>
    ⟨fun _ => .inl h, fun _ => ?_⟩⟩⟩
  exact (sendFrame_clean h).mono (fun _ _ => .inl) fun _ _ => id

theorem eventRead_clean {cb : ReadCb} (h : Clean w₀ w) :
    wp (eventRead cb) (fun _ => Clean w₀) (fun _ => Died w₀) w :=
  eventRead_wp (fun _ => h.append (World.reading_log ..) rfl)
    fun _ _ hlog => .inl (h.append hlog rfl)

theorem handleGoawayFrame_tells (h : Clean w₀ w) :
    Tells (handleGoawayFrame header payload) w₀ w := by
  simp only [Tells, handleGoawayFrame, sendGoawayFrame, wp_ite, wp_bind, wp_getCtx, wp_modifyCtx,
    wp_setStreamState, wp_http2CloseImmediate, wp_pure]
  refine ⟨fun _ => failWith_tells h, fun _ => ⟨fun _ => failWith_tells h, fun _ =>
    ⟨fun _ => .inl (h.append (World.closeImmediate_log _) rfl), fun _ => ⟨fun _ => .inl h,
      fun _ => ?_⟩⟩⟩⟩
  -- whether the stream is closed or not, the frame is answered
  have hanswer : ∀ {u : World}, Clean w₀ u → ∀ last, wp (eventRead .receiving)
      (fun _ w' => wp (sendFrame (.goaway Http2Error.noError.code last) .closeOnGoawaySent)
        (fun _ w' => Clean w₀ w' ∨ ((0 : ℤ) < 0 ∧ Failed w₀ w')) (fun _ => Died w₀) w')
      (fun _ => Died w₀) u := by
    intro u hu last
    refine (eventRead_clean hu).mono (fun _ w' hw' => ?_) fun _ _ => id
    exact (sendFrame_clean hw').mono (fun _ _ => .inl) fun _ _ => id
  have hclosed :
      Clean w₀ ((w.onCtx fun c => { c with flags.goawayRecv := true }).streamTo .closed) :=
    h.append (World.streamTo_log ..) rfl
  refine ⟨fun _ => hanswer ?_ _, fun _ => hanswer ?_ _⟩
  · exact hclosed.same rfl
  · exact h.same rfl

theorem http2ContinueSend_clean (h : Clean w₀ w) :
    wp http2ContinueSend (fun _ => Clean w₀) (fun _ => Died w₀) w :=
  http2ContinueSend_wp (fun _ => h) (fun _ _ => h.append (World.continued_log _) rfl)
    fun _ _ _ _ hlog _ => .inl (h.append (hlog.trans (World.continued_log _)) rfl)

theorem handleWindowUpdateFrame_tells (h : Clean w₀ w) :
    Tells (handleWindowUpdateFrame header payload) w₀ w := by
  simp only [Tells, handleWindowUpdateFrame, wp_bind, wp_getCtx]
  simp only [wp_ite, wp_bind, wp_record, wp_modifyCtx, wp_pure]
  refine ⟨fun _ => failWith_tells h, fun _ => ⟨fun _ => failWith_tells h, fun _ =>
    ⟨fun _ => failWith_tells h, fun _ => ⟨fun _ => failWith_tells h, fun _ =>
      ⟨fun _ => ⟨fun _ => failWith_tells h, fun _ => ?_⟩, fun _ => ⟨fun _ => ?_, fun _ => ?_⟩⟩⟩⟩⟩⟩
  · exact .inl (@Clean.append _ _ _ [_] h rfl rfl)
  · exact (http2StreamError_clean h).mono (fun _ _ => .inl) fun _ _ => id
  · exact (http2ContinueSend_clean (@Clean.append _ _ _ [_] h rfl rfl)).mono (fun _ _ => .inl)
      fun _ _ => id

theorem handleRstStreamFrame_tells (h : Clean w₀ w) : Tells (handleRstStreamFrame header) w₀ w := by
  simp only [Tells, handleRstStreamFrame, wp_bind, wp_getCtx, wp_ite, wp_record,
    wp_setStreamState, wp_pure]
  refine ⟨fun _ => failWith_tells h, fun _ => ⟨fun _ => failWith_tells h, fun _ =>
    ⟨fun _ => failWith_tells h, fun _ => .inl ?_⟩⟩⟩
  exact h.append (World.rstBy_log ..) rfl

/-! ## SETTINGS frames -/

/-- `update_settings` refuses the parameters that are not acceptable. -/
theorem applySetting_of_not_acceptable {c : Context} {id value : ℕ} (h : ¬ acceptable id value) :
    ∃ e, applySetting c id value = .error e := by
  unfold applySetting
  unfold acceptable at h
  split
  · omega
  · exact ⟨_, if_pos (by omega)⟩
  · omega
  · exact ⟨_, if_pos (by omega)⟩
  · exact ⟨_, if_pos (by omega)⟩
  · omega
  · rename_i h1 h2 h3 h4 h5 h6
    exact absurd ⟨fun h => absurd h h2, fun h => absurd h h4, fun h => absurd h h5⟩ h

/-- Acceptable parameters raise no error. -/
theorem updateSettingsLoop_clean (parameters : List (ℕ × ℕ)) (total : ℕ) {w : World}
    (h : Clean w₀ w) (hall : ∀ p ∈ parameters, acceptable p.1 p.2) :
    wp (updateSettingsLoop parameters total) (fun _ => Clean w₀) (fun _ => Died w₀) w := by
  induction parameters generalizing total w with
  | nil => exact h
  | cons p parameters ih =>
    obtain ⟨id, value⟩ := p
    simp only [updateSettingsLoop, wp_bind, wp_getCtx]
    cases ha : applySetting w.ctx id value with
    | error e => exact absurd (hall _ List.mem_cons_self) (applySetting_error ha)
    | ok c =>
      simp only [wp_bind, wp_record, wp_modifyCtx]
      exact ih _ (h.append (World.stored_log w id value c) rfl)
        fun p hp => hall p (List.mem_cons_of_mem _ hp)

/-- The first parameter that is not acceptable raises an error, which makes the result zero. -/
theorem updateSettingsLoop_fails (parameters : List (ℕ × ℕ)) (total : ℕ) {w : World}
    (h : Clean w₀ w) (hsome : ¬ ∀ p ∈ parameters, acceptable p.1 p.2) :
    wp (updateSettingsLoop parameters total) (fun total w' => total = 0 ∧ Failed w₀ w' ∧ Writable w)
      (fun _ w' => Died w₀ w' ∧ ¬ Writable w) w := by
  induction parameters generalizing total w with
  | nil => simp at hsome
  | cons p parameters ih =>
    obtain ⟨id, value⟩ := p
    simp only [updateSettingsLoop, wp_bind, wp_getCtx]
    cases ha : applySetting w.ctx id value with
    | error e =>
      simp only [wp_bind, wp_pure]
      exact (http2Error_fails h).mono (fun _ _ hf => ⟨trivial, hf⟩) fun _ _ hd => hd
    | ok c =>
      simp only [wp_bind, wp_record, wp_modifyCtx]
      have hacc : acceptable id value := by
        by_contra hacc
        obtain ⟨e, he⟩ := applySetting_of_not_acceptable (c := w.ctx) hacc
        simp [ha] at he
      have hsock : Writable (w.stored id value c) ↔ Writable w := writable_congr rfl rfl
      refine (ih _ (h.append (World.stored_log w id value c) rfl) fun hall => ?_).mono
        (fun _ _ hf => ⟨hf.1, hf.2.1, hsock.mp hf.2.2⟩) fun _ _ hd => ⟨hd.1, mt hsock.mpr hd.2⟩
      exact hsome fun p hp => (List.mem_cons.mp hp).elim (fun hp => hp ▸ hacc) (hall p)

/-- The SETTINGS frames whose error `handle_settings_frame` does not report. -/
def SilentSettings (header : FrameHeader) (payload : Bytes) : Prop :=
  header.streamId = 0 ∧ header.has frameFlagsAck = false ∧ header.length % 6 = 0 ∧
    ¬ Acceptable header payload

instance (header : FrameHeader) (payload : Bytes) : Decidable (SilentSettings header payload) :=
  inferInstanceAs (Decidable (_ ∧ _ ∧ _ ∧ _))

theorem handleSettingsFrame_tells (h : Clean w₀ w) (hs : ¬ SilentSettings header payload) :
    Tells (handleSettingsFrame header payload) w₀ w := by
  simp only [Tells, handleSettingsFrame, updateSettings, sendSettingsFrame, wp_ite, wp_bind,
    wp_getCtx, wp_modifyCtx, wp_pure]
  refine ⟨fun _ => failWith_tells h, fun hid => ⟨fun hack => ⟨fun _ => failWith_tells h,
    fun hlen => ?_⟩, fun _ => ⟨fun _ => failWith_tells h, fun _ => ⟨fun _ => .inl h, fun _ => ?_⟩⟩⟩⟩
  · have hall : Acceptable header payload := by
      by_contra hall
      exact hs ⟨not_not.mp hid, by simpa using hack, not_not.mp hlen, hall⟩
    refine (updateSettingsLoop_clean _ 0 h hall).mono (fun total w' hw => ?_) fun _ _ => id
    exact ⟨fun _ => (sendFrame_clean hw).mono (fun _ _ => .inl) fun _ _ => id, fun _ => .inl hw⟩
  · cases ht : w.ctx.timer with
    | none =>
      simp only [eventTimerStop, wp_pure]
      exact .inl (h.same rfl)
    | some timer =>
      simp only [eventTimerStop, wp_bind, wp_get, wp_ite, wp_throw, wp_set]
      exact ⟨fun _ => .inl (h.same rfl), fun _ => .inl (h.same rfl)⟩

theorem handleSettingsFrame_hides (h : Clean w₀ w) (hs : SilentSettings header payload) :
    Hides (handleSettingsFrame header payload) w₀ w := by
  obtain ⟨hid, hack, hlen, hall⟩ := hs
  simp only [Hides, handleSettingsFrame, updateSettings, sendSettingsFrame, wp_ite, wp_bind,
    wp_pure, hack]
  refine ⟨fun hne => absurd hid hne, fun _ => ⟨fun _ => ⟨fun hne => absurd hlen hne, fun _ => ?_⟩,
    fun hne => absurd rfl hne⟩⟩
  refine (updateSettingsLoop_fails _ 0 h hall).mono (fun total w' hf => ?_) fun _ _ => id
  obtain ⟨rfl, hf⟩ := hf
  exact ⟨fun hpos => absurd hpos (by omega), fun _ => ⟨by decide, hf⟩⟩

/-! ## Requests -/

section Requests

variable (server : Server)

/-- The requests that `handle_end_stream` refuses, after the flags of the last frame were
handled: the header block cannot be decoded, a pseudo header is missing, or the headers of the
response cannot be encoded. -/
def Unanswerable (c : Context) (calls : ℕ) : Prop :=
  let result := Hpack.decode (server.behind calls) c.hpackDynamicTable c.stream.buf
    c.stream.buflen .reset
  result.rc = Hpack.compressionError ∨ result.rc = Hpack.memoryError ∨
    result.rc = Hpack.internalError ∨ validatePseudoheaders result.headers = false ∨
    ∃ r ∈ Hpack.encode result.table (responseHeaders (respond server result.headers c calls))
      .empty (frameMaxSize - 9), r.1 < 0

variable {server}

theorem handleRequest_clean {headers : HeaderList} (h : Clean w₀ w)
    (hr : ¬ ∃ r ∈ Hpack.encode w.ctx.hpackDynamicTable
      (responseHeaders (respond server headers w.ctx w.loop.calls)) .empty (frameMaxSize - 9),
      r.1 < 0) :
    wp (handleRequest server headers) (fun _ => Clean w₀) (fun _ => Died w₀) w := by
  simp only [handleRequest, sendHeadersFrame, wp_bind, wp_get, wp_set, wp_getCtx]
  have hreq : Clean w₀ (w.requested headers (respond server headers w.ctx w.loop.calls)) :=
    h.append (World.requested_log ..) rfl
  cases he : Hpack.encode w.ctx.hpackDynamicTable
      (responseHeaders (respond server headers w.ctx w.loop.calls)) .empty (frameMaxSize - 9) with
  | none => exact .inl hreq
  | some r =>
    obtain ⟨size, table, buffer⟩ := r
    have hsize : ¬ size < 0 := fun hneg => hr ⟨_, he, hneg⟩
    simp only [wp_bind, wp_modifyCtx, if_neg hsize, wp_pure]
    refine (sendFrame_clean ?_).mono (fun n w' hw => ?_) fun _ _ => id
    · exact hreq.same rfl
    · rw [wp_ite]
      exact ⟨fun hneg => absurd hneg (by omega), fun _ => hw⟩

theorem handleRequest_fails {headers : HeaderList} (h : Clean w₀ w)
    (hr : ∃ r ∈ Hpack.encode w.ctx.hpackDynamicTable
      (responseHeaders (respond server headers w.ctx w.loop.calls)) .empty (frameMaxSize - 9),
      r.1 < 0) :
    wp (handleRequest server headers) (fun rc w' => rc < 0 ∧ Failed w₀ w' ∧ Writable w)
      (fun _ w' => Died w₀ w' ∧ ¬ Writable w) w := by
  obtain ⟨⟨size, table, buffer⟩, he, hsize⟩ := hr
  have he : Hpack.encode w.ctx.hpackDynamicTable
      (responseHeaders (respond server headers w.ctx w.loop.calls)) .empty (frameMaxSize - 9) =
        some (size, table, buffer) := he
  have hsize : size < 0 := hsize
  simp only [handleRequest, sendHeadersFrame, failWith, wp_bind, wp_get, wp_set, wp_getCtx, he,
    wp_modifyCtx, if_pos hsize, wp_pure]
  have hreq : Clean w₀ (w.requested headers (respond server headers w.ctx w.loop.calls)) :=
    h.append (World.requested_log ..) rfl
  have hneg : (-1 : ℤ) < 0 := by decide
  refine (http2Error_fails_of (w := w) ?_ ?_).mono (fun _ _ hf => ⟨hneg, hf⟩) fun _ _ => id
  · exact hreq.same rfl
  · exact writable_congr rfl rfl

/-- A request that is answered raises no error. -/
theorem handleEndStream_clean (h : Clean w₀ w) (hu : ¬ Unanswerable server w.ctx w.loop.calls) :
    wp (handleEndStream server) (fun _ => Clean w₀) (fun _ => Died w₀) w := by
  simp only [Unanswerable, not_or, Bool.not_eq_false] at hu
  obtain ⟨h1, h2, h3, h4, h5⟩ := hu
  simp only [handleEndStream, wp_bind, wp_get, wp_record, wp_modifyCtx, if_neg h1, if_neg h2,
    if_neg h3, h4]
  exact handleRequest_clean (h.append (World.decoded_log ..) rfl) h5

/-- A request that is not answered raises an error. -/
theorem handleEndStream_fails (h : Clean w₀ w) (hu : Unanswerable server w.ctx w.loop.calls) :
    wp (handleEndStream server) (fun rc w' => rc < 0 ∧ Failed w₀ w' ∧ Writable w)
      (fun _ w' => Died w₀ w' ∧ ¬ Writable w) w := by
  have hdec : ∀ t, Clean w₀ (w.decoded t) := fun t => h.append (World.decoded_log ..) rfl
  have hwr : ∀ t, Writable (w.decoded t) ↔ Writable w := fun t => writable_congr rfl rfl
  have hfail : ∀ (t : Hpack.DynamicTable) (e : Http2Error), wp (failWith e)
      (fun rc w' => rc < 0 ∧ Failed w₀ w' ∧ Writable w) (fun _ w' => Died w₀ w' ∧ ¬ Writable w)
      (w.decoded t) := by
    intro t e
    simp only [failWith, wp_bind, wp_pure]
    exact (http2Error_fails_of (hdec t) (hwr t)).mono (fun _ _ hf => ⟨by decide, hf⟩) fun _ _ => id
  simp only [handleEndStream, wp_bind, wp_get, wp_record, wp_modifyCtx]
  simp only [wp_ite]
  refine ⟨fun _ => hfail _ _, fun h1 => ⟨fun _ => hfail _ _, fun h2 => ⟨fun _ => hfail _ _,
    fun h3 => ⟨fun _ => hfail _ _, fun h4 => ?_⟩⟩⟩⟩
  rcases hu with hu | hu | hu | hu | hu
  · exact absurd hu h1
  · exact absurd hu h2
  · exact absurd hu h3
  · simp [hu] at h4
  · exact (handleRequest_fails (hdec _) hu).mono
      (fun _ _ hf => ⟨hf.1, hf.2.1, (hwr _).mp hf.2.2⟩) fun _ _ hd => ⟨hd.1, mt (hwr _).mpr hd.2⟩

theorem endStreamIfComplete_tells (h : Clean w₀ w) : Tells (endStreamIfComplete server) w₀ w := by
  simp only [Tells, endStreamIfComplete, wp_bind, wp_getCtx, wp_ite, wp_pure]
  refine ⟨fun _ => ?_, fun _ => .inl h⟩
  by_cases hu : Unanswerable server w.ctx w.loop.calls
  · exact (handleEndStream_fails h hu).mono (fun _ _ hf => .inr ⟨hf.1, hf.2.1⟩) fun _ _ hd => hd.1
  · exact (handleEndStream_clean h hu).mono (fun _ _ => .inl) fun _ _ => id

theorem errored_markEntry (u : World) (header : FrameHeader) :
    errored (u.markEntry header) = false := (silent_markEntry u header).errored

theorem handleHeaderBlock_tells {data : Bytes} {size : ℤ} (h : Clean w₀ w) :
    Tells (handleHeaderBlock server header data size) w₀ w := by
  simp only [Tells, handleHeaderBlock, wp_bind, wp_getCtx]
  simp only [wp_ite]
  refine ⟨fun _ => failWith_tells h, fun _ => ?_⟩
  generalize min size (http2StreamBufSize - w.ctx.stream.buflen) = copylen
  have hblock : Tells (endStreamIfComplete server) w₀ (w.block header data copylen.toNat) :=
    endStreamIfComplete_tells (h.append (World.block_log ..) (errored_markEntry _ _))
  by_cases ht : w.ctx.flags.waitingTrailers = true
  · simpa [World.block, ht, Tells] using hblock
  · simpa [World.block, ht, Tells] using hblock

theorem handleHeadersPayload_tells (h : Clean w₀ w) :
    Tells (handleHeadersPayload server header payload) w₀ w := by
  simp only [Tells, handleHeadersPayload, wp_ite]
  exact ⟨fun _ => failWith_tells h, fun _ => ⟨fun _ => handleHeaderBlock_tells h,
    fun _ => handleHeaderBlock_tells h⟩⟩

theorem handleHeadersFrame_tells (h : Clean w₀ w) :
    Tells (handleHeadersFrame server header payload) w₀ w := by
  simp only [Tells, handleHeadersFrame, wp_bind, wp_getCtx]
  simp only [wp_ite, wp_bind, wp_modifyCtx, wp_setStreamState, wp_pure]
  refine ⟨fun _ => .inl h, fun _ => ⟨fun _ => failWith_tells h, fun _ => ⟨fun _ => failWith_tells h,
    fun _ => ⟨fun _ => failWith_tells h, fun _ => ⟨fun _ => failWith_tells h, fun _ =>
      ⟨fun _ => ⟨fun _ => ?_, fun _ => ?_⟩, fun _ => ?_⟩⟩⟩⟩⟩⟩
  · exact (http2StreamError_clean h).mono (fun _ _ => .inl) fun _ _ => id
  · exact handleHeadersPayload_tells (h.same rfl)
  · exact handleHeadersPayload_tells (h.append (World.opening_log ..) rfl)

theorem handleContinuationFrame_tells (h : Clean w₀ w) :
    Tells (handleContinuationFrame server header payload) w₀ w := by
  simp only [Tells, handleContinuationFrame, wp_bind, wp_getCtx]
  simp only [wp_ite]
  exact ⟨fun _ => failWith_tells h, fun _ => handleHeaderBlock_tells h⟩

/-- The DATA frames whose error `handle_data_frame` does not report: they complete a request that is
not answered. -/
structure SilentData (server : Server) (header : FrameHeader) (payload : Bytes) (c : Context)
    (calls : ℕ) : Prop where
  stream : header.streamId ≠ 0 ∧ header.streamId = c.lastOpenedStreamId
  opened : c.stream.state = .opened
  padding : ¬ (header.has frameFlagsPadded ∧ byteAt payload 0 ≥ header.length)
  endHeaders : (c.marked header).flags.waitingEndHeaders = false
  endStream : (c.marked header).flags.waitingEndStream = false
  refused : Unanswerable server (c.marked header) calls

theorem handleDataFrame_tells (h : Clean w₀ w)
    (hs : ¬ SilentData server header payload w.ctx w.loop.calls) :
    Tells (handleDataFrame server header payload) w₀ w := by
  simp only [Tells, handleDataFrame, wp_bind, wp_getCtx]
  simp only [wp_ite, wp_bind, wp_markEndStream, wp_pure]
  have hmark : Clean w₀ (w.marked header) := h.append (World.marked_log ..) (errored_markEntry _ _)
  have hstream : wp (http2StreamError header.streamId .streamClosedError)
      (fun _ w' => Clean w₀ w' ∨ ((-1 : ℤ) < 0 ∧ Failed w₀ w')) (fun _ => Died w₀) w :=
    (http2StreamError_clean h).mono (fun _ _ => .inl) fun _ _ => id
  refine ⟨fun _ => failWith_tells h, fun hid => ⟨fun _ => hstream, fun hlt => ⟨fun _ => hstream,
    fun hopen => ⟨fun _ => failWith_tells h, fun hpad => ?_⟩⟩⟩⟩
  simp only [endStreamIfComplete, wp_bind, wp_getCtx, wp_ite, wp_pure]
  refine ⟨fun hc => ?_, fun _ => .inl hmark⟩
  have hanswer : ¬ Unanswerable server (w.marked header).ctx (w.marked header).loop.calls := by
    intro hu
    simp only [World.marked_ctx, World.marked_loop] at hu
    refine hs ⟨by omega, not_not.mp hopen, hpad, ?_, ?_, hu⟩
    · simpa only [World.marked_ctx, Bool.not_eq_true'] using hc.1
    · simpa only [World.marked_ctx, Bool.not_eq_true'] using hc.2
  exact (handleEndStream_clean hmark hanswer).mono (fun _ _ => .inl) fun _ _ => id

theorem handleDataFrame_hides (h : Clean w₀ w)
    (hs : SilentData server header payload w.ctx w.loop.calls) :
    Hides (handleDataFrame server header payload) w₀ w := by
  have hmark : Clean w₀ (w.marked header) := h.append (World.marked_log ..) (errored_markEntry _ _)
  have hu : Unanswerable server (w.marked header).ctx (w.marked header).loop.calls := by
    simpa only [World.marked_ctx, World.marked_loop] using hs.refused
  obtain ⟨hid, hlast⟩ := hs.stream
  simp only [Hides, handleDataFrame, wp_bind, wp_getCtx]
  simp only [wp_ite, wp_bind, wp_markEndStream, wp_pure]
  refine ⟨fun hne => by omega, fun _ => ⟨fun hlt => by omega, fun _ => ⟨fun hne =>
    absurd hs.opened hne, fun _ => ⟨fun hpad => absurd hpad hs.padding, fun _ => ?_⟩⟩⟩⟩
  simp only [endStreamIfComplete, wp_bind, wp_getCtx, wp_ite, wp_pure]
  refine ⟨fun _ => ?_, fun hc => absurd ?_ hc⟩
  · have hsock : Writable (w.marked header) ↔ Writable w :=
      writable_congr (World.marked_sock ..) (by rw [World.marked_loop])
    exact (handleEndStream_fails hmark hu).mono
      (fun _ _ hf => ⟨by decide, hf.2.1, hsock.mp hf.2.2⟩) fun _ _ hd => ⟨hd.1, mt hsock.mpr hd.2⟩
  · simpa only [World.marked_ctx, Bool.not_eq_true'] using And.intro hs.endHeaders hs.endStream

/-! ## Frames -/

/-- The frames whose error is not reported. -/
def SilentError (server : Server) (header : FrameHeader) (payload : Bytes) (c : Context)
    (calls : ℕ) : Prop :=
  match header.type with
  | .pushPromise => True
  | .settings => SilentSettings header payload
  | .data => SilentData server header payload c calls
  | _ => False

/-- **A handler reports its error**, unless it is one of three. -/
theorem handleFrame_tells (h : Clean w₀ w)
    (hs : ¬ SilentError server header payload w.ctx w.loop.calls) :
    Tells (handleFrame server header payload) w₀ w := by
  unfold SilentError at hs
  unfold handleFrame
  split at hs
  · exact absurd trivial hs
  · rename_i ht
    simpa only [ht] using handleSettingsFrame_tells h hs
  · rename_i ht
    simpa only [ht] using handleDataFrame_tells h hs
  -- every other type reports each error it finds
  · rename_i hpush hset hdata
    split
    · exact handleGoawayFrame_tells h
    · exact absurd ‹_› hset
    · exact handlePingFrame_tells h
    · exact handleHeadersFrame_tells h
    · exact handleContinuationFrame_tells h
    · exact handleWindowUpdateFrame_tells h
    · exact handleRstStreamFrame_tells h
    · exact absurd ‹_› hdata
    · exact absurd ‹_› hpush
    · exact .inl h
    · exact .inl h

/-- The three errors that are not reported. -/
theorem handleFrame_hides (h : Clean w₀ w)
    (hs : SilentError server header payload w.ctx w.loop.calls) :
    Hides (handleFrame server header payload) w₀ w := by
  unfold SilentError at hs
  unfold handleFrame
  split at hs
  · rename_i ht
    simp only [ht, Hides, wp_bind, wp_pure]
    exact (http2Error_fails h).mono (fun _ _ hf => ⟨by decide, hf⟩) fun _ _ => id
  · rename_i ht
    simpa only [ht] using handleSettingsFrame_hides h hs
  · rename_i ht
    simpa only [ht] using handleDataFrame_hides h hs
  · exact hs.elim

/-- A frame in the read buffer whose error is not reported. -/
def Unreported (server : Server) (header : FrameHeader) (region : Bytes) (w : World) : Prop :=
  w.ctx.flags.waitingEndHeaders = false ∧ SilentError server header region w.ctx w.loop.calls

theorem receiveFrame_tells {w : World} (h : Clean w₀ w)
    (hs : ¬ Unreported server header payload w) :
    Tells (receiveFrame server header payload) w₀ w := by
  have hframe : Clean w₀ (w.add (.frame header payload)) := h.append (World.add_log ..) rfl
  simp only [Tells, receiveFrame, wp_bind, wp_getCtx, wp_record]
  rw [wp_ite]
  refine ⟨fun _ => failWith_tells hframe, fun hexpected => handleFrame_tells hframe fun hsilent => ?_⟩
  cases hwait : w.ctx.flags.waitingEndHeaders with
  | false => exact hs ⟨hwait, hsilent⟩
  | true =>
    have htype : header.type = .continuation := by
      by_contra htype
      exact hexpected ⟨hwait, htype⟩
    simp [SilentError, htype] at hsilent

theorem receiveFrame_hides {w : World} (h : Clean w₀ w)
    (hs : Unreported server header payload w) :
    Hides (receiveFrame server header payload) w₀ w := by
  have hframe : Clean w₀ (w.add (.frame header payload)) := h.append (World.add_log ..) rfl
  simp only [Hides, receiveFrame, wp_bind, wp_getCtx, wp_record]
  rw [wp_ite]
  refine ⟨fun hwait => by simp [hs.1] at hwait, fun _ => ?_⟩
  have hsock : Writable (w.add (.frame header payload)) ↔ Writable w := writable_congr rfl rfl
  exact (handleFrame_hides hframe hs.2).mono (fun _ _ hf => ⟨hf.1, hf.2.1, hsock.mp hf.2.2⟩)
    fun _ _ hd => ⟨hd.1, mt hsock.mpr hd.2⟩

end Requests

end Handlers

/-! ## The loop -/

/-- There is nothing to handle in the rest of the read buffer. -/
def NothingWhole (buf : Bytes) : Prop :=
  buf.length < 9 ∨
    ((frameParseHeader buf).length ≤ 512 ∧ buf.length < 9 + (frameParseHeader buf).length)

/-- The read buffer begins with a whole frame. -/
def Whole (buf : Bytes) : Prop :=
  (frameParseHeader buf).length ≤ 512 ∧ 9 + (frameParseHeader buf).length ≤ buf.length

/-- Behind a frame whose error is not reported, although its GOAWAY frame can be written, there is
nothing to handle. The frames of the buffer are looked at in the states in which they are
handled. -/
def Guarded (server : Server) : ℕ → Bytes → World → Prop
  | 0, _, _ => True
  | fuel + 1, buf, w => Whole buf →
    (Unreported server (frameParseHeader buf) (buf.drop 9) w → Writable w →
      NothingWhole (buf.drop (9 + (frameParseHeader buf).length))) ∧
    ∀ rc w', receiveFrame server (frameParseHeader buf) (buf.drop 9) w = .ok rc w' → ¬ rc < 0 →
      ¬ Unreported server (frameParseHeader buf) (buf.drop 9) w →
      Guarded server fuel (buf.drop (9 + (frameParseHeader buf).length)) w'

section Loop

variable {server : Server} {w₀ w : World} {buf : Bytes} {fuel n : ℕ}

theorem receivingLoop_idle (h : NothingWhole buf) : receivingLoop server fuel n buf w = .ok n w := by
  rcases h with hshort | ⟨hlen, hpart⟩
  · exact receivingLoop_short hshort
  · exact receivingLoop_incomplete hlen hpart

/-- What the loop does with a buffer. -/
theorem idle_or_large_or_whole (buf : Bytes) :
    NothingWhole buf ∨ (9 ≤ buf.length ∧ 512 < (frameParseHeader buf).length) ∨ Whole buf := by
  unfold NothingWhole Whole
  omega

/-- What is shown of the loop. -/
def LoopEnds (server : Server) (fuel n : ℕ) (buf : Bytes) (w₀ w : World) : Prop :=
  wp (receivingLoop server fuel n buf) (fun _ w' => Clean w₀ w' ∨ Failed w₀ w') (fun _ => Died w₀) w

/-- Where the buffer is guarded, an error is the last thing that happens. -/
theorem loopEnds_of_guarded (h : Clean w₀ w) (hg : Guarded server fuel buf w) :
    LoopEnds server fuel n buf w₀ w := by
  induction fuel generalizing n buf w with
  | zero => exact .inl h
  | succ fuel ih =>
    rcases idle_or_large_or_whole buf with hidle | ⟨hshort, hlarge⟩ | hwhole
    · rw [LoopEnds, wp, receivingLoop_idle hidle]
      exact .inl h
    -- a frame that is too large is reported, and the loop ends
    · rw [LoopEnds, wp_congr (receivingLoop_large hshort hlarge)]
      simp only [wp_bind, wp_record, wp_pure]
      have hframe : Clean w₀ (w.add (.frame (frameParseHeader buf) (buf.drop 9))) :=
        h.append (World.add_log ..) rfl
      exact (http2Error_fails hframe).mono (fun _ _ hf => .inr hf.1) fun _ _ hd => hd.1
    · obtain ⟨hsilent, hrest⟩ := hg hwhole
      rw [LoopEnds, wp_congr (receivingLoop_whole hwhole.1 hwhole.2), wp_bind]
      by_cases hs : Unreported server (frameParseHeader buf) (buf.drop 9) w
      · -- the loop goes on, but finds nothing
        refine (receiveFrame_hides h hs).mono (fun rc w' hf => ?_) fun _ _ hd => hd.1
        rw [if_neg hf.1, wp, receivingLoop_idle (hsilent hs hf.2.2)]
        exact .inr hf.2.1
      · refine (receiveFrame_tells h hs).result.mono (fun rc w' hf => ?_) fun _ _ => id
        obtain ⟨hends, hrun⟩ := hf
        rw [wp_ite]
        refine ⟨fun hrc => hends.imp id And.right, fun hrc => ?_⟩
        have hclean : Clean w₀ w' := hends.resolve_right fun hneg => hrc hneg.1
        exact ih hclean (hrest rc w' hrun hrc hs)

/-! ## Events after an error -/

theorem Clean.log_le {w' : World} (h : Clean w₀ w') : w₀.log <+: w'.log := by
  obtain ⟨new, hlog, -⟩ := h
  exact ⟨new, hlog.symm⟩

theorem Failed.log_le {w' : World} (h : Failed w₀ w') : w₀.log <+: w'.log := by
  obtain ⟨u, code, hu, rfl⟩ := h
  exact hu.log_le.trans (by simp)

theorem Died.log_le {w' : World} (h : Died w₀ w') : w₀.log <+: w'.log := by
  rcases h with h | ⟨u, code, hu, hlog⟩
  · exact h.log_le
  · rw [hlog]
    exact hu.log_le.trans (by simp)

/-- A frame is recorded, and nothing of the trace is lost. -/
theorem receiveFrame_records (header : FrameHeader) (region : Bytes) (w : World) :
    wp (receiveFrame server header region)
      (fun _ w' => w.log ++ [.frame header region w.toState] <+: w'.log)
      (fun _ w' => w.log ++ [.frame header region w.toState] <+: w'.log) w := by
  have htells : ∀ {m : M ℤ}, Tells m (w.add (.frame header region)) (w.add (.frame header region)) →
      wp m (fun _ w' => w.log ++ [.frame header region w.toState] <+: w'.log)
        (fun _ w' => w.log ++ [.frame header region w.toState] <+: w'.log)
        (w.add (.frame header region)) := fun h =>
    h.mono (fun _ _ hf => hf.elim Clean.log_le fun hf => hf.2.log_le)
      fun _ _ => Died.log_le
  simp only [receiveFrame, wp_bind, wp_getCtx, wp_record]
  rw [wp_ite]
  refine ⟨fun _ => htells (failWith_tells (.refl _)), fun _ => ?_⟩
  by_cases hs : SilentError server header region w.ctx w.loop.calls
  · have hhides := handleFrame_hides (.refl (w.add (.frame header region))) hs
    exact hhides.mono (fun _ _ hf => hf.2.1.log_le) fun _ _ hd => hd.1.log_le
  · exact htells (handleFrame_tells (.refl _) hs)

/-- The loop only extends the trace. -/
theorem receivingLoop_extends (fuel n : ℕ) (buf : Bytes) (w : World) :
    wp (receivingLoop server fuel n buf) (fun _ w' => w.log <+: w'.log)
      (fun _ w' => w.log <+: w'.log) w := by
  induction fuel generalizing n buf w with
  | zero => exact List.prefix_refl _
  | succ fuel ih =>
    rcases idle_or_large_or_whole buf with hidle | ⟨hshort, hlarge⟩ | hwhole
    · simp only [wp, receivingLoop_idle hidle]
      exact List.prefix_refl _
    · rw [wp_congr (receivingLoop_large hshort hlarge)]
      simp only [wp_bind, wp_record, wp_pure]
      have hadd : w.log <+: (w.add (.frame (frameParseHeader buf) (buf.drop 9))).log := by simp
      exact (http2Error_fails (.refl _)).mono (fun _ _ hf => hadd.trans hf.1.log_le)
        fun _ _ hd => hadd.trans hd.1.log_le
    · rw [wp_congr (receivingLoop_whole hwhole.1 hwhole.2), wp_bind]
      have hadd := List.prefix_append w.log
        [.frame (frameParseHeader buf) (buf.drop 9) w.toState]
      refine (receiveFrame_records _ _ w).mono (fun rc w' hw' => ?_) fun _ _ hd => hadd.trans hd
      have hext := hadd.trans hw'
      rw [wp_ite]
      refine ⟨fun _ => hext, fun _ => ?_⟩
      exact (ih _ _ w').mono (fun _ _ h => hext.trans h) fun _ _ h => hext.trans h

/-- If there is something to handle, a frame is recorded. -/
theorem receivingLoop_records (hidle : ¬ NothingWhole buf) :
    wp (receivingLoop server (fuel + 1) n buf)
      (fun _ w' => ∃ h r, w.log ++ [.frame h r w.toState] <+: w'.log)
      (fun _ w' => ∃ h r, w.log ++ [.frame h r w.toState] <+: w'.log) w := by
  rcases (idle_or_large_or_whole buf).resolve_left hidle with ⟨hshort, hlarge⟩ | hwhole
  · rw [wp_congr (receivingLoop_large hshort hlarge)]
    simp only [wp_bind, wp_record, wp_pure]
    exact (http2Error_fails (.refl _)).mono (fun _ _ hf => ⟨_, _, hf.1.log_le⟩)
      fun _ _ hd => ⟨_, _, hd.1.log_le⟩
  · rw [wp_congr (receivingLoop_whole hwhole.1 hwhole.2), wp_bind]
    refine (receiveFrame_records _ _ w).mono (fun rc w' hw' => ?_) fun _ _ hd => ⟨_, _, hd⟩
    rw [wp_ite]
    refine ⟨fun _ => ⟨_, _, hw'⟩, fun _ => ?_⟩
    exact (receivingLoop_extends _ _ _ w').mono (fun _ _ h => ⟨_, _, hw'.trans h⟩)
      fun _ _ h => ⟨_, _, hw'.trans h⟩

/-- A frame that is handled after an error is seen in the trace. -/
theorem not_onlyGoaway {u w' : World} (h : Failed w₀ u) {header : FrameHeader} {region : Bytes}
    {s : State} (hlog : u.log ++ [.frame header region s] <+: w'.log) :
    ¬ onlyGoaway (fromError (w'.log.drop w₀.log.length)) := by
  obtain ⟨v, code, ⟨new, hv, hnew⟩, rfl⟩ := h
  obtain ⟨rest, hrest⟩ := hlog
  have hdrop : w'.log.drop w₀.log.length = new ++ (.error code v.toState ::
      .send (.goaway code.code v.ctx.lastOpenedStreamId) (v.failing code).toState ::
        .frame header region s :: rest) := by
    rw [← hrest, World.fail_log, hv]
    simp
  rw [hdrop, fromError_append hnew]
  simp [fromError]

/-- Where an error is the last thing in the trace, the buffer is guarded. -/
theorem guarded_of_onlyGoaway (h : Clean w₀ w) (hfuel : buf.length ≤ fuel)
    (hwp : wp (receivingLoop server fuel n buf)
      (fun _ w' => onlyGoaway (fromError (w'.log.drop w₀.log.length)))
      (fun _ w' => onlyGoaway (fromError (w'.log.drop w₀.log.length))) w) :
    Guarded server fuel buf w := by
  induction fuel generalizing n buf w with
  | zero => trivial
  | succ fuel ih =>
    intro hwhole
    obtain ⟨hlen, hle⟩ := hwhole
    rw [wp_congr (receivingLoop_whole hlen hle), wp_bind] at hwp
    have hrest : (buf.drop (9 + (frameParseHeader buf).length)).length ≤ fuel := by
      rw [List.length_drop]
      omega
    refine ⟨fun hs hw => ?_, fun rc w' hrun hrc hs => ?_⟩
    · by_contra hidle
      refine (hwp.and (receiveFrame_hides h hs)).elim (fun rc w' hboth => ?_)
        fun _ _ hd => hd.2.2 hw
      obtain ⟨hloop, hneg, hfailed, -⟩ := hboth
      rw [if_neg hneg] at hloop
      obtain ⟨fuel, rfl⟩ : ∃ k, fuel = k + 1 := by
        refine Nat.exists_eq_succ_of_ne_zero fun hzero => hidle (.inl ?_)
        omega
      -- the frame after the unreported error is recorded behind it
      have hseen := hloop.and (receivingLoop_records hidle)
      refine hseen.elim (fun _ w' hlast => ?_) fun _ w' hlast => ?_
      · obtain ⟨honly, header, region, hlog⟩ := hlast
        exact not_onlyGoaway hfailed hlog honly
      · obtain ⟨honly, header, region, hlog⟩ := hlast
        exact not_onlyGoaway hfailed hlog honly
    · have hboth := hwp.and (receiveFrame_tells h hs)
      rw [wp, hrun] at hboth
      obtain ⟨hloop, hends⟩ := hboth
      have hclean : Clean w₀ w' := hends.resolve_right fun hneg => hrc hneg.1
      rw [if_neg hrc] at hloop
      exact ih hclean hrest hloop

end Loop

/-- **When nothing is handled after an error.** The frames of the buffer are handled up to the first
error exactly where nothing is left to handle behind a frame whose error is not reported. -/
theorem errorIsLast_iff (server : Server) (buf : Bytes) (w : World) :
    ErrorIsLast server buf w ↔ Guarded server buf.length buf w := by
  unfold ErrorIsLast receiving
  rcases Nat.eq_zero_or_pos buf.length with hzero | hpos
  · obtain rfl := List.length_eq_zero_iff.mp hzero
    refine ⟨fun _ => trivial, fun _ => ?_⟩
    exact ((Clean.refl w).append (World.closeImmediate_log w) rfl).endsAtError
  rw [if_neg (by omega)]
  constructor
  · intro hlast
    refine guarded_of_onlyGoaway (n := 0) (.refl w) le_rfl ?_
    exact hlast.mono (fun _ _ hends => hends.trace) fun _ _ => id
  · intro hg
    refine (loopEnds_of_guarded (n := 0) (.refl w) hg).mono (fun _ _ hends => ?_)
      fun _ _ hdied => hdied.onlyGoaway
    exact hends.elim Clean.endsAtError Failed.endsAtError

/-- A PUSH_PROMISE frame, which is an error, is followed by a PING frame, which is answered. -/
theorem not_errorIsLast :
    ¬ ∀ (server : Server) (actions : List EventLoop.Action) (w : World) (buf : Bytes),
      w ∈ (EventLoop.run server actions).worlds → w.sock.read.isSome →
      ErrorIsLast server buf w := by
  intro h
  have hall : ∀ w ∈ (EventLoop.run .empty (Sample.handshake (Sample.frame 4 0 0 []))).worlds,
      w.sock.read.isSome → onlyGoaway (fromError ((finalState (receiving .empty 26
        (Sample.frame 5 0 1 [] ++ Sample.frame 6 0 0 (List.replicate 8 0)) w)).log.drop
          w.log.length)) = true := by
    intro w hw hread
    have hlast := h .empty _ w (Sample.frame 5 0 1 [] ++ Sample.frame 6 0 0 (List.replicate 8 0)) hw hread
    exact wp_finalState.mp (hlast.mono (fun _ _ hends => hends.trace) fun _ _ => id)
  revert hall
  decide +kernel

end Two
