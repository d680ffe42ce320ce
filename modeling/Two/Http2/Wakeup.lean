import Two.Http2.FlowControl
import Two.Http2.Provenance

/-!
# Blocked responses

A response that flow control has stopped goes on when a HEADERS or DATA write completes or a
WINDOW_UPDATE frame for a stream arrives; a WINDOW_UPDATE frame for the connection and a SETTINGS
frame that raises the initial window size do not wake it. As long as no response waits for one of
these, and DATA frames find room in the write buffer, a response that could go on always has a write
in the queue whose completion makes it do so.

## Main definitions

* `Awake`: a response that could go on has a write in the queue
* `Stalled`: a response has no write in the queue that would make it go on
* `Woken`: the condition on the events of a trace

## Main results

* `response_awake`: in every run that meets the condition, no blocked response is forgotten
-/

namespace Two

open Program Relation Trace

/-- The response headers of a stream were queued: the write buffer took at least a part of them. -/
@[simp] def Entry.queuesAnswer (id : ℕ) : Entry → Bool
  | .send (.headers i _ _) s => i = id ∧ 0 < s.sock.room
  | _ => false

/-- The response headers of a stream were queued. -/
def headersQueued (id : ℕ) (log : List Entry) : Bool := log.any (Entry.queuesAnswer id)

/-- A write is queued whose completion sends the next part of the response. -/
def Sock.sends (s : Sock) : Prop := ∃ op ∈ s.queue, op.cb = .onStreamSendComplete

instance (s : Sock) : Decidable s.sends := inferInstanceAs (Decidable (∃ op ∈ s.queue, _))

/-- The response headers of the current stream were queued, and a part of the content is left. -/
structure Responding (s : State) (log : List Entry) : Prop where
  state : s.ctx.state = .ready
  stream : s.ctx.stream.state = .halfClosedRemote
  headers : headersQueued s.ctx.stream.id log = true
  left : 0 < s.ctx.stream.buflen

instance (s : State) (log : List Entry) : Decidable (Responding s log) :=
  decidable_of_iff (s.ctx.state = .ready ∧ s.ctx.stream.state = .halfClosedRemote ∧
    headersQueued s.ctx.stream.id log = true ∧ 0 < s.ctx.stream.buflen)
    ⟨fun h => ⟨h.1, h.2.1, h.2.2.1, h.2.2.2⟩, fun h => ⟨h.state, h.stream, h.headers, h.left⟩⟩

/-- A response that flow control allows to go on has a write in the queue. -/
def Awake (s : State) (log : List Entry) : Prop :=
  Responding s log → 0 < s.ctx.windowSize → 0 < s.ctx.stream.windowSize → s.sock.sends

instance (s : State) (log : List Entry) : Decidable (Awake s log) :=
  inferInstanceAs (Decidable (_ → _ → _ → _))

/-- A response waits, and no queued write would make it go on. -/
def Stalled (s : State) (log : List Entry) : Prop := Responding s log ∧ ¬ s.sock.sends

instance (s : State) (log : List Entry) : Decidable (Stalled s log) :=
  inferInstanceAs (Decidable (_ ∧ _))

/-- No increment of the window of the connection and no SETTINGS parameter makes a window positive
that alone keeps a stalled response from going on; and a DATA frame that leaves something to send
finds room in the write buffer, or another HEADERS or DATA write in the queue. -/
def Woken (before : List Entry) : Entry → Prop
  | .increment id _ s => id = 0 → Stalled s before → 0 < s.ctx.stream.windowSize →
      0 < s.ctx.windowSize
  | .setting id value s => id = 4 → Stalled s before → 0 < s.ctx.windowSize →
      0 < int32 (s.ctx.stream.windowSize + int32 (value - s.ctx.settings.initialWindowSize)) →
      0 < s.ctx.stream.windowSize
  | .send (.data _ _ payload) s => 0 < sendLength (s.ctx.advance payload.length) →
      0 < s.sock.room ∨ s.sock.sends
  | _ => True

instance (before : List Entry) : DecidablePred (Woken before)
  | .increment id _ s => inferInstanceAs (Decidable (id = 0 → Stalled s before → _ → _))
  | .setting id _ s => inferInstanceAs (Decidable (id = 4 → Stalled s before → _ → _ → _))
  | .send (.data ..) s => inferInstanceAs (Decidable (_ → 0 < s.sock.room ∨ s.sock.sends))
  | .send (.ping ..) _ | .send (.goaway ..) _ | .send (.settings ..) _ | .send .settingsAck _
  | .send (.headers ..) _ | .send (.rstStream ..) _ | .frame .. | .completed .. | .error ..
  | .eventRead .. | .streamState .. | .reset .. | .decode .. | .request .. | .ready
  | .consumed .. => inferInstanceAs (Decidable True)

/-- Where a frame is received, no blocked response is forgotten. -/
def AwakeAt (before : List Entry) : Entry → Prop
  | .frame _ _ s => Awake s before
  | _ => True

instance (before : List Entry) : DecidablePred (AwakeAt before)
  | .frame _ _ s => inferInstanceAs (Decidable (Awake s before))
  | .send .. | .increment .. | .completed .. | .error .. | .eventRead .. | .streamState .. | .reset ..
  | .setting .. | .decode .. | .request .. | .ready | .consumed .. =>
    inferInstanceAs (Decidable True)

/-- No blocked response is forgotten; a socket that is not connected belongs to a connection that is
not ready and not read from, and there is no stream before the connection is ready. -/
structure Vigilant (w : World) : Prop where
  awake : Awake w.toState w.log
  disconnected : w.sock.state ≠ .connected → w.ctx.state ≠ .ready ∧ w.sock.read = none
  early : w.ctx.state = .waitingPreface ∨ w.ctx.state = .waitingSettings →
    w.ctx.stream.state = .closed

section Steps

variable {w w' : World}

@[simp] theorem headersQueued_nil (id : ℕ) : headersQueued id [] = false := rfl

@[simp] theorem headersQueued_append (id : ℕ) (log new : List Entry) :
    headersQueued id (log ++ new) = (headersQueued id log || headersQueued id new) := by
  simp [headersQueued]

@[simp] theorem headersQueued_cons (id : ℕ) (e : Entry) (log : List Entry) :
    headersQueued id (e :: log) = (e.queuesAnswer id || headersQueued id log) := rfl

theorem answered_of_headersQueued {id : ℕ} {log : List Entry} (h : headersQueued id log = true) :
    answered id log = true := by
  obtain ⟨e, he, hq⟩ := List.any_eq_true.mp h
  refine List.any_eq_true.mpr ⟨e, he, ?_⟩
  unfold Entry.queuesAnswer at hq
  split at hq
  · simp_all
  · cases hq

/-- Where a response could send, flow control allows it. -/
theorem Responding.sendLength_pos {s : State} {log : List Entry} (hr : Responding s log)
    (hw : 0 < s.ctx.windowSize) (hs : 0 < s.ctx.stream.windowSize) : 0 < sendLength s.ctx := by
  have := hr.left
  simp only [sendLength, lt_min_iff]
  omega

/-- What a blocked response depends on is the same, except that the connection or the stream may
close and that writes may be added. -/
structure Undisturbed (w w' : World) : Prop where
  state : w'.ctx.state = .ready → w.ctx.state = .ready
  stream : w'.ctx.stream.state = .halfClosedRemote → w.ctx.stream.state = .halfClosedRemote
  id : w'.ctx.stream.id = w.ctx.stream.id
  headers : headersQueued w.ctx.stream.id w'.log = true →
    headersQueued w.ctx.stream.id w.log = true
  buflen : w'.ctx.stream.buflen = w.ctx.stream.buflen
  window : w'.ctx.windowSize = w.ctx.windowSize
  streamWindow : w'.ctx.stream.windowSize = w.ctx.stream.windowSize
  sends : w.sock.sends → w'.sock.sends

theorem Undisturbed.responding (h : Undisturbed w w') (hr : Responding w'.toState w'.log) :
    Responding w.toState w.log := by
  obtain ⟨hstate, hstream, hheaders, hleft⟩ := hr
  rw [h.id] at hheaders
  exact ⟨h.state hstate, h.stream hstream, h.headers hheaders, h.buflen ▸ hleft⟩

theorem Undisturbed.awake (h : Undisturbed w w') (ha : Awake w.toState w.log) :
    Awake w'.toState w'.log := fun hr hw hs =>
  h.sends (ha (h.responding hr) (h.window ▸ hw) (h.streamWindow ▸ hs))

/-- A write that is added leaves the writes that are there. -/
theorem sends_of_append {ops : List WriteOp} (h : w'.sock.queue = w.sock.queue ++ ops)
    (hs : w.sock.sends) : w'.sock.sends := by
  obtain ⟨op, hop, hcb⟩ := hs
  exact ⟨op, by simp [h, hop], hcb⟩

theorem Quiet.undisturbed (h : Quiet w w') : Undisturbed w w' := by
  refine ⟨fun hs => h.state ▸ hs, fun hs => h.streamState ▸ hs, h.id, fun hq => h.log ▸ hq, h.buflen,
    h.window, h.streamWindow, ?_⟩
  rintro ⟨op, hop, hcb⟩
  have hmem := List.mem_map_of_mem (f := fun op : WriteOp => (op.cb, op.stream)) hop
  rw [← h.queue] at hmem
  obtain ⟨op', hop', heq⟩ := List.mem_map.mp hmem
  exact ⟨op', hop', (Prod.mk.inj heq).1.trans hcb⟩

theorem headersQueued_markEntry (u : World) (h : FrameHeader) (id : ℕ) :
    headersQueued id (u.markEntry h) = false := by
  unfold World.markEntry
  split <;> simp

/-- A stream that waits for a part of its request has no response. -/
theorem BlockReady.unanswered {h : FrameHeader} {n : ℕ} (hb : BlockReady w h n) (ho : Orderly w) :
    headersQueued w.ctx.stream.id w.log = false := by
  by_contra hq
  have hans := answered_of_headersQueued (by simpa using hq)
  exact ho.answers _ hans (ho.waiting hb.waiting).2

/-- An open stream of a connection that is ready has no response. -/
theorem DataReady.unanswered {h : FrameHeader} (hd : DataReady w h) (ho : Orderly w)
    (hready : w.ctx.state = .ready) : headersQueued w.ctx.stream.id w.log = false := by
  by_contra hq
  have hans := answered_of_headersQueued (by simpa using hq)
  exact (ho.once (ho.not_errored_of_ready hready) (ho.answers _ hans)).1 hd.state

theorem RequestReady.unanswered {w₁ : World} (hr : RequestReady w w₁) (ho : Orderly w)
    (hready : w.ctx.state = .ready) :
    w₁.ctx.stream.id = w.ctx.stream.id ∧ headersQueued w.ctx.stream.id w₁.log = false := by
  cases hr with
  | block h data n hb hc =>
    simp [World.block_log, headersQueued_markEntry, hb.unanswered ho]
  | data h hd hc =>
    simp [World.marked_log, headersQueued_markEntry, hd.unanswered ho hready]

/-- A HEADERS or DATA write for which there is room is queued. -/
theorem sends_of_room {f : Frame} (hroom : 0 < w.sock.room)
    (h : w'.sock.queue = w.sock.queue ++ w.newOps f .onStreamSendComplete) : w'.sock.sends := by
  rw [World.newOps, if_neg (by omega)] at h
  exact ⟨_, by rw [h]; exact List.mem_append_right _ (List.mem_singleton_self _), rfl⟩

/-- The next DATA frame is queued, or nothing can be sent after it. -/
theorem awake_continued (hc : Woken w.log (.send w.dataFrame w.toState)) :
    Awake w.continued.toState w.continued.log := by
  intro hr hw hs
  have hpos := hr.sendLength_pos hw hs
  rw [World.continued_ctx] at hpos
  have hlen : (slice w.ctx.stream.buf w.ctx.stream.bufptr w.dataLength).length = w.dataLength :=
    length_slice _ _ _
  rcases hc (by rw [hlen]; exact hpos) with hroom | hsends
  · exact sends_of_room hroom (World.continued_queue w)
  · exact sends_of_append (World.continued_queue w) hsends

/-- Nothing can be sent. -/
theorem awake_of_sendLength {s : State} {log : List Entry} (h : sendLength s.ctx ≤ 0) :
    Awake s log := fun hr hw hs => absurd (hr.sendLength_pos hw hs) (not_lt.mpr h)

/-- A parameter that is accepted where no response waits for it. -/
theorem awake_setting {id value : ℕ} {c : Context} (hset : applySetting w.ctx id value = .ok c)
    (ha : Awake w.toState w.log) (hc : Woken w.log (.setting id value w.toState)) :
    Awake (w.stored id value c).toState (w.stored id value c).log := by
  have hwin := applySetting_window hset
  obtain ⟨settings, windowSize, table, rfl⟩ := applySetting_eq hset
  intro hr hw hs
  have hr₀ : Responding w.toState w.log :=
    ⟨hr.state, hr.stream, by simpa using hr.headers, hr.left⟩
  by_contra hsends
  refine hsends (ha hr₀ hw ?_)
  -- only the initial window size changes the window of the stream, and then the condition applies
  obtain ⟨-, hsame, -⟩ | ⟨rfl, -, -, hchange⟩ := hwin
  · exact hsame ▸ hs
  · have hact : w.ctx.stream.state.active = true := by
      rw [hr₀.stream]
      rfl
    rw [if_pos hact] at hchange
    exact hc rfl ⟨hr₀, hsends⟩ hw (hchange ▸ hs)

theorem FrameStep.awake (h : FrameStep true w w') (ho : Orderly w) (ha : Awake w.toState w.log)
    (hc : Along Woken w'.log) : Awake w'.toState w'.log := by
  -- a step that neither sends nor moves a window leaves a blocked response as it is
  cases h with
  | quiet _ hq => exact hq.undisturbed.awake ha
  | error e hw => exact fun hr => by simpa using hr.state
  | reply f hf hs hw =>
    refine Undisturbed.awake ?_ ha
    have hq : (Entry.send f w.toState).queuesAnswer w.ctx.stream.id = false := by
      cases f <;> simp_all [Frame.stream?]
    refine ⟨by simp, by simp, by simp, ?_, by simp, by simp, by simp,
      sends_of_append (World.written_queue _ _ _)⟩
    rw [World.written_log, headersQueued_append, headersQueued_cons, hq]
    simp
  | reset e id hid hw =>
    refine Undisturbed.awake ?_ ha
    have hsends : w.sock.sends → (w.resetBy e id).sock.sends := by
      rw [World.resetBy_sock]
      exact sends_of_append (World.written_queue _ _ _)
    -- a reset closes the current stream, or concerns another one
    by_cases hcur : id = w.ctx.stream.id
    · refine ⟨?_, ?_, ?_, ?_, ?_, ?_, ?_, hsends⟩ <;> simp [hcur]
    · refine ⟨?_, ?_, ?_, ?_, ?_, ?_, ?_, hsends⟩ <;> simp [hcur]
  | openStream h region hh ht hc hid ho' hs => exact fun hr => by simpa using hr.stream
  | block h data n hb =>
    -- the request of the current stream is not complete, so nothing was answered
    intro hr
    have := hr.headers
    simp [World.block_log, headersQueued_markEntry, hb.unanswered ho] at this
  | data h hd =>
    intro hr
    have := hr.headers
    have hready : w.ctx.state = .ready := by simpa using hr.state
    simp [World.marked_log, headersQueued_markEntry, hd.unanswered ho hready] at this
  | request w₁ t headers res hr hl =>
    intro hresp
    obtain ⟨hid, hq⟩ := hr.unanswered ho (by simpa [hr.state] using hresp.state)
    have := hresp.headers
    simp [hid, hq] at this
  | answer w₁ t headers res t' block hr hl hb hw =>
    -- the headers of the response are queued, and with them a write that will complete
    intro hresp _ _
    obtain ⟨hid, hq⟩ := hr.unanswered ho (by simpa [hr.state] using hresp.state)
    have hroom := hresp.headers
    simp [hid, hq] at hroom
    exact sends_of_room (w := (w₁.decoded t).requested headers res) hroom
      (World.answering_queue _ _ _)
  | setting id value c hset =>
    obtain ⟨-, hcond⟩ := along_append_singleton.mp hc
    exact awake_setting hset ha hcond
  | connWindow h region hh ht hid hover =>
    obtain ⟨-, hcond⟩ := along_append_singleton.mp hc
    -- the window of the connection: the condition says that the response could send before
    intro hr hw hs
    have hr₀ : Responding w.toState w.log :=
      ⟨hr.state, hr.stream, by simpa using hr.headers, hr.left⟩
    by_contra hsends
    exact hsends (ha hr₀ (hcond rfl ⟨hr₀, hsends⟩ hs) hs)
  | window h region n hr hn hs => exact awake_of_sendLength hs
  | windowSend h region n hr hn hs hw =>
    refine awake_continued (along_append_singleton.mp ?_).2
    simpa using hc
  | goawayClose => exact fun hr => by simpa using hr.stream
  | goaway hr hw => exact fun hr => by simpa using hr.state
  | rst h region hh ht hid => exact fun hr => by simpa using hr.stream
  | _ =>
    refine Undisturbed.awake ?_ ha
    constructor <;> simp

/-- The completion of a write. -/
theorem Callback.awake {op : WriteOp} {rest : List WriteOp} {cb : WriteCb}
    (h : Callback true cb (w.popped.calling op 0) w') (hcb : op.cb = cb)
    (hq : w.sock.queue = op :: rest) (ha : Awake w.toState w.log) (hc : Along Woken w'.log) :
    Awake w'.toState w'.log := by
  -- a write that is not of a stream leaves the others where they are
  have hother : op.cb ≠ .onStreamSendComplete →
      Awake (w.popped.calling op 0).toState (w.popped.calling op 0).log := by
    intro hne
    refine Undisturbed.awake ⟨?_, ?_, ?_, ?_, ?_, ?_, ?_, ?_⟩ ha
    all_goals try simp
    rintro ⟨op', hop, hsend⟩
    rw [hq] at hop
    rcases List.mem_cons.mp hop with rfl | hop
    · exact absurd hsend hne
    · exact ⟨op', by simpa [hq] using hop, hsend⟩
  cases h with
  | writeError => exact hother (by simp [hcb])
  | goaway => exact fun hr => by simpa using hr.state
  | settings _ _ hq' => exact hq'.undisturbed.awake (hother (by simp [hcb]))
  | done _ hb => exact fun hr => by simpa using hr.stream
  | idle _ hb hs => exact awake_of_sendLength hs
  | send _ hs hw =>
    refine awake_continued (along_append_singleton.mp ?_).2
    simpa using hc

theorem Transition.awake (h : Transition true w w') (hsane : Sane w) (ho : Orderly w)
    (hv : Vigilant w) (hc : Along Woken w'.log) : Awake w'.toState w'.log := by
  cases h with
  | frame _ h => exact h.awake ho hv.awake hc
  | closeImmediate => exact fun hr => by simpa using hr.state
  | preface e hr hcb hp hw => exact fun hr => by simpa using hr.state
  | ready e h hs hr =>
    intro hresp
    -- the response would belong to a stream that the handshake cannot have opened
    have hstate : w.ctx.state = .waitingSettings := by
      simpa [hs.cb, ReadCb.states] using hsane.reading e (hr rfl)
    have hstream : w.ctx.stream.state = .halfClosedRemote := by simpa using hresp.stream
    simp [hv.early (.inr hstate)] at hstream
  | consume bytes n h =>
    refine Undisturbed.awake ?_ hv.awake
    constructor <;> simp [Sock.sends]
  | complete op rest w₁ hq hcall =>
    refine Undisturbed.awake ?_ (hcall.awake rfl hq hv.awake hc)
    constructor <;> simp
  | failed op rest status hq hs => exact fun hr => by simpa using hr.state
  | flush h =>
    rcases h with h | h
    · exact fun hr => absurd hr.state (hv.disconnected h).1
    · refine Undisturbed.awake ?_ hv.awake
      constructor <;> simp [Sock.sends, h]

/-- A frame neither connects a socket nor makes it be read from again. -/
theorem FrameStep.sock_kept (h : FrameStep true w w') :
    w'.sock.state = w.sock.state ∧ (w.sock.read = none → w'.sock.read = none) := by
  cases h with
  | quiet _ hq => exact ⟨hq.sock, hq.keeps.read⟩
  | request w₁ t headers res hr hl => simp [hr.sock]
  | answer w₁ t headers res t' block hr hl hb hw => simp [hr.sock]
  | _ => simp

/-- Only a connection that is ready opens a stream. -/
theorem FrameStep.stream_closed (h : FrameStep true w w') (hs : w.ctx.stream.state = .closed)
    (hr : w.ctx.state ≠ .ready) : w'.ctx.stream.state = .closed := by
  cases h with
  | quiet _ hq => rw [hq.streamState, hs]
  | openStream h region hh ht hc => exact absurd hc hr
  | block h data n hb => exact absurd hs hb.state
  | data h hd => simp [hd.state] at hs
  | request w₁ t headers res hready hl =>
    cases hready with
    | block h data n hb => exact absurd hs hb.state
    | data h hd => simp [hd.state] at hs
  | answer w₁ t headers res t' block hready hl hb hw =>
    cases hready with
    | block h data n hb => exact absurd hs hb.state
    | data h hd => simp [hd.state] at hs
  | reset e id hid hw => by_cases hcur : id = w.ctx.stream.id <;> simp [hcur, hs]
  | setting id value c hset =>
    obtain ⟨_, _, _, rfl⟩ := applySetting_eq hset
    exact hs
  | windowSend h region n hready hn hsend hw => simpa [Context.advance] using hs
  | rst => simp
  | goawayClose => simp
  | _ => simpa using hs

theorem Transition.vigilant (h : Transition true w w') (hsane : Sane w) (ho : Orderly w)
    (hv : Vigilant w) (hc : Along Woken w'.log) : Vigilant w' := by
  refine ⟨h.awake hsane ho hv hc, ?_, ?_⟩
  -- without a connection there is no read event, and the context is closed
  · intro hsock
    cases h with
    | frame _ h =>
      obtain ⟨hstate, hread⟩ := h.sock_kept
      obtain ⟨hready, hnone⟩ := hv.disconnected (hstate ▸ hsock)
      refine ⟨?_, hread hnone⟩
      rcases h.ctx_state with hs | hs <;> simp [hs, hready]
    | preface e hr hcb hp hw =>
      have := (hv.disconnected (by simpa using hsock)).2
      simp [hr] at this
    | ready e h hs hr =>
      have := (hv.disconnected (by simpa using hsock)).2
      simp [hr rfl] at this
    | complete op rest w₁ hq hcall =>
      generalize op.cb = cb at hcall
      cases hcall with
      | settings _ _ hquiet =>
        have := hv.disconnected (by simpa [hquiet.sock] using hsock)
        exact ⟨by simpa [hquiet.state] using this.1, hquiet.keeps.read (by simpa using this.2)⟩
      | goaway => simp
      | send _ hs hw => simpa [Context.advance] using hv.disconnected (by simpa using hsock)
      | _ => simpa using hv.disconnected (by simpa using hsock)
    | consume bytes n h => simpa using hv.disconnected (by simpa using hsock)
    | flush h => simpa using hv.disconnected (by simpa using hsock)
    | _ => simp
  -- before the settings no stream was opened
  · intro hearly
    cases h with
    | frame _ h =>
      rcases h.ctx_state with hs | hs
      · rw [hs] at hearly
        refine h.stream_closed (hv.early hearly) ?_
        rcases hearly with he | he <;> simp [he]
      · simp [hs] at hearly
    | complete op rest w₁ hq hcall =>
      generalize op.cb = cb at hcall
      cases hcall with
      | settings _ _ hquiet =>
        have := hv.early (by simpa [hquiet.state] using hearly)
        simpa [hquiet.streamState] using this
      | send _ hs hw =>
        have := hv.early (by simpa [Context.advance] using hearly)
        simpa [Context.advance] using this
      | goaway => simp
      | done => simp
      | _ => simpa using hv.early (by simpa using hearly)
    | preface e hr hcb hp hw =>
      have : w.ctx.state = .waitingPreface := by
        simpa [hcb, ReadCb.states] using hsane.reading e hr
      simpa using hv.early (.inl this)
    | ready e h hs hr => simp at hearly
    | consume bytes n h => simpa using hv.early (by simpa using hearly)
    | flush h => simpa using hv.early (by simpa using hearly)
    | _ => simp

end Steps

/-- The run rule for blocked responses. -/
theorem runRule_vigilant : RunRule Woken AwakeAt fun w => Orderly w ∧ Vigilant w := by
  refine .of_orderly ?_ ?_ (fun w w' ht hs ho hv hc => ht.vigilant hs ho hv hc) ?_
  · intro pools r s
    refine ⟨fun hr => absurd hr.state ?_, by simp [EventLoop.newSock], fun _ => rfl⟩
    simp [Context.init]
  · intro w pools hv
    exact ⟨fun hr => hv.awake ⟨hr.state, hr.stream, hr.headers, hr.left⟩, hv.disconnected, hv.early⟩
  · intro live w w' ht _ ho hv new hlog a e b hnew hc
    unfold AwakeAt
    split
    · obtain ⟨rfl, rfl⟩ := ht.frame_entry hlog hnew
      simpa using hv.awake
    · trivial

section Runs

variable {server : Server} {actions : List EventLoop.Action} {w : World}

/-- **No blocked response is forgotten.** In every run in which no increment of the window of the
connection and no SETTINGS parameter comes for which a stalled response waits, and in which DATA
frames find room in the write buffer, a response that flow control allows to go on has a write in
the queue that makes it do so. -/
theorem response_awake (hw : w ∈ (EventLoop.run server actions).worlds)
    (hc : Along Woken w.log) :
    Along AwakeAt w.log ∧
      ((EventLoop.run server actions).aborted = none → Awake w.toState w.log) :=
  ⟨runRule_vigilant.trace hw hc, fun ha => (runRule_vigilant.invariant ha hw hc).2.2.awake⟩

end Runs

/-- The initial window size is 5, and the first five bytes of a body are sent. -/
def Sample.stalled : List EventLoop.Action :=
  handshake (setting 4 [0, 0, 0, 5]) ++ receive (headers 5 1 getBlock) ++ [.send 0 512, .send 0 512]

/-- The initial window size becomes 4 and the window of the connection grows, which the response does
not wait for; then the window of the stream grows, and the initial window size once more. -/
def Sample.resumed : List EventLoop.Action :=
  stalled ++ receive (setting 4 [0, 0, 0, 4]) ++ receive (windowUpdate 0 9) ++
    receive (windowUpdate 1 4) ++ receive (setting 4 [0, 0, 0, 9])

/-- A response is stalled when a setting and an increment come; the next increment makes it go on,
and with both windows positive there is a write in the queue. -/
theorem response_awake_resumed :
    (∃ w ∈ (EventLoop.run (Sample.server 20) Sample.stalled).worlds, Stalled w.toState w.log) ∧
      (EventLoop.run (Sample.server 20) Sample.resumed).aborted = none ∧
      ∃ w ∈ (EventLoop.run (Sample.server 20) Sample.resumed).worlds,
        Responding w.toState w.log ∧ 0 < w.ctx.windowSize ∧ 0 < w.ctx.stream.windowSize ∧
          w.sock.sends ∧ Along AwakeAt w.log := by
  have ha : (EventLoop.run (Sample.server 20) Sample.resumed).aborted = none := by decide +kernel
  have hopen : ∃ w ∈ (EventLoop.run (Sample.server 20) Sample.resumed).worlds,
      Along Woken w.log ∧ Responding w.toState w.log ∧ 0 < w.ctx.windowSize ∧
        0 < w.ctx.stream.windowSize := by decide +kernel
  obtain ⟨w, hw, hc, hr, hconnection, hstream⟩ := hopen
  obtain ⟨hall, hawake⟩ := response_awake hw hc
  exact ⟨by decide +kernel, ha, w, hw, hr, hconnection, hstream,
    hawake ha hr hconnection hstream, hall⟩

/-- The initial window size is zero, so only the response headers are sent; a SETTINGS frame that
raises it does not wake the response. -/
theorem not_response_awake : ¬ ∀ (server : Server) (actions : List EventLoop.Action) (w : World),
    w ∈ (EventLoop.run server actions).worlds → (EventLoop.run server actions).aborted = none →
      Awake w.toState w.log := by
  intro h
  have hall := h (Sample.server 2) (Sample.handshake (Sample.setting 4 [0, 0, 0, 0]) ++
    Sample.receive (Sample.headers 5 1 Sample.getBlock) ++ [.send 0 512] ++
      Sample.receive (Sample.setting 4 [0, 0, 0, 8]))
  revert hall
  decide +kernel

end Two
