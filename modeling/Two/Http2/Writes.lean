import Two.Http2.Streams

/-!
# Calls of `event_write`

`event_write` may only be called on a connected socket. A socket that is closing keeps the operations
that wait in its queue, and their callbacks can still send; so can the timer for the acknowledgment
of the settings.

## Main definitions

* `Sent`: where in a transition a frame is sent
* `SendsConnected`: the condition on the events of a trace
* `WritesConnected`: what is claimed of the frames that are sent

## Main results

* `Transition.send_entry`: where the frames of a transition are sent
* `writes_connected`: in every run that meets the condition, frames are sent on connected sockets
-/

namespace Two

open Program Relation Trace

/-- Where a transition from `w` sends a frame: after the events `a`, in the state `s`, and with the
callback `cb`. -/
inductive Sent (w : World) : List Entry → Frame → WriteCb → State → Prop
  | error (e : Http2Error) (hs : w.sock.state = .connected ∨ e = .settingsTimeout) :
    Sent w [.error e w.toState] (.goaway e.code w.ctx.lastOpenedStreamId) .closeOnGoawaySent
      (w.failing e).toState
  | reply (f : Frame) (hf : f.stream? = none) (hl : f.header.length ≤ 36)
    (hs : w.sock.state = .connected) (hg : ∀ code last, f ≠ .goaway code last) :
    Sent w [] f .closeOnWriteError w.toState
  | reset (e : Http2Error) (id : ℕ) (hs : w.sock.state = .connected) :
    Sent w [] (.rstStream e.code id) .closeOnWriteError w.toState
  | answer (w₁ : World) (t headers res t' block a) (hr : RequestReady w w₁)
    (hlog : ((w₁.decoded t).requested headers res).log = w.log ++ a)
    (hl : res.contentLength ≤ http2StreamBufSize) (hb : block.length < 256)
    (hs : w.sock.state = .connected) :
    Sent w a (.headers w₁.ctx.stream.id (res.contentLength = 0) block) .onStreamSendComplete
      (((w₁.decoded t).requested headers res).onCtx fun c =>
        { c with hpackDynamicTable := t' }).toState
  | data (w₁ a) (hsend : Sending w w₁ a) (hpos : 0 < sendLength w₁.ctx)
    (hs : w.sock.state = .connected ∨ ∃ op, a = [.completed op 0 w.popped.toState] ∧
      op.cb = .onStreamSendComplete) :
    Sent w a w₁.dataFrame .onStreamSendComplete w₁.toState
  | goaway (hs : w.sock.state = .connected) (h region s) (hh : Handling w h region s)
    (ht : h.type = .goaway) :
    Sent w [.eventRead .receiving (w.onCtx fun c => { c with state := .closing }).toState]
      (.goaway Http2Error.noError.code w.ctx.lastOpenedStreamId) .closeOnGoawaySent
      ((w.onCtx fun c => { c with state := .closing }).reading .receiving).toState
  | preface (e) (hr : w.sock.read = some e) :
    Sent w [] (.settings localSettings) .onSettingsSent
      (w.onCtx fun c => { c with state := .waitingSettings }).toState

section Steps

variable {w w' : World}

/-- A frame step that does not start with an error happens on a connected socket. -/
theorem Served.connected (h : Served w w') {x : Entry} {new : List Entry}
    (hlog : w'.log = w.log ++ x :: new) (hx : ∀ e s, x ≠ .error e s) :
    w.sock.state = .connected := by
  rcases h with h | h | h
  · exact h
  · simp [h] at hlog
  · rw [h, World.fail_log, List.append_cancel_left_eq] at hlog
    exact absurd (List.cons.inj hlog).1.symm (hx _ _)

/-- Where a transition sends a frame. -/
theorem Transition.send_entry {live : Bool} (h : Transition live w w') {new a b : List Entry}
    {f : Frame} {s : State} (hlog : w'.log = w.log ++ new) (hnew : new = a ++ .send f s :: b) :
    ∃ cb, Sent w a f cb s := by
  have hmem : Entry.send f s ∈ new := by simp [hnew]
  -- the entries for the flags of a frame are no frames that are sent
  have hmark : ∀ (u : World) (h : FrameHeader), Entry.send f s ∉ u.markEntry h := by
    intro u h hmem
    obtain ⟨_, he, -⟩ := World.mem_markEntry _ _ hmem
    cases he
  cases h with
  | frame _ h hserved =>
    cases h with
    -- the steps that send a frame: the trace is split at its entry, which occurs once
    | error e hw =>
      rw [World.fail_log, List.append_cancel_left_eq] at hlog
      obtain ⟨rfl, he, -⟩ := split_unique (x := [_]) (y := []) (hnew ▸ hlog.symm) (by simp) (by simp)
      obtain ⟨rfl, rfl⟩ := Entry.send.inj he
      refine ⟨_, .error e ?_⟩
      -- the timer for the settings is the only error outside of a connected socket
      rcases hserved with h | h | h
      · exact .inl h
      · simp at h
      · simp at h
        exact .inr h.1
    | reply f' hf hl hw hg =>
      have hconn := hserved.connected (World.written_log w f' .closeOnWriteError) (by simp)
      rw [World.written_log, List.append_cancel_left_eq] at hlog
      obtain ⟨rfl, he, -⟩ := split_unique (x := []) (y := []) (hnew ▸ hlog.symm) (by simp) (by simp)
      obtain ⟨rfl, rfl⟩ := Entry.send.inj he
      exact ⟨_, .reply f hf hl hconn hg⟩
    | reset e id hid hw =>
      rw [World.resetBy_log, List.append_assoc, List.append_cancel_left_eq] at hlog
      have hconn := hserved.connected (x := .send (.rstStream e.code id) w.toState)
        ((World.resetBy_log w e id).trans (by rw [List.append_assoc]; rfl)) (by simp)
      obtain ⟨rfl, he, -⟩ := split_unique (x := []) (hnew ▸ hlog.symm) (by simp)
        (by split <;> simp)
      obtain ⟨rfl, rfl⟩ := Entry.send.inj he
      exact ⟨_, .reset e id hconn⟩
    | answer w₁ t headers res t' block hr hl hb hw =>
      -- the answer is sent after the entries of the request
      obtain ⟨u, h, hu, -⟩ := hr.log
      have hreq : ((w₁.decoded t).requested headers res).log = w.log ++
          (u.markEntry h ++ [.decode (slice w₁.ctx.stream.buf 0 w₁.ctx.stream.buflen) w₁.toState,
            .request w₁.ctx.stream.id headers res.body]) := by
        simp [hu]
      have hconn : w.sock.state = .connected := by
        rcases hserved with h | h | h
        · exact h
        · rw [World.answering_log, hreq, List.append_assoc] at h
          simp at h
        · rw [World.answering_log, hreq, World.fail_log, List.append_assoc,
            List.append_cancel_left_eq] at h
          have hmem' := congrArg (Entry.request w₁.ctx.stream.id headers res.body ∈ ·) h
          simp at hmem'
      rw [World.answering_log, hreq, List.append_assoc, List.append_cancel_left_eq] at hlog
      obtain ⟨rfl, he, -⟩ := split_unique (hnew ▸ hlog.symm) (by simp [hmark]) (by simp)
      obtain ⟨rfl, rfl⟩ := Entry.send.inj he
      exact ⟨_, .answer w₁ t headers res t' block _ hr hreq hl hb hconn⟩
    | windowSend h region n hr hn hs hw =>
      -- the increment lets data go that was waiting
      subst hn
      have hconn := hserved.connected
        (x := .increment h.streamId (bufferGetU31 region) w.toState)
        (by rw [World.continued_log, World.increment_log, List.append_assoc]; rfl) (by simp)
      rw [World.continued_log, World.increment_log, List.append_assoc,
        List.append_cancel_left_eq] at hlog
      obtain ⟨rfl, he, -⟩ := split_unique (hnew ▸ hlog.symm) (by simp) (by simp)
      obtain ⟨rfl, rfl⟩ := Entry.send.inj he
      exact ⟨_, .data _ _ (.window h region hr) hs (.inl hconn)⟩
    | goaway hr hw h region s hh ht =>
      have hconn := hserved.connected (World.goneAway_log w) (by simp)
      rw [World.goneAway_log, List.append_cancel_left_eq] at hlog
      obtain ⟨rfl, he, -⟩ := split_unique (x := [_]) (y := []) (hnew ▸ hlog.symm) (by simp) (by simp)
      obtain ⟨rfl, rfl⟩ := Entry.send.inj he
      exact ⟨_, .goaway hconn h region s hh ht⟩
    -- the other steps send nothing
    | quiet _ hq =>
      simp [hq.log] at hlog
      simp [hlog] at hmem
    | block h data n hb =>
      simp [World.block_log] at hlog
      exact absurd (hlog ▸ hmem) (hmark _ _)
    | data h hd =>
      simp [World.marked_log] at hlog
      exact absurd (hlog ▸ hmem) (hmark _ _)
    | request w₁ t hs res hr hl =>
      obtain ⟨u, h, hw, -⟩ := hr.log
      simp [hw] at hlog
      simp [← hlog, hmark] at hmem
    | _ =>
      simp at hlog
      subst hlog
      simp at hmem
  | preface e hr hc hp hw =>
    rw [World.greeted_log, List.append_cancel_left_eq] at hlog
    obtain ⟨rfl, he, -⟩ := split_unique (x := []) (hnew ▸ hlog.symm) (by simp) (by simp)
    obtain ⟨rfl, rfl⟩ := Entry.send.inj he
    exact ⟨_, .preface e hr⟩
  | complete op rest w₁ hq hc =>
    -- of the callbacks only the one of a response sends
    generalize hcb : op.cb = cb at hc
    rw [World.returned_log] at hlog
    cases hc with
    | send _ hs hw =>
      rw [World.continued_log, World.calling_log, World.popped_log, List.append_assoc,
        List.append_cancel_left_eq] at hlog
      obtain ⟨rfl, he, -⟩ := split_unique (hnew ▸ hlog.symm) (by simp) (by simp)
      obtain ⟨rfl, rfl⟩ := Entry.send.inj he
      exact ⟨_, .data _ _ (.complete op rest hq hcb) hs (.inr ⟨op, rfl, hcb⟩)⟩
    | settings _ _ hq =>
      simp [hq.log] at hlog
      simp [← hlog] at hmem
    | _ =>
      simp at hlog
      subst hlog
      simp at hmem
  | _ =>
    simp at hlog
    subst hlog
    simp at hmem

end Steps

/-- The socket is connected where the callback of a HEADERS or DATA write finds more to send, and
where the timer for the acknowledgment of the settings expires. -/
def SendsConnected (_before : List Entry) : Entry → Prop
  | .completed op status s => op.cb = .onStreamSendComplete → status = 0 → 0 < sendLength s.ctx →
      s.sock.state = .connected
  | .error .settingsTimeout s => s.sock.state = .connected
  | _ => True

instance (before : List Entry) : DecidablePred (SendsConnected before)
  | .completed op status s => inferInstanceAs (Decidable (op.cb = .onStreamSendComplete →
      status = 0 → 0 < sendLength s.ctx → s.sock.state = .connected))
  | .error .settingsTimeout s => inferInstanceAs (Decidable (s.sock.state = .connected))
  | .error .noError _ | .error .protocolError _ | .error .internalError _
  | .error .flowControlError _ | .error .streamClosedError _ | .error .frameSizeError _
  | .error .refusedStream _ | .error .compressionError _ | .send .. | .frame .. | .increment ..
  | .eventRead .. | .streamState .. | .reset .. | .setting .. | .decode .. | .request .. | .ready
  | .consumed .. => inferInstanceAs (Decidable True)

/-- A frame is written to a connected socket. -/
def WritesConnected (_before : List Entry) : Entry → Prop
  | .send _ s => s.sock.state = .connected
  | _ => True

instance (before : List Entry) : DecidablePred (WritesConnected before)
  | .send _ s => inferInstanceAs (Decidable (s.sock.state = .connected))
  | .frame .. | .increment .. | .completed .. | .error .. | .eventRead .. | .streamState ..
  | .reset .. | .setting .. | .decode .. | .request .. | .ready | .consumed .. =>
    inferInstanceAs (Decidable True)

/-- The run rule for the calls of `event_write`. -/
theorem runRule_connected : RunRule SendsConnected WritesConnected fun _ => True := by
  refine ⟨fun _ _ _ => trivial, fun _ _ _ => trivial, fun _ _ _ _ _ _ => trivial, ?_⟩
  intro live w w' ht hsane _ new hlog a e b hnew hc
  have hc' := hc.of_prefix (List.prefix_append (w.log ++ a) [e])
  unfold WritesConnected
  split
  · rename_i f s
    obtain ⟨cb, hsent⟩ := ht.send_entry hlog hnew
    -- every place that sends has looked at the socket, or follows a call that did
    cases hsent with
    | error e hs =>
      rcases hs with hs | rfl
      · simpa [World.failing] using hs
      · obtain ⟨-, hcond⟩ := along_append_singleton.mp hc'
        have hconn : w.sock.state = .connected := hcond
        simpa [World.failing] using hconn
    | reply f hf hl hs => exact hs
    | reset e id hs => exact hs
    | answer w₁ t headers res t' block a hr hlog' hl hb hs => simpa [hr.sock] using hs
    | data w₁ a hsend hpos hs =>
      cases hsend with
      | window h region hr => simpa using hs
      | complete op rest hq hcb =>
        obtain ⟨-, hcond⟩ := along_append_singleton.mp hc'
        exact hcond hcb rfl hpos
    | goaway hs => exact hs
    | preface e hr => exact hsane.connected (by simp [hr])
  · trivial

section Runs

variable {server : Server} {actions : List EventLoop.Action} {w : World}

/-- **Frames are written to connected sockets** in every run in which no callback of a HEADERS or DATA
write finds more to send, and no settings timer expires, on a socket that is not connected. -/
theorem writes_connected (hw : w ∈ (EventLoop.run server actions).worlds)
    (hc : Along SendsConnected w.log) : Along WritesConnected w.log :=
  runRule_connected.trace hw hc

end Runs

/-- The frames of an ordinary exchange. -/
theorem writes_connected_exchange :
    (EventLoop.run (Sample.server 2) Sample.exchange).worlds.length = 1 ∧
      ∀ w ∈ (EventLoop.run (Sample.server 2) Sample.exchange).worlds,
        Along WritesConnected w.log := by
  have hc : ∀ w ∈ (EventLoop.run (Sample.server 2) Sample.exchange).worlds,
      Along SendsConnected w.log := by decide +kernel
  exact ⟨by decide +kernel, fun w hw => writes_connected hw (hc w hw)⟩

/-- The client sends GOAWAY and PING, and only the GOAWAY frame of the answer is sent: the socket is
closing and waits for the PING frame when the timer expires. -/
theorem not_writes_connected :
    ¬ ∀ (server : Server) (actions : List EventLoop.Action) (w : World),
      w ∈ (EventLoop.run server actions).worlds → Along WritesConnected w.log := by
  intro h
  have hall := h (Sample.server 2) (Sample.handshake (Sample.frame 4 0 0 []) ++
    Sample.receive (Sample.frame 7 0 0 (List.replicate 8 0) ++
      Sample.frame 6 0 0 (List.replicate 8 0)) ++ [.send 0 17, .timer 0 3])
  revert hall
  decide +kernel

end Two
