import Two.Http2.Streams

/-!
# Write completions and streams

The callback of a HEADERS or DATA write acts on the stream that is current when the write completes.
As long as that is the stream of the write, and nothing is left to send of a stream that was reset,
a completion touches no other stream and a stream that was reset gets no more data.

## Main definitions

* `OwnStream`: the condition on the events of a trace
* `Isolated`: what is claimed of DATA frames and of the changes of the stream state

## Main results

* `completions_isolated`: in every run that meets the condition, completions are isolated
-/

namespace Two

open Program Relation Trace

/-- A HEADERS or DATA write completes while its own stream is current, or has no effect on the one
that is; and nothing is left to send of a current stream that was reset. -/
def OwnStream (before : List Entry) : Entry → Prop
  | .completed op status s => op.cb = .onStreamSendComplete →
      (op.stream = some s.ctx.stream.id ∧
        (status = 0 → wasReset s.ctx.stream.id before = true → sendLength s.ctx ≤ 0)) ∨
      (sendLength s.ctx ≤ 0 ∧
        (s.ctx.stream.state = .closed ∨ (status = 0 ∧ s.ctx.stream.buflen ≠ 0)))
  | .increment id n s => id ≠ 0 → wasReset s.ctx.stream.id before = true →
      sendLength { s.ctx with stream.windowSize := int32 (s.ctx.stream.windowSize + n) } ≤ 0
  | _ => True

instance (before : List Entry) : DecidablePred (OwnStream before)
  | .completed op _ _ => inferInstanceAs (Decidable (op.cb = .onStreamSendComplete → _ ∨ _))
  | .increment id _ s => inferInstanceAs (Decidable (id ≠ 0 →
      wasReset s.ctx.stream.id before = true → _ ≤ _))
  | .send .. | .frame .. | .error .. | .eventRead .. | .streamState .. | .reset .. | .setting ..
  | .decode .. | .request .. | .ready | .consumed .. => inferInstanceAs (Decidable True)

/-- While the callback of a write for stream `t` runs, only stream `t` is sent data for or changed;
and no data is sent for a stream that was reset. -/
def Isolated (before : List Entry) : Entry → Prop
  | .send (.data id _ _) s => (∀ t ∈ s.callback, t = id) ∧ wasReset id before = false
  | .streamState new s => ∀ t ∈ s.callback, t = s.ctx.stream.id ∨ new = s.ctx.stream.state
  | _ => True

instance (before : List Entry) : DecidablePred (Isolated before)
  | .send (.data id _ _) s => inferInstanceAs (Decidable ((∀ t ∈ s.callback, t = id) ∧ _))
  | .streamState _ s => inferInstanceAs (Decidable (∀ t ∈ s.callback, _))
  | .send (.ping ..) _ | .send (.goaway ..) _ | .send (.settings ..) _ | .send .settingsAck _
  | .send (.headers ..) _ | .send (.rstStream ..) _ | .frame .. | .increment .. | .completed ..
  | .error .. | .eventRead .. | .reset .. | .setting .. | .decode .. | .request .. | .ready
  | .consumed .. => inferInstanceAs (Decidable True)

/-- The operations that are marked with a stream are those of HEADERS and DATA frames. -/
def Labelled (w : World) : Prop :=
  ∀ op ∈ w.sock.queue, op.stream.isSome = true → op.cb = .onStreamSendComplete

section Steps

variable {w w' : World}

theorem Labelled.written {f : Frame} {cb : WriteCb} (hl : Labelled w)
    (hf : f.stream?.isSome = true → cb = .onStreamSendComplete)
    (hq : w'.sock.queue = w.sock.queue ++ w.newOps f cb) : Labelled w' := by
  intro op hop
  rw [hq, List.mem_append] at hop
  rcases hop with hop | hop
  · exact hl op hop
  · unfold World.newOps at hop
    split at hop
    · simp at hop
    · obtain rfl := List.mem_singleton.mp hop
      exact hf

theorem Labelled.sub (hl : Labelled w) (hq : ∀ op ∈ w'.sock.queue, op ∈ w.sock.queue) :
    Labelled w' := fun op hop => hl op (hq op hop)

theorem Labelled.quiet (hl : Labelled w) (h : Quiet w w') : Labelled w' := by
  intro op hop
  have hmem := List.mem_map_of_mem (f := fun op : WriteOp => (op.cb, op.stream)) hop
  rw [h.queue] at hmem
  obtain ⟨op', hop', heq⟩ := List.mem_map.mp hmem
  obtain ⟨hcb, hst⟩ := Prod.mk.inj heq
  rw [← hcb, ← hst]
  exact hl op' hop'

theorem FrameStep.labelled (h : FrameStep true w w') (hl : Labelled w) : Labelled w' := by
  cases h with
  | quiet _ hq => exact hl.quiet hq
  | error e hw => exact hl.written (by simp [Frame.stream?]) (World.fail_queue w e)
  | reply f hf hs hw => exact hl.written (by simp [hf]) (World.written_queue w f _)
  | reset e id hid hw =>
    have hq := World.written_queue w (.rstStream e.code id) .closeOnWriteError
    rw [← World.resetBy_sock] at hq
    exact hl.written (by simp [Frame.stream?]) hq
  | request w₁ t headers res hr hlen => exact hl.sub (by simp [hr.sock])
  | answer w₁ t headers res t' block hr hlen hb hw =>
    have hl₁ : Labelled ((w₁.decoded t).requested headers res) := hl.sub (by simp [hr.sock])
    exact hl₁.written (by simp) (World.answering_queue _ _ _)
  | windowSend h region n hr hn hs hw =>
    have hl₁ : Labelled (w.increment h.streamId n) := hl.sub (by simp)
    exact hl₁.written (by simp) (World.continued_queue _)
  | goaway hr hw => exact hl.written (by simp [Frame.stream?]) (World.goneAway_queue _)
  | _ => exact hl.sub (by simp)

theorem Transition.labelled (h : Transition true w w') (hl : Labelled w) : Labelled w' := by
  cases h with
  | frame _ h => exact h.labelled hl
  | preface e hr hc hp hw => exact hl.written (by simp [Frame.stream?]) (World.greeted_queue _ _)
  | complete op rest w₁ hq hc =>
    have hl₁ : Labelled (w.popped.calling op 0) := hl.sub (by simp +contextual [hq])
    generalize op.cb = cb at hc
    cases hc with
    | settings _ _ hq => exact (hl₁.quiet hq).sub (by simp)
    | send _ hs hw =>
      have := hl₁.written (by simp) (World.continued_queue (w.popped.calling op 0))
      exact this.sub (by simp)
    | _ => exact hl₁.sub (by simp)
  | _ => exact hl.sub (by simp)

/-- The state of the stream is assigned by a callback only where that closes it. -/
theorem Transition.streamState_entry {live : Bool} (h : Transition live w w')
    {new a b : List Entry} {state : StreamState} {s : State} (hlog : w'.log = w.log ++ new)
    (hnew : new = a ++ .streamState state s :: b) :
    s.callback = w.callback ∨ ∃ op rest status, w.sock.queue = op :: rest ∧
      a = [.completed op status w.popped.toState] ∧ s.callback = op.stream ∧
      s.ctx.stream = w.ctx.stream ∧ state = .closed ∧
      (op.cb = .onStreamSendComplete → status = 0 → w.ctx.stream.buflen = 0) := by
  have hmem : Entry.streamState state s ∈ new := by simp [hnew]
  cases h with
  | frame _ h =>
    -- no callback is running while a frame is handled
    left
    cases h with
    | quiet _ hq =>
      simp [hq.log] at hlog
      simp [hlog] at hmem
    | block h data n hb =>
      simp [World.block_log] at hlog
      obtain ⟨_, he, hcall⟩ := World.mem_markEntry _ _ (hlog ▸ hmem)
      cases he
      simpa using hcall
    | data h hd =>
      simp [World.marked_log] at hlog
      obtain ⟨_, he, hcall⟩ := World.mem_markEntry _ _ (hlog ▸ hmem)
      cases he
      exact hcall
    | request w₁ t hs res hr hl =>
      obtain ⟨u, h, hw, hu⟩ := hr.log
      simp [hw] at hlog
      simp [← hlog] at hmem
      obtain ⟨_, he, hcall⟩ := World.mem_markEntry _ _ hmem
      cases he
      exact hcall.trans hu
    | answer w₁ t hs res t' block hr hl hb hw =>
      obtain ⟨u, h, hw, hu⟩ := hr.log
      simp [hw] at hlog
      simp [← hlog] at hmem
      obtain ⟨_, he, hcall⟩ := World.mem_markEntry _ _ hmem
      cases he
      exact hcall.trans hu
    | reset e id hid hw =>
      rw [World.resetBy_log, List.append_assoc, List.append_cancel_left_eq] at hlog
      rw [← hlog] at hmem
      -- a reset changes the state of the current stream only
      by_cases hcur : id = w.ctx.stream.id
      · simp [hcur] at hmem
        simp [hmem.2]
      · simp [hcur] at hmem
    | openStream h region hh ht hc hid ho hs =>
      simp at hlog
      simp [← hlog] at hmem
      simp [hmem.2]
    | rst h region hh ht hid =>
      simp at hlog
      simp [← hlog] at hmem
      simp [hmem.2]
    | goawayClose =>
      simp at hlog
      simp [← hlog] at hmem
      simp [hmem.2]
    | _ =>
      simp at hlog
      subst hlog
      simp at hmem
  | closeImmediate =>
    left
    simp at hlog
    simp [← hlog] at hmem
    simp [hmem.2]
  | complete op rest w₁ hq hc =>
    -- the callback of a completed write runs while its own stream is noted
    right
    generalize hcb : op.cb = cb at hc
    rw [World.returned_log] at hlog
    cases hc with
    -- the callbacks that assign a state are those that close the stream
    | settings _ _ hq =>
      simp [hq.log] at hlog
      simp [← hlog] at hmem
    | goaway _ =>
      rw [World.closeImmediate_log, World.calling_log, World.popped_log, List.append_assoc,
        List.append_cancel_left_eq] at hlog
      obtain ⟨rfl, he, -⟩ := split_unique (hnew ▸ hlog.symm) (by simp) (by simp)
      cases he
      exact ⟨op, rest, 0, hq, rfl, rfl, rfl, rfl, by simp [hcb]⟩
    | done _ hb =>
      rw [World.streamTo_log, World.calling_log, World.popped_log, List.append_assoc,
        List.append_cancel_left_eq] at hlog
      obtain ⟨rfl, he, -⟩ := split_unique (hnew ▸ hlog.symm) (by simp) (by simp)
      cases he
      exact ⟨op, rest, 0, hq, rfl, rfl, rfl, rfl, fun _ _ => hb⟩
    | _ =>
      simp at hlog
      subst hlog
      simp at hmem
  | failed op rest status hq hneg =>
    -- a write that failed closes the connection, whatever its callback
    right
    rw [World.dropped_log, List.append_cancel_left_eq] at hlog
    obtain ⟨rfl, he, -⟩ := split_unique (x := [_]) (y := []) (hnew ▸ hlog.symm) (by simp) (by simp)
    cases he
    exact ⟨op, rest, status, hq, rfl, rfl, rfl, rfl, fun _ h0 => by omega⟩
  | _ =>
    simp at hlog
    subst hlog
    simp at hmem

end Steps

/-- The run rule for the isolation of completions. -/
theorem runRule_isolated : RunRule OwnStream Isolated fun w => Orderly w ∧ Labelled w := by
  refine .of_orderly ?_ ?_ (fun w w' ht _ _ hl _ => ht.labelled hl) ?_
  · intro pools r s op hop
    simp [EventLoop.newSock, Sock.queue] at hop
  · intro w pools hl
    exact hl
  · intro live w w' ht hsane ho hl new hlog a e b hnew hc
    have hc' := hc.of_prefix (List.prefix_append (w.log ++ a) [e])
    unfold Isolated
    split
    -- data: sent by a WINDOW_UPDATE frame, or by the callback of a write of the same stream
    · rename_i id fin data s
      obtain ⟨w₁, hsend, hs, rfl, hf⟩ := ht.data_entry hlog hnew
      obtain ⟨rfl, -, -⟩ := Frame.data.inj hf
      cases hsend with
      | window h region hr =>
        obtain ⟨-, hcond⟩ := along_append_singleton.mp hc'
        refine ⟨by simp [hsane.idle], ?_⟩
        -- after a reset nothing may be left to send
        by_contra hreset
        have := hcond hr.stream (by simpa using hreset)
        exact absurd hs (not_lt.mpr this)
      | complete op rest hq hcb =>
        obtain ⟨-, hcond⟩ := along_append_singleton.mp hc'
        rcases hcond hcb with ⟨hst, hres⟩ | ⟨hle, -⟩
        · refine ⟨by simp [hst], ?_⟩
          by_contra hreset
          have := hres rfl (by simpa using hreset)
          exact absurd hs (not_lt.mpr this)
        · exact absurd hs (not_lt.mpr hle)
    · rename_i state s
      -- a new state: outside of callbacks, or where a callback closes the stream
      rcases ht.streamState_entry hlog hnew with hcall | ⟨op, rest, status, hq, rfl, hcall, hst, rfl, hb⟩
      · simp [hcall, hsane.idle]
      · intro t ht'
        rw [hcall] at ht'
        have hcb := hl op (by simp [hq]) (by simp [Option.mem_def.mp ht'])
        obtain ⟨-, hcond⟩ := along_append_singleton.mp hc'
        rw [hst]
        -- the stream of the write is the current one, or the stream is closed already
        rcases hcond hcb with ⟨hst', -⟩ | ⟨-, hclosed | ⟨h0, hne⟩⟩
        · rw [Option.mem_def, hst'] at ht'
          exact .inl (Option.some.inj ht').symm
        · exact .inr hclosed.symm
        · exact absurd (hb hcb h0) hne
    · trivial

section Runs

variable {server : Server} {actions : List EventLoop.Action} {w : World}

/-- **Stream isolation of write completions.** In every run in which HEADERS and DATA writes complete
while their own stream is current, and nothing is left to send of a stream that was reset, the
callback of a write sends data for and changes only its own stream, and no data is sent for a stream
after it was reset. -/
theorem completions_isolated (hw : w ∈ (EventLoop.run server actions).worlds)
    (hc : Along OwnStream w.log) : Along Isolated w.log :=
  runRule_isolated.trace hw hc

end Runs

/-- The completions of an ordinary exchange. -/
theorem completions_isolated_exchange :
    (EventLoop.run (Sample.server 2) Sample.exchange).worlds.length = 1 ∧
      ∀ w ∈ (EventLoop.run (Sample.server 2) Sample.exchange).worlds, Along Isolated w.log := by
  have hc : ∀ w ∈ (EventLoop.run (Sample.server 2) Sample.exchange).worlds,
      Along OwnStream w.log := by decide +kernel
  exact ⟨by decide +kernel, fun w hw => completions_isolated hw (hc w hw)⟩

/-- The stream is reset while its response headers wait in the write buffer: when they are sent, the
content follows. -/
theorem not_completions_isolated :
    ¬ ∀ (server : Server) (actions : List EventLoop.Action) (w : World),
      w ∈ (EventLoop.run server actions).worlds → Along Isolated w.log := by
  intro h
  have hall := h (Sample.server 2) (Sample.handshake (Sample.frame 4 0 0 []) ++
    Sample.receive (Sample.headers 5 1 Sample.getBlock ++ Sample.frame 3 0 1 [0, 0, 0, 8]) ++
      [.send 0 512])
  revert hall
  decide +kernel

end Two
