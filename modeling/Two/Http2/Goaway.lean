import Two.Event.Connection
import Two.Http2.Writes

/-!
# GOAWAY frames

A GOAWAY frame is sent by `http2_error`, in answer to a GOAWAY frame, and by
`http2_close_gracefully`. The flag `HTTP2_FLAGS_GOAWAY_SENT`, which should keep them from sending a
second one, is never set: `http2_error` and `http2_close_gracefully` clear all other flags instead.

## Main definitions

* `goawayQueued`: a GOAWAY frame was queued
* `GoawayOnce`, `ClosesAtOnce`: what is claimed of the trace of a connection
* `FirstGoaway`, `LeavesOnce`: the conditions on the events of a trace and on graceful closes

## Main results

* `goaway_once`: in every run of a connection that meets the conditions, at most one GOAWAY frame is
  queued
-/

namespace Two

open Program Relation Trace

/-- A GOAWAY frame is queued, at least in part. -/
@[simp] def Entry.queuesGoaway : Entry → Bool
  | .send (.goaway _ _) s => 0 < s.sock.room
  | _ => false

section Observations

variable (log new : List Entry)

/-- A GOAWAY frame was queued. -/
def goawayQueued : Bool := log.any Entry.queuesGoaway

@[simp] theorem goawayQueued_nil : goawayQueued [] = false := rfl

@[simp] theorem goawayQueued_append :
    goawayQueued (log ++ new) = (goawayQueued log || goawayQueued new) := by
  simp [goawayQueued]

@[simp] theorem goawayQueued_cons (e : Entry) :
    goawayQueued (e :: log) = (e.queuesGoaway || goawayQueued log) := rfl

end Observations

/-- A GOAWAY frame is queued only if none was queued before. -/
def GoawayOnce (before : List Entry) : Entry → Prop
  | .send (.goaway _ _) s => 0 < s.sock.room → goawayQueued before = false
  | _ => True

instance (before : List Entry) : DecidablePred (GoawayOnce before)
  | .send (.goaway _ _) s =>
    inferInstanceAs (Decidable (0 < s.sock.room → goawayQueued before = false))
  | .send (.ping ..) _ | .send (.settings ..) _ | .send .settingsAck _ | .send (.rstStream ..) _
  | .send (.headers ..) _ | .send (.data ..) _ | .frame .. | .increment .. | .completed ..
  | .error .. | .eventRead .. | .streamState .. | .reset .. | .setting .. | .decode ..
  | .request .. | .ready | .consumed .. => inferInstanceAs (Decidable True)

/-- The last event was a GOAWAY frame from the peer after one had been queued. -/
def answersGoaway (before : List Entry) : Bool :=
  match before.getLast? with
  | some (.frame h _ _) => h.type = .goaway ∧ goawayQueued before
  | _ => false

/-- A GOAWAY frame from the peer, after one was queued, closes the connection at once. -/
def ClosesAtOnce (before : List Entry) (e : Entry) : Prop :=
  answersGoaway before →
    match e with
    | .streamState .closed s => s.ctx.state = .closed
    | _ => False

instance (before : List Entry) : DecidablePred (ClosesAtOnce before)
  | .streamState .closed s =>
    inferInstanceAs (Decidable (answersGoaway before → s.ctx.state = .closed))
  | .streamState .opened _ | .streamState .halfClosedLocal _ | .streamState .halfClosedRemote _
  | .send .. | .frame .. | .increment .. | .completed .. | .error .. | .eventRead .. | .reset ..
  | .setting .. | .decode .. | .request .. | .ready | .consumed .. =>
    inferInstanceAs (Decidable (answersGoaway before → False))

/-- Once a GOAWAY frame was queued, `http2_error` is not called, unless the write buffer is full,
and no GOAWAY frame arrives. -/
def FirstGoaway (before : List Entry) : Entry → Prop
  | .error _ s => 0 < s.sock.room → goawayQueued before = false
  | .frame h _ _ => h.type = .goaway → goawayQueued before = false
  | _ => True

instance (before : List Entry) : DecidablePred (FirstGoaway before)
  | .error _ s => inferInstanceAs (Decidable (0 < s.sock.room → goawayQueued before = false))
  | .frame h _ _ => inferInstanceAs (Decidable (h.type = .goaway → goawayQueued before = false))
  | .send .. | .increment .. | .completed .. | .eventRead .. | .streamState .. | .reset ..
  | .setting .. | .decode .. | .request .. | .ready | .consumed .. =>
    inferInstanceAs (Decidable True)

/-- `http2_close_gracefully` is not called once a GOAWAY frame was queued, unless the connection is
known to be closing or closed, or the write buffer is full. -/
def LeavesOnce (w : World) : Prop :=
  w.ctx.state = .closed ∨ w.ctx.state = .closing ∨ (0 < w.sock.room → goawayQueued w.log = false)

instance : DecidablePred LeavesOnce := fun w =>
  inferInstanceAs (Decidable (w.ctx.state = .closed ∨ w.ctx.state = .closing ∨
    (0 < w.sock.room → goawayQueued w.log = false)))

/-- Where no GOAWAY frame arrives after one was queued, none has to close the connection. -/
theorem not_answersGoaway {log : List Entry} (hc : Along FirstGoaway log) :
    answersGoaway log = false := by
  unfold answersGoaway
  split
  · rename_i h region s hlast
    obtain ⟨before, rfl⟩ := List.getLast?_eq_some_iff.mp hlast
    obtain ⟨-, hframe⟩ := along_append_singleton.mp hc
    have hq : h.type = .goaway → goawayQueued before = false := hframe
    simpa using hq
  · rfl

/-- The GOAWAY frames of a transition. -/
theorem Transition.goaway_at_most_once {live : Bool} {w w' : World} (h : Transition live w w')
    {new a b : List Entry} {code last : ℕ} {s : State} (hlog : w'.log = w.log ++ new)
    (hnew : new = a ++ .send (.goaway code last) s :: b) (hc : Along FirstGoaway (w.log ++ a)) :
    0 < s.sock.room → goawayQueued (w.log ++ a) = false := by
  obtain ⟨cb, hsent⟩ := h.send_entry hlog hnew
  generalize hf : Frame.goaway code last = f at hsent
  cases hsent with
  | error e hs =>
    obtain ⟨-, hcond⟩ := along_append_singleton.mp hc
    have hq : 0 < w.sock.room → goawayQueued w.log = false := hcond
    simpa [Sock.room, World.failing] using hq
  | reply f hf' hl hs hg => exact absurd hf.symm (hg code last)
  | goaway hs h region s' hh ht =>
    -- the frame that is answered came before a GOAWAY frame was queued
    obtain ⟨before, after, hw, hafter⟩ := hh
    rw [hw, List.append_assoc] at hc
    have hq : h.type = .goaway → goawayQueued before = false := hc before _ _ rfl
    have hstates : goawayQueued after = false := by
      simp only [goawayQueued, List.any_eq_false]
      intro e he
      obtain ⟨new, s, rfl⟩ := hafter e he
      simp
    simp [hw, hq ht, hstates]
  | reset | answer | preface => cases hf
  | data w₁ a hsend hpos hs => simp [World.dataFrame] at hf

/-- The run rule for GOAWAY frames. -/
theorem connRule_goaway :
    ConnRule FirstGoaway (fun before e => GoawayOnce before e ∧ ClosesAtOnce before e) LeavesOnce
      fun _ => True := by
  have hcloses : ∀ {log : List Entry} {e : Entry}, Along FirstGoaway log → ClosesAtOnce log e := by
    intro log e hc hans
    simp [not_answersGoaway hc] at hans
  refine ⟨fun _ _ _ => trivial, fun _ _ _ _ _ _ => trivial, ?_, fun _ _ _ _ _ _ => trivial, ?_⟩
  · intro live w w' ht hs _ new hlog a e b hnew hc
    have hc' := hc.of_prefix (List.prefix_append (w.log ++ a) [e])
    refine ⟨?_, hcloses hc'⟩
    unfold GoawayOnce
    split
    · exact ht.goaway_at_most_once hlog hnew hc'
    · trivial
  · intro w hs _ hleave husable hc
    rw [World.gracefully_log] at hc
    refine ⟨?_, hcloses (along_append_singleton.mp hc).1⟩
    rcases hleave with h | h | h
    · exact absurd h husable.1
    · exact absurd h husable.2
    · exact h

section Runs

variable {server : Server} {pools : Pools} {r s : ℕ} {events : List ConnEvent}

/-- **At most one GOAWAY frame is queued** in every run of a connection in which, once one was
queued, `http2_error` is not called and no GOAWAY frame arrives, and in which
`http2_close_gracefully` is not called again after the handshake has made the connection usable. A
GOAWAY frame that arrives after one was queued would close the connection at once. -/
theorem goaway_once (hg : Connection.GracefulIn server LeavesOnce (.init pools r s) events)
    (hc : Along FirstGoaway (Connection.run server (.init pools r s) events).world.log) :
    Along GoawayOnce (Connection.run server (.init pools r s) events).world.log ∧
      Along ClosesAtOnce (Connection.run server (.init pools r s) events).world.log := by
  have hall := connRule_goaway.trace trivial hg hc
  exact ⟨hall.mono fun _ _ h => h.1, hall.mono fun _ _ h => h.2⟩

end Runs

namespace Sample

/-- A connection of a loop without other connections. -/
def connection : Connection := .init ⟨[3, 4, 5, 6], [0, 1, 2, 3, 4, 5, 6, 7], 0⟩ 1 2

/-- The preface and the SETTINGS frame of the client, and the SETTINGS frame of the server. -/
def greeting : List ConnEvent :=
  [.recv (http2Preface ++ frame 4 0 0 []), .pending, .pending, .send 45]

/-- The connection is closed gracefully, twice, and the GOAWAY frame is sent. -/
def farewell : List ConnEvent := greeting ++ [.closeGracefully, .closeGracefully, .send 17]

end Sample

/-- A graceful close after the handshake. -/
theorem goaway_once_farewell :
    goawayQueued (Connection.run .empty Sample.connection Sample.farewell).world.log ∧
      Along GoawayOnce (Connection.run .empty Sample.connection Sample.farewell).world.log := by
  have hg : Connection.GracefulIn .empty LeavesOnce Sample.connection Sample.farewell := by
    decide +kernel
  have hc : Along FirstGoaway (Connection.run .empty Sample.connection Sample.farewell).world.log := by
    decide +kernel
  exact ⟨by decide +kernel, (goaway_once hg hc).1⟩

/-- The connection is closed gracefully, and the client answers with a GOAWAY frame: the server
queues another one and reads on. -/
theorem not_goaway_once :
    ¬ ∀ (server : Server) (pools : Pools) (r s : ℕ) (events : List ConnEvent),
      Along GoawayOnce (Connection.run server (.init pools r s) events).world.log ∧
        Along ClosesAtOnce (Connection.run server (.init pools r s) events).world.log := by
  intro h
  have hall := h .empty ⟨[3, 4, 5, 6], [0, 1, 2, 3, 4, 5, 6, 7], 0⟩ 1 2 (Sample.greeting ++
    [.closeGracefully, .recv (Sample.frame 7 0 0 (List.replicate 8 0)), .pending])
  revert hall
  decide +kernel

end Two
