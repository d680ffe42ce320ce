import Two.Http2.Writes

/-!
# Connections that no longer read

`http2_error` first stops reading and then sends a GOAWAY frame, whose write closes the connection.
If the write buffer takes nothing of the frame, no operation is queued and nothing closes the
connection any more.

## Main definitions

* `Sock.leaves`: a queued operation closes the connection
* `Attended`: the connection is read from, or it is going to be closed
* `ErrorsAnnounced`: the condition on the events of a trace

## Main results

* `Transition.attended`: every transition keeps `Attended`
* `no_orphan`: in every run that meets the condition, no connected client is left alone
-/

namespace Two

open Program Relation Trace

/-- The write of a GOAWAY frame that closes the connection is queued. -/
def Sock.leaves (s : Sock) : Prop := ∃ op ∈ s.queue, op.cb = .closeOnGoawaySent

instance (s : Sock) : Decidable s.leaves := inferInstanceAs (Decidable (∃ op ∈ _, _))

/-- Where `http2_error` is called, the write buffer takes a byte of its GOAWAY frame, or the write of
an earlier one is still queued. -/
def ErrorsAnnounced (_before : List Entry) : Entry → Prop
  | .error _ s => 0 < s.sock.room ∨ s.sock.leaves
  | _ => True

instance (before : List Entry) : DecidablePred (ErrorsAnnounced before)
  | .error _ s => inferInstanceAs (Decidable (0 < s.sock.room ∨ s.sock.leaves))
  | .send .. | .frame .. | .increment .. | .completed .. | .eventRead .. | .streamState ..
  | .reset .. | .setting .. | .decode .. | .request .. | .ready | .consumed .. =>
    inferInstanceAs (Decidable True)

/-- A connected socket is read from, or the write that closes it is queued. -/
def Attended (w : World) : Prop := w.sock.state = .connected → w.sock.read.isSome ∨ w.sock.leaves

section Steps

variable {w w' : World}

/-- Operations that are added leave those that are there. -/
theorem Sock.leaves.append {ops : List WriteOp} (h : w.sock.leaves)
    (hq : w'.sock.queue = w.sock.queue ++ ops) : w'.sock.leaves := by
  obtain ⟨op, hop, hcb⟩ := h
  exact ⟨op, by simp [hq, hop], hcb⟩

theorem Quiet.leaves (h : Quiet w w') (hl : w.sock.leaves) : w'.sock.leaves := by
  obtain ⟨op, hop, hcb⟩ := hl
  have hmem := List.mem_map_of_mem (f := fun op : WriteOp => (op.cb, op.stream)) hop
  rw [← h.queue] at hmem
  obtain ⟨op', hop', heq⟩ := List.mem_map.mp hmem
  exact ⟨op', hop', (Prod.mk.inj heq).1.trans hcb⟩

/-- While a frame is handled, no operation leaves the queue. -/
theorem FrameStep.leaves {live : Bool} (h : FrameStep live w w') (hl : w.sock.leaves) :
    w'.sock.leaves := by
  have hsame : w'.sock = w.sock → w'.sock.leaves := fun hs => hs ▸ hl
  cases h with
  | error e hw => exact hl.append (World.fail_queue ..)
  | quiet _ hq => exact hq.leaves hl
  | reply f hf hs hw hg => exact hl.append (World.written_queue ..)
  | reset e id hid hw =>
    refine @Sock.leaves.append _ _ (w.newOps (.rstStream e.code id) .closeOnWriteError) hl ?_
    simp
  | request w₁ t headers res hr _ => exact hsame (by simp [hr.sock])
  | answer w₁ t headers res t' block hr _ _ _ =>
    have hl₁ : ((w₁.decoded t).requested headers res).sock.leaves := by simpa [hr.sock] using hl
    exact hl₁.append (World.answering_queue ..)
  | windowSend h region n hr hn hs hw =>
    have hl₁ : (w.increment h.streamId n).sock.leaves := by simpa using hl
    exact hl₁.append (World.continued_queue ..)
  | goaway => exact hl.append (World.goneAway_queue ..)
  | _ => exact hsame (by simp)

/-- An error is announced by a GOAWAY frame. -/
theorem fail_leaves (w : World) (e : Http2Error) (h : 0 < w.sock.room ∨ w.sock.leaves) :
    (w.fail e).sock.leaves := by
  rcases h with hroom | hl
  · rw [Sock.leaves, World.fail_queue, World.newOps, if_neg (by omega)]
    exact ⟨_, List.mem_append_right _ (List.mem_singleton_self _), rfl⟩
  · exact hl.append (World.fail_queue ..)

/-- While a frame is handled, only `http2_error` stops reading. -/
theorem FrameStep.read_kept {live : Bool} (h : FrameStep live w w') :
    (∃ e, w' = w.fail e) ∨ w'.sock.read.isSome = w.sock.read.isSome := by
  cases h with
  | error e hw => exact .inl ⟨e, rfl⟩
  | quiet _ hq => exact .inr (by simpa using congrArg Option.isSome hq.read)
  | reset e id _ _ => exact .inr (by simp)
  | request w₁ t hs res hr _ => exact .inr (by simp [hr.sock])
  | answer w₁ t hs res t' block hr _ _ _ => exact .inr (by simp [hr.sock])
  | _ => exact .inr (by simp)

/-- A frame step keeps the connection attended. -/
theorem FrameStep.attended {live : Bool} (h : FrameStep live w w') (ha : Attended w)
    (hc : Along ErrorsAnnounced w'.log) : Attended w' := by
  intro hconn
  rw [h.sock_state] at hconn
  rcases h.read_kept with ⟨e, rfl⟩ | hread
  · rw [World.fail_log] at hc
    exact .inr (fail_leaves w e (hc w.log _ _ rfl))
  · rw [hread]
    exact (ha hconn).imp_right h.leaves

/-- A write callback keeps the connection attended. -/
theorem Callback.attended {live : Bool} {cb : WriteCb} (h : Callback live cb w w')
    (ha : w.sock.state = .connected → cb = .closeOnGoawaySent ∨ w.sock.read.isSome ∨ w.sock.leaves) :
    Attended w' := by
  intro hconn
  have hkept : cb ≠ .closeOnGoawaySent → w.sock.state = .connected →
      w.sock.read.isSome ∨ w.sock.leaves := fun hcb hs => (ha hs).resolve_left hcb
  cases h with
  | writeError => exact hkept (by simp) hconn
  | goaway => simp at hconn
  | settings _ _ hq =>
    rw [hq.sock] at hconn
    have hread : w'.sock.read.isSome = w.sock.read.isSome := by
      simpa using congrArg Option.isSome hq.read
    rw [hread]
    exact (hkept (by simp) hconn).imp_right hq.leaves
  | done hb => exact hkept (by simp) hconn
  | idle hb hs => exact hkept (by simp) hconn
  | send hs hw =>
    have hold := hkept (by simp) (by simpa using hconn)
    exact hold.imp (by simp) fun hl => hl.append (World.continued_queue ..)

/-- **A transition keeps the connection attended**, if its errors can be announced. -/
theorem Transition.attended {live : Bool} (h : Transition live w w') (ha : Attended w)
    (hc : Along ErrorsAnnounced w'.log) : Attended w' := by
  cases h with
  | frame _ h => exact h.attended ha hc
  | closeImmediate => simp [Attended]
  | preface e hr hcb hp hw => exact fun _ => .inl (by simp [hr])
  | ready e h hs hr => exact fun hconn => (ha (by simpa using hconn)).imp (by simp) id
  | consume bytes n h => exact fun hconn => (ha (by simpa using hconn)).imp (by simp) id
  | complete op rest w₁ hq hcall =>
    -- the operation has left the queue: it closes the connection, or the others remain
    have hcalled : Attended w₁ := by
      refine hcall.attended fun hconn => ?_
      rcases ha (by simpa using hconn) with hread | ⟨op', hop', hcb⟩
      · exact .inr (.inl (by simpa using hread))
      · rw [hq] at hop'
        rcases List.mem_cons.mp hop' with rfl | hrest
        · exact .inl hcb
        · exact .inr (.inr ⟨op', by simp [hq, hrest], hcb⟩)
    exact hcalled
  | failed op rest status hq hs => simp [Attended]
  | flush h =>
    intro hconn
    rcases h with hclosed | hempty
    · exact absurd (by simpa using hconn) hclosed
    · exact .inl ((ha (by simpa using hconn)).resolve_right (by simp [Sock.leaves, hempty]))

end Steps

/-- The run rule for connections that no longer read. -/
theorem runRule_attended : RunRule ErrorsAnnounced (fun _ _ => True) Attended :=
  ⟨fun _ _ _ _ => .inl rfl, fun _ _ h => h, fun _ _ ht _ ha hc => ht.attended ha hc,
    fun _ _ _ _ _ _ _ _ _ _ _ _ _ => trivial⟩

/-- The write of the GOAWAY frame closes the connection, whether it succeeds or not. -/
theorem callOp_leaves {op : WriteOp} (hop : op.cb = .closeOnGoawaySent) (status : ℤ) (w : World) :
    ∃ w', callOp op status w = .ok () w' ∧ w'.sock.state = .closing ∧ w'.sock.read = none := by
  have hclose : wp (callOp op status)
      (fun _ w' => w'.sock.state = .closing ∧ w'.sock.read = none) (fun _ _ => False) w := by
    simp [callOp, hop, callWriteCb, closeOnGoawaySent, wp_bind, wp_record, wp_modify,
      wp_http2CloseImmediate]
  unfold wp at hclose
  split at hclose
  · exact ⟨_, ‹_›, hclose⟩
  · exact hclose.elim

section Runs

variable {server : Server} {actions : List EventLoop.Action} {w : World}

/-- **No connection is left alone**, in every run in which the write buffer takes a byte of every
GOAWAY frame of `http2_error` or the write of another one is still queued: a connected client is
read from, or a write is queued that closes the connection when it ends, or the timer is armed. -/
theorem no_orphan (ha : (EventLoop.run server actions).aborted = none)
    (hw : w ∈ (EventLoop.run server actions).worlds) (hc : Along ErrorsAnnounced w.log)
    (hconn : w.sock.state = .connected) :
    (w.sock.read.isSome ∨ w.sock.leaves ∨ w.sock.timers ≠ []) ∧
      ∀ op ∈ w.sock.queue, op.cb = .closeOnGoawaySent → ∀ status w₁,
        ∃ w', callOp op status w₁ = .ok () w' ∧ w'.sock.state = .closing ∧ w'.sock.read = none := by
  obtain ⟨-, hattended⟩ := runRule_attended.invariant ha hw hc
  exact ⟨(hattended hconn).imp_right .inl, fun op _ hop status w₁ => callOp_leaves hop status w₁⟩

end Runs

namespace Sample

/-- The client acknowledges the settings, asks for a resource, and sends a PING frame of the wrong
length when the write buffer holds the DATA frame of the response. -/
def errorWhileSending : List EventLoop.Action :=
  handshake (frame 4 0 0 []) ++ receive (frame 4 1 0 []) ++ receive (headers 5 1 getBlock) ++
    [.send 0 512] ++ receive (frame 6 0 0 [])

end Sample

/-- A short response leaves room for the GOAWAY frame. -/
theorem no_orphan_short :
    ∃ w ∈ (EventLoop.run (Sample.server 2) Sample.errorWhileSending).worlds,
      w.sock.read = none ∧ w.sock.state = .connected ∧
        (w.sock.read.isSome ∨ w.sock.leaves ∨ w.sock.timers ≠ []) := by
  have hrun : (EventLoop.run (Sample.server 2) Sample.errorWhileSending).aborted = none ∧
      ∃ w ∈ (EventLoop.run (Sample.server 2) Sample.errorWhileSending).worlds,
        Along ErrorsAnnounced w.log ∧ w.sock.read = none ∧ w.sock.state = .connected := by
    decide +kernel
  obtain ⟨ha, w, hw, hc, hread, hconn⟩ := hrun
  exact ⟨w, hw, hread, hconn, (no_orphan ha hw hc hconn).1⟩

/-- A response of 503 bytes fills the write buffer: the error stops reading, and nothing closes the
connection. -/
theorem not_no_orphan :
    ¬ ∀ (server : Server) (actions : List EventLoop.Action) (w : World),
      (EventLoop.run server actions).aborted = none → w ∈ (EventLoop.run server actions).worlds →
      w.sock.state = .connected → w.sock.read.isSome ∨ w.sock.leaves ∨ w.sock.timers ≠ [] := by
  intro h
  have hall := fun w => h (Sample.server 503) (Sample.errorWhileSending ++ [.send 0 512]) w
    (by decide +kernel)
  revert hall
  decide +kernel

end Two
