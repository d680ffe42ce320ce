import Two.Http2.Streams

/-!
# The handshake

A connection becomes ready after the preface and a SETTINGS frame. `update_settings` reports an
unacceptable parameter by `http2_error` and returns zero, which `handle_settings_frame` does not tell
from a frame without known parameters: `waiting_for_settings` makes the connection ready, and calls
`event_read` although the read event is gone.

## Main definitions

* `received`: the bytes that the read callbacks have consumed
* `Handshaken`: the preface and an acceptable SETTINGS frame were received
* `AcceptableSettings`: the condition on the events of a trace
* `HandshakeOk`: what is claimed of the events of a trace

## Main results

* `Transition.shaken`: every transition follows the handshake
* `handshake`: in every run that meets the condition, the handshake is as claimed
-/

namespace Two

open Program Relation Trace

/-- The bytes that a read callback has consumed. -/
@[simp] def Entry.received : Entry → Bytes
  | .consumed bytes => bytes
  | _ => []

/-- The bytes that the read callbacks have consumed. -/
def received (log : List Entry) : Bytes := log.flatMap Entry.received

@[simp] theorem received_nil : received [] = [] := rfl

@[simp] theorem received_cons (e : Entry) (log : List Entry) :
    received (e :: log) = e.received ++ received log := by
  simp [received]

@[simp] theorem received_append (log new : List Entry) :
    received (log ++ new) = received log ++ received new := by
  simp [received]

/-- A complete SETTINGS frame of stream 0 that is not an acknowledgment, with acceptable
parameters. -/
structure IsSettings (bytes : Bytes) : Prop where
  whole : bytes.length = 9 + (frameParseHeader bytes).length
  type : (frameParseHeader bytes).type = .settings
  ack : (frameParseHeader bytes).has frameFlagsAck = false
  stream : (frameParseHeader bytes).streamId = 0
  length : (frameParseHeader bytes).length % 6 = 0
  acceptable : Acceptable (frameParseHeader bytes) (bytes.drop 9)

/-- The preface and then an acceptable SETTINGS frame were received. -/
def Handshaken (bytes : Bytes) : Prop :=
  ∃ settings, IsSettings settings ∧ http2Preface ++ settings <+: bytes

/-- The SETTINGS frame that `waiting_for_settings` handles has acceptable parameters, unless it is
refused for its stream or its length. -/
def AcceptableSettings (_before : List Entry) : Entry → Prop
  | .frame h region s => s.sock.read.map EventRead.cb = some .waitingForSettings →
      h.type = .settings → h.flags = 0 → h.streamId = 0 → h.length % 6 = 0 → Acceptable h region
  | _ => True

instance (before : List Entry) : DecidablePred (AcceptableSettings before)
  | .frame h region s => inferInstanceAs (Decidable
      (s.sock.read.map EventRead.cb = some .waitingForSettings → h.type = .settings →
        h.flags = 0 → h.streamId = 0 → h.length % 6 = 0 → Acceptable h region))
  | .send .. | .error .. | .increment .. | .completed .. | .eventRead .. | .streamState ..
  | .reset .. | .setting .. | .decode .. | .request .. | .ready | .consumed .. =>
    inferInstanceAs (Decidable True)

/-- The connection does not become ready after an error, and the handshake calls `event_read` only
while there is a read event. (A GOAWAY frame is the other one that makes `event_read` called; it
sets the state of the connection before.) -/
def HandshakeOk (before : List Entry) : Entry → Prop
  | .ready => errored before = false
  | .eventRead _ s => s.ctx.state ≠ .closing → s.sock.read.isSome
  | _ => True

instance (before : List Entry) : DecidablePred (HandshakeOk before)
  | .ready => inferInstanceAs (Decidable (errored before = false))
  | .eventRead _ s => inferInstanceAs (Decidable (s.ctx.state ≠ .closing → s.sock.read.isSome))
  | .send .. | .error .. | .increment .. | .completed .. | .frame .. | .streamState ..
  | .reset .. | .setting .. | .decode .. | .request .. | .consumed .. =>
    inferInstanceAs (Decidable True)

/-! ## Steps outside of the handshake -/

/-- An event of the handshake. -/
@[simp] def Entry.shakes : Entry → Bool
  | .ready => true
  | .eventRead _ s => s.ctx.state ≠ .closing
  | .consumed _ => true
  | _ => false

/-- The trace has an event of the handshake. -/
def shook (log : List Entry) : Bool := log.any Entry.shakes

@[simp] theorem shook_nil : shook [] = false := rfl

@[simp] theorem shook_cons (e : Entry) (log : List Entry) :
    shook (e :: log) = (e.shakes || shook log) := rfl

@[simp] theorem shook_append (log new : List Entry) :
    shook (log ++ new) = (shook log || shook new) := by
  simp [shook]

/-- Events outside of the handshake, after which the connection is as far as before, or closes. -/
structure Aside (w w' : World) : Prop where
  log : ∃ new, w'.log = w.log ++ new ∧ shook new = false
  state : w'.ctx.state = .closing ∨ w'.ctx.state = .closed ∨
    (w'.ctx.state = w.ctx.state ∧ w'.sock.read.isSome = w.sock.read.isSome)

section Steps

variable {w w' : World}

theorem received_of_aside {new : List Entry} (h : shook new = false) :
    received new = [] := by
  simp only [received, List.flatMap_eq_nil_iff]
  intro e he
  have hshakes := List.any_eq_false.mp h e he
  cases e with
  | consumed bytes => simp at hshakes
  | _ => rfl

@[simp] theorem shook_markEntry (u : World) (h : FrameHeader) : shook (u.markEntry h) = false := by
  unfold World.markEntry
  split <;> rfl

/-- A frame step records no event of the handshake. -/
theorem FrameStep.aside_log {live : Bool} (h : FrameStep live w w') :
    ∃ new, w'.log = w.log ++ new ∧ shook new = false := by
  cases h with
  | quiet _ hq => exact ⟨[], by simp [hq.log], by simp⟩
  | block h data n hb => exact ⟨_, World.block_log .., shook_markEntry _ _⟩
  | data h hd => exact ⟨_, World.marked_log .., shook_markEntry _ _⟩
  | request w₁ t headers res hr hl =>
    obtain ⟨u, h, hlog, -⟩ := hr.log
    -- a request enters the marks of its last frame, the call and nothing of the handshake
    refine ⟨_, by rw [World.requested_log, World.decoded_log, hlog, List.append_assoc,
      List.append_assoc], ?_⟩
    simp
  | answer w₁ t headers res t' block hr hl hb hw =>
    obtain ⟨u, h, hlog, -⟩ := hr.log
    refine ⟨_, by rw [World.answering_log, World.requested_log, World.decoded_log, hlog,
      List.append_assoc, List.append_assoc, List.append_assoc], ?_⟩
    simp
  | trailers => exact ⟨[], by simp, by simp⟩
  | reset e id hid hw =>
    refine ⟨_, (World.resetBy_log ..).trans (List.append_assoc ..), ?_⟩
    split <;> simp
  | windowSend h region n hr hn hs hw =>
    refine ⟨_, by rw [World.continued_log, World.increment_log, List.append_assoc], ?_⟩
    simp
  | frame h region => exact ⟨[_], rfl, by simp⟩
  | error e hw => exact ⟨_, World.fail_log .., by simp⟩
  | reply f hf hl hw hg => exact ⟨_, World.written_log .., by simp⟩
  | openStream => exact ⟨_, World.opening_log .., by simp⟩
  | decode t => exact ⟨_, World.decoded_log .., by simp⟩
  | setting id value c hc => exact ⟨_, World.stored_log .., by simp⟩
  | connWindow => exact ⟨_, World.connIncrement_log .., by simp⟩
  | window => exact ⟨_, World.increment_log .., by simp⟩
  | rst => exact ⟨_, World.rstBy_log .., by simp⟩
  | goawayClose => exact ⟨_, World.streamTo_log .., by simp⟩
  | goaway => exact ⟨_, World.goneAway_log .., by simp⟩

/-- A frame step is not a part of the handshake. -/
theorem FrameStep.aside {live : Bool} (h : FrameStep live w w') : Aside w w' := by
  refine ⟨h.aside_log, ?_⟩
  cases h with
  | quiet _ hq => exact .inr (.inr ⟨hq.state, by simpa using congrArg Option.isSome hq.read⟩)
  | error e hw => exact .inl (by simp)
  | goaway => exact .inl (by simp)
  | setting id value c hc =>
    obtain ⟨_, _, _, rfl⟩ := applySetting_eq hc
    exact .inr (.inr ⟨rfl, rfl⟩)
  | openStream => exact .inr (.inr ⟨rfl, rfl⟩)
  | request w₁ t hs res hr _ => exact .inr (.inr (by simp [hr.sock, hr.state]))
  | answer w₁ t hs res t' block hr _ _ _ => exact .inr (.inr (by simp [hr.sock, hr.state]))
  | windowSend => exact .inr (.inr (by simp [Context.advance]))
  | reset e id hid hw => exact .inr (.inr (by by_cases hid : id = w.ctx.stream.id <;> simp [hid]))
  | _ => exact .inr (.inr (by simp))

/-- A write callback is not a part of the handshake. -/
theorem Callback.aside {live : Bool} {cb : WriteCb} (h : Callback live cb w w') : Aside w w' := by
  cases h with
  | writeError => exact ⟨⟨[], by simp, by simp⟩, .inr (.inr ⟨rfl, rfl⟩)⟩
  | goaway => exact ⟨⟨_, World.closeImmediate_log _, by simp⟩, .inr (.inl (by simp))⟩
  | settings _ _ hq =>
    exact ⟨⟨[], by simp [hq.log], by simp⟩,
      .inr (.inr ⟨hq.state, by simpa using congrArg Option.isSome hq.read⟩)⟩
  | done hb => exact ⟨⟨_, World.streamTo_log .., by simp⟩, .inr (.inr ⟨rfl, rfl⟩)⟩
  | idle hb hs => exact ⟨⟨[], by simp, by simp⟩, .inr (.inr ⟨rfl, rfl⟩)⟩
  | send hs hw =>
    exact ⟨⟨_, World.continued_log _, by simp⟩, .inr (.inr (by simp [Context.advance]))⟩

/-! ## The handshake -/

/-- The bytes that were received when the connection is in a state of the handshake. -/
def ReceivedIn (bytes : Bytes) : ConnState → Prop
  | .waitingPreface => bytes = []
  | .waitingSettings => bytes = http2Preface
  | .ready => Handshaken bytes
  | .closing | .closed => True

/-- How far the handshake is. -/
structure Shaken (w : World) : Prop where
  received : ReceivedIn (received w.log) w.ctx.state
  reads : w.ctx.state ≠ .closing → w.ctx.state ≠ .closed → w.sock.read.isSome

/-- The handshake waits. -/
theorem Aside.shaken (h : Aside w w') (hs : Shaken w) : Shaken w' := by
  obtain ⟨new, hlog, hnew⟩ := h.log
  rcases h.state with hstate | hstate | ⟨hstate, hread⟩
  · exact ⟨by rw [hstate]; trivial, fun hne => absurd hstate hne⟩
  · exact ⟨by rw [hstate]; trivial, fun _ hne => absurd hstate hne⟩
  · refine ⟨?_, ?_⟩
    · rw [hlog, received_append, received_of_aside hnew, List.append_nil, hstate]
      exact hs.received
    · rw [hstate, hread]
      exact hs.reads

theorem Handshaken.append {bytes : Bytes} (h : Handshaken bytes) (more : Bytes) :
    Handshaken (bytes ++ more) := by
  obtain ⟨settings, hsettings, hpre⟩ := h
  exact ⟨settings, hsettings, hpre.trans (List.prefix_append _ _)⟩

/-- The frame that `waiting_for_settings` has handled. -/
theorem SettingsHandled.isSettings {e : EventRead} {h : FrameHeader} (hs : SettingsHandled w e h)
    (ha : Acceptable h (e.buf.bytes.drop 9)) : IsSettings (e.buf.bytes.take (9 + h.length)) := by
  have hheader : frameParseHeader (e.buf.bytes.take (9 + h.length)) = h :=
    (frameParseHeader_take (by omega)).trans hs.header.symm
  constructor <;> rw [hheader]
  · exact List.length_take_of_le hs.whole
  · exact hs.type
  · simp [FrameHeader.has, hs.flags]
  · exact hs.stream
  · exact hs.length
  · rw [Acceptable, List.drop_take, Nat.add_sub_cancel_left, settingsParameters_take hs.length]
    exact ha

/-- The condition says that the handled frame is acceptable. -/
theorem SettingsHandled.acceptable {e : EventRead} {h : FrameHeader} (hs : SettingsHandled w e h)
    (hc : Along AcceptableSettings w.log) : Acceptable h (e.buf.bytes.drop 9) := by
  obtain ⟨before, s, after, hlog, hread, -⟩ := hs.log
  have hframe : AcceptableSettings before (.frame h (e.buf.bytes.drop 9) s) :=
    hc before _ after hlog
  exact hframe (by simp [hread, hs.cb]) hs.type hs.flags hs.stream hs.length

/-- **Every transition follows the handshake.** -/
theorem Transition.shaken (h : Transition true w w') (hsane : Sane w) (hs : Shaken w)
    (hc : Along AcceptableSettings w'.log) : Shaken w' := by
  have hlog := h.log_prefix
  cases h with
  | frame _ h => exact h.aside.shaken hs
  | closeImmediate => exact ⟨by simp [ReceivedIn], by simp⟩
  | preface e hr hcb hp hw =>
    have hstate : w.ctx.state = .waitingPreface := by
      simpa [hcb, ReadCb.states] using hsane.reading e hr
    have hnone : received w.log = [] := by simpa [hstate, ReceivedIn] using hs.received
    exact ⟨by simp [ReceivedIn, hnone, hp], by simp [hr]⟩
  | ready e h hh hr =>
    have hacc := hh.acceptable (hc.of_prefix hlog)
    have hstate : w.ctx.state = .waitingSettings := by
      simpa [hh.cb, ReadCb.states] using hsane.reading e (hr rfl)
    have hpre : received w.log = http2Preface := by simpa [hstate, ReceivedIn] using hs.received
    exact ⟨⟨_, hh.isSettings hacc, by simp [hpre]⟩, by simp [hr rfl]⟩
  | consume bytes n h =>
    refine ⟨?_, by simpa using hs.reads⟩
    have hold := hs.received
    rw [World.consumed_log, received_append]
    cases hstate : w.ctx.state with
    | ready =>
      simp only [hstate, ReceivedIn] at hold
      simpa [hstate, ReceivedIn] using hold.append (bytes.take n)
    | closing | closed => simp [hstate, ReceivedIn]
    | waitingPreface | waitingSettings =>
      -- the callbacks of the handshake consume nothing without a transition of their own
      obtain ⟨e, he⟩ := Option.isSome_iff_exists.mp
        (hs.reads (by simp [hstate]) (by simp [hstate]))
      have hcb : e.cb ≠ .receiving := by
        have hreading := hsane.reading e he
        rw [hstate] at hreading
        rintro hcb
        simp [hcb, ReadCb.states] at hreading
      simpa [hstate, ReceivedIn, h e he hcb] using hold
  | complete op rest w₁ hq hcall =>
    have hcalled : Shaken (w.popped.calling op 0) :=
      ⟨by simpa using hs.received, by simpa using hs.reads⟩
    have hdone := hcall.aside.shaken hcalled
    exact ⟨by simpa using hdone.received, by simpa using hdone.reads⟩
  | failed op rest status hq hneg => exact ⟨by simp [ReceivedIn], by simp⟩
  | flush h => exact ⟨by simpa using hs.received, by simpa using hs.reads⟩

/-- Nothing is claimed of the other events. -/
theorem HandshakeOk.of_aside {before : List Entry} {e : Entry} (h : e.shakes = false) :
    HandshakeOk before e := by
  cases e with
  | ready => simp at h
  | eventRead cb s => exact fun hne => absurd (by simpa using h) hne
  | _ => trivial

/-- The events of a transition. -/
theorem Transition.handshakeOk {live : Bool} (h : Transition live w w') (ho : Orderly w)
    {new a b : List Entry} {e : Entry} (hlog : w'.log = w.log ++ new) (hnew : new = a ++ e :: b)
    (hc : Along AcceptableSettings w.log) : HandshakeOk (w.log ++ a) e := by
  have hmem : e ∈ new := by simp [hnew]
  -- an event that is not of the handshake is of no concern
  have haside : shook new = false → HandshakeOk (w.log ++ a) e := fun hshook =>
    .of_aside (by simpa using List.any_eq_false.mp hshook e hmem)
  cases h with
  | frame _ h =>
    obtain ⟨new', hlog', hshook⟩ := h.aside_log
    rw [hlog', List.append_cancel_left_eq] at hlog
    exact haside (hlog ▸ hshook)
  -- after the preface the SETTINGS frame is waited for, while the read event is there
  | preface e' hr hcb hp hw =>
    rw [World.greeted_log, List.append_cancel_left_eq] at hlog
    subst hlog
    simp only [List.mem_cons, List.not_mem_nil, or_false] at hmem
    rcases hmem with rfl | rfl | rfl
    · trivial
    · exact fun _ => by simp [hr]
    · trivial
  -- the connection becomes ready
  | ready e' h hh hr =>
    obtain ⟨before, s, after, hframe, -, hkept⟩ := hh.log
    have hread := (hkept (hh.acceptable hc)).1
    rw [World.readied_log, List.append_cancel_left_eq] at hlog
    have hquiet : errored new = false := by simp [← hlog]
    rw [hnew, errored_append, Bool.or_eq_false_iff] at hquiet
    subst hlog
    simp only [List.mem_cons, List.not_mem_nil, or_false] at hmem
    rcases hmem with rfl | rfl | rfl
    · -- the read event is still there, so that there was no error
      have herr : errored w.log = false := ho.not_errored (by simp [hread])
      simp [HandshakeOk, herr, hquiet.1]
    · exact fun _ => by simp [hread]
    · trivial
  | closeImmediate =>
    rw [World.closeImmediate_log, List.append_cancel_left_eq] at hlog
    exact haside (by simp [← hlog])
  | consume bytes n h =>
    rw [World.consumed_log, List.append_cancel_left_eq] at hlog
    rw [← hlog, List.mem_singleton] at hmem
    subst hmem
    trivial
  | complete op rest w₁ hq hcall =>
    obtain ⟨new', hlog', hshook⟩ := hcall.aside.log
    rw [World.returned_log, hlog', World.calling_log, World.popped_log, List.append_assoc,
      List.append_cancel_left_eq] at hlog
    exact haside (by simp [← hlog, hshook])
  | failed op rest status hq hneg =>
    rw [World.dropped_log, List.append_cancel_left_eq] at hlog
    exact haside (by simp [← hlog])
  | flush h =>
    simp at hlog
    simp [hlog] at hmem

end Steps

/-- The run rule for the handshake. -/
theorem runRule_handshake :
    RunRule AcceptableSettings HandshakeOk fun w => Orderly w ∧ Shaken w := by
  refine RunRule.of_orderly ?_ (fun _ _ h => ⟨h.received, h.reads⟩)
    (fun _ _ ht hsane _ hs hc => ht.shaken hsane hs hc) ?_
  · exact fun _ _ _ => ⟨rfl, fun _ _ => rfl⟩
  · intro live w w' ht hsane ho _ new hlog a e b hnew hc
    rw [List.append_assoc] at hc
    exact ht.handshakeOk ho hlog hnew (hc.of_prefix (List.prefix_append _ _))

section Runs

variable {server : Server} {actions : List EventLoop.Action} {w : World}

/-- **The handshake**, in every run in which the SETTINGS frame that follows the preface has
acceptable parameters: a connection becomes ready only without an error, no `event_read` of the
handshake misses the read event, and where the connection is ready, the preface and an acceptable
SETTINGS frame were consumed. -/
theorem handshake (hw : w ∈ (EventLoop.run server actions).worlds)
    (hc : Along AcceptableSettings w.log) :
    Along HandshakeOk w.log ∧ ((EventLoop.run server actions).aborted = none →
      w.ctx.state = .ready → Handshaken (received w.log)) := by
  refine ⟨runRule_handshake.trace hw hc, fun ha hready => ?_⟩
  obtain ⟨-, -, hshaken⟩ := runRule_handshake.invariant ha hw hc
  have hreceived := hshaken.received
  rw [hready] at hreceived
  exact hreceived

end Runs

/-- A handshake with two parameters. -/
theorem handshake_two_parameters :
    ∃ w ∈ (EventLoop.run .empty (Sample.handshake (Sample.frame 4 0 0
      [0, 2, 0, 0, 0, 0, 0, 4, 0, 0, 0, 9]))).worlds,
      w.ctx.state = .ready ∧ Handshaken (received w.log) := by
  have hrun : (EventLoop.run .empty (Sample.handshake (Sample.frame 4 0 0
      [0, 2, 0, 0, 0, 0, 0, 4, 0, 0, 0, 9]))).aborted = none ∧
      ∃ w ∈ (EventLoop.run .empty (Sample.handshake (Sample.frame 4 0 0
        [0, 2, 0, 0, 0, 0, 0, 4, 0, 0, 0, 9]))).worlds,
        w.ctx.state = .ready ∧ Along AcceptableSettings w.log := by decide +kernel
  obtain ⟨ha, w, hw, hready, hc⟩ := hrun
  exact ⟨w, hw, hready, (handshake hw hc).2 ha hready⟩

/-- The client sets ENABLE_PUSH to 2. -/
theorem not_handshake :
    ¬ ∀ (server : Server) (actions : List EventLoop.Action) (w : World),
      w ∈ (EventLoop.run server actions).worlds → Along HandshakeOk w.log := by
  intro h
  have hall := h .empty (Sample.handshake (Sample.setting 2 [0, 0, 0, 2]))
  revert hall
  decide +kernel

end Two
