import Two.Http2.Streams

/-!
# One request per stream

Whether a request is complete is kept in two flags of the connection. `http2_error` clears both, a
CONTINUATION frame may clear them whatever stream it names and whatever END_STREAM means on it. As
long as neither happens, `http_handle_request` is called once for a stream, after its headers and
its end were received.

## Main definitions

* `FlagsInOrder`: the condition on the events of a trace
* `RequestOnce`: what is claimed of the calls of `http_handle_request`

## Main results

* `request_once`: in every run that meets the condition, the claim holds
-/

namespace Two

open Program Relation Trace

/-- A HEADERS or CONTINUATION frame with END_HEADERS for a stream. -/
@[simp] def Entry.endsHeaders (id : ℕ) : Entry → Bool
  | .frame h _ _ => (h.type = .headers ∨ h.type = .continuation) ∧ h.streamId = id ∧
      h.has frameFlagsEndHeaders = true
  | _ => false

/-- A HEADERS or DATA frame with END_STREAM for a stream. -/
@[simp] def Entry.endsStream (id : ℕ) : Entry → Bool
  | .frame h _ _ => (h.type = .headers ∨ h.type = .data) ∧ h.streamId = id ∧
      h.has frameFlagsEndStream = true
  | _ => false

/-- No DATA frame is accepted for the open stream after an error, and a CONTINUATION frame that is
accepted names the current stream where it has END_HEADERS, and has END_STREAM only where the end of
the stream was already received. -/
def FlagsInOrder (before : List Entry) : Entry → Prop
  | .frame h _ s =>
      (h.type = .data → h.streamId = s.ctx.lastOpenedStreamId → s.ctx.stream.state = .opened →
        errored before = false) ∧
      (h.type = .continuation → s.ctx.flags.waitingEndHeaders = true →
        s.ctx.stream.state ≠ .closed →
        (h.has frameFlagsEndHeaders = true → h.streamId = s.ctx.stream.id) ∧
        (h.has frameFlagsEndStream = true → s.ctx.flags.waitingEndStream = false))
  | _ => True

instance (before : List Entry) : DecidablePred (FlagsInOrder before)
  | .frame h _ _ => inferInstanceAs (Decidable ((h.type = .data → _ → _ → _) ∧
      (h.type = .continuation → _ → _ → _ ∧ _)))
  | .send .. | .error .. | .eventRead .. | .streamState .. | .reset .. | .setting .. | .increment ..
  | .decode .. | .request .. | .completed .. | .ready | .consumed .. =>
    inferInstanceAs (Decidable True)

/-- `http_handle_request` is called for a stream that had no request, after the end of its headers
and the end of the stream were received. -/
def RequestOnce (before : List Entry) : Entry → Prop
  | .request id _ _ => contents id before = [] ∧ before.any (Entry.endsHeaders id) = true ∧
      before.any (Entry.endsStream id) = true
  | _ => True

instance (before : List Entry) : DecidablePred (RequestOnce before)
  | .request id _ _ => inferInstanceAs (Decidable (contents id before = [] ∧ _ ∧ _))
  | .frame .. | .send .. | .error .. | .eventRead .. | .streamState .. | .reset .. | .setting ..
  | .increment .. | .decode .. | .completed .. | .ready | .consumed .. =>
    inferInstanceAs (Decidable True)

/-- While there was no error, a flag that is not set was cleared by a frame of the current stream. -/
structure Received (w : World) : Prop where
  endHeaders : errored w.log = false → w.ctx.stream.id ≠ 0 →
    w.ctx.flags.waitingEndHeaders = false → w.log.any (Entry.endsHeaders w.ctx.stream.id) = true
  endStream : errored w.log = false → w.ctx.stream.id ≠ 0 →
    w.ctx.flags.waitingEndStream = false → w.log.any (Entry.endsStream w.ctx.stream.id) = true

section Steps

variable {w w' : World}

theorem any_of_prefix {p : Entry → Bool} {l l' : List Entry} (h : l.any p = true) (hl : l <+: l') :
    l'.any p = true := by
  obtain ⟨m, rfl⟩ := hl
  simp only [List.any_append, h, Bool.true_or]

/-- The flags that are cleared later were cleared before. -/
theorem Received.extend (hr : Received w) (hlog : w.log <+: w'.log)
    (hid : w'.ctx.stream.id = w.ctx.stream.id)
    (heh : w'.ctx.flags.waitingEndHeaders = false → errored w'.log = false →
      w.ctx.flags.waitingEndHeaders = false)
    (hes : w'.ctx.flags.waitingEndStream = false → errored w'.log = false →
      w.ctx.flags.waitingEndStream = false) : Received w' := by
  constructor
  · rw [hid]
    intro herr h0 hflag
    exact any_of_prefix (hr.endHeaders (errored_mono hlog herr) h0 (heh hflag herr)) hlog
  · rw [hid]
    intro herr h0 hflag
    exact any_of_prefix (hr.endStream (errored_mono hlog herr) h0 (hes hflag herr)) hlog

theorem Received.keeps (hr : Received w) (hlog : w.log <+: w'.log) (hk : Keeps w w') :
    Received w' :=
  hr.extend hlog hk.id (fun h _ => hk.endHeaders ▸ h) fun h _ => hk.endStream ▸ h

/-- The frame of a part of a header block. -/
theorem BlockReady.received {h : FrameHeader} {n : ℕ} (hb : BlockReady w h n) :
    ∃ region s, .frame h region s ∈ w.log := by
  rcases hb.frame with ⟨-, -, region, s, before, after, hlog, -⟩ | ⟨-, region, before, hlog⟩
  · exact ⟨region, s, by simp [hlog]⟩
  · exact ⟨region, w.toState, by simp [hlog]⟩

/-- A part of a header block clears the flags for the current stream. -/
theorem Received.block (hr : Received w) (ho : Orderly w) (hc : Along FlagsInOrder w.log)
    {h : FrameHeader} {data : Bytes} {n : ℕ} (hb : BlockReady w h n) :
    Received (w.block h data n) := by
  have herr := (ho.waiting hb.waiting).1
  have hlog : w.log <+: (w.block h data n).log := by simp [World.block_log]
  obtain ⟨region, s, hmem⟩ := hb.received
  -- a continuation that ends the block names the stream that waits for it
  have hname : h.has frameFlagsEndHeaders = true → h.streamId = w.ctx.stream.id := by
    intro hflag
    rcases hb.frame with ⟨-, hid, -⟩ | ⟨ht, region, before, hlog⟩
    · rw [hid, ho.last]
    · exact ((hc before _ [] hlog).2 ht hb.waiting hb.state).1 hflag
  constructor
  · intro _ h0 hflag
    refine any_of_prefix ?_ hlog
    rw [World.block_ctx, Context.block_waitingEndHeaders, hb.waiting] at hflag
    have hflag : h.has frameFlagsEndHeaders = true := by simpa using hflag
    rw [List.any_eq_true]
    refine ⟨_, hmem, ?_⟩
    have htype : h.type = .headers ∨ h.type = .continuation :=
      hb.frame.imp (fun h => h.1) fun h => h.1
    simpa [hflag, htype] using hname hflag
  · intro _ h0 hflag
    refine any_of_prefix ?_ hlog
    rw [World.block_ctx, Context.block_waitingEndStream] at hflag
    by_cases hes : h.has frameFlagsEndStream = true
    · rcases hb.frame with ⟨ht, hid, -⟩ | ⟨ht, region', before, hlog'⟩
      · rw [List.any_eq_true]
        refine ⟨_, hmem, ?_⟩
        simp [hes, ht, hid, ho.last]
      · have hwes := ((hc before _ [] hlog').2 ht hb.waiting hb.state).2 hes
        simpa using hr.endStream herr (by simpa using h0) hwes
    · simpa using hr.endStream herr (by simpa using h0) (by simpa [hes] using hflag)

/-- A DATA frame clears the flag for the current stream. -/
theorem Received.marked (hr : Received w) (ho : Orderly w) {h : FrameHeader} (hd : DataReady w h) :
    Received (w.marked h) := by
  have hm := silent_markEntry w h
  have hlog : w.log <+: (w.marked h).log := by simp [World.marked_log]
  constructor
  · intro herr h0 hflag
    refine any_of_prefix ?_ hlog
    simpa using hr.endHeaders (errored_mono hlog herr) (by simpa using h0)
      (by simpa using hflag)
  · intro herr h0 hflag
    refine any_of_prefix ?_ hlog
    rw [World.marked_ctx, Context.marked_waitingEndStream] at hflag
    by_cases hes : h.has frameFlagsEndStream = true
    · obtain ⟨region, before, hlog'⟩ := hd.frame
      rw [hlog', List.any_append]
      simp [hes, hd.type, hd.stream, ho.last]
    · simpa using hr.endStream (errored_mono hlog herr) (by simpa using h0)
        (by simpa [hes] using hflag)

theorem RequestReady.received {w₁ : World} (h : RequestReady w w₁) (hr : Received w)
    (ho : Orderly w) (hc : Along FlagsInOrder w.log) : Received w₁ := by
  cases h with
  | block h data n hb hcomp => exact hr.block ho hc hb
  | data h hd hcomp => exact hr.marked ho hd

theorem FrameStep.received (h : FrameStep true w w') (ho : Orderly w) (hr : Received w)
    (hc : Along FlagsInOrder w.log) : Received w' := by
  have hlog := h.log_prefix
  cases h with
  | quiet _ hq => exact hr.keeps hlog hq.keeps
  | error e hw =>
    refine hr.extend hlog (by simp) (fun _ herr => ?_) fun _ herr => ?_
    · simp at herr
    · simp at herr
  | reset e id hid hw =>
    refine hr.keeps hlog ?_
    -- a reset of another stream changes no flag, one of this stream closes it
    by_cases hcur : id = w.ctx.stream.id
    · constructor <;> simp [hcur]
    · constructor <;> simp [hcur]
  | openStream h region hh ht hst hid ho' hs =>
    constructor
    · simp [Context.openStream]
    · simp [Context.openStream]
  | trailers h region hh ht hst hid hs =>
    exact hr.extend hlog rfl (fun h _ => by simp at h) fun h _ => h
  | block h data n hb => exact hr.block ho hc hb
  | data h hd => exact hr.marked ho hd
  | request w₁ t headers res hready hl =>
    refine (hready.received hr ho hc).keeps (by simp) ?_
    constructor <;> simp
  | answer w₁ t headers res t' block hready hl hb hw =>
    refine (hready.received hr ho hc).keeps (by simp) ?_
    constructor <;> simp
  | setting id value c hset =>
    obtain ⟨_, _, _, rfl⟩ := applySetting_eq hset
    refine hr.keeps hlog ?_
    constructor <;> simp
  | windowSend h region n hready hn hs hw =>
    refine hr.keeps hlog ?_
    constructor <;> simp [Context.advance]
  | _ =>
    refine hr.keeps hlog ?_
    constructor <;> simp

theorem Transition.received (h : Transition true w w') (ho : Orderly w) (hr : Received w)
    (hc : Along FlagsInOrder w.log) : Received w' := by
  have hlog := h.log_prefix
  cases h with
  | frame _ h => exact h.received ho hr hc
  | preface e hread hcb hp hw =>
    exact hr.extend hlog (by simp) (fun h _ => by simpa using h) fun h _ => by simpa using h
  | ready e h hs hread =>
    exact hr.extend hlog (by simp) (fun h _ => by simpa using h) fun h _ => by simpa using h
  | complete op rest w₁ hq hcall =>
    generalize op.cb = cb at hcall
    have hcalling : Received (w.popped.calling op 0) :=
      hr.keeps (by simp) (by constructor <;> simp)
    have hreturn : ∀ {u : World}, Received u → Received (u.returned op) :=
      fun hu => hu.keeps (by simp) (by constructor <;> simp)
    have hlog' := hcall.log_prefix
    cases hcall with
    | settings _ _ hq' => exact hreturn (hcalling.keeps hlog' hq'.keeps)
    | send _ hs hw => exact hreturn (hcalling.keeps hlog' (by constructor <;> simp [Context.advance]))
    | _ => exact hreturn (hcalling.keeps hlog' (by constructor <;> simp))
  | _ => exact hr.keeps hlog (by constructor <;> simp)

/-- A frame completes the request of a stream that had none. -/
theorem RequestReady.once {w₁ : World} (h : RequestReady w w₁) (ho : Orderly w)
    (hc : Along FlagsInOrder w.log) : errored w.log = false ∧ w.ctx.stream.id ≠ 0 ∧
      contents w₁.ctx.stream.id w.log = [] ∧ w₁.ctx.stream.id = w.ctx.stream.id := by
  cases h with
  | block h data n hb hcomp =>
    obtain ⟨herr, hcont⟩ := ho.waiting hb.waiting
    exact ⟨herr, fun h0 => hb.state (ho.idle h0), by simpa using hcont, by simp⟩
  | data h hd hcomp =>
    obtain ⟨region, before, hlog⟩ := hd.frame
    have herr := (hc before _ [] hlog).1 hd.type hd.stream hd.state
    replace herr : errored w.log = false := by simp [hlog, herr]
    refine ⟨herr, fun h0 => ?_, ?_, by simp⟩
    · have := ho.idle h0
      simp [hd.state] at this
    · by_contra hne
      exact (ho.once herr (by simpa using hne)).1 hd.state

end Steps

/-- The run rule for the requests. -/
theorem runRule_received : RunRule FlagsInOrder RequestOnce fun w => Orderly w ∧ Received w := by
  refine .of_orderly ?_ ?_ ?_ ?_
  · intro pools r s
    exact ⟨by simp [Context.init], by simp [Context.init]⟩
  · intro w pools hr
    exact ⟨hr.endHeaders, hr.endStream⟩
  · intro w w' ht _ ho hr hc
    exact ht.received ho hr (hc.of_prefix ht.log_prefix)
  · intro live w w' ht hsane ho hr new hlog a e b hnew hc
    have hcw : Along FlagsInOrder w.log := hc.of_prefix (by simp)
    unfold RequestOnce
    split
    · rename_i id headers content
      obtain ⟨w₁, t, hready, rfl, hlog₁⟩ := ht.request_entry hlog hnew
      obtain ⟨herr, h0, hcont, hid⟩ := hready.once ho hcw
      -- what is recorded between the frame and the request are only its marks
      obtain ⟨u, h, hmark, -⟩ := hready.log
      have hm := silent_markEntry u h
      have hr₁ := hready.received hr ho hcw
      have herr₁ : errored w₁.log = false := by simp [hmark, hm.errored, herr]
      have hcomp := hready.complete
      rw [← hlog₁]
      refine ⟨by simp [hmark, hm.contents, hcont], ?_, ?_⟩
      · exact any_of_prefix (hr₁.endHeaders herr₁ (hid ▸ h0) hcomp.1) (by simp)
      · exact any_of_prefix (hr₁.endStream herr₁ (hid ▸ h0) hcomp.2) (by simp)
    · trivial

section Runs

variable {server : Server} {actions : List EventLoop.Action} {w : World}

/-- **One request per stream.** In every run in which no DATA frame is accepted for the open stream
after an error, and CONTINUATION frames carry the flags of their stream only,
`http_handle_request` is called at most once for a stream, after END_HEADERS and END_STREAM were
received for it. -/
theorem request_once (hw : w ∈ (EventLoop.run server actions).worlds)
    (hc : Along FlagsInOrder w.log) : Along RequestOnce w.log :=
  runRule_received.trace hw hc

end Runs

/-- The header block of the second request ends with a CONTINUATION frame, and the stream with a DATA
frame. -/
theorem request_once_conversation :
    ∃ w ∈ (EventLoop.run (Sample.server 4) Sample.conversation).worlds,
      Along RequestOnce w.log ∧ contents 3 w.log = [[0, 0, 0, 0]] := by
  have hrun : ∃ w ∈ (EventLoop.run (Sample.server 4) Sample.conversation).worlds,
      Along FlagsInOrder w.log ∧ contents 3 w.log = [[0, 0, 0, 0]] := by decide +kernel
  obtain ⟨w, hw, hc, hcontents⟩ := hrun
  exact ⟨w, hw, request_once hw hc, hcontents⟩

/-- A PUSH_PROMISE frame makes an error that clears both flags, but the DATA frames behind it in the
buffer are handled: each of them completes a request. -/
theorem not_request_once : ¬ ∀ (server : Server) (actions : List EventLoop.Action) (w : World),
    w ∈ (EventLoop.run server actions).worlds → Along RequestOnce w.log := by
  intro h
  have hall := h (Sample.server 0) (Sample.handshake (Sample.frame 4 0 0 []) ++
    Sample.receive (Sample.headers 4 1 Sample.getBlock ++ Sample.frame 5 0 1 [] ++
      Sample.data 0 1))
  revert hall
  decide +kernel

end Two
