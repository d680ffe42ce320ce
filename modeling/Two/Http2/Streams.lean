import Two.Event.Runs

/-!
# The streams of a connection

What the trace of a connection says about its streams, and the order in which every run opens
streams, receives their requests and answers them.

## Main definitions

* `errored`, `answered`, `contents`, `sentData`, `wasReset`: what the trace says about errors and
  about a stream
* `Orderly`: the relation between the trace and the context that every run keeps

## Main results

* `Transition.orderly`: every transition keeps it
* `orderly_run`: it holds of every client in every run
-/

namespace Two

open Program Relation Trace

/-! ## What the trace says -/

namespace Entry

/-- `http2_error` was called. -/
@[simp] def isError : Entry → Bool
  | error _ _ => true
  | _ => false

/-- The response headers of a stream were sent. -/
@[simp] def isAnswer (id : ℕ) : Entry → Bool
  | send (.headers i _ _) _ => i = id
  | _ => false

/-- The content produced for a stream. -/
@[simp] def contentOf (id : ℕ) : Entry → Option Bytes
  | request i _ content => if i = id then some content else none
  | _ => none

/-- The data sent for a stream. -/
@[simp] def dataOf (id : ℕ) : Entry → Bytes
  | send (.data i _ data) _ => if i = id then data else []
  | _ => []

/-- A stream was reset. -/
@[simp] def isReset (id : ℕ) : Entry → Bool
  | reset i => i = id
  | _ => false

/-- The entry says nothing about errors, requests, answers and resets. -/
def silent : Entry → Bool
  | error _ _ => false
  | request _ _ _ => false
  | reset _ => false
  | send f _ => f.stream? = none
  | _ => true

end Entry

section Observations

variable (id : ℕ) (log new : List Entry)

/-- `http2_error` was called. -/
def errored : Bool := log.any Entry.isError

/-- The response headers of a stream were sent. -/
def answered : Bool := log.any (Entry.isAnswer id)

/-- The contents that `http_handle_request` produced for a stream. -/
def contents : List Bytes := log.filterMap (Entry.contentOf id)

/-- The payloads of the DATA frames sent for a stream. -/
def sentData : Bytes := log.flatMap (Entry.dataOf id)

/-- A stream was closed by a received RST_STREAM or by `http2_stream_error`. -/
def wasReset : Bool := log.any (Entry.isReset id)

variable (e : Entry)

@[simp] theorem errored_nil : errored [] = false := rfl

@[simp] theorem errored_cons : errored (e :: log) = (e.isError || errored log) := rfl

@[simp] theorem answered_nil : answered id [] = false := rfl

@[simp] theorem answered_cons : answered id (e :: log) = (e.isAnswer id || answered id log) := rfl

@[simp] theorem contents_nil : contents id [] = [] := rfl

@[simp] theorem contents_cons : contents id (e :: log) =
    (e.contentOf id).toList ++ contents id log := by
  cases h : e.contentOf id <;> simp only [contents, List.filterMap_cons, h] <;> rfl

@[simp] theorem sentData_nil : sentData id [] = [] := rfl

@[simp] theorem sentData_cons : sentData id (e :: log) = e.dataOf id ++ sentData id log := rfl

@[simp] theorem wasReset_nil : wasReset id [] = false := rfl

@[simp] theorem wasReset_cons : wasReset id (e :: log) = (e.isReset id || wasReset id log) := rfl

@[simp] theorem errored_append : errored (log ++ new) = (errored log || errored new) := by
  simp [errored]

omit id e log new in
theorem errored_mono {l l' : List Entry} (hl : l <+: l') (h : errored l' = false) :
    errored l = false := by
  obtain ⟨m, rfl⟩ := hl
  rw [errored_append, Bool.or_eq_false_iff] at h
  exact h.1

@[simp] theorem answered_append : answered id (log ++ new) = (answered id log || answered id new) := by
  simp [answered]

@[simp] theorem contents_append : contents id (log ++ new) = contents id log ++ contents id new := by
  simp [contents]

@[simp] theorem sentData_append : sentData id (log ++ new) = sentData id log ++ sentData id new := by
  simp [sentData]

@[simp] theorem wasReset_append : wasReset id (log ++ new) = (wasReset id log || wasReset id new) := by
  simp [wasReset]

/-- A stream the trace says nothing about. -/
structure Fresh : Prop where
  contents : contents id log = []
  answered : answered id log = false
  sentData : sentData id log = []
  wasReset : wasReset id log = false

end Observations

/-- Two traces say the same about errors, requests, answers and resets. -/
structure Silent (new : List Entry) : Prop where
  errored : errored new = false
  contents : ∀ id, contents id new = []
  answered : ∀ id, answered id new = false
  sentData : ∀ id, sentData id new = []
  wasReset : ∀ id, wasReset id new = false

theorem silent_of_all {new : List Entry} (h : ∀ e ∈ new, e.silent = true) : Silent new := by
  have hone : ∀ e ∈ new, e.isError = false ∧ (∀ id, e.isAnswer id = false) ∧
      (∀ id, e.contentOf id = none) ∧ (∀ id, e.dataOf id = []) ∧ ∀ id, e.isReset id = false := by
    intro e he
    have hs := h e he
    cases e with
    | send f s =>
      cases f <;> simp_all [Entry.silent, Frame.stream?]
    | error | request | reset => simp [Entry.silent] at hs
    | _ => simp
  refine ⟨?_, fun id => ?_, fun id => ?_, fun id => ?_, fun id => ?_⟩
  · simpa [errored] using fun e he => (hone e he).1
  · simpa [contents] using fun e he => (hone e he).2.2.1 id
  · simpa [answered] using fun e he => (hone e he).2.1 id
  · simpa [sentData] using fun e he => (hone e he).2.2.2.1 id
  · simpa [wasReset] using fun e he => (hone e he).2.2.2.2 id

theorem silent_nil : Silent [] := silent_of_all (by simp)

theorem silent_markEntry (w : World) (h : FrameHeader) : Silent (w.markEntry h) := by
  refine silent_of_all ?_
  unfold World.markEntry
  split <;> simp [Entry.silent]

/-! ## The order of the streams -/

/-- The streams of a connection are opened in increasing order, one after the other; each has at
most one request unless there was an error, after which the connection does not read on. -/
structure Orderly (w : World) : Prop where
  last : w.ctx.stream.id = w.ctx.lastOpenedStreamId
  fresh : ∀ id, w.ctx.lastOpenedStreamId < id → Fresh id w.log
  states : w.ctx.stream.state ≠ .halfClosedLocal
  idle : w.ctx.stream.id = 0 → w.ctx.stream.state = .closed
  failed : errored w.log → (w.ctx.state = .closing ∨ w.ctx.state = .closed) ∧
    w.ctx.flags.waitingEndHeaders = false ∧ w.sock.read = none
  opened : errored w.log = false → w.ctx.stream.state = .opened →
    w.ctx.flags.waitingEndStream = true
  once : errored w.log = false → contents w.ctx.stream.id w.log ≠ [] →
    w.ctx.stream.state ≠ .opened ∧ w.ctx.flags.waitingEndHeaders = false
  answers : ∀ id, answered id w.log → contents id w.log ≠ []

/-- The part of the context that `Orderly` is about is kept, except that the stream may close and
that the state of the connection may change where there was no error. -/
structure Keeps (w w' : World) : Prop where
  id : w'.ctx.stream.id = w.ctx.stream.id
  last : w'.ctx.lastOpenedStreamId = w.ctx.lastOpenedStreamId
  stream : w'.ctx.stream.state = w.ctx.stream.state ∨ w'.ctx.stream.state = .closed
  state : errored w.log →
    w'.ctx.state = w.ctx.state ∨ w'.ctx.state = .closing ∨ w'.ctx.state = .closed
  endHeaders : w'.ctx.flags.waitingEndHeaders = w.ctx.flags.waitingEndHeaders
  endStream : w'.ctx.flags.waitingEndStream = w.ctx.flags.waitingEndStream
  read : w.sock.read = none → w'.sock.read = none

section Step

variable {w w' : World}

theorem Fresh.append {id : ℕ} {log new : List Entry} (h : Fresh id log) (hn : Fresh id new) :
    Fresh id (log ++ new) :=
  ⟨by simp [h.contents, hn.contents], by simp [h.answered, hn.answered],
    by simp [h.sentData, hn.sentData], by simp [h.wasReset, hn.wasReset]⟩

theorem Silent.fresh {new : List Entry} (h : Silent new) (id : ℕ) : Fresh id new :=
  ⟨h.contents id, h.answered id, h.sentData id, h.wasReset id⟩

/-- No request and no error is recorded, and nothing about streams that are not open yet. -/
theorem Orderly.keeps (ho : Orderly w) {new : List Entry} (hlog : w'.log = w.log ++ new)
    (herr : errored new = false) (hcontents : ∀ id, contents id new = [])
    (hfresh : ∀ id, w.ctx.lastOpenedStreamId < id → Fresh id new)
    (hans : ∀ id, answered id new → contents id w.log ≠ []) (hk : Keeps w w') : Orderly w' := by
  have herr' : errored w'.log = errored w.log := by simp [hlog, herr]
  have hcont' : ∀ id, contents id w'.log = contents id w.log := by simp [hlog, hcontents]
  constructor
  · rw [hk.id, hk.last, ho.last]
  · intro id hid
    rw [hlog]
    rw [hk.last] at hid
    exact (ho.fresh id hid).append (hfresh id hid)
  -- the stream is left as it was, or closed
  · rcases hk.stream with h | h <;> rw [h]
    · exact ho.states
    · simp
  · rcases hk.stream with h | h <;> rw [h, hk.id]
    · exact ho.idle
    · exact fun _ => rfl
  · rw [herr', hk.endHeaders]
    -- the connection stays closed after an error
    intro h
    obtain ⟨hstate, heh, hread⟩ := ho.failed h
    refine ⟨?_, heh, hk.read hread⟩
    rcases hk.state h with h | h
    · rwa [h]
    · exact h
  · rw [herr', hk.endStream]
    rcases hk.stream with h | h <;> rw [h]
    · exact ho.opened
    · simp
  · rw [herr', hk.id, hcont', hk.endHeaders]
    intro h1 h2
    refine ⟨?_, (ho.once h1 h2).2⟩
    rcases hk.stream with h | h <;> rw [h]
    · exact (ho.once h1 h2).1
    · simp
  -- an answer that is recorded now belongs to a request that was there
  · intro id
    rw [hcont', hlog, answered_append, Bool.or_eq_true]
    rintro (h | h)
    · exact ho.answers id h
    · exact hans id h

theorem Orderly.silent (ho : Orderly w) {new : List Entry} (hlog : w'.log = w.log ++ new)
    (hs : Silent new) (hk : Keeps w w') : Orderly w' :=
  ho.keeps hlog hs.errored hs.contents (fun id _ => hs.fresh id)
    (fun id h => by simp [hs.answered id] at h) hk

theorem Quiet.keeps (h : Quiet w w') : Keeps w w' := by
  refine ⟨h.id, h.last, .inl h.streamState, fun _ => .inl h.state, ?_, ?_, fun hr => ?_⟩
  · have := congrArg Flags.waitingEndHeaders h.flags
    exact this
  · have := congrArg Flags.waitingEndStream h.flags
    exact this
  · have := congrArg Option.isSome h.read
    rw [Option.isSome_map, Option.isSome_map, hr] at this
    simpa using this

theorem Orderly.quiet (ho : Orderly w) (h : Quiet w w') : Orderly w' :=
  ho.silent (by simpa using h.log) silent_nil h.keeps

/-- The END_STREAM flag of a frame, on a stream that is not closed. -/
theorem Orderly.marked (ho : Orderly w) (h : FrameHeader) (hs : w.ctx.stream.state ≠ .closed) :
    Orderly (w.marked h) := by
  have hm := silent_markEntry w h
  have herr : errored (w.marked h).log = errored w.log := by simp [World.marked_log, hm.errored]
  have hcont : ∀ id, contents id (w.marked h).log = contents id w.log := by
    simp [World.marked_log, hm.contents]
  -- the marks change two flags and the state, and their entries are silent
  constructor
  · simpa using ho.last
  · intro id hid
    rw [World.marked_log]
    exact (ho.fresh id (by simpa using hid)).append (hm.fresh id)
  · rw [World.marked_ctx, Context.marked_streamState]
    split
    · simp
    · exact ho.states
  · rw [World.marked_ctx, Context.marked_streamState, Context.marked_id]
    exact fun h0 => absurd (ho.idle h0) hs
  · rw [herr]
    simpa using ho.failed
  · rw [herr, World.marked_ctx, Context.marked_streamState, Context.marked_waitingEndStream]
    split
    · simp
    · exact ho.opened
  · rw [herr, hcont, World.marked_ctx, Context.marked_streamState, Context.marked_id,
      Context.marked_waitingEndHeaders]
    intro h1 h2
    refine ⟨?_, (ho.once h1 h2).2⟩
    split
    · simp
    · exact (ho.once h1 h2).1
  · intro id
    rw [hcont, World.marked_log, answered_append, hm.answered, Bool.or_false]
    exact ho.answers id

/-- A connection that is read from had no error. -/
theorem Orderly.not_errored (ho : Orderly w) (hr : w.sock.read ≠ none) : errored w.log = false := by
  by_contra h
  exact hr (ho.failed (by simpa using h)).2.2

/-- A connection that is ready had no error. -/
theorem Orderly.not_errored_of_ready (ho : Orderly w) (hr : w.ctx.state = .ready) :
    errored w.log = false := by
  by_contra h
  rcases (ho.failed (by simpa using h)).1 with hc | hc <;> simp [hr] at hc

/-- A header block is awaited only where there was no error and no request. -/
theorem Orderly.waiting (ho : Orderly w) (hw : w.ctx.flags.waitingEndHeaders = true) :
    errored w.log = false ∧ contents w.ctx.stream.id w.log = [] := by
  have herr : errored w.log = false := by
    by_contra h
    have := (ho.failed (by simpa using h)).2.1
    simp [hw] at this
  refine ⟨herr, ?_⟩
  by_contra h
  have := (ho.once herr h).2
  simp [hw] at this

theorem Orderly.block (ho : Orderly w) {h : FrameHeader} {data : Bytes} {n : ℕ}
    (hb : BlockReady w h n) : Orderly (w.block h data n) := by
  have hm := silent_markEntry (w.copied data n) h
  obtain ⟨herr, hcont⟩ := ho.waiting hb.waiting
  have herr' : errored (w.block h data n).log = false := by simp [World.block_log, hm.errored, herr]
  have hcont' : ∀ id, contents id (w.block h data n).log = contents id w.log := by
    simp [World.block_log, hm.contents]
  -- a copy into the buffer and its marks leave the identifiers alone
  constructor
  · simpa using ho.last
  · intro id hid
    rw [World.block_log]
    exact (ho.fresh id (by simpa using hid)).append (hm.fresh id)
  · rw [World.block_ctx, Context.block_streamState]
    split
    · simp
    · exact ho.states
  · rw [World.block_ctx, Context.block_streamState, Context.block_id]
    exact fun h0 => absurd (ho.idle h0) hb.state
  · simp [herr']
  · rw [World.block_ctx, Context.block_streamState, Context.block_waitingEndStream]
    split
    · simp
    · exact fun _ => ho.opened herr
  · simp [hcont', hcont]
  · intro id
    rw [hcont', World.block_log, answered_append, hm.answered, Bool.or_false]
    exact ho.answers id

/-- A request on the current stream. -/
theorem Orderly.request (ho : Orderly w) (hc : Complete w) (t : Hpack.DynamicTable)
    (headers : HeaderList) (res : HttpResponse) :
    Orderly ((w.decoded t).requested headers res) := by
  have herr : errored ((w.decoded t).requested headers res).log = errored w.log := by
    simp
  constructor
  · exact ho.last
  · intro id hid
    -- an identifier that is still fresh is not the one that asks
    have hne : w.ctx.stream.id ≠ id := by
      rw [ho.last]
      exact Nat.ne_of_lt hid
    have hf := ho.fresh id hid
    constructor
    · simpa [hne] using hf.contents
    · simpa using hf.answered
    · simpa using hf.sentData
    · simpa using hf.wasReset
  · exact ho.states
  · exact ho.idle
  · rw [herr]
    exact ho.failed
  · rw [herr]
    exact ho.opened
  · rw [herr]
    intro h1 _
    refine ⟨fun h2 => ?_, hc.1⟩
    have := ho.opened h1 h2
    rw [hc.2] at this
    simp at this
  · intro id h
    have := ho.answers id (by simpa using h)
    rw [World.requested_log, contents_append, World.decoded_log, contents_append]
    simp [this]

/-- The response headers of a stream that has a request. -/
theorem Orderly.answer (ho : Orderly w) (t : Hpack.DynamicTable) (block : Bytes)
    (hc : contents w.ctx.stream.id w.log ≠ []) : Orderly (w.answering t block) := by
  refine ho.keeps (World.answering_log _ _ _) (by simp) (by simp) ?_ ?_ ?_
  · intro i hi
    have hne : w.ctx.stream.id ≠ i := by
      have := ho.last
      omega
    constructor <;> simp [hne]
  · intro i hi
    obtain rfl : w.ctx.stream.id = i := by simpa using hi
    exact hc
  · constructor <;> simp

theorem RequestReady.complete {w₁ : World} (h : RequestReady w w₁) : Complete w₁ := by
  cases h with
  | block h data n hb hc => exact hc
  | data h hd hc => exact hc

theorem Orderly.ready {w₁ : World} (ho : Orderly w) (h : RequestReady w w₁) : Orderly w₁ := by
  cases h with
  | block h data n hb hc => exact ho.block hb
  | data h hd hc => exact ho.marked h (by simp [hd.state])

theorem FrameStep.orderly (h : FrameStep true w w') (ho : Orderly w) : Orderly w' := by
  cases h with
  -- the steps that record nothing about streams keep everything that `Orderly` speaks of
  | frame h region =>
    refine ho.silent (World.add_log _ _) (silent_of_all (by simp [Entry.silent])) ?_
    exact ⟨rfl, rfl, .inl rfl, fun _ => .inl rfl, rfl, rfl, id⟩
  | error e hw =>
    -- after an error no request is waited for, and nothing more is promised of the stream
    have hcont : ∀ id, contents id (w.fail e).log = contents id w.log := by simp
    constructor
    · simpa using ho.last
    · intro id hid
      rw [World.fail_log]
      refine (ho.fresh id (by simpa using hid)).append ?_
      exact ⟨by simp, by simp, by simp, by simp⟩
    · simpa using ho.states
    · simpa using ho.idle
    · simp [Flags.keepGoawaySent, Flags.none]
    · simp
    · simp
    · intro id
      rw [hcont]
      simpa using ho.answers id
  | quiet _ hq => exact ho.quiet hq
  | reply f hf hs hw =>
    refine ho.silent (World.written_log _ _ _) (silent_of_all (by simp [Entry.silent, hf])) ?_
    constructor <;> simp
  | reset e id hid hw =>
    have hlog := w.resetBy_log e id
    rw [List.append_assoc] at hlog
    refine ho.keeps hlog ?_ ?_ ?_ ?_ ?_
    · split <;> simp
    · intro i
      split <;> simp
    · intro i hi
      -- a reset names a stream that was opened, so the later ones stay fresh
      have hne : id ≠ i := by
        have := ho.last
        omega
      split <;> constructor <;> simp [hne]
    · intro i hi
      split at hi <;> simp at hi
    · by_cases hcur : id = w.ctx.stream.id
      · constructor <;> simp [hcur]
      · constructor <;> simp [hcur]
  | openStream h region hh ht hc hid ho' hs =>
    -- only a connection that is ready opens a stream, and then there was no error
    have herr := ho.not_errored_of_ready hc
    have hf := ho.fresh _ hid
    constructor
    · rfl
    · intro i hi
      rw [World.opening_log]
      have hi : h.streamId < i := hi
      refine (ho.fresh i (by omega)).append ?_
      exact ⟨by simp, by simp, by simp, by simp⟩
    · simp
    · intro h0
      have h0 : h.streamId = 0 := h0
      omega
    · simp [herr]
    · exact fun _ _ => rfl
    -- the new stream was fresh: it has no contents yet
    · intro _ hcont
      refine absurd ?_ hcont
      have : contents h.streamId w.log = [] := hf.contents
      simpa [Context.openStream] using this
    · intro i
      simpa using ho.answers i
  | trailers h region hh ht hc hid hs =>
    have herr := ho.not_errored_of_ready hc
    -- trailers come on an open stream, so its request is not complete
    have hopen : w.ctx.stream.state = .opened := by
      have := ho.states
      cases hst : w.ctx.stream.state <;> simp_all
    have hcont : contents w.ctx.stream.id w.log = [] := by
      by_contra hne
      exact (ho.once herr hne).1 hopen
    constructor
    · exact ho.last
    · exact ho.fresh
    · exact ho.states
    · exact ho.idle
    · simp [herr]
    · exact ho.opened
    · simp [hcont]
    · exact ho.answers
  | block h data n hb => exact ho.block hb
  | data h hd => exact ho.marked h (by simp [hd.state])
  -- the request and its answer belong to the current stream
  | request w₁ t headers res hr hl => exact (ho.ready hr).request hr.complete t headers res
  | answer w₁ t headers res t' block hr hl hb hw =>
    exact ((ho.ready hr).request hr.complete t headers res).answer t' block (by simp)
  | decode t =>
    refine ho.silent (World.decoded_log _ _) (silent_of_all (by simp [Entry.silent])) ?_
    constructor <;> simp
  | setting id value c hc =>
    obtain ⟨_, _, _, rfl⟩ := applySetting_eq hc
    refine ho.silent (World.stored_log _ _ _ _) (silent_of_all (by simp [Entry.silent])) ?_
    constructor <;> simp
  | connWindow h region hh ht hid ha =>
    refine ho.silent (World.connIncrement_log _ _) (silent_of_all (by simp [Entry.silent])) ?_
    constructor <;> simp
  | window h region n hr hn hs =>
    refine ho.silent (World.increment_log _ _ _) (silent_of_all (by simp [Entry.silent])) ?_
    constructor <;> simp
  | windowSend h region n hr hn hs hw =>
    have hlog := (w.increment h.streamId n).continued_log
    rw [World.increment_log, List.append_assoc] at hlog
    refine ho.keeps hlog (by simp) (by simp) ?_ ?_ ?_
    · intro i hi
      -- the data is of the current stream
      have hne : w.ctx.stream.id ≠ i := by
        have := ho.last
        omega
      constructor <;> simp [World.dataFrame, hne]
    · simp [World.dataFrame]
    · constructor <;> simp [Context.advance]
  | rst h region hh ht hid =>
    refine ho.keeps (World.rstBy_log _ _) ?_ ?_ ?_ ?_ ?_
    · simp
    · simp
    · intro i hi
      have hne : h.streamId ≠ i := by omega
      constructor <;> simp [hne]
    · simp
    · constructor <;> simp
  | goawayClose =>
    refine ho.silent (World.streamTo_log _ _) (silent_of_all (by simp [Entry.silent])) ?_
    constructor <;> simp
  | goaway hr hw =>
    refine ho.silent (World.goneAway_log _) (silent_of_all (by simp [Entry.silent, Frame.stream?])) ?_
    constructor <;> simp

/-- What a write callback records, and what it leaves of the streams. -/
theorem Callback.orderly {cb : WriteCb} {op : WriteOp} {status : ℤ}
    (h : Callback true cb (w.popped.calling op status) w') (ho : Orderly w) : Orderly w' := by
  have hkeep : Keeps w (w.popped.calling op status) := by constructor <;> simp
  have ho : Orderly (w.popped.calling op status) :=
    ho.silent (World.calling_log _ _ _) (silent_of_all (by simp [Entry.silent])) hkeep
  -- the call itself is a silent entry, so the callback starts orderly
  generalize w.popped.calling op status = w₁ at h ho
  cases h with
  | writeError => exact ho
  | goaway =>
    refine ho.silent (World.closeImmediate_log _) (silent_of_all (by simp [Entry.silent])) ?_
    constructor <;> simp
  | settings _ _ hq => exact ho.quiet hq
  | done _ hb =>
    refine ho.silent (World.streamTo_log _ _) (silent_of_all (by simp [Entry.silent])) ?_
    constructor <;> simp
  | idle _ hb hl => exact ho
  | send _ hl hw =>
    refine ho.keeps (World.continued_log _) (by simp) (by simp) ?_ (by simp [World.dataFrame]) ?_
    · intro i hi
      have hne : w₁.ctx.stream.id ≠ i := by
        have := ho.last
        omega
      constructor <;> simp [World.dataFrame, hne]
    · constructor <;> simp [Context.advance]

/-- **Every transition keeps the order of the streams.** -/
theorem Transition.orderly (h : Transition true w w') (ho : Orderly w) : Orderly w' := by
  cases h with
  | frame _ h => exact h.orderly ho
  | closeImmediate =>
    refine ho.silent (World.closeImmediate_log _) (silent_of_all (by simp [Entry.silent])) ?_
    constructor <;> simp
  | preface e hr hc hp hw =>
    have herr := ho.not_errored (by simp [hr])
    refine ho.silent (World.greeted_log _ _) (silent_of_all (by simp [Entry.silent, Frame.stream?])) ?_
    constructor <;> simp [herr]
  | ready e h hs hr =>
    have herr := ho.not_errored (by simp [hr rfl])
    refine ho.silent (World.readied_log _ _ _) (silent_of_all (by simp [Entry.silent])) ?_
    constructor <;> simp [herr]
  | consume bytes n h =>
    refine ho.silent (World.consumed_log _ _ _) (silent_of_all (by simp [Entry.silent])) ?_
    constructor <;> simp
  | complete op rest w₁ hq hc =>
    refine (hc.orderly ho).silent (by simp) silent_nil ?_
    constructor <;> simp
  | failed op rest status hq hneg =>
    refine ho.silent (World.dropped_log _ _ _) (silent_of_all (by simp [Entry.silent])) ?_
    constructor <;> simp
  | flush h =>
    refine ho.silent (by simp) silent_nil ?_
    constructor <;> simp

end Step

/-- The streams of a new connection. -/
theorem orderly_init (pools : Pools) (r s : ℕ) :
    Orderly ⟨⟨pools, EventLoop.newSock r s, .init, none⟩, []⟩ := by
  refine ⟨rfl, fun _ _ => ⟨rfl, rfl, rfl, rfl⟩, ?_, fun _ => rfl, ?_, ?_, ?_, ?_⟩
  · simp [Context.init]
  · simp
  · simp [Context.init]
  · simp
  · simp

/-- The obligations of the run rule for an invariant that builds on the order of the streams. -/
theorem RunRule.of_orderly {C Q : List Entry → Entry → Prop} {I : World → Prop}
    (init : ∀ pools r s, I ⟨⟨pools, EventLoop.newSock r s, .init, none⟩, []⟩)
    (pools : ∀ (w : World) (pools : Pools), I w → I { w with loop := pools, callback := none })
    (step : ∀ w w', Transition true w w' → Sane w → Orderly w → I w → Along C w'.log → I w')
    (entries : ∀ live w w', Transition live w w' → Sane w → Orderly w → I w → ∀ new,
      w'.log = w.log ++ new → ∀ a e b, new = a ++ e :: b → Along C (w.log ++ a ++ [e]) →
        Q (w.log ++ a) e) :
    RunRule C Q fun w => Orderly w ∧ I w where
  init p r s := ⟨orderly_init p r s, init p r s⟩
  pools w p h := ⟨⟨h.1.last, h.1.fresh, h.1.states, h.1.idle, h.1.failed, h.1.opened, h.1.once,
    h.1.answers⟩, pools w p h.2⟩
  step w w' ht hs h hc := ⟨ht.orderly h.1, step w w' ht hs h.1 h.2 hc⟩
  entries live w w' ht hs h := entries live w w' ht hs h.1 h.2

/-- Where `http2_continue_send` is called in a transition from `w`: after the events `a`, in the
world `w₁`. -/
inductive Sending (w : World) : World → List Entry → Prop
  | window (h region) (hr : WindowReady w h region) :
    Sending w (w.increment h.streamId (bufferGetU31 region))
      [.increment h.streamId (bufferGetU31 region) w.toState]
  | complete (op rest) (hq : w.sock.queue = op :: rest) (hcb : op.cb = .onStreamSendComplete) :
    Sending w (w.popped.calling op 0) [.completed op 0 w.popped.toState]

/-- A DATA frame is sent only by `http2_continue_send`, with which the transition ends. -/
theorem Transition.data_entry {live : Bool} {w w' : World} (h : Transition live w w')
    {new a b : List Entry} {id : ℕ} {fin : Bool} {p : Bytes} {s : State}
    (hlog : w'.log = w.log ++ new) (hnew : new = a ++ .send (.data id fin p) s :: b) :
    ∃ w₁, Sending w w₁ a ∧ 0 < sendLength w₁.ctx ∧ s = w₁.toState ∧
      Frame.data id fin p = w₁.dataFrame := by
  have hmem : Entry.send (.data id fin p) s ∈ new := by simp [hnew]
  cases h with
  | frame _ h =>
    cases h with
    -- a WINDOW_UPDATE frame and the completion of a write call `http2_continue_send`
    | windowSend h region n hr hn hs hw =>
      subst hn
      rw [World.continued_log, World.increment_log, List.append_assoc,
        List.append_cancel_left_eq] at hlog
      obtain ⟨rfl, he, -⟩ := split_unique (hnew ▸ hlog.symm) (by simp) (by simp)
      obtain ⟨hf, hstate⟩ := Entry.send.inj he
      exact ⟨_, .window h region hr, hs, hstate, hf⟩
    -- no other step sends DATA: the reply to a frame is of no stream, the answer is HEADERS
    | quiet _ hq =>
      simp [hq.log] at hlog
      simp [hlog] at hmem
    | reply f hf _ _ =>
      obtain rfl : [_] = new := by simpa using hlog
      simp at hmem
      simp [← hmem.1, Frame.stream?] at hf
    | block h data n hb =>
      simp [World.block_log] at hlog
      subst hlog
      simp [World.markEntry] at hmem
    | data h hd =>
      simp [World.marked_log] at hlog
      simp [← hlog, World.markEntry] at hmem
    | request w₁ t hs res hr hl =>
      obtain ⟨u, h, hw, -⟩ := hr.log
      simp [hw] at hlog
      simp [← hlog, World.markEntry] at hmem
    | answer w₁ t hs res t' block hr hl hb hw =>
      obtain ⟨u, h, hw, -⟩ := hr.log
      simp [hw] at hlog
      simp [← hlog, World.markEntry] at hmem
    | _ =>
      simp at hlog
      subst hlog
      simp at hmem
  | complete op rest w₁ hq hc =>
    generalize hcb : op.cb = cb at hc
    rw [World.returned_log] at hlog
    cases hc with
    | send _ hs hw =>
      rw [World.continued_log, World.calling_log, World.popped_log, List.append_assoc,
        List.append_cancel_left_eq] at hlog
      obtain ⟨rfl, he, -⟩ := split_unique (hnew ▸ hlog.symm) (by simp) (by simp)
      obtain ⟨hf, hstate⟩ := Entry.send.inj he
      exact ⟨_, .complete op rest hq hcb, hs, hstate, hf⟩
    | settings _ _ hq =>
      simp [hq.log] at hlog
      simp [← hlog] at hmem
    | _ =>
      simp at hlog
      subst hlog
      simp at hmem
  | _ =>
    simp at hlog
    subst hlog
    simp at hmem

/-- A request is recorded only where a frame has completed it. -/
theorem Transition.request_entry {live : Bool} {w w' : World} (h : Transition live w w')
    {new a b : List Entry} {id : ℕ} {headers : HeaderList} {content : Bytes}
    (hlog : w'.log = w.log ++ new) (hnew : new = a ++ .request id headers content :: b) :
    ∃ w₁ t, RequestReady w w₁ ∧ id = w₁.ctx.stream.id ∧ (w₁.decoded t).log = w.log ++ a := by
  have hmem : Entry.request id headers content ∈ new := by simp [hnew]
  -- the entries for the flags of a frame are no requests
  have hmark : ∀ (u : World) (h : FrameHeader), Entry.request id headers content ∉ u.markEntry h := by
    intro u h hmem
    obtain ⟨_, he, -⟩ := World.mem_markEntry _ _ hmem
    cases he
  cases h with
  | frame _ h =>
    cases h with
    -- the request follows the entries of the frame that completes it
    | request w₁ t hs res hr hl =>
      obtain ⟨u, h, hw, -⟩ := hr.log
      rw [World.requested_log, World.decoded_log, hw, List.append_assoc, List.append_assoc,
        List.append_cancel_left_eq, ← List.append_assoc] at hlog
      obtain ⟨rfl, he, -⟩ := split_unique (hnew ▸ hlog.symm) (by simp [hmark]) (by simp)
      cases he
      exact ⟨w₁, t, hr, rfl, by simp [hw]⟩
    | answer w₁ t hs res t' block hr hl hb hw =>
      obtain ⟨u, h, hw, -⟩ := hr.log
      rw [World.answering_log, World.requested_log, World.decoded_log, hw, List.append_assoc,
        List.append_assoc, List.append_assoc, List.append_cancel_left_eq,
        ← List.append_assoc] at hlog
      obtain ⟨rfl, he, -⟩ := split_unique (hnew ▸ hlog.symm) (by simp [hmark]) (by simp)
      cases he
      exact ⟨w₁, t, hr, rfl, by simp [hw]⟩
    -- no other step calls `http_handle_request`
    | quiet _ hq =>
      simp [hq.log] at hlog
      simp [hlog] at hmem
    | block h data n hb =>
      simp [World.block_log] at hlog
      exact absurd (hlog ▸ hmem) (hmark _ _)
    | data h hd =>
      simp [World.marked_log] at hlog
      exact absurd (hlog ▸ hmem) (hmark _ _)
    | reset e i hi hw =>
      rw [World.resetBy_log, List.append_assoc, List.append_cancel_left_eq] at hlog
      rw [← hlog] at hmem
      split at hmem <;> simp at hmem
    | _ =>
      simp at hlog
      subst hlog
      simp at hmem
  | complete op rest w₁ hq hc =>
    generalize hcb : op.cb = cb at hc
    rw [World.returned_log] at hlog
    cases hc with
    | settings _ _ hq =>
      simp [hq.log] at hlog
      simp [← hlog] at hmem
    | _ =>
      simp at hlog
      subst hlog
      simp at hmem
  | _ =>
    simp at hlog
    subst hlog
    simp at hmem

/-- A frame is recorded in the state it finds. -/
theorem Transition.frame_entry {live : Bool} {w w' : World} (h : Transition live w w')
    {new a b : List Entry} {header : FrameHeader} {region : Bytes} {s : State}
    (hlog : w'.log = w.log ++ new) (hnew : new = a ++ .frame header region s :: b) :
    a = [] ∧ s = w.toState := by
  have hmem : Entry.frame header region s ∈ new := by simp [hnew]
  have hmark : ∀ (u : World) (h : FrameHeader), Entry.frame header region s ∉ u.markEntry h := by
    intro u h hmem
    obtain ⟨_, he, -⟩ := World.mem_markEntry _ _ hmem
    cases he
  cases h with
  | frame _ h =>
    cases h with
    -- the entry of a frame is the first one of the step that handles it
    | frame h region' =>
      rw [World.add_log, List.append_cancel_left_eq] at hlog
      obtain ⟨rfl, he, -⟩ := split_unique (x := []) (y := []) (hnew ▸ hlog.symm) (by simp) (by simp)
      cases he
      exact ⟨rfl, rfl⟩
    | quiet _ hq =>
      simp [hq.log] at hlog
      simp [hlog] at hmem
    | block h data n hb =>
      simp [World.block_log] at hlog
      exact absurd (hlog ▸ hmem) (hmark _ _)
    | data h hd =>
      simp [World.marked_log] at hlog
      exact absurd (hlog ▸ hmem) (hmark _ _)
    | request w₁ t hs res hr hl =>
      obtain ⟨u, h, hw, -⟩ := hr.log
      simp [hw] at hlog
      simp [← hlog, hmark] at hmem
    | answer w₁ t hs res t' block hr hl hb hw =>
      obtain ⟨u, h, hw, -⟩ := hr.log
      simp [hw] at hlog
      simp [← hlog, hmark] at hmem
    | reset e i hi hw =>
      rw [World.resetBy_log, List.append_assoc, List.append_cancel_left_eq] at hlog
      rw [← hlog] at hmem
      split at hmem <;> simp at hmem
    | _ =>
      simp at hlog
      subst hlog
      simp at hmem
  | complete op rest w₁ hq hc =>
    generalize hcb : op.cb = cb at hc
    rw [World.returned_log] at hlog
    cases hc with
    | settings _ _ hq =>
      simp [hq.log] at hlog
      simp [← hlog] at hmem
    | _ =>
      simp at hlog
      subst hlog
      simp at hmem
  | _ =>
    simp at hlog
    subst hlog
    simp at hmem

/-! ## Concrete runs -/

namespace Sample

open EventLoop (Action)

/-- A server with one resource, whose content has `n` bytes. -/
def server (n : ℕ) : Server where
  resources := [⟨ascii "/", ascii "GET", ascii "text/plain", fun _ _ _ => (n, [])⟩]
  behind _ := Hpack.zeroBehind

/-- The bytes of a short frame. -/
def frame (type flags streamId : UInt8) (payload : Bytes) : Bytes :=
  [0, 0, .ofNat payload.length, type, flags, 0, 0, 0, streamId] ++ payload

/-- The header block of a request for `/`. -/
def getBlock : Bytes := [0x82, 0x86, 0x84]

/-- A HEADERS frame; the flags 4 and 1 are END_HEADERS and END_STREAM. -/
def headers (flags streamId : UInt8) (block : Bytes) : Bytes := frame 1 flags streamId block

/-- A WINDOW_UPDATE frame. -/
def windowUpdate (streamId increment : UInt8) : Bytes := frame 8 0 streamId [0, 0, 0, increment]

/-- A DATA frame without payload. -/
def data (flags streamId : UInt8) : Bytes := frame 0 flags streamId []

/-- A SETTINGS frame with one parameter. -/
def setting (id : UInt8) (value : Bytes) : Bytes := frame 4 0 0 ([0, id] ++ value)

/-- A client connects and sends the preface and the SETTINGS frame `settings`, and the SETTINGS frame
of the server is sent. -/
def handshake (settings : Bytes) : List Action :=
  [.accept true, .recv 0 (http2Preface ++ settings), .pending 0, .pending 0, .send 0 45]

/-- The client sends `bytes` and the server reads them. -/
def receive (bytes : Bytes) : List Action := [.recv 0 bytes, .pending 0]

/-- A handshake, a request for `/`, and its response. -/
def exchange : List Action :=
  handshake (frame 4 0 0 []) ++ receive (headers 5 1 getBlock) ++ [.send 0 512, .send 0 512]

/-- The initial window size is 0. A request is reset before its response headers are sent, and the
header block of the next one begins. -/
def resetRequest : List Action :=
  handshake (setting 4 [0, 0, 0, 0]) ++ receive (headers 5 1 getBlock) ++
    receive (frame 3 0 1 [0, 0, 0, 8]) ++ receive (headers 0 3 [0x82])

/-- Then the response headers are sent, and the next request ends with a CONTINUATION and a DATA
frame. Its response goes on when the window of the stream grows by an increment, and again by a
setting. -/
def conversation : List Action :=
  resetRequest ++ [.send 0 512] ++ receive (frame 9 4 3 [0x86, 0x84]) ++ receive (data 1 3) ++
    [.send 0 512] ++ receive (setting 4 [0, 0, 0, 1]) ++ receive (windowUpdate 3 1) ++
    receive (setting 4 [0, 0, 0, 3]) ++ [.send 0 512, .send 0 512]

end Sample

end Two
