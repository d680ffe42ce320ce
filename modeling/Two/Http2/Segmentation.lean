import Two.Event.Connection
import Two.Http2.Digest

/-!
# Independence of the cuts

What a connection does should not depend on how the system cuts the bytes it receives into reads. As
long as no error is raised it does not: whatever the reads are, the connection follows the stream
part by part, and has handled all whole parts once the read callback consumes nothing any more.

## Main definitions

* `Connection.Reads`, `streamOf`: a way of cutting a stream into reads
* `Connection.AtRest`: the read callback was called again until it consumed nothing
* `Connection.Follows`: how a connection stands to the stream that it has received

## Main results

* `Connection.Follows.run`: a connection follows the stream, whatever the reads are
* `Connection.sameOutcome_of_reads`: two ways of cutting a stream come to the same
-/

namespace Two

open Program

/-- The bytes that are received. -/
def streamOf : List ConnEvent → Bytes
  | [] => []
  | .recv bytes :: events => bytes ++ streamOf events
  | _ :: events => streamOf events

namespace Connection

/-- The bytes in the read buffer. -/
def unread (c : Connection) : Bytes := (c.world.sock.read.map fun e => e.buf.bytes).getD []

/-- The bytes that the read buffer still takes. -/
def readRoom (c : Connection) : ℕ := (c.world.sock.read.map fun e => e.buf.room).getD 0

/-- Only reads and calls of the read callback happen to the connection, and `recv` returns no more
bytes than the read buffer takes. -/
def Reads (server : Server) (c : Connection) : List ConnEvent → Prop
  | [] => True
  | .recv bytes :: events =>
    (c.aborted = none → bytes.length ≤ c.readRoom) ∧ Reads server (c.step server (.recv bytes)) events
  | .pending :: events => Reads server (c.step server .pending) events
  | _ :: _ => False

instance decidableReads (server : Server) (c : Connection) (events : List ConnEvent) :
    Decidable (Reads server c events) :=
  match events with
  | [] => isTrue trivial
  | .recv bytes :: events =>
    have := decidableReads server (c.step server (.recv bytes)) events
    inferInstanceAs (Decidable ((_ → _) ∧ _))
  | .pending :: events => decidableReads server (c.step server .pending) events
  | .recvClosed _ :: _ | .send _ :: _ | .sendError _ :: _ | .timer _ :: _ | .others _ :: _
  | .closeGracefully :: _ => isFalse id

/-- The read callback was called last, and consumed nothing. -/
def AtRest (server : Server) (c : Connection) (events : List ConnEvent) : Prop :=
  ∃ before, events = before ++ [.pending] ∧
    (c.run server events).unread = (c.run server before).unread

/-- How a connection stands to the stream `fed` that it has received since `w₀`: an error was raised
on both sides, the same assertion has failed, or the stream is followed up to what is unread. -/
inductive Follows (server : Server) (w₀ : World) (fed : Bytes) (c : Connection) : Prop
  | erred (h : errored c.world.log = true)
    (hd : errored (finalState (digest server fed w₀)).log = true)
  | aborted {a ev buf w'} (ha : c.aborted = some a) (hs : Same ev buf c.world w')
    (hd : digest server fed w₀ = .error a w')
  | running {ev buf w'} (ha : c.aborted = none) (hr : c.world.sock.read = some ev)
    (ho : ev.buf.ended = false) (hs : Same ev buf c.world w')
    (hp : ev.cb = .waitingForPreface → ev.buf.bytes = fed)
    (hd : digest server fed w₀ = digest server ev.buf.bytes w')

section Steps

variable {server : Server} {w₀ : World} {fed bytes : Bytes} {c : Connection}

theorem step_aborted {a : Assertion} (h : c.aborted = some a) (e : ConnEvent) :
    c.step server e = c := by
  simp [step, h]

/-- An event whose program only extends the trace. -/
theorem step_extends (c : Connection) (e : ConnEvent)
    (h : ∀ w, wp (e.program server) (fun _ w' => w.log <+: w'.log) (fun _ w' => w.log <+: w'.log) w) :
    c.world.log <+: (c.step server e).world.log := by
  unfold step
  split
  · exact List.prefix_refl _
  · have hrun := h c.world
    unfold wp at hrun
    cases he : e.program server c.world with
    | ok a w =>
      rw [he] at hrun
      exact hrun
    | error a w =>
      rw [he] at hrun
      exact hrun

theorem digest_errored_append (h : errored (finalState (digest server fed w₀)).log = true) :
    errored (finalState (digest server (fed ++ bytes) w₀)).log = true := by
  rw [digest_append]
  cases hd : digest server fed w₀ with
  | ok rest w' =>
    rw [hd] at h
    exact digest_errored h
  | error a w' =>
    rw [hd] at h
    exact h

/-- A read event with more bytes in its buffer. -/
theorem step_recv {ev : EventRead} (ha : c.aborted = none) (hc : c.world.sock.state = .connected)
    (hr : c.world.sock.read = some ev) :
    c.step server (.recv bytes) =
      ⟨{ c.world with sock.read := some { ev with buf := ev.buf.push bytes } }, none⟩ := by
  have hrun : (ConnEvent.recv bytes).program server c.world =
      .ok () { c.world with sock.read := some { ev with buf := ev.buf.push bytes } } := by
    have hread : eventSockRead bytes c.world =
        .ok () { c.world with sock.read := some { ev with buf := ev.buf.push bytes } } := by
      change (.ok () { c.world with
        sock.read := c.world.sock.read.map fun e => { e with buf := e.buf.push bytes } } :
          EStateM.Result Assertion World Unit) = _
      rw [hr]
      rfl
    rw [← hread]
    change (if c.world.sock.state = .connected then eventSockRead bytes else pure () : M Unit)
      c.world = _
    rw [if_pos hc]
  simp only [step, ha, Option.isSome_none, Bool.false_eq_true, if_false, hrun]

theorem Follows.recv (h : Follows server w₀ fed c)
    (hroom : c.aborted = none → bytes.length ≤ c.readRoom) :
    Follows server w₀ (fed ++ bytes) (c.step server (.recv bytes)) := by
  cases h with
  | erred h hd =>
    refine .erred (errored_of_extends (step_extends c (.recv bytes) fun w => ?_) h)
      (digest_errored_append hd)
    simp only [ConnEvent.program, eventSockRead, wp_bind, wp_get, wp_ite, wp_modify, wp_pure]
    exact ⟨fun _ => List.prefix_refl _, fun _ => List.prefix_refl _⟩
  | @aborted a ev buf w' ha hs hd =>
    rw [step_aborted ha]
    refine .aborted ha hs ?_
    rw [digest_append, hd]
  | @running ev buf w' ha hr ho hs hp hd =>
    have hfits : bytes.take ev.buf.room = bytes := by
      refine List.take_of_length_le ?_
      simpa [readRoom, hr] using hroom ha
    have hpush : (ev.buf.push bytes).bytes = ev.buf.bytes ++ bytes := by
      rw [Fifo.push, hfits]
    rw [step_recv ha hs.connected hr]
    refine .running rfl rfl ho { hs with read := .inl ⟨rfl, hs.read_other hr⟩ } (fun hcb => ?_) ?_
    · rw [hpush, hp hcb]
    · rw [digest_append, hd, hpush, digest_append]

/-! ## Calls of the read callback -/

theorem eventSockHandleRead_extends (w : World) :
    wp (eventSockHandleRead server) (fun _ w' => w.log <+: w'.log) (fun _ w' => w.log <+: w'.log)
      w := by
  -- the call that tells the callback that the socket was closed
  have hended : ∀ (e : EventRead) {u : World}, w.log <+: u.log →
      wp (callReadCb server e.cb (-1) []) (fun _ w' => w.log <+: w'.log)
        (fun _ w' => w.log <+: w'.log) u := by
    intro e u hu
    exact (callReadCb_extends e.cb (-1) [] u).mono (fun _ _ h => hu.trans h) fun _ _ h => hu.trans h
  simp only [eventSockHandleRead, wp_bind, wp_get]
  cases w.sock.read with
  | none => exact List.prefix_refl _
  | some e =>
    simp only [wp_bind, wp_get, wp_ite, wp_pure, wp_record, wp_modify]
    refine ⟨fun _ => ?_, fun _ => ⟨fun _ => ?_, fun _ => List.prefix_refl _⟩⟩
    · refine (callReadCb_extends e.cb e.buf.bytes.length e.buf.bytes w).mono (fun n u hu => ?_)
        fun _ _ hu => hu
      have hlog : w.log <+: (u.consumed e.buf.bytes n).log := hu.trans (by simp)
      refine ⟨fun _ => ?_, fun _ => hlog⟩
      split
      · exact hlog
      · simp only [wp_bind, wp_pure]
        exact hended _ hlog
    · split
      · exact List.prefix_refl _
      · simp only [wp_bind, wp_pure]
        exact hended _ (List.prefix_refl _)

/-- The read callback of a socket that was not closed, and what it consumes. -/
theorem eventSockHandleRead_open {w : World} {ev : EventRead} (hr : w.sock.read = some ev)
    (ho : ev.buf.ended = false) :
    eventSockHandleRead server w =
      if 0 < ev.buf.bytes.length then
        match callReadCb server ev.cb ev.buf.bytes.length ev.buf.bytes w with
        | .ok n u => .ok () (u.consumed ev.buf.bytes n)
        | .error a u => .error a u
      else .ok () w := by
  have hget : eventSockHandleRead server w = (do
      (if ev.buf.bytes.length > 0 then do
        let readlen ← callReadCb server ev.cb ev.buf.bytes.length ev.buf.bytes
        record fun _ => .consumed (ev.buf.bytes.take readlen)
        modify fun w =>
          { w with sock.read := w.sock.read.map fun e => { e with buf := e.buf.pop readlen } }
      else return ())
      return () : M Unit) w := by
    rw [eventSockHandleRead, bind_get]
    simp only [hr, ho, Bool.false_eq_true, if_false]
  -- the buffer has not been ended, so the callback is not told of a closed connection
  rw [hget]
  by_cases hpos : 0 < ev.buf.bytes.length
  · rw [if_pos hpos, if_pos hpos, bind_assoc, bind_run]
    cases callReadCb server ev.cb ev.buf.bytes.length ev.buf.bytes w with
    | ok n u => rfl
    | error a u => rfl
  · rw [if_neg hpos, if_neg hpos]
    rfl

theorem step_pending (ha : c.aborted = none) :
    c.step server .pending =
      match eventSockHandleRead server c.world with
      | .ok _ w => ⟨w, none⟩
      | .error a w => ⟨w, some a⟩ := by
  rw [step, if_neg (by rw [ha]; exact Bool.false_ne_true)]
  rfl

/-- The bytes that were consumed are taken from the read buffer. -/
theorem same_consumed {ev : EventRead} {buf : Fifo} {w w' : World} (h : Same ev buf w w')
    (hr : w.sock.read = some ev) (bytes : Bytes) (n : ℕ) :
    Same { ev with buf := ev.buf.pop n } buf (w.consumed bytes n) w' := by
  refine { h with read := .inl ⟨?_, h.read_other hr⟩, sent := ?_, errors := ?_ }
  · rw [World.consumed_read, hr]
    rfl
  · rw [World.consumed_log, sentBytes_append, h.sent]
    exact (List.append_nil _).symm
  · simp [h.errors]

/-- Without a whole part of the stream nothing happens. -/
theorem step_pending_waiting {ev : EventRead} {buf : Fifo} {w' : World} (ha : c.aborted = none)
    (hr : c.world.sock.read = some ev) (ho : ev.buf.ended = false) (hs : Same ev buf c.world w')
    (hn : nextMessage ev.cb ev.buf.bytes = none) :
    (c.step server .pending).aborted = none ∧
      (c.step server .pending).world.sock.read = some ev ∧
      Same ev buf (c.step server .pending).world w' := by
  rw [step_pending ha, eventSockHandleRead_open hr ho]
  by_cases hpos : 0 < ev.buf.bytes.length
  · have hzero : ev.buf.pop 0 = ev.buf := by simp [Fifo.pop]
    have hcons := same_consumed hs hr ev.buf.bytes 0
    rw [hzero] at hcons
    rw [if_pos hpos, callReadCb_waiting hpos hn]
    refine ⟨rfl, ?_, hcons⟩
    rw [World.consumed_read, hr, Option.map_some, hzero]
  · rw [if_neg hpos]
    exact ⟨rfl, hr, hs⟩

/-- With a whole part of the stream the read callback follows it. -/
theorem step_pending_message {ev : EventRead} {n : ℕ}
    (ha : c.aborted = none) (hr : c.world.sock.read = some ev) (ho : ev.buf.ended = false)
    (hn : nextMessage ev.cb ev.buf.bytes = some n) :
    c.step server .pending =
      match callReadCb server ev.cb ev.buf.bytes.length ev.buf.bytes c.world with
      | .ok m u => ⟨u.consumed ev.buf.bytes m, none⟩
      | .error a u => ⟨u, some a⟩ := by
  have hlen := nextMessage_bounds hn
  rw [step_pending ha, eventSockHandleRead_open hr ho, if_pos (by omega)]
  cases callReadCb server ev.cb ev.buf.bytes.length ev.buf.bytes c.world <;> rfl

/-- The preface stands at the beginning of what was received. -/
def Prefaced (fed : Bytes) : Prop := 24 ≤ fed.length → fed.take 24 = http2Preface

theorem Prefaced.valid {cb : ReadCb} {n : ℕ} (h : Prefaced fed) (hp : cb = .waitingForPreface → bytes = fed)
    (hn : nextMessage cb bytes = some n) : cb = .waitingForPreface → bytes.take 24 = http2Preface := by
  rintro rfl
  obtain rfl := hp rfl
  refine h ?_
  simp only [nextMessage] at hn
  split at hn
  · cases hn
  · omega

theorem Follows.pending (h : Follows server w₀ fed c) (hpre : Prefaced fed) :
    Follows server w₀ fed (c.step server .pending) := by
  cases h with
  | erred h hd =>
    exact .erred (errored_of_extends (step_extends c .pending eventSockHandleRead_extends) h) hd
  | @aborted a ev buf w' ha hs hd =>
    rw [step_aborted ha]
    exact .aborted ha hs hd
  | @running ev buf w' ha hr ho hs hp hd =>
    cases hn : nextMessage ev.cb ev.buf.bytes with
    | none =>
      obtain ⟨ha', hr', hs'⟩ := step_pending_waiting ha hr ho hs hn
      exact .running ha' hr' ho hs' hp hd
    | some n =>
      -- the message comes out of the buffer as it would out of all the bytes
      have habs := @callReadCb_absorbs server ev buf c.world w' ev.buf.bytes n hs hr hn
        (hpre.valid hp hn)
      rw [step_pending_message ha hr ho hn]
      rw [← hd] at habs
      cases hrun : callReadCb server ev.cb ev.buf.bytes.length ev.buf.bytes c.world with
      | ok m u =>
        rw [hrun] at habs
        rcases habs with ⟨herr, herr'⟩ | ⟨cb, u', hsu, hru, hcb, htarget⟩
        · refine .erred (errored_of_extends ?_ herr) herr'
          simp
        · have hread : (u.consumed ev.buf.bytes m).sock.read =
              some { ev with buf := ev.buf.pop m, cb := cb } := by
            rw [World.consumed_read, hru]
            rfl
          exact .running rfl hread ho (same_consumed hsu hru ev.buf.bytes m)
            (fun hcb' => absurd hcb' hcb) htarget
      | error a u =>
        rw [hrun] at habs
        rcases habs with ⟨herr, herr'⟩ | ⟨u', hsu, htarget⟩
        · exact .erred herr herr'
        · exact .aborted rfl hsu htarget

/-- A call of the read callback that returns and consumes nothing has found no whole part of the
stream. -/
theorem nextMessage_eq_none {ev : EventRead} {buf : Fifo} {w' : World} (ha : c.aborted = none)
    (hr : c.world.sock.read = some ev) (ho : ev.buf.ended = false) (hs : Same ev buf c.world w')
    (hp : ev.cb = .waitingForPreface → ev.buf.bytes = fed) (hpre : Prefaced fed)
    (hreturns : (c.step server .pending).aborted = none)
    (herr : errored (c.step server .pending).world.log = false)
    (hrest : (c.step server .pending).unread = c.unread) :
    nextMessage ev.cb ev.buf.bytes = none := by
  by_contra hsome
  obtain ⟨n, hn⟩ := Option.ne_none_iff_exists'.mp hsome
  have hlen := nextMessage_bounds hn
  have habs := @callReadCb_absorbs server ev buf c.world w' ev.buf.bytes n hs hr hn
    (hpre.valid hp hn)
  have hconsumes := @callReadCb_consumes server c.world ev.buf.bytes ev.cb n hn
  have hunread : c.unread = ev.buf.bytes := by simp [unread, hr]
  rw [step_pending_message ha hr ho hn] at hreturns herr hrest
  unfold wp at hconsumes
  cases hrun : callReadCb server ev.cb ev.buf.bytes.length ev.buf.bytes c.world with
  | error a u => simp [hrun] at hreturns
  | ok m u =>
    rw [hrun] at habs hconsumes herr hrest
    have herr : errored u.log = false := by simpa using herr
    rcases habs with ⟨herr', -⟩ | ⟨cb, u', hsu, hru, -, -⟩
    · rw [herr] at herr'
      cases herr'
    -- a callback without an error takes at least one byte
    · have hpos : 0 < m := hconsumes.resolve_right (by simp [herr])
      have hdrop : ev.buf.bytes.drop m = ev.buf.bytes := by
        rw [hunread] at hrest
        simpa [unread, hru, Fifo.pop] using hrest
      have hshort := congrArg List.length hdrop
      rw [List.length_drop] at hshort
      omega

/-! ## Runs -/

theorem prefaced_of_le {stream : Bytes} (hpre : http2Preface <+: stream) (hfed : fed <+: stream) :
    Prefaced fed := by
  intro hlen
  have hle : http2Preface <+: fed := List.prefix_of_prefix_length_le hpre hfed hlen
  exact (List.prefix_iff_eq_take.mp hle).symm

/-- **A connection follows the stream**, whatever the reads are. -/
theorem Follows.run {events : List ConnEvent} (h : Follows server w₀ fed c)
    (hreads : Reads server c events) (hpre : http2Preface <+: fed ++ streamOf events) :
    Follows server w₀ (fed ++ streamOf events) (c.run server events) := by
  induction events generalizing fed c with
  | nil => simpa [streamOf, Connection.run] using h
  | cons e events ih =>
    cases e with
    | recv bytes =>
      obtain ⟨hroom, hreads⟩ := hreads
      simp only [streamOf, ← List.append_assoc] at hpre ⊢
      exact ih (h.recv hroom) hreads hpre
    | pending =>
      simp only [streamOf] at hpre ⊢
      exact ih (h.pending (prefaced_of_le hpre (List.prefix_append _ _))) hreads hpre
    | _ => exact hreads.elim

theorem follows_init (server : Server) (pools : Pools) (r s : ℕ) :
    Follows server (init pools r s).world [] (init pools r s) := by
  have hs : Same ⟨r, .init http2SockReadSize, .waitingForPreface⟩ (.init http2SockReadSize)
      (init pools r s).world (init pools r s).world :=
    ⟨rfl, rfl, rfl, rfl, rfl, rfl, rfl, .inl ⟨rfl, rfl⟩, rfl, rfl, rfl⟩
  exact .running rfl rfl rfl hs (fun _ => rfl) rfl

/-- **A connection at rest** has handled the whole parts of the stream, or an assertion has failed
while it did. -/
theorem Follows.at_rest (h : Follows server w₀ fed c) (hpre : Prefaced fed)
    (hrest : (c.step server .pending).unread = c.unread)
    (herr : errored (c.step server .pending).world.log = false) :
    ∃ ev buf w', Same ev buf (c.step server .pending).world w' ∧
      digest server fed w₀ =
        match (c.step server .pending).aborted with
        | none => .ok (c.step server .pending).unread w'
        | some a => .error a w' := by
  cases h.pending hpre with
  | erred herr' => rw [herr] at herr'; cases herr'
  | @aborted a ev buf w' ha' hs' hd' =>
    refine ⟨ev, buf, w', hs', ?_⟩
    rw [ha']
    exact hd'
  | running ha' hr' ho' hs' hp' hd' =>
    cases h with
    | erred h hd =>
      have := errored_of_extends (step_extends c .pending (@eventSockHandleRead_extends server)) h
      rw [herr] at this
      cases this
    | aborted ha hs hd =>
      rw [step_aborted ha, ha] at ha'
      cases ha'
    | @running ev buf w' ha hr ho hs hp hd =>
      -- nothing was taken and no error was sent, so no message is complete
      have hn := nextMessage_eq_none ha hr ho hs hp hpre ha' herr hrest
      obtain ⟨-, hread, hsame⟩ := step_pending_waiting ha hr ho hs hn
      refine ⟨ev, buf, w', hsame, ?_⟩
      have hunread : (c.step server .pending).unread = ev.buf.bytes := by simp [unread, hread]
      rw [ha', hunread, hd]
      exact digest_waiting (hs.read_other hr) hn

/-- Where the stream raises no error, the connection does not. -/
theorem Follows.not_errored (h : Follows server w₀ fed c)
    (hd : errored (finalState (digest server fed w₀)).log = false) :
    errored c.world.log = false := by
  cases h with
  | erred _ hd' => rw [hd] at hd'; cases hd'
  | aborted ha hs hd' =>
    rw [hd'] at hd
    rw [← hs.errors]
    exact hd
  | @running ev buf w' ha hr ho hs hp hd' =>
    rw [hd'] at hd
    rw [← hs.errors]
    exact errored_mono (digest_extends _ w') hd

theorem streamOf_append (events more : List ConnEvent) :
    streamOf (events ++ more) = streamOf events ++ streamOf more := by
  induction events with
  | nil => rfl
  | cons e events ih => cases e <;> simp [streamOf, ih]

theorem Reads.of_append {events more : List ConnEvent} (h : Reads server c (events ++ more)) :
    Reads server c events := by
  induction events generalizing c with
  | nil => trivial
  | cons e events ih =>
    cases e with
    | recv bytes => exact ⟨h.1, ih h.2⟩
    | pending => exact ih (c := c.step server .pending) h
    | _ => exact h.elim

/-- How a stream ends, seen from a connection that has received it and is at rest. -/
theorem digest_streamOf (pools : Pools) (r s : ℕ) {events : List ConnEvent}
    (hreads : (init pools r s).Reads server events) (hpre : http2Preface <+: streamOf events)
    (hrest : (init pools r s).AtRest server events)
    (herr : errored ((init pools r s).run server events).world.log = false) :
    ∃ ev buf w', Same ev buf ((init pools r s).run server events).world w' ∧
      digest server (streamOf events) (init pools r s).world =
        match ((init pools r s).run server events).aborted with
        | none => .ok ((init pools r s).run server events).unread w'
        | some a => .error a w' := by
  obtain ⟨before, rfl, hunread⟩ := hrest
  have hreceived : streamOf (before ++ [.pending]) = streamOf before := by
    rw [streamOf_append]
    exact List.append_nil _
  have hrun : (init pools r s).run server (before ++ [.pending]) =
      ((init pools r s).run server before).step server .pending := by
    rw [run_append]
    rfl
  rw [hreceived] at hpre ⊢
  rw [hrun] at hunread herr ⊢
  have hfollows := (follows_init server pools r s).run hreads.of_append hpre
  exact hfollows.at_rest (prefaced_of_le hpre (List.prefix_refl _)) hunread herr

end Steps

/-- The same context, the same frames passed to `event_write` and the same write buffer and queue; and
the same bytes are unread, unless the same assertion has failed. -/
structure SameOutcome (c c' : Connection) : Prop where
  aborted : c'.aborted = c.aborted
  ctx : c'.world.ctx = c.world.ctx
  sent : sentBytes c'.world.log = sentBytes c.world.log
  write : c'.world.sock.write = c.world.sock.write
  unread : c.aborted = none → c'.unread = c.unread

/-- **Two ways of cutting a stream into reads come to the same**, if no error is raised in one of
them. -/
theorem sameOutcome_of_reads (server : Server) (pools : Pools) (r s : ℕ)
    {events events' : List ConnEvent}
    (hreads : (init pools r s).Reads server events) (hreads' : (init pools r s).Reads server events')
    (hstream : streamOf events' = streamOf events) (hpre : http2Preface <+: streamOf events)
    (hrest : (init pools r s).AtRest server events) (hrest' : (init pools r s).AtRest server events')
    (herr : errored ((init pools r s).run server events).world.log = false) :
    SameOutcome ((init pools r s).run server events) ((init pools r s).run server events') := by
  obtain ⟨ev, buf, w, hs, hd⟩ := digest_streamOf pools r s hreads hpre hrest herr
  -- the other run raises no error, since the stream does not
  have herr' : errored ((init pools r s).run server events').world.log = false := by
    refine ((follows_init server pools r s).run hreads' (by rw [hstream]; exact hpre)).not_errored ?_
    rw [List.nil_append, hstream, hd, ← herr, ← hs.errors]
    cases ((init pools r s).run server events).aborted <;> rfl
  obtain ⟨ev', buf', w', hs', hd'⟩ :=
    digest_streamOf pools r s hreads' (by rw [hstream]; exact hpre) hrest' herr'
  rw [hstream, hd] at hd'
  have hend : ((init pools r s).run server events').aborted =
      ((init pools r s).run server events).aborted ∧ w' = w ∧
      (((init pools r s).run server events).aborted = none →
        ((init pools r s).run server events').unread =
          ((init pools r s).run server events).unread) := by
    cases ha : ((init pools r s).run server events).aborted with
    | none =>
      cases ha' : ((init pools r s).run server events').aborted with
      | none =>
        simp only [ha, ha'] at hd'
        obtain ⟨hunread, hw⟩ := EStateM.Result.ok.inj hd'
        exact ⟨rfl, hw.symm, fun _ => hunread.symm⟩
      | some a => simp [ha, ha'] at hd'
    | some a =>
      cases ha' : ((init pools r s).run server events').aborted with
      | none => simp [ha, ha'] at hd'
      | some a' =>
        simp only [ha, ha'] at hd'
        obtain ⟨haborted, hw⟩ := EStateM.Result.error.inj hd'
        exact ⟨congrArg some haborted.symm, hw.symm, fun h => by cases h⟩
  obtain ⟨haborted, rfl, hunread⟩ := hend
  exact ⟨haborted, hs'.ctx.symm.trans hs.ctx, hs'.sent.symm.trans hs.sent,
    hs'.write.symm.trans hs.write, hunread⟩

end Connection

namespace Sample

/-- The preface, a SETTINGS frame, a PING frame, and two bytes of the next frame. -/
def pingStream : Bytes :=
  http2Preface ++ frame 4 0 0 [] ++ frame 6 0 0 (List.replicate 8 0) ++ [0, 0]

/-- The stream arrives at once. -/
def oneRead : List ConnEvent := [.recv pingStream, .pending, .pending, .pending, .pending]

/-- The stream is cut inside the preface, the header of the SETTINGS frame and the payload of the
PING frame. -/
def fourReads : List ConnEvent :=
  [.recv (pingStream.take 10), .pending, .recv ((pingStream.drop 10).take 20), .pending, .pending,
    .recv ((pingStream.drop 30).take 15), .pending, .pending, .recv (pingStream.drop 45), .pending,
    .pending]

end Sample

/-- The PING frame is answered, and two bytes remain. -/
theorem Connection.sameOutcome_pings :
    SameOutcome ((init ⟨[3, 4, 5, 6], [0, 1, 2, 3], 0⟩ 1 2).run .empty Sample.oneRead)
      ((init ⟨[3, 4, 5, 6], [0, 1, 2, 3], 0⟩ 1 2).run .empty Sample.fourReads) ∧
      (sentBytes ((init ⟨[3, 4, 5, 6], [0, 1, 2, 3], 0⟩ 1 2).run .empty Sample.oneRead).world.log).length =
        2 ∧
      ((init ⟨[3, 4, 5, 6], [0, 1, 2, 3], 0⟩ 1 2).run .empty Sample.oneRead).unread = [0, 0] := by
  refine ⟨sameOutcome_of_reads .empty _ 1 2 ?_ ?_ ?_ ?_ ⟨Sample.oneRead.dropLast, ?_, ?_⟩
    ⟨Sample.fourReads.dropLast, ?_, ?_⟩ ?_, ?_, ?_⟩ <;> decide +kernel

end Two
