import Two.Http2.Simulation

/-!
# The event loop makes transitions

Every function of `event.c` that runs on a client socket, with the callbacks it calls, only makes
the transitions of `Transition`; where an assertion fails, the trace up to there is a beginning of
one that transitions explain.

## Main definitions

* `Transitions`: a sequence of transitions
* `Moves m w`: from `w`, the program `m` only makes transitions
* `Sane`, `Steady`: what the callbacks rely on, without and with graceful closes

## Main results

* `Transition.sane`: every transition keeps `Sane`
* `eventSockHandleRead_moves`, `eventSockWrite_moves`, `eventSockClose_moves`,
  `eventSockTimer_moves`: the steps of the event loop only make transitions
-/

namespace Two

open Program Relation

/-- A sequence of transitions. -/
abbrev Transitions : World → World → Prop := ReflTransGen (Transition true)

/-- The trace of `w'`, where an assertion failed, begins a trace that transitions from `w`
explain. -/
def Aborts (w w' : World) : Prop :=
  ∃ w₁ w₂, Transitions w w₁ ∧ (w₂ = w₁ ∨ Transition false w₁ w₂) ∧
    w₁.log <+: w'.log ∧ w'.log <+: w₂.log

/-- The program `m`, run in `w`, only makes transitions, counted from `w₀`. -/
def Moves {α : Type} (m : M α) (w₀ w : World) : Prop :=
  wp m (fun _ => Transitions w₀) (fun _ => Aborts w₀) w

/-- The states of a connection in which a read callback is active. -/
def ReadCb.states : ReadCb → List ConnState
  | waitingForPreface => [.waitingPreface]
  | waitingForSettings => [.waitingSettings]
  | receiving => [.ready, .closing]

/-- What the callbacks of a socket rely on: the state of the connection belongs to the read callback,
`HTTP2_FLAGS_GOAWAY_SENT`, which no code sets, is not set, no write callback is running, and only
connected sockets are read from. -/
structure Sane (w : World) : Prop where
  reading : ∀ e, w.sock.read = some e → w.ctx.state ∈ e.cb.states
  sent : w.ctx.flags.goawaySent = false
  idle : w.callback = none
  connected : w.sock.read.isSome → w.sock.state = .connected

/-- The part of `Sane` that also survives a graceful close, which leaves the handshake as it is. -/
structure Steady (w : World) : Prop where
  receiving : ∀ e, w.sock.read = some e → e.cb = .receiving →
    w.ctx.state = .ready ∨ w.ctx.state = .closing
  sent : w.ctx.flags.goawaySent = false
  idle : w.callback = none
  connected : w.sock.read.isSome → w.sock.state = .connected

theorem Sane.steady {w : World} (h : Sane w) : Steady w := by
  refine ⟨fun e he hcb => ?_, h.sent, h.idle, h.connected⟩
  simpa [hcb, ReadCb.states] using h.reading e he

section Steps

variable {w₀ w w' : World}

/-- A frame step keeps the state of the socket. -/
theorem FrameStep.sock_state {live : Bool} (h : FrameStep live w w') :
    w'.sock.state = w.sock.state := by
  cases h with
  | quiet _ hq => exact hq.sock
  | reset e id _ _ => by_cases hid : id = w.ctx.stream.id <;> simp [hid]
  | request w₁ t hs res hr _ => simp [hr.sock]
  | answer w₁ t hs res t' block hr _ _ _ => simp [hr.sock]
  | _ => simp

/-- Frame steps on a connected socket. -/
theorem FrameSteps.transitions (h : FrameSteps w w') (hc : w.sock.state = .connected) :
    Transitions w w' ∧ w'.sock.state = .connected := by
  induction h with
  | refl => exact ⟨.refl, hc⟩
  | tail _ hs ih => exact ⟨ih.1.tail (.frame _ _ hs (.inl ih.2)), hs.sock_state.trans ih.2⟩

theorem FrameAborts.aborts {w₁ : World} (h : Transitions w₀ w) (hc : w.sock.state = .connected)
    (ha : FrameAborts w w₁) : Aborts w₀ w₁ := by
  obtain ⟨u, v, hu, hv, hlog⟩ := ha
  obtain ⟨hsteps, hcu⟩ := FrameSteps.transitions hu hc
  exact ⟨u, v, ReflTransGen.trans h hsteps, hv.imp_right fun hs => .frame _ _ hs (.inl hcu), hlog⟩

theorem Aborts.of_step {w₂ : World} (h : Transitions w₀ w) (hs : Transition false w w₂)
    (hle : w.log <+: w'.log) (hlog : w'.log <+: w₂.log) : Aborts w₀ w' :=
  ⟨w, w₂, h, .inr hs, hle, hlog⟩

theorem Aborts.of_log (h : Transitions w₀ w) (hlog : w'.log = w.log) : Aborts w₀ w' :=
  ⟨w, w, h, .inl rfl, by simp [hlog], by simp [hlog]⟩

theorem Quiet.transition {live : Bool} (h : Quiet w w') : Transition live w w' :=
  .frame _ _ (.quiet _ _ h) (.inr (.inl h.log))

/-! ## What transitions keep -/

/-- A frame step keeps the read callback and the state of the connection, stops reading, or starts
to close a connection that is read by `receiving`. -/
theorem FrameStep.reading {live : Bool} (h : FrameStep live w w') :
    (w'.sock.read.map EventRead.cb = w.sock.read.map EventRead.cb ∧ w'.ctx.state = w.ctx.state) ∨
      w'.sock.read = none ∨
      (w'.sock.read.map EventRead.cb = w.sock.read.map (fun _ => .receiving) ∧
        w'.ctx.state = .closing) := by
  cases h with
  | error e hw => simp
  | quiet _ hq => exact .inl ⟨hq.read, hq.state⟩
  | goaway => simp [Function.comp_def]
  | reset e id _ _ => by_cases hid : id = w.ctx.stream.id <;> simp [hid]
  | setting id value c hc =>
    obtain ⟨_, _, _, rfl⟩ := applySetting_eq hc
    exact .inl ⟨rfl, rfl⟩
  | openStream => exact .inl ⟨rfl, rfl⟩
  | request w₁ t hs res hr _ => simp [hr.sock, hr.state]
  | answer w₁ t hs res t' block hr _ _ _ => simp [hr.sock, hr.state]
  | windowSend => simp [Context.advance]
  | _ => simp

/-- A frame step does not make another callback than `receiving` read. -/
theorem FrameStep.read_cb {live : Bool} (h : FrameStep live w w')
    (hr : ∀ e, w.sock.read = some e → e.cb = .receiving) :
    ∀ e, w'.sock.read = some e → e.cb = .receiving := by
  intro e he
  rcases h.reading with ⟨hcb, -⟩ | hnone | ⟨hcb, -⟩
  · rw [he, Option.map_some, eq_comm, Option.map_eq_some_iff] at hcb
    obtain ⟨e', he', hcb⟩ := hcb
    exact hcb ▸ hr e' he'
  · simp [hnone] at he
  · rw [he, Option.map_some, eq_comm, Option.map_eq_some_iff] at hcb
    obtain ⟨_, _, hcb⟩ := hcb
    exact hcb.symm

theorem FrameSteps.read_cb (h : FrameSteps w w')
    (hr : ∀ e, w.sock.read = some e → e.cb = .receiving) :
    ∀ e, w'.sock.read = some e → e.cb = .receiving := by
  induction h with
  | refl => exact hr
  | tail _ hs ih => exact hs.read_cb ih

theorem FrameStep.callback {live : Bool} (h : FrameStep live w w') : w'.callback = w.callback := by
  cases h with
  | quiet _ hq => exact hq.callback
  | request w₁ t hs res hr _ => simp [hr.callback]
  | answer w₁ t hs res t' block hr _ _ _ => simp [hr.callback]
  | _ => simp

/-- Where a frame step leaves the socket readable, it was readable before. -/
theorem FrameStep.read_isSome {live : Bool} (h : FrameStep live w w') (hr : w'.sock.read.isSome) :
    w.sock.read.isSome := by
  rcases h.reading with ⟨hcb, -⟩ | hnone | ⟨hcb, -⟩
  · simpa [hr] using (congrArg Option.isSome hcb).symm
  · simp [hnone] at hr
  · simpa [hr] using (congrArg Option.isSome hcb).symm

theorem FrameStep.sane {live : Bool} (h : FrameStep live w w') (hs : Sane w) : Sane w' := by
  refine ⟨fun e he => ?_, h.goawaySent.trans hs.sent, h.callback.trans hs.idle, fun hread => ?_⟩
  · rcases h.reading with ⟨hcb, hstate⟩ | hnone | ⟨hcb, hstate⟩
    · rw [he, Option.map_some, eq_comm, Option.map_eq_some_iff] at hcb
      obtain ⟨e', he', hcb⟩ := hcb
      rw [hstate, ← hcb]
      exact hs.reading e' he'
    · simp [hnone] at he
    · rw [he, Option.map_some, eq_comm, Option.map_eq_some_iff] at hcb
      obtain ⟨_, _, hcb⟩ := hcb
      simp [hstate, ← hcb, ReadCb.states]
  · rw [h.sock_state]
    exact hs.connected (h.read_isSome hread)

theorem FrameStep.steady {live : Bool} (h : FrameStep live w w') (hs : Steady w) : Steady w' := by
  refine ⟨fun e he hrec => ?_, h.goawaySent.trans hs.sent, h.callback.trans hs.idle,
    fun hread => h.sock_state.trans (hs.connected (h.read_isSome hread))⟩
  rcases h.reading with ⟨hcb, hstate⟩ | hnone | ⟨-, hstate⟩
  · rw [he, Option.map_some, eq_comm, Option.map_eq_some_iff] at hcb
    obtain ⟨e', he', hcb⟩ := hcb
    rw [hstate]
    exact hs.receiving e' he' (hcb.trans hrec)
  · simp [hnone] at he
  · exact .inr hstate

/-- A write callback keeps what is read and the state of the connection, or stops reading. -/
theorem Callback.reading {live : Bool} {cb : WriteCb} (h : Callback live cb w w') :
    (w'.sock.read = none ∨ (w'.sock.read.map EventRead.cb = w.sock.read.map EventRead.cb ∧
      w'.ctx.state = w.ctx.state ∧ w'.sock.state = w.sock.state)) ∧
        w'.ctx.flags.goawaySent = w.ctx.flags.goawaySent := by
  cases h with
  | settings _ _ hq =>
    have := congrArg Flags.goawaySent hq.flags
    exact ⟨.inr ⟨hq.read, hq.state, hq.sock⟩, this⟩
  | send _ hl hw => simp [Context.advance]
  | _ => simp

/-- Every transition keeps what the callbacks rely on. -/
theorem Transition.sane {live : Bool} (h : Transition live w w') (hs : Sane w) : Sane w' := by
  cases h with
  | frame _ h => exact h.sane hs
  | closeImmediate => exact ⟨by simp, by simpa using hs.sent, by simpa using hs.idle, by simp⟩
  | preface e hr hc hp hw =>
    exact ⟨by simp [hr, ReadCb.states], by simpa using hs.sent, by simpa using hs.idle,
      by simpa using hs.connected⟩
  | ready e h hh hr =>
    refine ⟨fun e he => ?_, by simpa using hs.sent, by simpa using hs.idle,
      by simpa using hs.connected⟩
    simp only [World.readied_read, Option.map_eq_some_iff] at he
    obtain ⟨_, _, rfl⟩ := he
    simp [ReadCb.states]
  | consume bytes n h =>
    refine ⟨fun e he => ?_, by simpa using hs.sent, by simpa using hs.idle,
      by simpa using hs.connected⟩
    simp only [World.consumed_read, Option.map_eq_some_iff] at he
    obtain ⟨e', he', rfl⟩ := he
    exact hs.reading e' he'
  | complete op rest w₁ hq hc =>
    -- a callback leaves the read event and the state, or stops reading
    obtain ⟨hread, hsent⟩ := hc.reading
    refine ⟨fun e he => ?_, hsent.trans hs.sent, rfl, fun hsome => ?_⟩
    · rw [World.returned_sock] at he
      rw [World.returned_ctx]
      rcases hread with hnone | ⟨hcb, hstate, -⟩
      · simp [hnone] at he
      · rw [he, Option.map_some, eq_comm, Option.map_eq_some_iff] at hcb
        obtain ⟨e', he', hcb⟩ := hcb
        rw [hstate, ← hcb]
        exact hs.reading e' he'
    · rw [World.returned_sock] at hsome ⊢
      rcases hread with hnone | ⟨hcb, -, hsock⟩
      · simp [hnone] at hsome
      · rw [hsock]
        refine hs.connected ?_
        simpa [hsome] using (congrArg Option.isSome hcb).symm
  | failed op rest status hq hneg => exact ⟨by simp, by simpa using hs.sent, rfl, by simp⟩
  | flush h => exact ⟨hs.reading, hs.sent, hs.idle, by simpa using hs.connected⟩

theorem Transition.steady {live : Bool} (h : Transition live w w') (hs : Steady w) : Steady w' := by
  cases h with
  | frame _ h => exact h.steady hs
  | closeImmediate => exact ⟨by simp, by simpa using hs.sent, by simpa using hs.idle, by simp⟩
  | preface e hr hc hp hw =>
    exact ⟨by simp [hr], by simpa using hs.sent, by simpa using hs.idle, by simpa using hs.connected⟩
  | ready e h hh hr =>
    exact ⟨by simp, by simpa using hs.sent, by simpa using hs.idle, by simpa using hs.connected⟩
  | consume bytes n h =>
    refine ⟨fun e he hcb => ?_, by simpa using hs.sent, by simpa using hs.idle,
      by simpa using hs.connected⟩
    simp only [World.consumed_read, Option.map_eq_some_iff] at he
    obtain ⟨e', he', rfl⟩ := he
    exact hs.receiving e' he' hcb
  | complete op rest w₁ hq hc =>
    obtain ⟨hread, hsent⟩ := hc.reading
    refine ⟨fun e he hrec => ?_, hsent.trans hs.sent, rfl, fun hsome => ?_⟩
    -- a completed write may have removed the reader or left it as it was
    · rw [World.returned_sock] at he
      rcases hread with hnone | ⟨hcb, hstate, -⟩
      · simp [hnone] at he
      · rw [he, Option.map_some, eq_comm, Option.map_eq_some_iff] at hcb
        obtain ⟨e', he', hcb⟩ := hcb
        rw [World.returned_ctx, hstate]
        exact hs.receiving e' he' (hcb.trans hrec)
    · rw [World.returned_sock] at hsome ⊢
      rcases hread with hnone | ⟨hcb, -, hsock⟩
      · simp [hnone] at hsome
      · rw [hsock]
        refine hs.connected ?_
        simpa [hsome] using (congrArg Option.isSome hcb).symm
  | failed op rest status hq hneg => exact ⟨by simp, by simpa using hs.sent, rfl, by simp⟩
  | flush h => exact ⟨hs.receiving, hs.sent, hs.idle, by simpa using hs.connected⟩

theorem Transitions.steady (h : Transitions w w') (hs : Steady w) : Steady w' := by
  induction h with
  | refl => exact hs
  | tail _ ht ih => exact ht.steady ih

theorem Transitions.sane (h : Transitions w w') (hs : Sane w) : Sane w' := by
  induction h with
  | refl => exact hs
  | tail _ ht ih => exact ht.sane ih

/-! ## Write callbacks -/

/-- The callback of a completed write. -/
theorem callWriteCb_wp {cb : WriteCb} {Q : Unit → World → Prop} {E : Assertion → World → Prop}
    (hQ : ∀ w', Callback true cb w w' → Q () w')
    (hE : ∀ e w' w₂, Callback false cb w w₂ → w.log <+: w'.log → w'.log <+: w₂.log → E e w') :
    wp (callWriteCb cb 0) Q E w := by
  cases cb with
  | closeOnWriteError => exact hQ _ (.writeError w)
  | closeOnGoawaySent => exact hQ _ (.goaway w)
  | onSettingsSent =>
    have hq : ∀ (t : Option ℕ) (l : List ℕ × List ℕ), Quiet w { w with
        ctx.flags.waitingSettingsAck := true
        ctx.timer := t
        sock.timers := l.1
        loop.events := l.2 } := fun _ _ => by constructor <;> rfl
    simp only [callWriteCb, onSettingsSent, eventTimerSet, Int.lt_irrefl, if_false, wp_bind,
      wp_modifyCtx, wp_get]
    cases he : (w.onCtx fun c => { c with flags.waitingSettingsAck := true }).loop.events with
    | nil =>
      -- the pool is empty: the callback aborts before the timer is set
      refine hE .noEvent (w.onCtx _) _ (.settings w _ (hq none ([], []))) ?_ ?_
      · exact List.prefix_refl _
      · exact List.prefix_refl _
    | cons id events => exact hQ _ (.settings w _ (hq (some id) (id :: w.sock.timers, events)))
  | onStreamSendComplete =>
    simp only [callWriteCb, onStreamSendComplete, Int.lt_irrefl, if_false, wp_bind, wp_getCtx,
      wp_ite, wp_setStreamState]
    refine ⟨fun hb => hQ _ (.done w hb), fun hb => http2ContinueSend_wp
      (fun hs => hQ _ (.idle w hb hs)) (fun hs hw => hQ _ (.send w hs fun _ => hw)) ?_⟩
    intro hs _ e w' hlog _
    exact hE e w' _ (.send w hs (by simp)) (by simp [hlog]) (hlog ▸ List.prefix_refl _)

/-- Every callback closes the connection when a write has failed. -/
theorem callWriteCb_neg {cb : WriteCb} {status : ℤ} (hs : status < 0) :
    callWriteCb cb status = http2CloseImmediate := by
  cases cb <;> simp [callWriteCb, closeOnWriteError, closeOnGoawaySent, onSettingsSent,
    onStreamSendComplete, hs]

theorem popped_eq {e : EventWrite} {op : WriteOp} {queue : List WriteOp}
    (he : w.sock.write = some e) (hq : e.queue = op :: queue) :
    w.popped = { w with sock.write := some { e with queue := queue } } := by
  simp [World.popped, World.onWrite, he, hq]

theorem Sock.queue_eq {s : Sock} {e : EventWrite} (he : s.write = some e) : s.queue = e.queue := by
  simp [Sock.queue, he]

/-- The loop over the queue of writes only makes transitions. -/
theorem handleWriteLoop_moves (fuel written : ℕ) {w : World} (h : Transitions w₀ w) :
    Moves (handleWriteLoop fuel written) w₀ w := by
  induction fuel generalizing written w with
  | zero => exact h
  | succ fuel ih =>
    simp only [Moves, handleWriteLoop, wp_bind, wp_get]
    cases he : w.sock.write with
    | none => exact h
    | some e =>
      dsimp only
      cases hq : e.queue with
      | nil => exact h
      | cons op queue =>
        have hqueue : w.sock.queue = op :: queue := (Sock.queue_eq he).trans hq
        simp only [wp_ite, wp_pure]
        refine ⟨fun _ => h, fun _ => ⟨fun _ => ?_, fun _ => ?_⟩⟩
        · simp only [callOp, wp_bind, wp_set, wp_record, wp_modify, ← popped_eq he hq]
          refine callWriteCb_wp (fun w' hc => ?_) fun _ w' w₂ hc hle hlog => ?_
          · exact ih _ (h.tail (.complete w op queue w' hqueue hc))
          · exact .of_step h (.complete w op queue w₂ hqueue hc) ((List.prefix_append _ _).trans hle) hlog
        · refine h.tail (Quiet.transition ?_)
          constructor <;> simp [he, hq, Sock.queue, Sock.unsent]

/-- `event_sock_write` only makes transitions. -/
theorem eventSockWrite_moves (written : ℕ) (h : Transitions w₀ w) :
    Moves (eventSockWrite written) w₀ w := by
  simp only [Moves, eventSockWrite, wp_bind, wp_get]
  cases he : w.sock.write with
  | none => exact h
  | some e =>
    simp only [wp_bind, wp_set]
    refine handleWriteLoop_moves _ _ (h.tail (Quiet.transition ?_))
    constructor <;> simp [he, Sock.queue, Sock.unsent, Fifo.pop, List.drop_suffix]

/-! ## Closing -/

/-- The write part of `event_sock_close`, once the read callback was called. -/
theorem closeWrite_notified (status : ℤ) (h : Transitions w₀ w) (hs : w.sock.state ≠ .connected) :
    Moves (closeWrite status true) w₀ w := by
  have hflush := h.tail (.flush w (.inl hs))
  simp only [Moves, closeWrite, wp_bind, wp_get]
  cases he : w.sock.write with
  | none =>
    exact h
  | some e =>
    simp only [wp_bind, wp_set]
    cases hq : e.queue with
    | nil => simpa [World.flushed, World.onWrite, he, Sock.queue, hq] using hflush
    | cons op queue =>
      simpa [World.flushed, World.onWrite, he, Sock.queue, hq, dropQueue] using hflush

/-- The write part of `event_sock_close` without a read callback, after an error. -/
theorem closeWrite_failed {status : ℤ} (h : Transitions w₀ w) (hs : status < 0) :
    Moves (closeWrite status false) w₀ w := by
  simp only [Moves, closeWrite, wp_bind, wp_get]
  cases he : w.sock.write with
  | none => exact h
  | some e =>
    simp only [wp_bind, wp_set]
    cases hq : e.queue with
    | nil =>
      have hflush := h.tail (.flush w (.inr ((Sock.queue_eq he).trans hq)))
      simpa [World.flushed, World.onWrite, he, Sock.queue, hq] using hflush
    | cons op queue =>
      -- The buffer is emptied before the callback is called.
      let w₁ := w.onWrite fun e => { e with buf := { e.buf.finish with bytes := [] } }
      have hquiet : Quiet w w₁ := by
        constructor <;> simp [w₁, Sock.queue, Sock.unsent, World.onWrite, he]
      have hq₁ : w₁.sock.queue = op :: queue := by simp [w₁, World.onWrite, Sock.queue, he, hq]
      have hfail := (h.tail hquiet.transition).tail (.failed w₁ op queue status hq₁ hs)
      simp only [List.head?_cons, List.tail_cons, callOp, callWriteCb_neg hs, wp_bind, dropQueue,
        Bool.false_eq_true, if_false, wp_record, wp_modify, wp_http2CloseImmediate]
      convert hfail using 1
      cases hr : w.sock.read with
      | none => simp [World.dropped, World.flushed, World.returned, World.closeImmediate, World.calling, World.close,
          World.readStop, World.onWrite, World.popped, World.streamTo, World.add, World.onCtx, w₁, he, hq, hr, Sock.queue, Fifo.finish]
      | some r => simp [World.dropped, World.flushed, World.returned, World.closeImmediate, World.calling, World.close,
          World.readStop, World.onWrite, World.popped, World.streamTo, World.add, World.onCtx, w₁, he, hq, hr, Sock.queue, Fifo.finish]

/-- The read callbacks close the connection when the socket was closed. -/
theorem callReadCb_closed {server : Server} {cb : ReadCb} {size : ℤ} {buf : Bytes}
    (hs : size ≤ 0) : callReadCb server cb size buf = do
      http2CloseImmediate
      return 0 := by
  cases cb <;> simp [callReadCb, waitingForPreface, waitingForSettings, receiving, hs]

/-- `event_sock_close` only makes transitions. -/
theorem eventSockClose_moves {server : Server} {status : ℤ} (h : Transitions w₀ w)
    (hs : status ≤ 0) (hr : w.sock.read.isSome ∨ status < 0) :
    Moves (eventSockClose server status) w₀ w := by
  simp only [Moves, eventSockClose, wp_bind, wp_get]
  cases he : w.sock.read with
  | none => exact closeWrite_failed h (by simpa [he] using hr)
  | some e =>
    simp only [wp_bind, wp_set, callReadCb_closed hs, wp_http2CloseImmediate, wp_pure]
    have hquiet : Quiet w { w with sock.read := some { e with buf := e.buf.finish } } := by
      constructor <;> simp [he, Sock.queue, Sock.unsent]
    exact closeWrite_notified status ((h.tail hquiet.transition).tail (.closeImmediate _)) (by simp)

theorem eventSockReadClosed_moves {server : Server} {status : ℤ} (h : Transitions w₀ w)
    (hs : status ≤ 0) : Moves (eventSockReadClosed server status) w₀ w := by
  simp only [Moves, eventSockReadClosed, wp_bind, wp_get, wp_ite, wp_pure]
  exact ⟨fun hr => eventSockClose_moves h hs (.inl hr), fun _ => h⟩

theorem eventSockWriteError_moves {server : Server} {status : ℤ} (h : Transitions w₀ w)
    (hs : status < 0) : Moves (eventSockWriteError server status) w₀ w := by
  simp only [Moves, eventSockWriteError, wp_bind, wp_get, wp_ite, wp_pure]
  exact ⟨fun _ => eventSockClose_moves h hs.le (.inr hs), fun _ => h⟩

/-- `event_sock_read` only changes the read buffer. -/
theorem eventSockRead_moves (bytes : Bytes) (h : Transitions w₀ w) :
    Moves (eventSockRead bytes) w₀ w := by
  simp only [Moves, eventSockRead, wp_modify]
  refine h.tail (Quiet.transition ?_)
  constructor <;> simp [Sock.queue, Sock.unsent, Function.comp_def]

/-- A timer that is due makes an error. -/
theorem eventSockTimer_moves (id : ℕ) (h : Transitions w₀ w) : Moves (eventSockTimer id) w₀ w := by
  simp only [Moves, eventSockTimer, onSettingsTimeout, wp_bind, wp_get, wp_ite, wp_pure, wp_modify]
  refine ⟨fun _ => http2Error_wp (fun hw => ?_) fun _ _ w' hlog _ => ?_, fun _ => h⟩
  · refine (h.tail (.frame _ _ (.error w .settingsTimeout fun _ => hw) (.inr (.inr rfl)))).tail
      (Quiet.transition ?_)
    constructor <;> simp [Sock.queue, Sock.unsent]
  · exact .of_step h (.frame _ _ (.error w .settingsTimeout (by simp)) (.inr (.inr rfl)))
      (by simp [hlog]) (by simp [hlog])

/-! ## Reading -/

/-- `update_settings` refuses exactly the parameters that are not acceptable. -/
theorem applySetting_error {c : Context} {id value : ℕ} {e : Http2Error}
    (h : applySetting c id value = .error e) : ¬ acceptable id value := by
  unfold applySetting at h
  split at h
  · cases h
  · split at h
    · rename_i hv
      intro ha
      have := ha.1 rfl
      omega
    · cases h
  · cases h
  · split at h
    · rename_i hv
      intro ha
      have := ha.2.1 rfl
      omega
    · split at h
      · dsimp only at h
        split at h
        · rename_i hv
          -- the sum is an `int32_t`, so this error is never raised
          obtain ⟨hpos, hbig⟩ := hv
          unfold int32 at hpos hbig
          omega
        · cases h
      · cases h
  · split at h
    · rename_i hv
      intro ha
      have := ha.2.2 rfl
      omega
    · cases h
  · cases h
  · cases h

/-- What a run of `update_settings` leaves: reading goes on unless there was an error, which needs a
parameter that is not acceptable. -/
structure SettingsRead (parameters : List (ℕ × ℕ)) (w w' : World) : Prop where
  read : w'.sock.read = w.sock.read ∨ w'.sock.read = none
  log : ∃ after, w'.log = w.log ++ after ∧ ((∀ p ∈ parameters, acceptable p.1 p.2) →
    w'.sock.read = w.sock.read ∧ ∀ x ∈ after, ∀ code s, x ≠ .error code s)

theorem updateSettingsLoop_read (parameters : List (ℕ × ℕ)) (total : ℕ) :
    wp (updateSettingsLoop parameters total) (fun _ w' => SettingsRead parameters w w')
      (fun _ _ => True) w := by
  induction parameters generalizing total w with
  | nil => exact ⟨.inl rfl, [], by simp, by simp⟩
  | cons p parameters ih =>
    obtain ⟨id, value⟩ := p
    simp only [updateSettingsLoop, wp_bind, wp_getCtx]
    cases ha : applySetting w.ctx id value with
    | error e =>
      simp only [wp_bind, wp_pure]
      refine http2Error_wp (fun _ => ⟨.inr (by simp), _, World.fail_log w e, fun hall => ?_⟩)
        fun _ _ _ _ _ => trivial
      exact absurd (hall _ List.mem_cons_self) (applySetting_error ha)
    | ok c =>
      simp only [wp_bind, wp_record, wp_modifyCtx]
      refine (ih _).mono (fun _ w' h => ?_) fun _ _ _ => trivial
      obtain ⟨after, hlog, hok⟩ := h.log
      refine ⟨h.read, .setting id value w.toState :: after, ?_, fun hall => ?_⟩
      · rw [hlog]
        simp
      · obtain ⟨hread, hnone⟩ := hok fun p hp => hall p (List.mem_cons_of_mem _ hp)
        exact ⟨hread, by simpa using hnone⟩

/-- `handle_settings_frame` on a frame that is not an acknowledgment. -/
theorem handleSettingsFrame_read {header : FrameHeader} {payload : Bytes}
    (hack : header.has frameFlagsAck = false) :
    wp (handleSettingsFrame header payload)
      (fun rc w' => (rc < 0 → w'.sock.read = none) ∧ (¬ rc < 0 → header.streamId = 0 ∧
        header.length % 6 = 0 ∧ SettingsRead (settingsParameters payload header.length) w w'))
      (fun _ _ => True) w := by
  -- an error stops the reading
  have hfail : ∀ e, wp (failWith e) (fun rc w' => (rc < 0 → w'.sock.read = none) ∧
      (¬ rc < 0 → header.streamId = 0 ∧ header.length % 6 = 0 ∧
        SettingsRead (settingsParameters payload header.length) w w')) (fun _ _ => True) w := by
    intro e
    simp only [failWith, wp_bind, wp_pure]
    exact http2Error_wp (fun _ => by simp) fun _ _ _ _ _ => trivial
  simp only [handleSettingsFrame, hack, updateSettings, sendSettingsFrame, wp_ite, wp_bind, wp_pure,
    Bool.not_false, if_true]
  refine ⟨fun _ => hfail _, fun hid => ⟨fun _ => hfail _, fun hlen => ?_⟩⟩
  have hid := not_not.mp hid
  have hlen := not_not.mp hlen
  refine (updateSettingsLoop_read _ 0).mono (fun total w' h => ⟨fun _ => ?_, fun _ => ?_⟩)
    fun _ _ => id
  · refine sendFrame_wp (fun _ _ => ⟨by simp, fun _ => ⟨hid, hlen, ?_⟩⟩) fun _ _ _ _ _ => trivial
    -- the parameters, and the acknowledgment behind them
    obtain ⟨after, hlog, hok⟩ := h.log
    refine ⟨by simpa using h.read, after ++ [.send .settingsAck w'.toState], ?_, fun hall => ?_⟩
    · simp [hlog]
    · refine ⟨by simpa using (hok hall).1, fun x hx code s => ?_⟩
      rcases List.mem_append.mp hx with hx | hx
      · exact (hok hall).2 x hx code s
      · simp [List.mem_singleton.mp hx]
  · exact ⟨by simp, fun _ => ⟨hid, hlen, h⟩⟩

/-- A read callback with the consumption of what it has read. -/
def ReadMoves (m : M ℕ) (bytes : Bytes) (w₀ w : World) : Prop :=
  wp m (fun n w' => Transitions w₀ (w'.consumed bytes n)) (fun _ => Aborts w₀) w

theorem closed_readMoves (h : Transitions w₀ w) (bytes : Bytes) (n : ℕ) :
    ReadMoves (do http2CloseImmediate; return n) bytes w₀ w := by
  simp only [ReadMoves, wp_bind, wp_http2CloseImmediate, wp_pure]
  exact (h.tail (.closeImmediate w)).tail (.consume _ _ _ (by simp))

theorem waiting_readMoves (h : Transitions w₀ w) (bytes : Bytes) :
    ReadMoves (return 0) bytes w₀ w := by
  simp only [ReadMoves, wp_pure]
  exact h.tail (.consume _ _ _ (by simp))

theorem error_readMoves {e : Http2Error} (h : Transitions w₀ w) (hc : w.sock.state = .connected)
    (bytes : Bytes) (n : ℕ) :
    ReadMoves (do http2Error e; return n) bytes w₀ w := by
  simp only [ReadMoves, wp_bind, wp_pure]
  refine http2Error_wp (fun hw => ?_) fun _ _ w' hlog _ => ?_
  · exact (h.tail (.frame _ _ (.error w e fun _ => hw) (.inl hc))).tail (.consume _ _ _ (by simp))
  · exact .of_step h (.frame _ _ (.error w e (by simp)) (.inl hc)) (by simp [hlog]) (by simp [hlog])

theorem waitingForPreface_moves {e : EventRead} (h : Transitions w₀ w) (he : w.sock.read = some e)
    (hcb : e.cb = .waitingForPreface) :
    ReadMoves (waitingForPreface e.buf.bytes.length e.buf.bytes) e.buf.bytes w₀ w := by
  simp only [ReadMoves, waitingForPreface]
  simp only [wp_ite]
  refine ⟨fun _ => closed_readMoves h _ _, fun _ => ⟨fun _ => waiting_readMoves h _, fun _ =>
    ⟨fun _ => closed_readMoves h _ _, fun hp => ?_⟩⟩⟩
  have habort := @Transition.preface false w e he hcb (not_not.mp hp) (by simp)
  simp only [sendSettingsFrame, wp_bind, wp_modifyCtx]
  refine sendFrame_wp (fun hw _ => eventRead_wp (fun _ => ?_) fun _ w' hlog => ?_)
    fun _ _ w' hlog _ => ?_
  · exact h.tail (.preface w e he hcb (not_not.mp hp) fun _ => ⟨hw.connected, hw.enabled, hw.pool⟩)
  · refine .of_step h habort (by simp [hlog]) ?_
    rw [hlog]
    exact List.prefix_append _ _
  · refine .of_step h habort (by simp [hlog]) ?_
    rw [hlog]
    simp

theorem waitingForSettings_moves {e : EventRead} (h : Transitions w₀ w)
    (hc : w.sock.state = .connected) (he : w.sock.read = some e) (hcb : e.cb = .waitingForSettings) :
    ReadMoves (waitingForSettings e.buf.bytes.length e.buf.bytes) e.buf.bytes w₀ w := by
  simp only [ReadMoves, waitingForSettings, wp_ite]
  refine ⟨fun _ => closed_readMoves h _ _, fun _ => ⟨fun _ => waiting_readMoves h _, fun _ =>
    ⟨fun _ => ?_, fun hheader => ⟨fun _ => waiting_readMoves h _, fun hwhole => ?_⟩⟩⟩⟩
  -- another frame is an error
  · simp only [wp_bind, wp_record]
    have := h.tail (.frame _ _ (.frame w (frameParseHeader e.buf.bytes)
      (e.buf.bytes.drop http2FrameHeaderSize)) (.inl hc))
    have := @error_readMoves _ _ .protocolError this hc e.buf.bytes
      (http2FrameHeaderSize + (frameParseHeader e.buf.bytes).length)
    simpa only [ReadMoves, wp_bind] using this
  -- a whole SETTINGS frame is handled, which is a sequence of steps
  · generalize hh : frameParseHeader e.buf.bytes = header at hheader hwhole
    simp only [not_or, not_not] at hheader
    obtain ⟨htype, hflags⟩ := hheader
    have hack : header.has frameFlagsAck = false := by simp [FrameHeader.has, hflags]
    simp only [wp_bind, wp_record]
    generalize hpay : List.drop http2FrameHeaderSize e.buf.bytes = payload
    have hframe := h.tail (.frame _ _ (.frame w header payload) (.inl hc))
    have hsim : Simulates (handleSettingsFrame header payload) _ (w.add (.frame header payload)) :=
      handleSettingsFrame_simulates .refl
    replace hsim := hsim.and (handleSettingsFrame_read hack)
    refine hsim.mono (fun rc w' hdone => ?_) fun _ _ ha => FrameAborts.aborts hframe hc ha.1
    obtain ⟨hsteps, hneg, hpos⟩ := hdone
    have hmoves := ReflTransGen.trans hframe (FrameSteps.transitions hsteps hc).1
    simp only [wp_ite, wp_pure, wp_bind, wp_record, wp_modifyCtx]
    refine ⟨fun hrc => hmoves.tail (.consume _ _ _ (by simp [hneg hrc])), fun hrc => ?_⟩
    obtain ⟨hid, hlen, hread, after, hlog, hok⟩ := hpos hrc
    -- the connection becomes ready once the frame was handled without error
    have hhandled : SettingsHandled w' e header := by
      refine ⟨hcb, hh.symm, htype, hflags, hid, hlen, ?_, w.log, w.toState, after, ?_, he, ?_⟩
      · have := Int.not_lt.mp hwhole
        have : (http2FrameHeaderSize : ℤ) = 9 := rfl
        omega
      · rw [hlog]
        simp [← hpay, http2FrameHeaderSize]
      · intro hacc
        obtain ⟨hsame, hnone⟩ := hok (by rw [← hpay]; exact hacc)
        exact ⟨hsame.trans he, hnone⟩
    refine eventRead_wp (fun hsome => ?_) fun _ w'' hlog' => ?_
    · refine hmoves.tail (.ready w' e header hhandled fun _ => ?_)
      -- the read event is the same, or reading has stopped
      rcases hread with hread | hread
      · rw [hread]
        exact he
      · simp [hread] at hsome
    · refine .of_step hmoves (.ready w' e header hhandled (by simp)) (by simp [hlog']) ?_
      rw [hlog']
      exact List.prefix_append _ _

theorem receiving_moves {server : Server} {e : EventRead} (h : Transitions w₀ w) (hs : Steady w)
    (he : w.sock.read = some e) (hcb : e.cb = .receiving) :
    ReadMoves (receiving server e.buf.bytes.length e.buf.bytes) e.buf.bytes w₀ w := by
  simp only [ReadMoves, receiving, wp_ite]
  refine ⟨fun _ => closed_readMoves h _ _, fun _ => ?_⟩
  have hc : w.sock.state = .connected := hs.connected (by simp [he])
  have halive : Alive w := ⟨hs.receiving e he hcb, hs.sent⟩
  refine (receivingLoop_simulates _ 0 _ .refl halive).mono (fun n w' hsteps => ?_)
    fun _ _ => FrameAborts.aborts h hc
  have hcb' := FrameSteps.read_cb hsteps fun e' he' => by
    rw [he] at he'
    cases he'
    exact hcb
  refine (ReflTransGen.trans h (FrameSteps.transitions hsteps hc).1).tail (.consume _ _ _ ?_)
  exact fun e' he' hne => absurd (hcb' e' he') hne

/-- The end of the input is reported to the read callback, which closes the connection. -/
theorem notifyEnd_moves (h : Transitions w₀ w) (server : Server) (ended : Bool) :
    Moves (if ended then do
        let w ← get
        match w.sock.read with
        | none => throw .nullCallback
        | some e =>
          let _ ← callReadCb server e.cb (-1) []
      else return ()) w₀ w := by
  simp only [Moves, wp_ite, wp_bind, wp_get, wp_pure]
  refine ⟨fun _ => ?_, fun _ => h⟩
  cases he : w.sock.read with
  | none => exact .of_log h rfl
  | some e =>
    simp only [wp_bind, callReadCb_closed (Int.neg_nonpos_of_nonneg Int.one_nonneg),
      wp_http2CloseImmediate, wp_pure]
    exact h.tail (.closeImmediate w)

/-- `event_sock_handle_read` only makes transitions. -/
theorem eventSockHandleRead_moves {server : Server} (h : Transitions w₀ w) (hs : Steady w) :
    Moves (eventSockHandleRead server) w₀ w := by
  simp only [Moves, eventSockHandleRead, wp_bind, wp_get]
  cases he : w.sock.read with
  | none => exact h
  | some e =>
    have hread : ReadMoves (callReadCb server e.cb e.buf.bytes.length e.buf.bytes)
        e.buf.bytes w₀ w := by
      cases hcb : e.cb with
      | waitingForPreface => exact waitingForPreface_moves h he hcb
      | waitingForSettings =>
        exact waitingForSettings_moves h (hs.connected (by simp [he])) he hcb
      | receiving => exact receiving_moves h hs he hcb
    simp only [wp_bind, wp_ite, wp_record, wp_modify]
    refine ⟨fun _ => hread.mono (fun n w' h' => ?_) fun _ _ => id, fun _ => ?_⟩
    · have := notifyEnd_moves h' server e.buf.ended
      simp only [Moves, wp_ite, wp_bind] at this
      exact this
    · have := notifyEnd_moves h server e.buf.ended
      simp only [Moves, wp_ite, wp_bind] at this
      exact this

end Steps

end Two
