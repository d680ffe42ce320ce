import Two.Event.Conservation
import Two.Event.Runs
import Two.Http2.Closed
import Two.Http2.Responses

/-!
# The assertions that can fail

Most assertions of `event.c` never fail: a client can be written to until it is closed, events never
run out, no timer is stopped that is not running, and no callback is missing. What this rests on is
kept by every step of every client, whatever the system answers.

## Main definitions

* `Sock.timersDue`: the timers of a socket, and those that are still to be started
* `Fitted`, `Equipped`: what the assertions rely on, for a socket and for the world of its client
* `EventLoop.Secured`: the same for all clients of a loop

## Main results

* `closed_equips`: every operation of the handlers keeps it
* `EventLoop.secured_run`: it holds between the steps of every run
* `EventLoop.failed_assertions`: only three assertions can fail
-/

namespace Two

open Program

/-! ## What the assertions rely on -/

/-- The timers of a socket that run, and those that are still to be started: by the callback of a
SETTINGS frame, or by the preface. -/
def Sock.timersDue (s : Sock) : ℕ :=
  s.timers.length + s.queue.countP (fun op => op.cb = .onSettingsSent) +
    if s.read.map EventRead.cb = some .waitingForPreface then 1 else 0

/-- A socket can be written to, its read buffer is open, and at most `n` timers run or are due. -/
structure Fitted (n : ℕ) (s : Sock) : Prop where
  enabled : s.write.isSome
  reading : ∀ e, s.read = some e → e.buf.ended = false
  timing : s.timersDue ≤ n

/-- The socket is fitted, and there are events left for its timers. -/
structure Equipped (n : ℕ) (w : World) : Prop extends Fitted n w.sock where
  supply : 3 ≤ w.loop.events.length + (EventLoop.sockEvents w.sock).length

/-- The assertions that do not depend on the client; `event_timer_stop` is treated apart. -/
def Tolerated (e : Assertion) : Prop :=
  e ≠ .writeNotEnabled ∧ e ≠ .noEvent ∧ e ≠ .nullCallback ∧ e ≠ .diverges

/-- A program leaves the world equipped, and fails no other assertion. -/
def Equips {α : Type} (m : M α) : Prop :=
  ∀ w, Equipped 1 w → wp m (fun _ => Equipped 1) (fun e _ => Tolerated e) w

section Equipment

variable {n : ℕ} {w w' : World}

theorem Fitted.mono {s : Sock} {k : ℕ} (h : Fitted n s) (hle : n ≤ k) : Fitted k s :=
  ⟨h.enabled, h.reading, h.timing.trans hle⟩

theorem Equipped.mono {k : ℕ} (h : Equipped n w) (hle : n ≤ k) : Equipped k w :=
  ⟨h.toFitted.mono hle, h.supply⟩

theorem Equipped.congr (h : Equipped n w) (hs : w'.sock = w.sock)
    (hl : w'.loop.events = w.loop.events) : Equipped n w' := by
  obtain ⟨hfit, hsupply⟩ := h
  rw [← hs] at hfit
  rw [← hs, ← hl] at hsupply
  exact ⟨hfit, hsupply⟩

/-- Reading is stopped, whether or not the buffer was open. -/
theorem readStop_equipped (he : w.sock.write.isSome) (ht : w.sock.timersDue ≤ n)
    (hs : 3 ≤ w.loop.events.length + (EventLoop.sockEvents w.sock).length) :
    Equipped n w.readStop := by
  cases hr : w.sock.read with
  | none =>
    have heq : w.readStop = w := by simp [World.readStop, hr]
    rw [heq]
    exact ⟨⟨he, by simp [hr], ht⟩, hs⟩
  | some e =>
    refine ⟨⟨by simpa using he, by simp, ?_⟩, ?_⟩
    · simp only [World.readStop, hr, Sock.timersDue, Sock.queue] at ht ⊢
      simp only [Option.map_none, reduceCtorEq, if_false]
      omega
    · simp only [World.readStop, hr, EventLoop.sockEvents, List.length_append, List.length_cons,
        Option.map_some, Option.map_none, Option.toList_some, Option.toList_none,
        List.length_nil] at hs ⊢
      omega

theorem close_equipped (h : Equipped n w) : Equipped n w.close := by
  obtain ⟨⟨he, hr, ht⟩, hs⟩ := h
  cases hw : w.sock.write with
  | none => simp [hw] at he
  | some e =>
    refine ⟨⟨by simp [World.close, hw], hr, ?_⟩, ?_⟩
    · simpa [World.close, Sock.timersDue, Sock.queue, hw] using ht
    · simpa [World.close, EventLoop.sockEvents, hw] using hs

theorem closeImmediate_equipped (he : w.sock.write.isSome) (ht : w.sock.timersDue ≤ n)
    (hs : 3 ≤ w.loop.events.length + (EventLoop.sockEvents w.sock).length) :
    Equipped n w.closeImmediate :=
  close_equipped (readStop_equipped he ht hs)

/-- A written frame may start a timer when it is sent. -/
theorem sendFrame_equipped (h : Equipped n w) (f : Frame) (cb : WriteCb) :
    wp (sendFrame f cb) (fun _ w' => Equipped (n + if cb = .onSettingsSent then 1 else 0) w' ∧
      w'.sock.read = w.sock.read) (fun e _ => Tolerated e) w := by
  obtain ⟨⟨he, hr, ht⟩, hs⟩ := h
  simp only [sendFrame, eventWrite, wp_bind, wp_record, wp_get, wp_ite, wp_throw,
    World.add_toState]
  refine ⟨fun _ => by simp [Tolerated], fun _ => ?_⟩
  cases hw : w.sock.write with
  | none => simp [hw] at he
  | some e =>
    simp only [wp_ite, wp_pure]
    refine ⟨fun _ => ?_, fun _ => ⟨⟨⟨he, hr, ht.trans (Nat.le_add_right _ _)⟩, hs⟩, rfl⟩⟩
    cases hl : w.loop.writes with
    | nil => simp [Tolerated]
    | cons op writes =>
      simp only [wp_bind, wp_set, wp_pure]
      refine ⟨?_, trivial⟩
      refine ⟨⟨rfl, hr, ?_⟩, ?_⟩
      · simp only [Sock.timersDue, Sock.queue, hw, Option.map_some, Option.getD_some,
          List.countP_append, List.countP_singleton, decide_eq_true_eq] at ht ⊢
        omega
      · simpa [EventLoop.sockEvents, hw] using hs

/-- The callback of a socket that is no longer waiting for the preface. -/
theorem eventRead_equipped {cb : ReadCb} (hcb : cb ≠ .waitingForPreface)
    (h : Equipped (n + if w.sock.read.map EventRead.cb = some .waitingForPreface then 1 else 0) w) :
    wp (eventRead cb) (fun _ => Equipped n) (fun e _ => Tolerated e) w := by
  obtain ⟨⟨he, hr, ht⟩, hs⟩ := h
  simp only [eventRead, wp_bind, wp_record, wp_get, wp_ite, wp_throw, World.add_toState]
  refine ⟨fun _ => by simp [Tolerated], fun _ => ?_⟩
  cases hread : w.sock.read with
  | none => simp [Tolerated]
  | some e =>
    refine ⟨⟨he, ?_, ?_⟩, ?_⟩
    · intro e' he'
      obtain rfl := Option.some.inj he'
      exact hr e hread
    · simp only [Sock.timersDue, hread, Option.map_some, Option.some.injEq, hcb, if_false] at ht ⊢
      change w.sock.timers.length + w.sock.queue.countP _ + 0 ≤ n
      omega
    · simpa [EventLoop.sockEvents, hread] using hs

/-- Only the running timers have changed. -/
theorem timersDue_timers (s : Sock) (timers : List ℕ) :
    ({ s with timers := timers } : Sock).timersDue + s.timers.length =
      s.timersDue + timers.length := by
  unfold Sock.timersDue
  change timers.length + s.queue.countP _ + (if s.read.map _ = _ then 1 else 0) + _ = _
  omega

/-- A timer that stops goes back to the pool. -/
theorem timerStop_equipped (h : Equipped n w) (id : ℕ) :
    Equipped n { w with
      sock.timers := w.sock.timers.erase id, loop.events := id :: w.loop.events } := by
  obtain ⟨⟨he, hr, ht⟩, hs⟩ := h
  have hle : (w.sock.timers.erase id).length ≤ w.sock.timers.length :=
    List.Sublist.length_le List.erase_sublist
  have hge : w.sock.timers.length ≤ (w.sock.timers.erase id).length + 1 := by
    rw [List.length_erase]
    split <;> omega
  refine ⟨⟨he, hr, ?_⟩, ?_⟩
  · have hdue := timersDue_timers w.sock (w.sock.timers.erase id)
    refine le_trans ?_ ht
    exact (Nat.add_le_add_iff_right ).mp
      (hdue.le.trans (Nat.add_le_add_left hle _))
  · simp only [EventLoop.sockEvents, List.length_append, List.length_cons] at hs ⊢
    omega

/-- A timer that starts takes an event of the pool. -/
theorem timerSet_equipped {id : ℕ} {events : List ℕ} (h : Equipped n w)
    (hev : w.loop.events = id :: events) :
    Equipped (n + 1) { w with loop.events := events, sock.timers := id :: w.sock.timers } := by
  obtain ⟨⟨he, hr, ht⟩, hs⟩ := h
  refine ⟨⟨he, hr, ?_⟩, ?_⟩
  · have hdue := timersDue_timers w.sock (id :: w.sock.timers)
    rw [List.length_cons, ← Nat.add_assoc, Nat.add_right_comm] at hdue
    exact (Nat.add_right_cancel hdue).le.trans (Nat.succ_le_succ ht)
  · rw [hev] at hs
    simp only [EventLoop.sockEvents, List.length_append, List.length_cons] at hs ⊢
    omega

end Equipment

/-! ## The handlers -/

section Handlers

variable {α β : Type} {w : World}

theorem equips_pure (a : α) : Equips (pure a : M α) := fun _ h => h

theorem Equips.bind {m : M α} {f : α → M β} (hm : Equips m) (hf : ∀ a, Equips (f a)) :
    Equips (m >>= f) := by
  intro w h
  rw [wp_bind]
  exact (hm w h).mono (fun a w' h' => hf a w' h') fun _ _ => id

/-- A change of the state that the socket and the events do not show. -/
theorem equips_modify {f : World → World} (hs : ∀ w, (f w).sock = w.sock)
    (hl : ∀ w, (f w).loop.events = w.loop.events) : Equips (modify f : M Unit) :=
  fun w h => h.congr (hs w) (hl w)

theorem equips_eventTimerStop (timer : Option ℕ) : Equips (eventTimerStop timer) := by
  cases timer with
  | none => exact equips_pure _
  | some id =>
    intro w h
    simp only [eventTimerStop, wp_bind, wp_get, wp_ite, wp_throw, wp_set]
    exact ⟨fun _ => by simp [Tolerated], fun _ => timerStop_equipped h id⟩

/-- The operations of the handlers keep a client equipped. -/
theorem closed_equips : Closed @Equips where
  pure := equips_pure
  bind := Equips.bind
  get := fun _ h => h
  record := fun _ => equips_modify (fun _ => rfl) fun _ => rfl
  modifyCtx := fun _ => equips_modify (fun _ => rfl) fun _ => rfl
  eventReadStop := fun _ h => readStop_equipped h.enabled h.timing h.supply
  eventClose := fun _ h => close_equipped h
  eventRead := fun _ hcb _ h => eventRead_equipped hcb (h.mono (Nat.le_add_right _ _))
  eventTimerStop := equips_eventTimerStop
  sendFrame := by
    intro f cb hcb _ w h
    refine (sendFrame_equipped h f cb).mono (fun _ w' h' => ?_) fun _ _ => id
    simpa [hcb] using h'.1

theorem equips_handlePingFrame (header : FrameHeader) (payload : Bytes) :
    Equips (handlePingFrame header payload) := by
  have hsend : Equips (sendPingFrame payload true .closeOnWriteError) := by
    intro w h
    exact (sendFrame_equipped h _ _).mono (fun _ _ h' => h'.1) fun _ _ => id
  exact Closed.ite (closed_equips.failWith _) (Closed.ite (closed_equips.failWith _)
    (Closed.ite (equips_pure _) (hsend.bind fun _ => equips_pure _)))

/-- The answer to a request: its headers can be encoded. -/
theorem equips_handleRequest {server : Server} (hserver : server.resources.Typed) (headers : HeaderList) :
    Equips (handleRequest server headers) := by
  intro w h
  simp only [handleRequest, sendHeadersFrame, wp_bind, wp_get, wp_set, wp_getCtx]
  have hres : (respond server headers w.ctx w.loop.calls).Typed := hserver.response _ _ _ _ _
  obtain ⟨⟨size, table, buffer⟩, hencode⟩ := Option.isSome_iff_exists.mp
    (encode_responseHeaders hres w.ctx.hpackDynamicTable .empty (frameMaxSize - 9))
  simp only [hencode, wp_bind, wp_modifyCtx, wp_ite, wp_pure]
  have hfail := fun w' (h' : Equipped 1 w') => closed_equips.failWith .internalError w' h'
  generalize hw₁ : World.onCtx _ _ = w₁
  have h₁ : Equipped 1 w₁ := hw₁ ▸ h.congr rfl rfl
  refine ⟨fun _ => ⟨fun _ => hfail _ h₁, fun _ => h₁⟩, fun _ => ?_⟩
  refine (sendFrame_equipped h₁ _ _).mono (fun n w' h' => ?_) fun _ _ => id
  exact ⟨fun _ => hfail _ h'.1, fun _ => h'.1⟩

/-- The preface makes the timer due: it was due for the callback before. -/
theorem waitingForPreface_equipped {e : EventRead} (hread : w.sock.read = some e)
    (hcb : e.cb = .waitingForPreface) (size : ℤ) (buf : Bytes) (h : Equipped 1 w) :
    wp (waitingForPreface size buf) (fun _ => Equipped 1) (fun e _ => Tolerated e) w := by
  have hclose : Equipped 1 w.closeImmediate := closed_equips.http2CloseImmediate w h
  simp only [waitingForPreface, sendSettingsFrame, wp_ite, wp_bind, wp_pure, wp_modifyCtx,
    wp_http2CloseImmediate]
  refine ⟨fun _ => hclose, fun _ => ⟨fun _ => h, fun _ => ⟨fun _ => hclose, fun _ => ?_⟩⟩⟩
  generalize hw₁ : World.onCtx w _ = w₁
  have h₁ : Equipped 1 w₁ := hw₁ ▸ h.congr rfl rfl
  have hr₁ : w₁.sock.read = some e := by rw [← hw₁, ← hread]; rfl
  refine (sendFrame_equipped h₁ _ _).mono (fun n w' h' => ?_) fun _ _ => id
  obtain ⟨h', hr'⟩ := h'
  apply eventRead_equipped (by decide)
  simpa [hr', hr₁, hcb] using h'

/-- Every read callback is called for the socket that waits for it. -/
theorem callReadCb_equipped {server : Server} (hserver : server.resources.Typed) {e : EventRead}
    (hread : w.sock.read = some e) (size : ℤ) (buf : Bytes) (h : Equipped 1 w) :
    wp (callReadCb server e.cb size buf) (fun _ => Equipped 1) (fun e _ => Tolerated e) w := by
  cases hcb : e.cb with
  | waitingForPreface => exact waitingForPreface_equipped hread hcb size buf h
  | waitingForSettings => exact closed_equips.waitingForSettings size buf w h
  | receiving =>
    exact closed_equips.receiving (equips_handleRequest hserver) equips_handlePingFrame size buf w h

/-- The events of a socket: its timers, and at most one each for reading and writing. -/
theorem length_sockEvents_le (s : Sock) :
    (EventLoop.sockEvents s).length ≤ s.timers.length + 2 := by
  unfold EventLoop.sockEvents
  cases s.write <;> cases s.read <;> simp

/-- There is an event for a timer that is due. -/
theorem onSettingsSent_equipped (status : ℤ) (h : Equipped 0 w) :
    wp (onSettingsSent status) (fun _ => Equipped 1) (fun e _ => Tolerated e) w := by
  simp only [onSettingsSent, eventTimerSet, wp_ite, wp_bind, wp_modifyCtx, wp_get,
    wp_http2CloseImmediate]
  refine ⟨fun _ => closed_equips.http2CloseImmediate w (h.mono (Nat.zero_le 1)), fun _ => ?_⟩
  have hnone : w.sock.timers.length = 0 := by
    have := h.timing
    unfold Sock.timersDue at this
    omega
  have hle := length_sockEvents_le w.sock
  have hs := h.supply
  cases hev : w.loop.events with
  | nil =>
    rw [hev, List.length_nil] at hs
    omega
  | cons id events =>
    simp only [World.onCtx_loop, hev, wp_bind, wp_set, wp_pure]
    exact (timerSet_equipped h hev).congr rfl rfl

theorem callWriteCb_equipped (cb : WriteCb) (status : ℤ)
    (h : Equipped (if cb = .onSettingsSent then 0 else 1) w) :
    wp (callWriteCb cb status) (fun _ => Equipped 1) (fun e _ => Tolerated e) w := by
  by_cases hcb : cb = .onSettingsSent
  · rw [if_pos hcb] at h
    subst hcb
    exact onSettingsSent_equipped status h
  · rw [if_neg hcb] at h
    exact closed_equips.callWriteCb hcb status w h

end Handlers

/-! ## The steps of the event loop -/

section Socket

variable {server : Server} {w : World}

/-- The callback of an operation that was taken from the queue. -/
theorem callOp_equipped (op : WriteOp) (status : ℤ)
    (h : Equipped (if op.cb = .onSettingsSent then 0 else 1) w) :
    wp (callOp op status) (fun _ => Equipped 1) (fun e _ => Tolerated e) w := by
  simp only [callOp, wp_bind, wp_record, wp_modify]
  generalize hw₁ : ({ w.add (.completed op status) with callback := op.stream } : World) = w₁
  have h₁ : Equipped (if op.cb = .onSettingsSent then 0 else 1) w₁ := hw₁ ▸ h.congr rfl rfl
  refine (callWriteCb_equipped op.cb status h₁).mono (fun _ w' h' => ?_) fun _ _ => id
  exact h'.congr rfl rfl

/-- A write event with another buffer and another queue, in which fewer timers are due. -/
theorem write_equipped {n k : ℕ} {e : EventWrite} (e' : EventWrite) (h : Equipped n w)
    (he : w.sock.write = some e) (hid : e'.id = e.id)
    (hq : e'.queue.countP (fun op => op.cb = .onSettingsSent) + n ≤
      e.queue.countP (fun op => op.cb = .onSettingsSent) + k) :
    Equipped k { w with sock.write := some e' } := by
  obtain ⟨⟨-, hr, ht⟩, hs⟩ := h
  refine ⟨⟨rfl, hr, ?_⟩, ?_⟩
  · simp only [Sock.timersDue, Sock.queue, he, Option.map_some, Option.getD_some] at ht ⊢
    omega
  · simpa [EventLoop.sockEvents, he, hid] using hs

/-- The operation at the head of the queue is taken. -/
theorem pop_equipped {e : EventWrite} (e' : EventWrite) {op : WriteOp} {queue : List WriteOp}
    (h : Equipped 1 w) (he : w.sock.write = some e) (hid : e'.id = e.id) (hq : e.queue = op :: queue)
    (hq' : e'.queue = queue) :
    Equipped (if op.cb = .onSettingsSent then 0 else 1) { w with sock.write := some e' } := by
  apply write_equipped e' h he hid
  rw [hq, hq', List.countP_cons]
  by_cases hcb : op.cb = .onSettingsSent <;> simp [hcb]

theorem equips_handleWriteLoop (fuel written : ℕ) : Equips (handleWriteLoop fuel written) := by
  induction fuel generalizing written with
  | zero => exact equips_pure _
  | succ fuel ih =>
    intro w h
    simp only [handleWriteLoop, wp_bind, wp_get]
    cases he : w.sock.write with
    | none => exact h
    | some e =>
      cases hq : e.queue with
      | nil => simpa only [hq, wp_pure] using h
      | cons op queue =>
        simp only [hq, wp_ite, wp_pure, wp_bind, wp_set, wp_modify]
        refine ⟨fun _ => h, fun _ => ⟨fun _ => ?_, fun _ => ?_⟩⟩
        -- the callback runs after its operation has left the queue
        · have hpop := pop_equipped { e with queue := queue } h he rfl hq rfl
          refine (callOp_equipped op 0 hpop).mono (fun _ w' h' => ?_) fun _ _ => id
          exact ih _ _ (h'.congr rfl rfl)
        · refine write_equipped { e with queue := _ :: queue } h he rfl ?_
          rw [hq, List.countP_cons, List.countP_cons]

theorem equips_eventSockWrite (written : ℕ) : Equips (eventSockWrite written) := by
  intro w h
  simp only [eventSockWrite, wp_bind, wp_get]
  cases he : w.sock.write with
  | none => exact h
  | some e =>
    simp only [wp_bind, wp_set]
    exact equips_handleWriteLoop _ _ _ (write_equipped _ h he rfl le_rfl)

theorem equips_dropQueue (op : Option WriteOp) : Equips (dropQueue op) := by
  intro w h
  simp only [dropQueue, wp_modify]
  cases he : w.sock.write with
  | none => simpa [he] using h.enabled
  | some e => exact (write_equipped { e with queue := [] } h he rfl (by simp)).congr rfl rfl

theorem equips_closeWrite (status : ℤ) (notified : Bool) : Equips (closeWrite status notified) := by
  intro w h
  simp only [closeWrite, wp_bind, wp_get]
  cases he : w.sock.write with
  | none => exact h
  | some e =>
    simp only [wp_bind, wp_set]
    generalize hw₁ : ({ w with sock.write := some _ } : World) = w₁
    cases hq : e.queue with
    | nil =>
      simp only [List.head?_nil, wp_pure]
      rw [← hw₁]
      refine write_equipped _ h he rfl ?_
      simp [hq]
    | cons op queue =>
      have hpop := pop_equipped { e with buf := { e.buf.finish with bytes := [] }, queue := queue }
        h he rfl hq rfl
      have h₁ : Equipped (if op.cb = .onSettingsSent then 0 else 1) w₁ := by
        rw [← hw₁, hq]
        exact hpop
      have hle : (if op.cb = .onSettingsSent then 0 else 1) ≤ 1 := by split <;> omega
      simp only [List.head?_cons, wp_bind, wp_ite, wp_pure]
      refine ⟨fun _ => equips_dropQueue _ _ (h₁.mono hle), fun _ => ?_⟩
      exact (callOp_equipped op status h₁).mono (fun _ w' h' => equips_dropQueue _ w' h')
        fun _ _ => id

/-- When a socket is closed its read buffer ends, but then reading stops. -/
theorem equips_eventSockClose {status : ℤ} (hs : status ≤ 0) : Equips (eventSockClose server status) := by
  intro w h
  simp only [eventSockClose, wp_bind, wp_get]
  cases hread : w.sock.read with
  | none => exact equips_closeWrite _ _ _ h
  | some e =>
    simp only [wp_bind, wp_set, callReadCb_closed hs, wp_http2CloseImmediate, wp_pure]
    apply equips_closeWrite
    obtain ⟨⟨he, -, ht⟩, hsupply⟩ := h
    refine closeImmediate_equipped he ?_ ?_
    · simpa only [Sock.timersDue, Sock.queue, hread, Option.map_some] using ht
    · simpa only [EventLoop.sockEvents, hread, Option.map_some] using hsupply

theorem equips_eventSockReadClosed {status : ℤ} (hs : status ≤ 0) :
    Equips (eventSockReadClosed server status) :=
  closed_equips.bind closed_equips.get fun _ => Closed.ite (equips_eventSockClose hs) (equips_pure _)

theorem equips_eventSockWriteError {status : ℤ} (hs : status ≤ 0) :
    Equips (eventSockWriteError server status) :=
  closed_equips.bind closed_equips.get fun _ => Closed.ite (equips_eventSockClose hs) (equips_pure _)

/-- The bytes in the read buffer have changed. -/
theorem equips_modifyRead {f : Fifo → Fifo} (hf : ∀ q, (f q).ended = q.ended) :
    Equips (modify fun w =>
      { w with sock.read := w.sock.read.map fun e => { e with buf := f e.buf } }) := by
  rintro w ⟨⟨he, hr, ht⟩, hs⟩
  refine ⟨⟨he, ?_, ?_⟩, ?_⟩
  · intro e' he'
    obtain ⟨e, hread, rfl⟩ := Option.map_eq_some_iff.mp he'
    rw [hf]
    exact hr e hread
  · simpa [Sock.timersDue, Sock.queue, Function.comp_def] using ht
  · simpa [EventLoop.sockEvents, Function.comp_def] using hs

theorem equips_eventSockRead (bytes : Bytes) : Equips (eventSockRead bytes) :=
  equips_modifyRead (f := fun q => q.push bytes) fun _ => rfl

theorem equips_eventSockHandleRead (hserver : server.resources.Typed) :
    Equips (eventSockHandleRead server) := by
  intro w h
  simp only [eventSockHandleRead, wp_bind, wp_get]
  cases hread : w.sock.read with
  | none => exact h
  | some e =>
    -- the buffer is open, so the callback is called once
    simp only [h.reading e hread, Bool.false_eq_true, if_false, wp_bind, wp_ite, wp_record,
      wp_modify, wp_pure]
    refine ⟨fun _ => ?_, fun _ => h⟩
    refine (callReadCb_equipped hserver hread _ _ h).mono (fun n w' h' => ?_) fun _ _ => id
    exact equips_modifyRead (f := fun q => q.pop n) (fun _ => rfl) _
      (h'.congr rfl rfl : Equipped 1 (w'.add fun _ => .consumed (e.buf.bytes.take n)))

theorem equips_eventSockTimer (id : ℕ) : Equips (eventSockTimer id) := by
  refine closed_equips.bind closed_equips.get fun w => Closed.ite ?_ (equips_pure _)
  refine closed_equips.bind ?_ fun _ w h => timerStop_equipped h id
  exact closed_equips.bind (closed_equips.http2Error _) fun _ => equips_pure _

end Socket

/-! ## Runs of the loop -/

namespace EventLoop

variable {server : Server} {l : EventLoop}

/-- What holds of a loop between its steps: every client is fitted, and what a refused connection
left behind has no events. -/
structure Secured (l : EventLoop) : Prop where
  clients : l.aborted = none → ∀ conn ∈ l.reserved, conn.client.isSome → Fitted 1 conn.sock
  refused : l.aborted = none → ∀ conn ∈ l.reserved, conn.client = none → conn.sock = refusedSock
  aborted : ∀ e, l.aborted = some e → Tolerated e

theorem Fitted.length_sockEvents_le {s : Sock} (h : Fitted 1 s) : (sockEvents s).length ≤ 3 := by
  have hle := Two.length_sockEvents_le s
  have htimers : s.timers.length ≤ 1 := le_trans (by unfold Sock.timersDue; omega) h.timing
  omega

/-- Every client uses at most three events. -/
theorem Secured.length_flatMap_le (h : Secured l) (ha : l.aborted = none) {conns : List Conn}
    (hsub : ∀ conn ∈ conns, conn ∈ l.reserved) :
    (conns.flatMap fun conn => sockEvents conn.sock).length ≤
      3 * (conns.flatMap fun conn => (conn.client.map Client.id).toList).length := by
  induction conns with
  | nil => simp
  | cons conn conns ih =>
    have hrest := ih fun c hc => hsub c (List.mem_cons_of_mem _ hc)
    have hmem := hsub conn List.mem_cons_self
    simp only [List.flatMap_cons, List.length_append]
    cases hcl : conn.client with
    | none =>
      have hsock : (sockEvents conn.sock).length = 0 := by rw [h.refused ha conn hmem hcl]; rfl
      simpa [hsock] using hrest
    | some client =>
      have hsock := Fitted.length_sockEvents_le (h.clients ha conn hmem (by simp [hcl]))
      simp only [Option.map_some, Option.toList_some, List.length_singleton]
      omega

/-- The events that are left, when one socket with a context is not counted. -/
theorem Kept.supply (hk : Kept l) (h : Secured l) (ha : l.aborted = none) {conn : Conn} {i : ℕ}
    (hi : l.reserved[i]? = some conn) (hcl : conn.client.isSome) :
    3 ≤ l.pools.events.length + (sockEvents conn.sock).length := by
  have hc := hk.conserved ha
  obtain ⟨pre, post, hres, -, -⟩ := split_at hi
  have hothers := @Secured.length_flatMap_le l h ha (pre ++ post) fun c hc => by
    rw [hres]
    simp only [List.mem_append, List.mem_cons] at hc ⊢
    tauto
  obtain ⟨client, hclient⟩ := Option.isSome_iff_exists.mp hcl
  have hevents := hc.events.length_eq
  have hclients := hc.clients.length_eq
  simp only [usedEvents, usedClients, hres, hclient, List.flatMap_append, List.flatMap_cons,
    List.length_append, List.length_drop, List.length_range, Option.map_some, Option.toList_some,
    List.length_singleton, eventMaxEvents, eventMaxSockets] at hevents hclients hothers
  omega

/-- While a context is free there are events for a client. -/
theorem Kept.two_le_events (hk : Kept l) (h : Secured l) (ha : l.aborted = none) {c : ℕ}
    {clients : List ℕ} (hfree : l.clients = c :: clients) : 2 ≤ l.pools.events.length := by
  have hc := hk.conserved ha
  have hused := @Secured.length_flatMap_le l h ha l.reserved fun _ => id
  have hevents := hc.events.length_eq
  have hclients := hc.clients.length_eq
  simp only [usedEvents, usedClients, hfree, List.length_append, List.length_cons,
    List.length_drop, List.length_range, eventMaxEvents, eventMaxSockets] at hevents hclients hused
  omega

theorem secured_init : Secured init := ⟨by simp [init], by simp [init], by simp [init]⟩

theorem fitted_newSock (r w : ℕ) : Fitted 1 (newSock r w) := by
  refine ⟨rfl, ?_, le_refl 1⟩
  rintro e he
  obtain rfl := Option.some.inj he
  rfl

theorem Secured.accept (h : Secured l) (hk : Kept l) (ha : l.aborted = none) (accepted : Bool) :
    Secured (l.accept accepted) := by
  unfold EventLoop.accept
  cases l.sockets with
  | nil => exact h
  | cons s sockets =>
    have hrefused : Secured { l with
        sockets := sockets, reserved := ⟨s, refusedSock, none⟩ :: l.reserved } := by
      refine ⟨fun _ conn hmem hcl => ?_, fun _ conn hmem hcl => ?_, h.aborted⟩
      · rcases List.mem_cons.mp hmem with rfl | hmem
        · simp at hcl
        · exact h.clients ha conn hmem hcl
      · rcases List.mem_cons.mp hmem with rfl | hmem
        · rfl
        · exact h.refused ha conn hmem hcl
    dsimp only
    split
    · exact hrefused
    · cases hfree : l.clients with
      | nil => simpa [hfree] using hrefused
      | cons c clients =>
        have hle := hk.two_le_events h ha hfree
        simp only
        split
        · refine ⟨fun _ conn hmem hcl => ?_, fun _ conn hmem hcl => ?_, h.aborted⟩
          · rcases List.mem_cons.mp hmem with rfl | hmem
            · exact fitted_newSock _ _
            · exact h.clients ha conn hmem hcl
          · rcases List.mem_cons.mp hmem with rfl | hmem
            · simp at hcl
            · exact h.refused ha conn hmem hcl
        -- two events are left, so the pool is not found empty
        · rename_i hnone
          match hev : l.pools.events with
          | [] | [_] => simp [hev] at hle
          | r :: w :: events => exact absurd hev (hnone r w events)

theorem Secured.close (h : Secured l) (ha : l.aborted = none) (i : ℕ) : Secured (l.close i) := by
  refine ⟨fun _ conn hmem hcl => ?_, fun _ conn hmem hcl => ?_, fun e he => ?_⟩
  · exact h.clients ha conn (mem_close hmem) hcl
  · exact h.refused ha conn (mem_close hmem) hcl
  · rw [aborted_close] at he
    exact h.aborted e he

theorem Secured.onConn (h : Secured l) (hk : Kept l) (ha : l.aborted = none) (i : ℕ) {m : M Unit}
    (hm : Equips m) : Secured (l.onConn i m) := by
  unfold EventLoop.onConn
  split
  · exact h
  · rename_i conn hi
    split
    · exact h
    · rename_i client hcl
      have hmem := List.mem_of_getElem? hi
      have hsome : conn.client.isSome := by simp [hcl]
      have hwp := hm (l.world conn.sock client)
        ⟨h.clients ha conn hmem hsome, hk.supply h ha hi hsome⟩
      split
      · rename_i w hrun
        simp only [wp, hrun] at hwp
        refine ⟨fun _ conn' hmem' hcl' => ?_, fun _ conn' hmem' hcl' => ?_, h.aborted⟩
        · rcases List.mem_or_eq_of_mem_set hmem' with hmem' | rfl
          · exact h.clients ha conn' hmem' hcl'
          · exact hwp.toFitted
        · rcases List.mem_or_eq_of_mem_set hmem' with hmem' | rfl
          · exact h.refused ha conn' hmem' hcl'
          · simp at hcl'
      · rename_i e w hrun
        simp only [wp, hrun] at hwp
        refine ⟨by simp, by simp, fun e' he' => ?_⟩
        obtain rfl : e = e' := by simpa using he'
        exact hwp

/-- A step runs a program that keeps a client equipped, or adds or removes a client. -/
theorem step_equips (hserver : server.resources.Typed) (l : EventLoop) (a : Action) :
    step server l a = l ∨ (∃ accepted, l.aborted = none ∧ step server l a = l.accept accepted) ∨
      (∃ i m, Equips m ∧ l.aborted = none ∧ step server l a = l.onConn i m) ∨
      ∃ i, l.aborted = none ∧ step server l a = l.close i := by
  have hif : ∀ {m : M Unit}, Equips m →
      Equips (do if (← get).sock.state = .connected then m else return ()) := fun hm =>
    closed_equips.bind closed_equips.get fun _ => Closed.ite hm (equips_pure _)
  unfold step
  split
  · exact .inl rfl
  have ha : l.aborted = none := by simpa using ‹¬ l.aborted.isSome = true›
  right
  cases a with
  | accept accepted => exact .inl ⟨accepted, ha, rfl⟩
  | recv i bytes => exact .inr (.inl ⟨i, _, hif (equips_eventSockRead bytes), ha, rfl⟩)
  | recvClosed i errno =>
    exact .inr (.inl ⟨i, _, hif (equips_eventSockReadClosed (by omega)), ha, rfl⟩)
  | pending i => exact .inr (.inl ⟨i, _, equips_eventSockHandleRead hserver, ha, rfl⟩)
  | send i written => exact .inr (.inl ⟨i, _, equips_eventSockWrite written, ha, rfl⟩)
  | sendError i errno =>
    exact .inr (.inl ⟨i, _, equips_eventSockWriteError (by omega), ha, rfl⟩)
  | timer i id => exact .inr (.inl ⟨i, _, equips_eventSockTimer id, ha, rfl⟩)
  | close i => exact .inr (.inr ⟨i, ha, rfl⟩)

/-- **Every client stays fitted.** -/
theorem secured_run (hserver : server.resources.Typed) (actions : List Action) :
    Secured (run server actions) := by
  induction actions using List.reverseRecOn with
  | nil => exact secured_init
  | append_singleton actions a ih =>
    have hk := @kept_run server actions
    rw [run_append_singleton]
    rcases step_equips hserver (run server actions) a with
      h | ⟨accepted, ha, h⟩ | ⟨i, m, hm, ha, h⟩ | ⟨i, ha, h⟩
    · rwa [h]
    · rw [h]
      exact ih.accept hk ha accepted
    · rw [h]
      exact ih.onConn hk ha i hm
    · rw [h]
      exact ih.close ha i

/-- **The assertions that can fail.** A server whose resources have registered content types, in
every run and whatever the system answers, fails no assertion but three: something is written to or
read from a socket that is closing, the callback of a socket is set that is not read any more, or
the pool of write operations is empty. -/
theorem failed_assertions (hserver : server.resources.Typed) (actions : List Action) {e : Assertion}
    (he : (run server actions).aborted = some e) :
    e = .notConnected ∨ e = .noReadEvent ∨ e = .noWriteOp := by
  obtain ⟨hwrite, hevent, hnull, hdiverges⟩ := (secured_run hserver actions).aborted e he
  have htimer : e ≠ .notTimer := by
    rintro rfl
    exact (@kept_run server actions).aborted he
  cases e with
  | notConnected => exact .inl rfl
  | noReadEvent => exact .inr (.inl rfl)
  | noWriteOp => exact .inr (.inr rfl)
  | writeNotEnabled => exact absurd rfl hwrite
  | noEvent => exact absurd rfl hevent
  | notTimer => exact absurd rfl htimer
  | nullCallback => exact absurd rfl hnull
  | diverges => exact absurd rfl hdiverges

/-- A client that is accepted and sends its preface, the frames `settings` and, after the handshake,
the frames `frames`. -/
def hostile (settings frames : Bytes) : List Action :=
  [.accept true, .recv 0 (http2Preface ++ settings), .pending 0, .pending 0, .send 0 45,
    .recv 0 frames, .pending 0]

/-- All three can fail: a client promises a stream and sends a PING, so that the settings timer
expires while the socket waits for the PING to be answered; it announces an invalid setting; or it
sends thirteen PINGs at once. -/
theorem failed_assertions_all :
    {e | ∃ actions, (run .empty actions).aborted = some e} =
      {.notConnected, .noReadEvent, .noWriteOp} := by
  ext e
  constructor
  · rintro ⟨actions, he⟩
    exact failed_assertions (by decide) actions he
  · rintro (rfl | rfl | rfl)
    · exact ⟨hostile [0, 0, 0, 4, 0, 0, 0, 0, 0] ([0, 0, 0, 5, 0, 0, 0, 0, 1] ++
        [0, 0, 8, 6, 0, 0, 0, 0, 0, 1, 2, 3, 4, 5, 6, 7, 8]) ++ [.send 0 17, .timer 0 3],
        by decide +kernel⟩
    · exact ⟨hostile [0, 0, 6, 4, 0, 0, 0, 0, 0, 0, 2, 0, 0, 0, 2] [], by decide +kernel⟩
    · exact ⟨hostile [0, 0, 0, 4, 0, 0, 0, 0, 0] (List.replicate 13
        [0, 0, 8, 6, 0, 0, 0, 0, 0, 1, 2, 3, 4, 5, 6, 7, 8]).flatten, by decide +kernel⟩

end EventLoop

end Two
