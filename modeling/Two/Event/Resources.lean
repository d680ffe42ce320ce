import Two.Event.Loop
import Two.Library.Hoare
import Mathlib.Logic.Relation
import Mathlib.Data.List.Perm.Basic
import Mathlib.Data.List.Nodup

/-!
# Events and operations of a socket

What the functions of `event.c` and `http2.c` do to the lists of events and of write operations, as a
sequence of the moves between the lists that the macros of `ll.h` make, and the validity of the timer
that a connection waits on for the acknowledgment of its settings.

## Main definitions

* `Lists`, `Shuffle`: the lists of a socket and the pools, and one move between them
* `TimerValid`: a connection that waits for an acknowledgment has a running timer
* `Sound`: a program only shuffles the lists and keeps the timer valid

## Main results

* `sound_callReadCb`, `sound_callWriteCb`: the callbacks of `http2.c` are sound
* `sound_eventSockHandleRead`, `sound_eventSockWrite`, `sound_eventSockTimer`, …: the steps of
  `event.c` are sound
-/

namespace Two

open Program Relation

/-! ## Lists -/

/-- The free events, the events of a socket, the free write operations, the write queue of the
socket, and the operations that were taken from the queue. -/
structure Lists where
  events : List ℕ
  sockEvents : List ℕ
  writes : List ℕ
  queue : List ℕ
  held : List ℕ

/-- One move between the lists. -/
inductive Shuffle : Lists → Lists → Prop
  /-- `LL_MOVEP(loop->events, sock->events)`. -/
  | take (e ev se wr q hd) : Shuffle ⟨e :: ev, se, wr, q, hd⟩ ⟨ev, e :: se, wr, q, hd⟩
  /-- `LL_DELETE(event, sock->events)` and `LL_PUSH(event, loop->events)`. -/
  | release (e ev se wr q hd) (he : e ∈ se) :
    Shuffle ⟨ev, se, wr, q, hd⟩ ⟨e :: ev, se.erase e, wr, q, hd⟩
  /-- `LL_MOVE(loop->writes, queue)`. -/
  | enqueue (op ev se wr q hd) : Shuffle ⟨ev, se, op :: wr, q, hd⟩ ⟨ev, se, wr, q ++ [op], hd⟩
  /-- `LL_POP(queue)`. -/
  | pop (op ev se wr q hd) : Shuffle ⟨ev, se, wr, op :: q, hd⟩ ⟨ev, se, wr, q, op :: hd⟩
  /-- `LL_PUSH(op, loop->writes)`. -/
  | free (op ev se wr q hd) : Shuffle ⟨ev, se, wr, q, op :: hd⟩ ⟨ev, se, op :: wr, q, hd⟩

/-- The lists of a world, while the operations `held` are in no list. -/
def World.lists (w : World) (held : List ℕ) : Lists :=
  ⟨w.loop.events, EventLoop.sockEvents w.sock, w.loop.writes, w.sock.queue.map WriteOp.id, held⟩

/-- The lists of a world are shuffled, whatever is held meanwhile. -/
def Shuffles (w w' : World) : Prop :=
  ∀ held, ReflTransGen Shuffle (w.lists held) (w'.lists held)

section Lists

variable {w w' w₁ : World}

theorem Shuffles.refl (w : World) : Shuffles w w := fun _ => .refl

theorem Shuffles.trans (h : Shuffles w w₁) (h' : Shuffles w₁ w') : Shuffles w w' :=
  fun held => (h held).trans (h' held)

theorem Shuffles.of_eq (h : ∀ held, w'.lists held = w.lists held) : Shuffles w w' :=
  fun held => h held ▸ .refl

theorem Shuffle.events_perm {x y : Lists} (h : Shuffle x y) :
    (y.events ++ y.sockEvents).Perm (x.events ++ x.sockEvents) := by
  cases h with
  | take e ev se => exact List.perm_middle
  | release e ev se wr q hd he =>
    exact List.perm_middle.symm.trans ((List.perm_cons_erase he).symm.append_left ev)
  | _ => exact .refl _

theorem Shuffle.writes_perm {x y : Lists} (h : Shuffle x y) :
    (y.writes ++ y.queue ++ y.held).Perm (x.writes ++ x.queue ++ x.held) := by
  cases h with
  | enqueue op ev se wr q hd =>
    refine List.Perm.append_right hd ?_
    rw [← List.append_assoc]
    exact List.perm_append_singleton op _
  | pop op ev se wr q hd =>
    simp only [List.append_assoc, List.cons_append]
    exact List.Perm.append_left wr List.perm_middle
  | free op ev se wr q hd =>
    simp only [List.append_assoc, List.cons_append]
    rw [← List.append_assoc, ← List.append_assoc]
    exact List.perm_middle.symm
  | _ => exact .refl _

theorem Shuffles.events_perm (h : Shuffles w w') :
    (w'.loop.events ++ EventLoop.sockEvents w'.sock).Perm
      (w.loop.events ++ EventLoop.sockEvents w.sock) := by
  have key : ∀ {x y : Lists}, ReflTransGen Shuffle x y →
      (y.events ++ y.sockEvents).Perm (x.events ++ x.sockEvents) := by
    intro x y hxy
    induction hxy with
    | refl => exact .refl _
    | tail _ hs ih => exact hs.events_perm.trans ih
  exact key (h [])

theorem Shuffles.writes_perm (h : Shuffles w w') :
    (w'.loop.writes ++ w'.sock.queue.map WriteOp.id).Perm
      (w.loop.writes ++ w.sock.queue.map WriteOp.id) := by
  have key : ∀ {x y : Lists}, ReflTransGen Shuffle x y →
      (y.writes ++ y.queue ++ y.held).Perm (x.writes ++ x.queue ++ x.held) := by
    intro x y hxy
    induction hxy with
    | refl => exact .refl _
    | tail _ hs ih => exact hs.writes_perm.trans ih
  simpa [World.lists] using key (h [])

end Lists

/-! ## Sound programs -/

/-- A connection that waits for the acknowledgment of its settings has a timer that is among the
timers of its socket. -/
def TimerValid (s : State) : Prop :=
  s.ctx.flags.waitingSettingsAck = true → ∃ id, s.ctx.timer = some id ∧ id ∈ s.sock.timers

/-- Whenever a frame was handled, the timer was valid and no event was in two lists. -/
def FramesTimed (log : List Entry) : Prop :=
  ∀ h region s, Entry.frame h region s ∈ log →
    TimerValid s ∧ (s.loop.events ++ EventLoop.sockEvents s.sock).Nodup

/-- What sound programs keep. -/
structure Good (w : World) : Prop where
  timer : TimerValid w.toState
  distinct : (w.loop.events ++ EventLoop.sockEvents w.sock).Nodup
  frames : FramesTimed w.log

/-- A program that only shuffles the lists and keeps the timer valid; it stops no event that is not
a timer. -/
def Sound {α : Type} (m : M α) : Prop :=
  ∀ w, Good w → wp m (fun _ w' => Good w' ∧ Shuffles w w')
    (fun e w' => e ≠ .notTimer ∧ FramesTimed w'.log) w

section Rules

variable {α β : Type} {w w' : World}

theorem sound_pure (a : α) : Sound (pure a : M α) := fun w hw => ⟨hw, .refl w⟩

theorem Sound.bind {m : M α} {f : α → M β} (hm : Sound m) (hf : ∀ a, Sound (f a)) :
    Sound (m >>= f) := by
  intro w hw
  rw [wp_bind]
  refine (hm w hw).mono (fun a w₁ h₁ => ?_) fun e w₁ h₁ => h₁
  exact (hf a w₁ h₁.1).mono (fun b w₂ h₂ => ⟨h₂.1, h₁.2.trans h₂.2⟩) fun e w₂ h₂ => h₂

theorem Sound.ite {c : Prop} [Decidable c] {m n : M α} (hm : Sound m) (hn : Sound n) :
    Sound (if c then m else n) := by
  split
  · exact hm
  · exact hn

/-- A change of the state is sound if it is on every good state. -/
theorem sound_modify {f : World → World} (h : ∀ w, Good w → Good (f w) ∧ Shuffles w (f w)) :
    Sound (modify f : M Unit) := fun w hw => h w hw

theorem sound_get : Sound (get : M World) := fun w hw => ⟨hw, .refl w⟩

theorem sound_getCtx : Sound getCtx := sound_get.bind fun _ => sound_pure _

theorem sound_throw {e : Assertion} (he : e ≠ .notTimer) : Sound (throw e : M α) :=
  fun _ hw => ⟨he, hw.frames⟩

/-- Good worlds with the same lists, and a timer that is no less valid. -/
theorem Good.of_lists (hw : Good w) (hl : ∀ held, w'.lists held = w.lists held)
    (ht : TimerValid w'.toState) (hf : FramesTimed w'.log) : Good w' ∧ Shuffles w w' := by
  have hs : Shuffles w w' := .of_eq hl
  exact ⟨⟨ht, hs.events_perm.nodup_iff.mpr hw.distinct, hf⟩, hs⟩

theorem FramesTimed.append {log new : List Entry} (h : FramesTimed log)
    (hn : FramesTimed new) : FramesTimed (log ++ new) := by
  intro hd region s hmem
  rcases List.mem_append.mp hmem with hmem | hmem
  · exact h hd region s hmem
  · exact hn hd region s hmem

theorem sound_record {e : State → Entry} (he : ∀ s h region s', e s = .frame h region s' → s' = s) :
    Sound (record e) := by
  refine sound_modify fun w hw => hw.of_lists (fun _ => rfl) hw.timer (hw.frames.append ?_)
  intro h region s hmem
  obtain heq := List.mem_singleton.mp hmem
  rw [he _ _ _ _ heq.symm]
  exact ⟨hw.timer, hw.distinct⟩

/-- A change of the context is sound if it does not start to wait and does not lose the timer. -/
theorem sound_modifyCtx {f : Context → Context}
    (hf : ∀ c, (f c).flags.waitingSettingsAck = true →
      c.flags.waitingSettingsAck = true ∧ (f c).timer = c.timer) : Sound (modifyCtx f) := by
  refine sound_modify fun w hw => hw.of_lists (fun _ => rfl) (fun hflag => ?_) hw.frames
  obtain ⟨h1, h2⟩ := hf w.ctx hflag
  obtain ⟨id, hid, hmem⟩ := hw.timer h1
  exact ⟨id, h2.trans hid, hmem⟩

end Rules

/-! ## Event operations -/

section Operations

variable {w : World}

theorem Good.readStop (hw : Good w) : Good w.readStop ∧ Shuffles w w.readStop := by
  cases hr : w.sock.read with
  | none =>
    have : w.readStop = w := by simp [World.readStop, hr]
    rw [this]
    exact ⟨hw, .refl w⟩
  | some e =>
    -- the read event is the last of the list, and stands nowhere else in it
    have hlist : EventLoop.sockEvents w.sock =
        w.sock.timers ++ (w.sock.write.map EventWrite.id).toList ++ [e.id] := by
      simp [EventLoop.sockEvents, hr]
    have hnot : e.id ∉ w.sock.timers ++ (w.sock.write.map EventWrite.id).toList := by
      have hd := (List.nodup_append.mp hw.distinct).2.1
      rw [hlist] at hd
      intro hmem
      exact (List.nodup_append.mp hd).2.2 _ hmem _ (List.mem_singleton.mpr rfl) rfl
    have hs : Shuffles w w.readStop := by
      intro held
      refine .single ?_
      have := Shuffle.release e.id w.loop.events (EventLoop.sockEvents w.sock) w.loop.writes
        (w.sock.queue.map WriteOp.id) held (by simp [hlist])
      rw [hlist, List.erase_append_right _ hnot, List.erase_cons_head, List.append_nil] at this
      simpa [World.lists, World.readStop, hr, EventLoop.sockEvents, Sock.queue] using this
    refine ⟨⟨?_, hs.events_perm.nodup_iff.mpr hw.distinct, ?_⟩, hs⟩
    · have hctx : w.readStop.ctx = w.ctx := by simp [World.readStop, hr]
      have htimers : w.readStop.sock.timers = w.sock.timers := by simp [World.readStop, hr]
      rw [TimerValid, hctx, htimers]
      exact hw.timer
    · simpa [World.readStop, hr] using hw.frames

theorem sound_eventReadStop : Sound eventReadStop := sound_modify fun _ hw => hw.readStop

theorem sound_eventRead (cb : ReadCb) : Sound (eventRead cb) := by
  refine (sound_record (by simp)).bind fun _ => ?_
  intro w hw
  simp only [wp_bind, wp_get, wp_ite, wp_throw]
  refine ⟨fun _ => ⟨by simp, hw.frames⟩, fun _ => ?_⟩
  cases hr : w.sock.read with
  | none => exact ⟨by simp, hw.frames⟩
  | some e =>
    simp only [wp_set]
    refine hw.of_lists (fun _ => ?_) hw.timer hw.frames
    simp [World.lists, EventLoop.sockEvents, Sock.queue, hr]

theorem sound_eventClose : Sound eventClose := by
  refine sound_modify fun w hw => hw.of_lists (fun _ => ?_) hw.timer hw.frames
  cases hwr : w.sock.write <;> simp [World.lists, World.close, EventLoop.sockEvents, Sock.queue, hwr]

theorem sound_eventWrite (bytes : Bytes) (cb : WriteCb) (stream : Option ℕ) :
    Sound (eventWrite bytes cb stream) := by
  intro w hw
  simp only [eventWrite, wp_bind, wp_get, wp_ite, wp_throw]
  refine ⟨fun _ => ⟨by simp, hw.frames⟩, fun _ => ?_⟩
  cases hwr : w.sock.write with
  | none => exact ⟨by simp, hw.frames⟩
  | some e =>
    simp only [wp_ite]
    refine ⟨fun _ => ?_, fun _ => ⟨hw, .refl w⟩⟩
    cases hpool : w.loop.writes with
    | nil =>
      simp only [wp_bind, wp_set, wp_throw]
      exact ⟨by simp, hw.frames⟩
    | cons op writes =>
      simp only [wp_bind, wp_set, wp_pure]
      -- the operation goes from the pool into the queue
      have hs : Shuffles w { w with
          sock.write := some { e with
            buf := e.buf.push bytes
            queue := e.queue ++ [⟨op, e.buf.pushed bytes, cb, stream⟩] }
          loop.writes := writes } := by
        intro held
        refine .single ?_
        have := Shuffle.enqueue op w.loop.events (EventLoop.sockEvents w.sock) writes
          (w.sock.queue.map WriteOp.id) held
        simpa [World.lists, EventLoop.sockEvents, Sock.queue, hwr, hpool] using this
      exact ⟨⟨hw.timer, hs.events_perm.nodup_iff.mpr hw.distinct, hw.frames⟩, hs⟩

theorem sound_sendFrame (f : Frame) (cb : WriteCb) : Sound (sendFrame f cb) :=
  (sound_record (by simp)).bind fun _ => sound_eventWrite _ _ _

theorem sound_sendHeadersFrame (headers : HeaderList) (streamId : ℕ) (endStream : Bool)
    (cb : WriteCb) : Sound (sendHeadersFrame headers streamId endStream cb) := by
  refine sound_getCtx.bind fun c => ?_
  split
  · exact sound_throw (by simp)
  · refine Sound.bind (sound_modifyCtx fun c h => ⟨h, rfl⟩) fun _ => ?_
    exact Sound.ite (sound_pure _) ((sound_sendFrame _ _).bind fun _ => sound_pure _)

end Operations

/-! ## Handlers -/

theorem sound_setStreamState (new : StreamState) : Sound (setStreamState new) :=
  Sound.bind (sound_record (by simp)) fun _ => sound_modifyCtx fun _ h => ⟨h, rfl⟩

theorem sound_http2CloseImmediate : Sound http2CloseImmediate :=
  Sound.bind (sound_modifyCtx fun _ h => ⟨h, rfl⟩) fun _ =>
    Sound.bind (sound_setStreamState _) fun _ =>
      Sound.bind sound_eventReadStop fun _ => sound_eventClose

/-- `http2_error` also stops to wait. -/
theorem sound_http2Error (e : Http2Error) : Sound (http2Error e) :=
  Sound.bind (sound_record (by simp)) fun _ =>
    Sound.bind (sound_modifyCtx fun _ h => by simp [Flags.keepGoawaySent, Flags.none] at h)
      fun _ => Sound.bind sound_eventReadStop fun _ => Sound.bind sound_getCtx fun _ =>
        Sound.bind (sound_sendFrame _ _) fun _ => sound_pure _

theorem sound_failWith (e : Http2Error) : Sound (failWith e) :=
  Sound.bind (sound_http2Error e) fun _ => sound_pure _

theorem sound_http2StreamError (id : ℕ) (e : Http2Error) : Sound (http2StreamError id e) :=
  Sound.bind (sound_sendFrame _ _) fun _ => Sound.bind (sound_record (by simp)) fun _ =>
    Sound.bind sound_getCtx fun _ => Sound.ite (sound_setStreamState _) (sound_pure _)

/-- `on_settings_sent` starts the timer it waits on. -/
theorem sound_onSettingsSent (status : ℤ) : Sound (onSettingsSent status) := by
  refine Sound.ite sound_http2CloseImmediate ?_
  intro w hw
  simp only [modifyCtx, eventTimerSet, wp_bind, wp_modify, wp_get]
  cases hpool : w.loop.events with
  | nil =>
    simp only [World.onCtx, hpool, wp_throw]
    exact ⟨by simp, hw.frames⟩
  | cons id events =>
    simp only [World.onCtx, hpool, wp_bind, wp_set, wp_pure]
    -- the timer takes the first pooled event: one identifier changes lists, none appears
    obtain ⟨w', hw'⟩ : ∃ w', w' = ({ w with
        loop.events := events
        sock.timers := id :: w.sock.timers
        ctx := { w.ctx with flags.waitingSettingsAck := true, timer := some id } } : World) :=
      ⟨_, rfl⟩
    have hs : Shuffles w w' := by
      intro held
      refine .single ?_
      have := Shuffle.take id events (EventLoop.sockEvents w.sock) w.loop.writes
        (w.sock.queue.map WriteOp.id) held
      simpa [World.lists, EventLoop.sockEvents, Sock.queue, hpool, hw'] using this
    have hgood : Good w' := by
      refine ⟨fun _ => ⟨id, by simp [hw'], by simp [hw']⟩,
        hs.events_perm.nodup_iff.mpr hw.distinct, ?_⟩
      rw [hw']
      exact hw.frames
    exact hw' ▸ ⟨hgood, hs⟩

/-- `update_settings` does not touch the flags and the timer. -/
theorem applySetting_timer {c c' : Context} {id value : ℕ} (h : applySetting c id value = .ok c') :
    c'.flags = c.flags ∧ c'.timer = c.timer := by
  unfold applySetting at h
  split at h
  case h_2 | h_5 =>
    split at h
    · cases h
    · cases h
      exact ⟨rfl, rfl⟩
  case h_4 =>
    split at h
    · cases h
    · split at h
      · dsimp only at h
        split at h
        · cases h
        · cases h
          exact ⟨rfl, rfl⟩
      · cases h
        exact ⟨rfl, rfl⟩
  all_goals
    cases h
    exact ⟨rfl, rfl⟩

theorem sound_updateSettingsLoop (parameters : List (ℕ × ℕ)) (total : ℕ) :
    Sound (updateSettingsLoop parameters total) := by
  induction parameters generalizing total with
  | nil => exact sound_pure _
  | cons p parameters ih =>
    intro w hw
    simp only [updateSettingsLoop, getCtx, wp_bind, wp_get, wp_pure]
    cases happly : applySetting w.ctx p.1 p.2 with
    | error e => exact Sound.bind (sound_http2Error e) (fun _ => sound_pure 0) w hw
    | ok c =>
      obtain ⟨hflags, htimer⟩ := applySetting_timer happly
      -- the context is replaced by one with the same flags and the same timer
      obtain ⟨w₁, hw₁⟩ : ∃ w₁, w₁ = (w.add (.setting p.1 p.2)).onCtx fun _ => c := ⟨_, rfl⟩
      have h₁ : Good w₁ ∧ Shuffles w w₁ := by
        refine hw.of_lists (fun _ => by rw [hw₁]; rfl) ?_ ?_
        · rw [hw₁, TimerValid]
          simp only [World.onCtx, World.add, hflags, htimer]
          exact hw.timer
        · rw [hw₁]
          exact hw.frames.append (by simp [FramesTimed])
      simp only [record, modifyCtx, wp_bind, wp_modify, ← hw₁]
      exact (ih _ w₁ h₁.1).mono (fun _ w₂ h₂ => ⟨h₂.1, h₁.2.trans h₂.2⟩) fun _ _ h₂ => h₂

/-- The timer of a connection that waits for an acknowledgment can be stopped. -/
theorem Good.timerStop {w : World} (hw : Good w) {id : ℕ} (hid : id ∈ w.sock.timers) {c : Context}
    (hc : c.flags.waitingSettingsAck = false) :
    (w.sock.read.map EventRead.id ≠ some id ∧ w.sock.write.map EventWrite.id ≠ some id) ∧
      Good { w with
        ctx := c, sock.timers := w.sock.timers.erase id, loop.events := id :: w.loop.events } ∧
      Shuffles w { w with
        ctx := c, sock.timers := w.sock.timers.erase id, loop.events := id :: w.loop.events } := by
  -- the identifier is a timer, so neither the read nor the write event can hold it
  have hd := (List.nodup_append.mp hw.distinct).2.1
  rw [EventLoop.sockEvents, List.append_assoc, List.nodup_append] at hd
  obtain ⟨-, -, hdisj⟩ := hd
  have hs : Shuffles w { w with
      ctx := c, sock.timers := w.sock.timers.erase id, loop.events := id :: w.loop.events } := by
    intro held
    refine .single ?_
    have hrel := Shuffle.release id w.loop.events (EventLoop.sockEvents w.sock) w.loop.writes
      (w.sock.queue.map WriteOp.id) held (by simp [EventLoop.sockEvents, hid])
    rw [EventLoop.sockEvents, List.append_assoc, List.erase_append_left _ hid] at hrel
    simpa [World.lists, EventLoop.sockEvents, Sock.queue] using hrel
  refine ⟨⟨?_, ?_⟩, ⟨?_, hs.events_perm.nodup_iff.mpr hw.distinct, hw.frames⟩, hs⟩
  · intro hr
    exact hdisj id hid id (by simp [hr]) rfl
  · intro hr
    exact hdisj id hid id (by simp [hr]) rfl
  · intro hflag
    simp [hc] at hflag

/-- An acknowledgment stops the timer, once. -/
theorem sound_handleSettingsFrame (header : FrameHeader) (payload : Bytes) :
    Sound (handleSettingsFrame header payload) := by
  refine Sound.ite (sound_failWith _) (Sound.ite ?_ ?_)
  · refine Sound.ite (sound_failWith _) (Sound.bind (sound_updateSettingsLoop _ _) fun _ => ?_)
    exact Sound.ite (Sound.bind (sound_sendFrame _ _) fun _ => sound_pure _) (sound_pure _)
  · refine Sound.ite (sound_failWith _) ?_
    intro w hw
    simp only [getCtx, modifyCtx, wp_bind, wp_get, wp_pure, wp_ite, wp_modify]
    refine ⟨fun _ => ⟨hw, .refl w⟩, fun hflag => ?_⟩
    obtain ⟨id, htimer, hid⟩ := hw.timer (by simpa using hflag)
    obtain ⟨⟨hr, hwr⟩, hgood, hs⟩ := hw.timerStop hid
      (c := { w.ctx with flags.waitingSettingsAck := false, timer := none }) rfl
    simp only [htimer, eventTimerStop, wp_bind, wp_get, wp_ite, wp_throw, wp_set, World.onCtx]
    refine ⟨fun hbad => ?_, fun _ => ⟨hgood, hs⟩⟩
    rcases hbad with hbad | hbad
    · exact absurd hbad hr
    · exact absurd hbad hwr

theorem sound_handleGoawayFrame (header : FrameHeader) (payload : Bytes) :
    Sound (handleGoawayFrame header payload) := by
  refine Sound.ite (sound_failWith _) (Sound.ite (sound_failWith _) (Sound.bind sound_getCtx fun c => ?_))
  refine Sound.ite (Sound.bind sound_http2CloseImmediate fun _ => sound_pure _)
    (Sound.ite (sound_pure _) ?_)
  refine Sound.bind (sound_modifyCtx fun _ h => ⟨h, rfl⟩) fun _ => ?_
  refine Sound.bind (Sound.ite (sound_setStreamState _) (sound_pure _)) fun _ => ?_
  refine Sound.bind (sound_modifyCtx fun _ h => ⟨h, rfl⟩) fun _ => ?_
  exact Sound.bind (sound_eventRead _) fun _ => Sound.bind (sound_sendFrame _ _) fun _ => sound_pure _

theorem sound_handlePingFrame (header : FrameHeader) (payload : Bytes) :
    Sound (handlePingFrame header payload) :=
  Sound.ite (sound_failWith _) (Sound.ite (sound_failWith _) (Sound.ite (sound_pure _)
    (Sound.bind (sound_sendFrame _ _) fun _ => sound_pure _)))

theorem sound_http2ContinueSend : Sound http2ContinueSend :=
  Sound.bind sound_getCtx fun _ => Sound.ite (sound_pure _)
    (Sound.bind (sound_sendFrame _ _) fun _ => sound_modifyCtx fun _ h => ⟨h, rfl⟩)

theorem sound_onStreamSendComplete (status : ℤ) : Sound (onStreamSendComplete status) :=
  Sound.ite sound_http2CloseImmediate (Sound.bind sound_getCtx fun _ =>
    Sound.ite (sound_setStreamState _) sound_http2ContinueSend)

theorem sound_handleWindowUpdateFrame (header : FrameHeader) (payload : Bytes) :
    Sound (handleWindowUpdateFrame header payload) := by
  refine Sound.bind sound_getCtx fun c => ?_
  refine Sound.ite (sound_failWith _) (Sound.ite (sound_failWith _) (Sound.ite (sound_failWith _) ?_))
  refine Sound.ite (sound_failWith _) (Sound.ite (Sound.ite (sound_failWith _) ?_) (Sound.ite ?_ ?_))
  · exact Sound.bind (sound_record (by simp)) fun _ =>
      Sound.bind (sound_modifyCtx fun _ h => ⟨h, rfl⟩) fun _ => sound_pure _
  · exact Sound.bind (sound_http2StreamError _ _) fun _ => sound_pure _
  · exact Sound.bind (sound_record (by simp)) fun _ =>
      Sound.bind (sound_modifyCtx fun _ h => ⟨h, rfl⟩) fun _ =>
        Sound.bind sound_http2ContinueSend fun _ => sound_pure _

section Requests

variable (server : Server)

theorem sound_handleRequest (headers : HeaderList) : Sound (handleRequest server headers) := by
  intro w hw
  simp only [handleRequest, wp_bind, wp_get, wp_set]
  obtain ⟨w₁, hw₁⟩ : ∃ w₁, w₁ = ({ w with
      loop.calls := w.loop.calls + 1
      ctx.stream.buf := (respond server headers w.ctx w.loop.calls).content
      ctx.stream.buflen := (respond server headers w.ctx w.loop.calls).contentLength
      log := w.log ++ [Entry.request w.ctx.stream.id headers
        (respond server headers w.ctx w.loop.calls).body] } : World) := ⟨_, rfl⟩
  have h₁ : Good w₁ ∧ Shuffles w w₁ := by
    refine hw.of_lists (fun _ => by rw [hw₁]; rfl) ?_ ?_
    · rw [hw₁]
      exact hw.timer
    · rw [hw₁]
      exact hw.frames.append (by simp [FramesTimed])
  rw [← hw₁, ← wp_bind]
  refine (Sound.bind (sound_sendHeadersFrame _ _ _ _) (fun _ => ?_) w₁ h₁.1).mono
    (fun _ w₂ h₂ => ⟨h₂.1, h₁.2.trans h₂.2⟩) fun _ _ h₂ => h₂
  exact Sound.ite (sound_failWith _) (sound_pure _)

theorem sound_handleEndStream : Sound (handleEndStream server) := by
  refine Sound.bind sound_getCtx fun c => Sound.bind (sound_record (by simp)) fun _ => ?_
  refine Sound.bind (sound_modifyCtx fun _ h => ⟨h, rfl⟩) fun _ => ?_
  exact Sound.ite (sound_failWith _) (Sound.ite (sound_failWith _) (Sound.ite (sound_failWith _)
    (Sound.ite (sound_failWith _) (sound_handleRequest server _))))

theorem sound_endStreamIfComplete : Sound (endStreamIfComplete server) :=
  Sound.bind sound_getCtx fun _ => Sound.ite (sound_handleEndStream server) (sound_pure _)

theorem sound_markEndStream (header : FrameHeader) : Sound (markEndStream header) :=
  Sound.ite (Sound.bind (sound_modifyCtx fun _ h => ⟨h, rfl⟩) fun _ => sound_setStreamState _)
    (sound_pure _)

theorem sound_markEndHeaders (header : FrameHeader) : Sound (markEndHeaders header) :=
  Sound.ite (sound_modifyCtx fun _ h => ⟨h, rfl⟩) (sound_pure _)

theorem sound_handleHeaderBlock (header : FrameHeader) (data : Bytes) (size : ℤ) :
    Sound (handleHeaderBlock server header data size) := by
  refine Sound.bind sound_getCtx fun c => Sound.ite (sound_failWith _) ?_
  refine Sound.bind (Sound.ite (sound_modifyCtx fun _ h => ⟨h, rfl⟩) (sound_pure _)) fun _ => ?_
  exact Sound.bind (sound_markEndStream _) fun _ => Sound.bind (sound_markEndHeaders _) fun _ =>
    sound_endStreamIfComplete server

theorem sound_handleHeadersPayload (header : FrameHeader) (payload : Bytes) :
    Sound (handleHeadersPayload server header payload) :=
  Sound.ite (sound_failWith _) (Sound.ite (sound_handleHeaderBlock server _ _ _)
    (sound_handleHeaderBlock server _ _ _))

theorem sound_handleHeadersFrame (header : FrameHeader) (payload : Bytes) :
    Sound (handleHeadersFrame server header payload) := by
  refine Sound.bind sound_getCtx fun c => Sound.ite (sound_pure _) (Sound.ite (sound_failWith _) ?_)
  refine Sound.ite (sound_failWith _) (Sound.ite (sound_failWith _) (Sound.ite (sound_failWith _) ?_))
  refine Sound.ite (Sound.ite ?_ ?_) ?_
  · exact Sound.bind (sound_http2StreamError _ _) fun _ => sound_pure _
  · exact Sound.bind (sound_modifyCtx fun _ h => ⟨h, rfl⟩) fun _ =>
      sound_handleHeadersPayload server _ _
  · exact Sound.bind (sound_modifyCtx fun _ h => ⟨h, rfl⟩) fun _ =>
      Sound.bind (sound_setStreamState _) fun _ => sound_handleHeadersPayload server _ _

theorem sound_handleDataFrame (header : FrameHeader) (payload : Bytes) :
    Sound (handleDataFrame server header payload) := by
  refine Sound.bind sound_getCtx fun c => Sound.ite (sound_failWith _) (Sound.ite ?_ (Sound.ite ?_ ?_))
  · exact Sound.bind (sound_http2StreamError _ _) fun _ => sound_pure _
  · exact Sound.bind (sound_http2StreamError _ _) fun _ => sound_pure _
  · exact Sound.ite (sound_failWith _) (Sound.bind (sound_markEndStream _) fun _ =>
      Sound.bind (sound_endStreamIfComplete server) fun _ => sound_pure _)

theorem sound_handleContinuationFrame (header : FrameHeader) (payload : Bytes) :
    Sound (handleContinuationFrame server header payload) :=
  Sound.bind sound_getCtx fun _ => Sound.ite (sound_failWith _) (sound_handleHeaderBlock server _ _ _)

theorem sound_handleRstStreamFrame (header : FrameHeader) : Sound (handleRstStreamFrame header) :=
  Sound.bind sound_getCtx fun _ => Sound.ite (sound_failWith _) (Sound.ite (sound_failWith _)
    (Sound.ite (sound_failWith _) (Sound.bind (sound_record (by simp)) fun _ =>
      Sound.bind (sound_setStreamState _) fun _ => sound_pure _)))

theorem sound_handleFrame (header : FrameHeader) (payload : Bytes) :
    Sound (handleFrame server header payload) := by
  unfold handleFrame
  split
  · exact sound_handleGoawayFrame _ _
  · exact sound_handleSettingsFrame _ _
  · exact sound_handlePingFrame _ _
  · exact sound_handleHeadersFrame server _ _
  · exact sound_handleContinuationFrame server _ _
  · exact sound_handleWindowUpdateFrame _ _
  · exact sound_handleRstStreamFrame _
  · exact sound_handleDataFrame server _ _
  · exact Sound.bind (sound_http2Error _) fun _ => sound_pure _
  · exact sound_pure _
  · exact sound_pure _

theorem sound_recordFrame (header : FrameHeader) (region : Bytes) :
    Sound (record (.frame header region)) := by
  refine sound_record fun s h r s' heq => ?_
  cases heq
  rfl

theorem sound_receivingLoop (fuel bytesRead : ℕ) (buf : Bytes) :
    Sound (receivingLoop server fuel bytesRead buf) := by
  induction fuel generalizing bytesRead buf with
  | zero => exact sound_pure _
  | succ fuel ih =>
    refine Sound.ite (sound_pure _) (Sound.ite ?_ (Sound.ite ?_ (Sound.ite (sound_pure _) ?_)))
    · exact Sound.bind (sound_recordFrame _ _) fun _ => Sound.bind (sound_http2Error _) fun _ =>
        sound_pure _
    · exact Sound.bind (sound_recordFrame _ _) fun _ => Sound.bind (sound_http2Error _) fun _ =>
        sound_pure _
    · refine Sound.bind sound_getCtx fun c => Sound.bind (sound_recordFrame _ _) fun _ => ?_
      refine Sound.ite (Sound.bind (sound_http2Error _) fun _ => sound_pure _) ?_
      exact Sound.bind (sound_handleFrame server _ _) fun rc => Sound.ite (sound_pure _) (ih _ _)

theorem sound_receiving (size : ℤ) (buf : Bytes) : Sound (receiving server size buf) :=
  Sound.ite (Sound.bind sound_http2CloseImmediate fun _ => sound_pure _)
    (sound_receivingLoop server _ _ _)

end Requests

theorem sound_waitingForPreface (size : ℤ) (buf : Bytes) : Sound (waitingForPreface size buf) := by
  refine Sound.ite (Sound.bind sound_http2CloseImmediate fun _ => sound_pure _)
    (Sound.ite (sound_pure _) (Sound.ite ?_ ?_))
  · exact Sound.bind sound_http2CloseImmediate fun _ => sound_pure _
  · exact Sound.bind (sound_modifyCtx fun _ h => ⟨h, rfl⟩) fun _ =>
      Sound.bind (sound_sendFrame _ _) fun _ => Sound.bind (sound_eventRead _) fun _ => sound_pure _

theorem sound_waitingForSettings (size : ℤ) (buf : Bytes) : Sound (waitingForSettings size buf) := by
  refine Sound.ite (Sound.bind sound_http2CloseImmediate fun _ => sound_pure _)
    (Sound.ite (sound_pure _) (Sound.ite ?_ (Sound.ite (sound_pure _) ?_)))
  · exact Sound.bind (sound_recordFrame _ _) fun _ => Sound.bind (sound_http2Error _) fun _ =>
      sound_pure _
  · refine Sound.bind (sound_recordFrame _ _) fun _ => ?_
    refine Sound.bind (sound_handleSettingsFrame _ _) fun rc => Sound.ite (sound_pure _) ?_
    exact Sound.bind (sound_record (by simp)) fun _ =>
      Sound.bind (sound_modifyCtx fun _ h => ⟨h, rfl⟩) fun _ =>
        Sound.bind (sound_eventRead _) fun _ => sound_pure _

theorem sound_callWriteCb (cb : WriteCb) (status : ℤ) : Sound (callWriteCb cb status) := by
  cases cb with
  | closeOnWriteError => exact Sound.ite sound_http2CloseImmediate (sound_pure _)
  | closeOnGoawaySent => exact sound_http2CloseImmediate
  | onSettingsSent => exact sound_onSettingsSent status
  | onStreamSendComplete => exact sound_onStreamSendComplete status

theorem sound_callReadCb (server : Server) (cb : ReadCb) (size : ℤ) (buf : Bytes) :
    Sound (callReadCb server cb size buf) := by
  cases cb with
  | waitingForPreface => exact sound_waitingForPreface size buf
  | waitingForSettings => exact sound_waitingForSettings size buf
  | receiving => exact sound_receiving server size buf

/-! ## Steps of a socket -/

/-- A change that the lists, the timers and the trace do not show. -/
theorem sound_invisible {f : World → World} (hl : ∀ w held, (f w).lists held = w.lists held)
    (hs : ∀ w, (f w).ctx = w.ctx ∧ (f w).sock.timers = w.sock.timers ∧ (f w).log = w.log) :
    Sound (modify f : M Unit) := by
  refine sound_modify fun w hw => hw.of_lists (hl w) ?_ ?_
  · rw [TimerValid, (hs w).1, (hs w).2.1]
    exact hw.timer
  · rw [(hs w).2.2]
    exact hw.frames

theorem sound_callOp (op : WriteOp) (status : ℤ) : Sound (callOp op status) := by
  refine Sound.bind (sound_record (by simp)) fun _ => ?_
  refine Sound.bind (sound_invisible (fun _ _ => rfl) fun _ => ⟨rfl, rfl, rfl⟩) fun _ => ?_
  refine Sound.bind (sound_callWriteCb _ _) fun _ => ?_
  exact sound_invisible (fun _ _ => rfl) fun _ => ⟨rfl, rfl, rfl⟩

section Steps

variable (server : Server)

theorem sound_eventSockRead (bytes : Bytes) : Sound (eventSockRead bytes) := by
  refine sound_invisible (fun w _ => ?_) fun _ => ⟨rfl, rfl, rfl⟩
  cases hr : w.sock.read <;> simp [World.lists, EventLoop.sockEvents, Sock.queue, hr]

theorem sound_eventSockHandleRead : Sound (eventSockHandleRead server) := by
  refine Sound.bind sound_get fun w => ?_
  split
  · exact sound_pure _
  · rename_i e he
    refine Sound.bind (Sound.ite ?_ (sound_pure _)) fun _ => Sound.ite ?_ (sound_pure _)
    · refine Sound.bind (sound_callReadCb server _ _ _) fun n => ?_
      refine Sound.bind (sound_record (by simp)) fun _ => ?_
      refine sound_invisible (fun w _ => ?_) fun _ => ⟨rfl, rfl, rfl⟩
      cases hr : w.sock.read <;> simp [World.lists, EventLoop.sockEvents, Sock.queue, hr]
    · refine Sound.bind sound_get fun w' => ?_
      split
      · exact sound_throw (by simp)
      · exact Sound.bind (sound_callReadCb server _ _ _) fun _ => sound_pure _

/-- The world after the head of the queue was taken out; the buffer may have changed. -/
def World.unqueued (w : World) (e : EventWrite) (buf : Fifo) : World :=
  { w with sock.write := some { e with buf := buf, queue := e.queue.tail } }

theorem Good.unqueued {w : World} (hw : Good w) {e : EventWrite} (he : w.sock.write = some e)
    (buf : Fifo) : Good (w.unqueued e buf) := by
  refine ⟨hw.timer, ?_, hw.frames⟩
  have : EventLoop.sockEvents (w.unqueued e buf).sock = EventLoop.sockEvents w.sock := by
    simp [EventLoop.sockEvents, World.unqueued, he]
  rw [this]
  exact hw.distinct

theorem shuffle_unqueued {w : World} {e : EventWrite} (he : w.sock.write = some e) {op : WriteOp}
    {queue : List WriteOp} (hq : e.queue = op :: queue) (buf : Fifo) (held : List ℕ) :
    Shuffle (w.lists held) ((w.unqueued e buf).lists (op.id :: held)) := by
  have := Shuffle.pop op.id w.loop.events (EventLoop.sockEvents w.sock) w.loop.writes
    (queue.map WriteOp.id) held
  simpa [World.lists, World.unqueued, EventLoop.sockEvents, Sock.queue, he, hq] using this

/-- The callback of a finished operation runs while the operation is in no list. -/
theorem sound_handleWriteLoop (fuel written : ℕ) : Sound (handleWriteLoop fuel written) := by
  induction fuel generalizing written with
  | zero => exact sound_pure _
  | succ fuel ih =>
    intro w hw
    simp only [handleWriteLoop, wp_bind, wp_get]
    cases he : w.sock.write with
    | none => exact ⟨hw, .refl w⟩
    | some e =>
      simp only
      cases hq : e.queue with
      | nil => exact ⟨hw, .refl w⟩
      | cons op queue =>
        simp only [wp_ite, wp_pure, wp_bind, wp_set, wp_modify]
        refine ⟨fun _ => ⟨hw, .refl w⟩, fun _ => ⟨fun _ => ?_, fun _ => ?_⟩⟩
        -- the operation is unlinked, its callback runs, and then it returns to the pool
        · have hw₁ : w.unqueued e e.buf = { w with sock.write := some { e with queue := queue } } := by
            simp [World.unqueued, hq]
          rw [← hw₁]
          refine (sound_callOp op 0 _ (hw.unqueued he e.buf)).mono (fun _ w₂ h₂ => ?_) fun _ _ h₂ => h₂
          obtain ⟨w₃, hw₃⟩ : ∃ w₃, w₃ = ({ w₂ with loop.writes := op.id :: w₂.loop.writes } : World) :=
            ⟨_, rfl⟩
          have hs : Shuffles w w₃ := by
            intro held
            refine (ReflTransGen.single (shuffle_unqueued he hq e.buf held)).trans
              ((h₂.2 (op.id :: held)).tail ?_)
            have := Shuffle.free op.id w₂.loop.events (EventLoop.sockEvents w₂.sock) w₂.loop.writes
              (w₂.sock.queue.map WriteOp.id) held
            simpa [World.lists, hw₃] using this
          have hgood : Good w₃ := by
            refine ⟨?_, hs.events_perm.nodup_iff.mpr hw.distinct, ?_⟩
            · rw [hw₃]
              exact h₂.1.timer
            · rw [hw₃]
              exact h₂.1.frames
          rw [← hw₃]
          exact (ih _ w₃ hgood).mono (fun _ w₄ h₄ => ⟨h₄.1, hs.trans h₄.2⟩) fun _ _ h₄ => h₄
        -- a part of the operation was sent: no list has changed
        · refine hw.of_lists (fun _ => ?_) hw.timer hw.frames
          simp [World.lists, EventLoop.sockEvents, Sock.queue, he, hq]

theorem sound_eventSockWrite (written : ℕ) : Sound (eventSockWrite written) := by
  intro w hw
  simp only [eventSockWrite, wp_bind, wp_get]
  cases he : w.sock.write with
  | none => exact ⟨hw, .refl w⟩
  | some e =>
    simp only [wp_bind, wp_set]
    obtain ⟨w₁, hw₁⟩ : ∃ w₁, w₁ = ({ w with
        sock.write := some { e with buf := e.buf.pop (min written e.buf.bytes.length) } } : World) :=
      ⟨_, rfl⟩
    have h₁ : Good w₁ ∧ Shuffles w w₁ := by
      subst hw₁
      refine hw.of_lists (fun _ => ?_) hw.timer hw.frames
      simp [World.lists, EventLoop.sockEvents, Sock.queue, he]
    rw [← hw₁]
    exact (sound_handleWriteLoop _ _ w₁ h₁.1).mono (fun _ w₂ h₂ => ⟨h₂.1, h₁.2.trans h₂.2⟩)
      fun _ _ h₂ => h₂

/-- Draining a queue puts its operations in front of the free ones, one after the other. -/
theorem shuffle_drain (ev se : List ℕ) (op : ℕ) (q wr hd : List ℕ) :
    ReflTransGen Shuffle ⟨ev, se, wr, q, op :: hd⟩ ⟨ev, se, (op :: q).reverse ++ wr, [], hd⟩ := by
  induction q generalizing op wr with
  | nil => exact .single (.free op ev se wr [] hd)
  | cons op' q ih =>
    have hfree := Shuffle.free op ev se wr (op' :: q) hd
    have hpop := Shuffle.pop op' ev se (op :: wr) q hd
    have hrest := ih op' (op :: wr)
    simpa using ((ReflTransGen.single hfree).tail hpop).trans hrest

theorem sound_closeWrite (status : ℤ) (notified : Bool) : Sound (closeWrite status notified) := by
  intro w hw
  simp only [closeWrite, wp_bind, wp_get]
  cases he : w.sock.write with
  | none => exact ⟨hw, .refl w⟩
  | some e =>
    simp only [wp_bind, wp_set]
    obtain ⟨buf, hbuf⟩ : ∃ buf, buf = { e.buf.finish with bytes := [] } := ⟨_, rfl⟩
    rw [← hbuf]
    cases hq : e.queue with
    | nil =>
      refine hw.of_lists (fun _ => ?_) hw.timer hw.frames
      simp [World.lists, EventLoop.sockEvents, Sock.queue, he, hq]
    | cons op queue =>
      simp only [List.head?_cons, List.tail_cons]
      have hw₁ : w.unqueued e buf =
          { w with sock.write := some { e with buf := buf, queue := queue } } := by
        simp [World.unqueued, hq]
      rw [← hw₁]
      have hcall : Sound (if notified then return () else callOp op status) :=
        Sound.ite (sound_pure _) (sound_callOp op status)
      rw [wp_bind]
      refine (hcall _ (hw.unqueued he buf)).mono (fun _ w₂ h₂ => ?_) fun _ _ h₂ => h₂
      simp only [dropQueue, wp_modify]
      -- the callback may have queued more operations; they go the same way
      have hs : Shuffles w { w₂ with
          sock.write := w₂.sock.write.map fun e => { e with queue := [] }
          loop.writes := (((some op).toList ++ w₂.sock.queue).map WriteOp.id).reverse ++
            w₂.loop.writes } := by
        intro held
        refine (ReflTransGen.single (shuffle_unqueued he hq buf held)).trans
          ((h₂.2 (op.id :: held)).trans ?_)
        have := shuffle_drain w₂.loop.events (EventLoop.sockEvents w₂.sock) op.id
          (w₂.sock.queue.map WriteOp.id) w₂.loop.writes held
        cases hw₂ : w₂.sock.write <;>
          simpa [World.lists, EventLoop.sockEvents, Sock.queue, hw₂] using this
      exact ⟨⟨h₂.1.timer, hs.events_perm.nodup_iff.mpr hw.distinct, h₂.1.frames⟩, hs⟩

theorem sound_eventSockClose (status : ℤ) : Sound (eventSockClose server status) := by
  intro w hw
  simp only [eventSockClose, wp_bind, wp_get]
  cases he : w.sock.read with
  | none => exact sound_closeWrite status false w hw
  | some e =>
    simp only [wp_bind, wp_set]
    obtain ⟨w₁, hw₁⟩ : ∃ w₁, w₁ =
        ({ w with sock.read := some { e with buf := e.buf.finish } } : World) := ⟨_, rfl⟩
    have h₁ : Good w₁ ∧ Shuffles w w₁ := by
      subst hw₁
      refine hw.of_lists (fun _ => ?_) hw.timer hw.frames
      simp [World.lists, EventLoop.sockEvents, Sock.queue, he]
    rw [← hw₁, ← wp_bind]
    exact (Sound.bind (sound_callReadCb server _ _ _) (fun _ => sound_closeWrite status true)
      w₁ h₁.1).mono (fun _ w₂ h₂ => ⟨h₂.1, h₁.2.trans h₂.2⟩) fun _ _ h₂ => h₂

theorem sound_eventSockReadClosed (status : ℤ) : Sound (eventSockReadClosed server status) :=
  Sound.bind sound_get fun _ => Sound.ite (sound_eventSockClose server status) (sound_pure _)

theorem sound_eventSockWriteError (status : ℤ) : Sound (eventSockWriteError server status) :=
  Sound.bind sound_get fun _ => Sound.ite (sound_eventSockClose server status) (sound_pure _)

/-- `event_write` leaves the context and the timers alone. -/
theorem eventWrite_timers (bytes : Bytes) (cb : WriteCb) (stream : Option ℕ) (w : World) :
    wp (eventWrite bytes cb stream)
      (fun _ w' => w'.ctx = w.ctx ∧ w'.sock.timers = w.sock.timers) (fun _ _ => True) w := by
  simp only [eventWrite, wp_bind, wp_get, wp_ite, wp_throw]
  refine ⟨fun _ => trivial, fun _ => ?_⟩
  cases w.sock.write with
  | none => trivial
  | some e =>
    simp only [wp_ite]
    refine ⟨fun _ => ?_, fun _ => ⟨rfl, rfl⟩⟩
    cases w.loop.writes with
    | nil => trivial
    | cons op writes => exact ⟨rfl, rfl⟩

/-- `http2_error` stops to wait and leaves the timers alone. -/
theorem http2Error_timers (e : Http2Error) (w : World) :
    wp (http2Error e) (fun _ w' => w'.ctx.flags.waitingSettingsAck = false ∧
      w'.sock.timers = w.sock.timers) (fun _ _ => True) w := by
  have hstop : ∀ w : World, w.readStop.ctx = w.ctx ∧ w.readStop.sock.timers = w.sock.timers := by
    intro w
    cases hr : w.sock.read <;> simp [World.readStop, hr]
  simp only [http2Error, record, modifyCtx, eventReadStop, getCtx, sendGoawayFrame, sendFrame,
    wp_bind, wp_modify, wp_get, wp_pure]
  refine (eventWrite_timers _ _ _ _).mono (fun _ w' h => ?_) fun _ _ _ => trivial
  rw [h.1, h.2]
  simp only [World.add, (hstop _).1, (hstop _).2]
  exact ⟨rfl, rfl⟩

/-- A timer that is due is still in the list when its callback returns. -/
theorem sound_eventSockTimer (id : ℕ) : Sound (eventSockTimer id) := by
  intro w hw
  simp only [eventSockTimer, onSettingsTimeout, wp_bind, wp_get, wp_ite, wp_pure, wp_modify]
  refine ⟨fun hid => ?_, fun _ => ⟨hw, .refl w⟩⟩
  refine ((sound_http2Error .settingsTimeout w hw).and (http2Error_timers .settingsTimeout w)).mono
    (fun _ w₁ h₁ => ?_) fun _ _ h₁ => h₁.1
  obtain ⟨⟨hgood, hs⟩, hflag, htimers⟩ := h₁
  obtain ⟨-, hgood', hs'⟩ := hgood.timerStop (htimers ▸ hid) hflag
  exact ⟨hgood', hs.trans hs'⟩

end Steps

end Two
