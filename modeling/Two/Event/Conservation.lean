import Two.Event.Resources
import Mathlib.Data.List.Induction

/-!
# Conservation of events and operations

In every run of the event loop no event, write operation, socket or context gets lost or into two
lists, and a connection that waits for the acknowledgment of its settings waits on a timer of its own
socket.

## Main definitions

* `EventLoop.Conserved`: every element of the pools is in exactly one place
* `EventLoop.Kept`: what holds of a loop between its steps

## Main results

* `EventLoop.step_sound`: a step runs a sound program, or adds or removes a client
* `EventLoop.kept_run`: what holds between the steps of every run
* `EventLoop.timer_valid`: the settings timer is valid in every run
-/

namespace Two

open Program Relation

namespace EventLoop

/-- The events of all reserved sockets. -/
def usedEvents (l : EventLoop) : List ℕ := l.reserved.flatMap fun conn => sockEvents conn.sock

/-- The operations of all write queues. -/
def usedWrites (l : EventLoop) : List ℕ :=
  l.reserved.flatMap fun conn => conn.sock.queue.map WriteOp.id

/-- The contexts that the reserved sockets point to. -/
def usedClients (l : EventLoop) : List ℕ :=
  l.reserved.flatMap fun conn => (conn.client.map Client.id).toList

/-- Every socket, event, write operation and context is free or in use, and only once. The listening
socket and its event are left out. -/
structure Conserved (l : EventLoop) : Prop where
  sockets : (l.sockets ++ l.reserved.map Conn.id).Perm ((List.range eventMaxSockets).drop 1)
  events : (l.pools.events ++ l.usedEvents).Perm ((List.range eventMaxEvents).drop 1)
  writes : (l.pools.writes ++ l.usedWrites).Perm (List.range eventWriteQueueSize)
  clients : (l.clients ++ l.usedClients).Perm (List.range (eventMaxSockets - 1))

/-- What holds of a loop between its steps; after a failed assertion only the traces are looked at. -/
structure Kept (l : EventLoop) : Prop where
  conserved : l.aborted = none → Conserved l
  timers : l.aborted = none → ∀ conn ∈ l.reserved, ∀ client, conn.client = some client →
    TimerValid (l.world conn.sock client).toState
  frames : ∀ conn ∈ l.reserved, ∀ client, conn.client = some client → FramesTimed client.log
  aborted : l.aborted ≠ some .notTimer

variable {server : Server} {l : EventLoop}

/-- A step runs a sound program on one connection, or adds or removes a client. -/
theorem step_sound (l : EventLoop) (a : Action) :
    step server l a = l ∨ (∃ accepted, l.aborted = none ∧ step server l a = l.accept accepted) ∨
      (∃ i m, Sound m ∧ l.aborted = none ∧ step server l a = l.onConn i m) ∨
      ∃ i, l.aborted = none ∧ step server l a = l.close i := by
  have hif : ∀ {m : M Unit}, Sound m →
      Sound (do if (← get).sock.state = .connected then m else return ()) := fun hm =>
    Sound.bind sound_get fun _ => Sound.ite hm (sound_pure _)
  unfold step
  split
  · exact .inl rfl
  have ha : l.aborted = none := by simpa using ‹¬ l.aborted.isSome = true›
  right
  cases a with
  | accept accepted => exact .inl ⟨accepted, ha, rfl⟩
  | recv i bytes => exact .inr (.inl ⟨i, _, hif (sound_eventSockRead bytes), ha, rfl⟩)
  | recvClosed i errno => exact .inr (.inl ⟨i, _, hif (sound_eventSockReadClosed server _), ha, rfl⟩)
  | pending i => exact .inr (.inl ⟨i, _, sound_eventSockHandleRead server, ha, rfl⟩)
  | send i written => exact .inr (.inl ⟨i, _, sound_eventSockWrite written, ha, rfl⟩)
  | sendError i errno => exact .inr (.inl ⟨i, _, sound_eventSockWriteError server _, ha, rfl⟩)
  | timer i id => exact .inr (.inl ⟨i, _, sound_eventSockTimer id, ha, rfl⟩)
  | close i => exact .inr (.inr ⟨i, ha, rfl⟩)

/-- A list around one of its elements. -/
theorem split_at {α : Type} {xs : List α} {i : ℕ} {x : α} (h : xs[i]? = some x) :
    ∃ pre post, xs = pre ++ x :: post ∧ (∀ y, xs.set i y = pre ++ y :: post) ∧
      xs.eraseIdx i = pre ++ post := by
  induction xs generalizing i with
  | nil => simp at h
  | cons a xs ih =>
    cases i with
    | zero =>
      obtain rfl : a = x := by simpa using h
      exact ⟨[], xs, rfl, fun _ => rfl, rfl⟩
    | succ i =>
      obtain ⟨pre, post, hxs, hset, herase⟩ := ih (by simpa using h)
      refine ⟨a :: pre, post, by simp [hxs], fun y => by simp [hset], by simp [herase]⟩

/-- Replacing the part of one connection in a conserved list. -/
theorem perm_replace {α : Type} {free free' used pre post pool : List α} (used' : List α)
    (h : (free ++ (pre ++ (used ++ post))).Perm pool)
    (hp : (free' ++ used').Perm (free ++ used)) :
    (free' ++ (pre ++ (used' ++ post))).Perm pool := by
  refine List.Perm.trans ?_ h
  have key : ∀ f u : List α, (f ++ (pre ++ (u ++ post))).Perm ((f ++ u) ++ (pre ++ post)) := by
    intro f u
    rw [List.append_assoc]
    refine List.Perm.append_left f ?_
    rw [← List.append_assoc, ← List.append_assoc]
    exact List.Perm.append_right post List.perm_append_comm
  exact (key free' used').trans ((List.Perm.append_right _ hp).trans (key free used).symm)

theorem conserved_init : Conserved init :=
  ⟨by simp [init], by simp [init, usedEvents], by simp [init, usedWrites],
    by simp [init, usedClients]⟩

theorem kept_init : Kept init :=
  ⟨fun _ => conserved_init, by simp [init], by simp [init], by simp [init]⟩

theorem Kept.accept (h : Kept l) (ha : l.aborted = none) (accepted : Bool) :
    Kept (l.accept accepted) := by
  have hc := h.conserved ha
  unfold EventLoop.accept
  cases hs : l.sockets with
  | nil => exact h
  | cons s sockets =>
    have hsockets : (sockets ++ s :: l.reserved.map Conn.id).Perm ((List.range eventMaxSockets).drop 1) :=
      List.perm_middle.trans (by simpa [hs] using hc.sockets)
    -- a socket that was refused has neither events nor operations nor a context
    have hrefused : Kept { l with
        sockets := sockets, reserved := ⟨s, refusedSock, none⟩ :: l.reserved } := by
      refine ⟨fun _ => ⟨hsockets, ?_, ?_, ?_⟩, fun _ => ?_, ?_, h.aborted⟩
      · simpa [usedEvents, refusedSock, sockEvents] using hc.events
      · simpa [usedWrites, refusedSock, Sock.queue] using hc.writes
      · simpa [usedClients] using hc.clients
      · intro conn hmem client hcl
        rcases List.mem_cons.mp hmem with rfl | hmem
        · simp at hcl
        · exact h.timers ha conn hmem client hcl
      · intro conn hmem client hcl
        rcases List.mem_cons.mp hmem with rfl | hmem
        · simp at hcl
        · exact h.frames conn hmem client hcl
    dsimp only
    split
    · exact hrefused
    · cases hcl : l.clients with
      | nil => simpa [hcl] using hrefused
      | cons c clients =>
        simp only
        split
        · rename_i r w events hev
          refine ⟨fun _ => ⟨hsockets, ?_, ?_, ?_⟩, fun _ => ?_, ?_, h.aborted⟩
          · have hperm := hc.events
            rw [hev] at hperm
            refine List.Perm.trans ?_ hperm
            simp only [usedEvents, List.flatMap_cons, newSock, sockEvents, Option.map_some,
              Option.toList_some, List.nil_append, List.cons_append]
            exact List.perm_middle.trans ((List.perm_middle.cons w).trans (List.Perm.swap r w _))
          · simpa [usedWrites, newSock, Sock.queue] using hc.writes
          · have hperm := hc.clients
            rw [hcl] at hperm
            refine List.Perm.trans ?_ hperm
            simp [usedClients]
          · intro conn hmem client hclient
            rcases List.mem_cons.mp hmem with rfl | hmem
            · obtain rfl := Option.some.inj hclient
              intro hflag
              simp [world, Context.init, Flags.none] at hflag
            · exact h.timers ha conn hmem client hclient
          · intro conn hmem client hclient
            rcases List.mem_cons.mp hmem with rfl | hmem
            · obtain rfl := Option.some.inj hclient
              simp [FramesTimed]
            · exact h.frames conn hmem client hclient
        · exact ⟨by simp, by simp, h.frames, by simp⟩

theorem Kept.close (h : Kept l) (ha : l.aborted = none) (i : ℕ) : Kept (l.close i) := by
  have hc := h.conserved ha
  unfold EventLoop.close
  split
  · exact h
  · rename_i conn hi
    split
    · rename_i hclosing
      obtain ⟨pre, post, hres, -, herase⟩ := split_at hi
      obtain ⟨hs, he, hw, hcl⟩ := hc
      simp only [usedEvents, usedWrites, usedClients, hres, List.map_append, List.map_cons,
        List.flatMap_append, List.flatMap_cons] at hs he hw hcl
      -- what the connection held is put in front of the free lists
      refine ⟨fun _ => ⟨?_, ?_, ?_, ?_⟩, fun _ => ?_, ?_, h.aborted⟩
      · simp only [herase, List.map_append]
        refine perm_replace [] (show (_ ++ (_ ++ ([conn.id] ++ _))).Perm _ by simpa using hs) ?_
        simpa using (List.perm_append_singleton _ _).symm
      · simp only [usedEvents, herase, List.flatMap_append]
        refine perm_replace [] he ?_
        rw [List.append_nil]
        exact (List.Perm.append_right _ (List.reverse_perm _)).trans List.perm_append_comm
      · simpa [usedWrites, herase, hclosing.2] using hw
      · simp only [usedClients, herase, List.flatMap_append]
        refine perm_replace [] hcl ?_
        rw [List.append_nil]
        exact List.perm_append_comm
      · intro conn' hmem client hclient
        exact h.timers ha conn' (List.mem_of_mem_eraseIdx hmem) client hclient
      · intro conn' hmem client hclient
        exact h.frames conn' (List.mem_of_mem_eraseIdx hmem) client hclient
    · exact h

/-- The world of a client is good. -/
theorem Kept.good (h : Kept l) (ha : l.aborted = none) {i : ℕ} {conn : Conn}
    (hi : l.reserved[i]? = some conn) {client : Client} (hcl : conn.client = some client) :
    Good (l.world conn.sock client) := by
  have hmem := List.mem_of_getElem? hi
  refine ⟨h.timers ha conn hmem client hcl, ?_, h.frames conn hmem client hcl⟩
  obtain ⟨pre, post, hres, -, -⟩ := split_at hi
  have hperm := (h.conserved ha).events
  have hnodup : ((List.range eventMaxEvents).drop 1).Nodup := List.nodup_range.sublist (List.drop_sublist _ _)
  rw [← hperm.nodup_iff, usedEvents, hres] at hnodup
  simp only [List.flatMap_append, List.flatMap_cons] at hnodup
  refine hnodup.sublist ?_
  exact (List.Sublist.refl _).append
    ((List.sublist_append_left _ _).trans (List.sublist_append_right _ _))

/-- A sound program on one connection. -/
theorem Kept.onConn (h : Kept l) (ha : l.aborted = none) (i : ℕ) {m : M Unit} (hm : Sound m) :
    Kept (l.onConn i m) := by
  unfold EventLoop.onConn
  split
  · exact h
  · rename_i conn hi
    split
    · exact h
    · rename_i client hcl
      have hwp := hm _ (h.good ha hi hcl)
      -- the other connections have the frames they had
      have hframes : ∀ w : World, FramesTimed w.log →
          ∀ conn' ∈ (l.put i conn client w).reserved, ∀ client', conn'.client = some client' →
            FramesTimed client'.log := by
        intro w hw conn' hmem client' hcl'
        rcases List.mem_or_eq_of_mem_set hmem with hmem | rfl
        · exact h.frames conn' hmem client' hcl'
        · obtain rfl := Option.some.inj hcl'
          exact hw
      split
      · rename_i w hrun
        simp only [wp, hrun] at hwp
        obtain ⟨hgood, hs⟩ := hwp
        -- only the lists of this connection and the pools have changed, by a permutation
        obtain ⟨pre, post, hres, hset, -⟩ := split_at hi
        obtain ⟨hs₁, he, hw, hc⟩ := h.conserved ha
        simp only [usedEvents, usedWrites, usedClients, hres, List.map_append, List.map_cons,
          List.flatMap_append, List.flatMap_cons] at hs₁ he hw hc
        refine ⟨fun _ => ⟨?_, ?_, ?_, ?_⟩, fun _ => ?_, hframes w hgood.frames, h.aborted⟩
        · simpa [put, hset] using hs₁
        · simp only [put, usedEvents, hset, List.flatMap_append, List.flatMap_cons]
          exact perm_replace _ he hs.events_perm
        · simp only [put, usedWrites, hset, List.flatMap_append, List.flatMap_cons]
          exact perm_replace _ hw hs.writes_perm
        · simpa [put, usedClients, hset, hcl] using hc
        · intro conn' hmem client' hcl'
          rcases List.mem_or_eq_of_mem_set hmem with hmem | rfl
          · exact h.timers ha conn' hmem client' hcl'
          · obtain rfl := Option.some.inj hcl'
            exact hgood.timer
      -- an assertion has failed, and nothing more is promised
      · rename_i e w hrun
        simp only [wp, hrun] at hwp
        exact ⟨by simp, by simp, hframes w hwp.2, by simpa using hwp.1⟩

/-- **What holds between the steps of every run.** -/
theorem kept_run (actions : List Action) : Kept (run server actions) := by
  induction actions using List.reverseRecOn with
  | nil => exact kept_init
  | append_singleton actions a ih =>
    rw [run_append_singleton]
    rcases @step_sound server (run server actions) a with
      h | ⟨accepted, ha, h⟩ | ⟨i, m, hm, ha, h⟩ | ⟨i, ha, h⟩
    · rwa [h]
    · rw [h]
      exact ih.accept ha accepted
    · rw [h]
      exact ih.onConn ha i hm
    · rw [h]
      exact ih.close ha i

/-- **The settings timer is valid.** In every run, a context that waits for the acknowledgment of its
settings points to a timer of its own socket, between the steps of the loop and whenever a frame is
handled; so `event_timer_stop` is only called for a timer that is running. -/
theorem timer_valid (server : Server) (actions : List Action) :
    (run server actions).aborted ≠ some .notTimer ∧
      ∀ conn ∈ (run server actions).reserved, ∀ client, conn.client = some client →
        (∀ h region s, Entry.frame h region s ∈ client.log → TimerValid s ∧
          (s.loop.events ++ sockEvents s.sock).Nodup) ∧
        ((run server actions).aborted = none → client.ctx.flags.waitingSettingsAck = true →
          ∃ id, client.ctx.timer = some id ∧ id ∈ conn.sock.timers ∧
            id ∉ (run server actions).pools.events) := by
  have hk := @kept_run server actions
  refine ⟨hk.aborted, fun conn hmem client hcl => ⟨hk.frames conn hmem client hcl, ?_⟩⟩
  intro ha hflag
  obtain ⟨i, hi⟩ := List.getElem?_of_mem hmem
  obtain ⟨id, htimer, hid⟩ := hk.timers ha conn hmem client hcl hflag
  refine ⟨id, htimer, hid, fun hfree => ?_⟩
  have hdisj := (List.nodup_append.mp (hk.good ha hi hcl).distinct).2.2
  exact hdisj id hfree id (List.mem_append_left _ (List.mem_append_left _ hid)) rfl

/-- The server has sent its settings and the client has not answered. -/
theorem timer_valid_waiting :
    ∃ conn ∈ (run .empty [.accept true, .recv 0 http2Preface, .pending 0, .send 0 45]).reserved,
      ∃ client, conn.client = some client ∧ client.ctx.flags.waitingSettingsAck = true ∧
        ∃ id, client.ctx.timer = some id ∧ id ∈ conn.sock.timers ∧
          id ∉ (run .empty [.accept true, .recv 0 http2Preface, .pending 0, .send 0 45]).pools.events := by
  obtain ⟨conn, hconn⟩ : ∃ conn, (run .empty [.accept true, .recv 0 http2Preface, .pending 0,
      .send 0 45]).reserved = [conn] := List.length_eq_one_iff.mp (by decide +kernel)
  obtain ⟨client, hclient⟩ : ∃ client, conn.client = some client := by
    have h : ∀ c ∈ (run .empty [.accept true, .recv 0 http2Preface, .pending 0, .send 0 45]).reserved,
        c.client.isSome = true := by decide +kernel
    exact Option.isSome_iff_exists.mp (h conn (by simp [hconn]))
  have hflag : ∀ c ∈ (run .empty [.accept true, .recv 0 http2Preface, .pending 0, .send 0 45]).reserved,
      ∀ client ∈ c.client, client.ctx.flags.waitingSettingsAck = true := by decide +kernel
  have hmem : conn ∈ (run .empty [.accept true, .recv 0 http2Preface, .pending 0, .send 0 45]).reserved := by
    simp [hconn]
  refine ⟨conn, hmem, client, hclient, hflag conn hmem client hclient, ?_⟩
  exact ((timer_valid .empty _).2 conn hmem client hclient).2 (by decide +kernel)
    (hflag conn hmem client hclient)

end EventLoop

end Two
