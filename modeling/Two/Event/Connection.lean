import Two.Event.Runs

/-!
# Runs of one connection

A connection seen alone: the event loop works on its socket, the other connections change the pools,
and the program may call `http2_close_gracefully`, which no other code of the repository does.

## Main definitions

* `ConnEvent`, `Connection`, `Connection.run`: what happens to a connection
* `World.gracefully`: the effect of `http2_close_gracefully`
* `ConnRule C Q G I`: the obligations for an invariant `I` and a property `Q` of the events of the
  traces along which `C` holds, where the connection is gracefully closed only in worlds that
  satisfy `G`

## Main results

* `ConnRule.trace`, `ConnRule.state`: the run rule of a connection
* `EventLoop.exists_connection`: every client of the event loop is such a connection
-/

namespace Two

open Program Relation Trace

/-! ## Graceful closes -/

namespace World

/-- `http2_close_gracefully` up to the GOAWAY frame. -/
def leaving (w : World) : World :=
  w.onCtx fun c => { c with state := .closing, flags := c.flags.keepGoawaySent }

/-- `http2_close_gracefully` on a connection that is neither closing nor closed. -/
def gracefully (w : World) : World :=
  w.leaving.written (.goaway Http2Error.noError.code w.ctx.lastOpenedStreamId) .closeOnWriteError

@[simp] theorem gracefully_log (w : World) : w.gracefully.log = w.log ++
    [.send (.goaway Http2Error.noError.code w.ctx.lastOpenedStreamId) w.leaving.toState] :=
  written_log _ _ _

@[simp] theorem gracefully_ctx (w : World) : w.gracefully.ctx = w.leaving.ctx := written_ctx _ _ _

@[simp] theorem gracefully_read (w : World) : w.gracefully.sock.read = w.sock.read :=
  written_read _ _ _

end World

section Graceful

variable {w : World}

/-- The connection is neither closing nor closed. -/
def Usable (w : World) : Prop := w.ctx.state ≠ .closed ∧ w.ctx.state ≠ .closing

theorem http2CloseGracefully_wp {Q : ℤ → World → Prop} {E : Assertion → World → Prop}
    (hclosed : ¬ Usable w → Q (-1) w) (hsent : Usable w → Q 0 w.gracefully)
    (hE : Usable w → ∀ e w', w'.log = w.gracefully.log → E e w') :
    wp http2CloseGracefully Q E w := by
  simp only [http2CloseGracefully, sendGoawayFrame, wp_bind, wp_getCtx, wp_ite, wp_pure,
    wp_modifyCtx]
  have husable : ¬ (w.ctx.state = .closed ∨ w.ctx.state = .closing) ↔ Usable w := not_or
  refine ⟨fun h => hclosed (mt husable.mpr (not_not.mpr h)), fun h => ?_⟩
  have hu := husable.mp h
  refine sendFrame_wp (fun _ _ => hsent hu) fun _ e w' hlog _ => hE hu e w' ?_
  rw [hlog]
  exact (World.written_log _ _ _).symm

/-- A graceful close keeps what the callbacks rely on. -/
theorem Steady.gracefully (h : Steady w) : Steady w.gracefully := by
  refine ⟨fun _ _ _ => .inr (by simp [World.leaving]), ?_, ?_, ?_⟩
  · simpa [World.leaving, Flags.keepGoawaySent] using h.sent
  · simpa [World.gracefully, World.leaving] using h.idle
  · simpa [World.gracefully, World.leaving] using h.connected

end Graceful

/-! ## Runs -/

/-- What happens to a connection; `others` stands for what other connections do to the pools. -/
inductive ConnEvent
  | recv (bytes : Bytes)
  | recvClosed (errno : ℕ)
  | pending
  | send (written : ℕ)
  | sendError (errno : ℕ)
  | timer (id : ℕ)
  | others (pools : Pools)
  | closeGracefully
  deriving DecidableEq, Repr

/-- The program that runs on the connection. -/
def ConnEvent.program (server : Server) : ConnEvent → M Unit
  | .recv bytes => do
    if (← get).sock.state = .connected then eventSockRead bytes else return ()
  | .recvClosed errno => do
    if (← get).sock.state = .connected then eventSockReadClosed server (-errno) else return ()
  | .pending => eventSockHandleRead server
  | .send written => eventSockWrite written
  | .sendError errno => eventSockWriteError server (-(errno + 1))
  | .timer id => eventSockTimer id
  | .others pools => modify fun w => { w with loop := pools }
  | .closeGracefully => do
    let _ ← http2CloseGracefully

/-- A connection with its trace, and the assertion that has failed on it. -/
structure Connection where
  world : World
  aborted : Option Assertion

namespace Connection

/-- A connection after `http2_new_client`, with the events `r` and `s`. -/
def init (pools : Pools) (r s : ℕ) : Connection :=
  ⟨⟨⟨pools, EventLoop.newSock r s, .init, none⟩, []⟩, none⟩

section Run

variable (server : Server)

/-- One event of a connection. A failed assertion ends the program. -/
def step (c : Connection) (e : ConnEvent) : Connection :=
  if c.aborted.isSome then c
  else
    match e.program server c.world with
    | .ok _ w => ⟨w, none⟩
    | .error a w => ⟨w, some a⟩

/-- A run of a connection. -/
def run (c : Connection) (events : List ConnEvent) : Connection := events.foldl (step server) c

theorem run_append (c : Connection) (events more : List ConnEvent) :
    run server c (events ++ more) = run server (run server c events) more := by
  simp [run]

/-- A connection on which an assertion has failed does nothing more. -/
theorem aborted_of_run {server : Server} {c : Connection} {events : List ConnEvent}
    (h : (run server c events).aborted = none) : c.aborted = none := by
  induction events generalizing c with
  | nil => exact h
  | cons e events ih =>
    cases hc : c.aborted with
    | none => rfl
    | some a =>
      have hstep : c.step server e = c := by simp [step, hc]
      have := ih (c := c.step server e) h
      rwa [hstep, hc] at this

/-- Every graceful close of a run is called in a world that satisfies `G`. -/
def GracefulIn (G : World → Prop) : Connection → List ConnEvent → Prop
  | _, [] => True
  | c, e :: events =>
    (e = .closeGracefully → G c.world) ∧ GracefulIn G (c.step server e) events

/-- Running through the events. -/
def decidableGracefulIn (G : World → Prop) [DecidablePred G] :
    ∀ c events, Decidable (GracefulIn server G c events)
  | _, [] => inferInstanceAs (Decidable True)
  | c, e :: events =>
    have := decidableGracefulIn G (c.step server e) events
    inferInstanceAs (Decidable ((e = .closeGracefully → G c.world) ∧
      GracefulIn server G (c.step server e) events))

instance (G : World → Prop) [DecidablePred G] (c : Connection) (events : List ConnEvent) :
    Decidable (GracefulIn server G c events) := decidableGracefulIn server G c events

theorem gracefulIn_of_not_mem (G : World → Prop) (c : Connection) {events : List ConnEvent}
    (h : .closeGracefully ∉ events) : GracefulIn server G c events := by
  induction events generalizing c with
  | nil => trivial
  | cons e events ih =>
    rw [List.mem_cons, not_or] at h
    exact ⟨fun he => absurd he.symm h.1, ih _ h.2⟩

theorem gracefulIn_true (c : Connection) (events : List ConnEvent) :
    GracefulIn server (fun _ => True) c events := by
  induction events generalizing c with
  | nil => trivial
  | cons e events ih => exact ⟨fun _ => trivial, ih _⟩

end Run

end Connection

/-- The obligations for an invariant `I` of a connection and a property `Q` of the events of its
trace, in the runs along whose trace the condition `C` holds and whose graceful closes happen in
worlds that satisfy `G`. -/
structure ConnRule (C Q : List Entry → Entry → Prop) (G I : World → Prop) : Prop where
  others : ∀ (w : World) (pools : Pools), I w → I { w with loop := pools }
  step : ∀ w w', Transition true w w' → Steady w → I w → Along C w'.log → I w'
  entries : ∀ live w w', Transition live w w' → Steady w → I w → ∀ new, w'.log = w.log ++ new →
    ∀ a e b, new = a ++ e :: b → Along C (w.log ++ a ++ [e]) → Q (w.log ++ a) e
  graceful : ∀ w, Steady w → I w → G w → Usable w → Along C w.gracefully.log → I w.gracefully
  announced : ∀ w, Steady w → I w → G w → Usable w → Along C w.gracefully.log → Q w.log
    (.send (.goaway Http2Error.noError.code w.ctx.lastOpenedStreamId) w.leaving.toState)

namespace ConnRule

variable {C Q : List Entry → Entry → Prop} {G I : World → Prop} {server : Server}

theorem stepRule (r : ConnRule C Q G I) : StepRule Steady C Q I :=
  ⟨fun _ _ _ => Transition.steady, r.step, r.entries⟩

/-- What the rule establishes of a connection. -/
structure Holds (C Q : List Entry → Entry → Prop) (I : World → Prop) (c : Connection) : Prop where
  steady : c.aborted = none → Steady c.world
  along : Along C c.world.log → Along Q c.world.log
  invariant : c.aborted = none → Along C c.world.log → I c.world

/-- The events of the event loop only make transitions. -/
theorem program_moves (server : Server) (e : ConnEvent) {w : World} (hs : Steady w) :
    Moves (e.program server) w w ∨ (∃ pools, e = .others pools) ∨ e = .closeGracefully := by
  have hif : ∀ {m : M Unit}, Moves m w w →
      Moves (do if (← get).sock.state = .connected then m else return ()) w w := by
    intro m hm
    simp only [Moves, wp_bind, wp_get, wp_ite, wp_pure]
    exact ⟨fun _ => hm, fun _ => .refl⟩
  cases e with
  | recv bytes => exact .inl (hif (eventSockRead_moves bytes .refl))
  | recvClosed errno => exact .inl (hif (eventSockReadClosed_moves .refl (by omega)))
  | pending => exact .inl (eventSockHandleRead_moves .refl hs)
  | send written => exact .inl (eventSockWrite_moves written .refl)
  | sendError errno => exact .inl (eventSockWriteError_moves .refl (by omega))
  | timer id => exact .inl (eventSockTimer_moves id .refl)
  | others pools => exact .inr (.inl ⟨pools, rfl⟩)
  | closeGracefully => exact .inr (.inr rfl)

/-- A program that only makes transitions. -/
theorem holds_moves (r : ConnRule C Q G I) {c : Connection} {e : ConnEvent} (h : Holds C Q I c)
    (ha : c.aborted = none) (hm : Moves (e.program server) c.world c.world) :
    Holds C Q I (c.step server e) := by
  have hs := h.steady ha
  simp only [Connection.step, ha, Option.isSome_none, Bool.false_eq_true, if_false]
  cases hrun : e.program server c.world with
  | ok u w =>
    have htrans : Transitions c.world w := by simpa only [Moves, wp, hrun] using hm
    have hboth : Along C w.log → I w ∧ Along Q w.log := by
      intro hc
      have hlog := Transitions.log_prefix htrans
      have hc' := hc.of_prefix hlog
      exact r.stepRule.transitions htrans hs (h.invariant ha hc') (h.along hc') hc
    exact ⟨fun _ => Transitions.steady htrans hs, fun hc => (hboth hc).2, fun _ hc => (hboth hc).1⟩
  | error a w =>
    have habort : Aborts c.world w := by simpa only [Moves, wp, hrun] using hm
    refine ⟨by simp, fun hc => ?_, by simp⟩
    have hc' := hc.of_prefix habort.log_prefix
    exact r.stepRule.aborts habort hs (h.invariant ha hc') (h.along hc') hc

/-- `http2_close_gracefully`. -/
theorem holds_gracefully (r : ConnRule C Q G I) {c : Connection} (h : Holds C Q I c)
    (ha : c.aborted = none) (hg : G c.world) : Holds C Q I (c.step server .closeGracefully) := by
  have hs := h.steady ha
  -- the trace after the call, whether or not `event_write` fails an assertion
  have hlog : Usable c.world → ∀ w : World, w.log = c.world.gracefully.log →
      Along C w.log → Along Q w.log := by
    intro hu w hw hc
    have hc' := hc
    rw [hw, World.gracefully_log] at hc' ⊢
    obtain ⟨hcw, -⟩ := along_append_singleton.mp hc'
    refine along_append_singleton.mpr ⟨h.along hcw, r.announced _ hs (h.invariant ha hcw) hg hu ?_⟩
    rwa [← hw]
  have hwp : wp (ConnEvent.closeGracefully.program server)
      (fun _ w => Holds C Q I ⟨w, none⟩) (fun a w => Holds C Q I ⟨w, some a⟩) c.world := by
    simp only [ConnEvent.program, wp_bind]
    refine http2CloseGracefully_wp (fun _ => ⟨fun _ => hs, h.along, fun _ => h.invariant ha⟩)
      (fun hu => ⟨fun _ => hs.gracefully, hlog hu _ rfl, fun _ hc => ?_⟩)
      fun hu a w hw => ⟨by simp, hlog hu w hw, by simp⟩
    have hcw := hc
    rw [World.gracefully_log] at hcw
    exact r.graceful _ hs (h.invariant ha (along_append_singleton.mp hcw).1) hg hu hc
  simp only [Connection.step, ha, Option.isSome_none, Bool.false_eq_true, if_false]
  unfold wp at hwp
  cases hrun : ConnEvent.closeGracefully.program server c.world with
  | ok u w => simpa only [hrun] using hwp
  | error a w => simpa only [hrun] using hwp

theorem holds_step (r : ConnRule C Q G I) {c : Connection} (h : Holds C Q I c) (e : ConnEvent)
    (hg : e = .closeGracefully → G c.world) : Holds C Q I (c.step server e) := by
  cases ha : c.aborted with
  | some a => simpa [Connection.step, ha] using h
  | none =>
    rcases program_moves server e (h.steady ha) with hm | ⟨pools, rfl⟩ | rfl
    · exact r.holds_moves h ha hm
    · have hs := h.steady ha
      have hstep : c.step server (.others pools) = ⟨{ c.world with loop := pools }, none⟩ := by
        simp only [Connection.step, ha, Option.isSome_none, Bool.false_eq_true, if_false]
        rfl
      rw [hstep]
      exact ⟨fun _ => ⟨hs.receiving, hs.sent, hs.idle, hs.connected⟩, h.along,
        fun _ hc => r.others _ _ (h.invariant ha hc)⟩
    · exact r.holds_gracefully h ha (hg rfl)

variable {pools : Pools} {e₁ e₂ : ℕ} {events : List ConnEvent}

/-- A new connection. -/
theorem holds_init (hi : I (Connection.init pools e₁ e₂).world) :
    Holds C Q I (.init pools e₁ e₂) := by
  refine ⟨fun _ => ⟨?_, rfl, rfl, fun _ => rfl⟩, fun _ => along_nil, fun _ _ => hi⟩
  simp [Connection.init, EventLoop.newSock]

theorem holds_run (r : ConnRule C Q G I) {c : Connection} (h : Holds C Q I c)
    (hg : Connection.GracefulIn server G c events) :
    Holds C Q I (Connection.run server c events) := by
  induction events generalizing c with
  | nil => exact h
  | cons e events ih => exact ih (r.holds_step h e hg.1) hg.2

/-- **The run rule of a connection, for traces.** -/
theorem trace (r : ConnRule C Q G I) (hi : I (Connection.init pools e₁ e₂).world)
    (hg : Connection.GracefulIn server G (.init pools e₁ e₂) events)
    (hc : Along C (Connection.run server (.init pools e₁ e₂) events).world.log) :
    Along Q (Connection.run server (.init pools e₁ e₂) events).world.log :=
  (r.holds_run (holds_init hi) hg).along hc

/-- **The run rule of a connection, for states.** -/
theorem state (r : ConnRule C Q G I) (hi : I (Connection.init pools e₁ e₂).world)
    (hg : Connection.GracefulIn server G (.init pools e₁ e₂) events)
    (ha : (Connection.run server (.init pools e₁ e₂) events).aborted = none)
    (hc : Along C (Connection.run server (.init pools e₁ e₂) events).world.log) :
    I (Connection.run server (.init pools e₁ e₂) events).world :=
  (r.holds_run (holds_init hi) hg).invariant ha hc

end ConnRule

/-! ## The clients of the event loop -/

namespace EventLoop

variable {server : Server} {l : EventLoop}

/-- A step of the loop runs an event of a connection, or adds or removes a client. -/
theorem step_event (l : EventLoop) (a : Action) :
    step server l a = l ∨ (∃ accepted, l.aborted = none ∧ step server l a = l.accept accepted) ∨
      (∃ i e, e ≠ .closeGracefully ∧ l.aborted = none ∧
        step server l a = l.onConn i (ConnEvent.program server e)) ∨
      ∃ i, l.aborted = none ∧ step server l a = l.close i := by
  unfold step
  split
  · exact .inl rfl
  have ha : l.aborted = none := by simpa using ‹¬ l.aborted.isSome = true›
  right
  cases a with
  | accept accepted => exact .inl ⟨accepted, ha, rfl⟩
  | recv i bytes => exact .inr (.inl ⟨i, .recv bytes, by simp, ha, rfl⟩)
  | recvClosed i errno => exact .inr (.inl ⟨i, .recvClosed errno, by simp, ha, rfl⟩)
  | pending i => exact .inr (.inl ⟨i, .pending, by simp, ha, rfl⟩)
  | send i written => exact .inr (.inl ⟨i, .send written, by simp, ha, rfl⟩)
  | sendError i errno => exact .inr (.inl ⟨i, .sendError errno, by simp, ha, rfl⟩)
  | timer i id => exact .inr (.inl ⟨i, .timer id, by simp, ha, rfl⟩)
  | close i => exact .inr (.inr ⟨i, ha, rfl⟩)

/-- The client is a connection in a run without graceful closes. -/
def IsConnection (server : Server) (l : EventLoop) (sock : Sock) (client : Client) : Prop :=
  ∃ pools r s events, ConnEvent.closeGracefully ∉ events ∧
    ∃ c, c = Connection.run server (.init pools r s) events ∧ c.world.sock = sock ∧
      c.world.ctx = client.ctx ∧ c.world.log = client.log ∧
      (l.aborted = none → c.aborted = none)

theorem IsConnection.of_aborted {l' : EventLoop} {sock : Sock} {client : Client}
    (h : IsConnection server l sock client) (ha : l'.aborted = none → l.aborted = none) :
    IsConnection server l' sock client := by
  obtain ⟨pools, r, s, events, hg, c, hc, hsock, hctx, hlog, hab⟩ := h
  exact ⟨pools, r, s, events, hg, c, hc, hsock, hctx, hlog, fun h => hab (ha h)⟩

/-- The run rule that asks for nothing. -/
theorem connRule_true : ConnRule (fun _ _ => True) (fun _ _ => True) (fun _ => True)
    fun _ => True := by
  constructor <;> intros <;> trivial

/-- The event that ran on a client continues its run as a connection, after what the other
connections did to the pools. -/
theorem IsConnection.onConn {sock : Sock} {client client' : Client} {sock' : Sock} {l' : EventLoop}
    {e : ConnEvent} {w' : World} (h : IsConnection server l sock client) (ha : l.aborted = none)
    (he : e ≠ .closeGracefully) (hsock : sock' = w'.sock) (hctx : client'.ctx = w'.ctx)
    (hlog : client'.log = w'.log)
    (hres : (e.program server (l.world sock client) = .ok () w' ∧ l'.aborted = l.aborted) ∨
      ∃ a, e.program server (l.world sock client) = .error a w' ∧ l'.aborted = some a) :
    IsConnection server l' sock' client' := by
  obtain ⟨pools, r, s, events, hg, c, hc, hsock₀, hctx₀, hlog₀, hab⟩ := h
  have hnone := hab ha
  -- between two events no callback is running
  have hsteady : Steady c.world := by
    have hrun : ConnRule.Holds _ _ _ (Connection.run server (.init pools r s) events) :=
      connRule_true.holds_run (ConnRule.holds_init trivial) (Connection.gracefulIn_true ..)
    rw [← hc] at hrun
    exact hrun.steady hnone
  have hworld : ({ c.world with loop := l.pools } : World) = l.world sock client := by
    obtain ⟨⟨⟨loop, sock₁, ctx₁, callback⟩, log₁⟩, ab⟩ := c
    obtain rfl : callback = none := hsteady.idle
    simp only at hsock₀ hctx₀ hlog₀
    simp [world, hsock₀, hctx₀, hlog₀]
  -- what the other connections did to the pools is an event of this one
  have hrun : Connection.run server (.init pools r s) (events ++ [.others l.pools, e]) =
      (⟨l.world sock client, none⟩ : Connection).step server e := by
    rw [Connection.run_append, ← hc, ← hworld]
    simp only [Connection.run, List.foldl_cons, List.foldl_nil]
    congr 1
    simp only [Connection.step, hnone, Option.isSome_none, Bool.false_eq_true, if_false]
    rfl
  refine ⟨pools, r, s, _, ?_, _, hrun.symm, ?_⟩
  · simp [hg, he.symm]
  · simp only [Connection.step, Option.isSome_none, Bool.false_eq_true, if_false]
    rcases hres with ⟨hok, -⟩ | ⟨a, herr, hsome⟩
    · simp [hok, hsock, hctx, hlog]
    · simp [herr, hsock, hctx, hlog, hsome]

/-- **Every client of the event loop is a connection** in a run without graceful closes. -/
theorem exists_connection (actions : List Action) {conn : Conn} {client : Client}
    (hmem : conn ∈ (run server actions).reserved) (hclient : conn.client = some client) :
    IsConnection server (run server actions) conn.sock client := by
  induction actions using List.reverseRecOn generalizing conn client with
  | nil => simp [run, init] at hmem
  | append_singleton actions a ih =>
    rw [run_append_singleton] at hmem ⊢
    rcases @step_event server (run server actions) a with
      hstep | ⟨accepted, ha, hstep⟩ | ⟨i, e, he, ha, hstep⟩ | ⟨i, ha, hstep⟩
    · rw [hstep] at hmem ⊢
      exact ih hmem hclient
    · rw [hstep] at hmem ⊢
      rcases mem_accept hmem hclient with hmem | ⟨r, s, hsock, hctx, hlog⟩
      · exact (ih hmem hclient).of_aborted fun _ => ha
      · exact ⟨(run server actions).pools, r, s, [], by simp, _, rfl, hsock.symm, hctx.symm,
          hlog.symm, fun _ => rfl⟩
    · rw [hstep] at hmem ⊢
      rcases mem_onConn hmem hclient with hmem | ⟨conn₀, client₀, hmem₀, hc₀, w', hsock, hctx, hlog, hres⟩
      · exact (ih hmem hclient).of_aborted fun _ => ha
      · exact (ih hmem₀ hc₀).onConn ha he hsock hctx hlog hres
    · rw [hstep] at hmem ⊢
      exact (ih (mem_close hmem) hclient).of_aborted fun _ => ha

end EventLoop

end Two
