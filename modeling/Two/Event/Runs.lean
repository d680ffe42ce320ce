import Two.Event.Simulation
import Two.Library.Trace
import Mathlib.Data.List.Induction

/-!
# Runs of the event loop

What every transition of a connection keeps holds of every client in every run of the event loop,
and what every event of a connection satisfies holds along the trace of every client, also where an
assertion has failed.

## Main definitions

* `EventLoop.worlds`: the clients of a loop, each with its socket and the pools of the loop
* `RunRule C Q I`: the obligations for an invariant `I` and a property `Q` of the events of the
  traces along which the condition `C` holds
* `StepRule S C Q I`: its part about transitions, from worlds that satisfy `S`

## Main results

* `step_cases`: a step of the loop runs a program that only makes transitions, or adds or removes a
  client
* `RunRule.trace`, `RunRule.invariant`: the run rule
-/

namespace Two

open Program Relation Trace

variable {w w' : World}

/-- Transitions only extend the trace. -/
theorem FrameStep.log_prefix {live : Bool} (h : FrameStep live w w') : w.log <+: w'.log := by
  cases h with
  | quiet _ hq => simp [hq.log]
  | block => simp [World.block_log]
  | data => simp [World.marked_log]
  | request w₁ t hs res hr _ => exact hr.log_prefix.trans (by simp)
  | answer w₁ t hs res t' block hr _ _ _ => exact hr.log_prefix.trans (by simp)
  | _ => simp

theorem Callback.log_prefix {live : Bool} {cb : WriteCb} (h : Callback live cb w w') :
    w.log <+: w'.log := by
  cases h with
  | settings _ _ hq => simp [hq.log]
  | _ => simp

theorem Transition.log_prefix {live : Bool} (h : Transition live w w') : w.log <+: w'.log := by
  cases h with
  | frame _ h => exact h.log_prefix
  | complete op rest w₁ hq hc => exact (List.prefix_append _ _).trans hc.log_prefix
  | _ => simp

theorem Transitions.log_prefix (h : Transitions w w') : w.log <+: w'.log := by
  induction h with
  | refl => exact List.prefix_refl _
  | tail _ ht ih => exact ih.trans ht.log_prefix

theorem Aborts.log_prefix (h : Aborts w w') : w.log <+: w'.log := by
  obtain ⟨w₁, w₂, hsteps, -, hle, -⟩ := h
  have hlog : w.log <+: w₁.log := Transitions.log_prefix hsteps
  exact hlog.trans hle

/-- The obligations for an invariant `I` of a connection and a property `Q` of the events of its
trace, in the runs along whose trace the condition `C` holds. -/
structure RunRule (C Q : List Entry → Entry → Prop) (I : World → Prop) : Prop where
  init : ∀ pools r s, I ⟨⟨pools, EventLoop.newSock r s, .init, none⟩, []⟩
  pools : ∀ (w : World) (pools : Pools), I w → I { w with loop := pools, callback := none }
  step : ∀ w w', Transition true w w' → Sane w → I w → Along C w'.log → I w'
  entries : ∀ live w w', Transition live w w' → Sane w → I w → ∀ new, w'.log = w.log ++ new →
    ∀ a e b, new = a ++ e :: b → Along C (w.log ++ a ++ [e]) → Q (w.log ++ a) e

/-- The obligations for the transitions from worlds that satisfy `S`. -/
structure StepRule (S : World → Prop) (C Q : List Entry → Entry → Prop) (I : World → Prop) :
    Prop where
  keeps : ∀ live w w', Transition live w w' → S w → S w'
  step : ∀ w w', Transition true w w' → S w → I w → Along C w'.log → I w'
  entries : ∀ live w w', Transition live w w' → S w → I w → ∀ new, w'.log = w.log ++ new →
    ∀ a e b, new = a ++ e :: b → Along C (w.log ++ a ++ [e]) → Q (w.log ++ a) e

namespace StepRule

variable {S I : World → Prop} {C Q : List Entry → Entry → Prop}

theorem keeps_all (r : StepRule S C Q I) (h : Transitions w w') (hs : S w) : S w' := by
  induction h with
  | refl => exact hs
  | tail _ ht ih => exact r.keeps _ _ _ ht ih

/-- A transition extends the property of the trace. -/
theorem along_step (r : StepRule S C Q I) {live : Bool} (h : Transition live w w') (hs : S w)
    (hi : I w) (hq : Along Q w.log) {log : List Entry} (hlog : log <+: w'.log)
    (hc : Along C log) : Along Q log := by
  obtain ⟨new, hnew⟩ := h.log_prefix
  rw [← hnew] at hlog
  exact hq.extend (r.entries live w w' h hs hi new hnew.symm) hlog hc

/-- A sequence of transitions keeps the invariant and extends the property of the trace. -/
theorem transitions (r : StepRule S C Q I) (h : Transitions w w') (hs : S w) (hi : I w)
    (hq : Along Q w.log) (hc : Along C w'.log) : I w' ∧ Along Q w'.log := by
  induction h with
  | refl => exact ⟨hi, hq⟩
  | tail hsteps ht ih =>
    obtain ⟨hi', hq'⟩ := ih (hc.of_prefix ht.log_prefix)
    have hs' := r.keeps_all hsteps hs
    exact ⟨r.step _ _ ht hs' hi' hc, r.along_step ht hs' hi' hq' (List.prefix_refl _) hc⟩

/-- Where an assertion fails, the trace still has the property. -/
theorem aborts (r : StepRule S C Q I) (h : Aborts w w') (hs : S w) (hi : I w)
    (hq : Along Q w.log) (hc : Along C w'.log) : Along Q w'.log := by
  obtain ⟨w₁, w₂, hsteps, hlast, hle, hlog⟩ := h
  obtain ⟨hi', hq'⟩ := r.transitions hsteps hs hi hq (hc.of_prefix hle)
  rcases hlast with rfl | hlast
  · exact hq'.of_prefix hlog
  · exact r.along_step hlast (r.keeps_all hsteps hs) hi' hq' hlog hc

end StepRule

theorem RunRule.stepRule {C Q : List Entry → Entry → Prop} {I : World → Prop} (r : RunRule C Q I) :
    StepRule Sane C Q I := ⟨fun _ _ _ => Transition.sane, r.step, r.entries⟩

namespace EventLoop

/-- The clients of a loop, each with its socket and the pools. -/
def worlds (l : EventLoop) : List World :=
  l.reserved.filterMap fun conn => conn.client.map (l.world conn.sock)

variable {server : Server} {l : EventLoop}

/-- A step runs a program that only makes transitions on one connection, or adds or removes a
client. -/
theorem step_cases (l : EventLoop) (a : Action) :
    step server l a = l ∨ (∃ accepted, l.aborted = none ∧ step server l a = l.accept accepted) ∨
      (∃ i m, (∀ w, Sane w → Moves m w w) ∧ l.aborted = none ∧ step server l a = l.onConn i m) ∨
      ∃ i, l.aborted = none ∧ step server l a = l.close i := by
  -- the loop calls the read callback only while the socket is connected
  have hif : ∀ {m : M Unit}, (∀ w, Sane w → Moves m w w) → ∀ w, Sane w →
      Moves (do if (← get).sock.state = .connected then m else return ()) w w := by
    intro m hm w hs
    simp only [Moves, wp_bind, wp_get, wp_ite, wp_pure]
    exact ⟨fun _ => hm w hs, fun _ => .refl⟩
  unfold step
  split
  · exact .inl rfl
  have ha : l.aborted = none := by simpa using ‹¬ l.aborted.isSome = true›
  right
  cases a with
  | accept accepted => exact .inl ⟨accepted, ha, rfl⟩
  | recv i bytes =>
    exact .inr (.inl ⟨i, _, hif fun w _ => eventSockRead_moves bytes .refl, ha, rfl⟩)
  | recvClosed i errno =>
    exact .inr (.inl ⟨i, _, hif fun w _ => eventSockReadClosed_moves .refl (by omega), ha, rfl⟩)
  | pending i => exact .inr (.inl ⟨i, _, fun w hs => eventSockHandleRead_moves .refl hs.steady, ha, rfl⟩)
  | send i written => exact .inr (.inl ⟨i, _, fun w _ => eventSockWrite_moves written .refl, ha, rfl⟩)
  | sendError i errno =>
    exact .inr (.inl ⟨i, _, fun w _ => eventSockWriteError_moves .refl (by omega), ha, rfl⟩)
  | timer i id => exact .inr (.inl ⟨i, _, fun w _ => eventSockTimer_moves id .refl, ha, rfl⟩)
  | close i => exact .inr (.inr ⟨i, ha, rfl⟩)

/-- A new client starts with its own events, an empty trace and the initial context. -/
theorem mem_accept {accepted : Bool} {conn : Conn} {client : Client}
    (h : conn ∈ (l.accept accepted).reserved) (hc : conn.client = some client) :
    conn ∈ l.reserved ∨
      ∃ r w, conn.sock = newSock r w ∧ client.ctx = .init ∧ client.log = [] := by
  unfold accept at h
  split at h
  · exact .inl h
  · dsimp only at h
    split at h
    · rcases List.mem_cons.mp h with rfl | h
      · simp at hc
      · exact .inl h
    · split at h
      · rcases List.mem_cons.mp h with rfl | h
        · simp at hc
        · exact .inl h
      · split at h
        · rcases List.mem_cons.mp h with rfl | h
          · obtain rfl := Option.some.inj hc
            exact .inr ⟨_, _, rfl, rfl, rfl⟩
          · exact .inl h
        · exact .inl h

theorem mem_close {i : ℕ} {conn : Conn} (h : conn ∈ (l.close i).reserved) : conn ∈ l.reserved := by
  unfold close at h
  split at h
  · exact h
  · split at h
    · exact List.mem_of_mem_eraseIdx h
    · exact h

@[simp] theorem aborted_close (i : ℕ) : (l.close i).aborted = l.aborted := by
  unfold close
  split
  · rfl
  · split <;> rfl

/-- A client after a program ran on a connection: another client, or the one that ran. -/
theorem mem_onConn {i : ℕ} {m : M Unit} {conn : Conn} {client : Client}
    (h : conn ∈ (l.onConn i m).reserved) (hc : conn.client = some client) :
    conn ∈ l.reserved ∨ ∃ conn₀ client₀, conn₀ ∈ l.reserved ∧ conn₀.client = some client₀ ∧
      ∃ w', conn.sock = w'.sock ∧ client.ctx = w'.ctx ∧ client.log = w'.log ∧
        ((m (l.world conn₀.sock client₀) = .ok () w' ∧ (l.onConn i m).aborted = l.aborted) ∨
          ∃ e, m (l.world conn₀.sock client₀) = .error e w' ∧
            (l.onConn i m).aborted = some e) := by
  unfold onConn at h ⊢
  split at h
  · exact .inl h
  · rename_i conn₀ hi
    split at h
    · exact .inl h
    · rename_i client₀ hc₀
      have hmem : conn₀ ∈ l.reserved := List.mem_of_getElem? hi
      -- the connection that was served is put back; every other one is as before
      dsimp only
      split at h
      · rename_i w' hm
        rcases List.mem_or_eq_of_mem_set h with h | rfl
        · exact .inl h
        · obtain rfl := Option.some.inj hc
          exact .inr ⟨conn₀, client₀, hmem, hc₀, w', rfl, rfl, rfl, .inl ⟨hm, rfl⟩⟩
      · rename_i e w' hm
        rcases List.mem_or_eq_of_mem_set h with h | rfl
        · exact .inl h
        · obtain rfl := Option.some.inj hc
          exact .inr ⟨conn₀, client₀, hmem, hc₀, w', rfl, rfl, rfl, .inr ⟨e, hm, rfl⟩⟩

end EventLoop

section Rule

variable {C Q : List Entry → Entry → Prop} {I : World → Prop} {server : Server}

/-- What the run rule establishes of a loop. -/
def RunRule.Holds (C Q : List Entry → Entry → Prop) (I : World → Prop) (l : EventLoop) : Prop :=
  ∀ conn ∈ l.reserved, ∀ client, conn.client = some client →
    (l.aborted = none → Sane (l.world conn.sock client)) ∧
    (Along C client.log →
      Along Q client.log ∧ (l.aborted = none → I (l.world conn.sock client)))

theorem RunRule.holds_accept (r : RunRule C Q I) {l : EventLoop} (h : RunRule.Holds C Q I l)
    (ha : l.aborted = none) (accepted : Bool) : RunRule.Holds C Q I (l.accept accepted) := by
  intro conn hmem client hc
  rcases EventLoop.mem_accept hmem hc with hmem | ⟨e, e', hsock, hctx, hlog⟩
  · obtain ⟨hsane, hrule⟩ := h conn hmem client hc
    refine ⟨fun _ => ⟨(hsane ha).reading, (hsane ha).sent, rfl, (hsane ha).connected⟩,
      fun hcond => ?_⟩
    exact ⟨(hrule hcond).1, fun _ => r.pools _ _ ((hrule hcond).2 ha)⟩
  · simp only [EventLoop.world, hsock, hctx, hlog]
    refine ⟨fun _ => ⟨?_, rfl, rfl, fun _ => rfl⟩, fun _ => ⟨along_nil, fun _ => r.init _ e e'⟩⟩
    simp [EventLoop.newSock, ReadCb.states, Context.init]

theorem RunRule.holds_close (r : RunRule C Q I) {l : EventLoop} (h : RunRule.Holds C Q I l)
    (ha : l.aborted = none) (i : ℕ) : RunRule.Holds C Q I (l.close i) := by
  intro conn hmem client hc
  obtain ⟨hsane, hrule⟩ := h conn (EventLoop.mem_close hmem) client hc
  refine ⟨fun _ => ⟨(hsane ha).reading, (hsane ha).sent, rfl, (hsane ha).connected⟩,
      fun hcond => ?_⟩
  exact ⟨(hrule hcond).1, fun _ => r.pools _ _ ((hrule hcond).2 ha)⟩

theorem RunRule.holds_onConn (r : RunRule C Q I) {l : EventLoop} (h : RunRule.Holds C Q I l)
    (ha : l.aborted = none) (i : ℕ) {m : M Unit} (hm : ∀ w, Sane w → Moves m w w) :
    RunRule.Holds C Q I (l.onConn i m) := by
  intro conn hmem client hc
  rcases EventLoop.mem_onConn hmem hc with hmem | ⟨conn₀, client₀, hmem₀, hc₀, w', hsock, hctx, hlog, hres⟩
  · obtain ⟨hsane, hrule⟩ := h conn hmem client hc
    refine ⟨fun _ => ⟨(hsane ha).reading, (hsane ha).sent, rfl, (hsane ha).connected⟩,
      fun hcond => ?_⟩
    exact ⟨(hrule hcond).1, fun _ => r.pools _ _ ((hrule hcond).2 ha)⟩
  · obtain ⟨hsane, hrule⟩ := h conn₀ hmem₀ client₀ hc₀
    have hmoves := hm _ (hsane ha)
    simp only [EventLoop.world, hsock, hctx, hlog]
    rcases hres with ⟨hok, -⟩ | ⟨e, herr, haborted⟩
    -- a finished call: every transition it took keeps the rule
    · have htrans : Transitions (l.world conn₀.sock client₀) w' := by
        simpa only [Moves, wp, hok] using hmoves
      have hs' := Transitions.sane htrans (hsane ha)
      refine ⟨fun _ => ⟨hs'.reading, hs'.sent, rfl, hs'.connected⟩, fun hcond => ?_⟩
      have hlog := Transitions.log_prefix htrans
      obtain ⟨hq, hi⟩ := hrule (hcond.of_prefix hlog)
      obtain ⟨hi', hq'⟩ := r.stepRule.transitions htrans (hsane ha) (hi ha) hq hcond
      exact ⟨hq', fun _ => r.pools _ _ hi'⟩
    · have habort : Aborts (l.world conn₀.sock client₀) w' := by
        simpa only [Moves, wp, herr] using hmoves
      refine ⟨fun hnone => by simp [haborted] at hnone, fun hcond => ⟨?_, fun hnone => ?_⟩⟩
      · obtain ⟨hq, hi⟩ := hrule (hcond.of_prefix habort.log_prefix)
        exact r.stepRule.aborts habort (hsane ha) (hi ha) hq hcond
      · simp [haborted] at hnone

theorem RunRule.holds_run (r : RunRule C Q I) (actions : List EventLoop.Action) :
    RunRule.Holds C Q I (EventLoop.run server actions) := by
  induction actions using List.reverseRecOn with
  | nil =>
    intro conn hmem
    simp [EventLoop.run, EventLoop.init] at hmem
  | append_singleton actions a ih =>
    rw [EventLoop.run_append_singleton]
    rcases @EventLoop.step_cases server (EventLoop.run server actions) a with
      h | ⟨accepted, ha, h⟩ | ⟨i, m, hm, ha, h⟩ | ⟨i, ha, h⟩
    · rwa [h]
    · rw [h]
      exact r.holds_accept ih ha accepted
    · rw [h]
      exact r.holds_onConn ih ha i hm
    · rw [h]
      exact r.holds_close ih ha i

variable {actions : List EventLoop.Action} {w : World}

/-- **The run rule for traces.** In every run, a trace along which the condition holds has the
property, also where an assertion has failed. -/
theorem RunRule.trace (r : RunRule C Q I) (hw : w ∈ (EventLoop.run server actions).worlds)
    (hc : Along C w.log) : Along Q w.log := by
  obtain ⟨conn, hmem, hclient⟩ := List.mem_filterMap.mp hw
  obtain ⟨client, hsome, rfl⟩ := Option.map_eq_some_iff.mp hclient
  exact ((r.holds_run actions conn hmem client hsome).2 hc).1

/-- **The run rule for states.** In every run in which no assertion has failed, the clients along
whose traces the condition holds satisfy the invariant. -/
theorem RunRule.invariant (r : RunRule C Q I) (ha : (EventLoop.run server actions).aborted = none)
    (hw : w ∈ (EventLoop.run server actions).worlds) (hc : Along C w.log) : Sane w ∧ I w := by
  obtain ⟨conn, hmem, hclient⟩ := List.mem_filterMap.mp hw
  obtain ⟨client, hsome, rfl⟩ := Option.map_eq_some_iff.mp hclient
  obtain ⟨hsane, hrule⟩ := r.holds_run actions conn hmem client hsome
  exact ⟨hsane ha, (hrule hc).2 ha⟩

end Rule

end Two
