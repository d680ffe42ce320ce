import Two.Http2.Streams

/-!
# Flow control

The context has one window for the connection and one for the current stream. The window of the
connection is the exact balance of what the trace says about it. The window of the stream is at most
the balance of the current stream, as long as no WINDOW_UPDATE frame that names another stream is
added to it.

## Main definitions

* `Flow`: what a transition does to the windows
* `connectionWindow`, `allowance`, `sentBytes`: the balance of the connection, and what a stream may
  send and has sent
* `OwnIncrement`: the condition on the events of a trace

## Main results

* `Transition.flow`: every transition is one of the few that `Flow` lists
* `connection_window_exact`: the window of the connection in every run
* `stream_window_bounds`: the window of the stream in every run that meets the condition
-/

namespace Two

open Program Relation Trace

/-! ## What a transition does to the windows -/

/-- A stream whose window follows the initial window size. -/
def StreamState.active (s : StreamState) : Bool := s = .opened || s = .halfClosedRemote

/-- The entry says nothing about the windows. -/
@[simp] def Entry.flowless : Entry → Bool
  | .send (.data ..) _ => false
  | .streamState .opened _ => false
  | .setting .. => false
  | .increment .. => false
  | _ => true

/-- The windows and what they depend on are the same, except that the stream may be half closed or
closed. -/
structure SameFlow (c c' : Context) : Prop where
  window : c'.windowSize = c.windowSize
  streamWindow : c'.stream.windowSize = c.stream.windowSize
  initial : c'.settings.initialWindowSize = c.settings.initialWindowSize
  id : c'.stream.id = c.stream.id
  last : c'.lastOpenedStreamId = c.lastOpenedStreamId
  active : c'.stream.state.active = true → c.stream.state.active = true

/-- The trace is longer, and says nothing new about the windows. -/
def Unmetered (log log' : List Entry) : Prop :=
  ∃ new, log' = log ++ new ∧ ∀ e ∈ new, e.flowless = true

/-- The context and the trace that a transition leaves. -/
inductive Flow (w : World) : Context → List Entry → Prop
  | same (c log) (hc : SameFlow w.ctx c) (hlog : Unmetered w.log log) : Flow w c log
  | opened (id) (hid : w.ctx.lastOpenedStreamId < id) : Flow w (w.opening id).ctx (w.opening id).log
  | setting (id value c) (hc : applySetting w.ctx id value = .ok c) :
    Flow w c (w.stored id value c).log
  | connWindow (n) (hn : n < 2 ^ 31) (ha : ¬ overflows w.ctx.windowSize n) :
    Flow w (w.connIncrement n).ctx (w.connIncrement n).log
  | window (h region) (hr : WindowReady w h region) :
    Flow w (w.increment h.streamId (bufferGetU31 region)).ctx
      (w.increment h.streamId (bufferGetU31 region)).log
  | sent (w₁ a) (hs : Sending w w₁ a) (hpos : 0 < sendLength w₁.ctx) :
    Flow w w₁.continued.ctx w₁.continued.log

namespace SameFlow

variable {c c' c'' : Context}

theorem rfl : SameFlow c c := ⟨Eq.refl _, Eq.refl _, Eq.refl _, Eq.refl _, Eq.refl _, fun h => h⟩

theorem trans (h : SameFlow c c') (h' : SameFlow c' c'') : SameFlow c c'' :=
  ⟨h'.window.trans h.window, h'.streamWindow.trans h.streamWindow, h'.initial.trans h.initial,
    h'.id.trans h.id, h'.last.trans h.last, fun ha => h.active (h'.active ha)⟩

end SameFlow

namespace Unmetered

variable {log log' log'' : List Entry}

theorem rfl : Unmetered log log := ⟨[], by simp, by simp⟩

theorem trans (h : Unmetered log log') (h' : Unmetered log' log'') : Unmetered log log'' := by
  obtain ⟨new, rfl, hnew⟩ := h
  obtain ⟨new', rfl, hnew'⟩ := h'
  refine ⟨new ++ new', List.append_assoc _ _ _, ?_⟩
  simpa [or_imp, forall_and] using ⟨hnew, hnew'⟩

theorem add {e : Entry} (h : Unmetered log log') (he : e.flowless = true) :
    Unmetered log (log' ++ [e]) := h.trans ⟨[e], by simp, by simpa using he⟩

end Unmetered

section Steps

variable {w w' : World}

theorem Quiet.sameFlow (h : Quiet w w') : SameFlow w.ctx w'.ctx :=
  ⟨h.window, h.streamWindow, by rw [h.settings], h.id, h.last, fun ha => h.streamState ▸ ha⟩

theorem unmetered_markEntry (w : World) (h : FrameHeader) (log : List Entry) :
    Unmetered log (log ++ w.markEntry h) := by
  refine ⟨_, rfl, fun e he => ?_⟩
  obtain ⟨s, rfl, -⟩ := w.mem_markEntry h he
  rfl

theorem BlockReady.active {h : FrameHeader} {n : ℕ} (hb : BlockReady w h n) (ho : Orderly w) :
    w.ctx.stream.state.active = true := by
  have hclosed := hb.state
  have hlocal := ho.states
  cases hs : w.ctx.stream.state <;> simp_all [StreamState.active]

theorem BlockReady.sameFlow {h : FrameHeader} {data : Bytes} {n : ℕ} (hb : BlockReady w h n)
    (ho : Orderly w) : SameFlow w.ctx (w.block h data n).ctx := by
  have ha := hb.active ho
  constructor <;> simp [ha]

theorem DataReady.sameFlow {h : FrameHeader} (hd : DataReady w h) :
    SameFlow w.ctx (w.marked h).ctx := by
  have ha : w.ctx.stream.state.active = true := by simp [hd.state, StreamState.active]
  constructor <;> simp [ha]

theorem RequestReady.sameFlow {w₁ : World} (hr : RequestReady w w₁) (ho : Orderly w) :
    SameFlow w.ctx w₁.ctx ∧ Unmetered w.log w₁.log := by
  cases hr with
  | block h data n hb hc =>
    exact ⟨hb.sameFlow ho, w.block_log h data n ▸ unmetered_markEntry _ _ _⟩
  | data h hd hc => exact ⟨hd.sameFlow, w.marked_log h ▸ unmetered_markEntry _ _ _⟩

theorem bufferGetU31_lt (b : Bytes) : bufferGetU31 b < 2 ^ 31 := by
  have hlt : ∀ i, byteAt b i < 256 := fun i => (b.getD i 0).toNat_lt
  have h1 := hlt 1
  have h2 := hlt 2
  have h3 := hlt 3
  unfold bufferGetU31
  omega

theorem FrameStep.flow (h : FrameStep true w w') (ho : Orderly w) : Flow w w'.ctx w'.log := by
  cases h with
  -- steps that move no window and record nothing about one
  | quiet _ hq => exact .same _ _ hq.sameFlow (hq.log ▸ .rfl)
  | reply f hf hs hw =>
    refine .same _ _ (by simpa using .rfl) ?_
    rw [World.written_log]
    refine .add .rfl ?_
    cases f <;> simp_all [Frame.stream?]
  | reset e id hid hw =>
    have hlog := w.resetBy_log e id
    rw [List.append_assoc] at hlog
    refine .same _ _ ?_ ⟨_, hlog, ?_⟩
    -- a reset stream is no longer active
    · by_cases hcur : id = w.ctx.stream.id
      · constructor <;> simp [hcur, StreamState.active]
      · simpa [hcur] using .rfl
    · split <;> simp
  | openStream h region hh ht hc hid ho' hs => exact .opened h.streamId hid
  | trailers h region hh ht hc hid hs =>
    exact .same _ _ ⟨rfl, rfl, rfl, rfl, rfl, fun h => h⟩ .rfl
  | block h data n hb =>
    exact .same _ _ (hb.sameFlow ho) (w.block_log h data n ▸ unmetered_markEntry _ _ _)
  | data h hd => exact .same _ _ hd.sameFlow (w.marked_log h ▸ unmetered_markEntry _ _ _)
  | request w₁ t headers res hr hl =>
    -- the request and its headers are not subject to flow control
    obtain ⟨hc, hlog⟩ := hr.sameFlow ho
    refine .same _ _ (hc.trans ⟨rfl, rfl, rfl, rfl, rfl, fun h => h⟩) ?_
    exact (hlog.add rfl).add rfl
  | answer w₁ t headers res t' block hr hl hb hw =>
    obtain ⟨hc, hlog⟩ := hr.sameFlow ho
    rw [World.answering_ctx, World.answering_log]
    refine .same _ _ (hc.trans ⟨rfl, rfl, rfl, rfl, rfl, fun h => h⟩) ?_
    exact ((hlog.add rfl).add rfl).add rfl
  -- the steps that move a window
  | setting id value c hc => exact .setting id value c hc
  | connWindow h region hh ht hid ha => exact .connWindow _ (bufferGetU31_lt _) ha
  | window h region n hr hn hs =>
    subst hn
    exact .window h region hr
  | windowSend h region n hr hn hs hw =>
    subst hn
    exact .sent _ _ (.window h region hr) hs
  | frame h region => exact .same _ _ .rfl (.add .rfl rfl)
  | decode t => exact .same _ _ ⟨rfl, rfl, rfl, rfl, rfl, fun h => h⟩ (.add .rfl rfl)
  -- an error, a reset and a GOAWAY frame may close the stream, but leave the windows
  | error e hw =>
    refine .same _ _ ?_ ⟨_, World.fail_log _ _, by simp⟩
    constructor <;> simp
  | rst h region hh ht hid =>
    refine .same _ _ ?_ ⟨_, World.rstBy_log _ _, by simp⟩
    constructor <;> simp [StreamState.active]
  | goawayClose =>
    refine .same _ _ ?_ ⟨_, World.streamTo_log _ _, by simp⟩
    constructor <;> simp [StreamState.active]
  | goaway hr hw =>
    refine .same _ _ ?_ ⟨_, World.goneAway_log _, by simp⟩
    constructor <;> simp

/-- **What a transition does to the windows.** -/
theorem Transition.flow (h : Transition true w w') (ho : Orderly w) : Flow w w'.ctx w'.log := by
  cases h with
  | frame _ h => exact h.flow ho
  | closeImmediate =>
    refine .same _ _ ?_ ⟨_, World.closeImmediate_log _, by simp⟩
    constructor <;> simp [StreamState.active]
  | preface e hr hc hp hw =>
    refine .same _ _ ?_ ⟨_, World.greeted_log _ _, by simp⟩
    constructor <;> simp
  | ready e h hs hr =>
    refine .same _ _ ?_ ⟨_, World.readied_log _ _ _, by simp⟩
    constructor <;> simp
  | consume bytes n h => exact .same _ _ .rfl (.add .rfl rfl)
  | complete op rest w₁ hq hc =>
    have hcall : Unmetered w.log (w.popped.calling op 0).log := .add .rfl rfl
    rw [World.returned_ctx, World.returned_log]
    -- only the callback that continues a response sends DATA
    generalize hcb : op.cb = cb at hc
    cases hc with
    | writeError => exact .same _ _ .rfl hcall
    | goaway =>
      refine .same _ _ ?_ (hcall.trans ⟨_, World.closeImmediate_log _, by simp⟩)
      constructor <;> simp [StreamState.active]
    | settings _ _ hq' => exact .same _ _ hq'.sameFlow (hq'.log ▸ hcall)
    | done _ hb =>
      refine .same _ _ ?_ (hcall.trans ⟨_, World.streamTo_log _ _, by simp⟩)
      constructor <;> simp [StreamState.active]
    | idle _ hb hs => exact .same _ _ .rfl hcall
    | send _ hs hw => exact .sent _ _ (.complete op rest hq hcb) hs
  | failed op rest status hq hs =>
    refine .same _ _ ?_ ⟨_, World.dropped_log _ _ _, by simp⟩
    constructor <;> simp [StreamState.active]
  | flush h => exact .same _ _ .rfl .rfl

end Steps

/-! ## The window of the connection -/

namespace Entry

/-- An increment of the window of the connection that was accepted. -/
@[simp] def connectionGrant : Entry → ℕ
  | .increment id n _ => if id = 0 then n else 0
  | _ => 0

/-- The bytes of a DATA frame. -/
@[simp] def dataBytes : Entry → ℕ
  | .send (.data _ _ payload) _ => payload.length
  | _ => 0

theorem flowless_grants {e : Entry} (h : e.flowless = true) :
    e.connectionGrant = 0 ∧ e.dataBytes = 0 := by
  cases e with
  | send f s => cases f <;> simp_all
  | increment => simp at h
  | _ => simp

end Entry

/-- The window of the connection that the trace leaves: 65535 and the accepted increments on stream
0, less the bytes of all DATA frames. -/
def connectionWindow (log : List Entry) : ℤ :=
  65535 + total Entry.connectionGrant log - total Entry.dataBytes log

/-- The window of the connection is exact. -/
structure Metered (c : Context) (log : List Entry) : Prop where
  exact : c.windowSize = connectionWindow log
  nonneg : 0 ≤ c.windowSize
  bound : c.windowSize ≤ 2 ^ 31 - 1

theorem int32_of_mem {x : ℤ} (h : -2 ^ 31 ≤ x) (h' : x < 2 ^ 31) : int32 x = x := by
  unfold int32
  rw [Int.emod_eq_of_lt (by omega) (by omega)]
  omega

/-- An increment is refused exactly where the sum is too large. -/
theorem overflows_iff {x : ℤ} {n : ℕ} (h : 0 ≤ x) (h' : x ≤ 2 ^ 31 - 1) (hn : n < 2 ^ 31) :
    overflows x n ↔ x + n > 2 ^ 31 - 1 := by
  unfold overflows
  rw [Int.emod_eq_of_lt (by omega) (by omega)]

section Connection

variable {w w' : World} {c : Context} {log : List Entry}

theorem Unmetered.connectionWindow_eq (h : Unmetered log log') :
    connectionWindow log' = connectionWindow log := by
  obtain ⟨new, rfl, hnew⟩ := h
  have hgrant := total_eq_zero fun e he => (Entry.flowless_grants (hnew e he)).1
  have hdata := total_eq_zero fun e he => (Entry.flowless_grants (hnew e he)).2
  simp [connectionWindow, hgrant, hdata]

theorem Metered.same (hm : Metered w.ctx w.log) (hc : c.windowSize = w.ctx.windowSize)
    (hlog : connectionWindow log = connectionWindow w.log) : Metered c log :=
  ⟨by rw [hc, hlog, hm.exact], hc ▸ hm.nonneg, hc ▸ hm.bound⟩

theorem length_dataFrame (w : World) (s : State) :
    (Entry.send w.dataFrame s).dataBytes = w.dataLength := by
  simp [World.dataFrame]

theorem dataLength_le_windows {w : World} (h : 0 < sendLength w.ctx) :
    (w.dataLength : ℤ) ≤ w.ctx.windowSize ∧ (w.dataLength : ℤ) ≤ w.ctx.stream.windowSize := by
  have hconn : sendLength w.ctx ≤ w.ctx.windowSize := (min_le_right _ _).trans (min_le_left _ _)
  have hstream : sendLength w.ctx ≤ w.ctx.stream.windowSize :=
    (min_le_right _ _).trans (min_le_right _ _)
  have hlen : w.dataLength ≤ (sendLength w.ctx).toNat := min_le_left _ _
  omega

/-- The world in which `http2_continue_send` is called has the same window of the connection. -/
theorem Sending.metered {w₁ : World} {a : List Entry} (h : Sending w w₁ a)
    (hm : Metered w.ctx w.log) : Metered w₁.ctx w₁.log := by
  cases h with
  | window h region hr =>
    refine hm.same rfl ?_
    simp [connectionWindow, hr.stream]
  | complete op rest hq hcb =>
    refine hm.same rfl ?_
    simp [connectionWindow]

theorem Metered.continued (hm : Metered w.ctx w.log) (hs : 0 < sendLength w.ctx) :
    Metered w.continued.ctx w.continued.log := by
  obtain ⟨hexact, hnonneg, hbound⟩ := hm
  have hle := (dataLength_le_windows hs).1
  have hlog : connectionWindow w.continued.log = connectionWindow w.log - w.dataLength := by
    have := length_dataFrame w w.toState
    simp only [World.continued_log, connectionWindow, total_append, total_cons, total_nil, this]
    simp
    omega
  rw [World.continued_ctx, Context.advance]
  exact ⟨by rw [hlog, ← hexact], by dsimp only; omega, by dsimp only; omega⟩

/-- A transition keeps the window of the connection exact. -/
theorem Flow.metered (h : Flow w c log) (hm : Metered w.ctx w.log) : Metered c log := by
  cases h with
  | same _ _ hc hlog => exact hm.same hc.window hlog.connectionWindow_eq
  | opened id hid => exact hm.same rfl (by simp [connectionWindow])
  | setting id value _ hc =>
    obtain ⟨_, _, _, rfl⟩ := applySetting_eq hc
    exact hm.same rfl (by simp [connectionWindow])
  | connWindow n hn ha =>
    obtain ⟨hexact, hnonneg, hbound⟩ := hm
    rw [overflows_iff hnonneg hbound hn] at ha
    have hsum : int32 (w.ctx.windowSize + n) = w.ctx.windowSize + n :=
      int32_of_mem (by omega) (by omega)
    have hlog : connectionWindow (w.connIncrement n).log = connectionWindow w.log + n := by
      simp [connectionWindow]
      omega
    rw [World.connIncrement_ctx, hsum]
    exact ⟨by rw [hlog, hexact], by dsimp only; omega, by dsimp only; omega⟩
  | window h region hr => exact (Sending.window h region hr).metered hm
  | sent w₁ a hs hpos => exact (hs.metered hm).continued hpos

/-- A WINDOW_UPDATE frame on stream 0, where the window of the connection is exact. -/
theorem handleFrame_connection (server : Server) {h : FrameHeader} {region : Bytes}
    (hm : Metered w.ctx log) (ht : h.type = .windowUpdate) (hid : h.streamId = 0)
    (hlen : h.length = 4) (hn : bufferGetU31 region ≠ 0) :
    handleFrame server h region w =
      if connectionWindow log + bufferGetU31 region ≤ 2 ^ 31 - 1 then
        .ok 0 (w.connIncrement (bufferGetU31 region))
      else failWith .flowControlError w := by
  have ha := overflows_iff hm.nonneg hm.bound (bufferGetU31_lt region)
  have hframe : handleFrame server h region w =
      (if overflows w.ctx.windowSize (bufferGetU31 region) then failWith .flowControlError
        else do
          record (.increment 0 (bufferGetU31 region))
          modifyCtx fun c => { c with windowSize := int32 (c.windowSize + bufferGetU31 region) }
          return 0) w := by
    simp only [handleFrame, ht, handleWindowUpdateFrame, getCtx, hid, hlen]
    simp [hn]
    rfl
  rw [hframe, ← hm.exact]
  by_cases hover : overflows w.ctx.windowSize (bufferGetU31 region)
  · rw [if_pos hover, if_neg (by have := ha.mp hover; omega)]
  · rw [if_neg hover, if_pos (by have := mt ha.mpr hover; omega)]
    rfl

theorem updateSettingsLoop_window (parameters : List (ℕ × ℕ)) (count : ℕ) (w : World) :
    wp (updateSettingsLoop parameters count) (fun _ w' => w'.ctx.windowSize = w.ctx.windowSize)
      (fun _ _ => True) w := by
  induction parameters generalizing count w with
  | nil => simp [updateSettingsLoop]
  | cons p parameters ih =>
    obtain ⟨id, value⟩ := p
    simp only [updateSettingsLoop, wp_bind, wp_getCtx]
    cases ha : applySetting w.ctx id value with
    | error e =>
      simp only [wp_bind, wp_pure]
      exact http2Error_wp (fun _ => by simp) fun _ _ _ _ _ => trivial
    | ok c =>
      obtain ⟨_, _, _, rfl⟩ := applySetting_eq ha
      simp only [wp_bind, wp_record, wp_modifyCtx]
      exact ih _ _

/-- A SETTINGS frame leaves the window of the connection as it is. -/
theorem handleSettingsFrame_window (h : FrameHeader) (payload : Bytes) (w : World) :
    wp (handleSettingsFrame h payload) (fun _ w' => w'.ctx.windowSize = w.ctx.windowSize)
      (fun _ _ => True) w := by
  have hfail : ∀ e, wp (failWith e) (fun _ w' => w'.ctx.windowSize = w.ctx.windowSize)
      (fun _ _ => True) w := by
    intro e
    simp only [failWith, wp_bind, wp_pure]
    exact http2Error_wp (fun _ => by simp) fun _ _ _ _ _ => trivial
  simp only [handleSettingsFrame, wp_ite, wp_bind, wp_getCtx, wp_modifyCtx, wp_pure]
  refine ⟨fun _ => hfail _, fun _ => ⟨fun _ => ⟨fun _ => hfail _, fun _ => ?_⟩, fun _ =>
    ⟨fun _ => hfail _, fun _ => ⟨fun _ => trivial, fun _ => ?_⟩⟩⟩⟩
  · refine (updateSettingsLoop_window _ 0 w).mono (fun total w' h' => ?_) fun _ _ => id
    exact ⟨fun _ => sendFrame_wp (fun _ _ => by simpa using h') fun _ _ _ _ _ => trivial,
      fun _ => h'⟩
  · cases ht : w.ctx.timer with
    | none => simp [eventTimerStop]
    | some id => simp [eventTimerStop]

end Connection

/-- The window of the connection is exact where a frame is received, and a WINDOW_UPDATE frame on
stream 0 is refused exactly where the sum would be too large; DATA frames stay inside what the
client has granted. -/
def ConnectionMetered (server : Server) (before : List Entry) : Entry → Prop
  | .frame h region s => Metered s.ctx before ∧
      (h.type = .windowUpdate → h.streamId = 0 → h.length = 4 → bufferGetU31 region ≠ 0 →
        handleFrame server h region ⟨s, before ++ [.frame h region s]⟩ =
          if connectionWindow before + bufferGetU31 region ≤ 2 ^ 31 - 1 then
            .ok 0 (World.connIncrement ⟨s, before ++ [.frame h region s]⟩ (bufferGetU31 region))
          else failWith .flowControlError ⟨s, before ++ [.frame h region s]⟩)
  | .send (.data _ _ payload) _ =>
      total Entry.dataBytes before + payload.length ≤ 65535 + total Entry.connectionGrant before
  | _ => True

theorem runRule_metered (server : Server) :
    RunRule (fun _ _ => True) (ConnectionMetered server)
      fun w => Orderly w ∧ Metered w.ctx w.log := by
  refine .of_orderly ?_ (fun w pools hm => hm) (fun w w' ht _ ho hm _ => (ht.flow ho).metered hm) ?_
  · intro pools r s
    have hinit : Context.init.windowSize = 65535 := rfl
    exact ⟨hinit, by simp [hinit], by simp [hinit]⟩
  · intro live w w' ht _ ho hm new hlog a e b hnew _
    unfold ConnectionMetered
    split
    · rename_i h region s
      obtain ⟨rfl, rfl⟩ := ht.frame_entry hlog hnew
      rw [List.append_nil]
      exact ⟨hm, handleFrame_connection server hm⟩
    · rename_i id fin payload s
      -- a DATA frame is cut to the window the connection has left
      obtain ⟨w₁, hsend, hs, rfl, hf⟩ := ht.data_entry hlog hnew
      obtain ⟨-, -, rfl⟩ := Frame.data.inj hf
      have hm₁ := (hsend.metered hm).exact
      have hle := (dataLength_le_windows hs).1
      have hlog₁ : w₁.log = w.log ++ a := by cases hsend <;> simp
      rw [hlog₁] at hm₁
      simp only [length_slice]
      unfold connectionWindow at hm₁
      omega
    · trivial

section Runs

variable {server : Server} {actions : List EventLoop.Action} {w : World}

/-- **Connection flow control.** In every run the window of the connection is 65535 and the accepted
increments on stream 0 less all DATA bytes sent, between 0 and 2 ^ 31 - 1; an increment is refused
exactly where the sum would be larger, and SETTINGS frames never change the window. -/
theorem connection_window_exact (hw : w ∈ (EventLoop.run server actions).worlds) :
    Along (ConnectionMetered server) w.log ∧
      ((EventLoop.run server actions).aborted = none → Metered w.ctx w.log) ∧
      ∀ h payload u r u', handleSettingsFrame h payload u = .ok r u' →
        u'.ctx.windowSize = u.ctx.windowSize := by
  have hc : Along (fun _ _ => True) w.log := fun _ _ _ _ => trivial
  refine ⟨(runRule_metered server).trace hw hc, fun ha => ?_, fun h payload u r u' hok => ?_⟩
  · exact ((runRule_metered server).invariant ha hw hc).2.2
  · have := handleSettingsFrame_window h payload u
    rwa [wp, hok] at this

/-- The window of the connection in an ordinary exchange. -/
theorem connection_window_exact_exchange :
    (EventLoop.run (Sample.server 2) Sample.exchange).aborted = none ∧
      (EventLoop.run (Sample.server 2) Sample.exchange).worlds.length = 1 ∧
      ∀ w ∈ (EventLoop.run (Sample.server 2) Sample.exchange).worlds, Metered w.ctx w.log := by
  have ha : (EventLoop.run (Sample.server 2) Sample.exchange).aborted = none := by decide +kernel
  exact ⟨ha, by decide +kernel, fun w hw => (connection_window_exact hw).2.1 ha⟩

end Runs

/-! ## The window of the stream -/

namespace Entry

variable (id : ℕ)

/-- The initial window size in force when a stream is opened, and its changes while the stream is
open. -/
@[simp] def initialGrant : Entry → ℤ
  | .streamState .opened s => if s.ctx.stream.id = id then s.ctx.settings.initialWindowSize else 0
  | .setting parameter value s =>
      if parameter = 4 ∧ s.ctx.stream.id = id ∧ s.ctx.stream.state.active then
        value - s.ctx.settings.initialWindowSize
      else 0
  | _ => 0

/-- An increment that was accepted from a frame that names a stream; stream 0 is the connection. -/
@[simp] def streamGrant : Entry → ℕ
  | .increment i n _ => if i = id ∧ i ≠ 0 then n else 0
  | _ => 0

theorem flowless_stream {e : Entry} (h : e.flowless = true) :
    e.initialGrant id = 0 ∧ e.streamGrant id = 0 ∧ e.dataOf id = [] := by
  cases e with
  | send f s => cases f <;> simp_all
  | streamState new s => cases new <;> simp_all
  | setting | increment => simp at h
  | _ => simp

end Entry

section Allowance

variable (id : ℕ) (log : List Entry)

/-- What a stream may send: the initial window size when it was opened, the changes of that setting
while it was open, and the increments that name it. -/
def allowance : ℤ := total (Entry.initialGrant id) log + total (Entry.streamGrant id) log

/-- What a stream may still send. -/
def streamBalance : ℤ := allowance id log - (sentData id log).length

end Allowance

/-- A WINDOW_UPDATE frame whose increment is added to the window of the stream names the current
stream. -/
def OwnIncrement (_before : List Entry) : Entry → Prop
  | .increment id _ s => id ≠ 0 → id = s.ctx.stream.id
  | _ => True

instance (before : List Entry) : DecidablePred (OwnIncrement before)
  | .increment id _ s => inferInstanceAs (Decidable (id ≠ 0 → id = s.ctx.stream.id))
  | .frame .. | .send .. | .error .. | .eventRead .. | .streamState .. | .reset .. | .setting ..
  | .decode .. | .request .. | .completed .. | .ready | .consumed .. =>
    inferInstanceAs (Decidable True)

/-- A DATA frame stays inside the allowance of its stream, the window is no larger than the balance
where a frame is received, and an increment for another stream does not enlarge it. -/
def WithinAllowance (before : List Entry) : Entry → Prop
  | .frame _ _ s => s.ctx.stream.windowSize ≤ streamBalance s.ctx.stream.id before
  | .send (.data id _ payload) _ => payload.length ≤ streamBalance id before
  | .increment id n s => id ≠ s.ctx.stream.id → id ≠ 0 →
      int32 (s.ctx.stream.windowSize + n) ≤ s.ctx.stream.windowSize
  | _ => True

instance (before : List Entry) : DecidablePred (WithinAllowance before)
  | .frame _ _ s => inferInstanceAs (Decidable (s.ctx.stream.windowSize ≤ _))
  | .send (.data id _ payload) _ =>
    inferInstanceAs (Decidable ((payload.length : ℤ) ≤ streamBalance id before))
  | .increment id _ s => inferInstanceAs (Decidable (id ≠ s.ctx.stream.id → id ≠ 0 → _ ≤ _))
  | .send (.ping ..) _ | .send (.goaway ..) _ | .send (.settings ..) _ | .send .settingsAck _
  | .send (.headers ..) _ | .send (.rstStream ..) _ | .completed .. | .error .. | .eventRead ..
  | .streamState .. | .reset .. | .setting .. | .decode .. | .request .. | .ready
  | .consumed .. => inferInstanceAs (Decidable True)

/-- The window of the stream is its balance, as a 32-bit number. While the stream is open, what its
balance owes to the settings is the present initial window size. -/
structure StreamMetered (c : Context) (log : List Entry) : Prop where
  window : c.stream.windowSize = int32 (streamBalance c.stream.id log)
  initial : c.settings.initialWindowSize ≤ 2 ^ 31 - 1
  active : c.stream.state.active = true →
    total (Entry.initialGrant c.stream.id) log = c.settings.initialWindowSize
  grant : 0 ≤ total (Entry.initialGrant c.stream.id) log ∧
    total (Entry.initialGrant c.stream.id) log ≤ 2 ^ 31 - 1
  sent : (sentData c.stream.id log).length ≤
    2 ^ 31 - 1 + total (Entry.streamGrant c.stream.id) log
  fresh : ∀ id, c.lastOpenedStreamId < id →
    total (Entry.initialGrant id) log = 0 ∧ total (Entry.streamGrant id) log = 0

theorem int32_add_int32 (x y : ℤ) : int32 (int32 x + y) = int32 (x + y) := by
  unfold int32
  omega

theorem int32_le {x : ℤ} (h : -2 ^ 31 ≤ x) : int32 x ≤ x := by
  unfold int32
  omega

theorem int32_sub_of_le {x y : ℤ} (h : 0 ≤ y) (h' : y ≤ int32 x) : int32 x - y = int32 (x - y) := by
  unfold int32 at h' ⊢
  omega

/-- What an accepted parameter does to the window of the stream. -/
theorem applySetting_window {id value : ℕ} {c c' : Context}
    (h : applySetting c id value = .ok c') :
    (id ≠ 4 ∧ c'.stream.windowSize = c.stream.windowSize ∧
      c'.settings.initialWindowSize = c.settings.initialWindowSize) ∨
    (id = 4 ∧ value ≤ 2 ^ 31 - 1 ∧ c'.settings.initialWindowSize = value ∧
      c'.stream.windowSize = if c.stream.state.active then
        int32 (c.stream.windowSize + int32 (value - c.settings.initialWindowSize))
      else c.stream.windowSize) := by
  unfold applySetting at h
  split at h
  · cases h
    exact .inl ⟨by decide, rfl, rfl⟩
  · split at h <;> cases h
    exact .inl ⟨by decide, rfl, rfl⟩
  · cases h
    exact .inl ⟨by decide, rfl, rfl⟩
  -- the initial window size, for a stream that is open or half closed
  · right
    split at h
    · cases h
    · rename_i hv
      refine ⟨rfl, by omega, ?_⟩
      split at h
      · rename_i hact
        have ha : c.stream.state.active = true := by
          rcases hact with hs | hs <;> simp [hs, StreamState.active]
        dsimp only at h
        split at h <;> cases h
        simp [ha]
      · rename_i hact
        have ha : c.stream.state.active = false := by simpa [StreamState.active] using hact
        cases h
        simp [ha]
  · split at h <;> cases h
    exact .inl ⟨by decide, rfl, rfl⟩
  · cases h
    exact .inl ⟨by decide, rfl, rfl⟩
  · rename_i h4 _ _
    cases h
    exact .inl ⟨fun h => h4 h, rfl, rfl⟩

section Stream

variable {w w' : World} {c : Context} {log : List Entry}

/-- The stored window is never more than the balance: where it wraps, it becomes negative. -/
theorem StreamMetered.window_le (hm : StreamMetered c log) :
    c.stream.windowSize ≤ streamBalance c.stream.id log := by
  have hsent := hm.sent
  have hgrant := hm.grant.1
  rw [hm.window]
  refine int32_le ?_
  simp only [streamBalance, allowance]
  omega

/-- What the trace says about the balance of a stream. -/
structure SameBalance (id : ℕ) (log log' : List Entry) : Prop where
  initial : total (Entry.initialGrant id) log' = total (Entry.initialGrant id) log
  grants : total (Entry.streamGrant id) log' = total (Entry.streamGrant id) log
  sent : sentData id log' = sentData id log

theorem SameBalance.balance {id : ℕ} {log log' : List Entry} (h : SameBalance id log log') :
    streamBalance id log' = streamBalance id log := by
  simp only [streamBalance, allowance, h.initial, h.grants, h.sent]

theorem Unmetered.sameBalance {log log' : List Entry} (h : Unmetered log log') (id : ℕ) :
    SameBalance id log log' := by
  obtain ⟨new, rfl, hnew⟩ := h
  have hinit := total_eq_zero fun e he => (Entry.flowless_stream id (hnew e he)).1
  have hgrant := total_eq_zero fun e he => (Entry.flowless_stream id (hnew e he)).2.1
  have hdata : sentData id new = [] := by
    simpa [sentData] using fun e he => (Entry.flowless_stream id (hnew e he)).2.2
  exact ⟨by simp [hinit], by simp [hgrant], by simp [hdata]⟩

/-- Nothing is said about the balance of any stream, and the window is the same. -/
theorem StreamMetered.same (hm : StreamMetered w.ctx w.log)
    (hwindow : c.stream.windowSize = w.ctx.stream.windowSize) (hid : c.stream.id = w.ctx.stream.id)
    (hlast : c.lastOpenedStreamId = w.ctx.lastOpenedStreamId)
    (hinit : c.settings.initialWindowSize ≤ 2 ^ 31 - 1)
    (hact : c.stream.state.active = true → w.ctx.stream.state.active = true ∧
      c.settings.initialWindowSize = w.ctx.settings.initialWindowSize)
    (hlog : ∀ id, SameBalance id w.log log) : StreamMetered c log := by
  have hb := hlog w.ctx.stream.id
  constructor
  · rw [hwindow, hid, hb.balance, hm.window]
  · exact hinit
  · intro ha
    obtain ⟨hactive, hsame⟩ := hact ha
    rw [hid, hb.initial, hsame, hm.active hactive]
  · rw [hid, hb.initial]
    exact hm.grant
  · rw [hid, hb.sent, hb.grants]
    exact hm.sent
  · intro id hlt
    rw [(hlog id).initial, (hlog id).grants]
    exact hm.fresh id (hlast ▸ hlt)

theorem StreamMetered.sameFlow (hm : StreamMetered w.ctx w.log) (hc : SameFlow w.ctx c)
    (hlog : ∀ id, SameBalance id w.log log) : StreamMetered c log :=
  hm.same hc.streamWindow hc.id hc.last (hc.initial ▸ hm.initial)
    (fun ha => ⟨hc.active ha, hc.initial⟩) hlog

/-- A new stream starts with the initial window size. -/
theorem StreamMetered.opening (hm : StreamMetered w.ctx w.log) (ho : Orderly w) {id : ℕ}
    (hid : w.ctx.lastOpenedStreamId < id) :
    StreamMetered (w.opening id).ctx (w.opening id).log := by
  -- nothing has been granted to an identifier that was never opened
  obtain ⟨hinit, hgrants⟩ := hm.fresh id hid
  have hsent := (ho.fresh id hid).sentData
  have hle := hm.initial
  have hinit' : total (Entry.initialGrant id) (w.opening id).log =
      w.ctx.settings.initialWindowSize := by simp [hinit, Context.openStream]
  have hgrants' : total (Entry.streamGrant id) (w.opening id).log = 0 := by simp [hgrants]
  have hsent' : sentData id (w.opening id).log = [] := by simp [hsent]
  constructor
  · show (w.ctx.settings.initialWindowSize : ℤ) = int32 (streamBalance id _)
    have hbalance : streamBalance id (w.opening id).log = w.ctx.settings.initialWindowSize := by
      simp only [streamBalance, allowance, hinit', hgrants', hsent']
      simp
    rw [hbalance, int32_of_mem (by omega) (by omega)]
  · exact hle
  · exact fun _ => hinit'
  · show 0 ≤ total (Entry.initialGrant id) _ ∧ total (Entry.initialGrant id) _ ≤ 2 ^ 31 - 1
    rw [hinit']
    omega
  · show (sentData id _).length ≤ _
    rw [hsent']
    exact Nat.zero_le _
  · intro j hj
    have hj : id < j := hj
    have hne : id ≠ j := by omega
    have := hm.fresh j (by omega)
    simpa [Context.openStream, hne] using this

/-- A new initial window size changes the window of an open stream and its balance alike. -/
theorem StreamMetered.initialWindow (hm : StreamMetered w.ctx w.log) (ho : Orderly w) {value : ℕ}
    (hact : w.ctx.stream.state.active = true) (hid : c.stream.id = w.ctx.stream.id)
    (hlast : c.lastOpenedStreamId = w.ctx.lastOpenedStreamId)
    (hvalue : value ≤ 2 ^ 31 - 1) (hset : c.settings.initialWindowSize = value)
    (hwindow : c.stream.windowSize =
      int32 (w.ctx.stream.windowSize + int32 (value - w.ctx.settings.initialWindowSize))) :
    StreamMetered c (w.log ++ [.setting 4 value w.toState]) := by
  have hinit : total (Entry.initialGrant w.ctx.stream.id)
      (w.log ++ [.setting 4 value w.toState]) = value := by
    simp [hact, hm.active hact]
  constructor
  -- both additions wrap, so the window is the balance modulo `2^32`
  · rw [hwindow, hid, hm.window, int32_add_int32, add_comm, int32_add_int32]
    simp only [streamBalance, allowance, hinit, hm.active hact]
    simp only [total_append, sentData_append]
    congr 1
    simp
    omega
  · exact hset ▸ hvalue
  · exact fun _ => by rw [hid, hinit, hset]
  · rw [hid, hinit]
    omega
  · rw [hid]
    simpa using hm.sent
  · intro j hj
    have := ho.last
    have hne : w.ctx.stream.id ≠ j := by omega
    simpa [hne] using hm.fresh j (hlast ▸ hj)

/-- An accepted parameter. -/
theorem StreamMetered.setting (hm : StreamMetered w.ctx w.log) (ho : Orderly w) {id value : ℕ}
    (hc : applySetting w.ctx id value = .ok c) :
    StreamMetered c (w.log ++ [.setting id value w.toState]) := by
  have hwin := applySetting_window hc
  obtain ⟨settings, windowSize, table, rfl⟩ := applySetting_eq hc
  by_cases hchange : id = 4 ∧ w.ctx.stream.state.active = true
  · obtain ⟨rfl, hact⟩ := hchange
    obtain ⟨h4, -⟩ | ⟨-, hvalue, hset, hwindow⟩ := hwin
    · exact absurd rfl h4
    · rw [if_pos hact] at hwindow
      exact hm.initialWindow ho hact rfl rfl hvalue hset hwindow
  -- any other setting, or no active stream: no stream window changes
  · refine hm.same ?_ rfl rfl ?_ ?_ fun j => ?_
    · obtain ⟨-, hsame, -⟩ | ⟨rfl, -, -, hsame⟩ := hwin
      · exact hsame
      · have : ¬ w.ctx.stream.state.active = true := fun ha => hchange ⟨rfl, ha⟩
        simpa [this] using hsame
    · obtain ⟨-, -, hset⟩ | ⟨-, hvalue, hset, -⟩ := hwin
      · exact hset ▸ hm.initial
      · exact hset ▸ hvalue
    · intro ha
      obtain ⟨-, -, hset⟩ | ⟨rfl, -⟩ := hwin
      · exact ⟨ha, hset⟩
      · exact absurd ⟨rfl, ha⟩ hchange
    · have hnot : ¬ (id = 4 ∧ w.ctx.stream.id = j ∧ w.ctx.stream.state.active = true) :=
        fun h => hchange ⟨h.1, h.2.2⟩
      constructor
      · simp only [total_append, total_cons, total_nil, Entry.initialGrant, if_neg hnot]
        simp
      · simp
      · simp

/-- An increment that names the current stream. -/
theorem StreamMetered.increment (hm : StreamMetered w.ctx w.log) (ho : Orderly w) {id n : ℕ}
    (h0 : id ≠ 0) (hid : id = w.ctx.stream.id) :
    StreamMetered (w.increment id n).ctx (w.increment id n).log := by
  subst hid
  have hsent := hm.sent
  constructor
  · rw [World.increment_ctx, World.increment_log]
    dsimp only
    rw [hm.window, int32_add_int32]
    simp only [streamBalance, allowance]
    congr 1
    simp [h0]
    omega
  · exact hm.initial
  · simpa using hm.active
  · simpa using hm.grant
  · simp [h0] at hsent ⊢
    omega
  · intro j hj
    have := ho.last
    have hlt : w.ctx.lastOpenedStreamId < j := hj
    have hne : w.ctx.stream.id ≠ j := by omega
    simpa [hne] using hm.fresh j hj

/-- The next DATA frame. -/
theorem StreamMetered.continued (hm : StreamMetered w.ctx w.log) (hs : 0 < sendLength w.ctx) :
    StreamMetered w.continued.ctx w.continued.log := by
  have hle := (dataLength_le_windows hs).2
  have hsent : (sentData w.ctx.stream.id w.continued.log).length =
      (sentData w.ctx.stream.id w.log).length + w.dataLength := by simp [World.dataFrame]
  have hinit : ∀ j, total (Entry.initialGrant j) w.continued.log =
      total (Entry.initialGrant j) w.log := by simp [World.dataFrame]
  have hgrants : ∀ j, total (Entry.streamGrant j) w.continued.log =
      total (Entry.streamGrant j) w.log := by simp [World.dataFrame]
  -- what is sent comes off the window and off the balance alike
  have hbalance := hm.window_le
  have hgrant := hm.grant
  rw [World.continued_ctx]
  constructor
  · show w.ctx.stream.windowSize - w.dataLength = int32 (streamBalance w.ctx.stream.id _)
    rw [hm.window] at hle ⊢
    rw [int32_sub_of_le (by omega) hle]
    simp only [streamBalance, allowance, hinit, hgrants, hsent]
    congr 1
    omega
  · exact hm.initial
  · show w.ctx.stream.state.active = true → total (Entry.initialGrant w.ctx.stream.id) _ = _
    rw [hinit]
    exact hm.active
  · show 0 ≤ total (Entry.initialGrant w.ctx.stream.id) _ ∧
      total (Entry.initialGrant w.ctx.stream.id) _ ≤ 2 ^ 31 - 1
    rw [hinit]
    exact hgrant
  · show (sentData w.ctx.stream.id _).length ≤
      2 ^ 31 - 1 + total (Entry.streamGrant w.ctx.stream.id) _
    rw [hsent, hgrants]
    simp only [streamBalance, allowance] at hbalance
    omega
  · intro j hj
    rw [hinit, hgrants]
    exact hm.fresh j hj

/-- The world in which `http2_continue_send` is called. -/
theorem Sending.streamMetered {w₁ : World} {a : List Entry} (h : Sending w w₁ a) (ho : Orderly w)
    (hm : StreamMetered w.ctx w.log) (hc : Along OwnIncrement (w.log ++ a)) :
    StreamMetered w₁.ctx w₁.log ∧ w₁.log = w.log ++ a := by
  cases h with
  | window h region hr =>
    obtain ⟨-, hown⟩ := along_append_singleton.mp hc
    exact ⟨hm.increment ho hr.stream (hown hr.stream), rfl⟩
  | complete op rest hq hcb =>
    exact ⟨hm.sameFlow .rfl (Unmetered.add .rfl rfl).sameBalance, rfl⟩

theorem Flow.streamMetered (h : Flow w c log) (ho : Orderly w) (hm : StreamMetered w.ctx w.log)
    (hc : Along OwnIncrement log) : StreamMetered c log := by
  cases h with
  | same _ _ hsame hlog => exact hm.sameFlow hsame hlog.sameBalance
  | opened id hid => exact hm.opening ho hid
  | setting id value _ hset => exact hm.setting ho hset
  | connWindow n hn ha =>
    refine hm.same rfl rfl rfl hm.initial (fun ha => ⟨ha, rfl⟩) fun id => ?_
    constructor <;> simp
  | window h region hr => exact ((Sending.window h region hr).streamMetered ho hm hc).1
  | sent w₁ a hs hpos =>
    have hlog : w₁.log = w.log ++ a := by cases hs <;> rfl
    have hstart : Along OwnIncrement (w.log ++ a) := hc.of_prefix (by simp [hlog])
    exact (hs.streamMetered ho hm hstart).1.continued hpos

end Stream

/-- The run rule for the window of the stream. -/
theorem runRule_streamMetered :
    RunRule OwnIncrement WithinAllowance fun w => Orderly w ∧ StreamMetered w.ctx w.log := by
  refine .of_orderly ?_ (fun w pools hm => hm)
    (fun w w' ht _ ho hm hc => (ht.flow ho).streamMetered ho hm hc) ?_
  · intro pools r s
    have hinit : Context.init.settings.initialWindowSize = 65535 := rfl
    have hclosed : Context.init.stream.state = .closed := rfl
    have hwindow : Context.init.stream.windowSize = int32 0 := by decide
    refine ⟨hwindow, by simp [hinit], by simp [hclosed, StreamState.active], by simp, by simp, ?_⟩
    exact fun id _ => ⟨rfl, rfl⟩
  · intro live w w' ht _ ho hm new hlog a e b hnew hc
    have hc' := hc.of_prefix (List.prefix_append (w.log ++ a) [e])
    unfold WithinAllowance
    split
    · rename_i h region s
      obtain ⟨rfl, rfl⟩ := ht.frame_entry hlog hnew
      rw [List.append_nil]
      exact hm.window_le
    · rename_i id fin payload s
      -- the DATA is cut to the stream window, which is at most the balance
      obtain ⟨w₁, hsend, hs, rfl, hf⟩ := ht.data_entry hlog hnew
      obtain ⟨rfl, -, rfl⟩ := Frame.data.inj hf
      obtain ⟨hm₁, hlog₁⟩ := hsend.streamMetered ho hm hc'
      rw [length_slice, ← hlog₁]
      exact (dataLength_le_windows hs).2.trans hm₁.window_le
    · rename_i id n s
      obtain ⟨-, hown⟩ := along_append_singleton.mp hc
      exact fun hne h0 => absurd (hown h0) hne
    · trivial

section Runs

variable {server : Server} {actions : List EventLoop.Action} {w : World}

/-- **Stream flow control.** In every run in which no WINDOW_UPDATE frame that names another stream
is added to the window of the current stream, DATA frames stay inside the allowance of their stream,
and the window of the stream is never more than what the stream may still send. -/
theorem stream_window_bounds (hw : w ∈ (EventLoop.run server actions).worlds)
    (hc : Along OwnIncrement w.log) :
    Along WithinAllowance w.log ∧ ((EventLoop.run server actions).aborted = none →
      w.ctx.stream.windowSize ≤ streamBalance w.ctx.stream.id w.log) :=
  ⟨runRule_streamMetered.trace hw hc,
    fun ha => (runRule_streamMetered.invariant ha hw hc).2.2.window_le⟩

end Runs

/-- An increment and a setting allow four bytes, and as many are sent. -/
theorem stream_window_bounds_conversation :
    ∃ w ∈ (EventLoop.run (Sample.server 4) Sample.conversation).worlds,
      Along WithinAllowance w.log ∧ w.ctx.stream.windowSize ≤ streamBalance 3 w.log ∧
        sentData 3 w.log = [0, 0, 0, 0] := by
  have ha : (EventLoop.run (Sample.server 4) Sample.conversation).aborted = none := by
    decide +kernel
  have hrun : ∃ w ∈ (EventLoop.run (Sample.server 4) Sample.conversation).worlds,
      Along OwnIncrement w.log ∧ w.ctx.stream.id = 3 ∧ sentData 3 w.log = [0, 0, 0, 0] := by
    decide +kernel
  obtain ⟨w, hw, hc, hid, hsent⟩ := hrun
  obtain ⟨hall, hwindow⟩ := stream_window_bounds hw hc
  exact ⟨w, hw, hall, hid ▸ hwindow ha, hsent⟩

/-- The initial window size is one byte, and a WINDOW_UPDATE frame that names stream 1 comes while
stream 3 is current: the rest of the response on stream 3 is sent. -/
theorem not_stream_window_bounds :
    ¬ ∀ (server : Server) (actions : List EventLoop.Action) (w : World),
      w ∈ (EventLoop.run server actions).worlds → Along WithinAllowance w.log := by
  intro h
  have hall := h (Sample.server 4) (Sample.handshake (Sample.setting 4 [0, 0, 0, 1]) ++
    Sample.receive (Sample.headers 5 1 Sample.getBlock ++ Sample.windowUpdate 1 8) ++
      [.send 0 512, .send 0 512] ++ Sample.receive (Sample.headers 5 3 Sample.getBlock) ++
      [.send 0 512] ++ Sample.receive (Sample.windowUpdate 1 8))
  revert hall
  decide +kernel

end Two
