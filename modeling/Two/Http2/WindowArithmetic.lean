import Two.Http2.SettingsFrames

/-!
# The arithmetic of the stream window

The window of the stream is an `int32_t` that can be negative. Two checks guard it: that of a
WINDOW_UPDATE frame takes the sum for an unsigned number, and that of a new initial window size
looks at a signed sum that has already overflowed. So the first one fails at the lower end of the
range, and the second one at both.

## Main definitions

* `WindowBounds`: the window is a 32-bit number, and the initial window size at most 2 ^ 31 - 1
* `IncrementExact`: an increment is added exactly, or refused where the sum is too large
* `SettingExact`: a new initial window size moves the window exactly, or is refused where the sum is
  too large, and no signed addition overflows
* `SettingFits`: when that is so

## Main results

* `incrementExact_iff`, `settingExact_iff`: the two operations within the bounds
* `windowArithmetic_iff`: the two operations in every run
-/

namespace Two

open Program Trace

/-- The window of the stream is a 32-bit number, and the initial window size is in its range. -/
structure WindowBounds (c : Context) : Prop where
  lower : -2 ^ 31 ≤ c.stream.windowSize
  upper : c.stream.windowSize ≤ 2 ^ 31 - 1
  initial : c.settings.initialWindowSize ≤ 2 ^ 31 - 1

/-- The window of the stream is larger by exactly `n`. -/
def World.granted (u : World) (n : ℕ) : World :=
  (u.add (.increment u.ctx.stream.id n)).onCtx fun c =>
    { c with stream.windowSize := c.stream.windowSize + n }

/-- A WINDOW_UPDATE frame for the stream leads from the world `u` to the world `u'`: if the window
becomes too large, the stream is reset, and otherwise `n` is added and sending goes on. -/
def IncrementExact (u u' : World) (n : ℕ) : Prop :=
  if 2 ^ 31 - 1 < u.ctx.stream.windowSize + n then
    sentFrames u'.log =
      sentFrames u.log ++ [.rstStream Http2Error.flowControlError.code u.ctx.stream.id]
  else u' = finalState (http2ContinueSend (u.granted n))

/-- The window of the stream after its move to a new initial window size, as an exact number. -/
def Context.movedWindow (c : Context) (value : ℕ) : ℤ :=
  c.stream.windowSize + (value - c.settings.initialWindowSize)

/-- A new initial window size is refused exactly where the window becomes too large, and otherwise
moves the window; the signed sum, which is computed where the value is in its range, does not
overflow. -/
structure SettingExact (c : Context) (value : ℕ) : Prop where
  error : applySetting c 4 value = .error .flowControlError ↔ 2 ^ 31 - 1 < c.movedWindow value
  moved : c.movedWindow value ≤ 2 ^ 31 - 1 →
    ∃ c', applySetting c 4 value = .ok c' ∧ c'.stream.windowSize = c.movedWindow value
  signed : value ≤ 2 ^ 31 - 1 → -2 ^ 31 ≤ c.movedWindow value ∧ c.movedWindow value ≤ 2 ^ 31 - 1

/-- The value is in its range and the moved window is a 32-bit number, or both are too large. -/
def SettingFits (c : Context) (value : ℕ) : Prop :=
  value ≤ 2 ^ 31 - 1 ∧ -2 ^ 31 ≤ c.movedWindow value ∧ c.movedWindow value ≤ 2 ^ 31 - 1 ∨
    2 ^ 31 - 1 < value ∧ 2 ^ 31 - 1 < c.movedWindow value

/-! ## One increment -/

section Increment

variable {u : World} {h : FrameHeader} {payload : Bytes} {n : ℕ}

/-- Within the bounds the unsigned sum is too large where the exact one is, or where it is
negative. -/
theorem overflows_iff_of_bounds (hb : WindowBounds u.ctx) (hn : n < 2 ^ 31) :
    overflows u.ctx.stream.windowSize n ↔
      u.ctx.stream.windowSize + n < 0 ∨ 2 ^ 31 - 1 < u.ctx.stream.windowSize + n := by
  have hlower := hb.lower
  have hupper := hb.upper
  unfold overflows
  omega

/-- A WINDOW_UPDATE frame for the stream, which is open. -/
theorem handleWindowUpdateFrame_own (hlen : h.length = 4) (hid : h.streamId = u.ctx.stream.id)
    (hlast : u.ctx.stream.id = u.ctx.lastOpenedStreamId) (h0 : u.ctx.stream.id ≠ 0)
    (hstate : u.ctx.stream.state ≠ .closed) (hn : bufferGetU31 payload = n) (hn0 : n ≠ 0) :
    finalState (handleWindowUpdateFrame h payload u) =
      if overflows u.ctx.stream.windowSize n then
        finalState (http2StreamError u.ctx.stream.id .flowControlError u)
      else finalState (http2ContinueSend ((u.add (.increment u.ctx.stream.id n)).onCtx fun c =>
        { c with stream.windowSize := int32 (c.stream.windowSize + n) })) := by
  rw [handleWindowUpdateFrame, bind_getCtx, if_neg (not_not.mpr hlen), if_neg (by omega),
    if_neg fun hclosed => hstate hclosed.2.2, hn]
  dsimp only
  rw [if_neg hn0, hid, if_neg h0]
  split
  · exact finalState_return _ _ _
  · exact finalState_return http2ContinueSend 0 _

/-- A stream error sends one RST_STREAM frame. -/
theorem http2StreamError_final (id : ℕ) (e : Http2Error) (u : World) :
    sentFrames (finalState (http2StreamError id e u)).log =
      sentFrames u.log ++ [.rstStream e.code id] := by
  have hsend := (wp_finalState (P := fun u' : World =>
    sentFrames u'.log = sentFrames u.log ++ [.rstStream e.code id])).mpr
      (sendFrame_final (.rstStream e.code id) .closeOnWriteError u).2
  refine (wp_finalState (P := fun u' : World =>
    sentFrames u'.log = sentFrames u.log ++ [.rstStream e.code id])).mp ?_
  rw [http2StreamError, wp_bind]
  refine hsend.mono (fun _ u' h => ?_) fun _ _ h => h
  rw [← h]
  simp only [wp_bind, wp_record, wp_getCtx, wp_ite, wp_pure, wp_setStreamState]
  constructor <;> intro _ <;> simp [sentFrames, World.add]

/-- **An increment** within the bounds is handled exactly if and only if the sum is not negative. -/
theorem incrementExact_iff (hb : WindowBounds u.ctx) (hlen : h.length = 4)
    (hid : h.streamId = u.ctx.stream.id) (hlast : u.ctx.stream.id = u.ctx.lastOpenedStreamId)
    (h0 : u.ctx.stream.id ≠ 0) (hstate : u.ctx.stream.state ≠ .closed)
    (hn0 : bufferGetU31 payload ≠ 0) :
    IncrementExact u (finalState (handleWindowUpdateFrame h payload u)) (bufferGetU31 payload) ↔
      0 ≤ u.ctx.stream.windowSize + bufferGetU31 payload := by
  have hlt := bufferGetU31_lt payload
  have hlower := hb.lower
  generalize hn : bufferGetU31 payload = n at hn0 hlt ⊢
  have hreset := http2StreamError_final u.ctx.stream.id .flowControlError u
  rw [handleWindowUpdateFrame_own hlen hid hlast h0 hstate hn hn0, IncrementExact]
  by_cases hlarge : 2 ^ 31 - 1 < u.ctx.stream.windowSize + n
  · rw [if_pos hlarge, if_pos ((overflows_iff_of_bounds hb hlt).mpr (.inr hlarge))]
    exact iff_of_true hreset (by omega)
  · rw [if_neg hlarge]
    by_cases hneg : u.ctx.stream.windowSize + n < 0
    · -- the negative sum is taken for a large one, and nothing is added
      rw [if_pos ((overflows_iff_of_bounds hb hlt).mpr (.inl hneg))]
      refine iff_of_false (fun heq => ?_) (by omega)
      have hidle : finalState (http2ContinueSend (u.granted n)) = u.granted n := by
        have hlength : sendLength (u.granted n).ctx ≤ 0 :=
          (min_le_right _ _).trans ((min_le_right _ _).trans hneg.le)
        rw [http2ContinueSend, bind_getCtx, if_pos hlength]
        rfl
      rw [heq, hidle] at hreset
      have hsent : sentFrames (u.granted n).log = sentFrames u.log := by
        simp [sentFrames, World.granted, World.add, World.onCtx]
      rw [hsent, List.self_eq_append_right] at hreset
      cases hreset
    · rw [if_neg fun hover => ?_]
      · have hsum : int32 (u.ctx.stream.windowSize + n) = u.ctx.stream.windowSize + n :=
          int32_of_mem (by omega) (by omega)
        refine iff_of_true ?_ (by omega)
        simp only [World.granted, World.onCtx, World.add, hsum]
      · obtain hover | hover := (overflows_iff_of_bounds hb hlt).mp hover
        · exact hneg hover
        · exact hlarge hover

end Increment

/-! ## One initial window size -/

section Setting

variable {c c' : Context} {value : ℕ}

/-- An initial window size in its range is always accepted while the stream is open. -/
theorem applySetting_initialWindow (hactive : c.stream.state.active = true)
    (hvalue : value ≤ 2 ^ 31 - 1) :
    ∃ c', applySetting c 4 value = .ok c' ∧
      c'.stream.windowSize =
        int32 (c.stream.windowSize + int32 (value - c.settings.initialWindowSize)) := by
  have hrange : InRange (4, value) := ⟨by simp, fun _ => hvalue, by simp⟩
  obtain ⟨c', hc', -⟩ := applySetting_of_inRange c hrange
  obtain ⟨h4, -⟩ | ⟨-, -, -, hwindow⟩ := applySetting_window hc'
  · exact absurd rfl h4
  · rw [if_pos hactive] at hwindow
    exact ⟨c', hc', hwindow⟩

/-- **A new initial window size** within the bounds. -/
theorem settingExact_iff (hb : WindowBounds c) (hactive : c.stream.state.active = true) :
    SettingExact c value ↔ SettingFits c value := by
  have hlower := hb.lower
  have hupper := hb.upper
  have hinitial := hb.initial
  by_cases hvalue : value ≤ 2 ^ 31 - 1
  · obtain ⟨c', hc', hwindow⟩ := applySetting_initialWindow hactive hvalue
    constructor
    · exact fun h => .inl ⟨hvalue, h.signed hvalue⟩
    · rintro (⟨-, hfits⟩ | ⟨hlarge, -⟩)
      -- neither the difference nor the sum leaves the 32 bits
      · have hmoved : c'.stream.windowSize = c.movedWindow value := by
          unfold Context.movedWindow at hfits ⊢
          have hdiff : int32 (value - c.settings.initialWindowSize) =
              value - c.settings.initialWindowSize := int32_of_mem (by omega) (by omega)
          rw [hwindow, hdiff, int32_of_mem (by omega) (by omega)]
        refine ⟨?_, fun _ => ⟨c', hc', hmoved⟩, fun _ => hfits⟩
        rw [hc']
        exact iff_of_false (fun h => by cases h) (by omega)
      · omega
  · have herror : applySetting c 4 value = .error .flowControlError :=
      applySetting_of_not_inRange (p := (4, value)) c fun h => hvalue (h.2.1 rfl)
    constructor
    · exact fun h => .inr ⟨by omega, h.error.mp herror⟩
    · rintro (⟨hsmall, -⟩ | ⟨-, hlarge⟩)
      · omega
      · exact ⟨iff_of_true herror hlarge, fun h => absurd h (by omega), fun h => absurd h hvalue⟩

/-- An accepted parameter keeps the bounds, and the stream open. -/
theorem WindowBounds.applySetting (hb : WindowBounds c) {id : ℕ}
    (h : Two.applySetting c id value = .ok c') :
    WindowBounds c' ∧ c'.stream.state = c.stream.state := by
  refine ⟨?_, ?_⟩
  · obtain ⟨-, hwindow, hinitial⟩ | ⟨-, hvalue, hinitial, hwindow⟩ := applySetting_window h
    · exact ⟨hwindow ▸ hb.lower, hwindow ▸ hb.upper, hinitial ▸ hb.initial⟩
    · have hlower := hb.lower
      have hupper := hb.upper
      split at hwindow
      · unfold int32 at hwindow
        exact ⟨by omega, by omega, hinitial ▸ hvalue⟩
      · exact ⟨by omega, by omega, hinitial ▸ hvalue⟩
  · obtain ⟨_, _, _, rfl⟩ := applySetting_eq h
    rfl

/-- The context in the middle of a SETTINGS frame, after some accepted parameters. -/
def afterParameters (c : Context) (ps : List (ℕ × ℕ)) : Except Http2Error Context :=
  ps.foldlM (fun c p => applySetting c p.1 p.2) c

theorem WindowBounds.afterParameters (hb : WindowBounds c) {ps : List (ℕ × ℕ)}
    (h : Two.afterParameters c ps = .ok c') :
    WindowBounds c' ∧ c'.stream.state = c.stream.state := by
  induction ps generalizing c with
  | nil =>
    cases h
    exact ⟨hb, rfl⟩
  | cons p ps ih =>
    rw [Two.afterParameters, List.foldlM_cons] at h
    cases hp : Two.applySetting c p.1 p.2 with
    | error e =>
      rw [hp] at h
      cases h
    | ok c₁ =>
      rw [hp] at h
      obtain ⟨hb₁, hstate₁⟩ := hb.applySetting hp
      obtain ⟨hb', hstate⟩ := ih hb₁ h
      exact ⟨hb', hstate.trans hstate₁⟩

end Setting

/-! ## Runs -/

section Runs

variable {w w₁ : World} {c : Context} {log : List Entry}

theorem WindowBounds.increment (hb : WindowBounds w.ctx) (id n : ℕ) :
    WindowBounds (w.increment id n).ctx := by
  rw [World.increment_ctx]
  refine ⟨?_, ?_, hb.initial⟩ <;> dsimp only <;> unfold int32 <;> omega

theorem WindowBounds.continued (hb : WindowBounds w.ctx) (hs : 0 < sendLength w.ctx) :
    WindowBounds w.continued.ctx := by
  have hle := (dataLength_le_windows hs).2
  have hupper := hb.upper
  rw [World.continued_ctx]
  refine ⟨?_, ?_, hb.initial⟩ <;> dsimp only [Context.advance] <;> omega

theorem Sending.windowBounds {a : List Entry} (h : Sending w w₁ a) (hb : WindowBounds w.ctx) :
    WindowBounds w₁.ctx := by
  cases h with
  | window h region hr => exact hb.increment _ _
  | complete op rest hq hcb => exact hb

/-- Every transition keeps the bounds. -/
theorem Flow.windowBounds (h : Flow w c log) (hb : WindowBounds w.ctx) : WindowBounds c := by
  cases h with
  | same _ _ hsame _ =>
    exact ⟨hsame.streamWindow ▸ hb.lower, hsame.streamWindow ▸ hb.upper, hsame.initial ▸ hb.initial⟩
  | opened id _ =>
    have hinitial := hb.initial
    have hwindow : (w.opening id).ctx.stream.windowSize = w.ctx.settings.initialWindowSize := rfl
    exact ⟨by omega, by omega, hb.initial⟩
  | setting id value _ hc => exact (hb.applySetting hc).1
  | connWindow n _ _ => exact ⟨hb.lower, hb.upper, hb.initial⟩
  | window h region _ => exact hb.increment _ _
  | sent w₁ a hs hpos => exact (hs.windowBounds hb).continued hpos

/-- A frame is received within the bounds, on the stream opened last. -/
def ReceivedInBounds (_before : List Entry) : Entry → Prop
  | .frame _ _ s => WindowBounds s.ctx ∧ s.ctx.stream.id = s.ctx.lastOpenedStreamId ∧
      (s.ctx.stream.id = 0 → s.ctx.stream.state = .closed)
  | _ => True

theorem runRule_windowBounds :
    RunRule (fun _ _ => True) ReceivedInBounds fun w => Orderly w ∧ WindowBounds w.ctx := by
  refine .of_orderly ?_ (fun w pools hb => hb)
    (fun w w' ht _ ho hb _ => (ht.flow ho).windowBounds hb) ?_
  · intro pools r s
    have hwindow : Context.init.stream.windowSize = 0 := rfl
    have hinitial : Context.init.settings.initialWindowSize = 65535 := rfl
    exact ⟨by dsimp only; omega, by dsimp only; omega, by dsimp only; omega⟩
  · intro live w w' ht _ ho hb new hlog a e b hnew _
    unfold ReceivedInBounds
    split
    · obtain ⟨rfl, rfl⟩ := ht.frame_entry hlog hnew
      exact ⟨hb, ho.last, ho.idle⟩
    · trivial

variable {server : Server} {actions : List EventLoop.Action} {header : FrameHeader}
  {region : Bytes} {s : State}

theorem StreamState.ne_closed_of_active {state : StreamState} (h : state.active = true) :
    state ≠ .closed := by
  rintro rfl
  cases h

/-- What is known of every state in which a frame is received. -/
theorem inBounds_of_frame (hw : w ∈ (EventLoop.run server actions).worlds)
    (hmem : .frame header region s ∈ w.log) :
    WindowBounds s.ctx ∧ s.ctx.stream.id = s.ctx.lastOpenedStreamId ∧
      (s.ctx.stream.id = 0 → s.ctx.stream.state = .closed) := by
  obtain ⟨before, after, hlog⟩ := List.append_of_mem hmem
  exact runRule_windowBounds.trace hw (fun _ _ _ _ => trivial) before _ after hlog

/-- **The window of the stream.** In every state of every run in which a frame is received while the
stream is open: an increment for the stream is handled exactly if and only if the sum is not
negative; and a new initial window size, also after other parameters of its frame, if and only if
the moved window is a 32-bit number, or both are too large. -/
theorem windowArithmetic_iff (hw : w ∈ (EventLoop.run server actions).worlds)
    (hmem : .frame header region s ∈ w.log) (hactive : s.ctx.stream.state.active = true) :
    (∀ (log : List Entry) (h : FrameHeader) (payload : Bytes), h.length = 4 →
      h.streamId = s.ctx.stream.id → bufferGetU31 payload ≠ 0 →
      (IncrementExact ⟨s, log⟩ (finalState (handleWindowUpdateFrame h payload ⟨s, log⟩))
          (bufferGetU31 payload) ↔
        0 ≤ s.ctx.stream.windowSize + bufferGetU31 payload)) ∧
    ∀ (ps : List (ℕ × ℕ)) (c : Context) (value : ℕ), afterParameters s.ctx ps = .ok c →
      (SettingExact c value ↔ SettingFits c value) := by
  obtain ⟨hb, hlast, hidle⟩ := inBounds_of_frame hw hmem
  have hstate := StreamState.ne_closed_of_active hactive
  refine ⟨fun log h payload hlen hid hn0 => ?_, fun ps c value hps => ?_⟩
  · have h0 : s.ctx.stream.id ≠ 0 := fun h0 => hstate (hidle h0)
    exact incrementExact_iff (u := ⟨s, log⟩) hb hlen hid hlast h0 hstate hn0
  · obtain ⟨hb', hsame⟩ := hb.afterParameters hps
    exact settingExact_iff hb' (hsame ▸ hactive)

/-- The window of the open stream in a state in which a frame is received. -/
def openWindow : Entry → Option ℤ
  | .frame _ _ s => if s.ctx.stream.state.active then some s.ctx.stream.windowSize else none
  | _ => none

theorem openWindow_eq_some {e : Entry} {x : ℤ} (h : openWindow e = some x) :
    ∃ header region s, e = .frame header region s ∧ s.ctx.stream.state.active = true ∧
      s.ctx.stream.windowSize = x := by
  unfold openWindow at h
  split at h
  · rename_i header region s
    split at h
    · rename_i hactive
      exact ⟨header, region, s, rfl, hactive, Option.some.inj h⟩
    · cases h
  · cases h

/-- The initial window size is 5, and a request is answered with a body of ten bytes; the first five
are sent, and then a frame comes. -/
def halfSent (bytes : Bytes) : List EventLoop.Action :=
  Sample.handshake (Sample.setting 4 [0, 0, 0, 5]) ++
    Sample.receive (Sample.headers 5 1 Sample.getBlock) ++ [.send 0 512, .send 0 512] ++
    Sample.receive bytes

/-- An increment and a new initial window size after half of a body. -/
theorem windowArithmetic_halfSent :
    ∃ w ∈ (EventLoop.run (Sample.server 10) (halfSent (Sample.windowUpdate 1 1))).worlds,
      ∃ header region s, Entry.frame header region s ∈ w.log ∧ s.ctx.stream.windowSize = 0 ∧
        IncrementExact ⟨s, []⟩ (finalState (handleWindowUpdateFrame
          ⟨4, .windowUpdate, 0, s.ctx.stream.id⟩ [0, 0, 0, 1] ⟨s, []⟩)) 1 := by
  have hopen : ∃ w ∈ (EventLoop.run (Sample.server 10) (halfSent (Sample.windowUpdate 1 1))).worlds,
      ∃ e ∈ w.log, openWindow e = some 0 := by decide +kernel
  obtain ⟨w, hw, e, he, hwindow⟩ := hopen
  obtain ⟨header, region, s, rfl, hactive, hzero⟩ := openWindow_eq_some hwindow
  refine ⟨w, hw, header, region, s, he, hzero, ?_⟩
  refine ((windowArithmetic_iff hw he hactive).1 [] _ [0, 0, 0, 1] rfl rfl (by decide)).mpr ?_
  rw [hzero]
  decide

/-- The initial window size becomes 0 after half of a body, so that the window is -5. An increment
by one resets the stream. -/
theorem not_windowArithmetic :
    ¬ ∀ (server : Server) (actions : List EventLoop.Action),
      ∀ w ∈ (EventLoop.run server actions).worlds, ∀ (header : FrameHeader) (region : Bytes)
        (s : State), .frame header region s ∈ w.log → s.ctx.stream.state.active = true →
      (∀ (log : List Entry) (h : FrameHeader) (payload : Bytes), h.length = 4 →
        h.streamId = s.ctx.stream.id → bufferGetU31 payload ≠ 0 →
        IncrementExact ⟨s, log⟩ (finalState (handleWindowUpdateFrame h payload ⟨s, log⟩))
          (bufferGetU31 payload)) ∧
      ∀ (ps : List (ℕ × ℕ)) (c : Context) (value : ℕ), afterParameters s.ctx ps = .ok c →
        SettingExact c value := by
  intro hall
  have hopen : ∃ w ∈ (EventLoop.run (Sample.server 10) (halfSent
      (Sample.setting 4 [0, 0, 0, 0] ++ Sample.windowUpdate 1 1))).worlds,
      ∃ e ∈ w.log, openWindow e = some (-5) := by decide +kernel
  obtain ⟨w, hw, e, he, hwindow⟩ := hopen
  obtain ⟨header, region, s, rfl, hactive, hfive⟩ := openWindow_eq_some hwindow
  obtain ⟨hb, hlast, hidle⟩ := inBounds_of_frame hw he
  have hstate := StreamState.ne_closed_of_active hactive
  have h0 : s.ctx.stream.id ≠ 0 := fun h0 => hstate (hidle h0)
  have hexact := (hall _ _ w hw header region s he hactive).1 []
    ⟨4, .windowUpdate, 0, s.ctx.stream.id⟩ [0, 0, 0, 1] rfl rfl (by decide)
  have hnonneg : 0 ≤ s.ctx.stream.windowSize + bufferGetU31 [0, 0, 0, 1] :=
    (incrementExact_iff (u := ⟨s, []⟩) hb rfl rfl hlast h0 hstate (by decide)).mp hexact
  rw [hfive] at hnonneg
  revert hnonneg
  decide

end Runs

end Two
