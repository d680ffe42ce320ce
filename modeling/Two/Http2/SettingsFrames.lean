import Two.Http2.FlowControl
import Two.Http2.Framing
import Two.Http2.Receiving
import Two.Hpack.TableContents
import Two.Event.Connection

/-!
# SETTINGS frames

A SETTINGS frame is a list of parameters, which `update_settings` applies from left to right up to
the first one that it refuses. The acknowledgment depends on the number of parameters with a known
identifier, and the check of the window of the stream on a sum that has already wrapped around.

## Main definitions

* `Settings.assign`, `Settings.assignAll`: the settings after one parameter, and after all
* `parameterError`: the error that a parameter has to raise
* `SettingsProcessed`: the settings, the limit of the HPACK table and the frames that are sent are
  those that a SETTINGS frame asks for
* `SettingsRegular`: a parameter is known, and none makes the window of the stream too large

## Main results

* `updateSettingsLoop_accepted`: what the parameters do that are accepted
* `settingsProcessed_iff`: exactly when a SETTINGS frame is processed as it has to be
-/

namespace Two

open Program

/-- The settings after a parameter; one with an unknown identifier changes nothing. -/
def Settings.assign (s : Settings) (p : ℕ × ℕ) : Settings :=
  match p.1 with
  | 1 => { s with headerTableSize := p.2 }
  | 2 => { s with enablePush := p.2 }
  | 3 => { s with maxConcurrentStreams := p.2 }
  | 4 => { s with initialWindowSize := p.2 }
  | 5 => { s with maxFrameSize := p.2 }
  | 6 => { s with maxHeaderListSize := p.2 }
  | _ => s

/-- The settings after all parameters, from left to right. -/
def Settings.assignAll (s : Settings) (ps : List (ℕ × ℕ)) : Settings := ps.foldl Settings.assign s

/-- The limit of the HPACK table after all parameters, if it was `limit`: that of the last table
size announced, but at most the size of the table. -/
def hpackLimit (limit : ℕ) (ps : List (ℕ × ℕ)) : ℕ :=
  match (ps.filter fun p => p.1 = 1).getLast? with
  | none => limit
  | some p => min http2HeaderTableSize p.2

/-- By how much the window of the stream exceeds the initial window size, if the stream is open.
Both move by the same amount with every parameter. -/
def Context.excess (c : Context) : Option ℤ :=
  if c.stream.state.active then some (c.stream.windowSize - c.settings.initialWindowSize) else none

/-- The parameter makes the window of the stream too large. -/
def Exceeds (excess : Option ℤ) (p : ℕ × ℕ) : Prop :=
  p.1 = 4 ∧ ∃ x ∈ excess, 2 ^ 31 - 1 < x + p.2

instance (excess : Option ℤ) (p : ℕ × ℕ) : Decidable (Exceeds excess p) :=
  match excess with
  | none => .isFalse fun h => by
      obtain ⟨x, hx, -⟩ := h.2
      cases hx
  | some x => decidable_of_iff (p.1 = 4 ∧ 2 ^ 31 - 1 < x + p.2) (by simp [Exceeds])

/-- The error that a parameter has to raise. -/
def parameterError (excess : Option ℤ) (p : ℕ × ℕ) : Option Http2Error :=
  if p.1 = 2 ∧ 1 < p.2 then some .protocolError
  else if p.1 = 4 ∧ 2 ^ 31 - 1 < p.2 then some .flowControlError
  else if Exceeds excess p then some .flowControlError
  else if p.1 = 5 ∧ (p.2 < 2 ^ 14 ∨ 2 ^ 24 - 1 < p.2) then some .protocolError
  else none

/-- A SETTINGS frame is processed as it has to be, from the world `w` to the world `w'`. If all its
parameters are acceptable, they are applied from left to right and one acknowledgment is sent;
otherwise one GOAWAY frame with the error of the first one that is not. -/
def SettingsProcessed (w w' : World) (ps : List (ℕ × ℕ)) : Prop :=
  match ps.findSome? (parameterError w.ctx.excess) with
  | none =>
    w'.ctx.settings = w.ctx.settings.assignAll ps ∧
      w'.ctx.hpackDynamicTable.settingsMaxTableSize =
        hpackLimit w.ctx.hpackDynamicTable.settingsMaxTableSize ps ∧
      w'.ctx.hpackDynamicTable.maxSize = hpackLimit w.ctx.hpackDynamicTable.maxSize ps ∧
      sentFrames w'.log = sentFrames w.log ++ [.settingsAck]
  | some e => sentFrames w'.log = sentFrames w.log ++ [.goaway e.code w.ctx.lastOpenedStreamId]

/-- The identifier of the parameter is known. -/
def Known (p : ℕ × ℕ) : Prop := 1 ≤ p.1 ∧ p.1 ≤ 6

instance : DecidablePred Known := fun p => inferInstanceAs (Decidable (1 ≤ p.1 ∧ p.1 ≤ 6))

/-- The value of the parameter is in its range. -/
def InRange (p : ℕ × ℕ) : Prop := acceptable p.1 p.2

instance : DecidablePred InRange := fun p => inferInstanceAs (Decidable (acceptable p.1 p.2))

/-- If all values are in range, a parameter is known and none makes the window of the stream too
large. Otherwise none does so before the first one out of range, unless that one is an initial
window size, too. -/
def SettingsRegular (c : Context) (ps : List (ℕ × ℕ)) : Prop :=
  match ps.find? fun p => ¬ InRange p with
  | none => (∃ p ∈ ps, Known p) ∧ ∀ p ∈ ps, ¬ Exceeds c.excess p
  | some q => (∃ p ∈ ps.takeWhile fun p => InRange p, Exceeds c.excess p) → q.1 = 4

/-! ## The parameters that are accepted -/

section Accepted

variable {p : ℕ × ℕ} {ps : List (ℕ × ℕ)}

theorem dynamicChangeMaxSize_limits (t : Hpack.DynamicTable) {n : ℕ}
    (h : n ≤ http2HeaderTableSize) :
    (Hpack.dynamicChangeMaxSize t n).settingsMaxTableSize = n ∧
      (Hpack.dynamicChangeMaxSize t n).maxSize = n := by
  have hmax : http2HeaderTableSize = 4096 := rfl
  rw [Hpack.dynamicChangeMaxSize, if_pos h, Hpack.DynamicTable.resize, if_neg (lt_irrefl n)]
  simp only [Hpack.DynamicTable.reorganize_settingsMaxTableSize,
    Hpack.DynamicTable.evictLoop_settingsMaxTableSize]
  exact ⟨trivial, Nat.mod_eq_of_lt (by omega)⟩

theorem hpackLimit_cons (limit : ℕ) (p : ℕ × ℕ) (ps : List (ℕ × ℕ)) :
    hpackLimit limit (p :: ps) =
      hpackLimit (if p.1 = 1 then min http2HeaderTableSize p.2 else limit) ps := by
  by_cases hp : p.1 = 1
  · rw [hpackLimit, hpackLimit, List.filter_cons_of_pos (by simpa using hp), if_pos hp]
    cases hl : (ps.filter fun p => p.1 = 1).getLast? with
    | none =>
      rw [List.getLast?_eq_none_iff] at hl
      rw [hl]
      rfl
    | some q => rw [List.getLast?_cons, hl]; rfl
  · rw [hpackLimit, hpackLimit, List.filter_cons_of_neg (by simpa using hp), if_neg hp]

/-- A parameter whose value is in range is stored. The sum for the window of the stream is never too
large, since it has wrapped around. -/
theorem applySetting_of_inRange (c : Context) (h : InRange p) :
    ∃ c', applySetting c p.1 p.2 = .ok c' ∧ c'.settings = c.settings.assign p ∧
      c'.hpackDynamicTable.settingsMaxTableSize =
        (if p.1 = 1 then min http2HeaderTableSize p.2
          else c.hpackDynamicTable.settingsMaxTableSize) ∧
      c'.hpackDynamicTable.maxSize =
        (if p.1 = 1 then min http2HeaderTableSize p.2 else c.hpackDynamicTable.maxSize) ∧
      c'.lastOpenedStreamId = c.lastOpenedStreamId := by
  obtain ⟨id, value⟩ := p
  obtain ⟨hpush, hwindow, hframe⟩ := h
  dsimp only at hpush hwindow hframe ⊢
  unfold applySetting
  split
  · have hlimits := dynamicChangeMaxSize_limits c.hpackDynamicTable
      (min_le_left http2HeaderTableSize value)
    exact ⟨_, rfl, rfl, hlimits.1, hlimits.2, rfl⟩
  · rw [if_neg (by have := hpush rfl; omega)]
    exact ⟨_, rfl, rfl, rfl, rfl, rfl⟩
  · exact ⟨_, rfl, rfl, rfl, rfl, rfl⟩
  -- the initial window size changes the window of a stream that is open
  · rw [if_neg (by have := hwindow rfl; omega)]
    split
    · have hsum : ¬ (
          int32 (c.stream.windowSize + int32 (value - c.settings.initialWindowSize)) > 0 ∧
          int32 (c.stream.windowSize + int32 (value - c.settings.initialWindowSize)) % 2 ^ 32 >
            2 ^ 31 - 1) := by
        unfold int32
        omega
      dsimp only
      rw [if_neg hsum]
      exact ⟨_, rfl, rfl, rfl, rfl, rfl⟩
    · exact ⟨_, rfl, rfl, rfl, rfl, rfl⟩
  · rw [if_neg (by have := hframe rfl; omega)]
    exact ⟨_, rfl, rfl, rfl, rfl, rfl⟩
  · exact ⟨_, rfl, rfl, rfl, rfl, rfl⟩
  -- an unknown parameter is ignored
  · rename_i h1 h2 h3 h4 h5 h6
    have h1 : id ≠ 1 := h1
    refine ⟨c, rfl, ?_, (if_neg h1).symm, (if_neg h1).symm, rfl⟩
    simp only [Settings.assign]

/-- The error for a value that is out of range. -/
def rangeError (id : ℕ) : Http2Error := if id = 4 then .flowControlError else .protocolError

theorem applySetting_of_not_inRange (c : Context) (h : ¬ InRange p) :
    applySetting c p.1 p.2 = .error (rangeError p.1) := by
  obtain ⟨id, value⟩ := p
  dsimp only [InRange, acceptable] at h ⊢
  unfold applySetting
  split
  · exact absurd ⟨fun h => by omega, fun h => by omega, fun h => by omega⟩ h
  · rw [if_pos (by omega)]
    rfl
  · exact absurd ⟨fun h => by omega, fun h => by omega, fun h => by omega⟩ h
  · rw [if_pos (by omega)]
    rfl
  · rw [if_pos (by omega)]
    rfl
  · exact absurd ⟨fun h => by omega, fun h => by omega, fun h => by omega⟩ h
  · rename_i h2 _ h4 h5 _
    exact absurd ⟨fun h => absurd h h2, fun h => absurd h h4, fun h => absurd h h5⟩ h

/-- **What parameters do that are accepted**: they are stored from left to right, and no frame is
sent. -/
theorem updateSettingsLoop_accepted (hall : ∀ p ∈ ps, InRange p) (total : ℕ) (w : World) :
    ∃ w₁ : World, (∀ rest, updateSettingsLoop (ps ++ rest) total w =
        updateSettingsLoop rest (total + ps.countP fun p => Known p) w₁) ∧
      w₁.ctx.settings = w.ctx.settings.assignAll ps ∧
      w₁.ctx.hpackDynamicTable.settingsMaxTableSize =
        hpackLimit w.ctx.hpackDynamicTable.settingsMaxTableSize ps ∧
      w₁.ctx.hpackDynamicTable.maxSize = hpackLimit w.ctx.hpackDynamicTable.maxSize ps ∧
      w₁.ctx.lastOpenedStreamId = w.ctx.lastOpenedStreamId ∧
      sentFrames w₁.log = sentFrames w.log := by
  induction ps generalizing total w with
  | nil => exact ⟨w, fun rest => by simp, rfl, rfl, rfl, rfl, rfl⟩
  | cons p ps ih =>
    obtain ⟨c, hc, hsettings, hlimit, hmax, hlast⟩ :=
      applySetting_of_inRange w.ctx (hall p List.mem_cons_self)
    obtain ⟨w₁, hrest, hsettings₁, hlimit₁, hmax₁, hlast₁, hsent₁⟩ :=
      ih (fun q hq => hall q (List.mem_cons_of_mem _ hq)) (if Known p then total + 1 else total)
        (w.stored p.1 p.2 c)
    refine ⟨w₁, fun rest => ?_, ?_, ?_, ?_, hlast₁.trans hlast, ?_⟩
    -- a parameter in range is stored, and counted when it is known
    · have hstep : updateSettingsLoop (p :: ps ++ rest) total w =
          updateSettingsLoop (ps ++ rest) (if Known p then total + 1 else total)
            (w.stored p.1 p.2 c) := by
        rw [List.cons_append, updateSettingsLoop, bind_getCtx, hc]
        rfl
      rw [hstep, hrest, List.countP_cons]
      congr 1
      by_cases hknown : Known p
      · simp only [hknown, if_true, decide_true]
        omega
      · simp [hknown]
    · rw [hsettings₁, Settings.assignAll, Settings.assignAll, List.foldl_cons]
      exact congrArg (fun s => ps.foldl Settings.assign s) hsettings
    · rw [hlimit₁, hpackLimit_cons]
      exact congrArg (fun n => hpackLimit n ps) hlimit
    · rw [hmax₁, hpackLimit_cons]
      exact congrArg (fun n => hpackLimit n ps) hmax
    · rw [hsent₁]
      simp [sentFrames, World.stored, World.add, World.onCtx]

end Accepted

/-! ## The frames that are sent -/

section Sent

variable {w : World} {f : Frame} {cb : WriteCb}

theorem sentFrames_add_send (log : List Entry) (f : Frame) (s : State) :
    sentFrames (log ++ [.send f s]) = sentFrames log ++ [f] := by
  simp [sentFrames]

/-- Sending a frame leaves the context as it is, even where an assertion fails. -/
theorem sendFrame_final (f : Frame) (cb : WriteCb) (w : World) :
    (finalState (sendFrame f cb w)).ctx = w.ctx ∧
      sentFrames (finalState (sendFrame f cb w)).log = sentFrames w.log ++ [f] := by
  rw [← sentFrames_add_send w.log f w.toState]
  refine (wp_finalState (P := fun w' : World =>
    w'.ctx = w.ctx ∧ sentFrames w'.log = sentFrames (w.log ++ [.send f w.toState]))).mp ?_
  simp only [sendFrame, eventWrite, wp_bind, wp_record, wp_get, wp_ite, wp_throw]
  refine ⟨fun _ => ⟨rfl, rfl⟩, fun _ => ?_⟩
  cases (w.add (.send f)).sock.write with
  | none => exact ⟨rfl, rfl⟩
  | some e =>
    simp only [wp_ite]
    refine ⟨fun _ => ?_, fun _ => ⟨rfl, rfl⟩⟩
    cases (w.add (.send f)).loop.writes with
    | nil => exact ⟨rfl, rfl⟩
    | cons op writes => exact ⟨rfl, rfl⟩

/-- An error sends one GOAWAY frame. -/
theorem http2Error_final (e : Http2Error) (w : World) :
    sentFrames (finalState (http2Error e w)).log =
      sentFrames w.log ++ [.goaway e.code w.ctx.lastOpenedStreamId] := by
  have hfail : sentFrames (w.fail e).log =
      sentFrames w.log ++ [.goaway e.code w.ctx.lastOpenedStreamId] := by
    simp [sentFrames, World.fail_log]
  refine (wp_finalState (P := fun w' : World => sentFrames w'.log =
    sentFrames w.log ++ [.goaway e.code w.ctx.lastOpenedStreamId])).mp ?_
  refine http2Error_wp (fun _ => hfail) fun _ _ w' hlog _ => ?_
  rw [hlog, hfail]

/-- A program ends in the same state with another result. -/
theorem finalState_return {α β : Type} (m : M α) (b : β) (w : World) :
    finalState ((m >>= fun _ => pure b) w) = finalState (m w) := by
  simp only [Bind.bind, EStateM.bind]
  cases m w <;> rfl

end Sent

/-! ## A SETTINGS frame -/

section Settings

variable {header : FrameHeader} {payload : Bytes} {ps : List (ℕ × ℕ)} {w : World} {c : Context}

/-- A SETTINGS frame that is no acknowledgment is its parameters, and the acknowledgment of them. -/
theorem handleSettingsFrame_eq (hid : header.streamId = 0)
    (hack : header.has frameFlagsAck = false) (hlen : header.length % 6 = 0) :
    handleSettingsFrame header payload = (do
      let total ← updateSettingsLoop (settingsParameters payload header.length) 0
      if total > 0 then
        let _ ← sendSettingsFrame true [] .closeOnWriteError
        return 0
      else return 0) := by
  rw [handleSettingsFrame, if_neg (not_not.mpr hid), hack, Bool.not_false, if_pos rfl,
    if_neg (not_not.mpr hlen)]
  rfl

/-- Parameters in range have no error but that of the window of the stream. -/
theorem parameterError_of_inRange {p : ℕ × ℕ} (h : InRange p) (excess : Option ℤ) :
    parameterError excess p = if Exceeds excess p then some .flowControlError else none := by
  obtain ⟨hpush, hwindow, hframe⟩ := h
  rw [parameterError, if_neg (by omega), if_neg (by omega)]
  split
  · rfl
  · rw [if_neg (by omega)]

theorem parameterError_of_not_inRange {p : ℕ × ℕ} (h : ¬ InRange p) (excess : Option ℤ) :
    parameterError excess p = some (rangeError p.1) := by
  dsimp only [InRange, acceptable] at h
  rw [parameterError, rangeError]
  by_cases h4 : p.1 = 4
  · rw [if_neg (by omega), if_pos (by omega), if_pos h4]
  · have hexceeds : ¬ Exceeds excess p := fun he => h4 he.1
    rw [if_neg h4]
    by_cases h2 : p.1 = 2
    · rw [if_pos (by omega)]
    · rw [if_neg (by omega), if_neg (by omega), if_neg hexceeds, if_pos (by omega)]

/-- The first error of parameters in range. -/
theorem findSome?_of_inRange (hall : ∀ p ∈ ps, InRange p) (excess : Option ℤ) :
    ps.findSome? (parameterError excess) =
      if ∃ p ∈ ps, Exceeds excess p then some .flowControlError else none := by
  split
  · rename_i hexists
    obtain ⟨p, hp, hexceeds⟩ := hexists
    cases hfirst : ps.findSome? (parameterError excess) with
    | none =>
      have hnone := List.findSome?_eq_none_iff.mp hfirst p hp
      rw [parameterError_of_inRange (hall p hp), if_pos hexceeds] at hnone
      cases hnone
    | some e =>
      obtain ⟨q, hq, herror⟩ := List.exists_of_findSome?_eq_some hfirst
      rw [parameterError_of_inRange (hall q hq)] at herror
      split at herror
      · exact herror.symm
      · cases herror
  · rename_i hnone
    rw [List.findSome?_eq_none_iff]
    intro p hp
    rw [parameterError_of_inRange (hall p hp), if_neg fun he => hnone ⟨p, hp, he⟩]

/-- A frame whose parameters are all in range. -/
theorem settingsProcessed_iff_of_inRange (hid : header.streamId = 0)
    (hack : header.has frameFlagsAck = false) (hlen : header.length % 6 = 0)
    (hps : settingsParameters payload header.length = ps) (hall : ∀ p ∈ ps, InRange p) :
    SettingsProcessed w (finalState (handleSettingsFrame header payload w)) ps ↔
      (∃ p ∈ ps, Known p) ∧ ∀ p ∈ ps, ¬ Exceeds w.ctx.excess p := by
  -- the loop stores all parameters and counts those it knows
  obtain ⟨w₁, hrest, hsettings, hlimit, hmax, -, hsent⟩ := updateSettingsLoop_accepted hall 0 w
  have hloop : updateSettingsLoop ps 0 w = .ok (ps.countP fun p => Known p) w₁ := by
    have hnil := hrest []
    rw [List.append_nil, Nat.zero_add] at hnil
    exact hnil
  -- an acknowledgment is sent if there was one
  have hfinal : finalState (handleSettingsFrame header payload w) =
      if 0 < ps.countP fun p => Known p then
        finalState (sendFrame .settingsAck .closeOnWriteError w₁)
      else w₁ := by
    have hbind : handleSettingsFrame header payload w =
        (if (ps.countP fun p => Known p) > 0 then do
          let _ ← sendSettingsFrame true [] .closeOnWriteError
          return 0
        else return 0 : M ℤ) w₁ := by
      rw [handleSettingsFrame_eq hid hack hlen, hps]
      simp only [Bind.bind, EStateM.bind, hloop]
    rw [hbind]
    split
    · exact finalState_return _ _ _
    · rfl
  have hcount : (0 < ps.countP fun p => Known p) ↔ ∃ p ∈ ps, Known p := by
    rw [List.countP_pos_iff]
    simp
  rw [hfinal, SettingsProcessed, findSome?_of_inRange hall]
  by_cases hknown : ∃ p ∈ ps, Known p
  · rw [if_pos (hcount.mpr hknown)]
    obtain ⟨hctx, hack'⟩ := sendFrame_final .settingsAck .closeOnWriteError w₁
    rw [hsent] at hack'
    by_cases hexceeds : ∃ p ∈ ps, Exceeds w.ctx.excess p
    · -- the acknowledgment is sent all the same
      rw [if_pos hexceeds]
      refine iff_of_false (fun hgoaway => ?_) fun hno => ?_
      · dsimp only at hgoaway
        rw [hack', List.append_cancel_left_eq] at hgoaway
        cases hgoaway
      · obtain ⟨p, hp, he⟩ := hexceeds
        exact hno.2 p hp he
    · rw [if_neg hexceeds, hctx]
      exact iff_of_true ⟨hsettings, hlimit, hmax, hack'⟩
        ⟨hknown, fun p hp he => hexceeds ⟨p, hp, he⟩⟩
  · -- nothing is sent
    rw [if_neg fun hpos => hknown (hcount.mp hpos)]
    refine iff_of_false (fun hprocessed => ?_) fun hno => hknown hno.1
    split at hprocessed
    · have hack' := hprocessed.2.2.2
      rw [hsent, List.self_eq_append_right] at hack'
      cases hack'
    · rw [hsent, List.self_eq_append_right] at hprocessed
      cases hprocessed

/-- A frame with a parameter out of range. -/
theorem settingsProcessed_iff_of_not_inRange {q : ℕ × ℕ} {pre rest : List (ℕ × ℕ)}
    (hid : header.streamId = 0) (hack : header.has frameFlagsAck = false)
    (hlen : header.length % 6 = 0)
    (hps : settingsParameters payload header.length = pre ++ q :: rest)
    (hall : ∀ p ∈ pre, InRange p) (hq : ¬ InRange q) :
    SettingsProcessed w (finalState (handleSettingsFrame header payload w)) (pre ++ q :: rest) ↔
      ((∃ p ∈ pre, Exceeds w.ctx.excess p) → q.1 = 4) := by
  -- the loop stores what comes before, and stops at the parameter that is out of range
  obtain ⟨w₁, hrest, -, -, -, hlast, hsent⟩ := updateSettingsLoop_accepted hall 0 w
  have hloop : updateSettingsLoop (pre ++ q :: rest) 0 w =
      (do
        http2Error (rangeError q.1)
        return 0) w₁ := by
    rw [hrest, updateSettingsLoop, bind_getCtx, applySetting_of_not_inRange _ hq]
  have hgoaway : sentFrames (finalState (handleSettingsFrame header payload w)).log =
      sentFrames w.log ++ [.goaway (rangeError q.1).code w.ctx.lastOpenedStreamId] := by
    have herror := http2Error_final (rangeError q.1) w₁
    rw [hsent, hlast] at herror
    rw [← herror, handleSettingsFrame_eq hid hack hlen, hps]
    simp only [Bind.bind, EStateM.bind] at hloop ⊢
    rw [hloop]
    cases http2Error (rangeError q.1) w₁ <;> rfl
  -- the first error: a window that exceeds its limit before, or the parameter itself
  have hfirst : (pre ++ q :: rest).findSome? (parameterError w.ctx.excess) =
      some (if ∃ p ∈ pre, Exceeds w.ctx.excess p then .flowControlError else rangeError q.1) := by
    rw [List.findSome?_append, findSome?_of_inRange hall, List.findSome?_cons,
      parameterError_of_not_inRange hq]
    split <;> rfl
  rw [SettingsProcessed, hfirst]
  dsimp only
  rw [hgoaway, List.append_cancel_left_eq, List.singleton_inj, Frame.goaway.injEq]
  -- the codes differ unless both are flow control errors
  by_cases hexceeds : ∃ p ∈ pre, Exceeds w.ctx.excess p
  · rw [if_pos hexceeds, rangeError]
    by_cases h4 : q.1 = 4
    · rw [if_pos h4]
      exact iff_of_true ⟨rfl, rfl⟩ fun _ => h4
    · rw [if_neg h4]
      exact iff_of_false (fun h => absurd h.1 (by decide)) fun h => h4 (h hexceeds)
  · rw [if_neg hexceeds]
    exact iff_of_true ⟨rfl, rfl⟩ fun h => absurd h hexceeds

/-- **SETTINGS frames.** In every state of a connection, a SETTINGS frame without ACK flag on
stream 0 whose length is a multiple of six is processed as it has to be if and only if it is
regular. -/
theorem settingsProcessed_iff (hid : header.streamId = 0) (hack : header.has frameFlagsAck = false)
    (hlen : header.length % 6 = 0) (payload : Bytes) (w : World) :
    SettingsProcessed w (finalState (handleSettingsFrame header payload w))
        (settingsParameters payload header.length) ↔
      SettingsRegular w.ctx (settingsParameters payload header.length) := by
  generalize hps : settingsParameters payload header.length = ps
  rw [SettingsRegular]
  cases hfind : ps.find? fun p => ¬ InRange p with
  | none =>
    have hall : ∀ p ∈ ps, InRange p := by simpa using hfind
    exact settingsProcessed_iff_of_inRange hid hack hlen hps hall
  | some q =>
    obtain ⟨hq, pre, rest, rfl, hpre⟩ := List.find?_eq_some_iff_append.mp hfind
    have hq : ¬ InRange q := by simpa using hq
    have hall : ∀ p ∈ pre, InRange p := by simpa using hpre
    have htake : (pre ++ q :: rest).takeWhile (fun p => InRange p) = pre := by
      rw [List.takeWhile_append_of_pos (by simpa using hall),
        List.takeWhile_cons_of_neg (by simpa using hq), List.append_nil]
    rw [htake]
    exact settingsProcessed_iff_of_not_inRange hid hack hlen hps hall hq

/-- Two initial window sizes, a table size and an unknown parameter. -/
def severalParameters : Bytes :=
  [0, 4, 0, 0, 0, 9, 0, 1, 0, 0, 0, 64, 0, 99, 0, 0, 0, 1, 0, 4, 0, 0, 0, 7]

/-- The parameters come after the first five bytes of a response with ten. -/
theorem settingsProcessed_window :
    ∃ w ∈ (EventLoop.run (Sample.server 10) (Sample.handshake (Sample.setting 4 [0, 0, 0, 5]) ++
        Sample.receive (Sample.headers 5 1 Sample.getBlock) ++ [.send 0 512, .send 0 512])).worlds,
      w.ctx.excess = some (-5) ∧
        SettingsProcessed w (finalState (handleSettingsFrame ⟨24, .settings, 0, 0⟩ severalParameters w))
          [(4, 9), (1, 64), (99, 1), (4, 7)] := by
  have hopen : ∃ w ∈ (EventLoop.run (Sample.server 10)
      (Sample.handshake (Sample.setting 4 [0, 0, 0, 5]) ++
        Sample.receive (Sample.headers 5 1 Sample.getBlock) ++ [.send 0 512, .send 0 512])).worlds,
      w.ctx.excess = some (-5) := by decide +kernel
  obtain ⟨w, hw, hexcess⟩ := hopen
  refine ⟨w, hw, hexcess, (@settingsProcessed_iff ⟨24, .settings, 0, 0⟩ rfl rfl rfl _ w).mpr ?_⟩
  have hps : settingsParameters severalParameters 24 = [(4, 9), (1, 64), (99, 1), (4, 7)] := rfl
  have hfind : [(4, 9), (1, 64), (99, 1), (4, 7)].find? (fun p => ¬ InRange p) = none := by decide
  rw [hps, SettingsRegular, hfind, hexcess]
  exact ⟨by decide, by decide⟩

/-- A client connects and sends the preface. -/
def prefaced : List EventLoop.Action := [.accept true, .recv 0 http2Preface, .pending 0]

/-- An empty SETTINGS frame after the preface is not acknowledged. -/
theorem not_settingsProcessed :
    ¬ ∀ (server : Server) (actions : List EventLoop.Action),
      ∀ w ∈ (EventLoop.run server actions).worlds, ∀ (header : FrameHeader) (payload : Bytes),
        header.streamId = 0 → header.has frameFlagsAck = false → header.length % 6 = 0 →
        SettingsProcessed w (finalState (handleSettingsFrame header payload w))
          (settingsParameters payload header.length) := by
  intro h
  have hall : ∀ w ∈ (EventLoop.run .empty prefaced).worlds,
      sentFrames (finalState (handleSettingsFrame ⟨0, .settings, 0, 0⟩ [] w)).log =
        sentFrames w.log ++ [.settingsAck] := by
    intro w hw
    have hprocessed := h .empty _ w hw ⟨0, .settings, 0, 0⟩ [] rfl rfl rfl
    have hps : settingsParameters [] 0 = [] := rfl
    rw [SettingsProcessed, hps] at hprocessed
    exact hprocessed.2.2.2
  revert hall
  decide +kernel

end Settings

end Two
