import Two.Http2.Errors
import Two.Http2.FrameLocal

/-!
# The stream, part by part

A read callback may find several frames in the read buffer, or a part of one; `receiving` leaves its
loop after some frames and is called again on what it has not consumed. Without an error all of this
comes to the same: the preface, the SETTINGS frame and the frames are handled one by one.

## Main definitions

* `nextMessage`: the next part of the stream that a read callback acts on
* `digest`: the parts of the stream are handled one by one
* `Absorbs`: how a read callback ends that has followed the stream

## Main results

* `digest_append`: a stream may be handled in pieces
* `callReadCb_absorbs`: a read callback follows the stream
* `callReadCb_waiting`, `callReadCb_consumes`: when a read callback consumes something
-/

namespace Two

open Program

/-! ## The parts of a stream -/

/-- The size of the frame at the beginning, if it is there as a whole, or of its header, if it is
refused without its payload. -/
def nextFrame (refused : FrameHeader → Bool) (bytes : Bytes) : Option ℕ :=
  let header := frameParseHeader bytes
  if bytes.length < 9 then none
  else if refused header then some 9
  else if bytes.length < 9 + header.length then none
  else some (9 + header.length)

/-- The size of the next part of the stream that a read callback acts on. -/
def nextMessage (cb : ReadCb) (bytes : Bytes) : Option ℕ :=
  match cb with
  | .waitingForPreface => if bytes.length < 24 then none else some 24
  | .waitingForSettings => nextFrame (fun h => h.type ≠ .settings ∨ h.flags ≠ 0) bytes
  | .receiving => nextFrame (fun h => h.length > 512) bytes

section Messages

variable {refused : FrameHeader → Bool} {cb : ReadCb} {bytes more : Bytes} {n : ℕ}

/-- How the next frame is found. -/
theorem nextFrame_cases (h : nextFrame refused bytes = some n) :
    9 ≤ bytes.length ∧ ((refused (frameParseHeader bytes) = true ∧ n = 9) ∨
      (refused (frameParseHeader bytes) = false ∧ n = 9 + (frameParseHeader bytes).length ∧
        n ≤ bytes.length)) := by
  unfold nextFrame at h
  dsimp only at h
  split at h
  · cases h
  split at h
  · cases h
    exact ⟨by omega, .inl ⟨‹_›, rfl⟩⟩
  split at h
  · cases h
  · cases h
    exact ⟨by omega, .inr ⟨by simpa using ‹¬ refused _ = true›, rfl, by omega⟩⟩

theorem frameParseHeader_append (h : 9 ≤ bytes.length) :
    frameParseHeader (bytes ++ more) = frameParseHeader bytes := by
  rw [← frameParseHeader_take h, List.take_left]

theorem nextFrame_append (h : nextFrame refused bytes = some n) :
    nextFrame refused (bytes ++ more) = some n := by
  obtain ⟨hlen, hcases⟩ := nextFrame_cases h
  unfold nextFrame
  dsimp only
  rw [frameParseHeader_append hlen, List.length_append, if_neg (by omega)]
  rcases hcases with ⟨href, rfl⟩ | ⟨href, rfl, hle⟩
  · rw [if_pos href]
  · rw [if_neg (by simp [href]), if_neg (by omega)]

theorem nextMessage_bounds (h : nextMessage cb bytes = some n) : 9 ≤ n ∧ n ≤ bytes.length := by
  have hframe : ∀ {refused}, nextFrame refused bytes = some n → 9 ≤ n ∧ n ≤ bytes.length := by
    intro refused h
    obtain ⟨hlen, ⟨-, rfl⟩ | ⟨-, rfl, hle⟩⟩ := nextFrame_cases h
    · exact ⟨le_rfl, hlen⟩
    · exact ⟨by omega, hle⟩
  cases cb with
  | waitingForPreface =>
    simp only [nextMessage] at h
    split at h
    · cases h
    · cases h
      omega
  | waitingForSettings =>
    simp only [nextMessage] at h
    exact hframe h
  | receiving =>
    simp only [nextMessage] at h
    exact hframe h

/-- What arrives later does not change the next part. -/
theorem nextMessage_append (h : nextMessage cb bytes = some n) :
    nextMessage cb (bytes ++ more) = some n := by
  have hbounds := nextMessage_bounds h
  cases cb with
  | waitingForPreface =>
    simp only [nextMessage] at h ⊢
    split at h
    · cases h
    · rw [List.length_append, if_neg (by omega)]
      exact h
  | waitingForSettings =>
    simp only [nextMessage] at h ⊢
    exact nextFrame_append h
  | receiving =>
    simp only [nextMessage] at h ⊢
    exact nextFrame_append h

end Messages

section Digest

variable (server : Server)

/-- The parts of a stream are handled one by one, each alone in the read buffer. The result is what
remains of the stream. -/
def digest (bytes : Bytes) (w : World) : EStateM.Result Assertion World Bytes :=
  match w.sock.read with
  | none => .ok [] w
  | some e =>
    match h : nextMessage e.cb bytes with
    | none => .ok bytes w
    | some n =>
      match callReadCb server e.cb n (bytes.take n) w with
      | .ok _ w' => digest (bytes.drop n) w'
      | .error a w' => .error a w'
termination_by bytes.length
decreasing_by
  have := nextMessage_bounds h
  rw [List.length_drop]
  omega

variable {server} {bytes more : Bytes} {w : World} {e : EventRead} {n : ℕ}

theorem digest_stopped (h : w.sock.read = none) : digest server bytes w = .ok [] w := by
  rw [digest, h]

theorem digest_waiting (h : w.sock.read = some e) (hnone : nextMessage e.cb bytes = none) :
    digest server bytes w = .ok bytes w := by
  rw [digest, h]
  dsimp only
  split
  · rfl
  · rename_i hsome
    rw [hnone] at hsome
    cases hsome

theorem digest_message (h : w.sock.read = some e) (hsome : nextMessage e.cb bytes = some n) :
    digest server bytes w =
      match callReadCb server e.cb n (bytes.take n) w with
      | .ok _ w' => digest server (bytes.drop n) w'
      | .error a w' => .error a w' := by
  rw [digest, h]
  dsimp only
  split
  · rename_i hnone
    rw [hnone] at hsome
    cases hsome
  · rename_i m hm
    rw [hm] at hsome
    cases hsome
    rfl

/-- **A stream may be handled in pieces.** -/
theorem digest_append (bytes more : Bytes) (w : World) :
    digest server (bytes ++ more) w =
      match digest server bytes w with
      | .ok rest w' => digest server (rest ++ more) w'
      | .error a w' => .error a w' := by
  induction hlen : bytes.length using Nat.strong_induction_on generalizing bytes w with
  | _ k ih =>
    cases hr : w.sock.read with
    | none => rw [digest_stopped hr, digest_stopped hr]; dsimp only; rw [digest_stopped hr]
    | some e =>
      cases hm : nextMessage e.cb bytes with
      | none => rw [digest_waiting hr hm]
      | some n =>
        have hbounds := nextMessage_bounds hm
        rw [digest_message hr hm, digest_message hr (nextMessage_append hm),
          List.take_append_of_le_length hbounds.2, List.drop_append_of_le_length hbounds.2]
        cases callReadCb server e.cb n (bytes.take n) w with
        | error a w' => rfl
        | ok _ w' =>
          refine ih (bytes.drop n).length ?_ (bytes.drop n) w' rfl
          rw [List.length_drop]
          omega

/-! ## Traces -/

theorem errored_of_extends {log log' : List Entry} (h : log <+: log') (he : errored log = true) :
    errored log' = true := by
  by_contra herr
  rw [errored_mono h (by simpa using herr)] at he
  cases he

/-- The program raises an error, whichever way it ends. -/
def Errs {α : Type} (m : M α) (w : World) : Prop :=
  wp m (fun _ w' => errored w'.log = true) (fun _ w' => errored w'.log = true) w

theorem Errs.final {α : Type} {m : M α} (h : Errs m w) : errored (finalState (m w)).log = true :=
  (@wp_finalState _ _ _ w m fun u => errored u.log = true).mp h

theorem http2Error_errs (e : Http2Error) (w : World) : Errs (http2Error e) w := by
  refine http2Error_wp (fun _ => by simp) fun _ _ _ hlog _ => ?_
  rw [hlog]
  simp

theorem handleSettingsFrame_extends (header : FrameHeader) (payload : Bytes) (w : World) :
    wp (handleSettingsFrame header payload) (fun _ w' => w.log <+: w'.log)
      (fun _ w' => w.log <+: w'.log) w := by
  by_cases hs : SilentSettings header payload
  · exact (handleSettingsFrame_hides (.refl w) hs).mono (fun _ _ hf => hf.2.1.log_le)
      fun _ _ hd => hd.1.log_le
  · exact (handleSettingsFrame_tells (.refl w) hs).mono
      (fun _ _ hf => hf.elim Clean.log_le fun hf => hf.2.log_le) fun _ _ => Died.log_le

/-- A read callback only extends the trace. -/
theorem callReadCb_extends (cb : ReadCb) (size : ℤ) (buf : Bytes) (w : World) :
    wp (callReadCb server cb size buf) (fun _ w' => w.log <+: w'.log) (fun _ w' => w.log <+: w'.log)
      w := by
  -- what every callback may end with: a close, an error, or another read callback
  have hclose : w.log <+: w.closeImmediate.log := by simp
  have herror : ∀ {e : Http2Error} {u : World}, w.log <+: u.log →
      wp (http2Error e) (fun _ w' => w.log <+: w'.log) (fun _ w' => w.log <+: w'.log) u := by
    intro e u hu
    refine http2Error_wp (fun _ => hu.trans (by simp)) fun _ _ _ hlog _ => ?_
    rw [hlog]
    exact hu.trans (by simp)
  have hread : ∀ {cb : ReadCb} {u : World}, w.log <+: u.log →
      wp (eventRead cb) (fun _ w' => w.log <+: w'.log) (fun _ w' => w.log <+: w'.log) u := by
    intro cb u hu
    refine eventRead_wp (fun _ => hu.trans (by simp)) fun _ _ hlog => ?_
    rw [hlog]
    exact hu.trans (List.prefix_append _ _)
  cases cb with
  | waitingForPreface =>
    simp only [callReadCb, waitingForPreface, sendSettingsFrame, wp_ite, wp_bind, wp_pure,
      wp_modifyCtx, wp_http2CloseImmediate]
    refine ⟨fun _ => hclose, fun _ => ⟨fun _ => List.prefix_refl _, fun _ => ⟨fun _ => hclose,
      fun _ => ?_⟩⟩⟩
    refine sendFrame_wp (fun _ _ => hread (by simp)) fun _ _ _ hlog _ => ?_
    rw [hlog]
    exact List.prefix_append _ _
  -- a refused frame is an error; a SETTINGS frame is handled before the connection is ready
  | waitingForSettings =>
    simp only [callReadCb, waitingForSettings, wp_ite, wp_bind, wp_pure, wp_record, wp_modifyCtx,
      wp_http2CloseImmediate]
    refine ⟨fun _ => hclose, fun _ => ⟨fun _ => List.prefix_refl _, fun _ => ⟨fun _ => ?_, fun _ =>
      ⟨fun _ => List.prefix_refl _, fun _ => ?_⟩⟩⟩⟩
    · exact herror (by simp)
    · refine (handleSettingsFrame_extends _ _ _).mono (fun rc u hu => ?_) fun _ _ hu => ?_
      · have hu : w.log <+: u.log := List.IsPrefix.trans (by simp) hu
        exact ⟨fun _ => hu, fun _ => hread (hu.trans (by simp))⟩
      · exact List.IsPrefix.trans (by simp) hu
  | receiving =>
    simp only [callReadCb, receiving, wp_ite, wp_bind, wp_pure, wp_http2CloseImmediate]
    exact ⟨fun _ => hclose, fun _ => receivingLoop_extends _ _ _ _⟩

/-- Handling a stream only extends the trace. -/
theorem digest_extends (bytes : Bytes) (w : World) :
    w.log <+: (finalState (digest server bytes w)).log := by
  induction hlen : bytes.length using Nat.strong_induction_on generalizing bytes w with
  | _ k ih =>
    cases hr : w.sock.read with
    | none =>
      rw [digest_stopped hr]
      exact List.prefix_refl _
    | some e =>
      cases hm : nextMessage e.cb bytes with
      | none =>
        rw [digest_waiting hr hm]
        exact List.prefix_refl _
      | some n =>
        -- a message is not empty, so what follows it is shorter
        have hbounds := nextMessage_bounds hm
        have hext := @callReadCb_extends server e.cb n (bytes.take n) w
        rw [digest_message hr hm]
        unfold wp at hext
        cases hrun : callReadCb server e.cb n (bytes.take n) w with
        | error a w' =>
          rw [hrun] at hext
          exact hext
        | ok _ w' =>
          rw [hrun] at hext
          have hrest := ih (bytes.drop n).length (by rw [List.length_drop]; omega) (bytes.drop n) w' rfl
          exact List.IsPrefix.trans hext hrest

theorem digest_errored (h : errored w.log = true) :
    errored (finalState (digest server bytes w)).log = true :=
  errored_of_extends (digest_extends bytes w) h

/-- A part of the stream that raises an error. -/
theorem digest_errored_of_message (h : w.sock.read = some e) (hsome : nextMessage e.cb bytes = some n)
    (herr : Errs (callReadCb server e.cb n (bytes.take n)) w) :
    errored (finalState (digest server bytes w)).log = true := by
  rw [digest_message h hsome]
  unfold Errs wp at herr
  cases hrun : callReadCb server e.cb n (bytes.take n) w with
  | error a w' =>
    rw [hrun] at herr
    exact herr
  | ok _ w' =>
    rw [hrun] at herr
    exact digest_errored herr

/-- A whole frame. -/
theorem digest_whole (h : w.sock.read = some e) (hcb : e.cb = .receiving) (hwhole : Whole bytes) :
    digest server bytes w =
      match receiveFrame server (frameParseHeader bytes)
        ((bytes.drop 9).take (frameParseHeader bytes).length) w with
      | .ok _ w' => digest server (bytes.drop (9 + (frameParseHeader bytes).length)) w'
      | .error a w' => .error a w' := by
  obtain ⟨hlen, hle⟩ := hwhole
  have hnext : nextMessage e.cb bytes = some (9 + (frameParseHeader bytes).length) := by
    simp only [hcb, nextMessage, nextFrame]
    rw [if_neg (by omega), if_neg (by simp; omega), if_neg (by omega)]
  -- the header read from the cut message is the one read from all the bytes
  have hheader : frameParseHeader (bytes.take (9 + (frameParseHeader bytes).length)) =
      frameParseHeader bytes := frameParseHeader_take (by omega)
  have htake : (bytes.take (9 + (frameParseHeader bytes).length)).length =
      (8 + (frameParseHeader bytes).length) + 1 := by
    rw [List.length_take]
    omega
  have hloop := @receivingLoop_whole server (bytes.take (9 + (frameParseHeader bytes).length))
    (8 + (frameParseHeader bytes).length) 0 w (by rw [hheader]; exact hlen)
    (by rw [hheader, htake]; omega)
  rw [hheader] at hloop
  rw [digest_message h hnext, hcb]
  simp only [callReadCb, receiving]
  rw [if_neg (by omega), htake, hloop, List.drop_take, Nat.add_sub_cancel_left]
  simp only [Bind.bind, EStateM.bind]
  cases receiveFrame server (frameParseHeader bytes)
      ((bytes.drop 9).take (frameParseHeader bytes).length) w with
  | error a w' => rfl
  | ok rc w' =>
    by_cases hrc : rc < 0
    · simp only [if_pos hrc]
      rfl
    · simp only [if_neg hrc]
      rw [receivingLoop_short (by simp)]

end Digest

/-! ## One call of a read callback -/

section Absorb

variable {server : Server} {ev : EventRead} {buf : Fifo} {w w' : World} {all : Bytes}

theorem Same.read_other (h : Same ev buf w w') (hr : w.sock.read = some ev) :
    w'.sock.read = some { ev with buf := buf } := by
  rcases h.read with ⟨-, hr'⟩ | ⟨hnone, -⟩
  · exact hr'
  · rw [hnone] at hr
    cases hr

/-- Without an error the connection is still read from. -/
theorem Same.read_some (h : Same ev buf w w') (herr : errored w.log = false) :
    w.sock.read = some ev := by
  rcases h.read with ⟨hr, -⟩ | ⟨-, -, herr'⟩
  · exact hr
  · rw [herr] at herr'
    cases herr'

/-- How a read callback ends that finds `all` in the read buffer, where handling the stream ends with
`target`: an error is raised on both sides, or the stream is followed up to what is consumed. -/
def Absorbs (server : Server) (ev : EventRead) (buf : Fifo) (all : Bytes)
    (target : EStateM.Result Assertion World Bytes) : EStateM.Result Assertion World ℕ → Prop
  | .ok n u => (errored u.log = true ∧ errored (finalState target).log = true) ∨
      ∃ cb u', Same { ev with cb := cb } buf u u' ∧ u.sock.read = some { ev with cb := cb } ∧
        cb ≠ .waitingForPreface ∧ target = digest server (all.drop n) u'
  | .error a u => (errored u.log = true ∧ errored (finalState target).log = true) ∨
      ∃ u', Same ev buf u u' ∧ target = .error a u'

theorem Absorbs.of_errored {target : EStateM.Result Assertion World Bytes}
    {r : EStateM.Result Assertion World ℕ} (h : errored (finalState r).log = true)
    (ht : errored (finalState target).log = true) : Absorbs server ev buf all target r := by
  cases r with
  | ok n u => exact .inl ⟨h, ht⟩
  | error a u => exact .inl ⟨h, ht⟩

/-- The frame for which a CONTINUATION frame was expected is an error. -/
theorem receiveFrame_refused {header : FrameHeader} {region : Bytes}
    (h : w.ctx.flags.waitingEndHeaders ∧ header.type ≠ .continuation) :
    Errs (receiveFrame server header region) w := by
  simp only [Errs, receiveFrame, failWith, wp_bind, wp_getCtx, wp_record, if_pos h, wp_pure]
  exact http2Error_errs _ _

theorem receivingLoop_refused {fuel n : ℕ} {bytes : Bytes} (hshort : 9 ≤ bytes.length)
    (hlarge : 512 < (frameParseHeader bytes).length) :
    Errs (receivingLoop server (fuel + 1) n bytes) w := by
  rw [Errs, wp_congr (receivingLoop_large hshort hlarge)]
  simp only [wp_bind, wp_record, wp_pure]
  exact http2Error_errs _ _

theorem errored_receivingLoop {fuel n : ℕ} {bytes : Bytes} (h : errored w.log = true) :
    errored (finalState (receivingLoop server fuel n bytes w)).log = true :=
  errored_of_extends (wp_finalState.mp (receivingLoop_extends fuel n bytes w)) h

/-- `receiving` follows the stream frame by frame. -/
theorem receivingLoop_absorbs (fuel k : ℕ) (hs : Same ev buf w w') (hr : w.sock.read = some ev)
    (hcb : ev.cb = .receiving) :
    Absorbs server ev buf all (digest server (all.drop k) w')
      (receivingLoop server fuel k (all.drop k) w) := by
  induction fuel generalizing k w w' with
  | zero => exact .inr ⟨ev.cb, w', hs, hr, by simp [hcb], rfl⟩
  | succ fuel ih =>
    have hr' := hs.read_other hr
    rcases idle_or_large_or_whole (all.drop k) with hidle | ⟨hshort, hlarge⟩ | hwhole
    · rw [receivingLoop_idle hidle]
      exact .inr ⟨ev.cb, w', hs, hr, by simp [hcb], rfl⟩
    · -- the length is refused before the payload is there
      refine .of_errored ?_ (digest_errored_of_message (n := 9) hr' ?_ ?_)
      · exact (receivingLoop_refused hshort hlarge).final
      · simp only [hcb, nextMessage, nextFrame]
        rw [if_neg (by omega), if_pos (by simpa using hlarge)]
      · have hheader : frameParseHeader ((all.drop k).take 9) = frameParseHeader (all.drop k) :=
          frameParseHeader_take le_rfl
        have htake : ((all.drop k).take 9).length = 8 + 1 := by
          rw [List.length_take]
          omega
        simp only [hcb, callReadCb, receiving]
        rw [if_neg (by omega), htake]
        exact receivingLoop_refused (by omega) (by rw [hheader]; exact hlarge)
    -- a whole frame: both sides handle the same header and payload
    · rw [receivingLoop_whole hwhole.1 hwhole.2, digest_whole hr' hcb hwhole]
      have hrefused := @receiveFrame_refused server w (frameParseHeader (all.drop k))
        ((all.drop k).drop 9)
      have hends := @receiveFrame_local ev buf (frameParseHeader (all.drop k)) ((all.drop k).drop 9)
        server hcb w w' hs
      simp only [Bind.bind, EStateM.bind]
      unfold Errs wp at hrefused
      revert hrefused hends
      generalize receiveFrame server (frameParseHeader (all.drop k)) ((all.drop k).drop 9) w = r
      generalize receiveFrame server (frameParseHeader (all.drop k))
        (((all.drop k).drop 9).take (frameParseHeader (all.drop k)).length) w' = r'
      rintro hrefused (⟨rc, hs'⟩ | ⟨a, hs'⟩)
      · rename_i u u'
        dsimp only at hrefused ⊢
        -- after an error the rest of the buffer is of no importance
        by_cases herr : errored u.log = true
        · refine .of_errored ?_ (digest_errored (hs'.errors.trans herr))
          split
          · exact herr
          · exact errored_receivingLoop herr
        have hread := hs'.read_some (by simpa using herr)
        have hrest : (all.drop k).drop (9 + (frameParseHeader (all.drop k)).length) =
            all.drop (k + 9 + (frameParseHeader (all.drop k)).length) := by
          rw [List.drop_drop, Nat.add_assoc]
        rw [hrest]
        -- a frame that is refused without an error was consumed; else the loop goes on behind it
        split
        · have htaken : frameTaken w.ctx (frameParseHeader (all.drop k)) =
              9 + (frameParseHeader (all.drop k)).length := if_neg fun h => herr (hrefused h)
          refine .inr ⟨ev.cb, u', hs', hread, by simp [hcb], ?_⟩
          rw [htaken, Nat.add_assoc]
        · exact ih _ hs' hread
      · exact .inr ⟨_, hs', rfl⟩

/-! ### The handshake -/

theorem bind_modifyCtx {α : Type} (f : Context → Context) (k : Unit → M α) (w : World) :
    (modifyCtx f >>= k) w = k () (w.onCtx f) := rfl

theorem bind_get {α : Type} (k : World → M α) (w : World) : ((get : M World) >>= k) w = k w w := rfl

theorem bind_run {α β : Type} (m : M α) (k : α → M β) (w : World) :
    (m >>= k) w =
      match m w with
      | .ok a u => k a u
      | .error e u => .error e u := by
  simp only [Bind.bind, EStateM.bind]
  cases m w <;> rfl

/-- `event_read` on a connected socket with a read event. -/
theorem eventRead_bind {α : Type} {e : EventRead} (hc : w.sock.state = .connected)
    (hr : w.sock.read = some e) (cb : ReadCb) (f : Unit → M α) :
    (eventRead cb >>= f) w = f () (w.reading cb) := by
  have hwp : wp (eventRead cb) (fun _ u => u = w.reading cb) (fun _ _ => False) w := by
    simp only [eventRead, wp_bind, wp_record, wp_get, wp_ite, wp_throw, World.add_toState]
    refine ⟨fun hne => hne hc, fun _ => ?_⟩
    simp only [hr, wp_set, World.reading, Option.map_some]
    rfl
  unfold wp at hwp
  simp only [Bind.bind, EStateM.bind]
  cases hrun : eventRead cb w with
  | ok a u =>
    rw [hrun] at hwp
    rw [← hwp]
  | error a u =>
    rw [hrun] at hwp
    exact hwp.elim

theorem Same.reading (h : Same ev buf w w') (hr : w.sock.read = some ev) (cb : ReadCb) :
    Same { ev with cb := cb } buf (w.reading cb) (w'.reading cb) := by
  have hr' := h.read_other hr
  refine { h with read := .inl ⟨?_, ?_⟩, sent := ?_, errors := ?_ }
  · rw [World.reading_read, hr]
    rfl
  · rw [World.reading_read, hr']
    rfl
  · rw [World.reading_log, World.reading_log, sentBytes_append, sentBytes_append, h.sent]
    rfl
  · simp [h.errors]

/-- A result below zero reports an error. -/
theorem handleSettingsFrame_negative (header : FrameHeader) (payload : Bytes) (w : World) :
    wp (handleSettingsFrame header payload) (fun rc u => rc < 0 → errored u.log = true)
      (fun _ _ => True) w := by
  have hfail : ∀ e : Http2Error, wp (failWith e) (fun rc u => rc < 0 → errored u.log = true)
      (fun _ _ => True) w := by
    intro e
    simp only [failWith, wp_bind, wp_pure]
    exact (http2Error_errs e w).mono (fun _ _ herr _ => herr) fun _ _ _ => trivial
  simp only [handleSettingsFrame, wp_ite, wp_bind, wp_getCtx, wp_modifyCtx, wp_pure]
  refine ⟨fun _ => hfail _, fun _ => ⟨fun _ => ⟨fun _ => hfail _, fun _ => ?_⟩, fun _ =>
    ⟨fun _ => hfail _, fun _ => ⟨fun _ h => absurd h (lt_irrefl 0), fun _ => ?_⟩⟩⟩⟩
  · refine wp_of_forall (fun total u => ⟨fun _ => ?_, fun _ h => absurd h (lt_irrefl 0)⟩)
      fun _ _ => trivial
    exact wp_of_forall (fun _ _ h => absurd h (lt_irrefl 0)) fun _ _ => trivial
  · exact wp_of_forall (fun _ _ h => absurd h (lt_irrefl 0)) fun _ _ => trivial

/-- The end of `waiting_for_settings`. -/
def becomeReady (size : ℕ) : M ℕ := do
  record fun _ => .ready
  modifyCtx fun c => { c with state := .ready }
  eventRead .receiving
  return size

/-- `waiting_for_settings` with a whole SETTINGS frame. -/
theorem waitingForSettings_whole {bytes : Bytes}
    (hle : 9 + (frameParseHeader bytes).length ≤ bytes.length)
    (ht : (frameParseHeader bytes).type = .settings) (hf : (frameParseHeader bytes).flags = 0) :
    waitingForSettings bytes.length bytes = (do
      record (.frame (frameParseHeader bytes) (bytes.drop 9))
      let rc ← handleSettingsFrame (frameParseHeader bytes) (bytes.drop 9)
      if rc < 0 then return bytes.length else becomeReady (9 + (frameParseHeader bytes).length)) := by
  have h9 : http2FrameHeaderSize = 9 := rfl
  unfold waitingForSettings
  rw [if_neg (by omega), if_neg (by omega)]
  dsimp only
  rw [if_neg (by simp [ht, hf]), if_neg (by omega)]
  rfl

/-- A frame that is no SETTINGS frame, or an acknowledgment, is an error. -/
theorem waitingForSettings_refused {bytes : Bytes} (hlen : 9 ≤ bytes.length)
    (h : (frameParseHeader bytes).type ≠ .settings ∨ (frameParseHeader bytes).flags ≠ 0) :
    Errs (waitingForSettings bytes.length bytes) w := by
  have h9 : http2FrameHeaderSize = 9 := rfl
  unfold waitingForSettings
  rw [if_neg (by omega), if_neg (by omega)]
  dsimp only
  rw [if_pos h]
  simp only [Errs, wp_bind, wp_record, wp_pure]
  exact http2Error_errs _ _

theorem becomeReady_some {size : ℕ} {e : EventRead} (hc : w.sock.state = .connected)
    (hr : w.sock.read = some e) :
    becomeReady size w = .ok size
      (((w.add fun _ => .ready).onCtx fun c => { c with state := .ready }).reading .receiving) := by
  exact eventRead_bind (w := (w.add fun _ => .ready).onCtx fun c => { c with state := .ready }) hc hr
    .receiving fun _ => pure size

theorem becomeReady_errs {size : ℕ} (h : errored w.log = true) : Errs (becomeReady size) w := by
  have hready : errored ((w.add fun _ => .ready).onCtx fun c => { c with state := .ready }).log =
      true := by simp [h]
  simp only [Errs, becomeReady, wp_bind, wp_record, wp_modifyCtx, wp_pure]
  refine eventRead_wp (fun _ => errored_of_extends (by simp) hready) fun _ _ hlog => ?_
  rw [hlog]
  exact errored_of_extends (List.prefix_append _ _) hready

theorem waitingForSettings_absorbs {n : ℕ} (hs : Same ev buf w w') (hr : w.sock.read = some ev)
    (hcb : ev.cb = .waitingForSettings) (hn : nextMessage ev.cb all = some n) :
    Absorbs server ev buf all (digest server all w') (waitingForSettings all.length all w) := by
  have hr' := hs.read_other hr
  have htake : (n : ℤ) = ((all.take n).length : ℤ) := by
    rw [List.length_take]
    have := nextMessage_bounds hn
    omega
  have hframe := hn
  rw [hcb] at hframe
  simp only [nextMessage] at hframe
  obtain ⟨hlen, ⟨href, hn9⟩ | ⟨href, hnl, hle⟩⟩ := nextFrame_cases hframe
  -- the frame is refused, from the whole buffer as from its own bytes: both end with an error
  · have href := of_decide_eq_true href
    refine .of_errored (waitingForSettings_refused hlen href).final
      (digest_errored_of_message hr' hn ?_)
    rw [htake]
    simp only [hcb, callReadCb]
    have hheader : frameParseHeader (all.take n) = frameParseHeader all :=
      frameParseHeader_take (by omega)
    refine waitingForSettings_refused (by rw [List.length_take]; omega) ?_
    rw [hheader]
    exact href
  -- the frame is a whole SETTINGS frame; both handle the same payload
  · obtain ⟨ht, hf⟩ := not_or.mp (of_decide_eq_false href)
    have ht := not_not.mp ht
    have hf := not_not.mp hf
    have hheader : frameParseHeader (all.take n) = frameParseHeader all :=
      frameParseHeader_take (by omega)
    have hpayload : (all.take n).drop 9 = (all.drop 9).take (frameParseHeader all).length := by
      rw [List.drop_take, hnl, Nat.add_sub_cancel_left]
    have hwhole : 9 + (frameParseHeader (all.take n)).length ≤ (all.take n).length := by
      rw [hheader, List.length_take]
      omega
    rw [digest_message hr' hn, htake]
    simp only [hcb, callReadCb]
    rw [waitingForSettings_whole (hnl ▸ hle) ht hf,
      waitingForSettings_whole hwhole (by rw [hheader]; exact ht) (by rw [hheader]; exact hf),
      hheader, hpayload, ← hnl, bind_record, bind_record]
    have hadd : Same ev buf (w.add (.frame (frameParseHeader all) (all.drop 9)))
        (w'.add (.frame (frameParseHeader all) ((all.drop 9).take (frameParseHeader all).length))) :=
      hs.add fun _ _ => ⟨rfl, rfl⟩
    -- `handle_settings_frame` reads its payload only, so both runs end alike
    have hneg := handleSettingsFrame_negative (frameParseHeader all) (all.drop 9)
      (w.add (.frame (frameParseHeader all) (all.drop 9)))
    have hends := @handleSettingsFrame_local ev buf (frameParseHeader all) (all.drop 9) _ _ hadd
    simp only [Bind.bind, EStateM.bind]
    unfold wp at hneg
    revert hneg hends
    generalize handleSettingsFrame (frameParseHeader all) (all.drop 9)
      (w.add (.frame (frameParseHeader all) (all.drop 9))) = r
    generalize handleSettingsFrame (frameParseHeader all)
      ((all.drop 9).take (frameParseHeader all).length) (w'.add (.frame (frameParseHeader all)
        ((all.drop 9).take (frameParseHeader all).length))) = r'
    rintro hneg (⟨rc, hs'⟩ | ⟨a, hs'⟩)
    · rename_i u u'
      dsimp only at hneg ⊢
      -- an error in the settings: whatever follows, there was one
      by_cases herr : errored u.log = true
      · have herr' := hs'.errors.trans herr
        by_cases hrc : rc < 0
        · simp only [if_pos hrc]
          exact .of_errored herr (digest_errored herr')
        · simp only [if_neg hrc]
          refine .of_errored (becomeReady_errs herr).final ?_
          have hdone := @Errs.final _ _ _ (@becomeReady_errs _ n herr')
          cases hrun : becomeReady n u' with
          | ok m v' =>
            rw [hrun] at hdone
            exact digest_errored hdone
          | error a v' =>
            rw [hrun] at hdone
            exact hdone
      -- without an error the connection becomes ready in both
      · have hrc : ¬ rc < 0 := fun hrc => herr (hneg hrc)
        have hread := hs'.read_some (by simpa using herr)
        have hready : Same ev buf ((u.add fun _ => .ready).onCtx fun c => { c with state := .ready })
            ((u'.add fun _ => .ready).onCtx fun c => { c with state := .ready }) :=
          Same.onCtx (Same.add hs' fun _ _ => ⟨rfl, rfl⟩) fun _ hc => hc
        simp only [if_neg hrc]
        rw [becomeReady_some hs'.connected hread,
          becomeReady_some hs'.connected' (hs'.read_other hread)]
        refine .inr ⟨.receiving, _, hready.reading hread .receiving, ?_, by simp, rfl⟩
        rw [World.reading_read]
        exact congrArg _ hread
    -- both fail the same assertion
    · exact .inr ⟨_, hs', rfl⟩

/-- `waiting_for_preface` with a valid preface. -/
theorem waitingForPreface_valid {bytes : Bytes} (hlen : 24 ≤ bytes.length)
    (hp : bytes.take 24 = http2Preface) :
    waitingForPreface bytes.length bytes = (do
      modifyCtx fun c => { c with state := .waitingSettings }
      let _ ← sendSettingsFrame false localSettings .onSettingsSent
      eventRead .waitingForSettings
      return 24) := by
  unfold waitingForPreface
  rw [if_neg (by omega), if_neg (by omega), if_neg (not_not.mpr hp)]

theorem waitingForPreface_absorbs {n : ℕ} (hs : Same ev buf w w') (hr : w.sock.read = some ev)
    (hcb : ev.cb = .waitingForPreface) (hn : nextMessage ev.cb all = some n)
    (hp : all.take 24 = http2Preface) :
    Absorbs server ev buf all (digest server all w') (waitingForPreface all.length all w) := by
  have hr' := hs.read_other hr
  have hlen := nextMessage_bounds hn
  -- the part of the stream is the preface
  obtain rfl : n = 24 := by
    rw [hcb] at hn
    simp only [nextMessage] at hn
    split at hn
    · cases hn
    · cases hn
      rfl
  have htake : (all.take 24).length = 24 := by
    rw [List.length_take]
    omega
  have hcast : ((24 : ℕ) : ℤ) = ((all.take 24).length : ℤ) := by rw [htake]
  rw [digest_message hr' hn, hcast]
  simp only [hcb, callReadCb]
  rw [waitingForPreface_valid hlen.2 hp,
    waitingForPreface_valid htake.ge (by rw [List.take_take]; exact hp)]
  -- both send the settings of the server ...
  have hctx : Same ev buf (w.onCtx fun c => { c with state := .waitingSettings })
      (w'.onCtx fun c => { c with state := .waitingSettings }) := hs.onCtx fun _ hc => hc
  have hkeep : wp (sendSettingsFrame false localSettings .onSettingsSent)
      (fun _ u => u.sock.read = w.sock.read) (fun _ _ => True)
      (w.onCtx fun c => { c with state := .waitingSettings }) :=
    sendFrame_wp (fun _ _ => by simp) fun _ _ _ _ _ => trivial
  have hends : Program.Ends (Same ev buf) (sendSettingsFrame false localSettings .onSettingsSent
      (w.onCtx fun c => { c with state := .waitingSettings }))
      (sendSettingsFrame false localSettings .onSettingsSent
        (w'.onCtx fun c => { c with state := .waitingSettings })) :=
    related_sendFrame _ rfl rfl _ _ hctx
  -- ... and wait for those of the client
  rw [bind_modifyCtx, bind_modifyCtx, bind_run, bind_run]
  unfold wp at hkeep
  revert hkeep hends
  generalize sendSettingsFrame false localSettings .onSettingsSent
    (w.onCtx fun c => { c with state := .waitingSettings }) = r
  generalize sendSettingsFrame false localSettings .onSettingsSent
    (w'.onCtx fun c => { c with state := .waitingSettings }) = r'
  rintro hkeep (⟨sent, hs'⟩ | ⟨a, hs'⟩)
  · dsimp only at hkeep ⊢
    rw [hr] at hkeep
    rw [eventRead_bind hs'.connected hkeep, eventRead_bind hs'.connected' (hs'.read_other hkeep)]
    refine .inr ⟨.waitingForSettings, _, hs'.reading hkeep _, ?_, by simp, rfl⟩
    rw [World.reading_read, hkeep]
    rfl
  · exact .inr ⟨_, hs', rfl⟩

/-- **A read callback follows the stream.** -/
theorem callReadCb_absorbs {n : ℕ} (hs : Same ev buf w w') (hr : w.sock.read = some ev)
    (hn : nextMessage ev.cb all = some n)
    (hp : ev.cb = .waitingForPreface → all.take 24 = http2Preface) :
    Absorbs server ev buf all (digest server all w') (callReadCb server ev.cb all.length all w) := by
  have hlen := nextMessage_bounds hn
  cases hcb : ev.cb with
  | waitingForPreface => exact waitingForPreface_absorbs hs hr hcb hn (hp hcb)
  | waitingForSettings => exact waitingForSettings_absorbs hs hr hcb hn
  | receiving =>
    simp only [callReadCb, receiving]
    rw [if_neg (by omega)]
    have hloop := @receivingLoop_absorbs server ev buf w w' all all.length 0 hs hr hcb
    rw [List.drop_zero] at hloop
    exact hloop

/-- A read callback that finds no whole part of the stream does nothing. -/
theorem callReadCb_waiting {cb : ReadCb} (hpos : 0 < all.length) (hn : nextMessage cb all = none) :
    callReadCb server cb all.length all w = .ok 0 w := by
  have h9 : http2FrameHeaderSize = 9 := rfl
  -- each callback waits where no message is complete, and takes nothing
  cases cb with
  | waitingForPreface =>
    simp only [nextMessage] at hn
    split at hn
    · simp only [callReadCb, waitingForPreface]
      rw [if_neg (by omega), if_pos (by omega)]
      rfl
    · cases hn
  | waitingForSettings =>
    simp only [nextMessage, nextFrame] at hn
    simp only [callReadCb, waitingForSettings]
    rw [if_neg (by omega)]
    split at hn
    · rw [if_pos (by omega)]
      rfl
    split at hn
    · cases hn
    · rename_i hshort href
      split at hn
      · rw [if_neg (by omega), if_neg (by simpa using href), if_pos (by omega)]
        rfl
      · cases hn
  | receiving =>
    simp only [nextMessage, nextFrame] at hn
    simp only [callReadCb, receiving]
    rw [if_neg (by omega)]
    split at hn
    · exact receivingLoop_short ‹_›
    split at hn
    · cases hn
    · rename_i hshort href
      split at hn
      · exact receivingLoop_incomplete (by simpa using href) ‹_›
      · cases hn

/-- A read callback that finds a whole part of the stream consumes a byte or raises an error. -/
theorem callReadCb_consumes {cb : ReadCb} {n : ℕ} (hn : nextMessage cb all = some n) :
    wp (callReadCb server cb all.length all) (fun m u => 0 < m ∨ errored u.log = true)
      (fun _ _ => True) w := by
  have h9 : http2FrameHeaderSize = 9 := rfl
  have hlen := nextMessage_bounds hn
  cases cb with
  -- the preface is consumed or the connection is closed
  | waitingForPreface =>
    simp only [callReadCb, waitingForPreface, wp_ite, wp_bind, wp_pure, wp_modifyCtx,
      wp_http2CloseImmediate]
    refine ⟨fun h => by omega, fun _ => ⟨fun h => ?_, fun _ => ⟨fun _ => .inl (by omega), fun _ => ?_⟩⟩⟩
    · simp only [nextMessage] at hn
      rw [if_pos (by omega)] at hn
      cases hn
    · refine wp_of_forall (fun _ _ => ?_) fun _ _ => trivial
      exact wp_of_forall (fun _ _ => .inl (by omega)) fun _ _ => trivial
  -- a SETTINGS frame is consumed whole, also where the connection is closed for it
  | waitingForSettings =>
    simp only [callReadCb, waitingForSettings, wp_ite, wp_bind, wp_pure, wp_record, wp_modifyCtx,
      wp_http2CloseImmediate]
    refine ⟨fun h => by omega, fun _ => ⟨fun h => by omega, fun _ => ⟨fun _ => ?_, fun hset =>
      ⟨fun hpart => ?_, fun _ => ?_⟩⟩⟩⟩
    · exact wp_of_forall (fun _ _ => .inl (by omega)) fun _ _ => trivial
    · simp only [nextMessage] at hn
      obtain ⟨-, ⟨href, -⟩ | ⟨-, hnl, hle⟩⟩ := nextFrame_cases hn
      · exact absurd (of_decide_eq_true href) hset
      · omega
    · refine wp_of_forall (fun _ _ => ⟨fun _ => .inl (by omega), fun _ => ?_⟩) fun _ _ => trivial
      exact wp_of_forall (fun _ _ => .inl (by omega)) fun _ _ => trivial
  -- the loop takes at least the first frame
  | receiving =>
    simp only [callReadCb, receiving, wp_ite, wp_bind, wp_pure, wp_http2CloseImmediate]
    refine ⟨fun h => by omega, fun _ => ?_⟩
    obtain ⟨fuel, hfuel⟩ : ∃ k, all.length = k + 1 := Nat.exists_eq_succ_of_ne_zero (by omega)
    simp only [nextMessage] at hn
    rw [hfuel]
    obtain ⟨hshort, ⟨href, -⟩ | ⟨href, hnl, hle⟩⟩ := nextFrame_cases hn
    · exact (receivingLoop_refused hshort (of_decide_eq_true href)).mono (fun _ _ herr => .inr herr)
        fun _ _ _ => trivial
    · have hsmall : (frameParseHeader all).length ≤ 512 := by
        simpa using of_decide_eq_false href
      rw [wp_congr (receivingLoop_whole hsmall (hnl ▸ hle)), wp_bind]
      -- the frame is consumed, and later rounds only consume more
      refine wp_of_forall (fun rc u => ?_) fun _ _ => trivial
      rw [wp_ite]
      refine ⟨fun _ => .inl ?_, fun _ => ?_⟩
      · simp only [frameTaken]
        split <;> omega
      · exact (receivingLoop_mono _ _ _ u).mono (fun m _ hm => .inl (by omega)) fun _ _ => id

end Absorb

end Two
