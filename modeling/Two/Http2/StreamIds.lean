import Two.Event.Connection
import Two.Http2.Receiving

/-!
# Stream identifiers

A connection has one stream at a time. Its identifier is the last one that was opened, and only a
HEADERS frame of a connection that is not closing can open the next one, once the stream before it is
closed.

## Main definitions

* `lastOpened`: the last stream that the trace of a connection opens
* `Numbered`: the identifiers in a context agree with the trace
* `StreamIds`: what is claimed of the events of a trace
* `Foreign`: a DATA, RST_STREAM or refused HEADERS frame that does not name the current stream

## Main results

* `takeFrame_foreign`: a foreign frame leaves the current stream alone
* `stream_ids`: the identifiers and states of streams in every run of a connection
-/

namespace Two

open Program Relation Trace

/-! ## What the trace says -/

namespace Entry

/-- The state in which an event was recorded. -/
@[simp] def state? : Entry → Option State
  | frame _ _ s | send _ s | error _ s | eventRead _ s | streamState _ s | setting _ _ s
  | increment _ _ s | decode _ s | completed _ _ s => some s
  | reset _ | request _ _ _ | ready | consumed _ => none

/-- The stream that an event opens. -/
@[simp] def opens : Entry → Option ℕ
  | streamState .opened s => some s.ctx.stream.id
  | _ => none

end Entry

/-- The streams that were opened, the oldest first. -/
def openedStreams (log : List Entry) : List ℕ := log.filterMap Entry.opens

/-- The last stream that was opened, or zero. -/
def lastOpened (log : List Entry) : ℕ := (openedStreams log).getLast?.getD 0

/-- The current stream is the last one that was opened, and odd. -/
structure Numbered (c : Context) (log : List Entry) : Prop where
  id : c.stream.id = c.lastOpenedStreamId
  last : c.lastOpenedStreamId = lastOpened log
  parity : c.lastOpenedStreamId = 0 ∨ c.lastOpenedStreamId % 2 = 1

/-- A HEADERS frame opens a stream: the stream before it is idle or closed, and the connection is
not closing. -/
structure Opening (before : List Entry) (s : State) (h : FrameHeader) (s₀ : State) : Prop where
  frame : ∃ earlier region, before = earlier ++ [.frame h region s₀]
  type : h.type = .headers
  ready : s₀.ctx.state = .ready
  closed : s₀.ctx.stream.state = .closed
  greater : lastOpened before < h.streamId
  odd : h.streamId % 2 = 1
  id : s.ctx.stream.id = h.streamId
  last : s.ctx.lastOpenedStreamId = h.streamId

/-- Every event finds the identifiers that the trace before it leads to, and a stream is opened only
by a HEADERS frame. -/
def StreamIds (before : List Entry) (e : Entry) : Prop :=
  match e.opens with
  | some _ => ∃ s h s₀, e = .streamState .opened s ∧ Opening before s h s₀
  | none => ∀ s, e.state? = some s → Numbered s.ctx before

theorem openedStreams_snoc (log : List Entry) (e : Entry) :
    openedStreams (log ++ [e]) = openedStreams log ++ e.opens.toList := by
  rw [openedStreams, List.filterMap_append, List.filterMap_cons]
  cases e.opens <;> rfl

theorem lastOpened_append_of_none {log new : List Entry} (h : ∀ e ∈ new, e.opens = none) :
    lastOpened (log ++ new) = lastOpened log := by
  have hnew : new.filterMap Entry.opens = [] := by simpa using h
  simp [lastOpened, openedStreams, hnew]

/-! ## Transitions -/

/-- The identifiers are kept, and no event of the trace opens a stream or finds other ones. -/
structure SameIds (w w' : World) : Prop where
  id : w'.ctx.stream.id = w.ctx.stream.id
  last : w'.ctx.lastOpenedStreamId = w.ctx.lastOpenedStreamId
  log : ∃ new, w'.log = w.log ++ new ∧ ∀ e ∈ new, e.opens = none ∧ ∀ s, e.state? = some s →
    s.ctx.stream.id = w.ctx.stream.id ∧ s.ctx.lastOpenedStreamId = w.ctx.lastOpenedStreamId

/-- A HEADERS frame opens a stream. -/
structure OpensStream (w w' : World) (h : FrameHeader) : Prop where
  frame : ∃ region, JustReceived w h region
  type : h.type = .headers
  ready : w.ctx.state = .ready
  greater : w.ctx.lastOpenedStreamId < h.streamId
  odd : h.streamId % 2 = 1
  closed : w.ctx.stream.state = .closed
  eq : w' = w.opening h.streamId

section Step

variable {w w' : World} {live : Bool}

theorem SameIds.trans {w'' : World} (h : SameIds w w') (h' : SameIds w' w'') : SameIds w w'' := by
  obtain ⟨new, hnew, hall⟩ := h.log
  obtain ⟨new', hnew', hall'⟩ := h'.log
  refine ⟨h'.id.trans h.id, h'.last.trans h.last, new ++ new', by simp [hnew, hnew'], ?_⟩
  intro e he
  rcases List.mem_append.mp he with he | he
  · exact hall e he
  · obtain ⟨ho, hs⟩ := hall' e he
    exact ⟨ho, fun s hst => ⟨(hs s hst).1.trans h.id, (hs s hst).2.trans h.last⟩⟩

theorem Quiet.sameIds (h : Quiet w w') : SameIds w w' := ⟨h.id, h.last, [], by simp [h.log], by simp⟩

theorem sameIds_marked (w : World) (h : FrameHeader) : SameIds w (w.marked h) := by
  refine ⟨by simp, by simp, _, World.marked_log w h, ?_⟩
  unfold World.markEntry
  split <;> simp

theorem sameIds_block (w : World) (h : FrameHeader) (data : Bytes) (n : ℕ) :
    SameIds w (w.block h data n) := by
  refine ⟨by simp, by simp, _, World.block_log w h data n, ?_⟩
  have hcopied : (w.copied data n).ctx.stream.id = w.ctx.stream.id ∧
      (w.copied data n).ctx.lastOpenedStreamId = w.ctx.lastOpenedStreamId := by
    unfold World.copied
    split <;> exact ⟨rfl, rfl⟩
  unfold World.markEntry
  split <;> simp [hcopied]

theorem sameIds_continued (w : World) : SameIds w w.continued :=
  ⟨by simp [Context.advance], by simp [Context.advance], _, World.continued_log w, by simp⟩

/-- The decoded header block and the request it makes. -/
theorem sameIds_requested (w : World) (t : Hpack.DynamicTable) (headers : HeaderList)
    (res : HttpResponse) : SameIds w ((w.decoded t).requested headers res) := by
  have hdecoded : SameIds w (w.decoded t) := ⟨rfl, rfl, _, World.decoded_log w t, by simp⟩
  exact hdecoded.trans ⟨rfl, rfl, _, World.requested_log _ _ _, by simp⟩

theorem RequestReady.sameIds {w₁ : World} (h : RequestReady w w₁) : SameIds w w₁ := by
  cases h with
  | block h data n hb hc => exact sameIds_block w h data n
  | data h hd hc => exact sameIds_marked w h

/-- A frame step opens a stream or keeps the identifiers. -/
theorem FrameStep.ids (h : FrameStep live w w') : (∃ h, OpensStream w w' h) ∨ SameIds w w' := by
  cases h with
  | openStream h region hh ht hc hid ho hs =>
    exact .inl ⟨h, ⟨region, hh⟩, ht, hc, hid, ho, hs, rfl⟩
  | frame h region => exact .inr ⟨rfl, rfl, _, World.add_log _ _, by simp⟩
  | error e hw => exact .inr ⟨by simp, by simp, _, World.fail_log _ _, by simp [World.failing]⟩
  | quiet _ hq => exact .inr hq.sameIds
  | reply f hf hs hw => exact .inr ⟨by simp, by simp, _, World.written_log _ _ _, by simp⟩
  | reset e id hid hw =>
    refine .inr ⟨?_, ?_, _, (World.resetBy_log w e id).trans (List.append_assoc ..), ?_⟩
    · by_cases hcur : id = w.ctx.stream.id <;> simp [hcur]
    · by_cases hcur : id = w.ctx.stream.id <;> simp [hcur]
    · split <;> simp
  | trailers h region hh ht hc hid hs => exact .inr ⟨rfl, rfl, [], by simp, by simp⟩
  | block h data n hb => exact .inr (sameIds_block w h data n)
  | data h hd => exact .inr (sameIds_marked w h)
  | request w₁ t headers res hr hl =>
    exact .inr (hr.sameIds.trans (sameIds_requested w₁ t headers res))
  | answer w₁ t headers res t' block hr hl hb hw =>
    refine .inr ((hr.sameIds.trans (sameIds_requested w₁ t headers res)).trans ?_)
    exact ⟨by simp, by simp, _, World.answering_log _ _ _, by simp⟩
  | decode t => exact .inr ⟨rfl, rfl, _, World.decoded_log _ _, by simp⟩
  | setting id value c hc =>
    obtain ⟨_, _, _, rfl⟩ := applySetting_eq hc
    exact .inr ⟨rfl, rfl, _, World.stored_log _ _ _ _, by simp⟩
  | connWindow h region hh ht hid ha =>
    exact .inr ⟨rfl, rfl, _, World.connIncrement_log _ _, by simp⟩
  | window h region n hr hn hs => exact .inr ⟨rfl, rfl, _, World.increment_log _ _ _, by simp⟩
  | windowSend h region n hr hn hs hw =>
    have hincrement : SameIds w (w.increment h.streamId n) :=
      ⟨rfl, rfl, _, World.increment_log _ _ _, by simp⟩
    exact .inr (hincrement.trans (sameIds_continued _))
  | rst h region hh ht hid => exact .inr ⟨by simp, by simp, _, World.rstBy_log _ _, by simp⟩
  | goawayClose => exact .inr ⟨by simp, by simp, _, World.streamTo_log _ _, by simp⟩
  | goaway hr hw => exact .inr ⟨by simp, by simp, _, World.goneAway_log _, by simp⟩

/-- **A transition opens a stream or keeps the identifiers.** -/
theorem Transition.ids (h : Transition live w w') : (∃ h, OpensStream w w' h) ∨ SameIds w w' := by
  cases h with
  | frame _ h => exact h.ids
  | closeImmediate => exact .inr ⟨by simp, by simp, _, World.closeImmediate_log _, by simp⟩
  | preface e hr hc hp hw => exact .inr ⟨by simp, by simp, _, World.greeted_log _ _, by simp⟩
  | ready e h hs hr => exact .inr ⟨by simp, by simp, _, World.readied_log _ _ _, by simp⟩
  | consume bytes n h => exact .inr ⟨rfl, rfl, _, World.consumed_log _ _ _, by simp⟩
  | complete op rest w₁ hq hc =>
    have hcall : SameIds w (w.popped.calling op 0) := ⟨rfl, rfl, _, World.calling_log _ _ _, by simp⟩
    refine .inr (hcall.trans ?_)
    generalize hcb : op.cb = cb at hc
    cases hc with
    | writeError => exact ⟨rfl, rfl, [], by simp, by simp⟩
    | goaway => exact ⟨by simp, by simp, _, World.closeImmediate_log _, by simp⟩
    | settings _ _ hq => exact ⟨hq.id, hq.last, [], by simp [hq.log], by simp⟩
    | done _ hb => exact ⟨rfl, rfl, _, World.streamTo_log _ _, by simp⟩
    | idle _ hb hs => exact ⟨rfl, rfl, [], by simp, by simp⟩
    | send _ hs hw =>
      have hsent := sameIds_continued (w.popped.calling op 0)
      exact ⟨hsent.id, hsent.last, hsent.log⟩
  | failed op rest status hq hneg =>
    exact .inr ⟨by simp, by simp, _, World.dropped_log _ _ _, by simp⟩
  | flush h => exact .inr ⟨rfl, rfl, [], by simp, by simp⟩

theorem Numbered.sameIds (hn : Numbered w.ctx w.log) (h : SameIds w w') :
    Numbered w'.ctx w'.log := by
  obtain ⟨new, hlog, hall⟩ := h.log
  refine ⟨?_, ?_, ?_⟩
  · rw [h.id, h.last, hn.id]
  · rw [h.last, hlog, lastOpened_append_of_none fun e he => (hall e he).1, hn.last]
  · rw [h.last]
    exact hn.parity

theorem Numbered.opening {h : FrameHeader} (ho : h.streamId % 2 = 1) :
    Numbered (w.opening h.streamId).ctx (w.opening h.streamId).log := by
  refine ⟨rfl, ?_, .inr ho⟩
  rw [World.opening_log]
  simp [lastOpened, openedStreams, Context.openStream]

/-- **Every transition keeps the identifiers in step with the trace.** -/
theorem Transition.numbered (h : Transition live w w') (hn : Numbered w.ctx w.log) :
    Numbered w'.ctx w'.log := by
  rcases h.ids with ⟨h, ho⟩ | hs
  · rw [ho.eq]
    exact .opening ho.odd
  · exact hn.sameIds hs

/-- The identifiers do not decrease. -/
theorem Transition.last_le (h : Transition live w w') :
    w.ctx.lastOpenedStreamId ≤ w'.ctx.lastOpenedStreamId := by
  rcases h.ids with ⟨h, ho⟩ | hs
  · rw [ho.eq]
    exact ho.greater.le
  · exact hs.last.ge

/-- The events that a transition records. -/
theorem Transition.streamIds (h : Transition live w w') (hn : Numbered w.ctx w.log)
    {new a b : List Entry} {e : Entry} (hlog : w'.log = w.log ++ new) (hnew : new = a ++ e :: b) :
    StreamIds (w.log ++ a) e := by
  rcases h.ids with ⟨h, ho⟩ | hs
  · -- only the assignment of the state is recorded, right after the frame
    rw [ho.eq, World.opening_log, List.append_cancel_left_eq] at hlog
    obtain ⟨rfl, rfl, -⟩ : a = [] ∧ e = _ ∧ b = [] := by
      have := hnew ▸ hlog
      cases a with
      | nil => simpa [eq_comm] using this
      | cons x a => simp at this
    obtain ⟨region, earlier, hw⟩ := ho.frame
    refine ⟨_, h, w.toState, rfl, ⟨earlier, region, by simpa using hw⟩, ho.type, ho.ready,
      ho.closed, ?_, ho.odd, rfl, rfl⟩
    rw [List.append_nil, ← hn.last]
    exact ho.greater
  · obtain ⟨new', hlog', hall⟩ := hs.log
    obtain rfl : new = new' := List.append_cancel_left (hlog.symm.trans hlog')
    obtain ⟨hnone, hstate⟩ := hall e (by simp [hnew])
    unfold StreamIds
    rw [hnone]
    intro s hst
    obtain ⟨hid, hlast⟩ := hstate s hst
    -- none of the new entries opens a stream
    have hopened : lastOpened (w.log ++ a) = lastOpened w.log :=
      lastOpened_append_of_none fun x hx => (hall x (by simp [hnew, hx])).1
    refine ⟨?_, ?_, ?_⟩
    · rw [hid, hlast, hn.id]
    · rw [hlast, hopened, hn.last]
    · rw [hlast]
      exact hn.parity

end Step

/-- The streams of a trace are opened in increasing order. -/
theorem openedStreams_sorted {log : List Entry} (h : Along StreamIds log) :
    (openedStreams log).Pairwise (· < ·) ∧ ∀ id ∈ openedStreams log, id ≤ lastOpened log := by
  induction log using List.reverseRecOn with
  | nil => simp [openedStreams]
  | append_singleton log e ih =>
    obtain ⟨hlog, he⟩ := along_append_singleton.mp h
    obtain ⟨hsorted, hbound⟩ := ih hlog
    cases hopens : e.opens with
    | none =>
      have hsame : openedStreams (log ++ [e]) = openedStreams log := by
        rw [openedStreams_snoc, hopens, Option.toList_none, List.append_nil]
      rw [lastOpened, hsame]
      exact ⟨hsorted, hbound⟩
    | some id =>
      unfold StreamIds at he
      rw [hopens] at he
      obtain ⟨s, header, s₀, heq, ho⟩ := he
      have hid : header.streamId = id := by
        rw [heq] at hopens
        simpa [ho.id] using hopens
      have hsnoc : openedStreams (log ++ [e]) = openedStreams log ++ [id] := by
        rw [openedStreams_snoc, hopens, Option.toList_some]
      -- the rule puts the new identifier above the last one opened
      have hless : ∀ x ∈ openedStreams log, x < id := by
        intro x hx
        have := ho.greater
        rw [hid] at this
        exact (hbound x hx).trans_lt this
      rw [lastOpened, hsnoc]
      refine ⟨List.pairwise_append.mpr ⟨hsorted, by simp, by simpa using hless⟩, fun x hx => ?_⟩
      rcases List.mem_append.mp hx with hx | hx
      · simpa using (hless x hx).le
      · simpa using (List.mem_singleton.mp hx).le

/-! ## Frames that name another stream -/

/-- A HEADERS frame that opens no stream. -/
def Refused (c : Context) (h : FrameHeader) : Prop :=
  ¬ (h.Fits ∧ c.flags.waitingEndHeaders = false ∧ c.state ≠ .closing ∧
    c.lastOpenedStreamId < h.streamId ∧ h.streamId % 2 = 1 ∧ c.stream.state = .closed)

/-- A DATA, RST_STREAM or refused HEADERS frame that does not name the current stream. -/
def Foreign (c : Context) (h : FrameHeader) : Prop :=
  h.streamId ≠ c.stream.id ∧
    (h.type = .data ∨ h.type = .rstStream ∨ h.type = .headers ∧ Refused c h)

/-- The program, run in `w`, leaves the stream `s`, also where an assertion fails. -/
def LeavesStream {α : Type} (m : M α) (s : Stream) (w : World) : Prop :=
  wp m (fun _ w' => w'.ctx.stream = s) (fun _ w' => w'.ctx.stream = s) w

section Foreign

variable {w : World} {server : Server} {h : FrameHeader}

theorem sendFrame_leaves (f : Frame) (cb : WriteCb) : LeavesStream (sendFrame f cb) w.ctx.stream w := by
  simp only [LeavesStream, sendFrame, eventWrite, wp_bind, wp_record, wp_get, wp_ite, wp_throw]
  refine ⟨fun _ => rfl, fun _ => ?_⟩
  cases he : (w.add (.send f)).sock.write with
  | none => rfl
  | some e =>
    simp only [wp_ite, wp_pure]
    refine ⟨fun _ => ?_, fun _ => rfl⟩
    cases hp : (w.add (.send f)).loop.writes <;> rfl

theorem http2Error_leaves (e : Http2Error) : LeavesStream (http2Error e) w.ctx.stream w := by
  simp only [LeavesStream, http2Error, eventReadStop, sendGoawayFrame, wp_bind, wp_record,
    wp_modifyCtx, wp_modify, wp_getCtx]
  have hstream : (w.failing e).ctx.stream = w.ctx.stream := by simp [World.failing]
  rw [← hstream]
  exact sendFrame_leaves _ _

theorem failWith_leaves (e : Http2Error) : LeavesStream (failWith e) w.ctx.stream w := by
  simp only [LeavesStream, failWith, wp_bind, wp_pure]
  exact http2Error_leaves e

/-- The reset of another stream. -/
theorem http2StreamError_leaves {id : ℕ} (e : Http2Error) (hid : id ≠ w.ctx.stream.id) :
    LeavesStream (do http2StreamError id e; return (-1 : ℤ)) w.ctx.stream w := by
  simp only [LeavesStream, http2StreamError, sendRstStreamFrame, wp_bind, wp_record, wp_getCtx,
    wp_pure]
  refine (sendFrame_leaves (.rstStream e.code id) .closeOnWriteError).mono (fun _ w' hw => ?_)
    fun _ _ hw => hw
  have hid' : id ≠ (w'.add fun _ => .reset id).ctx.stream.id := by
    rw [World.add_toState, hw]
    exact hid
  rw [if_neg hid']
  exact hw

/-- The handlers on a frame that names another stream, where no CONTINUATION frame is expected. -/
theorem handleFrame_foreign {region : Bytes} (hn : w.ctx.stream.id = w.ctx.lastOpenedStreamId)
    (hfits : h.Fits) (hwait : ¬ (w.ctx.flags.waitingEndHeaders ∧ h.type ≠ .continuation))
    (hf : Foreign w.ctx h) : LeavesStream (handleFrame server h region) w.ctx.stream w := by
  obtain ⟨hid, htype⟩ := hf
  unfold handleFrame
  rcases htype with ht | ht | ⟨ht, hr⟩
  · simp only [LeavesStream, ht, handleDataFrame, wp_bind, wp_getCtx]
    simp only [wp_ite]
    refine ⟨fun _ => failWith_leaves _, fun hlast => ⟨fun _ => http2StreamError_leaves _ hid,
      fun hless => ?_⟩⟩
    -- a stream that is neither older nor newer is the current one
    omega
  · simp only [LeavesStream, ht, handleRstStreamFrame, wp_bind, wp_getCtx]
    simp only [wp_ite]
    refine ⟨fun _ => failWith_leaves _, fun _ => ⟨fun _ => failWith_leaves _, fun _ =>
      ⟨fun _ => failWith_leaves _, fun hlast => ?_⟩⟩⟩
    omega
  · simp only [LeavesStream, ht, handleHeadersFrame, wp_bind, wp_getCtx]
    simp only [wp_ite]
    refine ⟨fun _ => rfl, fun hclosing => ⟨fun _ => failWith_leaves _, fun hzero =>
      ⟨fun _ => failWith_leaves _, fun hold => ⟨fun _ => failWith_leaves _, fun hbusy =>
        ⟨fun _ => failWith_leaves _, fun _ => ⟨fun hlast => ?_, fun _ => ?_⟩⟩⟩⟩⟩⟩
    · omega
    · refine absurd ⟨hfits, ?_, hclosing, ?_, ?_, ?_⟩ hr
      · simpa [ht] using hwait
      · omega
      · omega
      · by_contra hstate
        exact hbusy ⟨by omega, hstate⟩

/-- **A frame that names another stream** leaves the state, the buffer and the window of the current
stream alone. -/
theorem takeFrame_foreign {region : Bytes} (hn : w.ctx.stream.id = w.ctx.lastOpenedStreamId)
    (hf : Foreign w.ctx h) : LeavesStream (takeFrame server h region) w.ctx.stream w := by
  by_cases hfits : h.Fits
  · rw [takeFrame_of_fits hfits]
    simp only [LeavesStream, receiveFrame, wp_bind, wp_getCtx, wp_record, wp_ite]
    exact ⟨fun _ => failWith_leaves _, fun hwait =>
      handleFrame_foreign (w := w.add (.frame h region)) hn hfits hwait hf⟩
  -- refused for its length, or waited for
  · rw [LeavesStream, wp, takeFrame_unfit hfits]
    by_cases hlarge : h.length > http2SockReadSize
    · rw [if_pos hlarge]
      exact failWith_leaves (w := w.add (.frame h region)) _
    · rw [if_neg hlarge]

end Foreign

/-! ## Runs -/

/-- An open stream waits for the end of its request, as long as `http2_error` was not called. -/
def OpenWaits (c : Context) (log : List Entry) : Prop :=
  errored log = false → c.stream.state = .opened → c.flags.waitingEndStream = true

/-- The frames of a trace find an open stream waiting. -/
def FramesWait (before : List Entry) : Entry → Prop
  | .frame _ _ s => OpenWaits s.ctx before
  | _ => True

/-- The run rule for the identifiers. -/
theorem connRule_numbered :
    ConnRule (fun _ _ => True) StreamIds (fun _ => True) fun w => Numbered w.ctx w.log := by
  have hleaving : ∀ w : World, Numbered w.ctx w.log → Numbered w.leaving.ctx w.log :=
    fun w hn => ⟨hn.id, hn.last, hn.parity⟩
  refine ⟨fun w _ hn => hn, fun w w' ht _ hn _ => ht.numbered hn, ?_, ?_, ?_⟩
  · intro live w w' ht _ hn new hlog a e b hnew _
    exact ht.streamIds hn hlog hnew
  · intro w _ hn _ _ _
    have hsent := hleaving w hn
    rw [World.gracefully_ctx, World.gracefully_log]
    refine ⟨hsent.id, ?_, hsent.parity⟩
    rw [lastOpened_append_of_none (by simp)]
    exact hsent.last
  · intro w _ hn _ _ _ s hs
    obtain rfl : w.leaving.toState = s := by simpa using hs
    exact hleaving w hn

/-- The run rule for a lower bound of the last opened stream. -/
theorem connRule_last (n : ℕ) : ConnRule (fun _ _ => True) (fun _ _ => True) (fun _ => True)
    fun w => n ≤ w.ctx.lastOpenedStreamId := by
  refine ⟨fun _ _ h => h, fun w w' ht _ h _ => h.trans ht.last_le, ?_, ?_, ?_⟩
  · intros
    trivial
  · intro w _ h _ _ _
    simpa [World.leaving] using h
  · intros
    trivial

theorem last_le_run {server : Server} {c : Connection} {more : List ConnEvent}
    (hs : Steady c.world) (ha : (c.run server more).aborted = none) :
    c.world.ctx.lastOpenedStreamId ≤ (c.run server more).world.ctx.lastOpenedStreamId := by
  have hstart : ConnRule.Holds (fun _ _ => True) (fun _ _ => True)
      (fun w => c.world.ctx.lastOpenedStreamId ≤ w.ctx.lastOpenedStreamId) c :=
    ⟨fun _ => hs, fun _ _ _ _ _ => trivial, fun _ _ => le_rfl⟩
  exact ((connRule_last _).holds_run hstart (Connection.gracefulIn_true ..)).invariant ha
    fun _ _ _ _ => trivial

/-- The run rule for the order of the streams, without graceful closes. -/
theorem connRule_orderly : ConnRule (fun _ _ => True) FramesWait (fun _ => False) Orderly := by
  refine ⟨fun w p h => ⟨h.last, h.fresh, h.states, h.idle, h.failed, h.opened, h.once, h.answers⟩,
    fun w w' ht _ h _ => ht.orderly h, ?_, fun _ _ _ hg => hg.elim, fun _ _ _ hg => hg.elim⟩
  intro live w w' ht _ ho new hlog a e b hnew _
  unfold FramesWait
  split
  · obtain ⟨rfl, rfl⟩ := ht.frame_entry hlog hnew
    rw [List.append_nil]
    exact ho.opened
  · trivial

/-- What is claimed of the identifiers of a connection. -/
structure WellNumbered (server : Server) (c : Connection) : Prop where
  events : Along StreamIds c.world.log
  state : c.aborted = none → Numbered c.world.ctx c.world.log
  increasing : (openedStreams c.world.log).Pairwise (· < ·)
  grows : ∀ more, (c.run server more).aborted = none →
    c.world.ctx.lastOpenedStreamId ≤ (c.run server more).world.ctx.lastOpenedStreamId
  foreign : ∀ before h region s after, c.world.log = before ++ .frame h region s :: after →
    Foreign s.ctx h → LeavesStream (takeFrame server h region) s.ctx.stream ⟨s, before⟩

/-- What is claimed of an open stream. -/
structure WaitsForEnd (c : Connection) : Prop where
  frames : Along FramesWait c.world.log
  state : c.aborted = none → OpenWaits c.world.ctx c.world.log

/-- **Stream identifiers and states.** In every run of a connection, graceful closes included, the
current stream is the last one that was opened, streams are opened in increasing order and only by a
HEADERS frame of a connection that is not closing, and frames for other streams leave it alone. As
long as neither `http2_error` nor `http2_close_gracefully` was called, an open stream waits for the
end of its request. -/
theorem stream_ids (server : Server) (pools : Pools) (r s : ℕ) (events : List ConnEvent) :
    WellNumbered server (Connection.run server (.init pools r s) events) ∧
      (.closeGracefully ∉ events → WaitsForEnd (Connection.run server (.init pools r s) events)) := by
  have hinit : Numbered (Connection.init pools r s).world.ctx (Connection.init pools r s).world.log :=
    ⟨rfl, rfl, .inl rfl⟩
  have hg := Connection.gracefulIn_true server (.init pools r s) events
  have hc : Along (fun _ _ => True) (Connection.run server (.init pools r s) events).world.log :=
    fun _ _ _ _ => trivial
  have hids := connRule_numbered.trace hinit hg hc
  refine ⟨⟨hids, fun ha => connRule_numbered.state hinit hg ha hc, (openedStreams_sorted hids).1,
    fun more ha => ?_, fun before h region st after hlog hf => ?_⟩, fun hnot => ?_⟩
  · have hsteady := (connRule_numbered.holds_run (ConnRule.holds_init hinit) hg).steady
    exact last_le_run (hsteady (Connection.aborted_of_run ha)) ha
  · have hst : StreamIds before (.frame h region st) := hids before _ after hlog
    exact takeFrame_foreign (w := ⟨st, before⟩) (hst st rfl).id hf
  · have hg' := Connection.gracefulIn_of_not_mem server (fun _ => False) (.init pools r s) hnot
    exact ⟨connRule_orderly.trace (orderly_init ..) hg' hc, fun ha =>
      (connRule_orderly.state (orderly_init ..) hg' ha hc).opened⟩

end Two
