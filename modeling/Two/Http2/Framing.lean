import Two.Http2.Writes

/-!
# Whole frames

The bytes that the http2 layer leaves in the write buffer of a socket should be whole frames. A
`send_*` function builds a frame in `frame_bytes`, which has the size of the write buffer, and
`event_write` queues as many of its bytes as there is room for: a DATA frame may be longer than
`frame_bytes` by its header, and the end of a frame is lost when earlier frames were not yet sent.

## Main definitions

* `Entry.queued`, `queued`: the bytes that `event_write` puts in the write buffer
* `Appends`: what a transition does to the write buffer
* `FitsBuffers`: the condition on the events of a trace
* `WholeFrame`: what is claimed of the frames that are sent

## Main results

* `Transition.appends`: only the bytes that `event_write` queues enter the write buffer
* `output_framing`: in every run that meets the condition, whole frames are queued
-/

namespace Two

open Program Relation Trace

/-- The bytes of a frame for which the write buffer has room. -/
def Entry.queued : Entry → Bytes
  | .send f s => f.bytes.take s.sock.room
  | _ => []

/-- The bytes that `event_write` has put in the write buffer. -/
def queued (log : List Entry) : Bytes := log.flatMap Entry.queued

/-- The frames that were passed to `event_write`. -/
def sentFrames (log : List Entry) : List Frame :=
  log.filterMap fun
    | .send f _ => some f
    | _ => none

section Observations

variable (log new : List Entry) (e : Entry)

@[simp] theorem queued_nil : queued [] = [] := rfl

@[simp] theorem queued_append : queued (log ++ new) = queued log ++ queued new := by simp [queued]

@[simp] theorem queued_cons : queued (e :: log) = e.queued ++ queued log := by simp [queued]

end Observations

/-- A frame fits in `frame_bytes`, and `event_write` queues all of it or nothing. -/
def WholeFrame (_before : List Entry) : Entry → Prop
  | .send f s => f.bytes.length ≤ frameMaxSize ∧
      ((Entry.send f s).queued = f.bytes ∨ (Entry.send f s).queued = [])
  | _ => True

instance (before : List Entry) : DecidablePred (WholeFrame before)
  | .send f s => inferInstanceAs (Decidable (f.bytes.length ≤ frameMaxSize ∧
      ((Entry.send f s).queued = f.bytes ∨ (Entry.send f s).queued = [])))
  | .frame .. | .increment .. | .completed .. | .error .. | .eventRead .. | .streamState ..
  | .reset .. | .setting .. | .decode .. | .request .. | .ready | .consumed .. =>
    inferInstanceAs (Decidable True)

/-- Where `http2_continue_send` sends a DATA frame, flow control and the stream buffer leave room for
the header of the frame in `frame_bytes`; and where a frame is sent, the write buffer is full or
takes all of it. -/
def FitsBuffers (_before : List Entry) : Entry → Prop
  | .send f s => (f.header.type = .data → sendLength s.ctx ≤ frameMaxSize - 9) ∧
      (s.sock.room = 0 ∨ 9 + f.header.length ≤ s.sock.room)
  | _ => True

instance (before : List Entry) : DecidablePred (FitsBuffers before)
  | .send f s => inferInstanceAs (Decidable ((f.header.type = .data →
      sendLength s.ctx ≤ frameMaxSize - 9) ∧ (s.sock.room = 0 ∨ 9 + f.header.length ≤ s.sock.room)))
  | .frame .. | .increment .. | .completed .. | .error .. | .eventRead .. | .streamState ..
  | .reset .. | .setting .. | .decode .. | .request .. | .ready | .consumed .. =>
    inferInstanceAs (Decidable True)

/-! ## The write buffer -/

/-- What a change of the world does to the write buffer: it takes the bytes that `event_write`
queues, and others may leave at its beginning. -/
def Appends (w w' : World) : Prop :=
  ∃ new, w'.log = w.log ++ new ∧ w'.sock.unsent <:+ w.sock.unsent ++ queued new

section Steps

variable {w w₁ w' : World}

theorem Appends.trans (h : Appends w w₁) (h' : Appends w₁ w') : Appends w w' := by
  obtain ⟨new, hlog, hs⟩ := h
  obtain ⟨new', hlog', hs'⟩ := h'
  refine ⟨new ++ new', by rw [hlog', hlog, List.append_assoc], hs'.trans ?_⟩
  rw [queued_append, ← List.append_assoc]
  obtain ⟨rest, hrest⟩ := hs
  exact ⟨rest, by rw [← List.append_assoc, hrest]⟩

/-- Events without a frame, which leave the write buffer as it is. -/
theorem Appends.silent (new : List Entry) (hlog : w'.log = w.log ++ new)
    (hw : w'.sock.unsent <:+ w.sock.unsent) (hnew : queued new = []) : Appends w w' :=
  ⟨new, hlog, by simpa [hnew] using hw⟩

theorem Sock.unsent_eq {s s' : Sock} (h : s'.write = s.write) : s'.unsent = s.unsent := by
  rw [Sock.unsent, Sock.unsent, h]

theorem Sock.unsent_map {s s' : Sock} {f : EventWrite → EventWrite} (h : s'.write = s.write.map f)
    (hf : ∀ e, (f e).buf.bytes <:+ e.buf.bytes) : s'.unsent <:+ s.unsent := by
  rw [Sock.unsent, Sock.unsent, h]
  cases s.write with
  | none => rfl
  | some e => exact hf e

/-- `event_write` appends the bytes for which there is room. -/
theorem written_unsent (w : World) (f : Frame) (cb : WriteCb) :
    (w.written f cb).sock.unsent = w.sock.unsent ++ f.bytes.take w.sock.room := by
  cases hw : w.sock.write with
  | none => simp [World.written, Sock.unsent, Sock.room, hw]
  | some e =>
    simp only [World.written, hw]
    split
    · rename_i hzero
      have hroom : f.bytes.take e.buf.room = [] := by
        rw [List.take_eq_nil_iff, ← List.length_eq_zero_iff]
        simp only [Fifo.pushed] at hzero
        omega
      simp [Sock.unsent, Sock.room, hw, hroom]
    · simp [Sock.unsent, Sock.room, hw, Fifo.push]

theorem Appends.written (w : World) (f : Frame) (cb : WriteCb) : Appends w (w.written f cb) :=
  ⟨[.send f w.toState], by simp, by simp [written_unsent, Entry.queued]⟩

theorem queued_markEntry (u : World) (h : FrameHeader) : queued (u.markEntry h) = [] := by
  simp only [queued, List.flatMap_eq_nil_iff]
  intro e he
  obtain ⟨_, rfl, -⟩ := World.mem_markEntry _ _ he
  rfl

/-- Only the bytes that `event_write` queues enter the write buffer while a frame is handled. -/
theorem FrameStep.appends {live : Bool} (h : FrameStep live w w') : Appends w w' := by
  -- the changes that leave the socket as it is
  have hsock : ∀ {u u' : World} (new : List Entry), u'.log = u.log ++ new → u'.sock = u.sock →
      queued new = [] → Appends u u' := fun new hlog hs =>
    Appends.silent new hlog (by rw [hs])
  cases h with
  | frame h region => exact hsock [.frame h region w.toState] rfl rfl rfl
  | error e hw =>
    refine (Appends.silent [.error e w.toState] ?_ ?_ rfl).trans (.written (w.failing e) _ _)
    · simp [World.failing]
    · rw [Sock.unsent_eq (s := w.sock)]
      simp [World.failing]
  | quiet _ hq => exact .silent [] (by simp [hq.log]) hq.unsent rfl
  | reply f hf hl hw hg => exact .written w _ _
  | reset e id hid hw =>
    have hreset : Appends w ((w.written (.rstStream e.code id) .closeOnWriteError).add fun _ =>
        .reset id) := (Appends.written w _ _).trans (hsock [.reset id] rfl rfl rfl)
    simp only [World.resetBy]
    split
    · exact hreset.trans (hsock _ (World.streamTo_log ..) rfl rfl)
    · exact hreset
  | openStream h region hh ht hc hid ho hs => exact hsock _ (World.opening_log ..) (by simp) rfl
  | trailers h region hh ht hc hid hs => exact hsock [] (by simp) rfl rfl
  | block h data n hb => exact hsock _ (World.block_log ..) (by simp) (queued_markEntry _ _)
  | data h hd => exact hsock _ (World.marked_log ..) (by simp) (queued_markEntry _ _)
  | request w₁ t headers res hr hl =>
    obtain ⟨u, h, hlog, -⟩ := hr.log
    have hmark : Appends w w₁ := hsock _ hlog hr.sock (queued_markEntry _ _)
    exact (hmark.trans (hsock _ (World.decoded_log ..) rfl rfl)).trans
      (hsock _ (World.requested_log ..) rfl rfl)
  | answer w₁ t headers res t' block hr hl hb hw =>
    obtain ⟨u, h, hlog, -⟩ := hr.log
    have hmark : Appends w w₁ := hsock _ hlog hr.sock (queued_markEntry _ _)
    have hreq : Appends w₁ ((w₁.decoded t).requested headers res) :=
      (hsock _ (World.decoded_log ..) rfl rfl).trans (hsock _ (World.requested_log ..) rfl rfl)
    have htable : Appends ((w₁.decoded t).requested headers res)
        (((w₁.decoded t).requested headers res).onCtx fun c =>
          { c with hpackDynamicTable := t' }) := hsock [] (by simp) (by simp) rfl
    exact ((hmark.trans hreq).trans htable).trans (.written _ _ _)
  | decode t => exact hsock _ (World.decoded_log ..) (by simp) rfl
  | setting id value c hc => exact hsock _ (World.stored_log ..) (by simp) rfl
  | connWindow h region hh ht hid ha => exact hsock _ (World.connIncrement_log ..) (by simp) rfl
  | window h region n hr hn hs => exact hsock _ (World.increment_log ..) (by simp) rfl
  | windowSend h region n hr hn hs hw =>
    have hinc : Appends w (w.increment h.streamId n) :=
      hsock _ (World.increment_log ..) (by simp) rfl
    exact (hinc.trans (.written _ _ _)).trans (hsock [] (by simp [World.continued]) rfl rfl)
  | rst h region hh ht hid => exact hsock _ (World.rstBy_log ..) (by simp) rfl
  | goawayClose => exact hsock _ (World.streamTo_log ..) (by simp) rfl
  | goaway hr hw h region s hh ht =>
    have hread : Appends w ((w.onCtx fun c => { c with state := .closing }).reading .receiving) :=
      Appends.silent _ (World.reading_log ..) (by rw [Sock.unsent_eq (s := w.sock) (by simp)]) rfl
    exact hread.trans (.written _ _ _)

/-- Only the bytes that `event_write` queues enter the write buffer. -/
theorem Transition.appends {live : Bool} (h : Transition live w w') : Appends w w' := by
  -- a step that queues nothing and leaves the write buffer, but for bytes that were sent
  have hwrite : ∀ {u u' : World} (new : List Entry), u'.log = u.log ++ new →
      u'.sock.write = u.sock.write → queued new = [] → Appends u u' := fun new hlog hs =>
    Appends.silent new hlog (by rw [Sock.unsent_eq hs])
  have hclose : ∀ u : World, Appends u u.closeImmediate := by
    intro u
    have hfinish : u.closeImmediate.sock.write =
        u.sock.write.map fun e => { e with buf := e.buf.finish } := by
      simp [World.closeImmediate, World.close]
    exact .silent _ (World.closeImmediate_log _)
      (Sock.unsent_map hfinish fun e => List.suffix_refl _) rfl
  have hcall : ∀ (op : WriteOp) (status : ℤ), Appends w (w.popped.calling op status) := by
    intro op status
    exact .silent _ (World.calling_log ..) (Sock.unsent_map rfl fun e => List.suffix_refl _) rfl
  have hreturn : ∀ (u : World) (op : WriteOp), Appends u (u.returned op) :=
    fun u op => hwrite [] (by simp) rfl rfl
  have hflush : ∀ u : World, Appends u u.flushed := fun u =>
    .silent [] (by simp) (Sock.unsent_map rfl fun e => List.nil_suffix) rfl
  cases h with
  | frame _ h => exact h.appends
  | closeImmediate => exact hclose w
  | preface e hr hc hp hw =>
    -- after the preface the settings are queued
    have hsettings : Appends w (w.onCtx fun c => { c with state := .waitingSettings }) :=
      hwrite [] (by simp) rfl rfl
    exact ((hsettings.trans (.written _ _ _)).trans (hwrite _ (World.reading_log ..) rfl rfl)).trans
      (hwrite _ (World.consumed_log ..) rfl rfl)
  | ready e h hs hr => exact hwrite _ (World.readied_log ..) (by simp) rfl
  | consume bytes n h => exact hwrite _ (World.consumed_log ..) (by simp) rfl
  | complete op rest w₁ hq hc =>
    -- a callback queues what is left of a response, or nothing
    refine ((hcall op 0).trans ?_).trans (hreturn w₁ op)
    generalize hcb : op.cb = cb at hc
    cases hc with
    | writeError => exact hwrite [] (by simp) rfl rfl
    | goaway => exact hclose _
    | settings _ _ hq => exact .silent [] (by simp [hq.log]) hq.unsent rfl
    | done hb => exact hwrite _ (World.streamTo_log ..) rfl rfl
    | idle hb hs => exact hwrite [] (by simp) rfl rfl
    | send hs hw =>
      exact (Appends.written _ _ _).trans (hwrite [] (by simp [World.continued]) rfl rfl)
  | failed op rest status hq hs =>
    exact (((hcall op status).trans (hclose _)).trans (hreturn _ op)).trans (hflush _)
  | flush h => exact hflush w

end Steps

/-! ## Frames -/

/-- The bytes that are queued where every frame is queued whole or not at all. -/
theorem exists_whole_frames {log : List Entry} (h : Along WholeFrame log) :
    ∃ frames : List Frame, frames.Sublist (sentFrames log) ∧ queued log = frames.flatMap Frame.bytes := by
  induction log using List.reverseRecOn with
  | nil => exact ⟨[], by simp [sentFrames], rfl⟩
  | append_singleton log e ih =>
    obtain ⟨hlog, he⟩ := along_append_singleton.mp h
    obtain ⟨frames, hsub, hqueued⟩ := ih hlog
    have hold : frames.Sublist (sentFrames (log ++ [e])) := by
      simp only [sentFrames, List.filterMap_append]
      exact hsub.trans (List.sublist_append_left _ _)
    rw [queued_append, queued_cons, queued_nil, List.append_nil, hqueued]
    cases e with
    | send f s =>
      rcases he.2 with hall | hnone
      · refine ⟨frames ++ [f], ?_, by rw [hall, List.flatMap_append, List.flatMap_singleton]⟩
        simp only [sentFrames, List.filterMap_append]
        exact hsub.append (List.Sublist.refl _)
      · exact ⟨frames, hold, by rw [hnone, List.append_nil]⟩
    | _ => exact ⟨frames, hold, List.append_nil _⟩

/-- The frames that a transition sends fit in `frame_bytes`. -/
theorem Sent.length_le {w : World} {a : List Entry} {f : Frame} {cb : WriteCb} {s : State}
    (h : Sent w a f cb s) (hd : f.header.type = .data → sendLength s.ctx ≤ frameMaxSize - 9) :
    f.bytes.length ≤ frameMaxSize := by
  have hmax : frameMaxSize = 512 := rfl
  rw [Frame.length_bytes]
  cases h with
  | reply f hf hl hs hg => omega
  | answer w₁ t headers res t' block a hr hlog hl hb hs =>
    have hlen : block.length < 256 := hb
    simp only [Frame.header]
    omega
  | data w₁ a hsend hpos hs =>
    have hlen : w₁.dataFrame.header.length = w₁.dataLength := by
      simp [World.dataFrame, Frame.header]
    have hle : sendLength w₁.ctx ≤ frameMaxSize - 9 := hd rfl
    rw [hlen, World.dataLength]
    omega
  | _ => simp [Frame.header, hmax]

/-- The run rule for the output of a connection. -/
theorem runRule_framing :
    RunRule FitsBuffers WholeFrame fun w => w.sock.unsent <:+ queued w.log := by
  refine ⟨fun _ _ _ => by simp [EventLoop.newSock, Sock.unsent, Fifo.init], fun _ _ h => h, ?_, ?_⟩
  · intro w w' ht _ hi _
    obtain ⟨new, hlog, hs⟩ := ht.appends
    rw [hlog, queued_append]
    obtain ⟨rest, hrest⟩ := hi
    exact hs.trans ⟨rest, by rw [← List.append_assoc, hrest]⟩
  · intro live w w' ht hsane _ new hlog a e b hnew hc
    obtain ⟨-, hfits⟩ := along_append_singleton.mp hc
    unfold WholeFrame
    split
    · rename_i f s
      obtain ⟨cb, hsent⟩ := ht.send_entry hlog hnew
      refine ⟨hsent.length_le hfits.1, ?_⟩
      rcases hfits.2 with hfull | hroom
      · exact .inr (by simp [Entry.queued, hfull])
      · refine .inl (List.take_of_length_le ?_)
        rw [Frame.length_bytes]
        exact hroom
    · trivial

section Runs

variable {server : Server} {actions : List EventLoop.Action} {w : World}

/-- **Whole frames are queued** in every run in which no DATA frame is longer than `frame_bytes` and
the write buffer is full or takes the whole frame whenever a frame is sent: the bytes that enter
the write buffer are a concatenation of frames, of which the first bytes may have left it. -/
theorem output_framing (hw : w ∈ (EventLoop.run server actions).worlds)
    (hc : Along FitsBuffers w.log) :
    Along WholeFrame w.log ∧
      ∃ frames : List Frame, frames.Sublist (sentFrames w.log) ∧ queued w.log = frames.flatMap Frame.bytes ∧
        ((EventLoop.run server actions).aborted = none →
          w.sock.unsent <:+ frames.flatMap Frame.bytes) := by
  have hwhole := runRule_framing.trace hw hc
  obtain ⟨frames, hsub, hqueued⟩ := exists_whole_frames hwhole
  refine ⟨hwhole, frames, hsub, hqueued, fun ha => ?_⟩
  rw [← hqueued]
  exact (runRule_framing.invariant ha hw hc).2

end Runs

/-- The frames of an ordinary exchange. -/
theorem output_framing_exchange :
    (EventLoop.run (Sample.server 2) Sample.exchange).worlds.length = 1 ∧
      ∀ w ∈ (EventLoop.run (Sample.server 2) Sample.exchange).worlds,
        (sentFrames w.log).length = 3 ∧ Along WholeFrame w.log := by
  have hc : ∀ w ∈ (EventLoop.run (Sample.server 2) Sample.exchange).worlds,
      (sentFrames w.log).length = 3 ∧ Along FitsBuffers w.log := by decide +kernel
  exact ⟨by decide +kernel, fun w hw => ⟨(hc w hw).1, (output_framing hw (hc w hw).2).1⟩⟩

/-- The content of a response fills the stream buffer: its DATA frame has 521 bytes. -/
theorem not_output_framing :
    ¬ ∀ (server : Server) (actions : List EventLoop.Action) (w : World),
      w ∈ (EventLoop.run server actions).worlds → Along WholeFrame w.log := by
  intro h
  have hall := h (Sample.server 512) Sample.exchange
  revert hall
  decide +kernel

end Two
