import Two.Http2.Effects
import Mathlib.Logic.Relation

/-!
# What a connection can do

Every handler of `http2.c` and every step of `event.c` on a client socket is a sequence of the
transitions below, each with the conditions under which the code makes it. The parameter `live`
tells a transition that fails no assertion from one that only shows what would have been recorded
had the assertion held.

## Main definitions

* `FrameStep`: what happens while a frame is handled
* `Callback`: what the callback of a completed write does
* `Transition`: what happens on a socket
-/

namespace Two

attribute [refl] List.suffix_refl

/-- A change that no property of the trace depends on: the pool of events, the timers, the bytes in
the buffers of the socket and the HPACK table. -/
structure Quiet (w w' : World) : Prop where
  log : w'.log = w.log
  callback : w'.callback = w.callback
  state : w'.ctx.state = w.ctx.state
  settings : w'.ctx.settings = w.ctx.settings
  window : w'.ctx.windowSize = w.ctx.windowSize
  streamWindow : w'.ctx.stream.windowSize = w.ctx.stream.windowSize
  id : w'.ctx.stream.id = w.ctx.stream.id
  streamState : w'.ctx.stream.state = w.ctx.stream.state
  buf : w'.ctx.stream.buf = w.ctx.stream.buf
  buflen : w'.ctx.stream.buflen = w.ctx.stream.buflen
  bufptr : w'.ctx.stream.bufptr = w.ctx.stream.bufptr
  last : w'.ctx.lastOpenedStreamId = w.ctx.lastOpenedStreamId
  flags : { w'.ctx.flags with waitingSettingsAck := false, goawayRecv := false } =
    { w.ctx.flags with waitingSettingsAck := false, goawayRecv := false }
  sock : w'.sock.state = w.sock.state
  read : w'.sock.read.map EventRead.cb = w.sock.read.map EventRead.cb
  write : w'.sock.write.isSome = w.sock.write.isSome
  queue : w'.sock.queue.map (fun op => (op.cb, op.stream)) =
    w.sock.queue.map fun op => (op.cb, op.stream)
  unsent : w'.sock.unsent <:+ w.sock.unsent
  pool : w'.loop.writes.length = w.loop.writes.length

/-- The frame that is being handled: since then only the state of the stream has changed. -/
def Handling (w : World) (h : FrameHeader) (region : Bytes) (s : State) : Prop :=
  ∃ before after, w.log = before ++ .frame h region s :: after ∧
    ∀ e ∈ after, ∃ new s, e = .streamState new s

/-- The frame entry that was recorded last, in the present state. -/
def JustReceived (w : World) (h : FrameHeader) (region : Bytes) : Prop :=
  ∃ before, w.log = before ++ [.frame h region w.toState]

/-- What `handle_header_block` has checked before it copies `n` bytes. -/
structure BlockReady (w : World) (h : FrameHeader) (n : ℕ) : Prop where
  pos : 0 < n
  fits : w.ctx.stream.buflen + n ≤ http2StreamBufSize
  waiting : w.ctx.flags.waitingEndHeaders = true
  state : w.ctx.stream.state ≠ .closed
  frame : (h.type = .headers ∧ h.streamId = w.ctx.lastOpenedStreamId ∧
      ∃ region s, Handling w h region s) ∨
    (h.type = .continuation ∧ ∃ region, JustReceived w h region)

/-- What `handle_data_frame` has checked before it looks at the flags. -/
structure DataReady (w : World) (h : FrameHeader) : Prop where
  type : h.type = .data
  stream : h.streamId = w.ctx.lastOpenedStreamId
  state : w.ctx.stream.state = .opened
  frame : ∃ region, JustReceived w h region

/-- The request is complete. -/
def Complete (w : World) : Prop :=
  w.ctx.flags.waitingEndHeaders = false ∧ w.ctx.flags.waitingEndStream = false

/-- A frame has completed a request, which leaves the world `w₁`. -/
inductive RequestReady (w : World) : World → Prop
  | block (h data n) (hb : BlockReady w h n) (hc : Complete (w.block h data n)) :
    RequestReady w (w.block h data n)
  | data (h) (hd : DataReady w h) (hc : Complete (w.marked h)) : RequestReady w (w.marked h)

namespace RequestReady

variable {w w₁ : World} (h : RequestReady w w₁)
include h

theorem sock : w₁.sock = w.sock := by cases h <;> simp

theorem loop : w₁.loop = w.loop := by cases h <;> simp

theorem callback : w₁.callback = w.callback := by cases h <;> simp

theorem state : w₁.ctx.state = w.ctx.state := by cases h <;> simp

theorem goawaySent : w₁.ctx.flags.goawaySent = w.ctx.flags.goawaySent := by cases h <;> simp

theorem log : ∃ u h, w₁.log = w.log ++ World.markEntry u h ∧ u.callback = w.callback := by
  cases h with
  | block h data n hb hc => exact ⟨w.copied data n, h, w.block_log h data n, by simp⟩
  | data h hd hc => exact ⟨w, h, w.marked_log h, rfl⟩

theorem log_prefix : w.log <+: w₁.log := by
  obtain ⟨u, h, hlog, -⟩ := h.log
  rw [hlog]
  exact List.prefix_append _ _

end RequestReady

/-- What a WINDOW_UPDATE frame for a stream has passed before its increment is added. -/
structure WindowReady (w : World) (h : FrameHeader) (region : Bytes) : Prop where
  type : h.type = .windowUpdate
  stream : h.streamId ≠ 0
  known : h.streamId ≤ w.ctx.lastOpenedStreamId
  alive : h.streamId = w.ctx.stream.id → w.ctx.stream.state ≠ .closed
  accepted : ¬ overflows w.ctx.stream.windowSize (bufferGetU31 region)
  frame : JustReceived w h region

/-- What happens while a frame is handled. -/
inductive FrameStep (live : Bool) : World → World → Prop
  | frame (w h region) : FrameStep live w (w.add (.frame h region))
  | error (w e) (hw : live → Writable w) : FrameStep live w (w.fail e)
  | quiet (w w') (h : Quiet w w') : FrameStep live w w'
  | reply (w f) (hf : f.stream? = none) (hs : f.header.length ≤ 36) (hw : live → Writable w)
    (hg : ∀ code last, f ≠ .goaway code last) : FrameStep live w (w.written f .closeOnWriteError)
  | reset (w e id) (hid : id ≤ w.ctx.lastOpenedStreamId ∨ id = w.ctx.stream.id)
    (hw : live → Writable w) : FrameStep live w (w.resetBy e id)
  | openStream (w h region) (hh : JustReceived w h region) (ht : h.type = .headers)
    (hc : w.ctx.state = .ready)
    (hid : w.ctx.lastOpenedStreamId < h.streamId)
    (ho : h.streamId % 2 = 1) (hs : w.ctx.stream.state = .closed) :
    FrameStep live w (w.opening h.streamId)
  | trailers (w h region) (hh : JustReceived w h region) (ht : h.type = .headers)
    (hc : w.ctx.state = .ready)
    (hid : h.streamId = w.ctx.lastOpenedStreamId)
    (hs : w.ctx.stream.state ≠ .halfClosedRemote ∧ w.ctx.stream.state ≠ .closed) :
    FrameStep live w (w.onCtx fun c =>
      { c with flags.waitingTrailers := true, flags.waitingEndHeaders := true })
  | block (w h data n) (hb : BlockReady w h n) : FrameStep live w (w.block h data n)
  | data (w h) (hd : DataReady w h) : FrameStep live w (w.marked h)
  | request (w w₁ t headers res) (hr : RequestReady w w₁)
    (hl : res.contentLength ≤ http2StreamBufSize) :
    FrameStep live w ((w₁.decoded t).requested headers res)
  | answer (w w₁ t headers res t' block) (hr : RequestReady w w₁)
    (hl : res.contentLength ≤ http2StreamBufSize) (hb : block.length < 256)
    (hw : live → Writable w) :
    FrameStep live w (((w₁.decoded t).requested headers res).answering t' block)
  | decode (w t) : FrameStep live w (w.decoded t)
  | setting (w id value c) (h : applySetting w.ctx id value = .ok c) :
    FrameStep live w (w.stored id value c)
  | connWindow (w h region) (hh : JustReceived w h region) (ht : h.type = .windowUpdate)
    (hid : h.streamId = 0) (ha : ¬ overflows w.ctx.windowSize (bufferGetU31 region)) :
    FrameStep live w (w.connIncrement (bufferGetU31 region))
  | window (w h region n) (hr : WindowReady w h region) (hn : n = bufferGetU31 region)
    (hs : sendLength (w.increment h.streamId n).ctx ≤ 0) :
    FrameStep live w (w.increment h.streamId n)
  | windowSend (w h region n) (hr : WindowReady w h region) (hn : n = bufferGetU31 region)
    (hs : 0 < sendLength (w.increment h.streamId n).ctx) (hw : live → Writable w) :
    FrameStep live w (w.increment h.streamId n).continued
  | rst (w h region) (hh : JustReceived w h region) (ht : h.type = .rstStream)
    (hid : h.streamId = w.ctx.lastOpenedStreamId) :
    FrameStep live w (w.rstBy h.streamId)
  | goawayClose (w) : FrameStep live w (w.streamTo .closed)
  | goaway (w) (hr : live → w.sock.read.isSome) (hw : live → Writable w) (h region s)
    (hh : Handling w h region s) (ht : h.type = .goaway) : FrameStep live w w.goneAway

/-- What the callback of a write that completed does. -/
inductive Callback (live : Bool) : WriteCb → World → World → Prop
  | writeError (w) : Callback live .closeOnWriteError w w
  | goaway (w) : Callback live .closeOnGoawaySent w w.closeImmediate
  | settings (w w') (h : Quiet w w') : Callback live .onSettingsSent w w'
  | done (w) (hb : w.ctx.stream.buflen = 0) :
    Callback live .onStreamSendComplete w (w.streamTo .closed)
  | idle (w) (hb : w.ctx.stream.buflen ≠ 0) (hs : sendLength w.ctx ≤ 0) :
    Callback live .onStreamSendComplete w w
  | send (w) (hs : 0 < sendLength w.ctx) (hw : live → Writable w) :
    Callback live .onStreamSendComplete w w.continued

/-- Whether `update_settings` accepts a parameter. -/
def acceptable (id value : ℕ) : Prop :=
  (id = 2 → value ≤ 1) ∧ (id = 4 → value ≤ 2 ^ 31 - 1) ∧
    (id = 5 → 2 ^ 14 ≤ value ∧ value ≤ 2 ^ 24 - 1)

instance (id value : ℕ) : Decidable (acceptable id value) := inferInstanceAs (Decidable (_ ∧ _ ∧ _))

/-- All parameters of a SETTINGS payload are acceptable. -/
def Acceptable (h : FrameHeader) (region : Bytes) : Prop :=
  ∀ p ∈ settingsParameters region h.length, acceptable p.1 p.2

instance (h : FrameHeader) (region : Bytes) : Decidable (Acceptable h region) :=
  inferInstanceAs (Decidable (∀ p ∈ _, _))

/-- The parameters of a SETTINGS frame are read from its payload. -/
theorem settingsParameters_take {m : Bytes} {n : ℕ} (h : n % 6 = 0) :
    settingsParameters (m.take n) n = settingsParameters m n := by
  refine List.map_congr_left fun i hi => ?_
  have hi := List.mem_range.mp hi
  simp only [bufferGetU16, bufferGetU32, byteAt_drop]
  rw [byteAt_take (by omega), byteAt_take (by omega), byteAt_take (by omega),
    byteAt_take (by omega), byteAt_take (by omega), byteAt_take (by omega)]

/-- What `waiting_for_settings` has done before the connection becomes ready: the SETTINGS frame
at the beginning of the read buffer `bytes` was handled. -/
structure SettingsHandled (w : World) (e : EventRead) (h : FrameHeader) : Prop where
  cb : e.cb = .waitingForSettings
  header : h = frameParseHeader e.buf.bytes
  type : h.type = .settings
  flags : h.flags = 0
  stream : h.streamId = 0
  length : h.length % 6 = 0
  whole : 9 + h.length ≤ e.buf.bytes.length
  log : ∃ before s after, w.log = before ++ .frame h (e.buf.bytes.drop 9) s :: after ∧
    s.sock.read = some e ∧ (Acceptable h (e.buf.bytes.drop 9) →
      w.sock.read = some e ∧ ∀ x ∈ after, ∀ code s, x ≠ .error code s)

/-- Where a frame step happens: on a connected socket, unless nothing is recorded, or the timer for
the acknowledgment of the settings expires. -/
def Served (w w' : World) : Prop :=
  w.sock.state = .connected ∨ w'.log = w.log ∨ w'.log = (w.fail .settingsTimeout).log

/-- What happens on a socket. -/
inductive Transition (live : Bool) : World → World → Prop
  | frame (w w') (h : FrameStep live w w') (hs : Served w w') : Transition live w w'
  | closeImmediate (w) : Transition live w w.closeImmediate
  | preface (w e) (hr : w.sock.read = some e) (hc : e.cb = .waitingForPreface)
    (hp : e.buf.bytes.take 24 = http2Preface) (hw : live → Writable w) :
    Transition live w (w.greeted e.buf.bytes)
  | ready (w e h) (hs : SettingsHandled w e h) (hr : live → w.sock.read = some e) :
    Transition live w (w.readied e.buf.bytes (9 + h.length))
  | consume (w bytes n)
    (h : ∀ e, w.sock.read = some e → e.cb ≠ .receiving → bytes.take n = []) :
    Transition live w (w.consumed bytes n)
  | complete (w op rest w') (hq : w.sock.queue = op :: rest)
    (hc : Callback live op.cb (w.popped.calling op 0) w') : Transition live w (w'.returned op)
  | failed (w op rest status) (hq : w.sock.queue = op :: rest) (hs : status < 0) :
    Transition live w (w.dropped op status)
  | flush (w) (h : w.sock.state ≠ .connected ∨ w.sock.queue = []) : Transition live w w.flushed

end Two
