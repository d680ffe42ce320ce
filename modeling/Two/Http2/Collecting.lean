import Two.Http2.Reassembly

/-!
# The collection of a request

What the frames of a request do to a connection while its header block is collected, exactly: the
stream, its buffer and the flags change, and nothing else does. On this the server relies when the
request is complete.

## Main definitions

* `Context.collecting`: the context while a header block is collected
* `Vacant`: a context that takes a request
* `Still`: the worlds between which nothing was sent or raised
* `Awaits`: the frames of a request that are still to come

## Main results

* `Awaits.receiveFrame`: one frame of a request
-/

namespace Two

open Program

/-- The context while `block` is collected for the stream `id`; `waiting` is whether a CONTINUATION
frame is expected, `fin` whether the stream has ended. -/
def Context.collecting (c : Context) (id : ℕ) (block : Bytes) (waiting fin : Bool) : Context :=
  { c with
    stream := ⟨id, if fin then .halfClosedRemote else .opened, c.settings.initialWindowSize,
      block ++ c.stream.buf.drop block.length, block.length, 0⟩
    lastOpenedStreamId := id
    flags := { c.flags with waitingEndHeaders := waiting, waitingEndStream := !fin } }

/-- A connection that waits for a request, and on which no flag is left over. -/
structure Vacant (c : Context) : Prop where
  ready : c.state = .ready
  closed : c.stream.state = .closed
  endHeaders : c.flags.waitingEndHeaders = false
  trailers : c.flags.waitingTrailers = false

/-- An entry that shows neither a request nor an error, and nothing that is sent. -/
def Entry.inert : Entry → Prop
  | .frame .. | .streamState .. => True
  | _ => False

/-- Only the context has changed, and nothing was sent or raised. -/
structure Still (w w' : World) : Prop where
  grown : Grown Entry.inert w w'
  loop : w'.loop = w.loop
  sock : w'.sock = w.sock
  callback : w'.callback = w.callback

section Still

variable {w w' w'' : World}

theorem Still.refl (w : World) : Still w w := ⟨.of_log rfl, rfl, rfl, rfl⟩

theorem Still.trans (h : Still w w') (h' : Still w' w'') : Still w w'' :=
  ⟨h.grown.trans h'.grown, h'.loop.trans h.loop, h'.sock.trans h.sock,
    h'.callback.trans h.callback⟩

theorem still_frame (header : FrameHeader) (region : Bytes) :
    Still w (w.add (.frame header region)) :=
  ⟨⟨[_], rfl, by simp [Entry.inert]⟩, rfl, rfl, rfl⟩

theorem still_onCtx (f : Context → Context) : Still w (w.onCtx f) := ⟨.of_log rfl, rfl, rfl, rfl⟩

theorem still_streamTo (new : StreamState) : Still w (w.streamTo new) :=
  ⟨⟨[_], rfl, by simp [Entry.inert]⟩, rfl, rfl, rfl⟩

theorem still_block (h : FrameHeader) (data : Bytes) (n : ℕ) : Still w (w.block h data n) := by
  refine ⟨⟨_, World.block_log _ _ _ _, fun e he => ?_⟩, by simp, by simp, by simp⟩
  obtain ⟨s, rfl, -⟩ := World.mem_markEntry _ _ he
  trivial

end Still

/-! ## The frames -/

section Frames

variable {server : Server} {c : Context} {w : World} {id : ℕ} {block f : Bytes}
  {waiting fin : Bool} {h : FrameHeader} {data : Bytes} {Q : ℤ → World → Prop}
  {E : Assertion → World → Prop}

/-- A fragment is copied behind the block. -/
theorem collecting_block (htr : c.flags.waitingTrailers = false) (hdata : data.take f.length = f) :
    (c.collecting id block waiting fin).block h data f.length =
      c.collecting id (block ++ f) (waiting && !h.has frameFlagsEndHeaders)
        (fin || h.has frameFlagsEndStream) := by
  have hlen : f.length ≤ data.length := by
    have := congrArg List.length hdata
    rw [List.length_take] at this
    omega
  have hbuf : (c.collecting id block waiting fin).appendBlock data f.length =
      c.collecting id (block ++ f) waiting fin := by
    simp only [Context.appendBlock, Context.collecting, List.take_left,
      slice_zero_eq_take hlen, hdata, List.length_append]
    rw [← List.drop_drop, List.drop_left, List.drop_drop]
  have hflag : (c.collecting id block waiting fin).flags.waitingTrailers = false := htr
  simp only [Context.block, Context.marked, hflag, Bool.false_eq_true, if_false, hbuf]
  cases h.has frameFlagsEndStream <;> cases h.has frameFlagsEndHeaders <;> cases waiting <;>
    cases fin <;> rfl

/-- A fragment that is not empty and fits in the stream buffer is collected. -/
theorem handleHeaderBlock_collecting (hc : w.ctx = c.collecting id block waiting fin)
    (htr : c.flags.waitingTrailers = false) (hne : f ≠ [])
    (hfit : block.length + f.length ≤ http2StreamBufSize) (hdata : data.take f.length = f)
    (hQ : ∀ w', Still w w' → w'.ctx = c.collecting id (block ++ f)
        (waiting && !h.has frameFlagsEndHeaders) (fin || h.has frameFlagsEndStream) →
      wp (endStreamIfComplete server) Q E w') :
    wp (handleHeaderBlock server h data f.length) Q E w := by
  have hpos := List.length_pos_of_ne_nil hne
  have hlen : w.ctx.stream.buflen = block.length := by rw [hc]; rfl
  have hmin : (f.length : ℤ) = min (f.length : ℤ) (http2StreamBufSize - w.ctx.stream.buflen) := by
    rw [hlen]
    omega
  refine handleHeaderBlock_wp server hmin (fun hle => by omega) fun _ => ?_
  rw [Int.toNat_natCast]
  apply hQ _ (still_block h data f.length)
  rw [World.block_ctx, hc, collecting_block htr hdata]

/-- The payload of a HEADERS frame, whose fragment lies between the length of the padding and the
priority, and the padding. -/
theorem handleHeadersPayload_collecting {last : Bool} {frame : FrameHeader × Bytes}
    (hc : w.ctx = c.collecting id [] true false) (htr : c.flags.waitingTrailers = false)
    (hf : IsHeaders id last fin f frame) (hne : f ≠ []) (hfit : f.length ≤ http2StreamBufSize)
    (hQ : ∀ w', Still w w' → w'.ctx = c.collecting id f (!last) fin →
      wp (endStreamIfComplete server) Q E w') :
    wp (handleHeadersPayload server frame.1 frame.2) Q E w := by
  have hpos := List.length_pos_of_ne_nil hne
  have hlen := hf.length
  have hblock : wp (handleHeaderBlock server frame.1 (frame.2.drop (fieldBytes frame.1))
      f.length) Q E w := by
    refine handleHeaderBlock_collecting hc htr hne (by simpa using hfit) hf.payload ?_
    intro w' hs hc'
    rw [List.nil_append, Bool.true_and, Bool.false_or, hf.endHeaders, hf.endStream] at hc'
    exact hQ w' hs hc'
  unfold handleHeadersPayload
  unfold fieldBytes paddingBytes at hlen
  unfold fieldBytes at hblock
  cases hp : frame.1.has frameFlagsPadded <;> cases hq : frame.1.has frameFlagsPriority <;>
    simp only [hp, hq, Bool.false_eq_true, if_true, if_false, false_and, true_and,
      Nat.add_zero, Nat.zero_add, List.drop_zero] at hlen hblock ⊢
  · rw [hlen]
    exact hblock
  · rw [hlen]
    convert hblock using 2
    push_cast
    omega
  · rw [if_neg (by omega), hlen]
    convert hblock using 2
    push_cast
    omega
  · rw [if_neg (by omega), hlen, List.drop_drop]
    convert hblock using 2
    push_cast
    omega

/-- The HEADERS frame that opens a stream. -/
theorem receiveFrame_headers (hv : Vacant w.ctx) (hlast : w.ctx.lastOpenedStreamId < id)
    (hodd : id % 2 = 1) {last : Bool} {frame : FrameHeader × Bytes}
    (hf : IsHeaders id last fin f frame) (hne : f ≠ []) (hfit : f.length ≤ http2StreamBufSize)
    (hQ : ∀ w', Still w w' → w'.ctx = w.ctx.collecting id f (!last) fin →
      wp (endStreamIfComplete server) Q E w') :
    wp (receiveFrame server frame.1 frame.2) Q E w := by
  have hpayload : wp (handleHeadersPayload server frame.1 frame.2) Q E
      ((w.add (.frame frame.1 frame.2)).opening id) := by
    refine handleHeadersPayload_collecting (c := w.ctx) rfl hv.trailers hf hne hfit ?_
    intro w' hs hc
    refine hQ w' (Still.trans ?_ hs) hc
    exact (still_frame _ _).trans ((still_onCtx _).trans (still_streamTo _))
  simp only [receiveFrame, handleFrame, hf.type, handleHeadersFrame, wp_bind, wp_getCtx, wp_record,
    World.add_toState, hv.ready, hv.endHeaders, hv.closed, hf.stream, Bool.false_eq_true, false_and,
    reduceCtorEq, wp_ite, wp_modifyCtx, wp_setStreamState, ne_eq, not_true_eq_false, and_false]
  -- no check of the frame fails, and the stream is a new one
  refine ⟨False.elim, fun _ => ⟨False.elim, fun _ => ⟨fun h => ?_, fun _ => ⟨fun h => ?_, fun _ =>
    ⟨False.elim, fun _ => ⟨fun h => ?_, fun _ => ⟨fun h => ?_, fun _ => hpayload⟩⟩⟩⟩⟩⟩⟩ <;> omega

/-- A CONTINUATION frame. -/
theorem receiveFrame_continuation (hc : w.ctx = c.collecting id block true fin)
    (htr : c.flags.waitingTrailers = false) (hodd : id % 2 = 1) {last : Bool}
    {frame : FrameHeader × Bytes} (hf : IsContinuation id last f frame) (hne : f ≠ [])
    (hfit : block.length + f.length ≤ http2StreamBufSize)
    (hQ : ∀ w', Still w w' → w'.ctx = c.collecting id (block ++ f) (!last) fin →
      wp (endStreamIfComplete server) Q E w') :
    wp (receiveFrame server frame.1 frame.2) Q E w := by
  have hblock : wp (handleHeaderBlock server frame.1 frame.2 frame.1.length) Q E
      (w.add (.frame frame.1 frame.2)) := by
    rw [hf.length]
    refine handleHeaderBlock_collecting hc htr hne hfit hf.payload fun w' hs hc' => ?_
    rw [Bool.true_and, hf.endHeaders, hf.endStream, Bool.or_false] at hc'
    exact hQ w' ((still_frame _ _).trans hs) hc'
  have hstate : w.ctx.stream.state = if fin then .halfClosedRemote else .opened := by
    rw [hc]
    rfl
  have hwaiting : w.ctx.flags.waitingEndHeaders = true := by rw [hc]; rfl
  simp only [receiveFrame, handleFrame, hf.type, handleContinuationFrame, wp_bind, wp_getCtx,
    wp_record, World.add_toState, hwaiting, hstate, hf.stream, ne_eq, not_true_eq_false, and_false,
    if_false, Bool.not_true, Bool.false_eq_true, or_false, wp_ite]
  refine ⟨fun h => ?_, fun _ => hblock⟩
  rcases h with h | h
  · omega
  · cases fin <;> simp at h

/-- The DATA frame that ends the stream. -/
theorem receiveFrame_data (hc : w.ctx = c.collecting id block false false) (hodd : id % 2 = 1)
    {frame : FrameHeader × Bytes} (hf : IsEndData id frame)
    (hQ : ∀ w', Still w w' → w'.ctx = c.collecting id block false true →
      wp (endStreamIfComplete server) (fun _ => Q 0) E w') :
    wp (receiveFrame server frame.1 frame.2) Q E w := by
  have hstream : w.ctx.stream.state = .opened := by rw [hc]; rfl
  have hlast : w.ctx.lastOpenedStreamId = id := by rw [hc]; rfl
  have hwaiting : w.ctx.flags.waitingEndHeaders = false := by rw [hc]; rfl
  have hmark := hQ (((w.add (.frame frame.1 frame.2)).onCtx fun c =>
      { c with flags.waitingEndStream := false }).streamTo .halfClosedRemote)
    ((still_frame _ _).trans ((still_onCtx _).trans (still_streamTo _)))
    (by rw [World.streamTo_ctx, World.onCtx_ctx, World.add_toState, hc]; rfl)
  simp only [receiveFrame, handleFrame, hf.type, handleDataFrame, markEndStream, wp_bind, wp_getCtx,
    wp_record, World.add_toState, hwaiting, hstream, hlast, hf.stream, hf.endStream, wp_ite,
    wp_modifyCtx, wp_setStreamState, wp_pure]
  refine ⟨fun h => by simp at h, fun _ => ⟨fun h => by omega, fun _ => ⟨fun h => by omega,
    fun _ => ⟨fun h => absurd rfl h, fun _ => ⟨fun h => ?_, fun _ => ⟨fun _ => hmark,
      fun h => absurd trivial h⟩⟩⟩⟩⟩⟩
  exact absurd (hf.padding h.1) (not_lt.mpr h.2)

end Frames

/-! ## The frames that are still to come -/

/-- The frames of a request that are still to come: all of them, the CONTINUATION frames and what is
behind them, or the DATA frame that ends the stream. Then the header block is `total`. -/
inductive Awaits (c : Context) (id : ℕ) (total : Bytes) : List (FrameHeader × Bytes) → Context → Prop
  | start {fragments frames} (hreq : IsRequest id fragments frames) (hne : [] ∉ fragments)
    (htotal : fragments.flatten = total) : Awaits c id total frames c
  | block {fragments continuations body block fin} (hne : fragments ≠ [])
    (hconts : AreContinuations id fragments continuations) (hbody : IsBody id fin body)
    (hempty : [] ∉ fragments) (htotal : block ++ fragments.flatten = total) :
    Awaits c id total (continuations ++ body) (c.collecting id block true fin)
  | body {d} (hd : IsEndData id d) : Awaits c id total [d] (c.collecting id total false false)

section Regions

variable {id : ℕ} {last fin : Bool} {f : Bytes} {h : FrameHeader} {payload : Bytes}

/-- Behind the payload anything may follow. -/
theorem IsHeaders.append (hf : IsHeaders id last fin f (h, payload))
    (hlen : payload.length = h.length) (hne : f ≠ []) (more : Bytes) :
    IsHeaders id last fin f (h, payload ++ more) := by
  have hlength := hf.length
  have hpos := List.length_pos_of_ne_nil hne
  have hpad : paddingBytes h (payload ++ more) = paddingBytes h payload := by
    have htake := byteAt_take (m := payload ++ more) (n := payload.length) (i := 0) (by
      simp only at hlength
      omega)
    rw [List.take_left] at htake
    simp only [paddingBytes, htake]
  refine { hf with length := ?_, payload := ?_ }
  · rw [hpad]
    exact hlength
  · have hpayload := hf.payload
    simp only at hpayload hlength ⊢
    rwa [List.drop_append_of_le_length (by omega), List.take_append_of_le_length (by
      rw [List.length_drop]
      omega)]

theorem IsContinuation.append (hf : IsContinuation id last f (h, payload))
    (hlen : payload.length = h.length) (more : Bytes) :
    IsContinuation id last f (h, payload ++ more) := by
  have hlength := hf.length
  refine { hf with payload := ?_ }
  have hpayload := hf.payload
  simp only at hpayload hlength ⊢
  rwa [List.take_append_of_le_length (by omega)]

theorem IsEndData.append (hf : IsEndData id (h, payload)) (hlen : payload.length = h.length)
    (more : Bytes) : IsEndData id (h, payload ++ more) := by
  refine { hf with padding := fun hp => ?_ }
  have hlt := hf.padding hp
  simp only at hlt ⊢
  rw [← byteAt_take (m := payload ++ more) (n := payload.length) (by omega), List.take_left]
  exact hlt

end Regions

section Await

variable {server : Server} {c : Context} {w : World} {id : ℕ} {total block : Bytes} {fin : Bool}
  {frames : List (FrameHeader × Bytes)} {Q : ℤ → World → Prop} {E : Assertion → World → Prop}

/-- The end of a frame: the request is complete, or more frames are to come. -/
theorem endStreamIfComplete_collecting {fs : List Bytes}
    {continuations body : List (FrameHeader × Bytes)}
    (hc : w.ctx = c.collecting id block (!decide (fs = [])) fin)
    (hconts : AreContinuations id fs continuations) (hbody : IsBody id fin body)
    (hempty : [] ∉ fs) (htotal : block ++ fs.flatten = total)
    (hnext : Awaits c id total (continuations ++ body) w.ctx → Q 0 w)
    (hdone : continuations ++ body = [] → w.ctx = c.collecting id total false true →
      wp (handleEndStream server) Q E w) :
    wp (endStreamIfComplete server) Q E w := by
  have hheaders : w.ctx.flags.waitingEndHeaders = !decide (fs = []) := by rw [hc]; rfl
  have hstream : w.ctx.flags.waitingEndStream = !fin := by rw [hc]; rfl
  simp only [endStreamIfComplete, wp_bind, wp_getCtx, wp_ite, wp_pure, hheaders, hstream,
    Bool.not_not, decide_eq_true_eq]
  refine ⟨fun hlast => ?_, fun hmore => hnext ?_⟩
  · obtain ⟨hfs, hfin⟩ := hlast
    subst hfs hfin
    obtain rfl : continuations = [] := hconts
    rcases hbody with ⟨-, rfl⟩ | ⟨hfin, -⟩
    · refine hdone rfl ?_
      rw [hc, ← htotal, List.flatten_nil, List.append_nil]
      rfl
    · cases hfin
  · rw [hc]
    by_cases hfs : fs = []
    · subst hfs
      obtain rfl : continuations = [] := hconts
      obtain rfl : block = total := by simpa using htotal
      rcases hbody with ⟨hfin, -⟩ | ⟨hfin, d, rfl, hd⟩
      · exact absurd ⟨rfl, hfin⟩ hmore
      · subst hfin
        exact .body hd
    · have hwait : (!decide (fs = [])) = true := by simpa using hfs
      rw [hwait]
      exact .block hfs hconts hbody hempty htotal

/-- **One frame of a request.** Either more frames are to come, or the request is complete; in the
read buffer anything may follow. -/
theorem Awaits.receiveFrame {f : FrameHeader × Bytes} (h : Awaits c id total (f :: frames) w.ctx)
    (hv : Vacant c) (hlast : c.lastOpenedStreamId < id) (hodd : id % 2 = 1)
    (hfit : total.length ≤ http2StreamBufSize) (hlen : f.2.length = f.1.length) (more : Bytes)
    (hnext : ∀ w', Still w w' → Awaits c id total frames w'.ctx → Q 0 w')
    (hdone : ∀ w', Still w w' → frames = [] → w'.ctx = c.collecting id total false true →
      wp (handleEndStream server) (fun rc w'' => rc = 0 ∧ Q 0 w'') E w') :
    wp (receiveFrame server f.1 (f.2 ++ more)) Q E w := by
  have hend : ∀ {fs : List Bytes} {continuations body block fin w'},
      frames = continuations ++ body → Still w w' →
      w'.ctx = c.collecting id block (!decide (fs = [])) fin →
      AreContinuations id fs continuations → IsBody id fin body → [] ∉ fs →
      block ++ fs.flatten = total →
      wp (endStreamIfComplete server) (fun rc w'' => rc = 0 ∧ Q 0 w'') E w' := by
    intro fs continuations body block fin w' hframes hs hc hconts hbody hempty htotal
    refine endStreamIfComplete_collecting hc hconts hbody hempty htotal (fun ha => ⟨rfl, ?_⟩)
      fun hnil hc' => ?_
    · exact hnext w' hs (hframes ▸ ha)
    · exact hdone w' hs (hframes.trans hnil) hc'
  have hzero : ∀ rc w'', rc = 0 ∧ Q 0 w'' → Q rc w'' := by
    rintro rc w'' ⟨rfl, hq⟩
    exact hq
  change wp (Two.receiveFrame server (f.1, f.2 ++ more).1 (f.1, f.2 ++ more).2) Q E w
  generalize hframes : f :: frames = all at h
  generalize hctx : w.ctx = ctx at h
  cases h with
  | start hreq hne htotal =>
    obtain ⟨first, rest, fin, headers, continuations, body, rfl, rfl, hf, hconts, hbody⟩ := hreq
    obtain ⟨rfl, rfl⟩ := List.cons.inj hframes
    have hfirst : first ≠ [] := fun he => hne (he ▸ List.mem_cons_self)
    have hle : first.length ≤ total.length := by
      rw [← htotal, List.flatten_cons, List.length_append]
      omega
    have hv' : Vacant w.ctx := hctx ▸ hv
    refine receiveFrame_headers hv' (hctx ▸ hlast) hodd
      (hf.append hlen hfirst more) hfirst (hle.trans hfit) fun w' hs hc => ?_
    rw [hctx] at hc
    exact (hend rfl hs hc hconts hbody (fun hm => hne (List.mem_cons_of_mem _ hm))
      htotal).mono hzero fun _ _ he => he
  | @block fragments continuations body block fin hfs hconts hbody hempty htotal =>
    obtain ⟨g, fs, rfl⟩ := List.exists_cons_of_ne_nil hfs
    obtain ⟨frame, rest, rfl, hf, hrest⟩ := hconts
    obtain ⟨rfl, rfl⟩ := List.cons.inj hframes
    have hg : g ≠ [] := fun he => hempty (he ▸ List.mem_cons_self)
    have hle : block.length + g.length ≤ total.length := by
      rw [← htotal, List.flatten_cons, List.length_append, List.length_append]
      omega
    refine receiveFrame_continuation hctx hv.trailers hodd
      (hf.append hlen more) hg (hle.trans hfit) fun w' hs hc => ?_
    refine (hend rfl hs hc hrest hbody (fun hm => hempty (List.mem_cons_of_mem _ hm)) ?_).mono
      hzero fun _ _ he => he
    rw [List.append_assoc]
    exact htotal
  | body hd =>
    obtain ⟨rfl, rfl⟩ := List.cons.inj hframes
    refine receiveFrame_data hctx hodd (hd.append hlen more)
      fun w' hs hc => ?_
    refine (@hend [] [] [] _ _ _ rfl hs hc rfl (.inl ⟨rfl, rfl⟩)
      (by simp) (by simp)).mono (fun rc w'' hq => hq.2) fun _ _ he => he

end Await

end Two
