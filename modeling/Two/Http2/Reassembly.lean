import Two.Http2.Reception

/-!
# Header block reassembly

A header block may be split over a HEADERS frame and any number of CONTINUATION frames. The server
collects the fragments in the stream buffer, takes an empty fragment for a buffer that is full, cuts
off what does not fit, and collects nothing where the flag for trailers is left over from an earlier
stream. A frame that does not fit in the read buffer with its header is waited for without end.

## Main definitions

* `IsRequest`: the frames of a request whose header block is split into given fragments
* `collect`: what is collected of the fragments
* `Reassembles`: what is claimed of the header block
* `Collectable`: the condition under which the claim holds

## Main results

* `ends_reception`: what the automaton makes of the first frames of a request
* `reassembles_iff`: the claim holds exactly where the fragments are collectable
-/

namespace Two

open Program Trace

/-! ## The frames of a request -/

/-- The bytes of a HEADERS payload before the fragment: the length of the padding and the
priority. -/
def fieldBytes (h : FrameHeader) : ℕ :=
  (if h.has frameFlagsPadded then 1 else 0) + if h.has frameFlagsPriority then 5 else 0

/-- The bytes of padding behind the fragment. -/
def paddingBytes (h : FrameHeader) (region : Bytes) : ℕ :=
  if h.has frameFlagsPadded then byteAt region 0 else 0

/-- A HEADERS frame with a fragment, in a region that starts at its payload. -/
structure IsHeaders (id : ℕ) (last fin : Bool) (fragment : Bytes) (f : FrameHeader × Bytes) :
    Prop where
  type : f.1.type = .headers
  stream : f.1.streamId = id
  endHeaders : f.1.has frameFlagsEndHeaders = last
  endStream : f.1.has frameFlagsEndStream = fin
  length : f.1.length = fieldBytes f.1 + fragment.length + paddingBytes f.1 f.2
  payload : (f.2.drop (fieldBytes f.1)).take fragment.length = fragment

/-- A CONTINUATION frame with a fragment. -/
structure IsContinuation (id : ℕ) (last : Bool) (fragment : Bytes) (f : FrameHeader × Bytes) :
    Prop where
  type : f.1.type = .continuation
  stream : f.1.streamId = id
  endHeaders : f.1.has frameFlagsEndHeaders = last
  endStream : f.1.has frameFlagsEndStream = false
  length : f.1.length = fragment.length
  payload : f.2.take fragment.length = fragment

/-- A DATA frame that ends the stream. -/
structure IsEndData (id : ℕ) (f : FrameHeader × Bytes) : Prop where
  type : f.1.type = .data
  stream : f.1.streamId = id
  endStream : f.1.has frameFlagsEndStream = true
  padding : f.1.has frameFlagsPadded = true → byteAt f.2 0 < f.1.length

/-- CONTINUATION frames with the given fragments; only the last one has END_HEADERS. -/
def AreContinuations (id : ℕ) : List Bytes → List (FrameHeader × Bytes) → Prop
  | [], frames => frames = []
  | fragment :: fragments, frames => ∃ f rest, frames = f :: rest ∧
      IsContinuation id (fragments = []) fragment f ∧ AreContinuations id fragments rest

/-- What comes behind the header block: a DATA frame, unless END_STREAM was on the HEADERS frame. -/
def IsBody (id : ℕ) (fin : Bool) (body : List (FrameHeader × Bytes)) : Prop :=
  (fin = true ∧ body = []) ∨ (fin = false ∧ ∃ d, body = [d] ∧ IsEndData id d)

/-- The frames of a request whose header block is split into `fragments`: a HEADERS frame,
CONTINUATION frames, and a DATA frame unless END_STREAM is on the HEADERS frame. -/
def IsRequest (id : ℕ) (fragments : List Bytes) (frames : List (FrameHeader × Bytes)) : Prop :=
  ∃ first rest fin headers continuations body, fragments = first :: rest ∧
    frames = headers :: (continuations ++ body) ∧ IsHeaders id (rest = []) fin first headers ∧
      AreContinuations id rest continuations ∧
        IsBody id fin body

/-! ## What is collected -/

/-- What `handle_header_block` collects behind `block`, `none` where it raises an error. -/
def collect (trailers : Bool) : Bytes → List Bytes → Option Bytes
  | block, [] => some block
  | block, f :: fragments =>
    let n := min f.length (http2StreamBufSize - block.length)
    if n = 0 then none
    else collect trailers (if trailers then block else block ++ f.take n) fragments

/-- The blocks that were decoded. -/
def decodedBlocks (log : List Entry) : List Bytes :=
  log.filterMap fun
    | .decode block _ => some block
    | _ => none

@[simp] theorem decodedBlocks_nil : decodedBlocks [] = [] := rfl

@[simp] theorem decodedBlocks_append (log new : List Entry) :
    decodedBlocks (log ++ new) = decodedBlocks log ++ decodedBlocks new := by
  simp [decodedBlocks]

/-- The fragments are collected as they were sent, if they fit in the stream buffer, and are an
error if they do not. -/
def Reassembles (server : Server) (fragments : List Bytes) (frames : List (FrameHeader × Bytes))
    (w : World) : Prop :=
  ∃ new, (finalState (receiveFrames server frames w)).log = w.log ++ new ∧
    if fragments.flatten.length ≤ http2StreamBufSize then
      decodedBlocks new = [fragments.flatten] ∧
        ∀ block s, .decode block s ∈ new → s.ctx.hpackDynamicTable = w.ctx.hpackDynamicTable ∧
          s.ctx.stream.buflen = fragments.flatten.length ∧ s.ctx.stream.buf =
            fragments.flatten ++ w.ctx.stream.buf.drop fragments.flatten.length
    else errored new = true ∧ decodedBlocks new = []

/-- The frames before the first one that does not fit in the read buffer with its header. -/
def wholeFrames (frames : List (FrameHeader × Bytes)) : List (FrameHeader × Bytes) :=
  frames.takeWhile fun f => f.1.Fits

/-- The frames from the first one on that does not fit. -/
def unfitFrames (frames : List (FrameHeader × Bytes)) : List (FrameHeader × Bytes) :=
  frames.dropWhile fun f => f.1.Fits

/-- No flag is left over, no fragment is empty, and all frames fit in the read buffer. Or, where the
fragments do not fit in the stream buffer, an error is raised: because of a flag, of an empty
fragment, or of a buffer that is full before one more fragment comes, each in the frames before the
first one that does not fit in the read buffer; or because this one is too large. -/
def Collectable (fragments : List Bytes) (frames : List (FrameHeader × Bytes)) (c : Context) :
    Prop :=
  if fragments.flatten.length ≤ http2StreamBufSize then
    c.flags.waitingEndHeaders = false ∧ c.flags.waitingTrailers = false ∧ [] ∉ fragments ∧
      unfitFrames frames = []
  else
    let received := fragments.take (wholeFrames frames).length
    (c.flags.waitingEndHeaders = true ∧ wholeFrames frames ≠ []) ∨ [] ∈ received ∨
      (c.flags.waitingTrailers = false ∧ http2StreamBufSize ≤ received.dropLast.flatten.length) ∨
        ∃ f ∈ (unfitFrames frames).head?, http2SockReadSize < f.1.length

section Collect

variable {fragments : List Bytes} {block : Bytes}

/-- With the flag for trailers nothing is collected. -/
theorem collect_trailers (h : block.length < http2StreamBufSize) :
    collect true block fragments = if [] ∈ fragments then none else some block := by
  induction fragments with
  | nil => rfl
  | cons f fragments ih =>
    rw [collect]
    by_cases hf : f = []
    · simp [hf]
    · have hn : min f.length (http2StreamBufSize - block.length) ≠ 0 := by
        have := List.length_pos_of_ne_nil hf
        omega
      rw [if_neg hn, if_pos rfl, ih]
      simp [Ne.symm hf]

/-- The last fragment is not empty. -/
theorem flatten_dropLast_lt (hempty : [] ∉ fragments) (hne : fragments ≠ []) :
    fragments.dropLast.flatten.length < fragments.flatten.length := by
  have hsplit := List.dropLast_concat_getLast hne
  have hlast : fragments.getLast hne ≠ [] := fun h => hempty (h ▸ List.getLast_mem hne)
  have hpos := List.length_pos_of_ne_nil hlast
  have hlen := congrArg (fun l => l.flatten.length) hsplit
  simp only [List.flatten_append, List.length_append, List.flatten_cons, List.flatten_nil,
    List.append_nil] at hlen
  omega

theorem collect_cons {trailers : Bool} {f : Bytes} :
    collect trailers block (f :: fragments) =
      (collect trailers block [f]).bind fun block' => collect trailers block' fragments := by
  rw [collect, collect]
  split
  · rfl
  · rfl

theorem take_min_length (f : Bytes) (n : ℕ) : f.take (min f.length n) = f.take n := by
  rw [← List.take_take, List.take_take, min_comm, ← List.take_take, List.take_length]

/-- What is collected of one fragment. -/
theorem append_take (h : block.length ≤ http2StreamBufSize) (f : Bytes) :
    block ++ f.take (min f.length (http2StreamBufSize - block.length)) =
      (block ++ f).take http2StreamBufSize := by
  rw [take_min_length, List.take_append, List.take_of_length_le h]

/-- Fragments are cut off at the end of the buffer, and an error once it is full. -/
theorem collect_eq (h : block.length ≤ http2StreamBufSize) (hne : fragments ≠ []) :
    collect false block fragments =
      if [] ∈ fragments ∨ http2StreamBufSize ≤ block.length + fragments.dropLast.flatten.length then
        none
      else some ((block ++ fragments.flatten).take http2StreamBufSize) := by
  induction fragments generalizing block with
  | nil => exact absurd rfl hne
  | cons f fragments ih =>
    rw [collect, append_take h]
    by_cases hn : min f.length (http2StreamBufSize - block.length) = 0
    · -- an empty fragment, or no room for it
      rw [if_pos hn, if_pos]
      by_cases hf : f = []
      · simp [hf]
      · have := List.length_pos_of_ne_nil hf
        right
        omega
    · have hf : f ≠ [] := by
        rintro rfl
        simp at hn
      rw [if_neg hn]
      simp only [Bool.false_eq_true, if_false]
      -- the last fragment is cut off at the end of the buffer, any other must leave room
      cases fragments with
      | nil =>
        rw [collect, if_neg]
        · simp
        · simp [Ne.symm hf]
          omega
      | cons g fragments =>
        have hlen : ((block ++ f).take http2StreamBufSize).length =
            min http2StreamBufSize (block.length + f.length) := by simp
        rw [ih (by omega) (by simp), hlen]
        have hmem : [] ∈ f :: g :: fragments ↔ [] ∈ g :: fragments := by simp [Ne.symm hf]
        have hdrop : ((f :: g :: fragments).dropLast).flatten.length =
            f.length + ((g :: fragments).dropLast).flatten.length := by simp
        simp only [hmem, hdrop]
        by_cases hfull : http2StreamBufSize ≤
            block.length + (f.length + ((g :: fragments).dropLast).flatten.length)
        · rw [if_pos (.inr (by omega)), if_pos (.inr hfull)]
        · have hfit : (block ++ f).take http2StreamBufSize = block ++ f :=
            List.take_of_length_le (by simp; omega)
          have hpart : ¬ http2StreamBufSize ≤ min http2StreamBufSize (block.length + f.length) +
              ((g :: fragments).dropLast).flatten.length := by omega
          simp only [hfull, hpart, or_false, hfit, List.flatten_cons, List.append_assoc]

/-- Where nothing is collected. -/
theorem collect_eq_none (trailers : Bool) (fragments : List Bytes) :
    collect trailers [] fragments = none ↔ [] ∈ fragments ∨
      (trailers = false ∧ http2StreamBufSize ≤ fragments.dropLast.flatten.length) := by
  cases trailers with
  | true =>
    rw [collect_trailers (by decide)]
    simp
  | false =>
    by_cases hne : fragments = []
    · subst hne
      simp [collect, http2StreamBufSize]
    · rw [collect_eq (by decide) hne]
      simp [or_iff_not_imp_left]

/-- What is collected. -/
theorem collect_eq_some {trailers : Bool} (h : collect trailers [] fragments = some block) :
    block = if trailers then [] else fragments.flatten.take http2StreamBufSize := by
  cases trailers with
  | true =>
    rw [collect_trailers (by decide)] at h
    split at h
    · cases h
    · exact (Option.some.inj h).symm
  | false =>
    by_cases hne : fragments = []
    · subst hne
      exact (Option.some.inj h).symm
    · rw [collect_eq (by decide) hne] at h
      split at h
      · cases h
      · exact (Option.some.inj h).symm

end Collect

/-! ## What the frames lead to -/

theorem decodedBlocks_eq_nil {new : List Entry} (h : ∀ e ∈ new, e.notDecode) :
    decodedBlocks new = [] := by
  refine List.filterMap_eq_nil_iff.mpr fun e he => ?_
  have := h e he
  cases e with
  | decode => exact absurd this id
  | _ => rfl

/-- What the frames of a request lead to: what was collected is decoded, or there is an error. -/
def Outcome (w₀ : World) : Option Bytes → World → Prop
  | none, w => ∃ new, w.log = w₀.log ++ new ∧ errored new = true ∧ decodedBlocks new = []
  | some block, w => ∃ new, w.log = w₀.log ++ new ∧ decodedBlocks new = [block] ∧
      ∀ b s, .decode b s ∈ new → s.ctx.hpackDynamicTable = w₀.ctx.hpackDynamicTable ∧
        s.ctx.stream.buflen = block.length ∧
          s.ctx.stream.buf = block ++ w₀.ctx.stream.buf.drop block.length

section Outcome

variable {server : Server} {w₀ w : World}

theorem Ended.outcome_none {e : Http2Error} (h : Ended server w₀ (.error e) w) : Outcome w₀ none w := by
  obtain ⟨new, rest, hlog, hnew, ⟨x, rest', rfl, hx⟩, hnot⟩ := h
  refine ⟨new ++ x :: rest', by rw [hlog, List.append_assoc], ?_, ?_⟩
  · have herr : errored (x :: rest') = true := by
      cases x with
      | error => simp
      | send f =>
        cases f with
        | rstStream => simp [Entry.verdict?] at hx
        | _ => cases hx
      | request => simp [Entry.verdict?] at hx
      | _ => cases hx
    rw [errored_append, herr, Bool.or_true]
  · rw [decodedBlocks_append, decodedBlocks_eq_nil fun y hy => (hnew y hy).2,
      decodedBlocks_eq_nil hnot, List.append_nil]

theorem Ended.outcome_some {block : Bytes} (h : Ended server w₀ (.complete block) w) :
    Outcome w₀ (some block) w := by
  obtain ⟨new, _, hlog, hnew, s, rest, rfl, htable, hbuflen, hbuf, -, hnot⟩ := h
  refine ⟨new ++ .decode block s :: rest, by rw [hlog, List.append_assoc], ?_, ?_⟩
  · have hone : decodedBlocks (.decode block s :: rest) = block :: decodedBlocks rest := rfl
    rw [decodedBlocks_append, decodedBlocks_eq_nil fun y hy => (hnew y hy).2, hone,
      decodedBlocks_eq_nil hnot, List.nil_append]
  · intro b t hmem
    simp only [List.mem_append, List.mem_cons] at hmem
    rcases hmem with hmem | hmem | hmem
    · exact absurd (hnew _ hmem).2 id
    · cases hmem
      exact ⟨htable, hbuflen, hbuf⟩
    · exact absurd (hnot _ hmem) id

end Outcome

/-- The first frames of a request end with an error where nothing was collected. Otherwise the last
frame completes the block, and the frames before it end nothing. -/
def Ends (last : Prop) [Decidable last] :
    Option Bytes → Option (Ending × List (FrameHeader × Bytes)) → Prop
  | none, out => ∃ e rest, out = some (.error e, rest)
  | some block, out => out = if last then some (.complete block, []) else none

section Automaton

variable {r : Reception} {id : ℕ} {trailers fin : Bool} {block : Bytes}

/-- The reception after one more fragment. -/
def absorb (trailers : Bool) (block f : Bytes) (waiting fin : Bool) : Except Ending Reception :=
  match collect trailers block [f] with
  | none => .error (.error .flowControlError)
  | some block => (⟨block, trailers, waiting, fin⟩ : Reception).next

/-- `handle_header_block` collects a fragment. -/
theorem append_eq_absorb (h : FrameHeader) {data f : Bytes} (hdata : data.take f.length = f) :
    r.append h data f.length = absorb r.trailers r.block f
      (r.waiting && !h.has frameFlagsEndHeaders) (r.fin || h.has frameFlagsEndStream) := by
  have hone : collect r.trailers r.block [f] =
      if min f.length (http2StreamBufSize - r.block.length) = 0 then none
      else some (if r.trailers then r.block
        else r.block ++ f.take (min f.length (http2StreamBufSize - r.block.length))) := rfl
  have hsize : min (f.length : ℤ) (http2StreamBufSize - r.block.length) ≤ 0 ↔
      min f.length (http2StreamBufSize - r.block.length) = 0 := by omega
  unfold Reception.append absorb
  dsimp only
  rw [hone]
  -- nothing is copied: the frame is empty or the buffer is full
  by_cases hzero : min f.length (http2StreamBufSize - r.block.length) = 0
  · rw [if_pos (hsize.mpr hzero), if_pos hzero]
  · have hcopy : (min (f.length : ℤ) (http2StreamBufSize - r.block.length)).toNat =
        min f.length (http2StreamBufSize - r.block.length) := by omega
    have hslice : slice data 0 (min f.length (http2StreamBufSize - r.block.length)) =
        f.take (min f.length (http2StreamBufSize - r.block.length)) := by
      have hlen := congrArg List.length hdata
      rw [List.length_take] at hlen
      rw [slice_zero_eq_take (by omega)]
      generalize hn : min f.length (http2StreamBufSize - r.block.length) = n
      conv_rhs => rw [← hdata, List.take_take, min_eq_left (by omega)]
    rw [if_neg (mt hsize.mp hzero), if_neg hzero, hcopy, Reception.copy, hslice]

/-- A CONTINUATION frame. -/
theorem frame_continuation {last : Bool} {f : Bytes} {frame : FrameHeader × Bytes}
    (hf : IsContinuation id last f frame) (hwait : r.waiting = true) :
    r.frame frame = absorb r.trailers r.block f (!last) r.fin := by
  rw [Reception.frame, if_neg fun h => h.2 hf.type]
  simp only [hf.type, Reception.continuation, hwait, Bool.not_true, Bool.false_eq_true, if_false]
  rw [hf.length, append_eq_absorb _ hf.payload, hf.endHeaders, hf.endStream, hwait, Bool.true_and,
    Bool.or_false]

/-- The DATA frame that ends the stream. -/
theorem frame_endData {frame : FrameHeader × Bytes} (hf : IsEndData id frame)
    (hwait : r.waiting = false) : r.frame frame = .error (.complete r.block) := by
  rw [Reception.frame, if_neg (by simp [hwait])]
  simp only [hf.type, Reception.data]
  rw [if_neg fun h => absurd (hf.padding h.1) (not_lt.mpr h.2), Reception.next, if_pos]
  simp [hwait, hf.endStream]

/-- The payload of a HEADERS frame is cut down to its fragment. -/
theorem IsHeaders.headers_eq {last : Bool} {f : Bytes} {frame : FrameHeader × Bytes}
    (hf : IsHeaders id last fin f frame) :
    r.headers frame.1 frame.2 =
      r.append frame.1 (frame.2.drop (fieldBytes frame.1)) f.length := by
  have hlen := hf.length
  unfold Reception.headers
  unfold fieldBytes paddingBytes at *
  cases hp : frame.1.has frameFlagsPadded <;> cases hq : frame.1.has frameFlagsPriority <;>
    simp only [hp, hq, Bool.false_eq_true, if_true, if_false, false_and, true_and] at hlen ⊢
  · congr 1
    omega
  · congr 1
    omega
  · rw [if_neg (by omega)]
    congr 1
    omega
  · rw [if_neg (by omega), List.drop_drop]
    congr 1
    omega

/-- The HEADERS frame that opens the stream. -/
theorem openReception_headers {last : Bool} {f : Bytes} {frame : FrameHeader × Bytes}
    (hf : IsHeaders id last fin f frame) (hodd : id % 2 = 1) :
    openReception false trailers frame = absorb trailers [] f (!last) fin := by
  rw [openReception, if_neg (by simp), if_pos ⟨hf.type, by rw [hf.stream, hodd]⟩, hf.headers_eq,
    append_eq_absorb _ hf.payload, hf.endHeaders, hf.endStream, Bool.true_and, Bool.false_or]

/-- What is left of a request after a frame with one more fragment. -/
theorem ends_absorb (last : Bool) {f : Bytes} {fs : List Bytes} {k : ℕ}
    (rest : List (FrameHeader × Bytes)) {out : Option (Ending × List (FrameHeader × Bytes))}
    (hok : ∀ r, absorb trailers block f (!last) fin = .ok r → out = r.run (rest.take k))
    (herr : ∀ e, absorb trailers block f (!last) fin = .error e → out = some (e, rest.take k))
    (hdone : last = true → fin = true → fs = [] ∧ rest = [])
    (hrest : ∀ block', ¬ (last = true ∧ fin = true) → Ends (rest.length ≤ k)
      (collect trailers block' (fs.take k))
      (Reception.run ⟨block', trailers, !last, fin⟩ (rest.take k))) :
    Ends (rest.length ≤ k) (collect trailers block (f :: fs.take k)) out := by
  rw [collect_cons]
  unfold absorb at hok herr
  cases hone : collect trailers block [f] with
  | none => exact ⟨_, rest.take k, herr _ (by rw [hone])⟩
  | some block' =>
    simp only [hone, Reception.next, Bool.not_not] at hok herr
    by_cases hend : last = true ∧ fin = true
    · -- the request is complete, and no frame is left
      obtain ⟨rfl, rfl⟩ := hdone hend.1 hend.2
      rw [List.take_nil, Option.bind_some]
      refine (herr _ (if_pos (by simp [hend]))).trans ?_
      rw [if_pos (by simp), List.take_nil]
    · rw [hok _ (if_neg (by simpa using hend))]
      exact hrest block' hend

/-- The rest of a request, up to a frame that fits in the read buffer. -/
theorem ends_run {fs : List Bytes} {continuations body : List (FrameHeader × Bytes)} {k : ℕ}
    (hconts : AreContinuations id fs continuations) (hbody : IsBody id fin body)
    (hopen : fs = [] → fin = false) (hfits : ∀ f ∈ (continuations ++ body).take k, f.1.Fits) :
    Ends ((continuations ++ body).length ≤ k) (collect trailers block (fs.take k))
      (Reception.run ⟨block, trailers, !decide (fs = []), fin⟩
        ((continuations ++ body).take k)) := by
  induction fs generalizing block continuations k with
  | nil =>
    obtain rfl : continuations = [] := hconts
    obtain rfl := hopen rfl
    rcases hbody with ⟨hfin, -⟩ | ⟨-, d, rfl, hd⟩
    · cases hfin
    · cases k with
      | zero => rfl
      | succ k =>
        have hfit : d.1.Fits := hfits d (by simp)
        rw [List.nil_append, List.take_succ_cons, List.take_nil, List.take_nil, Reception.run,
          frame_endData hd (by simp), Reception.taken, if_pos hfit]
        exact (if_pos (by simp)).symm
  | cons f fs ih =>
    obtain ⟨frame, rest, rfl, hf, hrest⟩ := hconts
    cases k with
    | zero => rfl
    | succ k =>
      have hfit : frame.1.Fits := hfits frame (by simp)
      have hframe := frame_continuation (r := ⟨block, trailers, true, fin⟩) hf rfl
      have hwait : (!decide (f :: fs = [])) = true := by simp
      rw [hwait, List.cons_append, List.take_succ_cons, List.take_succ_cons, Reception.run, hframe,
        Reception.taken, if_pos hfit]
      simp only [List.length_cons, Nat.add_le_add_iff_right]
      -- the stream can only end with the last continuation
      refine ends_absorb (decide (fs = [])) (rest ++ body) (fun r hr => by rw [hr])
        (fun e he => by rw [he]) (fun hlast hfin => ?_) fun block' hend => ?_
      · obtain rfl : fs = [] := by simpa using hlast
        obtain rfl : rest = [] := hrest
        rcases hbody with ⟨-, rfl⟩ | ⟨hfin', -⟩
        · exact ⟨rfl, rfl⟩
        · cases hfin.symm.trans hfin'
      · refine ih hrest (fun hfs => by simpa [hfs] using hend) fun g hg => hfits g ?_
        rw [List.cons_append, List.take_succ_cons]
        exact List.mem_cons_of_mem _ hg

/-- **What the automaton makes** of the first frames of a request. -/
theorem ends_reception {fragments : List Bytes} {frames : List (FrameHeader × Bytes)} {k : ℕ}
    (hodd : id % 2 = 1) (hreq : IsRequest id fragments frames)
    (hfits : ∀ f ∈ frames.take k, f.1.Fits) :
    Ends (frames.length ≤ k) (collect trailers [] (fragments.take k))
      (reception false trailers (frames.take k)) := by
  obtain ⟨first, rest, fin, headers, continuations, body, rfl, rfl, hh, hconts, hbody⟩ := hreq
  cases k with
  | zero => rfl
  | succ k =>
    have hfit : headers.1.Fits := hfits headers (by simp)
    rw [List.take_succ_cons, List.take_succ_cons, reception, openReception_headers hh hodd,
      Reception.taken, if_pos hfit]
    simp only [List.length_cons, Nat.add_le_add_iff_right]
    refine ends_absorb (decide (rest = [])) (continuations ++ body)
      (fun r hr => congrArg (Reception.after _ ∘ some) hr)
      (fun e he => congrArg (Reception.after _ ∘ some) he) (fun hlast hfin => ?_)
      fun block' hend => ?_
    · obtain rfl : rest = [] := by simpa using hlast
      obtain rfl : continuations = [] := hconts
      rcases hbody with ⟨-, rfl⟩ | ⟨hfin', -⟩
      · exact ⟨rfl, rfl⟩
      · cases hfin.symm.trans hfin'
    · refine ends_run hconts hbody (fun hfs => by simpa [hfs] using hend) fun f hf => hfits f ?_
      rw [List.take_succ_cons]
      exact List.mem_cons_of_mem _ hf

/-! ### Frames that do not fit -/

/-- What becomes of frames from the first one on that does not fit: it is an error if it is too large,
and else nothing comes of it. -/
def unfitEnding : List (FrameHeader × Bytes) → Option (Ending × List (FrameHeader × Bytes))
  | [] => none
  | f :: frames =>
    if f.1.length > http2SockReadSize then some (.error (sizeError f.1.length), frames) else none

variable {pre post rest : List (FrameHeader × Bytes)} {e : Ending} {waiting : Bool}

theorem Reception.after_unfit {f : FrameHeader × Bytes} {res : Except Ending Reception}
    (hfit : ¬ f.1.Fits) :
    Reception.after post (Reception.taken f.1 res) = unfitEnding (f :: post) := by
  rw [Reception.taken, if_neg hfit, unfitEnding]
  by_cases hlarge : f.1.length > http2SockReadSize
  · rw [if_pos hlarge, if_pos hlarge]
    rfl
  · rw [if_neg hlarge, if_neg hlarge]
    rfl

/-- The frames that fit decide, if they end the reception. -/
theorem Reception.after_append_some {res : Option (Except Ending Reception)}
    (h : Reception.after pre res = some (e, rest)) (post : List (FrameHeader × Bytes)) :
    Reception.after (pre ++ post) res = some (e, rest ++ post) := by
  induction pre generalizing res with
  | nil =>
    obtain _ | _ | r := res
    · cases h
    · cases h
      rfl
    · cases h
  | cons f pre ih =>
    obtain _ | _ | r := res
    · cases h
    · cases h
      rfl
    · exact ih h

/-- The first frame that does not fit decides otherwise. -/
theorem Reception.after_append_none {res : Except Ending Reception}
    (hpre : ∀ f ∈ pre, f.1.Fits) (hpost : ∀ f ∈ post.head?, ¬ f.1.Fits)
    (h : Reception.after pre (some res) = none) :
    Reception.after (pre ++ post) (some res) = unfitEnding post := by
  induction pre generalizing res with
  | nil =>
    obtain _ | r := res
    · cases h
    · cases post with
      | nil => rfl
      | cons f post => exact Reception.after_unfit (hpost f rfl)
  | cons f pre ih =>
    obtain _ | r := res
    · cases h
    · have htaken : Reception.taken f.1 (r.frame f) = some (r.frame f) :=
        if_pos (hpre f List.mem_cons_self)
      rw [Reception.after, Reception.run_cons, htaken] at h
      rw [List.cons_append, Reception.after, Reception.run_cons, htaken]
      exact ih (fun g hg => hpre g (List.mem_cons_of_mem _ hg)) h

theorem reception_append_some (h : reception waiting trailers pre = some (e, rest))
    (post : List (FrameHeader × Bytes)) :
    reception waiting trailers (pre ++ post) = some (e, rest ++ post) := by
  cases pre with
  | nil => cases h
  | cons f pre => exact Reception.after_append_some h post

theorem reception_append_none (hpre : ∀ f ∈ pre, f.1.Fits) (hpost : ∀ f ∈ post.head?, ¬ f.1.Fits)
    (h : reception waiting trailers pre = none) :
    reception waiting trailers (pre ++ post) = unfitEnding post := by
  cases pre with
  | nil =>
    cases post with
    | nil => rfl
    | cons f post => exact Reception.after_unfit (hpost f rfl)
  | cons f pre =>
    have htaken (res : Except Ending Reception) : Reception.taken f.1 res = some res :=
      if_pos (hpre f List.mem_cons_self)
    rw [reception, htaken] at h
    rw [List.cons_append, reception, htaken]
    exact Reception.after_append_none (fun g hg => hpre g (List.mem_cons_of_mem _ hg)) hpost h

end Automaton

section Frames

variable (frames : List (FrameHeader × Bytes))

theorem wholeFrames_append : wholeFrames frames ++ unfitFrames frames = frames :=
  List.takeWhile_append_dropWhile

theorem wholeFrames_fit : ∀ f ∈ wholeFrames frames, f.1.Fits := fun f hf =>
  of_decide_eq_true (List.all_eq_true.mp List.all_takeWhile f hf)

theorem unfitFrames_unfit : ∀ f ∈ (unfitFrames frames).head?, ¬ f.1.Fits := by
  intro f hf
  have hhead := List.head?_dropWhile_not (fun f : FrameHeader × Bytes => decide f.1.Fits) frames
  unfold unfitFrames at hf
  rw [Option.mem_def.mp hf] at hhead
  simpa using hhead

theorem take_wholeFrames : frames.take (wholeFrames frames).length = wholeFrames frames :=
  (List.prefix_iff_eq_take.mp (List.takeWhile_prefix _)).symm

end Frames

section Steps

variable (server : Server) {w : World} {id : ℕ} {fragments : List Bytes}
  {frames : List (FrameHeader × Bytes)}

theorem AreContinuations.ofRequest {fs : List Bytes} {continuations : List (FrameHeader × Bytes)}
    (h : AreContinuations id fs continuations) :
    ∀ f ∈ continuations, f.1.streamId = id ∧ f.1.type.ofRequest := by
  induction fs generalizing continuations with
  | nil =>
    obtain rfl : continuations = [] := h
    simp
  | cons f fs ih =>
    obtain ⟨frame, rest, rfl, hf, hrest⟩ := h
    exact List.forall_mem_cons.mpr ⟨⟨hf.stream, .inr (.inl hf.type)⟩, ih hrest⟩

theorem IsRequest.ofRequest (h : IsRequest id fragments frames) :
    ∀ f ∈ frames, f.1.streamId = id ∧ f.1.type.ofRequest := by
  obtain ⟨first, rest, fin, headers, continuations, body, rfl, rfl, hh, hconts, hbody⟩ := h
  intro f hf
  simp only [List.mem_cons, List.mem_append] at hf
  rcases hf with rfl | hf | hf
  · exact ⟨hh.stream, .inl hh.type⟩
  · exact hconts.ofRequest f hf
  · rcases hbody with ⟨-, rfl⟩ | ⟨-, d, rfl, hd⟩
    · cases hf
    · obtain rfl := List.mem_singleton.mp hf
      exact ⟨hd.stream, .inr (.inr hd.type)⟩

end Steps

section Claim

variable {server : Server} {w : World} {fragments : List Bytes}
  {frames : List (FrameHeader × Bytes)}

/-- An error is what is claimed where the fragments do not fit. -/
theorem reassembles_of_none
    (h : Outcome w none (finalState (receiveFrames server frames w))) :
    Reassembles server fragments frames w ↔ http2StreamBufSize < fragments.flatten.length := by
  obtain ⟨new, hlog, herr, hdec⟩ := h
  unfold Reassembles
  constructor
  · rintro ⟨new', hlog', hprop⟩
    obtain rfl : new = new' := List.append_cancel_left (hlog.symm.trans hlog')
    by_contra hle
    rw [if_pos (not_lt.mp hle), hdec] at hprop
    cases hprop.1
  · intro hlt
    refine ⟨new, hlog, ?_⟩
    rw [if_neg (not_le.mpr hlt)]
    exact ⟨herr, hdec⟩

/-- What was collected is what is claimed where it is all fragments, and they fit. -/
theorem reassembles_of_some {block : Bytes}
    (h : Outcome w (some block) (finalState (receiveFrames server frames w))) :
    Reassembles server fragments frames w ↔
      fragments.flatten.length ≤ http2StreamBufSize ∧ block = fragments.flatten := by
  obtain ⟨new, hlog, hdec, hcall⟩ := h
  unfold Reassembles
  constructor
  · rintro ⟨new', hlog', hprop⟩
    obtain rfl : new = new' := List.append_cancel_left (hlog.symm.trans hlog')
    by_cases hle : fragments.flatten.length ≤ http2StreamBufSize
    · rw [if_pos hle, hdec] at hprop
      exact ⟨hle, List.singleton_inj.mp hprop.1⟩
    · rw [if_neg hle, hdec] at hprop
      cases hprop.2
  · rintro ⟨hle, rfl⟩
    refine ⟨new, hlog, ?_⟩
    rw [if_pos hle]
    exact ⟨hdec, hcall⟩

/-- Nothing is claimed that could hold where a frame is waited for. -/
theorem not_reassembles_of_grown
    (h : Grown Entry.plain w (finalState (receiveFrames server frames w))) :
    ¬ Reassembles server fragments frames w := by
  obtain ⟨new, hlog, hnew⟩ := h
  rintro ⟨new', hlog', hprop⟩
  obtain rfl : new = new' := List.append_cancel_left (hlog.symm.trans hlog')
  have hdec : decodedBlocks new = [] := decodedBlocks_eq_nil fun e he => (hnew e he).2
  split at hprop
  · rw [hdec] at hprop
    cases hprop.1
  · have herr : errored new = false := by
      rw [errored, List.any_eq_false]
      intro e he
      have hverdict := (hnew e he).1
      cases e with
      | error => cases hverdict
      | _ => simp
    rw [herr] at hprop
    cases hprop.1

/-- Where a CONTINUATION frame was expected. -/
theorem reassembles_iff_waiting {id : ℕ} (hwait : w.ctx.flags.waitingEndHeaders = true)
    (hreq : IsRequest id fragments frames)
    (h : Concludes server w (reception true w.ctx.flags.waitingTrailers frames)
      (finalState (receiveFrames server frames w))) :
    Reassembles server fragments frames w ↔ Collectable fragments frames w.ctx := by
  obtain ⟨first, rest, fin, headers, continuations, body, rfl, rfl, hh, -, -⟩ := hreq
  have hopen : openReception true w.ctx.flags.waitingTrailers headers =
      .error (.error .protocolError) := by
    rw [openReception, if_pos ⟨rfl, by simp [hh.type]⟩]
  rw [reception, hopen, Reception.taken] at h
  unfold Collectable
  by_cases hfit : headers.1.Fits
  -- the HEADERS frame is an error
  · rw [if_pos hfit] at h
    rw [reassembles_of_none (h.2 (.inl ⟨_, rfl⟩)).outcome_none]
    have hwhole : wholeFrames (headers :: (continuations ++ body)) ≠ [] := by
      simp [wholeFrames, hfit]
    split
    · exact iff_of_false (by omega) fun hc => by simp [hwait] at hc
    · exact iff_of_true (by omega) (.inl ⟨hwait, hwhole⟩)
  · have hwhole : wholeFrames (headers :: (continuations ++ body)) = [] := by
      simp [wholeFrames, hfit]
    have hunfit : unfitFrames (headers :: (continuations ++ body)) =
        headers :: (continuations ++ body) := by simp [unfitFrames, hfit]
    simp only [hwhole, hunfit, List.length_nil, List.take_zero]
    rw [if_neg hfit] at h
    by_cases hlarge : headers.1.length > http2SockReadSize
    -- it is too large
    · rw [if_pos hlarge] at h
      rw [reassembles_of_none (h.2 (.inl ⟨_, rfl⟩)).outcome_none]
      split
      · exact iff_of_false (by omega) fun hc => by simp [hwait] at hc
      · exact iff_of_true (by omega) (.inr (.inr (.inr ⟨headers, rfl, hlarge⟩)))
    -- it is waited for
    · rw [if_neg hlarge] at h
      refine iff_of_false (not_reassembles_of_grown h) ?_
      split
      · simp [hwait]
      · simpa [http2StreamBufSize] using hlarge

/-- Every fragment of a request has a frame. -/
theorem IsRequest.length_le {id : ℕ} (hreq : IsRequest id fragments frames) :
    fragments.length ≤ frames.length := by
  obtain ⟨first, rest, fin, headers, continuations, body, rfl, rfl, -, hconts, -⟩ := hreq
  have hlen : rest.length = continuations.length := by
    clear * - hconts
    induction rest generalizing continuations with
    | nil =>
      obtain rfl : continuations = [] := hconts
      rfl
    | cons f rest ih =>
      obtain ⟨frame, more, rfl, -, hmore⟩ := hconts
      simp [ih _ hmore]
  simp [hlen]

/-- A request has at least the fragment of its HEADERS frame. -/
theorem IsRequest.ne_nil {id : ℕ} (hreq : IsRequest id fragments frames) : fragments ≠ [] := by
  obtain ⟨first, rest, _, _, _, _, rfl, -⟩ := hreq
  simp

/-- Where all frames fit, so do all fragments. -/
theorem IsRequest.take_whole {id : ℕ} (hreq : IsRequest id fragments frames)
    (hunfit : unfitFrames frames = []) :
    fragments.take (wholeFrames frames).length = fragments := by
  have hlength := congrArg List.length (wholeFrames_append frames)
  rw [hunfit, List.append_nil] at hlength
  exact List.take_of_length_le (hlength ▸ hreq.length_le)

/-- What the automaton makes of the frames that fit. -/
theorem IsRequest.ends_whole {id : ℕ} (hreq : IsRequest id fragments frames) (hodd : id % 2 = 1)
    (trailers : Bool) :
    Ends (unfitFrames frames = []) (collect trailers [] (fragments.take (wholeFrames frames).length))
      (reception false trailers (wholeFrames frames)) := by
  have hends := @ends_reception _ trailers _ _ (wholeFrames frames).length hodd hreq
    fun f hf => wholeFrames_fit frames f (take_wholeFrames frames ▸ hf)
  have hlength := congrArg List.length (wholeFrames_append frames)
  rw [List.length_append] at hlength
  rw [take_wholeFrames] at hends
  have hiff : frames.length ≤ (wholeFrames frames).length ↔ unfitFrames frames = [] := by
    rw [← List.length_eq_zero_iff]
    omega
  simpa only [hiff] using hends

section Decided

variable {id : ℕ} {block : Bytes} (hwait : w.ctx.flags.waitingEndHeaders = false)
  (hodd : id % 2 = 1) (hreq : IsRequest id fragments frames)
  (h : Concludes server w (reception false w.ctx.flags.waitingTrailers frames)
    (finalState (receiveFrames server frames w)))
include hodd hreq h

/-- The fragments of the frames that fit are refused. -/
theorem reassembles_iff_refused
    (hcollect : collect w.ctx.flags.waitingTrailers []
      (fragments.take (wholeFrames frames).length) = none) :
    Reassembles server fragments frames w ↔ Collectable fragments frames w.ctx := by
  have hends := hreq.ends_whole hodd w.ctx.flags.waitingTrailers
  rw [hcollect] at hends
  obtain ⟨e, rest, hout⟩ := hends
  have hreception := reception_append_some hout (unfitFrames frames)
  rw [wholeFrames_append] at hreception
  rw [hreception] at h
  have hrefused := (collect_eq_none _ _).mp hcollect
  rw [reassembles_of_none (h.2 (.inl ⟨_, rfl⟩)).outcome_none]
  unfold Collectable
  dsimp only
  split
  · refine iff_of_false (by omega) fun ⟨_, htrailers, hempty, hunfit⟩ => ?_
    rw [hreq.take_whole hunfit] at hrefused
    have := flatten_dropLast_lt hempty hreq.ne_nil
    have := (hrefused.resolve_left hempty).2
    omega
  · refine iff_of_true (by omega) (.inr ?_)
    exact hrefused.elim .inl fun hfull => .inr (.inl hfull)

include hwait

/-- All frames fit, and the block is complete. -/
theorem reassembles_iff_complete (hunfit : unfitFrames frames = [])
    (hcollect : collect w.ctx.flags.waitingTrailers []
      (fragments.take (wholeFrames frames).length) = some block) :
    Reassembles server fragments frames w ↔ Collectable fragments frames w.ctx := by
  have hends := hreq.ends_whole hodd w.ctx.flags.waitingTrailers
  have hsplit := wholeFrames_append frames
  rw [hunfit, List.append_nil] at hsplit
  rw [hcollect, hsplit] at hends
  have hout : reception false w.ctx.flags.waitingTrailers frames = some (.complete block, []) :=
    hends.trans (if_pos hunfit)
  rw [hreq.take_whole hunfit] at hcollect
  have hblock := collect_eq_some hcollect
  have hnone := mt (collect_eq_none _ _).mpr (by rw [hcollect]; simp)
  rw [not_or] at hnone
  have hpos := flatten_dropLast_lt hnone.1 hreq.ne_nil
  rw [hout] at h
  rw [reassembles_of_some (h.2 (.inr rfl)).outcome_some]
  unfold Collectable
  dsimp only
  rw [hreq.take_whole hunfit]
  split
  · rename_i hle
    simp only [hle, hwait, hnone.1, hunfit, true_and, not_false_eq_true, and_true]
    rw [hblock]
    cases w.ctx.flags.waitingTrailers with
    | true =>
      refine iff_of_false (fun hnil => ?_) (by decide)
      rw [if_pos rfl] at hnil
      rw [← hnil] at hpos
      cases hpos
    | false => exact iff_of_true (List.take_of_length_le hle) rfl
  · rename_i hle
    refine iff_of_false (fun hboth => hle hboth.1) ?_
    simp only [hwait, Bool.false_eq_true, false_and, false_or, hnone.1, hunfit, List.head?_nil,
      Option.not_mem_none, exists_false, or_false]
    exact hnone.2

/-- The first frame that does not fit decides. -/
theorem reassembles_iff_unfit (hunfit : unfitFrames frames ≠ [])
    (hcollect : collect w.ctx.flags.waitingTrailers []
      (fragments.take (wholeFrames frames).length) = some block) :
    Reassembles server fragments frames w ↔ Collectable fragments frames w.ctx := by
  have hends := hreq.ends_whole hodd w.ctx.flags.waitingTrailers
  rw [hcollect] at hends
  have hnone := mt (collect_eq_none _ _).mpr (by rw [hcollect]; simp)
  rw [not_or] at hnone
  have hreception := reception_append_none (wholeFrames_fit frames) (unfitFrames_unfit frames)
    (hends.trans (if_neg hunfit))
  rw [wholeFrames_append] at hreception
  rw [hreception] at h
  obtain ⟨g, post, hg⟩ := List.exists_cons_of_ne_nil hunfit
  rw [hg, unfitEnding] at h
  unfold Collectable
  dsimp only
  by_cases hlarge : g.1.length > http2SockReadSize
  · rw [if_pos hlarge] at h
    rw [reassembles_of_none (h.2 (.inl ⟨_, rfl⟩)).outcome_none]
    split
    · exact iff_of_false (by omega) fun hc => hunfit hc.2.2.2
    · exact iff_of_true (by omega) (.inr (.inr (.inr ⟨g, by rw [hg]; rfl, hlarge⟩)))
  · rw [if_neg hlarge] at h
    refine iff_of_false (not_reassembles_of_grown h) ?_
    split
    · exact fun hc => hunfit hc.2.2.2
    · simp only [hwait, Bool.false_eq_true, false_and, false_or, hnone.1, hg, List.head?_cons,
        Option.mem_some, exists_eq_left']
      exact not_or.mpr ⟨hnone.2, hlarge⟩

end Decided

/-- **Header block reassembly.** The header block of a new stream is decoded as it was sent if it
fits in the stream buffer, and is an error if it does not, exactly where its fragments are
collectable. -/
theorem reassembles_iff {id : ℕ} (hstate : w.ctx.state = .ready)
    (hclosed : w.ctx.stream.state = .closed) (hlast : w.ctx.lastOpenedStreamId < id)
    (hodd : id % 2 = 1) (hreq : IsRequest id fragments frames) :
    Reassembles server fragments frames w ↔ Collectable fragments frames w.ctx := by
  have h := receiveFrames_reception server hstate hclosed hlast hreq.ofRequest
  by_cases hwait : w.ctx.flags.waitingEndHeaders = true
  · rw [hwait] at h
    exact reassembles_iff_waiting hwait hreq h
  · have hwait : w.ctx.flags.waitingEndHeaders = false := by simpa using hwait
    rw [hwait] at h
    cases hcollect : collect w.ctx.flags.waitingTrailers []
        (fragments.take (wholeFrames frames).length) with
    | none => exact reassembles_iff_refused hodd hreq h hcollect
    | some block =>
      by_cases hunfit : unfitFrames frames = []
      · exact reassembles_iff_complete hwait hodd hreq h hunfit hcollect
      · exact reassembles_iff_unfit hwait hodd hreq h hunfit hcollect

end Claim

/-! ## A block in two fragments -/

/-- A HEADERS frame without padding and priority. -/
theorem isHeaders_of_flags (flags : UInt8) (hpadded : (flags &&& frameFlagsPadded != 0) = false)
    (hpriority : (flags &&& frameFlagsPriority != 0) = false) (id : ℕ) (f : Bytes) :
    IsHeaders id (flags &&& frameFlagsEndHeaders != 0) (flags &&& frameFlagsEndStream != 0) f
      (⟨f.length, .headers, flags, id⟩, f) := by
  have hbytes : fieldBytes ⟨f.length, .headers, flags, id⟩ = 0 := by
    simp [fieldBytes, FrameHeader.has, hpadded, hpriority]
  refine ⟨rfl, rfl, rfl, rfl, ?_, ?_⟩
  · simp [hbytes, paddingBytes, FrameHeader.has, hpadded]
  · simp [hbytes]

/-- A CONTINUATION frame. -/
theorem isContinuation_of_flags (flags : UInt8)
    (hstream : (flags &&& frameFlagsEndStream != 0) = false) (id : ℕ) (f : Bytes) :
    IsContinuation id (flags &&& frameFlagsEndHeaders != 0) f
      (⟨f.length, .continuation, flags, id⟩, f) :=
  ⟨rfl, rfl, rfl, hstream, rfl, List.take_length⟩

/-- A HEADERS frame with END_STREAM and a CONTINUATION frame with END_HEADERS. -/
theorem isRequest_two (id : ℕ) (first second : Bytes) :
    IsRequest id [first, second] [(⟨first.length, .headers, 1, id⟩, first),
      (⟨second.length, .continuation, 4, id⟩, second)] := by
  refine ⟨first, [second], true, _, [_], [], rfl, rfl, ?_, ⟨_, [], rfl, ?_, rfl⟩, .inl ⟨rfl, rfl⟩⟩
  · exact isHeaders_of_flags 1 (by decide) (by decide) id first
  · exact isContinuation_of_flags 4 (by decide) id second

namespace Sample

/-- A HEADERS frame with END_STREAM and a CONTINUATION frame with END_HEADERS on stream 1. -/
def splitRequest (first second : Bytes) : List (FrameHeader × Bytes) :=
  [(⟨first.length, .headers, 1, 1⟩, first), (⟨second.length, .continuation, 4, 1⟩, second)]

theorem isRequest_splitRequest (first second : Bytes) :
    IsRequest 1 [first, second] (splitRequest first second) := isRequest_two 1 first second

end Sample

/-- The block of an ordinary request in two fragments. -/
theorem reassembles_iff_splitRequest :
    ∃ w ∈ (EventLoop.run (Sample.server 2) (Sample.handshake (Sample.frame 4 0 0 []))).worlds,
      Collectable [[0x82], [0x86, 0x84]] (Sample.splitRequest [0x82] [0x86, 0x84]) w.ctx ∧
        Reassembles (Sample.server 2) [[0x82], [0x86, 0x84]]
          (Sample.splitRequest [0x82] [0x86, 0x84]) w := by
  have hex : ∃ w ∈ (EventLoop.run (Sample.server 2)
      (Sample.handshake (Sample.frame 4 0 0 []))).worlds, w.ctx.state = .ready ∧
        w.ctx.stream.state = .closed ∧ w.ctx.lastOpenedStreamId < 1 ∧
          w.ctx.flags.waitingEndHeaders = false ∧ w.ctx.flags.waitingTrailers = false := by
    decide +kernel
  obtain ⟨w, hw, hstate, hclosed, hlast, hwait, htrailers⟩ := hex
  have hc : Collectable [[0x82], [0x86, 0x84]] (Sample.splitRequest [0x82] [0x86, 0x84]) w.ctx := by
    unfold Collectable
    rw [if_pos (by decide)]
    exact ⟨hwait, htrailers, by decide, by decide⟩
  exact ⟨w, hw, hc, (reassembles_iff hstate hclosed hlast (by decide)
    (Sample.isRequest_splitRequest _ _)).mpr hc⟩

/-- The last fragment is empty: the block is an error, although it fits. -/
theorem not_reassembles_empty :
    ¬ ∀ (server : Server) (actions : List EventLoop.Action) (w : World) (id : ℕ)
      (fragments : List Bytes) (frames : List (FrameHeader × Bytes)),
      w ∈ (EventLoop.run server actions).worlds → (EventLoop.run server actions).aborted = none →
        w.ctx.state = .ready → w.ctx.stream.state = .closed → w.ctx.lastOpenedStreamId < id →
          id % 2 = 1 → IsRequest id fragments frames → Reassembles server fragments frames w := by
  intro h
  have hall : ∀ w ∈ (EventLoop.run (Sample.server 2)
      (Sample.handshake (Sample.frame 4 0 0 []))).worlds, w.ctx.state = .ready →
        w.ctx.stream.state = .closed → w.ctx.lastOpenedStreamId < 1 →
          decodedBlocks ((finalState (receiveFrames (Sample.server 2)
            (Sample.splitRequest Sample.getBlock []) w)).log.drop w.log.length) =
              [Sample.getBlock] := by
    intro w hw hstate hclosed hlast
    obtain ⟨new, hlog, hprop⟩ := h _ _ w 1 _ _ hw (by decide +kernel) hstate hclosed hlast
      (by decide) (Sample.isRequest_splitRequest Sample.getBlock [])
    rw [if_pos (by decide)] at hprop
    rw [hlog, List.drop_left]
    exact hprop.1
  revert hall
  decide +kernel

end Two
