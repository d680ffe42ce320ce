import Two.Hpack.SelfContained
import Two.Http2.Reassembly

/-!
# Independence of earlier streams

What the frames of a new stream lead to should not depend on the streams before it. It does where
one of two flags is left over, and it can where the decoder reads behind a header block that is cut
off inside an integer, in what earlier streams left behind in the stream buffer, or behind a string
that fills its buffer. A block that the decoder does not read beyond leads to the same on both
connections.

## Main definitions

* `ledTo`: the request or the error that the frames of a stream lead to
* `Alike`: two connections with the same HPACK table, settings, windows and streams opened
* `Independent`: the frames of a new stream lead to the same on both connections
* `SameLeftovers`: what earlier streams left behind makes no difference

## Main results

* `ledTo_eq`: the automaton decides what the frames lead to
* `independent_iff`: independence holds exactly where the leftovers make no difference
-/

namespace Two

open Program Trace

/-! ## What the frames lead to -/

/-- The first verdict of a trace. -/
def firstVerdict (log : List Entry) : Option Verdict := log.findSome? Entry.verdict?

/-- What the frames lead to: the request passed to `http_handle_request`, or the error. -/
def ledTo (server : Server) (frames : List (FrameHeader × Bytes)) (w : World) : Option Verdict :=
  firstVerdict ((finalState (receiveFrames server frames w)).log.drop w.log.length)

/-- What an ending leads to. -/
def Ending.toVerdict (server : Server) (w : World) : Ending → Verdict
  | .verdict v => v
  | .complete block => blockVerdict server w block

section Verdict

variable {server : Server} {w₀ w : World}

theorem firstVerdict_plain {new log : List Entry} (h : ∀ e ∈ new, e.plain) :
    firstVerdict (new ++ log) = firstVerdict log := by
  unfold firstVerdict
  rw [List.findSome?_append, List.findSome?_eq_none_iff.mpr fun e he => (h e he).1]
  rfl

theorem Settled.verdict_append {v : Verdict} {log : List Entry} (h : Settled v log)
    (more : List Entry) : firstVerdict (log ++ more) = some v := by
  obtain ⟨⟨e, rest, rfl, he⟩, -⟩ := h
  simp [firstVerdict, he]

/-- An ending shows its verdict, whatever follows. -/
theorem Ending.Shows.verdict_append {e : Ending} {log : List Entry} (h : e.Shows server w₀ log)
    (more : List Entry) : firstVerdict (log ++ more) = some (e.toVerdict server w₀) := by
  cases e with
  | verdict v => exact Settled.verdict_append h more
  | complete block =>
    obtain ⟨s, rest, rfl, -, -, -, hset⟩ := h
    exact hset.verdict_append more

/-- The verdict on the trace since `w₀`. -/
theorem Concludes.verdict_eq {out : Option (Ending × List (FrameHeader × Bytes))}
    (h : Concludes server w₀ out w) :
    firstVerdict (w.log.drop w₀.log.length) = out.map fun o => o.1.toVerdict server w₀ := by
  cases out with
  | none =>
    obtain ⟨new, hlog, hnew⟩ := h
    rw [hlog, List.drop_left, ← List.append_nil new, firstVerdict_plain hnew]
    rfl
  | some o =>
    obtain ⟨e, rest⟩ := o
    obtain ⟨⟨w₁, ⟨new, shown, hlog, hnew, hshow⟩, more, hmore⟩, -⟩ := h
    rw [← hmore, hlog, List.append_assoc, List.append_assoc, List.drop_left, firstVerdict_plain hnew]
    exact hshow.verdict_append more

/-- **The automaton decides** what the frames of a new stream lead to. -/
theorem ledTo_eq {id : ℕ} {frames : List (FrameHeader × Bytes)}
    (hstate : w.ctx.state = .ready) (hclosed : w.ctx.stream.state = .closed)
    (hlast : w.ctx.lastOpenedStreamId < id)
    (hframes : ∀ f ∈ frames, f.1.streamId = id ∧ f.1.type.ofRequest) :
    ledTo server frames w =
      (reception w.ctx.flags.waitingEndHeaders w.ctx.flags.waitingTrailers frames).map fun o =>
        o.1.toVerdict server w :=
  (receiveFrames_reception server hstate hclosed hlast hframes).verdict_eq

end Verdict

/-! ## What is claimed, and when it holds -/

/-- The same HPACK table, in all its fields and all bytes of its buffer. -/
structure SameTable (t t' : Hpack.DynamicTable) : Prop where
  maxSize : t.maxSize = t'.maxSize
  first : t.first = t'.first
  next : t.next = t'.next
  actualSize : t.actualSize = t'.actualSize
  nEntries : t.nEntries = t'.nEntries
  limit : t.settingsMaxTableSize = t'.settingsMaxTableSize
  buffer : ∀ i < http2HeaderTableSize, t.buffer i = t'.buffer i

/-- Connections that agree on everything the claim asks for. -/
structure Alike (c c' : Context) : Prop where
  table : SameTable c.hpackDynamicTable c'.hpackDynamicTable
  settings : c.settings = c'.settings
  window : c.windowSize = c'.windowSize
  streamWindow : c.stream.windowSize = c'.stream.windowSize
  last : c.lastOpenedStreamId = c'.lastOpenedStreamId

/-- A connection that is ready, and whose current stream is idle or closed. -/
structure Idle (c : Context) : Prop where
  ready : c.state = .ready
  closed : c.stream.state = .closed

/-- HEADERS, CONTINUATION and DATA frames of a new stream, each with its payload in the read
buffer. -/
structure NewStream (c : Context) (id : ℕ) (frames : List (FrameHeader × Bytes)) : Prop where
  new : c.lastOpenedStreamId < id
  valid : id < 2 ^ 31
  ofStream : ∀ f ∈ frames, f.1.streamId = id ∧ f.1.type.ofRequest
  whole : ∀ f ∈ frames,
    f.1.length ≤ f.2.length ∧ http2FrameHeaderSize + f.2.length ≤ http2SockReadSize

/-- The same frames of a new stream lead to the same request or the same error. -/
def Independent (server : Server) (w w' : World) : Prop :=
  ∀ id frames, NewStream w.ctx id frames → ledTo server frames w = ledTo server frames w'

/-- What earlier streams left behind makes no difference: the flag for END_HEADERS is the same;
where it is not set, the flag for trailers is the same; and where this is not set either, the header
blocks that are not self-contained lead to the same with what is left in the two stream buffers. -/
def SameLeftovers (server : Server) (w w' : World) : Prop :=
  w.ctx.flags.waitingEndHeaders = w'.ctx.flags.waitingEndHeaders ∧
    (w.ctx.flags.waitingEndHeaders = false →
      w.ctx.flags.waitingTrailers = w'.ctx.flags.waitingTrailers ∧
        (w.ctx.flags.waitingTrailers = false → ∀ block : Bytes, 0 < block.length →
          block.length ≤ http2StreamBufSize → ¬ Hpack.SelfContained w.ctx.hpackDynamicTable block →
            blockVerdict server w block = blockVerdict server w' block))

/-! ## Blocks that are self-contained -/

/-- The entries of a table lie in the bytes of its buffer that are compared. -/
theorem SameTable.abstracts {t t' : Hpack.DynamicTable} (hs : SameTable t t')
    {a : Hpack.AbstractTable} (ht : Hpack.Abstracts http2HeaderTableSize t a) :
    Hpack.Abstracts http2HeaderTableSize t' a := by
  obtain ⟨hmax, hfirst, hnext, hactual, hentries, hlimit, hbuffer⟩ := hs
  obtain ⟨hrep, hmaxSize, hlim, hcap, hlimcap⟩ := ht
  refine ⟨⟨?_, ?_, ?_, ?_, hrep.nulFree, ?_, ?_, ?_, fun hne j x hx => ?_⟩, ?_, ?_, hcap, hlimcap⟩
  · exact hmax ▸ hrep.maxSize_lt
  · exact hlimit ▸ hrep.limit_lt
  · exact hmax ▸ hfirst ▸ hrep.first_lt
  · exact hmax ▸ hfirst ▸ hnext ▸ hrep.next_eq
  · exact hactual ▸ hrep.actualSize
  · exact hmax ▸ hrep.size_le
  · exact hentries ▸ hrep.nEntries
  · -- with an entry the ring is not empty
    have hpos : 0 < t.maxSize := by
      obtain ⟨e, D, hD⟩ := List.exists_cons_of_ne_nil hne
      have hle := hrep.size_le
      rw [hD, Hpack.tableSize_cons, Hpack.entrySize] at hle
      omega
    have hlt : (t.first + j) % t.maxSize < http2HeaderTableSize :=
      (Nat.mod_lt _ hpos).trans_le (hmaxSize ▸ hcap)
    rw [← hmax, ← hfirst, ← hbuffer _ hlt]
    exact hrep.lies hne j x hx
  · exact hmax ▸ hmaxSize
  · exact hlimit ▸ hlim

/-- The verdict is decided by the result of the decoder and the list of headers. -/
theorem requestVerdict_congr {behind behind' : Hpack.Behind} {t t' : Hpack.DynamicTable}
    {buf buf' : Bytes} {size : ℕ}
    (hrc : (Hpack.decode behind t buf size .reset).rc =
      (Hpack.decode behind' t' buf' size .reset).rc)
    (hheaders : (Hpack.decode behind t buf size .reset).headers =
      (Hpack.decode behind' t' buf' size .reset).headers) :
    requestVerdict behind t buf size = requestVerdict behind' t' buf' size := by
  simp only [requestVerdict, hrc, hheaders]

/-- A self-contained block leads to the same wherever the tables are the same. -/
theorem blockVerdict_of_selfContained {server : Server} {w w' : World} {block : Bytes}
    (hs : SameTable w.ctx.hpackDynamicTable w'.ctx.hpackDynamicTable)
    (hc : Hpack.SelfContained w.ctx.hpackDynamicTable block) :
    blockVerdict server w block = blockVerdict server w' block := by
  obtain ⟨a, ht⟩ := hc.table
  obtain ⟨hrc, hheaders⟩ := hc.decode_eq ⟨a, ht, hs.abstracts ht⟩
  exact requestVerdict_congr hrc hheaders

/-! ## The blocks that can be complete -/

/-- A header block that can be complete: empty with the flag for trailers, and else neither empty nor
too long. -/
def Bounded (trailers : Bool) (block : Bytes) : Prop :=
  if trailers then block = [] else 0 < block.length ∧ block.length ≤ http2StreamBufSize

/-- A reception whose header block can be complete. -/
def Reception.Filled (trailers : Bool) (r : Reception) : Prop :=
  Bounded trailers r.block ∧ (trailers = true → r.trailers = true)

/-- A reception to which a fragment may be appended. -/
def Reception.Fillable (trailers : Bool) (r : Reception) : Prop :=
  if trailers then r.trailers = true ∧ r.block = []
  else r.block.length ≤ http2StreamBufSize ∧ (r.trailers = true → 0 < r.block.length)

/-- A frame leads to a reception whose header block can be complete, or completes such a block. -/
def FilledBy (trailers : Bool) (res : Except Ending Reception) : Prop :=
  match res with
  | .ok r => r.Filled trailers
  | .error (.complete block) => Bounded trailers block
  | .error (.verdict _) => True

section Bounded

variable {trailers : Bool} {r : Reception}

theorem Reception.Filled.fillable (h : r.Filled trailers) : r.Fillable trailers := by
  unfold Reception.Filled Bounded at h
  unfold Reception.Fillable
  cases trailers with
  | true => exact ⟨h.2 rfl, h.1⟩
  | false => exact ⟨h.1.2, fun _ => h.1.1⟩

theorem Reception.Filled.next (h : r.Filled trailers) : FilledBy trailers r.next := by
  unfold Reception.next
  split
  · exact h.1
  · exact h

theorem Reception.Fillable.append (h : r.Fillable trailers) (header : FrameHeader) (data : Bytes)
    (size : ℤ) : FilledBy trailers (r.append header data size) := by
  unfold Reception.append
  dsimp only
  split
  · trivial
  · rename_i hpos
    refine Reception.Filled.next ?_
    unfold Reception.Fillable at h
    unfold Reception.Filled Bounded Reception.copy
    cases trailers with
    | true => simp [h.1, h.2]
    | false =>
      simp only [Bool.false_eq_true, if_false, false_implies, and_true] at h ⊢
      split
      · rename_i ht
        exact ⟨h.2 ht, h.1⟩
      · rw [List.length_append, length_slice]
        omega

theorem Reception.Fillable.headers (h : r.Fillable trailers) (header : FrameHeader)
    (payload : Bytes) : FilledBy trailers (r.headers header payload) := by
  unfold Reception.headers
  dsimp only
  split
  · trivial
  split
  · exact h.append _ _ _
  · exact h.append _ _ _

/-- A frame of the stream. -/
theorem Reception.Filled.frame (h : r.Filled trailers) (f : FrameHeader × Bytes) :
    FilledBy trailers (r.frame f) := by
  unfold Reception.frame Reception.trailer Reception.continuation Reception.data
  split
  · trivial
  split
  · split
    · trivial
    · -- the flag for trailers is set only after a fragment was collected
      have htrailers : Reception.Filled trailers { r with trailers := true, waiting := true } :=
        ⟨h.1, fun _ => rfl⟩
      exact htrailers.fillable.headers _ _
  · split
    · trivial
    · exact h.fillable.append _ _ _
  · split
    · trivial
    · have hfin : Reception.Filled trailers
          { r with fin := r.fin || f.1.has frameFlagsEndStream } := h
      exact hfin.next
  · exact h

/-- The checks of the length complete no block. -/
theorem FilledBy.taken {h : FrameHeader} {res res' : Except Ending Reception}
    (hfilled : FilledBy trailers res) (htaken : Reception.taken h res = some res') :
    FilledBy trailers res' := by
  rcases Reception.taken_of_some htaken with ⟨-, rfl⟩ | ⟨-, -, rfl⟩
  · exact hfilled
  · trivial

/-- The frames behind one of which `res` came. -/
theorem FilledBy.after {res : Except Ending Reception} (h : FilledBy trailers res)
    {frames rest : List (FrameHeader × Bytes)} {block : Bytes}
    (hrun : Reception.after frames (some res) = some (.complete block, rest)) :
    Bounded trailers block := by
  induction frames generalizing res with
  | nil =>
    cases res with
    | ok r => cases hrun
    | error e =>
      cases hrun
      exact h
  | cons f frames ih =>
    cases res with
    | ok r =>
      rw [Reception.after, Reception.run_cons] at hrun
      cases htaken : Reception.taken f.1 (r.frame f) with
      | none =>
        rw [htaken] at hrun
        cases hrun
      | some res' =>
        rw [htaken] at hrun
        exact ih ((Reception.Filled.frame h f).taken htaken) hrun
    | error e =>
      cases hrun
      exact h

/-- Every header block of a new stream that becomes complete. -/
theorem bounded_of_reception {frames rest : List (FrameHeader × Bytes)} {block : Bytes}
    {waiting : Bool} (h : reception waiting trailers frames = some (.complete block, rest)) :
    waiting = false ∧ Bounded trailers block := by
  cases frames with
  | nil => cases h
  | cons f frames =>
    have hfill : Reception.Fillable trailers ⟨[], trailers, true, false⟩ := by
      unfold Reception.Fillable
      cases trailers <;> simp
    have hopen : openReception waiting trailers f = .error (.error .protocolError) ∨
        waiting = false ∧ FilledBy trailers (openReception waiting trailers f) := by
      unfold openReception
      split
      · exact .inl rfl
      split
      · rename_i hc ht
        exact .inr ⟨by simpa [ht.1] using hc, hfill.headers _ _⟩
      · exact .inl rfl
    -- a block is opened only while none is waited for, and it starts empty
    rw [reception] at h
    cases htaken : Reception.taken f.1 (openReception waiting trailers f) with
    | none =>
      rw [htaken] at h
      cases h
    | some res =>
      rw [htaken] at h
      rcases hopen with herr | ⟨hwait, hfilled⟩
      · rw [herr] at htaken
        rcases Reception.taken_of_some htaken with ⟨-, rfl⟩ | ⟨-, -, rfl⟩
        · cases h
        · cases h
      · exact ⟨hwait, (hfilled.taken htaken).after h⟩

end Bounded

/-! ## Frames that tell two connections apart -/

/-- Every header block that fits in the stream buffer comes in one or two fragments. -/
theorem exists_request (id : ℕ) {block : Bytes} (hpos : 0 < block.length)
    (hle : block.length ≤ http2StreamBufSize) :
    ∃ fragments frames, IsRequest id fragments frames ∧ fragments.flatten = block ∧
      [] ∉ fragments ∧ fragments ≠ [] ∧ ∀ f ∈ frames,
        f.1.length ≤ f.2.length ∧ http2FrameHeaderSize + f.2.length ≤ http2SockReadSize := by
  have hsize : http2StreamBufSize = 512 ∧ http2SockReadSize = 512 ∧ http2FrameHeaderSize = 9 :=
    ⟨rfl, rfl, rfl⟩
  by_cases hshort : block.length ≤ 256
  · refine ⟨[block], [(⟨block.length, .headers, 5, id⟩, block)], ?_, by simp, ?_, by simp, ?_⟩
    · refine ⟨block, [], true, _, [], [], rfl, rfl, ?_, rfl, .inl ⟨rfl, rfl⟩⟩
      exact isHeaders_of_flags 5 (by decide) (by decide) id block
    · simpa using (List.ne_nil_of_length_pos hpos).symm
    · intro f hf
      obtain rfl := List.mem_singleton.mp hf
      refine ⟨le_rfl, ?_⟩
      dsimp only
      omega
  · refine ⟨[block.take 256, block.drop 256], _, isRequest_two id _ _, by simp, ?_, by simp, ?_⟩
    · have hfirst : block.take 256 ≠ [] := by
        refine List.ne_nil_of_length_pos ?_
        rw [List.length_take]
        omega
      have hsecond : block.drop 256 ≠ [] := by
        refine List.ne_nil_of_length_pos ?_
        rw [List.length_drop]
        omega
      simp only [List.mem_cons, List.not_mem_nil, or_false, not_or]
      exact ⟨hfirst.symm, hsecond.symm⟩
    · intro f hf
      simp only [List.mem_cons, List.not_mem_nil, or_false] at hf
      rcases hf with rfl | rfl
      · refine ⟨le_rfl, ?_⟩
        rw [List.length_take]
        omega
      · refine ⟨le_rfl, ?_⟩
        rw [List.length_drop]
        omega

/-- The frames of a request whose header block is `block`, on the last stream there can be. -/
theorem exists_frames {block : Bytes} (hpos : 0 < block.length)
    (hle : block.length ≤ http2StreamBufSize) {c : Context}
    (hlast : c.lastOpenedStreamId < 2 ^ 31 - 1) :
    ∃ frames, NewStream c (2 ^ 31 - 1) frames ∧
      ∀ trailers, ∃ rest, reception false trailers frames =
        some (.complete (if trailers then [] else block), rest) := by
  obtain ⟨fragments, frames, hreq, rfl, hempty, hne, hwhole⟩ := exists_request (2 ^ 31 - 1) hpos hle
  refine ⟨frames, ⟨hlast, by decide, hreq.ofRequest, hwhole⟩, fun trailers => ⟨[], ?_⟩⟩
  have hfits : ∀ f ∈ frames.take frames.length, f.1.Fits := by
    intro f hf
    have := hwhole f (List.mem_of_mem_take hf)
    unfold FrameHeader.Fits
    omega
  have hends := @ends_reception _ trailers _ _ _ (by decide) hreq hfits
  rw [List.take_length, List.take_of_length_le hreq.length_le] at hends
  cases trailers with
  | true =>
    rw [collect_trailers (by decide), if_neg hempty] at hends
    exact hends.trans (if_pos le_rfl)
  | false =>
    have hlt := flatten_dropLast_lt hempty hne
    rw [collect_eq (by decide) hne, if_neg, List.nil_append, List.take_of_length_le hle] at hends
    · exact hends.trans (if_pos le_rfl)
    · simp only [List.length_nil, Nat.zero_add, not_or]
      exact ⟨hempty, by omega⟩

/-- An empty header block has no pseudo-headers. -/
theorem blockVerdict_nil (server : Server) (w : World) :
    blockVerdict server w [] = .error .protocolError := by
  have hreset : validatePseudoheaders .reset = false := by decide +kernel
  have hdecode : Hpack.decode (server.behind w.loop.calls) w.ctx.hpackDynamicTable
      ([] ++ w.ctx.stream.buf.drop 0) 0 .reset = ⟨0, w.ctx.hpackDynamicTable, .reset, []⟩ := rfl
  unfold blockVerdict requestVerdict
  rw [List.length_nil, hdecode]
  simp [hreset, Hpack.compressionError, Hpack.memoryError, Hpack.internalError]

/-- The index zero is an error. -/
theorem blockVerdict_zero (server : Server) (w : World) :
    blockVerdict server w [0x80] = .error .compressionError := by
  have hparse : Hpack.parseEncodedHeader ([0x80] ++ w.ctx.stream.buf.drop 1) 1 =
      some ({ preamble := .indexedHeaderField, index := 0 }, 1) := by
    have hpreamble : Hpack.getPreamble 0x80 = .indexedHeaderField := by decide
    have hindex : ∀ rest, Hpack.decodeInteger (0x80 :: rest) 7 = 0 := by
      simp [Hpack.decodeInteger, Hpack.decodeIntegerUpTo]
    simp [Hpack.parseEncodedHeader, hpreamble, Hpack.findPrefixSize, hindex,
      Hpack.encodedIntegerSize, Hpack.maxPrefix]
  have hdecode : Hpack.decode (server.behind w.loop.calls) w.ctx.hpackDynamicTable
      ([0x80] ++ w.ctx.stream.buf.drop 1) 1 .reset =
        ⟨Hpack.compressionError, w.ctx.hpackDynamicTable, .reset, []⟩ := by
    rw [Hpack.decode, Hpack.decodeLoop, if_pos (by decide), List.drop_zero, Nat.sub_zero, hparse]
    rfl
  unfold blockVerdict requestVerdict
  rw [List.length_singleton, hdecode]
  rfl

/-- A HEADERS frame without a header block. -/
def emptyHeaders : List (FrameHeader × Bytes) := [(⟨0, .headers, 5, 2 ^ 31 - 1⟩, [])]

theorem newStream_emptyHeaders {c : Context} (hlast : c.lastOpenedStreamId < 2 ^ 31 - 1) :
    NewStream c (2 ^ 31 - 1) emptyHeaders := by
  refine ⟨hlast, by decide, ?_, ?_⟩
  · intro f hf
    obtain rfl := List.mem_singleton.mp hf
    exact ⟨rfl, .inl rfl⟩
  · intro f hf
    obtain rfl := List.mem_singleton.mp hf
    exact ⟨le_rfl, by decide⟩

theorem reception_emptyHeaders (waiting trailers : Bool) :
    reception waiting trailers emptyHeaders =
      some (.error (if waiting then .protocolError else .flowControlError), []) := by
  cases waiting with
  | true => rfl
  | false => rfl

/-! ## The claim -/

section Claim

variable {server : Server} {w w' : World}

/-- Where a CONTINUATION frame is expected, the flag for trailers is not looked at. -/
theorem reception_waiting (trailers trailers' : Bool) (frames : List (FrameHeader × Bytes)) :
    reception true trailers frames = reception true trailers' frames := by
  cases frames with
  | nil => rfl
  | cons f rest =>
    have hopen (trailers : Bool) :
        openReception true trailers f = .error (.error .protocolError) := by
      unfold openReception
      split
      · rfl
      · rename_i hc
        rw [if_neg fun ht => hc ⟨rfl, by simp [ht.1]⟩]
    rw [reception, reception, hopen, hopen]

/-- What the frames of a new stream lead to on two connections. -/
theorem independent_def (hidle : Idle w.ctx) (hidle' : Idle w'.ctx) (hsame : Alike w.ctx w'.ctx) :
    Independent server w w' ↔ ∀ id frames, NewStream w.ctx id frames →
      (reception w.ctx.flags.waitingEndHeaders w.ctx.flags.waitingTrailers frames).map
          (fun o => o.1.toVerdict server w) =
        (reception w'.ctx.flags.waitingEndHeaders w'.ctx.flags.waitingTrailers frames).map
          fun o => o.1.toVerdict server w' := by
  unfold Independent
  refine forall_congr' fun id => forall_congr' fun frames => forall_congr' fun hnew => ?_
  rw [ledTo_eq hidle.ready hidle.closed hnew.new hnew.ofStream,
    ledTo_eq hidle'.ready hidle'.closed (hsame.last ▸ hnew.new) hnew.ofStream]

/-- Where the leftovers make no difference, neither do the verdicts. -/
theorem SameLeftovers.verdict_eq (h : SameLeftovers server w w')
    (hsame : SameTable w.ctx.hpackDynamicTable w'.ctx.hpackDynamicTable)
    (frames : List (FrameHeader × Bytes)) :
    (reception w.ctx.flags.waitingEndHeaders w.ctx.flags.waitingTrailers frames).map
        (fun o => o.1.toVerdict server w) =
      (reception w'.ctx.flags.waitingEndHeaders w'.ctx.flags.waitingTrailers frames).map
        fun o => o.1.toVerdict server w' := by
  obtain ⟨hwait, hrest⟩ := h
  rw [← hwait]
  cases hw : w.ctx.flags.waitingEndHeaders with
  | true =>
    rw [reception_waiting w'.ctx.flags.waitingTrailers w.ctx.flags.waitingTrailers]
    cases hout : reception true w.ctx.flags.waitingTrailers frames with
    | none => rfl
    | some o =>
      obtain ⟨e, rest⟩ := o
      cases e with
      | verdict v => rfl
      | complete block => cases (bounded_of_reception hout).1
  | false =>
    obtain ⟨htrailers, hblocks⟩ := hrest hw
    rw [← htrailers]
    cases hout : reception false w.ctx.flags.waitingTrailers frames with
    | none => rfl
    | some o =>
      obtain ⟨e, rest⟩ := o
      cases e with
      | verdict v => rfl
      | complete block =>
        have hbounded := (bounded_of_reception hout).2
        unfold Bounded at hbounded
        cases ht : w.ctx.flags.waitingTrailers with
        | true =>
          obtain rfl : block = [] := by simpa [ht] using hbounded
          simp [Ending.toVerdict, blockVerdict_nil]
        | false =>
          obtain ⟨hpos, hle⟩ : 0 < block.length ∧ block.length ≤ http2StreamBufSize := by
            simpa [ht] using hbounded
          by_cases hc : Hpack.SelfContained w.ctx.hpackDynamicTable block
          · simp [Ending.toVerdict, blockVerdict_of_selfContained hsame hc]
          · simp [Ending.toVerdict, hblocks ht block hpos hle hc]

/-- **Independence of earlier streams.** The frames of a new stream lead to the same on two
connections exactly where no new stream is possible, or where what earlier streams left behind makes
no difference. -/
theorem independent_iff (hidle : Idle w.ctx) (hidle' : Idle w'.ctx) (hsame : Alike w.ctx w'.ctx) :
    Independent server w w' ↔
      2 ^ 31 - 1 ≤ w.ctx.lastOpenedStreamId ∨ SameLeftovers server w w' := by
  rw [independent_def hidle hidle' hsame]
  constructor
  · intro h
    by_cases hlast : 2 ^ 31 - 1 ≤ w.ctx.lastOpenedStreamId
    · exact .inl hlast
    · right
      have hlast := not_le.mp hlast
      have hwait : w.ctx.flags.waitingEndHeaders = w'.ctx.flags.waitingEndHeaders := by
        have hempty := h _ _ (newStream_emptyHeaders hlast)
        simp only [reception_emptyHeaders, Option.map_some, Ending.error, Ending.toVerdict,
          Option.some.injEq, Verdict.error.injEq] at hempty
        revert hempty
        cases w.ctx.flags.waitingEndHeaders <;> cases w'.ctx.flags.waitingEndHeaders <;> simp
      refine ⟨hwait, fun hw => ?_⟩
      -- a complete header block on both connections
      have hblock : ∀ block : Bytes, 0 < block.length → block.length ≤ http2StreamBufSize →
          blockVerdict server w (if w.ctx.flags.waitingTrailers then [] else block) =
            blockVerdict server w' (if w'.ctx.flags.waitingTrailers then [] else block) := by
        intro block hpos hle
        obtain ⟨frames, hnew, hcomplete⟩ := exists_frames hpos hle hlast
        have hboth := h _ _ hnew
        obtain ⟨rest, hrest⟩ := hcomplete w.ctx.flags.waitingTrailers
        obtain ⟨rest', hrest'⟩ := hcomplete w'.ctx.flags.waitingTrailers
        rw [← hwait, hw, hrest, hrest'] at hboth
        simpa [Ending.toVerdict] using hboth
      have htrailers : w.ctx.flags.waitingTrailers = w'.ctx.flags.waitingTrailers := by
        have hzero := hblock [0x80] (by decide) (by decide)
        revert hzero
        cases w.ctx.flags.waitingTrailers <;> cases w'.ctx.flags.waitingTrailers <;>
          simp [blockVerdict_nil, blockVerdict_zero]
      refine ⟨htrailers, fun ht block hpos hle _ => ?_⟩
      simpa [← htrailers, ht] using hblock block hpos hle
  · rintro (hlast | hsame') id frames hnew
    · have := hnew.new
      have := hnew.valid
      omega
    · exact hsame'.verdict_eq hsame.table frames

end Claim

/-! ## Two connections -/

/-- The bytes of the buffer, row by row: the evaluation nests less deeply. -/
theorem forall_lt_tableSize {P : ℕ → Prop} :
    (∀ a < 64, ∀ b < 64, P (64 * a + b)) ↔ ∀ i < http2HeaderTableSize, P i := by
  have hsize : http2HeaderTableSize = 4096 := rfl
  constructor
  · intro h i hi
    have hrow := h (i / 64) (by omega) (i % 64) (by omega)
    rwa [Nat.div_add_mod] at hrow
  · intro h a ha b hb
    exact h _ (by omega)

instance (t t' : Hpack.DynamicTable) : Decidable (SameTable t t') :=
  decidable_of_iff (t.maxSize = t'.maxSize ∧ t.first = t'.first ∧ t.next = t'.next ∧
      t.actualSize = t'.actualSize ∧ t.nEntries = t'.nEntries ∧
        t.settingsMaxTableSize = t'.settingsMaxTableSize ∧
          ∀ a < 64, ∀ b < 64, t.buffer (64 * a + b) = t'.buffer (64 * a + b))
    ⟨fun ⟨h1, h2, h3, h4, h5, h6, h7⟩ => ⟨h1, h2, h3, h4, h5, h6, forall_lt_tableSize.mp h7⟩,
      fun ⟨h1, h2, h3, h4, h5, h6, h7⟩ => ⟨h1, h2, h3, h4, h5, h6, forall_lt_tableSize.mpr h7⟩⟩

instance (c c' : Context) : Decidable (Alike c c') :=
  decidable_of_iff (SameTable c.hpackDynamicTable c'.hpackDynamicTable ∧
      c.settings = c'.settings ∧ c.windowSize = c'.windowSize ∧
        c.stream.windowSize = c'.stream.windowSize ∧
          c.lastOpenedStreamId = c'.lastOpenedStreamId)
    ⟨fun ⟨h1, h2, h3, h4, h5⟩ => ⟨h1, h2, h3, h4, h5⟩,
      fun ⟨h1, h2, h3, h4, h5⟩ => ⟨h1, h2, h3, h4, h5⟩⟩

instance (c : Context) : Decidable (Idle c) :=
  decidable_of_iff (c.state = .ready ∧ c.stream.state = .closed)
    ⟨fun ⟨h1, h2⟩ => ⟨h1, h2⟩, fun ⟨h1, h2⟩ => ⟨h1, h2⟩⟩

namespace Sample

open EventLoop (Action)

/-- A handshake that leaves no room in the HPACK table, and a request for `/` whose stream is ended
by the frame `last`. -/
def endedBy (last : Bytes) : List Action :=
  handshake (setting 1 [0, 0, 0, 0]) ++ receive (headers 4 1 getBlock ++ last) ++
    [.send 0 512, .send 0 512]

/-- The same handshake, and a request for `/` in two fragments. -/
def inFragments : List Action :=
  handshake (setting 1 [0, 0, 0, 0]) ++ receive (headers 1 1 [0x82] ++ frame 9 4 1 [0x86, 0x84]) ++
    [.send 0 512, .send 0 512]

/-- The header of a request for `/` on stream 3. -/
def nextRequest : List (FrameHeader × Bytes) := [(⟨3, .headers, 5, 3⟩, getBlock)]

/-- The headers of a request for `/`. -/
def getRequest : HeaderList where
  buffer := HeaderList.records [(ascii ":method", ascii "GET"), (ascii ":scheme", ascii "http"),
    (ascii ":path", ascii "/")]
  count := 3

theorem newStream_nextRequest {c : Context} (hlast : c.lastOpenedStreamId < 3) :
    NewStream c 3 nextRequest := by
  refine ⟨hlast, by decide, ?_, ?_⟩
  · intro f hf
    obtain rfl := List.mem_singleton.mp hf
    exact ⟨rfl, .inl rfl⟩
  · intro f hf
    obtain rfl := List.mem_singleton.mp hf
    decide

/-- A table without room and without entries. -/
theorem sameEntries_of_empty {t t' : Hpack.DynamicTable} (hs : SameTable t t')
    (ht : t.maxSize = 0 ∧ t.first = 0 ∧ t.next = 0 ∧ t.actualSize = 0 ∧ t.nEntries = 0 ∧
      t.settingsMaxTableSize = 0) : Hpack.SameEntries t t' := by
  obtain ⟨hmax, hfirst, hnext, hactual, hentries, hlimit⟩ := ht
  have habs : Hpack.Abstracts http2HeaderTableSize t ⟨0, 0, []⟩ := by
    refine ⟨⟨by omega, by omega, .inr ⟨hmax, hfirst⟩, ?_, by simp, hactual, by simp, hentries, ?_⟩,
      hmax, hlimit, by decide, by decide⟩
    · rw [hnext, hfirst, hmax]
      rfl
    · simp
  exact ⟨_, habs, hs.abstracts habs⟩

end Sample

/-- A request whose stream was ended by a DATA frame, and one in two fragments: the next request
passes on both connections, and every header block leads to the same. -/
theorem independent_iff_fragments :
    ∃ w ∈ (EventLoop.run (Sample.server 2) (Sample.endedBy (Sample.data 1 1))).worlds,
      ∃ w' ∈ (EventLoop.run (Sample.server 2) Sample.inFragments).worlds,
        w.ctx.flags.waitingTrailers = false ∧ Independent (Sample.server 2) w w' ∧
          ledTo (Sample.server 2) Sample.nextRequest w = some (.request Sample.getRequest) ∧
          ledTo (Sample.server 2) Sample.nextRequest w' = some (.request Sample.getRequest) := by
  have hex : ∃ w ∈ (EventLoop.run (Sample.server 2) (Sample.endedBy (Sample.data 1 1))).worlds,
      ∃ w' ∈ (EventLoop.run (Sample.server 2) Sample.inFragments).worlds,
        (Idle w.ctx ∧ Idle w'.ctx ∧ Alike w.ctx w'.ctx) ∧
          (w.ctx.flags = w'.ctx.flags ∧ w.ctx.flags.waitingTrailers = false ∧
            w.ctx.stream.buf = w'.ctx.stream.buf ∧ w.ctx.lastOpenedStreamId < 3) ∧
          (let t := w.ctx.hpackDynamicTable
           t.maxSize = 0 ∧ t.first = 0 ∧ t.next = 0 ∧ t.actualSize = 0 ∧ t.nEntries = 0 ∧
            t.settingsMaxTableSize = 0) ∧
          ledTo (Sample.server 2) Sample.nextRequest w = some (.request Sample.getRequest) := by
    decide +kernel
  obtain ⟨w, hw, w', hw', ⟨hidle, hidle', hsame⟩, ⟨hflags, ht, hbuf, hlast⟩, htable, hled⟩ := hex
  have hleft : SameLeftovers (Sample.server 2) w w' := by
    refine ⟨by rw [hflags], fun _ => ⟨by rw [hflags], fun _ block _ _ _ => ?_⟩⟩
    -- the stream buffers are the same, and nothing lies behind the buffers of the decoder
    have hdecode := (Sample.sameEntries_of_empty hsame.table htable).decode
      Hpack.shortBehind_zeroBehind (block ++ w.ctx.stream.buf.drop block.length) block.length
    rw [blockVerdict, blockVerdict, ← hbuf]
    exact requestVerdict_congr hdecode.rc hdecode.headers
  have hind := (independent_iff hidle hidle' hsame).mpr (.inr hleft)
  exact ⟨w, hw, w', hw', ht, hind, hled,
    (hind 3 _ (Sample.newStream_nextRequest hlast)).symm.trans hled⟩

/-- The flag for trailers is left over from the first stream of one connection: the same request is
an error there. -/
theorem not_independent :
    ¬ ∀ (server : Server) (actions actions' : List EventLoop.Action) (w w' : World),
      w ∈ (EventLoop.run server actions).worlds → w' ∈ (EventLoop.run server actions').worlds →
        (EventLoop.run server actions).aborted = none →
          (EventLoop.run server actions').aborted = none → Idle w.ctx → Idle w'.ctx →
            Alike w.ctx w'.ctx → Independent server w w' := by
  intro h
  have hall : ∀ w ∈ (EventLoop.run (Sample.server 2)
      (Sample.endedBy (Sample.headers 5 1 [0x82]))).worlds,
      ∀ w' ∈ (EventLoop.run (Sample.server 2) (Sample.endedBy (Sample.data 1 1))).worlds,
        Idle w.ctx → Idle w'.ctx → Alike w.ctx w'.ctx → w.ctx.lastOpenedStreamId < 3 →
          ledTo (Sample.server 2) Sample.nextRequest w =
            ledTo (Sample.server 2) Sample.nextRequest w' := by
    intro w hw w' hw' hidle hidle' hsame hlast
    exact h _ _ _ w w' hw hw' (by decide +kernel) (by decide +kernel) hidle hidle' hsame 3 _
      (Sample.newStream_nextRequest hlast)
  revert hall
  decide +kernel

end Two
