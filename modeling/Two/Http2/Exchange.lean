import Two.Http2.Answering
import Two.Http2.Segmentation

/-!
# Exchanges

One exchange on a connection that is at rest: the bytes of a request arrive, in reads of any size,
and the bytes of the response leave, in writes of any size, while the other connections use the
pools. The frames of the request are collected one after the other; the HEADERS frame of the
response is written when they are complete, and the DATA frame when that has been sent.

## Main definitions

* `Framed`, `Request`: the bytes of a request
* `Held`: what a socket holds
* `responseBytes`: the bytes of a response
* `Stage`: how far an exchange has come
* `Connection.Exchanging`, `Connection.wire`: the events of an exchange, and the bytes they send

## Main results

* `receivingLoop_collects`: the frames in the read buffer are collected
* `Stage.step`, `Stage.run`: the stages of an exchange
-/

namespace Two

open Program Hpack

/-! ## Requests -/

/-- The bytes of whole frames, each of which fits in the read buffer. -/
inductive Framed : List (FrameHeader × Bytes) → Bytes → Prop
  | nil : Framed [] []
  | cons {head payload rest : Bytes} {frames : List (FrameHeader × Bytes)} (hhead : head.length = 9)
    (hlen : payload.length = (frameParseHeader head).length)
    (hfit : 9 + payload.length ≤ http2SockReadSize) (hrest : Framed frames rest) :
    Framed ((frameParseHeader head, payload) :: frames) (head ++ payload ++ rest)

/-- A request for the stream `id`: a header block whose spelling the decoder supports, split over a
HEADERS frame and any number of CONTINUATION frames, and the bytes of these frames. -/
structure Request where
  id : ℕ
  block : SpelledBlock
  fragments : List Bytes
  frames : List (FrameHeader × Bytes)
  bytes : Bytes
  odd : id % 2 = 1
  fits : block.bytes.length ≤ http2StreamBufSize
  split : fragments.flatten = block.bytes
  nonempty : [] ∉ fragments
  isRequest : IsRequest id fragments frames
  framed : Framed frames bytes

/-! ## The socket -/

/-- What an open socket with the read event `i` and the write event `j` holds: the read callback,
bytes that were not consumed, bytes that were not sent, and the queue of write operations. -/
structure Held (i j : ℕ) (reader : ReadCb) (w : World) (unread unsent : Bytes)
    (queue : List WriteOp) : Prop where
  connected : w.sock.state = .connected
  read : w.sock.read = some ⟨i, ⟨unread, http2SockReadSize, false⟩, reader⟩
  write : w.sock.write = some ⟨j, ⟨unsent, http2SockWriteSize, false⟩, queue⟩

section Held

variable {i j : ℕ} {reader : ReadCb} {w w' : World} {unread unsent : Bytes} {queue : List WriteOp}

theorem Held.congr (h : Held i j reader w unread unsent queue) (hs : w'.sock = w.sock) :
    Held i j reader w' unread unsent queue :=
  ⟨by rw [hs]; exact h.connected, by rw [hs]; exact h.read, by rw [hs]; exact h.write⟩

theorem Held.still (h : Held i j reader w unread unsent queue) (hs : Still w w') :
    Held i j reader w' unread unsent queue := h.congr hs.sock

theorem Held.writable (h : Held i j reader w unread unsent queue) (hpool : 0 < w.loop.writes.length) :
    Writable w := by
  have hwrite := h.write
  exact ⟨h.connected, by rw [hwrite]; rfl, fun _ => List.ne_nil_of_length_pos hpool⟩

/-- A frame that fits in the write buffer is written as a whole. -/
theorem Held.written (h : Held i j reader w unread unsent queue) (f : Frame) (cb : WriteCb)
    (hfit : unsent.length + f.bytes.length ≤ http2SockWriteSize) :
    Held i j reader (w.written f cb) unread (unsent ++ f.bytes)
      (queue ++ [⟨w.loop.writes.headD 0, f.bytes.length, cb, f.stream?⟩]) ∧
    (w.written f cb).loop.writes = w.loop.writes.tail := by
  have hwrite := h.write
  have hlen := f.length_bytes
  have hroom : (⟨unsent, http2SockWriteSize, false⟩ : Fifo).room =
      http2SockWriteSize - unsent.length := rfl
  have hpushed : (⟨unsent, http2SockWriteSize, false⟩ : Fifo).pushed f.bytes = f.bytes.length := by
    rw [Fifo.pushed, hroom]
    omega
  have hpush : (⟨unsent, http2SockWriteSize, false⟩ : Fifo).push f.bytes =
      ⟨unsent ++ f.bytes, http2SockWriteSize, false⟩ := by
    rw [Fifo.push, hroom, List.take_of_length_le (by omega)]
  have heq : w.written f cb =
      { w.add (.send f) with
        loop.writes := w.loop.writes.tail
        sock.write := some ⟨j, ⟨unsent ++ f.bytes, http2SockWriteSize, false⟩,
          queue ++ [⟨w.loop.writes.headD 0, f.bytes.length, cb, f.stream?⟩]⟩ } := by
    simp only [World.written, hwrite, hpushed, hpush]
    rw [if_neg (by omega)]
  rw [heq]
  exact ⟨⟨h.connected, h.read, rfl⟩, rfl⟩

end Held

/-! ## The bytes received -/

section Collect

variable {server : Server} {c : Context} {w : World} {id : ℕ} {total future : Bytes}
  {frames : List (FrameHeader × Bytes)} {Q : ℕ → World → Prop} {E : Assertion → World → Prop}

/-- Until the request is complete, a frame is to come. -/
theorem Awaits.ne_nil (h : Awaits c id total frames w.ctx) : frames ≠ [] := by
  generalize w.ctx = ctx at h
  cases h with
  | start hreq =>
    obtain ⟨_, _, _, _, _, _, -, rfl, -⟩ := hreq
    exact List.cons_ne_nil _ _
  | block hne hconts =>
    obtain ⟨g, fs, rfl⟩ := List.exists_cons_of_ne_nil hne
    obtain ⟨_, _, rfl, -⟩ := hconts
    exact List.cons_ne_nil _ _
  | body => exact List.cons_ne_nil _ _

/-- **The frames in the read buffer are collected.** What `receiving` leaves is the beginning of a
frame, unless the request is complete. -/
theorem receivingLoop_collects {fuel n : ℕ} {unread : Bytes}
    (hawaits : Awaits c id total frames w.ctx) (hframed : Framed frames (unread ++ future))
    (hfuel : unread.length ≤ fuel) (hv : Vacant c) (hlast : c.lastOpenedStreamId < id)
    (hodd : id % 2 = 1) (hfit : total.length ≤ http2StreamBufSize)
    (hmore : ∀ w' k frames', Still w w' → k ≤ unread.length → Awaits c id total frames' w'.ctx →
      Framed frames' (unread.drop k ++ future) → Q (n + k) w')
    (hdone : ∀ w', Still w w' → future = [] → w'.ctx = c.collecting id total false true →
      wp (handleEndStream server) (fun rc w'' => rc = 0 ∧ Q (n + unread.length) w'') E w') :
    wp (receivingLoop server fuel n unread) Q E w := by
  generalize hall : unread ++ future = all at hframed
  induction hframed generalizing fuel n unread w with
  | nil => exact absurd rfl hawaits.ne_nil
  | @cons head payload rest frames hhead hlen hsize hrest ih =>
    have hbuf : http2SockReadSize = 512 := rfl
    have hparse : 9 ≤ unread.length → frameParseHeader unread = frameParseHeader head := by
      intro h9
      have htake : unread.take 9 = head := by
        rw [← @List.take_append_of_le_length _ unread future 9 h9, hall, List.append_assoc,
          List.take_left' hhead]
      rw [← htake, frameParseHeader_take le_rfl]
    rcases Nat.lt_or_ge unread.length (9 + payload.length) with hpart | hwhole
    · -- the rest of the frame is still to come
      have hleft : receivingLoop server fuel n unread w = .ok n w := by
        rcases Nat.lt_or_ge unread.length 9 with hshort | h9
        · exact receivingLoop_short hshort
        · apply receivingLoop_incomplete
          · rw [hparse h9]
            omega
          · rw [hparse h9]
            omega
      rw [wp, hleft]
      apply hmore w 0 _ (.refl w) (Nat.zero_le _) hawaits
      rw [List.drop_zero, hall]
      exact .cons hhead hlen hsize hrest
    · obtain ⟨more, rfl, rfl⟩ : ∃ more, unread = head ++ payload ++ more ∧ rest = more ++ future := by
        refine ⟨unread.drop (9 + payload.length), ?_, ?_⟩
        · have htake : unread.take (9 + payload.length) = head ++ payload := by
            rw [← @List.take_append_of_le_length _ unread future _ hwhole, hall, List.take_left' (by
              rw [List.length_append, hhead])]
          rw [← htake, List.take_append_drop]
        · have hdrop := congrArg (List.drop (9 + payload.length)) hall
          rw [List.drop_append_of_le_length hwhole, List.drop_left' (by
            rw [List.length_append, hhead])] at hdrop
          exact hdrop.symm
      obtain ⟨fuel, rfl⟩ : ∃ m, fuel = m + 1 := ⟨fuel - 1, by omega⟩
      have hdrop : (head ++ payload ++ more).drop (9 + payload.length) = more :=
        List.drop_left' (by rw [List.length_append, hhead])
      have hpayload : (head ++ payload ++ more).drop 9 = payload ++ more := by
        rw [List.append_assoc, List.drop_left' hhead]
      have hp := hparse (by omega)
      have hlength : (head ++ payload ++ more).length = 9 + payload.length + more.length := by
        simp only [List.length_append, hhead]
      rw [wp_congr (receivingLoop_whole (by rw [hp]; omega) (by rw [hp]; omega)), hp, hpayload,
        ← hlen, hdrop, wp_bind]
      refine Awaits.receiveFrame (f := (frameParseHeader head, payload)) hawaits hv hlast hodd hfit
        hlen more (fun w' hs ha => ?_) fun w' hs hnil hc => ?_
      · -- the loop goes on behind the frame
        rw [if_neg (lt_irrefl _)]
        refine ih ha (by omega) (fun w'' k frames' hs' hk ha' hf' => ?_)
          (fun w'' hs' hfut hc' => ?_) rfl
        · have hq := hmore w'' (9 + payload.length + k) frames' (hs.trans hs') (by omega) ha'
          rw [← List.drop_drop, hdrop] at hq
          have hsum : n + 9 + payload.length + k = n + (9 + payload.length + k) := by omega
          rw [hsum]
          exact hq hf'
        · have hq := hdone w'' (hs.trans hs') hfut hc'
          have hsum : n + (head ++ payload ++ more).length =
              n + 9 + payload.length + more.length := by omega
          rwa [hsum] at hq
      · -- the request is complete, and nothing is behind it
        subst hnil
        generalize hmf : more ++ future = rest at hrest
        cases hrest
        obtain ⟨rfl, rfl⟩ := List.append_eq_nil_iff.mp hmf
        refine (hdone w' hs rfl hc).mono (fun rc w'' hq => ⟨hq.1, ?_⟩) fun _ _ he => he
        have hend : receivingLoop server fuel (n + 9 + payload.length) [] w'' =
            .ok (n + 9 + payload.length) w'' := receivingLoop_short (by decide)
        rw [if_neg (lt_irrefl _), wp, hend]
        have hsum : n + (head ++ payload ++ []).length = n + 9 + payload.length := by
          rw [hlength, List.length_nil]
          omega
        rw [← hsum]
        exact hq.2

end Collect

/-! ## The bytes sent -/

section Send

variable {i j : ℕ} {reader : ReadCb} {w : World} {unread unsent : Bytes} {Q : Unit → World → Prop}
  {E : Assertion → World → Prop}

/-- Where no bytes are left to account for, the loop over the operations does nothing. -/
theorem handleWriteLoop_zero (fuel : ℕ) (w : World) : handleWriteLoop fuel 0 w = .ok () w := by
  cases fuel with
  | zero => rfl
  | succ fuel =>
    have hwp : wp (handleWriteLoop (fuel + 1) 0) (fun _ w' => w' = w) (fun _ _ => False) w := by
      simp only [handleWriteLoop, wp_bind, wp_get]
      cases w.sock.write with
      | none => rfl
      | some e => cases hq : e.queue <;> simp [hq]
    unfold wp at hwp
    cases hrun : handleWriteLoop (fuel + 1) 0 w with
    | ok _ w' =>
      rw [hrun] at hwp
      rw [hwp]
    | error e w' =>
      rw [hrun] at hwp
      exact hwp.elim

/-- Nothing is sent from an empty buffer. -/
theorem eventSockWrite_nothing (h : Held i j reader w unread [] []) (written : ℕ)
    (hQ : Held i j reader w unread [] [] → Q () w) : wp (eventSockWrite written) Q E w := by
  have hwrite := h.write
  have hsame : ({ w with sock.write := some ⟨j, ⟨[], http2SockWriteSize, false⟩, []⟩ } : World) = w := by
    rw [← hwrite]
  simp only [eventSockWrite, wp_bind, wp_get, hwrite, wp_set, List.length_nil, Nat.min_zero,
    Fifo.pop, List.drop_nil, hsame]
  rw [wp, handleWriteLoop_zero]
  exact hQ h

/-- An operation that goes out in part stays in the queue. -/
theorem eventSockWrite_part {op written : ℕ} {cb : WriteCb} {stream : Option ℕ}
    (h : Held i j reader w unread unsent [⟨op, unsent.length, cb, stream⟩]) (hpart : written < unsent.length)
    (hQ : ∀ w', Held i j reader w' unread (unsent.drop written) [⟨op, (unsent.drop written).length, cb, stream⟩] →
      w'.ctx = w.ctx → w'.loop = w.loop → Q () w') :
    wp (eventSockWrite written) Q E w := by
  have hwrite := h.write
  simp only [eventSockWrite, wp_bind, wp_get, hwrite, wp_set, Fifo.pop, min_eq_left hpart.le]
  have hheld : ∀ bytes, bytes = (unsent.drop written).length → Q () { w with
      sock.write := some ⟨j, ⟨unsent.drop written, http2SockWriteSize, false⟩,
        [⟨op, bytes, cb, stream⟩]⟩ } := by
    rintro bytes rfl
    exact hQ _ ⟨h.connected, h.read, rfl⟩ rfl rfl
  cases written with
  | zero =>
    rw [wp, handleWriteLoop_zero]
    exact hheld _ rfl
  | succ n =>
    simp only [handleWriteLoop, wp_bind, wp_get, wp_ite, wp_set, wp_pure]
    refine ⟨fun h0 => by omega, fun _ => ⟨fun hle => by omega, fun _ => hheld _ ?_⟩⟩
    rw [List.length_drop]

/-- An operation that has gone out as a whole calls its callback, and goes back to the pool. -/
theorem eventSockWrite_whole {op written : ℕ} {cb : WriteCb} {stream : Option ℕ}
    (h : Held i j reader w unread unsent [⟨op, unsent.length, cb, stream⟩]) (hne : unsent ≠ [])
    (hwhole : unsent.length ≤ written)
    (hQ : ∀ w', w'.ctx = w.ctx → w'.loop = w.loop →
      Held i j reader w' unread [] [] →
      wp (callWriteCb cb 0) (fun _ w'' => Q () { w'' with
        callback := none, loop.writes := op :: w''.loop.writes }) E w') :
    wp (eventSockWrite written) Q E w := by
  have hwrite := h.write
  obtain ⟨n, hn⟩ : ∃ n, unsent.length = n + 1 :=
    ⟨unsent.length - 1, by have := List.length_pos_of_ne_nil hne; omega⟩
  simp only [eventSockWrite, wp_bind, wp_get, hwrite, wp_set, Fifo.pop, min_eq_right hwhole,
    List.drop_length]
  rw [hn]
  simp only [handleWriteLoop, callOp, wp_bind, wp_get, wp_ite, wp_set, wp_pure, wp_record,
    wp_modify, Nat.add_one_ne_zero, false_implies, not_false_eq_true, true_implies, true_and,
    le_refl, not_true_eq_false, and_true, Nat.sub_self]
  refine wp.mono (hQ _ ?_ ?_ ?_) (fun _ w'' hq => ?_) fun _ _ he => he
  · rfl
  · rfl
  · exact ⟨h.connected, h.read, rfl⟩
  rw [wp, handleWriteLoop_zero]
  exact hq

end Send

/-! ## The response -/

/-- The response to the headers `l`, and the table with which its headers are encoded, which holds
`a`. -/
structure Reply (server : Server) (l : HeaderList) (a : AbstractTable) where
  table : DynamicTable
  res : HttpResponse
  calls : ℕ
  abstracts : Abstracts http2HeaderTableSize table a
  same : res.Same (responseTo server l calls)

namespace Reply

variable {server : Server} {l : HeaderList} {a : AbstractTable} (p : Reply server l a) (id : ℕ)

/-- The HEADERS frame of a response. -/
def head : Frame := .headers id (p.res.contentLength = 0) (responseBlock p.table p.res)

/-- The DATA frame of a response with a content. -/
def data : Frame := .data id true p.res.body

/-- The bytes of a response. -/
def bytes : Bytes :=
  (p.head id).bytes ++ if p.res.contentLength = 0 then [] else (p.data id).bytes

/-- The context when the HEADERS frame is written. -/
def answered (c : Context) (block : Bytes) : Context :=
  { c.collecting id block false true with
    hpackDynamicTable := (packHeaders p.table p.res.fields).2
    stream.buf := p.res.content
    stream.buflen := p.res.contentLength }

/-- The context when all frames are written. -/
def delivered (c : Context) (block : Bytes) : Context :=
  (p.answered id c block).advance p.res.contentLength

/-- The context when all frames are sent. -/
def finished (c : Context) (block : Bytes) : Context :=
  { p.delivered id c block with stream.state := .closed }

end Reply

/-! ## The stages of an exchange -/

/-- How far the exchange for `r`, which has begun in the context `c`, has come: `future` is still to
be received, and `sent` was sent. -/
inductive Stage (server : Server) (c : Context) (r : Request) (l : HeaderList) (a : AbstractTable) :
    Bytes → Bytes → Connection → Prop
  /-- The frames of the request are collected. -/
  | receiving {i j : ℕ} {frames : List (FrameHeader × Bytes)} {unread future : Bytes} {w : World}
    (hawaits : Awaits c r.id r.block.bytes frames w.ctx) (hframed : Framed frames (unread ++ future))
    (hheld : Held i j .receiving w unread [] []) (hpool : 2 ≤ w.loop.writes.length) :
    Stage server c r l a future [] ⟨w, none⟩
  /-- The HEADERS frame is sent, and a DATA frame is to follow. -/
  | answering {i j op : ℕ} {unsent sent : Bytes} {w : World} (p : Reply server l a)
    (hbody : p.res.contentLength ≠ 0) (hctx : w.ctx = p.answered r.id c r.block.bytes)
    (hheld : Held i j .receiving w [] unsent [⟨op, unsent.length, .onStreamSendComplete, some r.id⟩])
    (hne : unsent ≠ []) (hpool : 1 ≤ w.loop.writes.length)
    (hsent : sent ++ unsent = (p.head r.id).bytes) : Stage server c r l a [] sent ⟨w, none⟩
  /-- The last frame is sent. -/
  | ending {i j op : ℕ} {unsent sent : Bytes} {w : World} (p : Reply server l a)
    (hctx : w.ctx = p.delivered r.id c r.block.bytes)
    (hheld : Held i j .receiving w [] unsent [⟨op, unsent.length, .onStreamSendComplete, some r.id⟩])
    (hne : unsent ≠ []) (hpool : 1 ≤ w.loop.writes.length)
    (hsent : sent ++ unsent = p.bytes r.id) : Stage server c r l a [] sent ⟨w, none⟩
  /-- All is sent, and the stream is closed. -/
  | closed {i j : ℕ} {w : World} (p : Reply server l a) (hctx : w.ctx = p.finished r.id c r.block.bytes)
    (hheld : Held i j .receiving w [] [] []) (hpool : 2 ≤ w.loop.writes.length) :
    Stage server c r l a [] (p.bytes r.id) ⟨w, none⟩

/-- What a server is between two exchanges: the context of the header blocks, the window of the
connection, the window of a new stream, and the last stream. -/
structure AbstractServer where
  table : AbstractTable
  window : ℤ
  streamWindow : ℕ
  last : ℕ

/-- The server accepts the request, whose block means `l` and leaves the table `a`: the stream is a
new one, the headers that the server needs are there, and every response fits in one DATA frame and
in the windows. -/
structure Accepts (server : Server) (s : AbstractServer) (r : Request) (l : HeaderList)
    (a : AbstractTable) : Prop where
  newer : s.last < r.id
  meaning : ∃ ks, limitedMeaning true s.table .reset r.block.representations = some (a, l, ks)
  valid : validatePseudoheaders l = true
  short : ∀ calls, 9 + (responseTo server l calls).contentLength ≤ http2SockWriteSize
  window : ∀ calls, (responseTo server l calls).contentLength ≤ s.window
  streamWindow : ∀ calls, (responseTo server l calls).contentLength ≤ s.streamWindow

/-- The context in which a server takes the next request. -/
structure Ready (s : AbstractServer) (c : Context) : Prop where
  vacant : Vacant c
  table : Abstracts http2HeaderTableSize c.hpackDynamicTable s.table
  window : c.windowSize = s.window
  streamWindow : c.settings.initialWindowSize = s.streamWindow
  last : c.lastOpenedStreamId = s.last

/-- The server after an exchange. -/
def Reply.after {server : Server} {l : HeaderList} {a : AbstractTable} (p : Reply server l a)
    (s : AbstractServer) (id : ℕ) : AbstractServer where
  table := (packHeaders p.table p.res.fields).2.context
  window := s.window - p.res.contentLength
  streamWindow := s.streamWindow
  last := id

section Reply

variable {server : Server} {l : HeaderList} {a : AbstractTable} {s : AbstractServer} {c : Context}
  {r : Request} {w : World}

theorem Reply.contentLength_le (p : Reply server l a) (h : Accepts server s r l a) :
    9 + p.res.contentLength ≤ http2SockWriteSize ∧ (p.res.contentLength : ℤ) ≤ s.window ∧
      p.res.contentLength ≤ s.streamWindow := by
  rw [p.same.contentLength]
  exact ⟨h.short _, h.window _, h.streamWindow _⟩

/-- There is a response, if the request is accepted. -/
theorem Accepts.exists_reply (h : Accepts server s r l a) (hc : Ready s c) :
    Nonempty (Reply server l a) := by
  obtain ⟨ks, hmeaning⟩ := h.meaning
  have hdec := decode_spelled (server.behind 0) hc.table r.block .reset
  rw [hmeaning] at hdec
  obtain ⟨t, ht, -⟩ := hdec
  exact ⟨⟨t, responseTo server l 0, 0, ht, ⟨rfl, rfl, rfl, rfl⟩⟩⟩

theorem Reply.typed (p : Reply server l a) (hserver : server.resources.Typed) : p.res.Typed := by
  have hres : (responseTo server l p.calls).Typed := hserver.response _ _ _ _ _
  unfold HttpResponse.Typed
  rw [p.same.contentType]
  exact hres

/-- After an exchange the server takes the next request. -/
theorem Reply.ready (p : Reply server l a) (hserver : server.resources.Typed) (hc : Ready s c) (id : ℕ)
    (block : Bytes) : Ready (p.after s id) (p.finished id c block) := by
  refine ⟨⟨hc.vacant.ready, rfl, rfl, hc.vacant.trailers⟩, ?_, ?_, hc.streamWindow, rfl⟩
  · obtain ⟨D, ht⟩ := p.abstracts.table.packHeaders (p.typed hserver).codable
    exact ht.abstracts
  · have hwindow := hc.window
    simp only [Reply.finished, Reply.delivered, Context.advance, Reply.answered,
      Context.collecting, Reply.after, hwindow]

end Reply

/-! ## One event -/

section Step

variable {server : Server} {i j : ℕ} {reader : ReadCb} {w : World} {unread unsent bytes : Bytes}
  {queue : List WriteOp}

/-- An event is run. -/
theorem Connection.step_wp {c : Connection} {e : ConnEvent} {P : Connection → Prop}
    (ha : c.aborted = none)
    (h : wp (e.program server) (fun _ w => P ⟨w, none⟩) (fun a w => P ⟨w, some a⟩) c.world) :
    P (c.step server e) := by
  unfold wp at h
  simp only [Connection.step, ha, Option.isSome_none, Bool.false_eq_true, if_false]
  cases hrun : e.program server c.world with
  | ok _ w => rwa [hrun] at h
  | error a w => rwa [hrun] at h

/-- The bytes received that fit in the read buffer are put behind the others. -/
theorem Held.step_recv (h : Held i j reader w unread unsent queue)
    (hroom : bytes.length ≤ (⟨w, none⟩ : Connection).readRoom) :
    ∃ w', (⟨w, none⟩ : Connection).step server (.recv bytes) = ⟨w', none⟩ ∧
      Held i j reader w' (unread ++ bytes) unsent queue ∧ w'.ctx = w.ctx ∧ w'.loop = w.loop := by
  have hread := h.read
  have hpush : (⟨unread, http2SockReadSize, false⟩ : Fifo).push bytes =
      ⟨unread ++ bytes, http2SockReadSize, false⟩ := by
    rw [Fifo.push, List.take_of_length_le]
    simpa [Connection.readRoom, hread] using hroom
  refine ⟨_, Connection.step_recv rfl h.connected hread, ?_, rfl, rfl⟩
  rw [hpush]
  exact ⟨h.connected, rfl, h.write⟩

theorem Held.step_recv_nil (h : Held i j reader w unread unsent queue) :
    (⟨w, none⟩ : Connection).step server (.recv []) = ⟨w, none⟩ := by
  have hread := h.read
  have hpush : (⟨unread, http2SockReadSize, false⟩ : Fifo).push [] =
      ⟨unread, http2SockReadSize, false⟩ := by
    rw [Fifo.push, List.take_nil, List.append_nil]
  rw [Connection.step_recv rfl h.connected hread, hpush, ← hread]

/-- Without bytes that were not consumed, the read callback is not called. -/
theorem Held.step_pending_nil (h : Held i j reader w [] unsent queue) :
    (⟨w, none⟩ : Connection).step server .pending = ⟨w, none⟩ := by
  have hread := h.read
  rw [Connection.step_pending rfl, Connection.eventSockHandleRead_open hread rfl]
  rfl

/-- The read callback is called with the bytes that were not consumed. -/
theorem Held.step_pending (h : Held i j reader w unread unsent queue) (hne : unread ≠ [])
    {P : Connection → Prop}
    (hP : wp (callReadCb server reader unread.length unread)
      (fun n w' => P ⟨w'.consumed unread n, none⟩) (fun a w' => P ⟨w', some a⟩) w) :
    P ((⟨w, none⟩ : Connection).step server .pending) := by
  rw [Connection.step_pending rfl, Connection.eventSockHandleRead_open h.read rfl,
    if_pos (List.length_pos_of_ne_nil hne)]
  unfold wp at hP
  cases hrun : callReadCb server reader unread.length unread w with
  | ok n w' => rwa [hrun] at hP
  | error a w' => rwa [hrun] at hP

/-- `receiving` with bytes that were not consumed. -/
theorem callReadCb_receiving (hne : unread ≠ []) : callReadCb server .receiving unread.length unread =
    receivingLoop server unread.length 0 unread := by
  have hpos := List.length_pos_of_ne_nil hne
  simp only [callReadCb, receiving]
  rw [if_neg (by omega)]

/-- The bytes that were consumed leave the read buffer. -/
theorem Held.consumed (h : Held i j reader w unread unsent queue) (n : ℕ) :
    Held i j reader (w.consumed unread n) (unread.drop n) unsent queue := by
  have hread := h.read
  exact ⟨h.connected, by rw [World.consumed_read, hread]; rfl, h.write⟩

end Step

/-! ## The stages -/

section Stages

variable {server : Server} {l : HeaderList} {a : AbstractTable} {s : AbstractServer} {c : Context}
  {r : Request} {k : Connection} {i j : ℕ} {future sent bytes : Bytes}

/-- Either the request is being received, or it was received as a whole. -/
theorem Stage.receiving_or (h : Stage server c r l a future sent k) :
    (sent = [] ∧ ∃ i j frames unread w, k = ⟨w, none⟩ ∧ Awaits c r.id r.block.bytes frames w.ctx ∧
      Framed frames (unread ++ future) ∧ Held i j .receiving w unread [] [] ∧ 2 ≤ w.loop.writes.length) ∨
    (future = [] ∧ ∃ i j w unsent queue, k = ⟨w, none⟩ ∧ Held i j .receiving w [] unsent queue) := by
  cases h with
  | receiving hawaits hframed hheld hpool =>
    exact .inl ⟨rfl, _, _, _, _, _, rfl, hawaits, hframed, hheld, hpool⟩
  | answering p hbody hctx hheld hne hpool hsent => exact .inr ⟨rfl, _, _, _, _, _, rfl, hheld⟩
  | ending p hctx hheld hne hpool hsent => exact .inr ⟨rfl, _, _, _, _, _, rfl, hheld⟩
  | closed p hctx hheld hpool => exact .inr ⟨rfl, _, _, _, _, _, rfl, hheld⟩

/-- Bytes of the request are received. -/
theorem Stage.recv (h : Stage server c r l a (bytes ++ future) sent k)
    (hroom : bytes.length ≤ k.readRoom) :
    Stage server c r l a future sent (k.step server (.recv bytes)) := by
  rcases h.receiving_or with ⟨rfl, i, j, frames, unread, w, rfl, hawaits, hframed, hheld, hpool⟩ |
    ⟨hnil, i, j, w, unsent, queue, rfl, hheld⟩
  · obtain ⟨w', hstep, hheld', hctx, hloop⟩ := hheld.step_recv hroom
    rw [hstep]
    apply Stage.receiving (hctx ▸ hawaits) _ hheld' (hloop ▸ hpool)
    rwa [List.append_assoc]
  · -- nothing is left to be received
    obtain ⟨rfl, rfl⟩ := List.append_eq_nil_iff.mp hnil
    rwa [hheld.step_recv_nil]

/-- The HEADERS frame of the response is written, and the request leaves the read buffer. -/
theorem Held.answering {w : World} {unread : Bytes} (h : Held i j .receiving w unread [] [])
    (hserver : server.resources.Typed) (p : Reply server l a)
    (hctx : w.ctx = c.collecting r.id r.block.bytes false true) (hpool : 2 ≤ w.loop.writes.length) :
    Stage server c r l a [] []
      ⟨(((w.decoded p.table).requested l p.res).answering (packHeaders p.table p.res.fields).2
        (responseBlock p.table p.res)).consumed unread unread.length, none⟩ := by
  -- the frame that is written
  have hbase : Held i j .receiving (((w.decoded p.table).requested l p.res).onCtx fun c => { c with
      hpackDynamicTable := (packHeaders p.table p.res.fields).2 }) unread [] [] := h.congr rfl
  have hframe : Frame.headers ((w.decoded p.table).requested l p.res).ctx.stream.id
      (((w.decoded p.table).requested l p.res).ctx.stream.buflen = 0)
      (responseBlock p.table p.res) = p.head r.id := by
    simp only [World.requested_ctx, World.decoded_ctx, hctx, Reply.head, Context.collecting]
  have hlen : (p.head r.id).bytes.length ≤ http2SockWriteSize := by
    have hblock := (p.typed hserver).length_responseBlock p.table
    have hmax : http2SockWriteSize = 512 := rfl
    rw [Frame.length_bytes]
    simp only [Reply.head, Frame.header]
    omega
  obtain ⟨hheld, hwrites⟩ := hbase.written (p.head r.id) .onStreamSendComplete (by
    simpa using hlen)
  have hctx' : ((((w.decoded p.table).requested l p.res).answering
      (packHeaders p.table p.res.fields).2 (responseBlock p.table p.res)).consumed unread
        unread.length).ctx = p.answered r.id c r.block.bytes := by
    simp only [World.consumed_ctx, World.answering_ctx, World.requested_ctx, World.decoded_ctx,
      Reply.answered, ← hctx]
  have hheld' := hheld.consumed unread.length
  rw [List.drop_length] at hheld'
  have hpos : (p.head r.id).bytes ≠ [] := List.ne_nil_of_length_pos (by
    rw [Frame.length_bytes]
    omega)
  have htail : 1 ≤ w.loop.writes.tail.length := by
    rw [List.length_tail]
    omega
  rw [World.answering, hframe] at hctx' ⊢
  by_cases hbody : p.res.contentLength = 0
  · -- there is no content, and no other frame
    refine .ending p (hctx'.trans ?_) hheld' hpos (hwrites ▸ htail) ?_
    · simp only [Reply.delivered, hbody, Context.advance, Nat.add_zero, Nat.sub_zero,
        Nat.cast_zero, sub_zero]
    · simp only [Reply.bytes, hbody, if_true, List.nil_append, List.append_nil]
  · exact .answering p hbody hctx' hheld' hpos (hwrites ▸ htail) (List.nil_append _)

/-- The read callback is called. -/
theorem Stage.pending (hserver : server.resources.Typed) (hc : Ready s c) (hr : Accepts server s r l a)
    (h : Stage server c r l a future sent k) :
    Stage server c r l a future sent (k.step server .pending) := by
  rcases h.receiving_or with ⟨rfl, i, j, frames, unread, w, rfl, hawaits, hframed, hheld, hpool⟩ |
    ⟨-, i, j, w, unsent, queue, rfl, hheld⟩
  · by_cases hne : unread = []
    · subst hne
      rwa [hheld.step_pending_nil]
    · obtain ⟨ks, hmeaning⟩ := hr.meaning
      apply hheld.step_pending hne
      rw [callReadCb_receiving hne]
      refine receivingLoop_collects hawaits hframed le_rfl hc.vacant (hc.last ▸ hr.newer) r.odd
        r.fits (fun w' n frames' hs _ ha hf => ?_) fun w' hs hfut hctx => ?_
      · rw [Nat.zero_add]
        exact .receiving ha hf ((hheld.still hs).consumed n) (by rw [World.consumed_loop, hs.loop]; exact hpool)
      · subst hfut
        have hheld' := hheld.still hs
        have hpool' : 2 ≤ w'.loop.writes.length := by rwa [hs.loop]
        refine handleEndStream_answers hserver hctx hc.table hmeaning hr.valid
          (hheld'.writable (by omega)) fun t ht => ⟨rfl, ?_⟩
        have hstage := hheld'.answering hserver ⟨t, _, _, ht, responseTo_respond server l w'.ctx
          w'.loop.calls⟩ hctx hpool'
        rwa [Nat.zero_add]
  · rwa [hheld.step_pending_nil]

/-- The bytes that `send` takes. -/
def Connection.taken (k : Connection) : ConnEvent → Bytes
  | .send written => k.world.sock.unsent.take written
  | _ => []

theorem Held.taken {reader : ReadCb} {w : World} {unread unsent : Bytes} {queue : List WriteOp}
    (h : Held i j reader w unread unsent queue) (written : ℕ) :
    (⟨w, none⟩ : Connection).taken (.send written) = unsent.take written := by
  have hwrite := h.write
  simp only [Connection.taken, Sock.unsent, hwrite, Option.map_some, Option.getD_some]

/-- The HEADERS frame has been sent, and the DATA frame is written. -/
theorem Held.continued {w : World} (h : Held i j .receiving w [] [] []) (hr : Accepts server s r l a)
    (hc : Ready s c) (p : Reply server l a) (hctx : w.ctx = p.answered r.id c r.block.bytes)
    (hbody : p.res.contentLength ≠ 0) (hpool : 1 ≤ w.loop.writes.length)
    {Q : Unit → World → Prop} {E : Assertion → World → Prop}
    (hQ : ∀ w' op, w'.ctx = p.delivered r.id c r.block.bytes →
      w'.loop.writes = w.loop.writes.tail → Held i j .receiving w' [] (p.data r.id).bytes
        [⟨op, (p.data r.id).bytes.length, .onStreamSendComplete, some r.id⟩] → Q () w') :
    wp http2ContinueSend Q E w := by
  obtain ⟨hshort, hwindow, hstream⟩ := p.contentLength_le hr
  have hlength : sendLength w.ctx = p.res.contentLength := by
    have hw := hc.window
    have hs := hc.streamWindow
    simp only [sendLength, hctx, Reply.answered, Context.collecting]
    omega
  have hdata : w.dataLength = p.res.contentLength := by
    rw [World.dataLength, hlength]
    omega
  have hframe : w.dataFrame = p.data r.id := by
    simp only [World.dataFrame, hdata, hctx, Reply.answered, Context.collecting, Reply.data,
      HttpResponse.body, Nat.sub_self, decide_true]
  have hfit : (p.data r.id).bytes.length ≤ http2SockWriteSize := by
    rw [Frame.length_bytes]
    simp only [Reply.data, Frame.header, HttpResponse.body, length_slice]
    exact hshort
  obtain ⟨hheld, hwrites⟩ := h.written (p.data r.id) .onStreamSendComplete (by
    simpa using hfit)
  refine http2ContinueSend_wp (fun hle => by omega) (fun _ _ => ?_) fun _ hnot => ?_
  · apply hQ w.continued (w.loop.writes.headD 0)
    · rw [World.continued_ctx, hctx, hdata]
      rfl
    · rw [World.continued, hframe]
      exact hwrites
    · rw [World.continued, hframe]
      exact hheld.congr rfl
  · exact absurd (h.writable hpool) hnot

/-- Bytes of the response are sent. -/
theorem Stage.send (hc : Ready s c) (hr : Accepts server s r l a)
    (h : Stage server c r l a future sent k) (written : ℕ) :
    Stage server c r l a future (sent ++ k.taken (.send written))
      (k.step server (.send written)) := by
  cases h with
  | receiving hawaits hframed hheld hpool =>
    apply Connection.step_wp rfl
    apply eventSockWrite_nothing hheld
    rw [hheld.taken, List.take_nil, List.append_nil]
    exact fun _ => .receiving hawaits hframed hheld hpool
  | @answering i j op unsent sent w p hbody hctx hheld hne hpool hsent =>
    apply Connection.step_wp rfl
    rw [hheld.taken]
    rcases Nat.lt_or_ge written unsent.length with hpart | hwhole
    · apply eventSockWrite_part hheld hpart
      intro w' hheld' hctx' hloop'
      apply Stage.answering p hbody (hctx'.trans hctx) hheld' _ (hloop' ▸ hpool)
      · rwa [List.append_assoc, List.take_append_drop]
      · exact List.ne_nil_of_length_pos (by rw [List.length_drop]; omega)
    · apply eventSockWrite_whole hheld hne hwhole
      intro w' hctx' hloop' hheld'
      have hlen : w'.ctx.stream.buflen = p.res.contentLength := by
        rw [hctx', hctx]
        rfl
      rw [List.take_of_length_le hwhole, hsent]
      simp only [callWriteCb, onStreamSendComplete, wp_ite, wp_bind, wp_getCtx]
      refine ⟨fun hneg => absurd hneg (lt_irrefl _), fun _ => ⟨fun h0 => absurd (hlen ▸ h0) hbody,
        fun _ => ?_⟩⟩
      apply hheld'.continued hr hc p (hctx'.trans hctx) hbody (hloop' ▸ hpool)
      intro w'' op' hctx'' _ hheld''
      refine .ending p hctx'' (hheld''.congr rfl) ?_ ?_ ?_
      · exact List.ne_nil_of_length_pos (by rw [Frame.length_bytes]; omega)
      · exact Nat.le_add_left 1 _
      · rw [Reply.bytes, if_neg hbody]
  | @ending i j op unsent sent w p hctx hheld hne hpool hsent =>
    apply Connection.step_wp rfl
    rw [hheld.taken]
    rcases Nat.lt_or_ge written unsent.length with hpart | hwhole
    · apply eventSockWrite_part hheld hpart
      intro w' hheld' hctx' hloop'
      apply Stage.ending p (hctx'.trans hctx) hheld' _ (hloop' ▸ hpool)
      · rwa [List.append_assoc, List.take_append_drop]
      · exact List.ne_nil_of_length_pos (by rw [List.length_drop]; omega)
    · apply eventSockWrite_whole hheld hne hwhole
      intro w' hctx' hloop' hheld'
      have hlen : w'.ctx.stream.buflen = 0 := by
        rw [hctx', hctx]
        exact Nat.sub_self _
      rw [List.take_of_length_le hwhole, hsent]
      simp only [callWriteCb, onStreamSendComplete, wp_ite, wp_bind, wp_getCtx, wp_setStreamState]
      refine ⟨fun hneg => absurd hneg (lt_irrefl _), fun _ => ⟨fun _ => ?_,
        fun hpos => absurd hlen hpos⟩⟩
      refine .closed p ?_ (hheld'.congr rfl) ?_
      · rw [Reply.finished, ← hctx, ← hctx']
        rfl
      · have hpool' : 1 ≤ w'.loop.writes.length := hloop' ▸ hpool
        exact Nat.add_le_add_right hpool' 1
  | closed p hctx hheld hpool =>
    apply Connection.step_wp rfl
    apply eventSockWrite_nothing hheld
    rw [hheld.taken, List.take_nil, List.append_nil]
    exact fun _ => .closed p hctx hheld hpool

end Stages

/-! ## The run of an exchange -/

/-- Two write operations are free. -/
def Pools.Spare (pools : Pools) : Prop := 2 ≤ pools.writes.length

instance : DecidablePred Pools.Spare := fun _ => inferInstanceAs (Decidable (_ ≤ _))

namespace Connection

/-- Bytes are received that fit in the read buffer, the read callback is called, bytes are sent, and
the other connections leave the pools as `P` says. -/
def Exchanging (server : Server) (P : Pools → Prop) (k : Connection) : List ConnEvent → Prop
  | [] => True
  | .recv bytes :: events =>
    bytes.length ≤ k.readRoom ∧ Exchanging server P (k.step server (.recv bytes)) events
  | .pending :: events => Exchanging server P (k.step server .pending) events
  | .send written :: events => Exchanging server P (k.step server (.send written)) events
  | .others pools :: events => P pools ∧ Exchanging server P (k.step server (.others pools)) events
  | _ :: _ => False

instance decidableExchanging (server : Server) (P : Pools → Prop) [DecidablePred P]
    (k : Connection) (events : List ConnEvent) : Decidable (Exchanging server P k events) :=
  match events with
  | [] => isTrue trivial
  | .recv bytes :: events =>
    have := decidableExchanging server P (k.step server (.recv bytes)) events
    inferInstanceAs (Decidable (_ ∧ _))
  | .pending :: events => decidableExchanging server P (k.step server .pending) events
  | .send written :: events => decidableExchanging server P (k.step server (.send written)) events
  | .others pools :: events =>
    have := decidableExchanging server P (k.step server (.others pools)) events
    inferInstanceAs (Decidable (_ ∧ _))
  | .recvClosed _ :: _ | .sendError _ :: _ | .timer _ :: _ | .closeGracefully :: _ => isFalse id

/-- The bytes that are sent along a run. -/
def wire (server : Server) (k : Connection) : List ConnEvent → Bytes
  | [] => []
  | e :: events => k.taken e ++ wire server (k.step server e) events

end Connection

section Run

variable {server : Server} {l : HeaderList} {a : AbstractTable} {s : AbstractServer} {c : Context}
  {r : Request} {k : Connection} {future sent bytes : Bytes} {events : List ConnEvent}

/-- Other connections use the pools. -/
theorem Stage.others (h : Stage server c r l a future sent k) {pools : Pools}
    (hpools : pools.Spare) :
    Stage server c r l a future sent (k.step server (.others pools)) := by
  have hstep : ∀ w : World, (⟨w, none⟩ : Connection).step server (.others pools) =
      ⟨{ w with loop := pools }, none⟩ := fun _ => rfl
  cases h with
  | receiving hawaits hframed hheld hpool =>
    rw [hstep]
    exact .receiving hawaits hframed (hheld.congr rfl) hpools
  | answering p hbody hctx hheld hne hpool hsent =>
    rw [hstep]
    exact .answering p hbody hctx (hheld.congr rfl) hne (Nat.le_of_succ_le hpools) hsent
  | ending p hctx hheld hne hpool hsent =>
    rw [hstep]
    exact .ending p hctx (hheld.congr rfl) hne (Nat.le_of_succ_le hpools) hsent
  | closed p hctx hheld hpool =>
    rw [hstep]
    exact .closed p hctx (hheld.congr rfl) hpools

/-- **The stages of an exchange** follow one another, whatever the events are. -/
theorem Stage.run (hserver : server.resources.Typed) (hc : Ready s c) (hr : Accepts server s r l a)
    (h : Stage server c r l a (streamOf events ++ future) sent k)
    (he : k.Exchanging server Pools.Spare events) :
    Stage server c r l a future (sent ++ k.wire server events) (k.run server events) := by
  induction events generalizing k sent with
  | nil =>
    rw [Connection.wire, List.append_nil]
    exact h
  | cons e events ih =>
    rw [Connection.wire, ← List.append_assoc]
    cases e with
    | recv bytes =>
      rw [streamOf, List.append_assoc] at h
      rw [show k.taken (.recv bytes) = [] from rfl, List.append_nil]
      exact ih (h.recv he.1) he.2
    | pending =>
      rw [show k.taken .pending = [] from rfl, List.append_nil]
      exact ih (h.pending hserver hc hr) he
    | send written => exact ih (h.send hc hr written) he
    | others pools =>
      rw [show k.taken (.others pools) = [] from rfl, List.append_nil]
      exact ih (h.others he.1) he.2
    | recvClosed errno => exact he.elim
    | sendError errno => exact he.elim
    | timer id => exact he.elim
    | closeGracefully => exact he.elim

end Run

end Two
