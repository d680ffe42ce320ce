import Two.Http2.Exchange

/-!
# Sessions

A connection at rest answers request after request. However the system cuts the bytes received and
the bytes sent, and whatever the other connections do in between, what is sent is what an abstract
server sends: one that knows the context of the header blocks, two windows and the last stream.

## Main definitions

* `Rests`: a connection at rest stands for an abstract server
* `Exchange`, `Session`: the exchanges of an abstract server
* `AcceptsAll`, `Connection.Turns`: requests that are accepted, and events that carry them

## Main results

* `Reply.meaning`: what the header block of a response means
* `exchange_answered`: a request is answered, and nothing else is sent
* `session_answered`: a connection at rest simulates the abstract server
-/

namespace Two

open Program Hpack

/-! ## Rest -/

/-- The connection is at rest: nothing is unread or unsent, and the server takes a request. -/
structure Rests (s : AbstractServer) (k : Connection) : Prop where
  running : k.aborted = none
  held : ∃ i j, Held i j .receiving k.world [] [] []
  ready : Ready s k.world.ctx
  pool : 2 ≤ k.world.loop.writes.length

section Rest

variable {server : Server} {l : HeaderList} {a : AbstractTable} {s : AbstractServer}
  {r : Request} {k : Connection} {future : Bytes} {events : List ConnEvent}

/-- An exchange begins at rest. -/
theorem Rests.stage (h : Rests s k) (l : HeaderList) (a : AbstractTable) :
    Stage server k.world.ctx r l a r.bytes [] k := by
  obtain ⟨w, aborted⟩ := k
  obtain rfl : aborted = none := h.running
  have hframed : Framed r.frames ([] ++ r.bytes) := r.framed
  obtain ⟨i, j, hheld⟩ := h.held
  exact .receiving (.start r.isRequest r.nonempty r.split) hframed hheld h.pool

/-- An exchange ends at rest. -/
theorem Stage.rests {c : Context} {sent : Bytes} (hserver : server.resources.Typed) (hc : Ready s c)
    (h : Stage server c r l a [] sent k) (hunread : k.unread = [])
    (hunsent : k.world.sock.unsent = []) :
    ∃ p : Reply server l a, sent = p.bytes r.id ∧ Rests (p.after s r.id) k := by
  have hheld : ∀ {i j : ℕ} {w : World} {unread unsent : Bytes} {queue : List WriteOp},
      Held i j .receiving w unread unsent queue → w.sock.unsent = unsent ∧
        (⟨w, none⟩ : Connection).unread = unread := by
    intro i j w unread unsent queue hheld
    simp only [Sock.unsent, hheld.write, Connection.unread, hheld.read, Option.map_some,
      Option.getD_some, and_self]
  cases h with
  | receiving hawaits hframed hh hpool =>
    -- a frame that is to come is neither unread nor in the future
    rw [(hheld hh).2] at hunread
    subst hunread
    generalize hnil : ([] ++ [] : Bytes) = all at hframed
    cases hframed with
    | nil => exact absurd rfl hawaits.ne_nil
    | cons hhead => simp at hnil; simp [hnil] at hhead
  | answering p hbody hctx hh hne hpool hsent => exact absurd ((hheld hh).1.symm.trans hunsent) hne
  | ending p hctx hh hne hpool hsent => exact absurd ((hheld hh).1.symm.trans hunsent) hne
  | closed p hctx hh hpool =>
    exact ⟨p, rfl, rfl, ⟨_, _, hh⟩, by rw [hctx]; exact p.ready hserver hc _ _, hpool⟩

/-- What was sent is a beginning of a response. -/
theorem Stage.sent_prefix {c : Context} {sent : Bytes} (hc : Ready s c)
    (hr : Accepts server s r l a) (h : Stage server c r l a future sent k) :
    k.aborted = none ∧ ∃ p : Reply server l a, sent <+: p.bytes r.id := by
  cases h with
  | receiving =>
    obtain ⟨p⟩ := hr.exists_reply hc
    exact ⟨rfl, p, List.nil_prefix⟩
  | answering p hbody hctx hh hne hpool hsent =>
    refine ⟨rfl, p, List.IsPrefix.trans ⟨_, hsent⟩ ?_⟩
    exact List.prefix_append _ _
  | ending p hctx hh hne hpool hsent => exact ⟨rfl, p, ⟨_, hsent⟩⟩
  | closed p => exact ⟨rfl, p, List.prefix_refl _⟩

end Rest

/-! ## The response as it is read -/

/-- **The header block of a response** spells one block. In the context with which the header block
of the request ended, it means the headers of the response exactly if they are faithful. -/
theorem Reply.meaning {server : Server} {l : HeaderList} {a : AbstractTable}
    (p : Reply server l a) (hserver : server.resources.Typed) (s : AbstractServer) (id : ℕ) :
    (∃ rs, SpellsBlock rs (responseBlock p.table p.res)) ∧
      ∀ rs, SpellsBlock rs (responseBlock p.table p.res) → ∀ a',
        blockMeaning true a rs = some (a', p.res.fields) ↔
          FaithfulList p.table p.res.fields ∧ a' = (p.after s id).table := by
  have hcodable := (p.typed hserver).codable
  have hspells := spells_blockBytes (valid_packHeaders p.table hcodable)
  refine ⟨⟨_, hspells⟩, fun rs hrs a' => ?_⟩
  rw [hrs.unique hspells]
  exact blockMeaning_packHeaders_iff p.abstracts hcodable true a'

/-- **A request is answered.** From rest, while the bytes of a request arrive and bytes are sent, no
assertion fails, and what was sent is a beginning of the response. Once the request was received
and nothing is unread or unsent, the response was sent as a whole, and the connection is at rest. -/
theorem exchange_answered {server : Server} (hserver : server.resources.Typed) {s : AbstractServer}
    {k : Connection} (hk : Rests s k) {r : Request} {l : HeaderList} {a : AbstractTable}
    (hr : Accepts server s r l a) {events : List ConnEvent} {future : Bytes}
    (he : k.Exchanging server Pools.Spare events) (hfed : streamOf events ++ future = r.bytes) :
    (k.run server events).aborted = none ∧
      ∃ p : Reply server l a, k.wire server events <+: p.bytes r.id ∧
        (future = [] → (k.run server events).unread = [] →
          (k.run server events).world.sock.unsent = [] →
            k.wire server events = p.bytes r.id ∧
              Rests (p.after s r.id) (k.run server events)) := by
  have hstage : Stage server k.world.ctx r l a (streamOf events ++ future) [] k := by
    rw [hfed]
    exact hk.stage l a
  have hrun := hstage.run hserver hk.ready hr he
  rw [List.nil_append] at hrun
  obtain ⟨hrunning, p, hprefix⟩ := hrun.sent_prefix hk.ready hr
  refine ⟨hrunning, ?_⟩
  by_cases hend : future = [] ∧ (k.run server events).unread = [] ∧
      (k.run server events).world.sock.unsent = []
  · obtain ⟨rfl, hunread, hunsent⟩ := hend
    obtain ⟨p, hsent, hrests⟩ := hrun.rests hserver hk.ready hunread hunsent
    exact ⟨p, hsent ▸ List.prefix_refl _, fun _ _ _ => ⟨hsent, hrests⟩⟩
  · exact ⟨p, hprefix, fun h₁ h₂ h₃ => absurd ⟨h₁, h₂, h₃⟩ hend⟩

/-! ## A sample -/

namespace Sample

/-- The header block of a request for `/`. -/
def getSpelled : SpelledBlock where
  representations := [.indexed 2, .indexed 6, .indexed 4]
  bytes := _
  spells := .cons (.indexed 2) (.cons (.indexed 6) (.cons (.indexed 4) .nil))
  supported := by
    simp only [List.mem_cons, List.not_mem_nil, or_false, forall_eq_or_imp, forall_eq]
    exact ⟨(by decide : 2 ≤ hpackMaximumInteger), (by decide : 6 ≤ hpackMaximumInteger),
      (by decide : 4 ≤ hpackMaximumInteger)⟩

/-- The headers of this request. -/
def getHeaders : HeaderList :=
  (Hpack.collect .reset [(ascii ":method", ascii "GET"), (ascii ":scheme", ascii "http"),
    (ascii ":path", ascii "/")]).getD .reset

/-- The request in a HEADERS and a CONTINUATION frame. -/
def continuedRequest : Request where
  id := 1
  block := getSpelled
  fragments := [[0x82, 0x86], [0x84]]
  frames := [(frameParseHeader [0, 0, 2, 1, 1, 0, 0, 0, 1], [0x82, 0x86]),
    (frameParseHeader [0, 0, 1, 9, 4, 0, 0, 0, 1], [0x84])]
  bytes := _
  odd := by decide
  fits := by decide +kernel
  split := by decide +kernel
  nonempty := by decide
  isRequest := ⟨_, _, true, _, [(frameParseHeader [0, 0, 1, 9, 4, 0, 0, 0, 1], [0x84])], [], rfl,
    rfl, ⟨by decide, by decide, by decide, by decide, by decide, by decide⟩,
    ⟨_, _, rfl, ⟨by decide, by decide, by decide, by decide, by decide, by decide⟩, rfl⟩,
    .inl ⟨rfl, rfl⟩⟩
  framed := .cons (by decide) (by decide) (by decide)
    (.cons (by decide) (by decide) (by decide) .nil)

/-- The request in one HEADERS frame. -/
def wholeRequest : Request where
  id := 3
  block := getSpelled
  fragments := [[0x82, 0x86, 0x84]]
  frames := [(frameParseHeader [0, 0, 3, 1, 5, 0, 0, 0, 3], [0x82, 0x86, 0x84])]
  bytes := _
  odd := by decide
  fits := by decide +kernel
  split := by decide +kernel
  nonempty := by decide
  isRequest := ⟨_, _, true, _, [], [], rfl, rfl,
    ⟨by decide, by decide, by decide, by decide, by decide, by decide⟩, rfl, .inl ⟨rfl, rfl⟩⟩
  framed := .cons (by decide) (by decide) (by decide) .nil

/-- A connection at rest, on which nothing was received yet. -/
def resting : Connection where
  world :=
    { loop := ⟨[], [0, 1], 0⟩
      sock := ⟨.connected, some ⟨1, .init http2SockReadSize, .receiving⟩,
        some ⟨2, .init http2SockWriteSize, []⟩, []⟩
      ctx := { Context.init with state := .ready }
      callback := none
      log := [] }
  aborted := none

/-- The server that this connection stands for. -/
def restingServer : AbstractServer :=
  ⟨(zeroedTable.init http2HeaderTableSize).context, 65535, 65535, 0⟩

theorem rests_resting : Rests restingServer resting :=
  ⟨rfl, ⟨_, _, rfl, rfl, rfl⟩,
    ⟨⟨rfl, rfl, rfl, rfl⟩, (Reachable.init _ (by decide)).abstracts, rfl, rfl, rfl⟩, le_rfl⟩

/-- A server with room in its windows accepts the request. -/
theorem accepts_get {s : AbstractServer} {r : Request} (hblock : r.block = getSpelled)
    (hid : s.last < r.id) (hwindow : 2 ≤ s.window) (hstream : 2 ≤ s.streamWindow) :
    Accepts (server 2) s r getHeaders s.table := by
  have hlength : ∀ calls, (responseTo (server 2) getHeaders calls).contentLength = 2 :=
    fun _ => rfl
  refine ⟨hid, ⟨_, by rw [hblock]; rfl⟩, by decide +kernel, fun calls => ?_, fun calls => ?_,
    fun calls => ?_⟩
  · rw [hlength]
    decide
  · rw [hlength]
    exact hwindow
  · rw [hlength]
    exact hstream

/-- The request arrives in two reads; the response leaves in three writes. -/
def continuedEvents : List ConnEvent :=
  [.recv (continuedRequest.bytes.take 5), .pending, .recv (continuedRequest.bytes.drop 5), .pending,
    .send 10, .others ⟨[], [7, 8], 3⟩, .send 512, .send 512]

/-- The second request, in one read. -/
def wholeEvents : List ConnEvent := [.recv wholeRequest.bytes, .pending, .send 512, .send 512]

end Sample

/-- The first request, up to the last write. -/
theorem exchange_answered_get :
    (Sample.resting.run (Sample.server 2) Sample.continuedEvents).aborted = none ∧
      ∃ p : Reply (Sample.server 2) Sample.getHeaders Sample.restingServer.table,
        Sample.resting.wire (Sample.server 2) Sample.continuedEvents <+:
            p.bytes Sample.continuedRequest.id ∧
          (([] : Bytes) = [] →
            (Sample.resting.run (Sample.server 2) Sample.continuedEvents).unread = [] →
            (Sample.resting.run (Sample.server 2) Sample.continuedEvents).world.sock.unsent = [] →
              Sample.resting.wire (Sample.server 2) Sample.continuedEvents =
                p.bytes Sample.continuedRequest.id ∧
              Rests (p.after Sample.restingServer Sample.continuedRequest.id)
                (Sample.resting.run (Sample.server 2) Sample.continuedEvents)) :=
  exchange_answered (by decide) Sample.rests_resting
    (Sample.accepts_get rfl (by decide) (by decide) (by decide)) (by decide +kernel)
    (by decide +kernel)

/-! ## Many exchanges -/

/-- One exchange of an abstract server, in which `bytes` answer the request `r`. -/
def Exchange (server : Server) (s : AbstractServer) (r : Request) (bytes : Bytes)
    (s' : AbstractServer) : Prop :=
  ∃ l a, Accepts server s r l a ∧ ∃ p : Reply server l a, bytes = p.bytes r.id ∧ s' = p.after s r.id

/-- The exchanges of an abstract server, one after the other. -/
inductive Session (server : Server) :
    AbstractServer → List Request → Bytes → AbstractServer → Prop
  | nil (s : AbstractServer) : Session server s [] [] s
  | cons {s s' s'' : AbstractServer} {r : Request} {requests : List Request} {bytes more : Bytes}
    (h : Exchange server s r bytes s') (hs : Session server s' requests more s'') :
    Session server s (r :: requests) (bytes ++ more) s''

/-- The server accepts all requests, however it answers those before. -/
def AcceptsAll (server : Server) : AbstractServer → List Request → Prop
  | _, [] => True
  | s, r :: requests => (∃ l a, Accepts server s r l a) ∧
      ∀ bytes s', Exchange server s r bytes s' → AcceptsAll server s' requests

/-- The turns of a session: the events of each carry a request, and at their end nothing is unread
or unsent. -/
def Connection.Turns (server : Server) (k : Connection) : List (Request × List ConnEvent) → Prop
  | [] => True
  | (r, events) :: turns => k.Exchanging server Pools.Spare events ∧ streamOf events = r.bytes ∧
      (k.run server events).unread = [] ∧ (k.run server events).world.sock.unsent = [] ∧
        Turns server (k.run server events) turns

instance Connection.decidableTurns (server : Server) (k : Connection)
    (turns : List (Request × List ConnEvent)) : Decidable (k.Turns server turns) :=
  match turns with
  | [] => isTrue trivial
  | (_, events) :: turns =>
    have := decidableTurns server (k.run server events) turns
    inferInstanceAs (Decidable (_ ∧ _ ∧ _ ∧ _ ∧ _))

theorem Connection.wire_append (server : Server) (k : Connection) (events more : List ConnEvent) :
    k.wire server (events ++ more) =
      k.wire server events ++ (k.run server events).wire server more := by
  induction events generalizing k with
  | nil => rfl
  | cons e events ih =>
    simp only [List.cons_append, Connection.wire, ih, List.append_assoc]
    rfl

/-- **A connection at rest simulates the abstract server.** In every session, the bytes sent are
those with which the abstract server answers the requests, in their order, and the connection rests
again. -/
theorem session_answered {server : Server} (hserver : server.resources.Typed) {s : AbstractServer}
    {k : Connection} (hk : Rests s k) {turns : List (Request × List ConnEvent)}
    (hr : AcceptsAll server s (turns.map Prod.fst)) (ht : k.Turns server turns) :
    ∃ s', Session server s (turns.map Prod.fst) (k.wire server (turns.flatMap Prod.snd)) s' ∧
      Rests s' (k.run server (turns.flatMap Prod.snd)) := by
  induction turns generalizing s k with
  | nil => exact ⟨s, .nil s, hk⟩
  | cons turn turns ih =>
    obtain ⟨r, events⟩ := turn
    obtain ⟨he, hfed, hunread, hunsent, hturns⟩ := ht
    obtain ⟨⟨l, a, haccepts⟩, hrest⟩ := hr
    have hstage : Stage server k.world.ctx r l a (streamOf events ++ []) [] k := by
      rw [hfed, List.append_nil]
      exact hk.stage l a
    obtain ⟨p, hsent, hk'⟩ := (hstage.run hserver hk.ready haccepts he).rests hserver hk.ready
      hunread hunsent
    have hex : Exchange server s r (k.wire server events) (p.after s r.id) :=
      ⟨l, a, haccepts, p, hsent, rfl⟩
    obtain ⟨s', hsession, hrests⟩ := ih hk' (hrest _ _ hex) hturns
    refine ⟨s', ?_, ?_⟩
    · rw [List.flatMap_cons, Connection.wire_append]
      exact .cons hex hsession
    · rw [List.flatMap_cons, Connection.run_append]
      exact hrests

/-- Two requests. -/
theorem session_answered_two :
    ∃ s', Session (Sample.server 2) Sample.restingServer
        [Sample.continuedRequest, Sample.wholeRequest]
        (Sample.resting.wire (Sample.server 2) (Sample.continuedEvents ++ Sample.wholeEvents)) s' ∧
      Rests s' (Sample.resting.run (Sample.server 2)
        (Sample.continuedEvents ++ Sample.wholeEvents)) := by
  have haccepts : AcceptsAll (Sample.server 2) Sample.restingServer
      [Sample.continuedRequest, Sample.wholeRequest] := by
    refine ⟨⟨_, _, Sample.accepts_get rfl (by decide) (by decide) (by decide)⟩, ?_⟩
    -- whatever the first response was, the windows have room for the second one
    rintro bytes s' ⟨l, a, -, p, -, rfl⟩
    have hle : p.res.contentLength ≤ http2StreamBufSize := by
      rw [p.same.contentLength]
      exact contentLength_httpHandleRequest_le _ _ _ _ _ _
    have hsize : http2StreamBufSize = 512 := rfl
    have hwindow : Sample.restingServer.window = 65535 := rfl
    refine ⟨⟨_, _, Sample.accepts_get rfl ?_ ?_ ?_⟩, fun _ _ _ => trivial⟩
    · exact (by decide : Sample.continuedRequest.id < Sample.wholeRequest.id)
    · simp only [Reply.after, hwindow]
      omega
    · exact (by decide : 2 ≤ Sample.restingServer.streamWindow)
  exact @session_answered _ (by decide) _ _ Sample.rests_resting
    [(Sample.continuedRequest, Sample.continuedEvents), (Sample.wholeRequest, Sample.wholeEvents)]
    haccepts (by decide +kernel)

end Two
