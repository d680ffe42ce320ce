import Two.Event.Runs
import Two.Library.Faults
import Mathlib.Data.Finset.Basic

/-!
# Polling

The rounds of `event_loop` over `select`: which socket is served when, the set of active descriptors
and the bound `nfds`. One round runs the timers that are due, polls the descriptors below `nfds`
once, hands on the data that was read and closes what is done. What the system answers to the calls
of one round are the `SystemAnswers`.

## Main definitions

* `SystemAnswers`: what `select`, `accept`, `recv`, `send` and the clock answer in one round
* `Polling`: a loop with the descriptors of its sockets, `active_fds` and `nfds`
* `eventLoopTimers`, `eventLoopPoll`, `eventLoopPending`, `eventLoopClose`, `round`, `eventLoop`
* `Polling.AtRest`: between two rounds, the active descriptors are those of the reserved sockets,
  and `nfds` is just above them
* `Polling.ReliableIn`: what the loop relies on in the answers of `select` and `accept`

## Main results

* `eventLoop_safe`: every run of the rounds is a run of the loop; the loop is at rest after each of
  them, no poll meets an active descriptor without a socket, and besides the assertions of the
  callbacks only a refused connection ends it
* `round_served`: a round serves the sockets that are ready in the order of their descriptors, up to
  a bound that a new connection may lower; it reads from those that are connected
-/

namespace Two

open Faults

/-! ## The system -/

/-- What `recv` answers; `failed` has the error number less one. -/
inductive Recv
  | bytes (bytes : Bytes)
  | again
  | failed (errno : ℕ)
  deriving DecidableEq, Repr

/-- What `send` answers; to be asked again is to have written nothing. -/
inductive Send
  | written (written : ℕ)
  | failed (errno : ℕ)
  deriving DecidableEq, Repr

/-- What `select` answers. -/
inductive Select
  /-- The descriptors that are ready for reading and for writing. -/
  | ready (readable writable : Finset ℕ)
  /-- `EINTR`. -/
  | interrupted
  /-- Another error. -/
  | failed
  deriving DecidableEq

/-- `FD_SETSIZE`, the number of descriptors that an `fd_set` has a place for. -/
def fdSetsize : ℕ := 1024

/-- What the system answers in one round. -/
structure SystemAnswers where
  /-- The timers that are due. -/
  due : ℕ → Bool
  select : Select
  recv : ℕ → Recv
  send : ℕ → Send
  /-- The descriptor of a new client. -/
  accept : Option ℕ

/-- Why the loop ends. -/
inductive Fault
  | assertion (e : Assertion)
  /-- `event_loop_poll` asserts that every active descriptor has a socket. -/
  | noSocket
  /-- `event_loop_poll` asserts that `select` is at most interrupted. -/
  | select
  /-- `FD_CLR` of the descriptor -1 is undefined, and so are `FD_SET` and `select` above
  `FD_SETSIZE`. -/
  | undefined
  /-- The model ran out of fuel. -/
  | fuel
  deriving DecidableEq, Repr

/-- A call of `event_sock_read` or `event_sock_connect`, or of `event_sock_write`. -/
inductive Service
  | read (descriptor : ℕ)
  | write (descriptor : ℕ)
  deriving DecidableEq, Repr

/-- `event_loop_t` with the descriptors of its sockets. The descriptor of the `i`th reserved socket
is the `i`th one, none stands for -1; the listening socket is behind all of them. `performed` and
`served` are instrumentation. -/
structure Polling where
  loop : EventLoop
  listener : ℕ
  descriptors : List (Option ℕ)
  activeFds : Finset ℕ
  nfds : ℕ
  performed : List EventLoop.Action
  served : List Service

namespace Polling

/-- The loop after `event_listen`. -/
def init (listener : ℕ) : Polling where
  loop := .init
  listener := listener
  descriptors := []
  activeFds := {listener}
  nfds := listener + 1
  performed := []
  served := []

variable (server : Server)

/-- An action of the loop. An assertion that fails ends the program. -/
def perform (p : Polling) (a : EventLoop.Action) : Except Fault Polling :=
  let loop := EventLoop.step server p.loop a
  match loop.aborted with
  | some e => .error (.assertion e)
  | none => .ok { p with loop := loop, performed := p.performed ++ [a] }

/-- The timers of the `k`th socket. -/
def timers (p : Polling) (k : ℕ) : List ℕ :=
  ((p.loop.reserved[k]?).map fun conn => conn.sock.timers).getD []

/-- `event_loop_timers`. -/
def eventLoopTimers (due : ℕ → Bool) (p : Polling) : Except Fault Polling :=
  (List.range p.loop.reserved.length).foldlM (fun p k =>
    (p.timers k).foldlM (fun p id => if due id then p.perform server (.timer k id) else .ok p) p) p

/-- `event_sock_find`, as a position. -/
def eventSockFind (p : Polling) (descriptor : ℕ) : Option ℕ :=
  (p.descriptors ++ [some p.listener]).findIdx? (· == some descriptor)

/-- The room in the read buffer of the `k`th socket. -/
def readlen (p : Polling) (k : ℕ) : ℕ :=
  (((p.loop.reserved[k]?).bind fun conn => conn.sock.read).map fun e =>
    e.buf.maxlen - e.buf.bytes.length).getD 0

/-- `event_sock_read` with the answer of `recv`. No byte at all is the end of the stream, also where
none was asked for. -/
def recvAction (p : Polling) (k : ℕ) : Recv → EventLoop.Action
  | .bytes bytes =>
    let received := bytes.take (p.readlen k)
    if received = [] then .recvClosed k 0 else .recv k received
  | .again => .recv k []
  | .failed errno => .recvClosed k (errno + 1)

/-- `event_sock_write` with the answer of `send`. -/
def sendAction (k : ℕ) : Send → EventLoop.Action
  | .written written => .send k written
  | .failed errno => .sendError k errno

/-- `event_sock_connect` with `on_new_connection` and `event_accept`. -/
def connect (accepted : Option ℕ) (p : Polling) : Except Fault Polling :=
  if p.loop.sockets = [] then .ok p
  else do
    let p ← p.perform server (.accept accepted.isSome)
    -- a refused connection leaves a socket without a descriptor
    match accepted with
    | none => return { p with descriptors := none :: p.descriptors }
    | some clifd =>
      if fdSetsize ≤ clifd then .error .undefined
      else
        return { p with
          descriptors := some clifd :: p.descriptors
          activeFds := insert clifd p.activeFds
          nfds := clifd + 1 }

/-- A call is noted. -/
def note (p : Polling) (s : Service) : Polling := { p with served := p.served ++ [s] }

/-- The body of the loop of `event_loop_poll` for the listening socket, which has no write event. -/
def pollListener (r : SystemAnswers) (readable writable : Finset ℕ) (i : ℕ) (p : Polling) :
    Except Fault Polling := do
  let p ← if i ∈ readable then (p.note (.read i)).connect server r.accept else .ok p
  return if i ∈ writable then p.note (.write i) else p

/-- The `k`th socket is connected. -/
def connectedAt (p : Polling) (k : ℕ) : Bool :=
  (p.loop.reserved[k]?).any fun conn => decide (conn.sock.state = .connected)

/-- The body of the loop of `event_loop_poll` for the `k`th socket: its read part. Nothing is called
for a socket that is closing. -/
def pollRead (r : SystemAnswers) (readable : Finset ℕ) (i k : ℕ) (p : Polling) :
    Except Fault Polling :=
  if i ∈ readable ∧ p.connectedAt k = true then
    (p.note (.read i)).perform server (p.recvAction k (r.recv i))
  else .ok p

/-- The write part of the same. -/
def pollWrite (r : SystemAnswers) (writable : Finset ℕ) (i k : ℕ) (p : Polling) :
    Except Fault Polling :=
  if i ∈ writable then (p.note (.write i)).perform server (sendAction k (r.send i)) else .ok p

/-- The body of the loop of `event_loop_poll`. -/
def pollDescriptor (r : SystemAnswers) (readable writable : Finset ℕ) (i : ℕ) (p : Polling) :
    Except Fault Polling :=
  if i ∈ p.activeFds then
    match p.eventSockFind i with
    | none => .error .noSocket
    | some k =>
      if k = p.descriptors.length then p.pollListener server r readable writable i
      else do
        let p ← p.pollRead server r readable i k
        p.pollWrite server r writable i k
  else .ok p

/-- The loop of `event_loop_poll`, which reads `nfds` anew before each round. -/
def pollLoop (r : SystemAnswers) (readable writable : Finset ℕ) :
    ℕ → ℕ → Polling → Except Fault Polling
  | 0, _, _ => .error .fuel
  | fuel + 1, i, p =>
    if i < p.nfds then do
      let p ← p.pollDescriptor server r readable writable i
      pollLoop r readable writable fuel (i + 1) p
    else .ok p

/-- `select` reports descriptors that it was asked for. -/
def asked (p : Polling) (s : Finset ℕ) : Finset ℕ := s.filter fun d => d ∈ p.activeFds ∧ d < p.nfds

/-- `event_loop_poll`. -/
def eventLoopPoll (r : SystemAnswers) (p : Polling) : Except Fault Polling :=
  if fdSetsize < p.nfds then .error .undefined
  else
    match r.select with
    | .failed => .error .select
    | .interrupted => .ok p
    | .ready readable writable =>
      pollLoop server r (p.asked readable) (p.asked writable)
        (max p.nfds ((r.accept.map (· + 1)).getD 0) + 1) 0 p

/-- `event_loop_pending`. -/
def eventLoopPending (p : Polling) : Except Fault Polling :=
  (List.range p.loop.reserved.length).foldlM (fun p k => p.perform server (.pending k)) p

/-- `event_loop_close` for the `k`th socket, which is done. -/
def shut (p : Polling) (k : ℕ) : Except Fault Polling :=
  match p.descriptors[k]? with
  | some (some d) => do
    let p ← p.perform server (.close k)
    return { p with activeFds := p.activeFds.erase d, descriptors := p.descriptors.eraseIdx k }
  | _ => .error .undefined

/-- The loop of `event_loop_close` over the next sockets from the `k`th on; `bound` is `max_fds`
and one. The listening socket stays. -/
def closeLoop : ℕ → ℕ → ℕ → Polling → Except Fault Polling
  | 0, _, bound, p => .ok { p with nfds := max bound (p.listener + 1) }
  | n + 1, k, bound, p =>
    match p.loop.reserved[k]? with
    | none => .ok { p with nfds := max bound (p.listener + 1) }
    | some conn =>
      if conn.sock.state = .closing ∧ conn.sock.queue = [] then do
        let p ← p.shut server k
        closeLoop n k bound p
      else
        let bound := match p.descriptors[k]? with
          | some (some d) => max bound (d + 1)
          | _ => bound
        closeLoop n (k + 1) bound p

/-- `event_loop_close`. -/
def eventLoopClose (p : Polling) : Except Fault Polling :=
  p.closeLoop server p.loop.reserved.length 0 0

/-- One round of `event_loop`. -/
def round (p : Polling) (r : SystemAnswers) : Except Fault Polling := do
  let p ← p.eventLoopTimers server r.due
  let p ← p.eventLoopPoll server r
  let p ← p.eventLoopPending server
  p.eventLoopClose server

/-- `event_loop`. The listening socket keeps it alive. -/
def eventLoop (p : Polling) (rs : List SystemAnswers) : Except Fault Polling :=
  rs.foldlM (round server) p

end Polling

/-! ## Actions of one client -/

namespace EventLoop

variable {server : Server} {l : EventLoop}

/-- An action of the `i`th client changes no list of the loop, no other socket, and no socket without
a client. -/
structure Local (i : ℕ) (l l' : EventLoop) : Prop where
  sockets : l'.sockets = l.sockets
  length : l'.reserved.length = l.reserved.length
  others : ∀ k : ℕ, k ≠ i → l'.reserved[k]? = l.reserved[k]?
  refused : ∀ (k id : ℕ), l.reserved[k]? = some ⟨id, refusedSock, none⟩ →
    l'.reserved[k]? = some ⟨id, refusedSock, none⟩

theorem Local.refl (i : ℕ) (l : EventLoop) : Local i l l := ⟨rfl, rfl, fun _ _ => rfl, fun _ _ => id⟩

theorem local_put {i : ℕ} {conn : Conn} {client : Client} (hi : l.reserved[i]? = some conn)
    (hc : conn.client = some client) (w : World) : Local i l (l.put i conn client w) := by
  have hothers : ∀ k : ℕ, k ≠ i → (l.put i conn client w).reserved[k]? = l.reserved[k]? := by
    intro k hk
    simp [put, List.getElem?_set_ne hk.symm]
  refine ⟨rfl, by simp [put], hothers, fun k id hk => ?_⟩
  rcases eq_or_ne k i with rfl | hki
  · obtain rfl := Option.some.inj (hi.symm.trans hk)
    cases hc
  · rw [hothers k hki, hk]

theorem local_onConn (i : ℕ) (m : M Unit) : Local i l (l.onConn i m) := by
  unfold onConn
  split
  · exact .refl i l
  · rename_i conn hi
    split
    · exact .refl i l
    · rename_i client hc
      split
      · exact local_put hi hc _
      · obtain ⟨hs, hl, ho, hr⟩ := local_put hi hc (l := l) ‹World›
        exact ⟨hs, hl, ho, hr⟩

/-- An action of the `k`th client: anything but a new client or the end of one. -/
def Action.OfClient (k : ℕ) : Action → Prop
  | .accept _ | .close _ => False
  | .recv i _ | .recvClosed i _ | .pending i | .send i _ | .sendError i _ | .timer i _ => i = k

theorem local_step {a : Action} {k : ℕ} (ha : a.OfClient k) : Local k l (step server l a) := by
  unfold step
  split
  · exact .refl k l
  · cases a with
    | accept | close => exact ha.elim
    | _ =>
      cases ha
      exact local_onConn _ _

/-- A new connection is in front of the others. -/
theorem accept_reserved {b : Bool} (ha : (l.accept b).aborted = none) (hs : l.sockets ≠ []) :
    ∃ conn, (l.accept b).reserved = conn :: l.reserved ∧
      (b = false → ∃ id, conn = ⟨id, refusedSock, none⟩) := by
  unfold accept at ha ⊢
  split
  · exact absurd ‹_› hs
  · rename_i s ss hss
    simp only [hss] at ha ⊢
    cases b with
    | false => exact ⟨_, rfl, fun _ => ⟨s, rfl⟩⟩
    | true =>
      simp only [Bool.not_true, Bool.false_eq_true, if_false] at ha ⊢
      split
      · exact ⟨_, rfl, by simp⟩
      · split
        · exact ⟨_, rfl, by simp⟩
        · simp_all

end EventLoop

namespace Polling

variable (server : Server)

/-- The descriptors of the reserved sockets are active, each is that of one socket, and only a
refused connection has none. The loop got there by the actions that were performed. -/
structure Consistent (p : Polling) : Prop where
  length : p.descriptors.length = p.loop.reserved.length
  active : ∀ d, d ∈ p.activeFds ↔ d = p.listener ∨ some d ∈ p.descriptors
  distinct : (p.descriptors.filterMap id).Nodup
  listening : some p.listener ∉ p.descriptors
  refused : ∀ k : ℕ, p.descriptors[k]? = some none →
    ∃ id, p.loop.reserved[k]? = some ⟨id, EventLoop.refusedSock, none⟩
  follows : p.loop = EventLoop.run server p.performed
  going : p.loop.aborted = none
  small : ∀ d ∈ p.activeFds, d < fdSetsize

/-- Between two rounds: no socket is without a descriptor, and `nfds` is just above the highest
one. -/
structure AtRest (p : Polling) : Prop extends Consistent server p where
  connected : none ∉ p.descriptors
  below : ∀ d ∈ p.activeFds, d < p.nfds
  tight : ∃ d ∈ p.activeFds, p.nfds = d + 1

/-- The loop stands where it stood, but for its clients. -/
structure Alike (p p' : Polling) : Prop where
  listener : p'.listener = p.listener
  descriptors : p'.descriptors = p.descriptors
  activeFds : p'.activeFds = p.activeFds
  nfds : p'.nfds = p.nfds
  sockets : p'.loop.sockets = p.loop.sockets

/-- An assertion that fails in a run of the loop. -/
def Asserts (f : Fault) : Prop :=
  ∃ e actions, f = .assertion e ∧ (EventLoop.run server actions).aborted = some e

variable {server} {p p' : Polling} {a : EventLoop.Action}

theorem Alike.refl (p : Polling) : Alike p p := ⟨rfl, rfl, rfl, rfl, rfl⟩

theorem Alike.trans {q : Polling} (h : Alike p p') (h' : Alike p' q) : Alike p q :=
  ⟨h'.listener.trans h.listener, h'.descriptors.trans h.descriptors,
    h'.activeFds.trans h.activeFds, h'.nfds.trans h.nfds, h'.sockets.trans h.sockets⟩

theorem alike_note (p : Polling) (s : Service) : Alike p (p.note s) := ⟨rfl, rfl, rfl, rfl, rfl⟩

theorem consistent_init {listener : ℕ} (hl : listener < fdSetsize) :
    Consistent server (init listener) where
  length := rfl
  active := by simp [init]
  distinct := List.nodup_nil
  listening := by simp [init]
  refused := by simp [init]
  follows := rfl
  going := rfl
  small := by simpa [init] using hl

theorem atRest_init {listener : ℕ} (hl : listener < fdSetsize) : AtRest server (init listener) where
  toConsistent := consistent_init hl
  connected := by simp [init]
  below := by simp [init]
  tight := ⟨listener, by simp [init]⟩

theorem Consistent.note (h : Consistent server p) (s : Service) : Consistent server (p.note s) :=
  ⟨h.length, h.active, h.distinct, h.listening, h.refused, h.follows, h.going, h.small⟩

/-- What an action does to the loop, and to nothing else. -/
theorem perform_ends (h : p.loop = EventLoop.run server p.performed) (a : EventLoop.Action) :
    Ends (fun p' => p' = { p with
        loop := EventLoop.step server p.loop a, performed := p.performed ++ [a] } ∧
        p'.loop = EventLoop.run server p'.performed ∧ p'.loop.aborted = none)
      (Asserts server) (p.perform server a) := by
  have hrun : EventLoop.step server p.loop a = EventLoop.run server (p.performed ++ [a]) := by
    rw [EventLoop.run_append_singleton, ← h]
  unfold perform
  dsimp only
  split
  · exact ⟨_, p.performed ++ [a], rfl, hrun ▸ ‹_›⟩
  · exact ⟨rfl, hrun, ‹_›⟩

/-- The sockets of `p` but the `k`th one are those of `p'`. -/
def SameBut (k : ℕ) (p p' : Polling) : Prop :=
  ∀ j : ℕ, j ≠ k → p'.loop.reserved[j]? = p.loop.reserved[j]?

theorem perform_client {k : ℕ} (h : Consistent server p) (ha : a.OfClient k) :
    Ends (fun p' => Consistent server p' ∧ Alike p p' ∧ SameBut k p p' ∧ p'.served = p.served)
      (Asserts server) (p.perform server a) := by
  refine (perform_ends h.follows a).mono ?_ fun _ => id
  rintro p' ⟨rfl, hfollows, hgoing⟩
  obtain ⟨hsockets, hlength, hothers, hrefused⟩ :
      EventLoop.Local k p.loop (EventLoop.step server p.loop a) := EventLoop.local_step ha
  refine ⟨⟨h.length.trans hlength.symm, h.active, h.distinct, h.listening, fun k hk => ?_, hfollows,
    hgoing, h.small⟩, ⟨rfl, rfl, rfl, rfl, hsockets⟩, hothers, rfl⟩
  obtain ⟨id, hid⟩ := h.refused k hk
  exact ⟨id, hrefused k id hid⟩

/-! ## Timers and pending data -/

theorem foldlM_client {β : Type} {f : Polling → β → Except Fault Polling}
    (hf : ∀ p b, Consistent server p → Ends (fun p' => Consistent server p' ∧ Alike p p' ∧
      p'.served = p.served) (Asserts server) (f p b)) (h : Consistent server p) (l : List β) :
    Ends (fun p' => Consistent server p' ∧ Alike p p' ∧ p'.served = p.served) (Asserts server)
      (l.foldlM f p) := by
  refine ends_foldlM (fun p₁ b h₁ => ?_) l ⟨h, .refl p, rfl⟩
  obtain ⟨hc, ha, hs⟩ := h₁
  exact (hf p₁ b hc).mono (fun p' h' => ⟨h'.1, ha.trans h'.2.1, h'.2.2.trans hs⟩) fun _ => id

theorem eventLoopTimers_ends (h : Consistent server p) (due : ℕ → Bool) :
    Ends (fun p' => Consistent server p' ∧ Alike p p' ∧ p'.served = p.served) (Asserts server)
      (p.eventLoopTimers server due) := by
  refine foldlM_client (fun p k hp => foldlM_client (fun p id hp => ?_) hp _) h _
  split
  · have ha : (EventLoop.Action.timer k id).OfClient k := rfl
    exact (perform_client hp ha).mono (fun _ h' => ⟨h'.1, h'.2.1, h'.2.2.2⟩) fun _ hf => hf
  · exact ⟨hp, .refl p, rfl⟩

theorem eventLoopPending_ends (h : Consistent server p) :
    Ends (fun p' => Consistent server p' ∧ Alike p p' ∧ p'.served = p.served) (Asserts server)
      (p.eventLoopPending server) :=
  foldlM_client (fun _ k hp => (perform_client (a := .pending k) (k := k) hp rfl).mono
    (fun _ h' => ⟨h'.1, h'.2.1, h'.2.2.2⟩) fun _ => id) h _

/-! ## Polling -/

/-- `event_sock_find` finds the socket of an active descriptor. -/
theorem Consistent.eventSockFind (h : Consistent server p) {i : ℕ} (hi : i ∈ p.activeFds) :
    ∃ k, p.eventSockFind i = some k ∧ (k = p.descriptors.length ↔ i = p.listener) := by
  have hmem : some i ∈ p.descriptors ++ [some p.listener] := by
    rcases (h.active i).mp hi with rfl | hi
    · simp
    · exact List.mem_append_left _ hi
  obtain ⟨k, hk⟩ : ∃ k, p.eventSockFind i = some k := by
    refine Option.isSome_iff_exists.mp ?_
    rw [Polling.eventSockFind, List.findIdx?_isSome, List.any_eq_true]
    exact ⟨_, hmem, beq_self_eq_true _⟩
  refine ⟨k, hk, ?_⟩
  obtain ⟨hlt, hat, -⟩ := List.findIdx?_eq_some_iff_getElem.mp hk
  have hat' : (p.descriptors ++ [some p.listener])[k] = some i := by simpa using hat
  constructor
  · rintro rfl
    simpa using hat'.symm
  · rintro rfl
    by_contra hne
    have hlt' : k < p.descriptors.length := by
      simp only [List.length_append, List.length_singleton] at hlt
      omega
    rw [List.getElem_append_left hlt'] at hat'
    exact h.listening (hat' ▸ List.getElem_mem hlt')

/-- `event_loop_poll` calls `event_sock_read` or `event_sock_connect` for the descriptor if it is
readable: its socket is connected or listening. -/
def reads (p : Polling) (i : ℕ) : Bool :=
  (p.eventSockFind i).any fun k => k = p.descriptors.length || p.connectedAt k

/-- The calls for one descriptor. -/
def services (p : Polling) (readable writable : Finset ℕ) (i : ℕ) : List Service :=
  (if i ∈ readable ∧ p.reads i = true then [.read i] else []) ++
    if i ∈ writable then [.write i] else []

theorem eventSockFind_inj {i j k : ℕ} (hi : p.eventSockFind i = some k)
    (hj : p.eventSockFind j = some k) : i = j := by
  obtain ⟨_, hati, -⟩ := List.findIdx?_eq_some_iff_getElem.mp hi
  obtain ⟨_, hatj, -⟩ := List.findIdx?_eq_some_iff_getElem.mp hj
  rw [beq_iff_eq] at hati hatj
  exact Option.some.inj (hati.symm.trans hatj)

/-- What happens to one socket does not matter for the calls for the others. -/
theorem Alike.reads_eq (h : Alike p p') {i j k : ℕ} (hi : p.eventSockFind i = some k)
    (hs : SameBut k p p') (hij : j ≠ i) : p'.reads j = p.reads j := by
  have hfind : p'.eventSockFind j = p.eventSockFind j := by
    rw [eventSockFind, eventSockFind, h.descriptors, h.listener]
  rw [reads, reads, hfind, h.descriptors]
  cases hj : p.eventSockFind j with
  | none => rfl
  | some m =>
    have hmk : m ≠ k := by
      rintro rfl
      exact hij (eventSockFind_inj hj hi)
    simp only [Option.any_some, connectedAt, hs m hmk]

theorem services_congr {q : Polling} {readable writable : Finset ℕ} {i : ℕ}
    (h : i ∈ readable → q.reads i = p.reads i) :
    q.services readable writable i = p.services readable writable i := by
  rw [services, services]
  by_cases hi : i ∈ readable
  · rw [h hi]
  · simp [hi]

theorem ofClient_recvAction (k : ℕ) (answer : Recv) : (p.recvAction k answer).OfClient k := by
  cases answer with
  | bytes bytes =>
    unfold recvAction
    dsimp only
    split <;> rfl
  | again | failed => rfl

theorem ofClient_sendAction (k : ℕ) (answer : Send) : (sendAction k answer).OfClient k := by
  cases answer <;> rfl

variable {r : SystemAnswers} {readable writable : Finset ℕ} {i : ℕ}

/-- A client is served where it is ready. -/
theorem pollDescriptor_client (h : Consistent server p) (hi : i ≠ p.listener)
    (hr : i ∈ readable → i ∈ p.activeFds) (hw : i ∈ writable → i ∈ p.activeFds) :
    Ends (fun p' => Consistent server p' ∧ Alike p p' ∧
        p'.served = p.served ++ p.services readable writable i ∧
        ∀ j, j ≠ i → p'.reads j = p.reads j) (Asserts server)
      (p.pollDescriptor server r readable writable i) := by
  unfold pollDescriptor
  by_cases hact : i ∈ p.activeFds
  · rw [if_pos hact]
    obtain ⟨k, hk, hkl⟩ := h.eventSockFind hact
    have hne : k ≠ p.descriptors.length := fun hkeq => hi (hkl.mp hkeq)
    have hreads : p.reads i = p.connectedAt k := by simp [reads, hk, hne]
    simp only [hk, if_neg hne, services, hreads]
    have hread : Ends (fun p' => Consistent server p' ∧ Alike p p' ∧ SameBut k p p' ∧
        p'.served = p.served ++ if i ∈ readable ∧ p.connectedAt k = true then [.read i] else [])
        (Asserts server) (p.pollRead server r readable i k) := by
      unfold pollRead
      split
      · exact (perform_client (h.note _) (ofClient_recvAction k _)).mono
          (fun p' ⟨hc, ha, ho, hs⟩ => ⟨hc, ⟨ha.1, ha.2, ha.3, ha.4, ha.5⟩, ho, hs⟩) fun _ => id
      · simpa using ⟨h, Alike.refl p, fun _ _ => rfl⟩
    refine hread.bind fun p₁ ⟨hc₁, ha₁, ho₁, hs₁⟩ => ?_
    have hwrite : Ends (fun p' => Consistent server p' ∧ Alike p₁ p' ∧ SameBut k p₁ p' ∧
        p'.served = p₁.served ++ if i ∈ writable then [.write i] else [])
        (Asserts server) (p₁.pollWrite server r writable i k) := by
      unfold pollWrite
      split
      · exact (perform_client (hc₁.note _) (ofClient_sendAction k _)).mono
          (fun p' ⟨hc, ha, ho, hs⟩ => ⟨hc, ⟨ha.1, ha.2, ha.3, ha.4, ha.5⟩, ho, hs⟩) fun _ => id
      · simpa using ⟨hc₁, Alike.refl p₁, fun _ _ => rfl⟩
    refine hwrite.mono (fun p' ⟨hc, ha, ho, hs⟩ => ⟨hc, ha₁.trans ha, ?_, fun j hj => ?_⟩) fun _ => id
    · rw [hs, hs₁, List.append_assoc]
    · exact (ha₁.trans ha).reads_eq hk (fun m hm => (ho m hm).trans (ho₁ m hm)) hj
  · have hnr : i ∉ readable := fun hmem => hact (hr hmem)
    have hnw : i ∉ writable := fun hmem => hact (hw hmem)
    simpa [hact, services, hnr, hnw] using ⟨h, Alike.refl p⟩

/-- What a poll leaves: `nfds`, and whether it refused a connection. -/
structure Polled (p p' : Polling) (nfds : ℕ) (refused : Prop) : Prop where
  listener : p'.listener = p.listener
  nfds : p'.nfds = nfds
  activeFds : p.activeFds ⊆ p'.activeFds
  descriptors : none ∈ p'.descriptors ↔ none ∈ p.descriptors ∨ refused

theorem Alike.polled (h : Alike p p') : Polled p p' p.nfds False :=
  ⟨h.listener, h.nfds, h.activeFds.ge, by rw [h.descriptors, or_false]⟩

theorem Alike.trans_polled {q : Polling} {n : ℕ} {refused : Prop} (h : Alike p q)
    (h' : Polled q p' n refused) : Polled p p' n refused :=
  ⟨h'.listener.trans h.listener, h'.nfds, h.activeFds.ge.trans h'.activeFds,
    by rw [h'.descriptors, h.descriptors]⟩

theorem Polled.trans_alike {q : Polling} {n : ℕ} {refused : Prop} (h : Polled p q n refused)
    (h' : Alike q p') : Polled p p' n refused :=
  ⟨h'.listener.trans h.listener, h'.nfds.trans h.nfds, h.activeFds.trans h'.activeFds.ge,
    by rw [h'.descriptors, h.descriptors]⟩

/-- `nfds` after `event_sock_connect`, where a connection is `opened`. -/
def nextNfds (accepted : Option ℕ) (opened : Prop) [Decidable opened] (nfds : ℕ) : ℕ :=
  if opened then (accepted.map (· + 1)).getD nfds else nfds

/-- A new socket is put in front of the others. -/
theorem Consistent.cons (h : Consistent server p) {q : Polling} {conn : Conn} {d : Option ℕ}
    (hq : q.listener = p.listener) (hd : q.descriptors = d :: p.descriptors)
    (hr : q.loop.reserved = conn :: p.loop.reserved) (hf : ∀ c ∈ d, c ∉ p.activeFds)
    (ha : q.activeFds = d.elim p.activeFds fun c => insert c p.activeFds)
    (hn : d = none → ∃ id, conn = ⟨id, EventLoop.refusedSock, none⟩)
    (hfollows : q.loop = EventLoop.run server q.performed) (hgoing : q.loop.aborted = none)
    (hsmall : ∀ c ∈ d, c < fdSetsize) : Consistent server q where
  length := by rw [hd, hr, List.length_cons, List.length_cons, h.length]
  active := by
    intro e
    cases d with
    | none => simp [ha, hd, hq, h.active]
    | some c => simp [ha, hd, hq, h.active, or_left_comm]
  distinct := by
    cases d with
    | none => simpa [hd] using h.distinct
    | some c =>
      have hc : some c ∉ p.descriptors := fun hmem => hf c rfl ((h.active c).mpr (.inr hmem))
      simpa [hd] using ⟨hc, by simpa using h.distinct⟩
  listening := by
    rw [hq, hd, List.mem_cons, not_or]
    refine ⟨?_, h.listening⟩
    rintro rfl
    exact hf _ rfl ((h.active _).mpr (.inl rfl))
  refused := by
    intro k hk
    rw [hd] at hk
    rw [hr]
    cases k with
    | zero =>
      obtain ⟨id, rfl⟩ := hn (by simpa using hk)
      exact ⟨id, rfl⟩
    | succ k => exact h.refused k (by simpa using hk)
  follows := hfollows
  going := hgoing
  small := by
    rw [ha]
    cases d with
    | none => exact h.small
    | some c =>
      intro e he
      rcases Finset.mem_insert.mp he with rfl | he
      · exact hsmall _ rfl
      · exact h.small e he

/-- A new socket does not matter for the calls for the others. -/
theorem reads_of_cons {q : Polling} {conn : Conn} {d : Option ℕ} {j : ℕ}
    (hq : q.listener = p.listener) (hd : q.descriptors = d :: p.descriptors)
    (hr : q.loop.reserved = conn :: p.loop.reserved) (hj : d ≠ some j) :
    q.reads j = p.reads j := by
  have hfind : q.eventSockFind j = (p.eventSockFind j).map (· + 1) := by
    rw [eventSockFind, eventSockFind, hd, hq, List.cons_append, List.findIdx?_cons,
      if_neg (by simpa using hj)]
  rw [reads, reads, hfind, hd]
  cases p.eventSockFind j with
  | none => rfl
  | some m => simp [connectedAt, hr]

theorem connect_ends (h : Consistent server p) {accepted : Option ℕ}
    (hf : ∀ c ∈ accepted, c ∉ p.activeFds ∧ c < fdSetsize) :
    Ends (fun p' => Consistent server p' ∧ p'.served = p.served ∧
        (∀ j ∈ p.activeFds, p'.reads j = p.reads j) ∧
        Polled p p' (nextNfds accepted (p.loop.sockets ≠ []) p.nfds)
          (p.loop.sockets ≠ [] ∧ accepted = none)) (Asserts server)
      (p.connect server accepted) := by
  unfold connect nextNfds
  by_cases hs : p.loop.sockets = []
  · simpa [hs] using ⟨h, (Alike.refl p).polled⟩
  · simp only [ne_eq, hs, not_false_eq_true, if_false, if_true, true_and]
    refine (perform_ends h.follows (.accept accepted.isSome)).bind ?_
    rintro p₁ ⟨rfl, hfollows, hgoing⟩
    have hstep : EventLoop.step server p.loop (.accept accepted.isSome) =
        p.loop.accept accepted.isSome := by simp [EventLoop.step, h.going]
    obtain ⟨conn, hconn, hrefused⟩ :=
      EventLoop.accept_reserved (by simpa only [hstep] using hgoing) hs
    have hres := (congrArg EventLoop.reserved hstep).trans hconn
    cases accepted with
    | none =>
      refine ⟨h.cons (d := none) rfl rfl hres (by simp) rfl (fun _ => hrefused rfl) hfollows hgoing
        (by simp), rfl, fun j _ => reads_of_cons (d := none) rfl rfl hres (by simp), rfl, rfl,
        Finset.Subset.refl _, ?_⟩
      simp
    | some c =>
      obtain ⟨hnew, hsmall⟩ := hf c rfl
      simp only [if_neg (not_le.mpr hsmall)]
      refine ⟨h.cons (d := some c) rfl rfl hres (by simpa using hnew) rfl (by simp) hfollows hgoing
        (by simpa using hsmall), rfl, fun j hj => reads_of_cons (d := some c) rfl rfl hres ?_, rfl,
        rfl, Finset.subset_insert _ _, ?_⟩
      · rintro ⟨⟩
        exact hnew hj
      · simp

/-- The listening socket may open a connection. -/
theorem pollDescriptor_listener (h : Consistent server p)
    (hf : ∀ c ∈ r.accept, c ∉ p.activeFds ∧ c < fdSetsize) :
    Ends (fun p' => Consistent server p' ∧
        p'.served = p.served ++ p.services readable writable p.listener ∧
        (∀ j ∈ p.activeFds, p'.reads j = p.reads j) ∧
        Polled p p' (nextNfds r.accept (p.listener ∈ readable ∧ p.loop.sockets ≠ []) p.nfds)
          ((p.listener ∈ readable ∧ p.loop.sockets ≠ []) ∧ r.accept = none)) (Asserts server)
      (p.pollDescriptor server r readable writable p.listener) := by
  have hact := (h.active p.listener).mpr (.inl rfl)
  obtain ⟨k, hk, hkl⟩ := h.eventSockFind hact
  have hreads : p.reads p.listener = true := by simp [reads, hk, hkl]
  simp only [pollDescriptor, if_pos hact, hk, if_pos (hkl.mpr rfl), pollListener, services, hreads,
    and_true]
  have hwrite : ∀ q : Polling, Consistent server q → Consistent server
      (if p.listener ∈ writable then q.note (.write p.listener) else q) := by
    intro q hq
    split
    · exact hq.note _
    · exact hq
  have hkept : ∀ (q : Polling) (j : ℕ),
      (if p.listener ∈ writable then q.note (.write p.listener) else q).reads j = q.reads j := by
    intro q j
    split <;> rfl
  by_cases hr : p.listener ∈ readable
  · simp only [hr, if_true, true_and]
    refine (connect_ends (h.note _) hf).bind fun p₁ ⟨hc₁, hs₁, hj₁, hp₁⟩ => ?_
    refine ⟨hwrite p₁ hc₁, ?_, fun j hj => (hkept p₁ j).trans (hj₁ j hj), ?_⟩
    · split <;> simp [Polling.note, hs₁]
    · split
      · exact (alike_note p _).trans_polled (hp₁.trans_alike (alike_note p₁ _))
      · exact (alike_note p _).trans_polled hp₁
  · simp only [hr, if_false, false_and, List.nil_append]
    refine ⟨hwrite p h, ?_, fun j _ => hkept p j, ?_⟩
    · split <;> simp [Polling.note]
    · simp only [nextNfds, if_false]
      split
      · exact (alike_note p _).polled
      · exact (Alike.refl p).polled

/-! ### The loop over the descriptors -/

/-- The calls for the descriptors from `i` on, where the sockets behind them were not touched. -/
theorem flatMap_services {q : Polling} {n : ℕ} (hr : readable ⊆ p.activeFds)
    (h : ∀ j ∈ p.activeFds, i ≤ j → q.reads j = p.reads j) :
    (List.range' i n).flatMap (q.services readable writable) =
      (List.range' i n).flatMap (p.services readable writable) :=
  List.flatMap_congr fun j hj =>
    services_congr fun hmem => h j (hr hmem) (List.mem_range'_1.mp hj).1

/-- Behind the listening socket, every descriptor below `nfds` is served. -/
theorem pollLoop_clients {fuel : ℕ} (h : Consistent server p) (hi : p.listener < i)
    (hr : readable ⊆ p.activeFds) (hw : writable ⊆ p.activeFds) (hfuel : p.nfds - i < fuel) :
    Ends (fun p' => Consistent server p' ∧ Alike p p' ∧ p'.served = p.served ++
        (List.range' i (p.nfds - i)).flatMap (p.services readable writable)) (Asserts server)
      (pollLoop server r readable writable fuel i p) := by
  induction fuel generalizing i p with
  | zero => omega
  | succ fuel ih =>
    unfold pollLoop
    split
    · refine (pollDescriptor_client h (by omega) (@hr i) (@hw i)).bind
        fun p₁ ⟨hc₁, ha₁, hs₁, hj₁⟩ => ?_
      refine (ih hc₁ (by rw [ha₁.listener]; omega) (ha₁.activeFds ▸ hr) (ha₁.activeFds ▸ hw)
        (by rw [ha₁.nfds]; omega)).mono (fun p' ⟨hc, ha, hs⟩ => ⟨hc, ha₁.trans ha, ?_⟩) fun _ => id
      have hsub : p.nfds - i = p.nfds - (i + 1) + 1 := by omega
      have hrest : ∀ j ∈ p.activeFds, i + 1 ≤ j → p₁.reads j = p.reads j :=
        fun j _ hj => hj₁ j (by omega)
      rw [hs, hs₁, ha₁.nfds, hsub, List.range'_succ, List.flatMap_cons, List.append_assoc,
        flatMap_services hr hrest]
    · have hsub : p.nfds - i = 0 := by omega
      simpa [hsub] using ⟨h, Alike.refl p⟩

/-- The bound up to which a poll serves the sockets: a connection that it opens moves `nfds`, once
the listening socket was served. -/
def pollBound (accepted : Option ℕ) (opened : Prop) [Decidable opened] (p : Polling) : ℕ :=
  max (p.listener + 1) (nextNfds accepted opened p.nfds)

theorem pollLoop_ends {fuel : ℕ} (h : Consistent server p) (hi : i ≤ p.listener)
    (hn : p.listener < p.nfds) (hf : ∀ c ∈ r.accept, c ∉ p.activeFds ∧ c < fdSetsize)
    (hr : readable ⊆ p.activeFds) (hw : writable ⊆ p.activeFds)
    (hfuel : max p.nfds ((r.accept.map (· + 1)).getD 0) - i < fuel) :
    Ends (fun p' => Consistent server p' ∧
        p'.served = p.served ++ (List.range' i
          (pollBound r.accept (p.listener ∈ readable ∧ p.loop.sockets ≠ []) p - i)).flatMap
            (p.services readable writable) ∧
        Polled p p' (nextNfds r.accept (p.listener ∈ readable ∧ p.loop.sockets ≠ []) p.nfds)
          ((p.listener ∈ readable ∧ p.loop.sockets ≠ []) ∧ r.accept = none)) (Asserts server)
      (pollLoop server r readable writable fuel i p) := by
  induction fuel generalizing i p with
  | zero => omega
  | succ fuel ih =>
    unfold pollLoop
    rw [if_pos (by omega)]
    rcases eq_or_ne i p.listener with rfl | hne
    · refine (pollDescriptor_listener h hf).bind fun p₁ ⟨hc₁, hs₁, hj₁, hp₁⟩ => ?_
      have hle : p₁.nfds ≤ max p.nfds ((r.accept.map (· + 1)).getD 0) := by
        rw [hp₁.nfds, nextNfds]
        split <;> cases r.accept <;> simp
      refine (pollLoop_clients hc₁ (by rw [hp₁.listener]; omega) (hr.trans hp₁.activeFds)
        (hw.trans hp₁.activeFds) (by omega)).mono
        (fun p' ⟨hc, ha, hs⟩ => ⟨hc, ?_, hp₁.trans_alike ha⟩) fun _ => id
      have hsub : pollBound r.accept (p.listener ∈ readable ∧ p.loop.sockets ≠ []) p - p.listener =
          p₁.nfds - (p.listener + 1) + 1 := by
        rw [pollBound, ← hp₁.nfds]
        omega
      rw [hs, hs₁, hsub, List.range'_succ, List.flatMap_cons, List.append_assoc,
        flatMap_services hr fun j hj _ => hj₁ j hj]
    · refine (pollDescriptor_client h hne (@hr i) (@hw i)).bind
        fun p₁ ⟨hc₁, ha₁, hs₁, hj₁⟩ => ?_
      refine (ih hc₁ (by rw [ha₁.listener]; omega) (by rw [ha₁.listener, ha₁.nfds]; exact hn)
        (by rwa [ha₁.activeFds]) (ha₁.activeFds ▸ hr) (ha₁.activeFds ▸ hw)
        (by rw [ha₁.nfds]; omega)).mono (fun p' ⟨hc, hs, hp⟩ => ⟨hc, ?_, ?_⟩) fun _ => id
      · have hbound : pollBound r.accept (p₁.listener ∈ readable ∧ p₁.loop.sockets ≠ []) p₁ =
            pollBound r.accept (p.listener ∈ readable ∧ p.loop.sockets ≠ []) p := by
          simp only [pollBound, ha₁.listener, ha₁.sockets, ha₁.nfds]
        have hle : p.listener + 1 ≤
            pollBound r.accept (p.listener ∈ readable ∧ p.loop.sockets ≠ []) p := le_max_left _ _
        have hsub : ∀ b, p.listener + 1 ≤ b → b - i = b - (i + 1) + 1 := by omega
        have hrest : ∀ j ∈ p.activeFds, i + 1 ≤ j → p₁.reads j = p.reads j :=
          fun j _ hj => hj₁ j (by omega)
        rw [hs, hs₁, hbound, hsub _ hle, List.range'_succ, List.flatMap_cons, List.append_assoc,
          flatMap_services hr hrest]
      · have := ha₁.trans_polled hp
        simpa only [ha₁.listener, ha₁.sockets, ha₁.nfds] using this

/-! ## Closing -/

theorem take_append_cons {α : Type*} {l : List α} {k : ℕ} {a : α} (h : l[k]? = some a) :
    l = l.take k ++ a :: l.drop (k + 1) := by
  obtain ⟨hlt, rfl⟩ := List.getElem?_eq_some_iff.mp h
  rw [List.cons_getElem_drop_succ, List.take_append_drop]

theorem Consistent.shut (h : Consistent server p) {k d : ℕ} (hd : p.descriptors[k]? = some (some d))
    {conn : Conn} (hk : p.loop.reserved[k]? = some conn) (hclosing : conn.sock.state = .closing)
    (hqueue : conn.sock.queue = []) :
    ∃ p', p.shut server k = .ok p' ∧ Consistent server p' ∧ p'.listener = p.listener ∧
      p'.served = p.served ∧ p'.descriptors = p.descriptors.eraseIdx k := by
  have hstep : EventLoop.step server p.loop (.close k) = p.loop.close k := by
    simp [EventLoop.step, h.going]
  have hgoing : (p.loop.close k).aborted = none := by rw [EventLoop.aborted_close, h.going]
  have hreserved : (p.loop.close k).reserved = p.loop.reserved.eraseIdx k := by
    simp [EventLoop.close, hk, hclosing, hqueue]
  have hfollows : p.loop.close k = EventLoop.run server (p.performed ++ [.close k]) := by
    rw [EventLoop.run_append_singleton, ← h.follows, hstep]
  refine ⟨{ p with
    loop := p.loop.close k, performed := p.performed ++ [.close k],
    activeFds := p.activeFds.erase d, descriptors := p.descriptors.eraseIdx k }, ?_, ?_, rfl, rfl,
    rfl⟩
  · simp only [Polling.shut, hd, perform, hstep, hgoing]
    rfl
  · have hlt : k < p.descriptors.length := (List.getElem?_eq_some_iff.mp hd).1
    have hsplit := take_append_cons hd
    have herase : p.descriptors.eraseIdx k =
        p.descriptors.take k ++ p.descriptors.drop (k + 1) := List.eraseIdx_eq_take_drop_succ _ _
    have hnot : some d ∉ p.descriptors.eraseIdx k := by
      intro hmem
      have hnodup := h.distinct
      rw [hsplit, List.filterMap_append, List.filterMap_cons, id, List.nodup_middle,
        ← List.filterMap_append, ← herase, List.nodup_cons] at hnodup
      exact hnodup.1 (List.mem_filterMap.mpr ⟨_, hmem, rfl⟩)
    have hmem : ∀ e, some e ∈ p.descriptors.eraseIdx k ↔ some e ∈ p.descriptors ∧ e ≠ d := by
      intro e
      constructor
      · intro he
        exact ⟨List.mem_of_mem_eraseIdx he, fun heq => hnot (heq ▸ he)⟩
      · rintro ⟨he, hne⟩
        rw [hsplit, List.mem_append, List.mem_cons] at he
        rw [herase, List.mem_append]
        exact he.imp_right fun he => he.resolve_left (by simpa using hne)
    have hlistener : p.listener ≠ d := fun heq =>
      h.listening (heq ▸ List.mem_of_getElem? hd)
    exact {
      length := by rw [hreserved, List.length_eraseIdx, List.length_eraseIdx, h.length]
      active := by
        intro e
        rw [Finset.mem_erase, hmem, h.active]
        constructor
        · rintro ⟨hne, he⟩
          exact he.imp_right fun he => ⟨he, hne⟩
        · rintro (rfl | ⟨he, hne⟩)
          · exact ⟨hlistener, .inl rfl⟩
          · exact ⟨hne, .inr he⟩
      distinct := h.distinct.sublist ((List.eraseIdx_sublist _ _).filterMap _)
      listening := fun he => h.listening (List.mem_of_mem_eraseIdx he)
      refused := by
        intro j hj
        simp only [hreserved, List.getElem?_eraseIdx]
        rw [List.getElem?_eraseIdx] at hj
        split at hj
        · simpa [*] using h.refused j hj
        · simpa [*] using h.refused (j + 1) hj
      follows := hfollows
      going := hgoing
      small := fun e he => h.small e (Finset.mem_of_mem_erase he) }

/-- After the loop, `nfds` is just above the descriptors that are left, unless the socket of a
refused connection was met. -/
theorem closeLoop_ends {n k bound : ℕ} (h : Consistent server p)
    (hk : k + n = p.descriptors.length) (hnone : none ∉ p.descriptors.take k)
    (hle : ∀ d, some d ∈ p.descriptors.take k → d < bound)
    (htight : bound = 0 ∨ ∃ d, some d ∈ p.descriptors.take k ∧ bound = d + 1) :
    Ends (fun p' => AtRest server p' ∧ p'.listener = p.listener ∧ p'.served = p.served ∧
        none ∉ p.descriptors)
      (fun e => e = .undefined ∧ none ∈ p.descriptors) (p.closeLoop server n k bound) := by
  induction n generalizing k bound p with
  | zero =>
    have htake : p.descriptors.take k = p.descriptors := List.take_of_length_le (by omega)
    rw [htake] at hnone hle htight
    refine ⟨⟨⟨h.length, h.active, h.distinct, h.listening, h.refused, h.follows, h.going, h.small⟩,
      hnone, fun d hd => ?_, ?_⟩, rfl, rfl, hnone⟩
    · rcases (h.active d).mp hd with rfl | hd
      · exact lt_of_lt_of_le (Nat.lt_succ_self _) (le_max_right _ _)
      · exact lt_of_lt_of_le (hle d hd) (le_max_left _ _)
    · rcases Nat.le_total bound (p.listener + 1) with hb | hb
      · exact ⟨p.listener, (h.active _).mpr (.inl rfl), max_eq_right hb⟩
      · obtain rfl | ⟨d, hd, rfl⟩ := htight
        · omega
        · exact ⟨d, (h.active d).mpr (.inr hd), max_eq_left hb⟩
  | succ n ih =>
    have hlt : k < p.descriptors.length := by omega
    obtain ⟨conn, hconn⟩ : ∃ conn, p.loop.reserved[k]? = some conn :=
      ⟨_, List.getElem?_eq_getElem (by rw [← h.length]; exact hlt)⟩
    have hd : p.descriptors[k]? = some p.descriptors[k] := List.getElem?_eq_getElem hlt
    unfold closeLoop
    simp only [hconn]
    split
    · rename_i hdone
      cases hk' : p.descriptors[k] with
      | none =>
        rw [hk'] at hd
        simp only [Polling.shut, hd]
        exact ⟨rfl, List.mem_of_getElem? hd⟩
      | some d =>
        rw [hk'] at hd
        obtain ⟨p₁, hp₁, hc₁, hl₁, hs₁, hd₁⟩ := h.shut hd hconn hdone.1 hdone.2
        have htake : p₁.descriptors.take k = p.descriptors.take k := by
          rw [hd₁, List.eraseIdx_eq_take_drop_succ, List.take_left' (by simp; omega)]
        have hiff : none ∈ p.descriptors ↔ none ∈ p₁.descriptors := by
          rw [hd₁, List.eraseIdx_eq_take_drop_succ]
          conv_lhs => rw [take_append_cons hd]
          simp
        have hlen : k + n = p₁.descriptors.length := by
          rw [hd₁, List.length_eraseIdx_of_lt hlt]
          omega
        have := ih hc₁ hlen (htake ▸ hnone) (htake ▸ hle) (htake ▸ htight)
        rw [hl₁, hs₁, ← hiff] at this
        rw [hp₁]
        exact this
    · rename_i hopen
      cases hk' : p.descriptors[k] with
      | none =>
        -- the socket of a refused connection is done at once
        obtain ⟨id, hid⟩ := h.refused k (hd.trans (congrArg some hk'))
        obtain rfl := Option.some.inj (hconn.symm.trans hid)
        exact absurd ⟨rfl, rfl⟩ hopen
      | some d =>
        rw [hk'] at hd
        have htake : p.descriptors.take (k + 1) = p.descriptors.take k ++ [some d] := by
          rw [List.take_add_one, hd]
          rfl
        simp only [hd]
        refine ih h (by omega) ?_ ?_ (.inr ?_)
        · rw [htake]
          simpa using hnone
        · rw [htake]
          intro e he
          rcases List.mem_append.mp he with he | he
          · exact lt_of_lt_of_le (hle e he) (le_max_left _ _)
          · obtain rfl := Option.some.inj (List.mem_singleton.mp he)
            exact lt_of_lt_of_le (Nat.lt_succ_self _) (le_max_right _ _)
        · rw [htake]
          rcases Nat.le_total bound (d + 1) with hb | hb
          · exact ⟨d, by simp, max_eq_right hb⟩
          · obtain rfl | ⟨e, he, rfl⟩ := htight
            · omega
            · exact ⟨e, List.mem_append_left _ he, max_eq_left hb⟩

theorem eventLoopClose_ends (h : Consistent server p) :
    Ends (fun p' => AtRest server p' ∧ p'.listener = p.listener ∧ p'.served = p.served ∧
        none ∉ p.descriptors)
      (fun e => e = .undefined ∧ none ∈ p.descriptors) (p.eventLoopClose server) :=
  closeLoop_ends h (by rw [h.length, Nat.zero_add]) (by simp) (by simp) (.inl rfl)

/-! ## Rounds -/

/-- The poll of a round reaches `event_accept`. -/
def opens (p : Polling) (r : SystemAnswers) : Bool :=
  match r.select with
  | .interrupted | .failed => false
  | .ready readable _ => decide (p.listener ∈ readable ∧ p.loop.sockets ≠ [])

/-- A connection is refused in a round. -/
def Refuses (p : Polling) (r : SystemAnswers) : Prop := p.opens r = true ∧ r.accept = none

instance : Decidable (Refuses p r) := inferInstanceAs (Decidable (_ ∧ _))

/-- The bound on the descriptors that are served in a round. -/
def bound (p : Polling) (r : SystemAnswers) : ℕ := pollBound r.accept (p.opens r = true) p

/-- The calls in a poll. -/
def pollServices (p : Polling) (r : SystemAnswers) : List Service :=
  match r.select with
  | .interrupted | .failed => []
  | .ready readable writable =>
    (List.range (p.bound r)).flatMap
      (p.services (readable ∩ p.activeFds) (writable ∩ p.activeFds))

/-- What the loop relies on: `accept` returns a descriptor that is not in use and has a place in an
`fd_set`, and `select` fails only where it is interrupted. -/
structure Reliable (p : Polling) (r : SystemAnswers) : Prop where
  fresh : ∀ c ∈ r.accept, c ∉ p.activeFds ∧ c < fdSetsize
  select : r.select ≠ .failed

instance : Decidable (Reliable p r) :=
  decidable_of_iff ((∀ c ∈ r.accept, c ∉ p.activeFds ∧ c < fdSetsize) ∧ r.select ≠ .failed)
    ⟨fun h => ⟨h.1, h.2⟩, fun h => ⟨h.fresh, h.select⟩⟩

theorem asked_eq (hb : ∀ d ∈ p.activeFds, d < p.nfds) (s : Finset ℕ) :
    p.asked s = s ∩ p.activeFds := by
  ext d
  simp only [asked, Finset.mem_filter, Finset.mem_inter]
  exact ⟨fun h => ⟨h.1, h.2.1⟩, fun h => ⟨h.1, h.2, hb d h.2⟩⟩

theorem eventLoopPoll_ends (h : Consistent server p) (hb : ∀ d ∈ p.activeFds, d < p.nfds)
    (hn : p.nfds ≤ fdSetsize) (hr : Reliable p r) :
    Ends (fun p' => Consistent server p' ∧ p'.listener = p.listener ∧
        p'.served = p.served ++ p.pollServices r ∧
        (none ∈ p'.descriptors ↔ none ∈ p.descriptors ∨ p.Refuses r)) (Asserts server)
      (p.eventLoopPoll server r) := by
  have hlistener := (h.active p.listener).mpr (.inl rfl)
  unfold eventLoopPoll pollServices Refuses bound opens
  rw [if_neg (by omega)]
  cases hsel : r.select with
  | interrupted => simpa using h
  | failed => exact absurd hsel hr.select
  | ready readable writable =>
    simp only [decide_eq_true_eq, asked_eq hb]
    have hmem : p.listener ∈ readable ∩ p.activeFds ↔ p.listener ∈ readable := by simp [hlistener]
    refine (pollLoop_ends h (Nat.zero_le _) (hb _ hlistener) hr.fresh Finset.inter_subset_right
      Finset.inter_subset_right (by omega)).mono (fun p' ⟨hc, hs, hp⟩ => ?_) fun _ => id
    refine ⟨hc, hp.listener, ?_, ?_⟩
    · rw [hs, Nat.sub_zero, ← List.range_eq_range']
      simp only [hmem]
    · rw [hp.descriptors, hmem]

variable (server) in
/-- The answers are reliable in every round. -/
def ReliableIn : Polling → List SystemAnswers → Prop
  | _, [] => True
  | p, r :: rs => Reliable p r ∧
    match p.round server r with
    | .ok p => ReliableIn p rs
    | .error _ => True

variable (server) in
/-- Some round refuses a connection. -/
def RefusedIn : Polling → List SystemAnswers → Prop
  | _, [] => False
  | p, r :: rs => p.Refuses r ∨
    match p.round server r with
    | .ok p => RefusedIn p rs
    | .error _ => False

variable (server) in
/-- Running through the rounds. -/
def decidableReliableIn : ∀ p rs, Decidable (ReliableIn server p rs)
  | _, [] => inferInstanceAs (Decidable True)
  | p, r :: rs =>
    have : Decidable (match p.round server r with
        | .ok p => ReliableIn server p rs
        | .error _ => True) :=
      match p.round server r with
      | .ok p => decidableReliableIn p rs
      | .error _ => inferInstanceAs (Decidable True)
    inferInstanceAs (Decidable (_ ∧ _))

instance (p : Polling) (rs : List SystemAnswers) : Decidable (ReliableIn server p rs) :=
  decidableReliableIn server p rs

/-- **One round.** From rest it serves what is ready once the timers have run, and comes to rest,
unless an assertion of a callback fails or a connection is refused. -/
theorem round_ends (h : AtRest server p) (hr : Reliable p r) :
    Ends (fun p' => AtRest server p' ∧ p'.listener = p.listener ∧ ¬ p.Refuses r ∧
        ∃ q, p.eventLoopTimers server r.due = .ok q ∧ Alike p q ∧
          p'.served = p.served ++ q.pollServices r)
      (fun f => Asserts server f ∨ f = .undefined ∧ p.Refuses r) (p.round server r) := by
  have hassert : ∀ f, Asserts server f → Asserts server f ∨ f = .undefined ∧ p.Refuses r :=
    fun _ => .inl
  have htimers := eventLoopTimers_ends h.toConsistent r.due
  unfold round
  cases hq : p.eventLoopTimers server r.due with
  | error f => exact .inl (htimers.of_error hq)
  | ok p₁ =>
    obtain ⟨hc₁, ha₁, hs₁⟩ := htimers.of_ok hq
    have hopens : p₁.opens r = p.opens r := by unfold opens; rw [ha₁.listener, ha₁.sockets]
    have hrefuses : p₁.Refuses r ↔ p.Refuses r := by rw [Refuses, Refuses, hopens]
    have hnfds : p₁.nfds ≤ fdSetsize := by
      obtain ⟨d, hd, heq⟩ := h.tight
      have := h.small d hd
      rw [ha₁.nfds]
      omega
    have hr₁ : Reliable p₁ r := ⟨by rw [ha₁.activeFds]; exact hr.fresh, hr.select⟩
    refine ((eventLoopPoll_ends hc₁ (by rw [ha₁.activeFds, ha₁.nfds]; exact h.below) hnfds
      hr₁).mono (fun _ => id) hassert).bind fun p₂ ⟨hc₂, hl₂, hs₂, hd₂⟩ => ?_
    refine ((eventLoopPending_ends hc₂).mono (fun _ => id) hassert).bind
      fun p₃ ⟨hc₃, ha₃, hs₃⟩ => ?_
    have hnone : none ∈ p₃.descriptors ↔ p.Refuses r := by
      rw [ha₃.descriptors, hd₂, ha₁.descriptors, hrefuses]
      exact or_iff_right h.connected
    refine (eventLoopClose_ends hc₃).mono ?_ ?_
    · rintro p₄ ⟨hr₄, hl₄, hs₄, hn₄⟩
      refine ⟨hr₄, ?_, fun hr => hn₄ (hnone.mpr hr), p₁, rfl, ha₁, ?_⟩
      · rw [hl₄, ha₃.listener, hl₂, ha₁.listener]
      · rw [hs₄, hs₃, hs₂, hs₁]
    · rintro f ⟨hf, hn⟩
      exact .inr ⟨hf, hnone.mp hn⟩

theorem eventLoop_ends {rs : List SystemAnswers} (h : AtRest server p) (hf : ReliableIn server p rs) :
    Ends (fun p' => AtRest server p' ∧ p'.listener = p.listener ∧ ¬ RefusedIn server p rs)
      (fun f => Asserts server f ∨ f = .undefined ∧ RefusedIn server p rs)
      (p.eventLoop server rs) := by
  induction rs generalizing p with
  | nil => exact ⟨h, rfl, id⟩
  | cons r rs ih =>
    obtain ⟨hreliable, hrest⟩ := hf
    have hround := round_ends h hreliable
    simp only [eventLoop, List.foldlM_cons, RefusedIn] at hrest ⊢
    cases hr : p.round server r with
    | error f =>
      exact (hround.of_error hr).imp_right fun h' => ⟨h'.1, .inl h'.2⟩
    | ok p₁ =>
      obtain ⟨hr₁, hl₁, hn₁, -⟩ := hround.of_ok hr
      rw [hr] at hrest
      refine (ih hr₁ hrest).mono (fun p' ⟨hr', hl', hn'⟩ => ⟨hr', hl'.trans hl₁, ?_⟩) fun f h' => ?_
      · rintro (h' | h')
        · exact hn₁ h'
        · exact hn' h'
      · exact h'.imp_right fun h' => ⟨h'.1, .inr h'.2⟩

/-- **The rounds of the event loop.** After every round the descriptors, `active_fds` and `nfds`
agree with the reserved sockets, and the loop is where the actions that were performed lead. The
loop ends only through an assertion that fails in a run of such actions, or where the socket of a
refused connection is closed; so `event_loop_poll` finds a socket for every active descriptor. -/
theorem eventLoop_safe (server : Server) (listener : ℕ) (rs : List SystemAnswers)
    (hl : listener < fdSetsize) (hf : ReliableIn server (init listener) rs) :
    (∀ p, (init listener).eventLoop server rs = .ok p →
      AtRest server p ∧ ¬ RefusedIn server (init listener) rs) ∧
    ∀ f, (init listener).eventLoop server rs = .error f →
      Asserts server f ∨ f = .undefined ∧ RefusedIn server (init listener) rs := by
  have h := eventLoop_ends (atRest_init hl) hf
  exact ⟨fun p hp => ⟨(h.of_ok hp).1, (h.of_ok hp).2.2⟩, fun f hp => h.of_error hp⟩

theorem reliableIn_append {rs : List SystemAnswers} :
    ReliableIn server p (rs ++ [r]) ↔ ReliableIn server p rs ∧
      ∀ p', p.eventLoop server rs = .ok p' → Reliable p' r := by
  induction rs generalizing p with
  | nil =>
    simp only [List.nil_append, ReliableIn, true_and]
    constructor
    · rintro ⟨hlast, -⟩ p' hp
      obtain rfl := Except.ok.inj hp
      exact hlast
    · intro hlast
      exact ⟨hlast p rfl, by split <;> trivial⟩
  | cons r₀ rs ih =>
    simp only [List.cons_append, ReliableIn, eventLoop, List.foldlM_cons]
    cases hr : p.round server r₀ with
    | error f => simp [bind, Except.bind]
    | ok p₁ => simp only [ih, and_assoc, bind, Except.bind]; rfl

/-- **What a round serves.** In every round of every run, once the timers have run, the ready
sockets are served in the order of their descriptors: all writes are attempted, and reads where the
socket is connected or listening. Without a new connection the poll gets to all of them; the new
connection stops it above its own descriptor, or above the listening socket if that is the higher
one. -/
theorem round_served {listener : ℕ} {rs : List SystemAnswers} {p p' : Polling} {r : SystemAnswers}
    {readable writable : Finset ℕ} (hl : listener < fdSetsize)
    (hf : ReliableIn server (init listener) (rs ++ [r]))
    (hp : (init listener).eventLoop server rs = .ok p) (hsel : r.select = .ready readable writable)
    (hr : p.round server r = .ok p') :
    (∃ q, p.eventLoopTimers server r.due = .ok q ∧
        p'.served = p.served ++ (List.range (p.bound r)).flatMap
          (q.services (readable ∩ p.activeFds) (writable ∩ p.activeFds))) ∧
      (p.opens r = false → ∀ d ∈ p.activeFds, d < p.bound r) ∧
      (p.opens r = true → ∃ c ∈ r.accept, p.bound r = max (listener + 1) (c + 1)) := by
  obtain ⟨hreliable, hlast⟩ := reliableIn_append.mp hf
  obtain ⟨hrest, hlistener, -⟩ := (eventLoop_ends (atRest_init hl) hreliable).of_ok hp
  obtain ⟨-, -, hrefuses, q, hq, ha, hserved⟩ := (round_ends hrest (hlast p hp)).of_ok hr
  have hopens : q.opens r = p.opens r := by unfold opens; rw [ha.listener, ha.sockets]
  have hbound : q.bound r = p.bound r := by
    simp only [bound, pollBound, hopens, ha.listener, ha.nfds]
  refine ⟨⟨q, hq, ?_⟩, fun hopens d hd => ?_, fun hopens => ?_⟩
  · simpa only [pollServices, hsel, hbound, ha.activeFds] using hserved
  · simp only [bound, pollBound, nextNfds, hopens]
    exact lt_of_lt_of_le (hrest.below d hd) (le_max_right _ _)
  · cases haccept : r.accept with
    | none => exact absurd ⟨hopens, haccept⟩ hrefuses
    | some c => exact ⟨c, rfl, by simp [bound, pollBound, nextNfds, hopens, haccept, hlistener, init]⟩

end Polling

/-- A client connects on descriptor 7, and `bytes` come from it. -/
def oneClient (bytes : Bytes) : List SystemAnswers :=
  [⟨fun _ => false, .ready {3} ∅, fun _ => .again, fun _ => .written 0, some 7⟩,
    ⟨fun _ => false, .ready {7} ∅, fun _ => .bytes bytes, fun _ => .written 0, none⟩]

/-- The listening socket and the client are ready, and another client connects on `descriptor`. -/
def secondClient (descriptor : ℕ) : SystemAnswers :=
  ⟨fun _ => false, .ready {3, 7} {7}, fun _ => .again, fun _ => .written 0, some descriptor⟩

/-- A round that only hands on what was read. -/
def interruptedRound : SystemAnswers :=
  ⟨fun _ => false, .interrupted, fun _ => .again, fun _ => .written 0, none⟩

/-- The preface and the frames SETTINGS, GOAWAY and PING come from the client; then the server sends
its frames up to the GOAWAY frame and the socket is closed, but for the answer to the PING frame. -/
def leavingClient : List SystemAnswers :=
  oneClient (http2Preface ++ [0, 0, 0, 4, 0, 0, 0, 0, 0] ++
      ([0, 0, 8, 7, 0, 0, 0, 0, 0] ++ List.replicate 8 0) ++
      ([0, 0, 8, 6, 0, 0, 0, 0, 0] ++ List.replicate 8 0)) ++
    [interruptedRound, interruptedRound, interruptedRound,
      ⟨fun _ => false, .ready ∅ {7}, fun _ => .again, fun _ => .written 71, none⟩]

theorem exists_of_isOk {x : Except Fault Polling} (h : x.toBool = true) : ∃ p, x = .ok p := by
  cases x with
  | ok p => exact ⟨p, rfl⟩
  | error f => cases h

/-- Two clients connect, and neither is refused. -/
theorem eventLoop_safe_secondClient :
    ∃ p, (Polling.init 3).eventLoop .empty (oneClient http2Preface ++ [secondClient 5]) = .ok p ∧
      Polling.AtRest .empty p ∧
      ¬ Polling.RefusedIn .empty (.init 3) (oneClient http2Preface ++ [secondClient 5]) := by
  obtain ⟨p, hp⟩ : ∃ p, (Polling.init 3).eventLoop .empty
      (oneClient http2Preface ++ [secondClient 5]) = .ok p := exists_of_isOk (by decide +kernel)
  exact ⟨p, hp, (Polling.eventLoop_safe .empty 3 _ (by decide) (by decide +kernel)).1 p hp⟩

/-- The calls of a poll behind the rounds `rs`. -/
def callsAfter (rs : List SystemAnswers) (r : SystemAnswers) : Option (List Service) :=
  match (Polling.init 3).eventLoop .empty rs with
  | .error _ => none
  | .ok p =>
    match p.eventLoopTimers .empty r.due with
    | .error _ => none
    | .ok q => some ((List.range (p.bound r)).flatMap
        (q.services ({3, 7} ∩ p.activeFds) ({7} ∩ p.activeFds)))

theorem callsAfter_eq {rs : List SystemAnswers} {r : SystemAnswers} {p q : Polling}
    {calls : List Service} (h : callsAfter rs r = some calls)
    (hp : (Polling.init 3).eventLoop .empty rs = .ok p)
    (hq : p.eventLoopTimers .empty r.due = .ok q) :
    (List.range (p.bound r)).flatMap
      (q.services ({3, 7} ∩ p.activeFds) ({7} ∩ p.activeFds)) = calls := by
  simp only [callsAfter, hp, hq] at h
  exact Option.some.inj h

theorem exists_rounds {rs : List SystemAnswers} {r : SystemAnswers}
    (h : ((Polling.init 3).eventLoop .empty rs >>= fun p => p.round .empty r).toBool = true) :
    ∃ p p', (Polling.init 3).eventLoop .empty rs = .ok p ∧ p.round .empty r = .ok p' := by
  cases hp : (Polling.init 3).eventLoop .empty rs with
  | error f =>
    rw [hp] at h
    cases h
  | ok p =>
    rw [hp] at h
    obtain ⟨p', hp'⟩ := exists_of_isOk h
    exact ⟨p, p', rfl, hp'⟩

/-- The connection on descriptor 5 makes the client on descriptor 7 wait for the next round. With
the connection on descriptor 9 it is served, but it is not read from, as its socket is closing. -/
theorem round_served_secondClient :
    (∃ p p', (Polling.init 3).eventLoop .empty (oneClient http2Preface) = .ok p ∧
      p.round .empty (secondClient 5) = .ok p' ∧ p'.served = p.served ++ [.read 3]) ∧
    ∃ p p', (Polling.init 3).eventLoop .empty leavingClient = .ok p ∧
      p.round .empty (secondClient 9) = .ok p' ∧
      p'.served = p.served ++ [.read 3, .write 7] := by
  obtain ⟨p₁, p₁', hp₁, hr₁⟩ := @exists_rounds (oneClient http2Preface) (secondClient 5)
    (by decide +kernel)
  obtain ⟨⟨q₁, hq₁, hs₁⟩, -⟩ :=
    Polling.round_served (by decide) (by decide +kernel) hp₁ rfl hr₁
  obtain ⟨p₂, p₂', hp₂, hr₂⟩ := @exists_rounds leavingClient (secondClient 9) (by decide +kernel)
  obtain ⟨⟨q₂, hq₂, hs₂⟩, -⟩ :=
    Polling.round_served (by decide) (by decide +kernel) hp₂ rfl hr₂
  refine ⟨⟨p₁, p₁', hp₁, hr₁, ?_⟩, p₂, p₂', hp₂, hr₂, ?_⟩
  · have hcalls : callsAfter (oneClient http2Preface) (secondClient 5) = some [.read 3] := by
      decide +kernel
    rw [hs₁, callsAfter_eq hcalls hp₁ hq₁]
  · have hcalls : callsAfter leavingClient (secondClient 9) = some [.read 3, .write 7] := by
      decide +kernel
    rw [hs₂, callsAfter_eq hcalls hp₂ hq₂]

end Two
