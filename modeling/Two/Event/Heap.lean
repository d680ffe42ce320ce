import Two.Event.Conservation
import Two.Library.LinkedList

/-!
# The linked lists of the event loop

The sockets, events, write operations and contexts in memory, with their `next` fields and the heads
of their lists, and the operations of `event.c` and `http2.c` on them, as the macros of `ll.h` make
them. Every run of the event loop makes such operations, and the lists of the model of the loop are
the linked lists in memory.

## Main definitions

* `Heap`: the linked lists, and the field `data` of the sockets
* `HeapOp`, `Heap.exec`: the operations on the lists
* `Heap.Holds`: the linked lists are those of an event loop

## Main results

* `pools_conserved`: in every run the elements are conserved, in linked lists without cycles
-/

namespace Two

open Relation

/-- The elements of the pools in memory. A list of events or of write operations is given by the
socket it belongs to, or by `none` for the pool; the flag of a list of sockets or contexts is whether
they are in use. -/
structure Heap where
  events : Links (Option ℕ)
  writes : Links (Option ℕ)
  sockets : Links Bool
  clients : Links Bool
  data : ℕ → Option ℕ

/-- What the code does to the lists. -/
inductive HeapOp
  /-- `LL_MOVEP(loop->events, sock->events)`. -/
  | take (s : ℕ)
  /-- `LL_DELETE(event, sock->events)` and `LL_PUSH(event, loop->events)`. -/
  | release (s e : ℕ)
  /-- `LL_MOVE(loop->writes, queue)`. -/
  | enqueue (s : ℕ)
  /-- `LL_POP(queue)`. -/
  | pop (s : ℕ)
  /-- `LL_PUSH(op, loop->writes)`. -/
  | free (op : ℕ)
  /-- `event_sock_create`. -/
  | create
  /-- `LL_MOVE(clients, connected_clients)` in `http2_new_client`. -/
  | newClient (s : ℕ)
  /-- `http2_on_client_close` and the end of `event_loop_close` for one socket. -/
  | close (s : ℕ)
  deriving DecidableEq, Repr

namespace Heap

variable (h : Heap)

/-- `event_sock_create`: the memory of the socket is cleared. The queue of a socket without a write
event is empty. -/
def create : Option Heap := do
  let s ← (h.sockets.pop false).1
  return { h with
    sockets := (h.sockets.pop false).2.push s true
    events := h.events.setHead (some s) none
    writes := h.writes.setHead (some s) none
    data := Function.update h.data s none }

/-- `http2_new_client` for a socket. -/
def newClient (s : ℕ) : Option Heap := do
  let r ← h.clients.moveBack false true
  let c ← r.1
  return { h with clients := r.2, data := Function.update h.data s (some c) }

/-- `http2_on_client_close`. -/
def onClientClose (s : ℕ) : Option Heap :=
  match h.data s with
  | none => some h
  | some c => do
    let k ← h.clients.delete c true
    return { h with clients := k.push c false }

/-- The end of `event_loop_close` for the socket `s`: `prev` is the socket in front of it, and `next`
is read before the socket is put into the list of the free ones. -/
def closeSock (s : ℕ) : Option Heap := do
  let found ← h.sockets.findPrev s (h.sockets.size + 1) none (h.sockets.head true)
  let prev ← found
  let next := h.sockets.next s
  let events ← h.events.pushAll none (h.events.size + 1) (h.events.head (some s))
  return { h with sockets := (h.sockets.push s false).unlink true prev next, events := events }

/-- One operation; `none` where the code reads through a null pointer or does not end. -/
def exec1 : HeapOp → Option Heap
  | .take s => some { h with events := (h.events.moveFront none (some s)).2 }
  | .release s e => do
    let k ← h.events.delete e (some s)
    return { h with events := k.push e none }
  | .enqueue s => do
    let r ← h.writes.moveBack none (some s)
    let _ ← r.1
    return { h with writes := r.2 }
  | .pop s => some { h with writes := (h.writes.pop (some s)).2 }
  | .free op => some { h with writes := h.writes.push op none }
  | .create => h.create
  | .newClient s => h.newClient s
  | .close s => do
    let h ← h.onClientClose s
    h.closeSock s

/-- A sequence of operations. -/
def exec : Heap → List HeapOp → Option Heap
  | h, [] => some h
  | h, op :: ops => do
    let h ← h.exec1 op
    exec h ops

/-- `LL_INIT`: every element leads to the next one. -/
def initLinks {ι : Type} [DecidableEq ι] (free : ι) (size : ℕ) : Links ι where
  next i := if i + 1 < size then some (i + 1) else none
  head l := if l = free then some 0 else none
  size := size

/-- The memory after `event_loop_init` and the initialization of the contexts. -/
def init : Heap where
  events := initLinks none eventMaxEvents
  writes := initLinks none eventWriteQueueSize
  sockets := initLinks false eventMaxSockets
  clients := initLinks false (eventMaxSockets - 1)
  data _ := none

/-! ## One socket -/

/-- The lists of events and operations are the families `ev` and `wr`, in which the lists of the
socket `s` are those of `x`. -/
structure HoldsSock (h : Heap) (s : ℕ) (x : Lists) (ev wr : Option ℕ → Option (List ℕ)) : Prop where
  events : h.events.Represents ev
  writes : h.writes.Represents wr
  freeEvents : ev none = some x.events
  sockEvents : ev (some s) = some x.sockEvents
  freeWrites : wr none = some x.writes
  queue : wr (some s) = some x.queue
  heldNodup : x.held.Nodup
  held : ∀ op ∈ x.held, Links.Outside wr op ∧ op < h.writes.size

/-- Only the lists of the socket `s` and the pools have changed. -/
structure SameOthers (h h' : Heap) (s : ℕ) (ev wr ev' wr' : Option ℕ → Option (List ℕ)) : Prop where
  events : ∀ t, t ≠ s → ev' (some t) = ev (some t)
  writes : ∀ t, t ≠ s → wr' (some t) = wr (some t)
  sockets : h'.sockets = h.sockets
  clients : h'.clients = h.clients
  data : h'.data = h.data

variable {h} {s : ℕ} {x y : Lists} {ev wr : Option ℕ → Option (List ℕ)}

/-- The families of the pool and of one socket, updated. -/
theorem update_others {α : Type} {f : Option ℕ → α} {s t : ℕ} {a b : α} (ht : t ≠ s) :
    Function.update (Function.update f none a) (some s) b (some t) = f (some t) := by
  rw [Function.update_of_ne (by simpa using ht), Function.update_of_ne (by simp)]

theorem update_others' {α : Type} {f : Option ℕ → α} {s t : ℕ} {a b : α} (ht : t ≠ s) :
    Function.update (Function.update f (some s) a) none b (some t) = f (some t) := by
  rw [Function.update_of_ne (by simp), Function.update_of_ne (by simpa using ht)]

/-- A move between the lists of a socket is an operation on the linked lists. -/
theorem HoldsSock.shuffle (hx : h.HoldsSock s x ev wr) (hs : Shuffle x y) :
    ∃ op h' ev' wr', h.exec1 op = some h' ∧ h'.HoldsSock s y ev' wr' ∧
      SameOthers h h' s ev wr ev' wr' := by
  cases hs with
  | take e free se wr' q hd =>
    -- an event moves from the free list to the front of the socket's
    obtain ⟨-, hrep⟩ := hx.events.moveFront hx.freeEvents hx.sockEvents (by simp)
    refine ⟨.take s, _, _, wr, rfl, ⟨hrep, hx.writes, ?_, ?_, hx.freeWrites, hx.queue, hx.heldNodup,
      hx.held⟩, ⟨fun t ht => update_others ht, fun _ _ => rfl, rfl, rfl, rfl⟩⟩
    · rw [Function.update_of_ne (by simp), Function.update_self]
    · rw [Function.update_self]
  | release e free se wr' q hd he =>
    -- it is unlinked wherever it stands, and returns to the free list
    obtain ⟨k, hk, hrep, hout⟩ := hx.events.delete hx.sockEvents he
    have hfree : Function.update ev (some s) (some (se.erase e)) none = some free := by
      rw [Function.update_of_ne (by simp), hx.freeEvents]
    have hb : e < k.size := by
      rw [Links.delete_size hk]
      exact hx.events.bound _ _ hx.sockEvents e he
    refine ⟨.release s e, { h with events := k.push e none }, _, wr, by simp [exec1, hk],
      ⟨hrep.push hfree hout hb, hx.writes, ?_, ?_, hx.freeWrites, hx.queue, hx.heldNodup, hx.held⟩,
      ⟨fun t ht => update_others' ht, fun _ _ => rfl, rfl, rfl, rfl⟩⟩
    · rw [Function.update_self]
    · rw [Function.update_of_ne (by simp), Function.update_self]
  | enqueue op free se wrs q hd =>
    -- an operation moves from the free list to the end of the queue
    obtain ⟨k, hk, hrep⟩ := hx.writes.moveBack hx.freeWrites hx.queue (by simp)
    refine ⟨.enqueue s, { h with writes := k }, ev, _, by simp [exec1, hk],
      ⟨hx.events, hrep, hx.freeEvents, hx.sockEvents, ?_, ?_, hx.heldNodup, ?_⟩,
      ⟨fun _ _ => rfl, fun t ht => update_others ht, rfl, rfl, rfl⟩⟩
    · rw [Function.update_of_ne (by simp), Function.update_self]
    · rw [Function.update_self]
    -- the operations that are held are in no list, before and after
    · intro o ho
      obtain ⟨hout, hb⟩ := hx.held o ho
      refine ⟨Links.Outside.update (Links.Outside.update hout ?_) ?_, ?_⟩
      · exact fun hmem => hout _ _ hx.freeWrites (List.mem_cons_of_mem op hmem)
      · rw [List.mem_append, List.mem_singleton, not_or]
        refine ⟨hout _ _ hx.queue, ?_⟩
        rintro rfl
        exact hout _ _ hx.freeWrites (List.mem_cons_self ..)
      · rw [show k.size = h.writes.size from Links.moveBack_size hk]
        exact hb
  | pop op free se wrs q hd =>
    -- the first of the queue is held until its callback has returned
    obtain ⟨-, hrep, hout⟩ := hx.writes.pop hx.queue
    refine ⟨.pop s, _, ev, _, rfl, ⟨hx.events, hrep, hx.freeEvents, hx.sockEvents, ?_, ?_, ?_, ?_⟩,
      ⟨fun _ _ => rfl, fun t ht => Function.update_of_ne (by simpa using ht) _ _, rfl, rfl, rfl⟩⟩
    · rw [Function.update_of_ne (by simp), hx.freeWrites]
    · rw [Function.update_self]
    · refine List.nodup_cons.mpr ⟨fun hmem => ?_, hx.heldNodup⟩
      exact (hx.held op hmem).1 _ _ hx.queue (List.mem_cons_self ..)
    · intro o ho
      rcases List.mem_cons.mp ho with rfl | ho
      · refine ⟨hout, ?_⟩
        rw [Links.pop_size]
        exact hx.writes.bound _ _ hx.queue o (List.mem_cons_self ..)
      · obtain ⟨hout', hb⟩ := hx.held o ho
        refine ⟨hout'.update fun hmem => hout' _ _ hx.queue (List.mem_cons_of_mem op hmem), ?_⟩
        rw [Links.pop_size]
        exact hb
  | free op free se wrs q hd =>
    -- the one held last returns to the free list
    obtain ⟨hout, hb⟩ := hx.held op (List.mem_cons_self ..)
    obtain ⟨hop, hnd⟩ := List.nodup_cons.mp hx.heldNodup
    refine ⟨.free op, _, ev, _, rfl, ⟨hx.events, hx.writes.push hx.freeWrites hout hb, hx.freeEvents,
      hx.sockEvents, ?_, ?_, hnd, ?_⟩,
      ⟨fun _ _ => rfl, fun t ht => Function.update_of_ne (by simp) _ _, rfl, rfl, rfl⟩⟩
    · rw [Function.update_self]
    · rw [Function.update_of_ne (by simp), hx.queue]
    · intro o ho
      obtain ⟨hout', hb'⟩ := hx.held o (List.mem_cons_of_mem op ho)
      refine ⟨hout'.update ?_, hb'⟩
      rw [List.mem_cons, not_or]
      exact ⟨fun heq => hop (heq ▸ ho), hout' _ _ hx.freeWrites⟩

theorem exec_append (h : Heap) (ops ops' : List HeapOp) :
    h.exec (ops ++ ops') = (h.exec ops).bind fun h => h.exec ops' := by
  induction ops generalizing h with
  | nil => rfl
  | cons op ops ih =>
    simp only [List.cons_append, exec, bind, Option.bind_assoc]
    congr 1
    funext h'
    exact ih h'

theorem HoldsSock.shuffles (hx : h.HoldsSock s x ev wr) (hs : ReflTransGen Shuffle x y) :
    ∃ ops h' ev' wr', h.exec ops = some h' ∧ h'.HoldsSock s y ev' wr' ∧
      SameOthers h h' s ev wr ev' wr' := by
  induction hs with
  | refl => exact ⟨[], h, ev, wr, rfl, hx, fun _ _ => rfl, fun _ _ => rfl, rfl, rfl, rfl⟩
  | tail _ hstep ih =>
    obtain ⟨ops, h₁, ev₁, wr₁, hexec, hx₁, hsame⟩ := ih
    obtain ⟨op, h₂, ev₂, wr₂, hexec', hx₂, hsame'⟩ := hx₁.shuffle hstep
    refine ⟨ops ++ [op], h₂, ev₂, wr₂, ?_, hx₂, ?_⟩
    · simp [exec_append, hexec, exec, hexec']
    · exact ⟨fun t ht => (hsame'.events t ht).trans (hsame.events t ht),
        fun t ht => (hsame'.writes t ht).trans (hsame.writes t ht),
        hsame'.sockets.trans hsame.sockets, hsame'.clients.trans hsame.clients,
        hsame'.data.trans hsame.data⟩

/-! ## The loop -/

/-- The linked lists are those of the event loop `l`; the listening socket, which is the last of the
reserved ones, is not a connection. -/
structure Holds (h : Heap) (l : EventLoop) (ev wr : Option ℕ → Option (List ℕ))
    (connected : List ℕ) : Prop where
  events : h.events.Represents ev
  writes : h.writes.Represents wr
  sockets : h.sockets.Represents fun used =>
    some (if used then l.reserved.map Conn.id ++ [0] else l.sockets)
  clients : h.clients.Represents fun used => some (if used then connected else l.clients)
  freeEvents : ev none = some l.pools.events
  sockEvents : ∀ conn ∈ l.reserved, ev (some conn.id) = some (EventLoop.sockEvents conn.sock)
  freeWrites : wr none = some l.pools.writes
  queues : ∀ conn ∈ l.reserved, wr (some conn.id) = some (conn.sock.queue.map WriteOp.id)
  data : ∀ conn ∈ l.reserved, h.data conn.id = conn.client.map Client.id
  connected : connected.Perm l.usedClients

/-- The loop `l` is in memory after some operations. -/
def Reached (l : EventLoop) : Prop :=
  ∃ ops h ev wr connected, init.exec ops = some h ∧ h.Holds l ev wr connected

/-- The memory after `LL_INIT`. -/
theorem represents_initLinks {ι : Type} [DecidableEq ι] (free : ι) {size : ℕ} (hpos : 0 < size)
    (lists : ι → Option (List ℕ)) (hfree : lists free = some (List.range size))
    (hlists : ∀ l, l ≠ free → lists l = none ∨ lists l = some []) :
    (initLinks free size).Represents lists := by
  -- all lists but the free one are empty
  have hcases : ∀ {l xs}, lists l = some xs → (l = free ∧ xs = List.range size) ∨ xs = [] := by
    intro l xs hl
    by_cases hlf : l = free
    · subst hlf
      exact .inl ⟨rfl, Option.some.inj (hl.symm.trans hfree)⟩
    · rcases hlists l hlf with h0 | h0
      · simp [h0] at hl
      · exact .inr (Option.some.inj (hl.symm.trans h0))
  -- each element points to the one behind it, the last one to nothing
  have hchain : ∀ n a, a + n = size → Links.Chain (initLinks free size).next
      (if a < size then some a else none) (List.range' a n) := by
    intro n
    induction n with
    | zero =>
      intro a ha
      simp only [List.range'_zero, Links.Chain]
      rw [if_neg (by omega)]
    | succ n ih =>
      intro a ha
      rw [List.range'_succ, if_pos (by omega)]
      exact ⟨rfl, ih (a + 1) (by omega)⟩
  refine ⟨fun l xs hl => ?_, fun l xs hl => ?_, fun l xs l' ys hne hl hl' => ?_, fun l xs hl => ?_⟩
  · rcases hcases hl with ⟨rfl, rfl⟩ | rfl
    · have := hchain size 0 (by omega)
      rw [if_pos hpos] at this
      simpa [initLinks, List.range_eq_range'] using this
    · by_cases hlf : l = free
      · subst hlf
        rw [hfree] at hl
        have : size = 0 := by simpa using congrArg List.length (Option.some.inj hl)
        omega
      · simp [initLinks, Links.Chain, hlf]
  · rcases hcases hl with ⟨rfl, rfl⟩ | rfl
    · exact List.nodup_range
    · exact List.nodup_nil
  · rcases hcases hl with ⟨rfl, rfl⟩ | rfl
    · rcases hcases hl' with ⟨rfl, rfl⟩ | rfl
      · exact absurd rfl hne
      · simp
    · simp
  · rcases hcases hl with ⟨rfl, rfl⟩ | rfl
    · simp [initLinks]
    · simp

section Steps

variable {l : EventLoop} {connected : List ℕ}

/-- A family of two lists. -/
theorem update_two (f : Bool → Option (List ℕ)) (xs ys : List ℕ) :
    Function.update (Function.update f false (some xs)) true (some ys) =
      fun used => some (if used then ys else xs) := by
  funext used
  cases used <;> simp

theorem update_two' (f : Bool → Option (List ℕ)) (xs ys : List ℕ) :
    Function.update (Function.update f true (some ys)) false (some xs) =
      fun used => some (if used then ys else xs) := by
  funext used
  cases used <;> simp

/-- The listening socket is created and gets its event. -/
theorem reached_init : Reached EventLoop.init := by
  have hs := represents_initLinks false (show 0 < eventMaxSockets by decide)
    (fun used => some (if used then [] else List.range eventMaxSockets)) rfl (by simp)
  have hc := represents_initLinks false (show 0 < eventMaxSockets - 1 by decide)
    (fun used => some (if used then [] else List.range (eventMaxSockets - 1))) rfl (by simp)
  have he := represents_initLinks (none : Option ℕ) (show 0 < eventMaxEvents by decide)
    (Function.update (fun _ => none) none (some (List.range eventMaxEvents))) (by simp)
    (fun l hl => .inl (by simp [hl]))
  have hw := represents_initLinks (none : Option ℕ) (show 0 < eventWriteQueueSize by decide)
    (Function.update (fun _ => none) none (some (List.range eventWriteQueueSize))) (by simp)
    (fun l hl => .inl (by simp [hl]))
  -- the listening socket takes the first socket and the first event
  obtain ⟨hfst, hpop, hout⟩ := hs.pop (l := false) (show _ = some [0, 1, 2] by decide)
  have hpush := hpop.push (l := true) (show _ = some [] by decide) hout (by decide)
  have hfree : Function.update (Function.update (fun _ => none) none
      (some (List.range eventMaxEvents))) (some 0) (some []) none =
      some (0 :: (List.range eventMaxEvents).drop 1) := by decide
  obtain ⟨-, htake⟩ := (he.start (some 0)).moveFront hfree (Function.update_self ..) (by decide)
  refine ⟨[.create, .take 0], _, _, _, [], rfl, ⟨htake, hw.start (some 0), ?_, ?_, ?_, ?_, ?_, ?_, ?_,
    ?_⟩⟩
  · rw [update_two] at hpush
    exact hpush
  · exact hc
  · simp [EventLoop.init]
  · simp [EventLoop.init]
  · simp [EventLoop.init]
  · simp [EventLoop.init]
  · simp [EventLoop.init]
  · simp [EventLoop.init, EventLoop.usedClients]

/-- Connections that are not the one that runs have other sockets. -/
theorem id_ne_of_mem {pre post : List Conn} {conn conn' : Conn}
    (hn : ((pre ++ conn :: post).map Conn.id).Nodup) (hmem : conn' ∈ pre ++ post) :
    conn'.id ≠ conn.id := by
  rw [List.map_append, List.map_cons, List.nodup_middle, List.nodup_cons, ← List.map_append] at hn
  intro heq
  exact hn.1 (heq ▸ List.mem_map_of_mem hmem)

theorem Holds.ids_nodup {h : Heap} (hh : h.Holds l ev wr connected) :
    (l.reserved.map Conn.id).Nodup := by
  have := hh.sockets.nodup true _ rfl
  simp only [if_true] at this
  exact (List.nodup_append.mp this).1

/-- A client has run on one connection. -/
theorem Holds.put {h : Heap} (hh : h.Holds l ev wr connected) {i : ℕ} {conn : Conn} {client : Client}
    (hi : l.reserved[i]? = some conn) (hcl : conn.client = some client) {w : World}
    (hs : Shuffles (l.world conn.sock client) w) :
    ∃ ops h' ev' wr', h.exec ops = some h' ∧ h'.Holds (l.put i conn client w) ev' wr' connected := by
  have hmem := List.mem_of_getElem? hi
  obtain ⟨pre, post, hres, hset, -⟩ := EventLoop.split_at hi
  have hn := hh.ids_nodup
  rw [hres] at hn
  -- what the client does to its own lists is a sequence of moves
  have hx : h.HoldsSock conn.id ((l.world conn.sock client).lists []) ev wr :=
    ⟨hh.events, hh.writes, hh.freeEvents, hh.sockEvents conn hmem, hh.freeWrites,
      hh.queues conn hmem, List.nodup_nil, by simp [World.lists]⟩
  obtain ⟨ops, h', ev', wr', hexec, hx', hsame⟩ := hx.shuffles (hs [])
  -- the other sockets are left alone
  have hold : ∀ conn' ∈ (l.put i conn client w).reserved, conn' ∈ pre ++ post ∨
      conn' = ⟨conn.id, w.sock, some ⟨client.id, w.ctx, w.log⟩⟩ := by
    intro conn' hmem'
    simp only [EventLoop.put, hset, List.mem_append, List.mem_cons] at hmem' ⊢
    rcases hmem' with hmem' | hmem' | hmem'
    · exact .inl (.inl hmem')
    · exact .inr hmem'
    · exact .inl (.inr hmem')
  have hsub : ∀ conn' ∈ pre ++ post, conn' ∈ l.reserved := by
    intro conn' hmem'
    rw [hres]
    simp only [List.mem_append, List.mem_cons] at hmem' ⊢
    rcases hmem' with hmem' | hmem'
    · exact .inl hmem'
    · exact .inr (.inr hmem')
  refine ⟨ops, h', ev', wr', hexec, ⟨hx'.events, hx'.writes, ?_, ?_, hx'.freeEvents, ?_,
    hx'.freeWrites, ?_, ?_, ?_⟩⟩
  · rw [hsame.sockets]
    have := hh.sockets
    simp only [hres, List.map_append, List.map_cons] at this
    simpa [EventLoop.put, hset] using this
  · rw [hsame.clients]
    exact hh.clients
  · intro conn' hmem'
    rcases hold conn' hmem' with hmem' | rfl
    · rw [hsame.events _ (id_ne_of_mem hn hmem')]
      exact hh.sockEvents conn' (hsub conn' hmem')
    · exact hx'.sockEvents
  · intro conn' hmem'
    rcases hold conn' hmem' with hmem' | rfl
    · rw [hsame.writes _ (id_ne_of_mem hn hmem')]
      exact hh.queues conn' (hsub conn' hmem')
    · exact hx'.queue
  · intro conn' hmem'
    rw [hsame.data]
    rcases hold conn' hmem' with hmem' | rfl
    · exact hh.data conn' (hsub conn' hmem')
    · rw [hh.data conn hmem, hcl]
      rfl
  · have := hh.connected
    simp only [EventLoop.usedClients, hres, List.flatMap_append, List.flatMap_cons, hcl] at this
    simpa [EventLoop.usedClients, EventLoop.put, hset] using this

/-- `event_sock_create`: the new socket is the first of the reserved ones. -/
theorem Holds.create {h : Heap} (hh : h.Holds l ev wr connected) {s : ℕ} {sockets : List ℕ}
    (hs : l.sockets = s :: sockets) :
    ∃ h' ev' wr', h.create = some h' ∧ h'.Holds { l with
      sockets := sockets, reserved := ⟨s, EventLoop.refusedSock, none⟩ :: l.reserved } ev' wr'
      connected := by
  -- the socket leaves the free list and becomes the first of the reserved ones
  have hsockets := hh.sockets
  rw [hs] at hsockets
  obtain ⟨hfst, hpop, hout⟩ := hsockets.pop (l := false) (show _ = some (s :: sockets) from rfl)
  have hpush := hpop.push (l := true) (show _ = some (l.reserved.map Conn.id ++ [0]) by simp) hout
    (by rw [Links.pop_size]; exact hsockets.bound false _ rfl s (List.mem_cons_self ..))
  -- no other reserved socket has its identifier
  have hne : ∀ conn ∈ l.reserved, conn.id ≠ s := by
    intro conn hmem heq
    refine hsockets.disjoint true _ false _ (by simp) rfl rfl (a := s) ?_ (List.mem_cons_self ..)
    exact List.mem_append_left _ (heq ▸ List.mem_map_of_mem hmem)
  refine ⟨{ h with
      sockets := (h.sockets.pop false).2.push s true
      events := h.events.setHead (some s) none
      writes := h.writes.setHead (some s) none
      data := Function.update h.data s none }, _, _, by simp [Heap.create, hfst],
    ⟨hh.events.start (some s), hh.writes.start (some s), ?_, hh.clients, ?_, ?_, ?_, ?_, ?_, ?_⟩⟩
  · rw [update_two] at hpush
    exact hpush
  · rw [Function.update_of_ne (by simp)]
    exact hh.freeEvents
  · intro conn hmem
    rcases List.mem_cons.mp hmem with rfl | hmem
    · simp [EventLoop.sockEvents, EventLoop.refusedSock]
    · rw [Function.update_of_ne (by simpa using hne conn hmem)]
      exact hh.sockEvents conn hmem
  · rw [Function.update_of_ne (by simp)]
    exact hh.freeWrites
  · intro conn hmem
    rcases List.mem_cons.mp hmem with rfl | hmem
    · simp [Sock.queue, EventLoop.refusedSock]
    · rw [Function.update_of_ne (by simpa using hne conn hmem)]
      exact hh.queues conn hmem
  · intro conn hmem
    rcases List.mem_cons.mp hmem with rfl | hmem
    · simp
    · simp only
      rw [Function.update_of_ne (hne conn hmem)]
      exact hh.data conn hmem
  · simpa [EventLoop.usedClients] using hh.connected

/-- `http2_new_client` on the new socket. -/
theorem Holds.newClient {h : Heap} {s c r w : ℕ} {clients events : List ℕ} (ctx : Context)
    (hh : h.Holds { l with reserved := ⟨s, EventLoop.refusedSock, none⟩ :: l.reserved } ev wr connected)
    (hc : l.clients = c :: clients) (he : l.pools.events = r :: w :: events) :
    ∃ h' ev', h.exec [.newClient s, .take s, .take s] = some h' ∧ h'.Holds { l with
      clients := clients
      pools.events := events
      reserved := ⟨s, EventLoop.newSock r w, some ⟨c, ctx, []⟩⟩ :: l.reserved } ev' wr
      (connected ++ [c]) := by
  -- the client moves behind the connected ones, and the two events to the new socket
  have hclients := hh.clients
  rw [hc] at hclients
  have hunused : (fun used => some (if used then connected else c :: clients)) false =
      some (c :: clients) := rfl
  have hused : (fun used => some (if used then connected else c :: clients)) true =
      some connected := rfl
  obtain ⟨k, hk, hmove⟩ := hclients.moveBack hunused hused (by simp)
  have hfree : ev none = some (r :: w :: events) := he ▸ hh.freeEvents
  have hsock : ev (some s) = some [] := hh.sockEvents _ (List.mem_cons_self ..)
  obtain ⟨-, htake⟩ := hh.events.moveFront hfree hsock (by simp)
  have hfree' : Function.update (Function.update ev none (some (w :: events))) (some s)
      (some [r]) none = some (w :: events) := by
    rw [Function.update_of_ne (by simp), Function.update_self]
  obtain ⟨-, htake'⟩ := htake.moveFront hfree' (Function.update_self ..) (by simp)
  -- the lists of the other sockets stay
  have hn := hh.ids_nodup
  have hne : ∀ conn ∈ l.reserved, conn.id ≠ s := fun conn hmem =>
    @id_ne_of_mem [] _ _ _ hn hmem
  refine ⟨{ h with
      events := ((h.events.moveFront none (some s)).2.moveFront none (some s)).2
      clients := k
      data := Function.update h.data s (some c) }, _, by simp [exec, exec1, Heap.newClient, hk],
    ⟨htake', hh.writes, hh.sockets, ?_, ?_, ?_, hh.freeWrites, ?_, ?_, ?_⟩⟩
  · rw [update_two] at hmove
    exact hmove
  · rw [Function.update_of_ne (by simp), Function.update_self]
  · intro conn hmem
    rcases List.mem_cons.mp hmem with rfl | hmem
    · simp [EventLoop.sockEvents, EventLoop.newSock]
    · rw [update_others (hne conn hmem), update_others (hne conn hmem)]
      exact hh.sockEvents conn (List.mem_cons_of_mem _ hmem)
  · intro conn hmem
    rcases List.mem_cons.mp hmem with rfl | hmem
    · simpa [Sock.queue, EventLoop.newSock, EventLoop.refusedSock] using
        hh.queues _ (List.mem_cons_self ..)
    · exact hh.queues conn (List.mem_cons_of_mem _ hmem)
  · intro conn hmem
    rcases List.mem_cons.mp hmem with rfl | hmem
    · simp
    · simp only
      rw [Function.update_of_ne (hne conn hmem)]
      exact hh.data conn (List.mem_cons_of_mem _ hmem)
  · have hperm := hh.connected
    simp only [EventLoop.usedClients, List.flatMap_cons] at hperm ⊢
    exact (List.perm_append_singleton c connected).trans (hperm.cons c)

theorem Holds.accept {h : Heap} (hh : h.Holds l ev wr connected) (accepted : Bool)
    (ha : (l.accept accepted).aborted = none) :
    ∃ ops h' ev' wr' connected', h.exec ops = some h' ∧
      h'.Holds (l.accept accepted) ev' wr' connected' := by
  revert ha
  unfold EventLoop.accept
  cases hs : l.sockets with
  | nil => exact fun _ => ⟨[], h, ev, wr, connected, rfl, hh⟩
  | cons s sockets =>
    obtain ⟨h₁, ev₁, wr₁, hcreate, hh₁⟩ := hh.create hs
    dsimp only
    split
    -- a socket without a client: the accept failed, or the contexts are used up
    · exact fun _ => ⟨[.create], h₁, ev₁, wr₁, connected, by simp [exec, exec1, hcreate], hh₁⟩
    · cases hc : l.clients with
      | nil =>
        rw [hc] at hh₁
        exact fun _ => ⟨[.create], h₁, ev₁, wr₁, connected, by simp [exec, exec1, hcreate], hh₁⟩
      | cons c clients =>
        simp only
        split
        · rename_i r w events he
          intro _
          -- a client takes a context, and an event for each direction
          obtain ⟨h₂, ev₂, hexec, hh₂⟩ :=
            Holds.newClient (l := { l with sockets := sockets }) .init hh₁ hc he
          refine ⟨[.create] ++ [.newClient s, .take s, .take s], h₂, ev₂, wr₁, _, ?_, hh₂⟩
          rw [exec_append]
          simpa [exec, exec1, hcreate] using hexec
        · simp

/-- `http2_on_client_close` takes the context of the socket out of the connected ones. -/
theorem Holds.onClientClose {h : Heap} (hh : h.Holds l ev wr connected) {i : ℕ} {conn : Conn}
    (hi : l.reserved[i]? = some conn) :
    ∃ k connected', h.onClientClose conn.id = some { h with clients := k } ∧
      k.Represents (fun used => some (if used then connected' else
        (conn.client.map Client.id).toList ++ l.clients)) ∧
      connected'.Perm ((l.reserved.eraseIdx i).flatMap fun conn => (conn.client.map Client.id).toList) := by
  have hmem := List.mem_of_getElem? hi
  obtain ⟨pre, post, hres, -, herase⟩ := EventLoop.split_at hi
  have hperm := hh.connected
  simp only [EventLoop.usedClients, hres, List.flatMap_append, List.flatMap_cons] at hperm
  have hdata := hh.data conn hmem
  cases hcl : conn.client with
  | none =>
    simp only [hcl, Option.map_none] at hdata
    -- a socket without a client leaves the lists alone
    refine ⟨h.clients, connected, by simp [Heap.onClientClose, hdata], by simpa using hh.clients, ?_⟩
    simpa [hcl, herase] using hperm
  | some client =>
    simp only [hcl, Option.map_some, Option.toList_some, List.singleton_append] at hdata hperm
    have hc : client.id ∈ connected := hperm.mem_iff.mpr (by simp)
    -- the context is found in the list of the connected ones, and moved
    obtain ⟨k, hk, hrep, hout⟩ := hh.clients.delete (l := true) rfl hc
    have hb : client.id < k.size := by
      rw [Links.delete_size hk]
      exact hh.clients.bound true connected rfl _ hc
    have hpush := hrep.push (l := false) (show _ = some l.clients by simp) hout hb
    rw [update_two'] at hpush
    refine ⟨k.push client.id false, connected.erase client.id, by simp [Heap.onClientClose, hdata, hk],
      by simpa using hpush, ?_⟩
    have hcons := (List.perm_cons_erase hc).symm.trans (hperm.trans List.perm_middle)
    simpa [herase] using hcons.cons_inv

theorem Holds.close {h : Heap} (hh : h.Holds l ev wr connected) (i : ℕ) :
    ∃ ops h' ev' wr' connected', h.exec ops = some h' ∧ h'.Holds (l.close i) ev' wr' connected' := by
  unfold EventLoop.close
  cases hi : l.reserved[i]? with
  | none => exact ⟨[], h, ev, wr, connected, rfl, hh⟩
  | some conn =>
    simp only
    split
    · have hmem := List.mem_of_getElem? hi
      obtain ⟨k, connected', hclose, hclients, hperm⟩ := hh.onClientClose hi
      obtain ⟨pre, post, hres, -, herase⟩ := EventLoop.split_at hi
      have hn := hh.ids_nodup
      rw [hres] at hn
      -- the socket goes from the reserved ones to the free ones
      have hlist : l.reserved.map Conn.id ++ [0] =
          pre.map Conn.id ++ conn.id :: (post.map Conn.id ++ [0]) := by simp [hres]
      have hused : (fun used => some (if used then l.reserved.map Conn.id ++ [0] else l.sockets))
          true = some (pre.map Conn.id ++ conn.id :: (post.map Conn.id ++ [0])) := by simp [hlist]
      have hunused : (fun used => some (if used then l.reserved.map Conn.id ++ [0] else l.sockets))
          false = some l.sockets := rfl
      have htrans := hh.sockets.transfer hused hunused (by simp)
      have hchain := hh.sockets.chain true _ rfl
      have hlen := hh.sockets.length_le (l := true) rfl
      simp only [if_true, hlist] at hchain hlen
      have hnot : conn.id ∉ pre.map Conn.id := by
        rw [List.map_append, List.map_cons] at hn
        intro hin
        exact (List.nodup_append.mp hn).2.2 _ hin _ (List.mem_cons_self ..) rfl
      have hprev : h.sockets.findPrev conn.id (h.sockets.size + 1) none (h.sockets.head true) =
          some (some (pre.map Conn.id).getLast?) := by
        rw [Links.findPrev_eq hchain hnot (by simp at hlen ⊢; omega)]
        simp
      -- its events go to the free ones
      have hsock := hh.sockEvents conn hmem
      have hdrop := hh.events.drop (some conn.id)
      have hfree : Function.update ev (some conn.id) none none = some l.pools.events := by
        rw [Function.update_of_ne (by simp), hh.freeEvents]
      have hout : ∀ e ∈ EventLoop.sockEvents conn.sock,
          Links.Outside (Function.update ev (some conn.id) none) e ∧ e < h.events.size := by
        intro e he
        refine ⟨fun t ys hys hin => ?_, hh.events.bound _ _ hsock e he⟩
        by_cases ht : t = some conn.id
        · simp [ht] at hys
        · rw [Function.update_of_ne ht] at hys
          exact hh.events.disjoint _ _ _ _ (Ne.symm ht) hsock hys he hin
      obtain ⟨ks, hks, hrep⟩ := hdrop.pushAll hfree (hh.events.chain _ _ hsock)
        (hh.events.nodup _ _ hsock) hout (hh.events.length_le hsock)
      have hsub : ∀ conn' ∈ l.reserved.eraseIdx i, conn' ∈ l.reserved ∧ conn'.id ≠ conn.id := by
        intro conn' hmem'
        exact ⟨List.mem_of_mem_eraseIdx hmem', id_ne_of_mem hn (herase ▸ hmem')⟩
      refine ⟨[.close conn.id], { h with
          clients := k
          events := ks
          sockets := (h.sockets.push conn.id false).unlink true (pre.map Conn.id).getLast?
            (h.sockets.next conn.id) }, _, wr, connected', ?_,
        ⟨hrep, hh.writes, ?_, hclients, ?_, ?_, hh.freeWrites, ?_, ?_, hperm⟩⟩
      · simp [exec, exec1, hclose, closeSock, hprev, hks]
      · rw [update_two'] at htrans
        simpa [herase] using htrans
      · rw [Function.update_self]
      · intro conn' hmem'
        obtain ⟨hin, hne⟩ := hsub conn' hmem'
        rw [update_others' hne]
        exact hh.sockEvents conn' hin
      · intro conn' hmem'
        exact hh.queues conn' (hsub conn' hmem').1
      · intro conn' hmem'
        exact hh.data conn' (hsub conn' hmem').1
    · exact ⟨[], h, ev, wr, connected, rfl, hh⟩

/-- A context is connected exactly when a reserved socket points to it. -/
theorem Holds.mem_connected {h : Heap} (hh : h.Holds l ev wr connected) (c : ℕ) :
    c ∈ connected ↔ ∃ conn ∈ l.reserved, h.data conn.id = some c := by
  rw [hh.connected.mem_iff, EventLoop.usedClients, List.mem_flatMap]
  refine exists_congr fun conn => and_congr_right fun hmem => ?_
  rw [hh.data conn hmem, Option.mem_toList]

/-- The lists of the loop are in memory after every run in which no assertion failed. -/
theorem reached_run {server : Server} {actions : List EventLoop.Action}
    (ha : (EventLoop.run server actions).aborted = none) : Reached (EventLoop.run server actions) := by
  induction actions using List.reverseRecOn with
  | nil => exact reached_init
  | append_singleton actions a ih =>
    rw [EventLoop.run_append_singleton] at ha ⊢
    rcases @EventLoop.step_sound server (EventLoop.run server actions) a with
      hstep | ⟨accepted, hnone, hstep⟩ | ⟨i, m, hm, hnone, hstep⟩ | ⟨i, hnone, hstep⟩
    · rw [hstep] at ha ⊢
      exact ih ha
    · rw [hstep] at ha ⊢
      obtain ⟨ops, h, ev, wr, connected, hexec, hh⟩ := ih hnone
      obtain ⟨ops', h', ev', wr', connected', hexec', hh'⟩ := hh.accept accepted ha
      exact ⟨ops ++ ops', h', ev', wr', connected', by rw [exec_append, hexec]; exact hexec', hh'⟩
    · rw [hstep] at ha ⊢
      obtain ⟨ops, h, ev, wr, connected, hexec, hh⟩ := ih hnone
      have hkept := @EventLoop.kept_run server actions
      revert ha
      unfold EventLoop.onConn
      split
      · exact fun _ => ⟨ops, h, ev, wr, connected, hexec, hh⟩
      · rename_i conn hi
        split
        · exact fun _ => ⟨ops, h, ev, wr, connected, hexec, hh⟩
        · rename_i client hcl
          -- an action of a client moves elements between lists, and the links can follow
          have hwp := hm _ (hkept.good hnone hi hcl)
          split
          · rename_i w hrun
            simp only [Program.wp, hrun] at hwp
            obtain ⟨ops', h', ev', wr', hexec', hh'⟩ := hh.put hi hcl hwp.2
            exact fun _ =>
              ⟨ops ++ ops', h', ev', wr', connected, by rw [exec_append, hexec]; exact hexec', hh'⟩
          · simp
    · rw [hstep] at ha ⊢
      obtain ⟨ops, h, ev, wr, connected, hexec, hh⟩ := ih hnone
      obtain ⟨ops', h', ev', wr', connected', hexec', hh'⟩ := hh.close i
      exact ⟨ops ++ ops', h', ev', wr', connected', by rw [exec_append, hexec]; exact hexec', hh'⟩

end Steps

end Heap

/-- **Pool conservation.** After every run in which no assertion failed, each socket, event, write
operation and context is free or in use, and only once; their lists are linked in memory, finite and
without cycles, as the operations of the code have left them; and a context is connected exactly when
a reserved socket points to it. -/
theorem pools_conserved (server : Server) (actions : List EventLoop.Action)
    (ha : (EventLoop.run server actions).aborted = none) :
    (EventLoop.run server actions).Conserved ∧
      ∃ ops h ev wr connected, Heap.init.exec ops = some h ∧
        h.Holds (EventLoop.run server actions) ev wr connected ∧
        ∀ c, c ∈ connected ↔
          ∃ conn ∈ (EventLoop.run server actions).reserved, h.data conn.id = some c := by
  obtain ⟨ops, h, ev, wr, connected, hexec, hh⟩ := Heap.reached_run ha
  exact ⟨(EventLoop.kept_run actions).conserved ha, ops, h, ev, wr, connected, hexec, hh,
    hh.mem_connected⟩

/-- Two clients connect, one of them leaves, and a third one takes its place. -/
theorem pools_conserved_reuse :
    (EventLoop.run .empty [.accept true, .accept true, .recvClosed 1 0, .close 1, .accept true]).aborted =
        none ∧
      (EventLoop.run .empty [.accept true, .accept true, .recvClosed 1 0, .close 1,
        .accept true]).Conserved :=
  ⟨by decide +kernel, (pools_conserved .empty _ (by decide +kernel)).1⟩

end Two
