import Two.Http2.Handlers

/-!
# The event loop

The steps of `event.c` on one socket, and the loop over all of them. The system decides what `recv`
and `send` return, when a timer is due and when a client connects: an `Action` says what happens
next, and a run is a list of actions. The order in which `event_loop` polls the sockets is not
fixed, so every order of the source is among the runs.

## Main definitions

* `eventSockClose`, `eventSockRead`, `eventSockHandleRead`, `eventSockWrite`, `eventSockTimer`
* `Conn`, `EventLoop`: the reserved sockets with their clients, and the pools
* `Action`, `EventLoop.step`, `EventLoop.run`
-/

namespace Two

section Socket

variable (server : Server)

/-- Calls the callback of an operation that was taken from the queue. -/
def callOp (op : WriteOp) (status : ℤ) : M Unit := do
  record (.completed op status)
  modify fun w => { w with callback := op.stream }
  callWriteCb op.cb status
  modify fun w => { w with callback := none }

/-- The end of `event_sock_close`: `op` was taken from the queue, and all operations go back to the
pool. -/
def dropQueue (op : Option WriteOp) : M Unit := modify fun w =>
  let ops := op.toList ++ w.sock.queue
  { w with
    sock.write := w.sock.write.map fun e => { e with queue := [] }
    loop.writes := (ops.map WriteOp.id).reverse ++ w.loop.writes }

/-- The write part of `event_sock_close`; `notified` is whether the read callback was called. -/
def closeWrite (status : ℤ) (notified : Bool) : M Unit := do
  let w ← get
  match w.sock.write with
  | none => return ()
  | some e =>
    set { w with
      sock.write := some { e with buf := { e.buf.finish with bytes := [] }, queue := e.queue.tail } }
    match e.queue.head? with
    | none => return ()
    | some op =>
      -- the write callback hears of the end only if no read callback did
      (if notified then return () else callOp op status)
      dropQueue (some op)

/-- `event_sock_close`. -/
def eventSockClose (status : ℤ) : M Unit := do
  let w ← get
  match w.sock.read with
  | none => closeWrite status false
  | some e =>
    set { w with sock.read := some { e with buf := e.buf.finish } }
    let _ ← callReadCb server e.cb status []
    closeWrite status true

/-- `event_sock_read` when `recv` returns some bytes. -/
def eventSockRead (bytes : Bytes) : M Unit := modify fun w =>
  { w with sock.read := w.sock.read.map fun e => { e with buf := e.buf.push bytes } }

/-- `event_sock_read` when `recv` returns zero (for a full read buffer too) or an error. -/
def eventSockReadClosed (status : ℤ) : M Unit := do
  let w ← get
  if w.sock.read.isSome then eventSockClose server status else return ()

/-- `event_sock_handle_read`. The pointer to the read event outlives the callback, which may have
released it. -/
def eventSockHandleRead : M Unit := do
  let w ← get
  match w.sock.read with
  | none => return ()
  | some e =>
    let bytes := e.buf.bytes
    -- an empty buffer is not passed on
    (if bytes.length > 0 then do
      let readlen ← callReadCb server e.cb bytes.length bytes
      record fun _ => .consumed (bytes.take readlen)
      modify fun w =>
        { w with sock.read := w.sock.read.map fun e => { e with buf := e.buf.pop readlen } }
    else return ())
    if e.buf.ended then
      -- the callback is read again: the first one may have replaced it, or released the event
      let w ← get
      match w.sock.read with
      | none => throw .nullCallback
      | some e =>
        let _ ← callReadCb server e.cb (-1) []
    else return ()

/-- The loop of `event_sock_handle_write`; every operation has at least one byte. -/
def handleWriteLoop : ℕ → ℕ → M Unit
  | 0, _ => return ()
  | fuel + 1, written => do
    let w ← get
    match w.sock.write with
    | none => return ()
    | some e =>
      match e.queue with
      | [] => return ()
      | op :: queue =>
        if written = 0 then return ()
        else if op.bytes ≤ written then
          set { w with sock.write := some { e with queue := queue } }
          callOp op 0
          modify fun w => { w with loop.writes := op.id :: w.loop.writes }
          handleWriteLoop fuel (written - op.bytes)
        else
          -- an operation that went out in part stays at the head
          set { w with
            sock.write := some { e with queue := { op with bytes := op.bytes - written } :: queue } }

/-- `event_sock_write` when `send` accepts `written` bytes. -/
def eventSockWrite (written : ℕ) : M Unit := do
  let w ← get
  match w.sock.write with
  | none => return ()
  | some e =>
    let written := min written e.buf.bytes.length
    set { w with sock.write := some { e with buf := e.buf.pop written } }
    handleWriteLoop written written

/-- `event_sock_write` when `send` fails. -/
def eventSockWriteError (status : ℤ) : M Unit := do
  let w ← get
  if w.sock.write.isSome then eventSockClose server status else return ()

/-- One timer of `event_loop_timers` that is due. -/
def eventSockTimer (id : ℕ) : M Unit := do
  let w ← get
  if id ∈ w.sock.timers then
    let _ ← onSettingsTimeout
    modify fun w =>
      { w with sock.timers := w.sock.timers.erase id, loop.events := id :: w.loop.events }
  else return ()

end Socket

/-- A client socket that owns a context, which is the element `id` of `clients`. -/
structure Client where
  id : ℕ
  ctx : Context
  log : List Entry

/-- A reserved client socket, the element `id` of `sockets`. -/
structure Conn where
  id : ℕ
  sock : Sock
  client : Option Client

/-- `event_loop_t` with the free contexts of `http2.c`. The listening socket, which is always
reserved, is left out. -/
structure EventLoop where
  pools : Pools
  sockets : List ℕ
  clients : List ℕ
  reserved : List Conn
  aborted : Option Assertion

namespace EventLoop

/-- The loop after `event_listen`: the listening socket has taken one socket and one event. -/
def init : EventLoop where
  pools := ⟨(List.range eventMaxEvents).drop 1, List.range eventWriteQueueSize, 0⟩
  sockets := (List.range eventMaxSockets).drop 1
  clients := List.range (eventMaxSockets - 1)
  reserved := []
  aborted := none

/-- The socket that a failed `event_accept` or `http2_new_client` leaves behind. -/
def refusedSock : Sock := ⟨.closing, none, none, []⟩

/-- A socket after `http2_new_client`, with the events `r` and `w`. -/
def newSock (r w : ℕ) : Sock where
  state := .connected
  read := some ⟨r, .init http2SockReadSize, .waitingForPreface⟩
  write := some ⟨w, .init http2SockWriteSize, []⟩
  timers := []

/-- `on_new_connection`, which `event_sock_connect` calls when there is a free socket. -/
def accept (l : EventLoop) (accepted : Bool) : EventLoop :=
  match l.sockets with
  | [] => l
  | s :: sockets =>
    let l := { l with sockets := sockets }
    -- the socket stays reserved until the loop closes it
    if !accepted then { l with reserved := ⟨s, refusedSock, none⟩ :: l.reserved }
    else
      match l.clients with
      | [] => { l with reserved := ⟨s, refusedSock, none⟩ :: l.reserved }
      | c :: clients =>
        match l.pools.events with
        | r :: w :: events =>
          { l with
            clients := clients
            pools.events := events
            reserved := ⟨s, newSock r w, some ⟨c, .init, []⟩⟩ :: l.reserved }
        | _ => { l with aborted := some .noEvent }

/-- The world in which the client of a connection runs. -/
def world (l : EventLoop) (sock : Sock) (client : Client) : World :=
  ⟨⟨l.pools, sock, client.ctx, none⟩, client.log⟩

/-- The loop after the client of connection `i` ran. -/
def put (l : EventLoop) (i : ℕ) (conn : Conn) (client : Client) (w : World) : EventLoop :=
  { l with
    pools := w.loop
    reserved := l.reserved.set i ⟨conn.id, w.sock, some ⟨client.id, w.ctx, w.log⟩⟩ }

/-- Runs an action on connection `i`. A failed assertion ends the program. -/
def onConn (l : EventLoop) (i : ℕ) (m : M Unit) : EventLoop :=
  match l.reserved[i]? with
  | none => l
  | some conn =>
    match conn.client with
    | none => l
    | some client =>
      match m (l.world conn.sock client) with
      | .ok _ w => l.put i conn client w
      | .error e w => { l.put i conn client w with aborted := some e }

/-- The list `events` of a socket: an event is put in front of those that the socket already has,
and `http2_new_client` starts the read event before the write event. -/
def sockEvents (s : Sock) : List ℕ :=
  s.timers ++ (s.write.map EventWrite.id).toList ++ (s.read.map EventRead.id).toList

/-- `event_loop_close` for connection `i`, with the callback `http2_on_client_close`. -/
def close (l : EventLoop) (i : ℕ) : EventLoop :=
  match l.reserved[i]? with
  | none => l
  | some conn =>
    if conn.sock.state = .closing ∧ conn.sock.queue = [] then
      { l with
        reserved := l.reserved.eraseIdx i
        sockets := conn.id :: l.sockets
        clients := (conn.client.map Client.id).toList ++ l.clients
        pools.events := (sockEvents conn.sock).reverse ++ l.pools.events }
    else l

/-- What the loop does next. The number after a connection is what the system reports. -/
inductive Action
  | accept (accepted : Bool)
  | recv (i : ℕ) (bytes : Bytes)
  | recvClosed (i : ℕ) (errno : ℕ)
  | pending (i : ℕ)
  | send (i : ℕ) (written : ℕ)
  | sendError (i : ℕ) (errno : ℕ)
  | timer (i : ℕ) (id : ℕ)
  | close (i : ℕ)
  deriving DecidableEq, Repr

variable (server : Server)

/-- One step of the loop. Sockets are read from only while they are connected. -/
def step (l : EventLoop) (a : Action) : EventLoop :=
  if l.aborted.isSome then l
  else
    match a with
    | .accept accepted => l.accept accepted
    | .recv i bytes => l.onConn i do
        if (← get).sock.state = .connected then eventSockRead bytes else return ()
    | .recvClosed i errno => l.onConn i do
        if (← get).sock.state = .connected then eventSockReadClosed server (-errno) else return ()
    | .pending i => l.onConn i (eventSockHandleRead server)
    | .send i written => l.onConn i (eventSockWrite written)
    | .sendError i errno => l.onConn i (eventSockWriteError server (-(errno + 1)))
    | .timer i id => l.onConn i (eventSockTimer id)
    | .close i => l.close i

/-- A run of the loop. -/
def run (actions : List Action) : EventLoop := actions.foldl (step server) init

theorem run_append_singleton (actions : List Action) (a : Action) :
    run server (actions ++ [a]) = step server (run server actions) a := by
  simp [run]

end EventLoop

end Two
