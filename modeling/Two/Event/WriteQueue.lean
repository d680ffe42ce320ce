import Two.Event.State
import Two.Library.Trace

/-!
# The write queue of a socket

`event_write`, `event_sock_write` and `event_sock_handle_write` on one socket, for callbacks that
are not known: a callback of type `κ` answers with the calls of `event_write` that it makes, and
`react` may decide on them from all that happened before.

Bytes are numbered from one on in the order in which they are queued. The number of an operation's
last byte identifies the operation; it is not in the source.

## Main definitions

* `WriteQueue`: the write event of a socket, the pool of operations and a trace
* `WriteQueue.eventWrite`, `WriteQueue.eventSockHandleWrite`, `WriteQueue.eventSockWrite`
* `WriteQueue.run`: a run of calls of `event_write` and of steps of `event_sock_write`
* `WriteQueue.Accounted`: the accounting of the queue between the steps

## Main results

* `WriteQueue.run_accounted`: the queue is accounted for after every run
-/

namespace Two

open Trace (Along)

/-- An `event_write_op_t`, with the number of its last byte. -/
structure QueuedOp (κ : Type) where
  id : ℕ
  bytes : ℕ
  cb : κ
  last : ℕ
  deriving DecidableEq, Repr

/-- An operation as it stands in the trace. -/
def QueuedOp.key {κ : Type} (op : QueuedOp κ) : ℕ × κ := (op.last, op.cb)

/-- What happens to a write queue. -/
inductive QueueEvent (κ : Type)
  /-- `event_write` queues an operation. -/
  | queued (last : ℕ) (cb : κ)
  /-- `send` accepts bytes. -/
  | sent (written : ℕ)
  /-- The callback of an operation is called. -/
  | called (last : ℕ) (cb : κ) (status : ℤ)
  deriving DecidableEq, Repr

/-- An assertion that fails, or a loop without end. -/
inductive QueueFault
  | noWriteOp
  | diverges
  deriving DecidableEq, Repr

/-- The write event of a socket with the free operations of the loop, and a trace. -/
structure WriteQueue (κ : Type) where
  buf : Fifo
  queue : List (QueuedOp κ)
  writes : List ℕ
  log : List (QueueEvent κ)
  deriving DecidableEq, Repr

namespace QueueEvent

variable {κ : Type}

/-- The operation that an event queues. -/
def queued? : QueueEvent κ → Option (ℕ × κ)
  | .queued last cb => some (last, cb)
  | _ => none

/-- The operation whose callback is called. -/
def called? : QueueEvent κ → Option (ℕ × κ)
  | .called last cb _ => some (last, cb)
  | _ => none

/-- The bytes that `send` accepts. -/
def sent? : QueueEvent κ → Option ℕ
  | .sent written => some written
  | _ => none

/-- The operations that were queued, in their order. -/
def queuedOps (log : List (QueueEvent κ)) : List (ℕ × κ) := log.filterMap queued?

/-- The operations whose callbacks were called, in their order. -/
def calledOps (log : List (QueueEvent κ)) : List (ℕ × κ) := log.filterMap called?

/-- All bytes that were sent. -/
def sentTotal (log : List (QueueEvent κ)) : ℕ := (log.filterMap sent?).sum

/-- The bytes that were sent before the last call of `send`. -/
def sentBefore (log : List (QueueEvent κ)) : ℕ := ((log.filterMap sent?).dropLast).sum

/-- A callback is called in the step that sends the last byte of its operation. -/
def InTime (before : List (QueueEvent κ)) : QueueEvent κ → Prop
  | .called last _ status => status = 0 ∧ sentBefore before < last ∧ last ≤ sentTotal before
  | _ => True

section Append

variable (log : List (QueueEvent κ)) (last n : ℕ) (cb : κ) (status : ℤ)

@[simp] theorem queuedOps_queued : queuedOps (log ++ [.queued last cb]) = queuedOps log ++ [(last, cb)] := by
  simp [queuedOps, queued?]

@[simp] theorem queuedOps_sent : queuedOps (log ++ [.sent n]) = queuedOps log := by
  simp [queuedOps, List.filterMap_cons, queued?]

@[simp] theorem queuedOps_called : queuedOps (log ++ [.called last cb status]) = queuedOps log := by
  simp [queuedOps, List.filterMap_cons, queued?]

@[simp] theorem calledOps_queued : calledOps (log ++ [.queued last cb]) = calledOps log := by
  simp [calledOps, List.filterMap_cons, called?]

@[simp] theorem calledOps_sent : calledOps (log ++ [.sent n]) = calledOps log := by
  simp [calledOps, List.filterMap_cons, called?]

@[simp] theorem calledOps_called :
    calledOps (log ++ [.called last cb status]) = calledOps log ++ [(last, cb)] := by
  simp [calledOps, called?]

@[simp] theorem sentTotal_queued : sentTotal (log ++ [.queued last cb]) = sentTotal log := by
  simp [sentTotal, List.filterMap_cons, sent?]

@[simp] theorem sentTotal_sent : sentTotal (log ++ [.sent n]) = sentTotal log + n := by
  simp [sentTotal, sent?]

@[simp] theorem sentTotal_called : sentTotal (log ++ [.called last cb status]) = sentTotal log := by
  simp [sentTotal, List.filterMap_cons, sent?]

@[simp] theorem sentBefore_queued : sentBefore (log ++ [.queued last cb]) = sentBefore log := by
  simp [sentBefore, List.filterMap_cons, sent?]

@[simp] theorem sentBefore_sent : sentBefore (log ++ [.sent n]) = sentTotal log := by
  simp [sentBefore, sentTotal, sent?]

@[simp] theorem sentBefore_called : sentBefore (log ++ [.called last cb status]) = sentBefore log := by
  simp [sentBefore, List.filterMap_cons, sent?]

end Append

end QueueEvent

namespace WriteQueue

open QueueEvent

variable {κ : Type}

/-- The queue after `event_write_enable`. -/
def init (maxlen : ℕ) (pool : List ℕ) : WriteQueue κ := ⟨.init maxlen, [], pool, []⟩

/-- `event_write`. -/
def eventWrite (s : WriteQueue κ) (bytes : Bytes) (cb : κ) : Except QueueFault (WriteQueue κ) :=
  let toWrite := s.buf.pushed bytes
  let buf := s.buf.push bytes
  if toWrite > 0 then
    match s.writes with
    | [] => .error .noWriteOp
    | id :: writes =>
      let last := sentTotal s.log + buf.bytes.length
      .ok ⟨buf, s.queue ++ [⟨id, toWrite, cb, last⟩], writes, s.log ++ [.queued last cb]⟩
  else .ok { s with buf := buf }

/-- A sequence of calls of `event_write`. -/
def eventWrites (s : WriteQueue κ) : List (Bytes × κ) → Except QueueFault (WriteQueue κ)
  | [] => .ok s
  | (bytes, cb) :: calls => do
    let s ← s.eventWrite bytes cb
    eventWrites s calls

section Run

variable (react : WriteQueue κ → κ → List (Bytes × κ))

/-- The call of a callback. -/
def call (s : WriteQueue κ) (op : QueuedOp κ) (status : ℤ) : Except QueueFault (WriteQueue κ) :=
  let s : WriteQueue κ := { s with log := s.log ++ [.called op.last op.cb status] }
  s.eventWrites (react s op.cb)

/-- The loop of `event_sock_handle_write`: an operation that is not finished stays in front. -/
def handleWriteLoop : ℕ → ℕ → WriteQueue κ → Except QueueFault (WriteQueue κ)
  | 0, written, s => if written = 0 then .ok s else .error .diverges
  | fuel + 1, written, s =>
    match s.queue with
    | [] => .ok s
    | op :: queue =>
      if written = 0 then .ok s
      else if op.bytes ≤ written then do
        let s ← call react { s with queue := queue } op 0
        handleWriteLoop fuel (written - op.bytes) { s with writes := op.id :: s.writes }
      else .ok { s with queue := { op with bytes := op.bytes - written } :: queue }

/-- `event_sock_handle_write`; no operation is empty, so every round shortens `written`. -/
def eventSockHandleWrite (s : WriteQueue κ) (written : ℕ) : Except QueueFault (WriteQueue κ) :=
  handleWriteLoop react written written s

/-- `event_sock_write` when `send` accepts `count` bytes, or as many as there are; it accepts none
when it would block. -/
def eventSockWrite (s : WriteQueue κ) (count : ℕ) : Except QueueFault (WriteQueue κ) :=
  let written := min count s.buf.bytes.length
  if written > 0 then
    eventSockHandleWrite react
      { s with buf := s.buf.pop written, log := s.log ++ [.sent written] } written
  else .ok s

end Run

/-- What happens between two steps of the loop. -/
inductive Step (κ : Type)
  | write (bytes : Bytes) (cb : κ)
  | send (count : ℕ)
  deriving DecidableEq, Repr

/-- One step. -/
def step (react : WriteQueue κ → κ → List (Bytes × κ)) (s : WriteQueue κ) :
    Step κ → Except QueueFault (WriteQueue κ)
  | .write bytes cb => s.eventWrite bytes cb
  | .send count => s.eventSockWrite react count

/-- A run from `s`. -/
def runFrom (react : WriteQueue κ → κ → List (Bytes × κ)) (s : WriteQueue κ) :
    List (Step κ) → Except QueueFault (WriteQueue κ)
  | [] => .ok s
  | a :: steps => do
    let s ← s.step react a
    runFrom react s steps

/-- A run on a new socket, with the free operations `pool` and a buffer of `maxlen` bytes. -/
def run (react : WriteQueue κ → κ → List (Bytes × κ)) (maxlen : ℕ) (pool : List ℕ)
    (steps : List (Step κ)) : Except QueueFault (WriteQueue κ) :=
  runFrom react (init maxlen pool) steps

/-- The accounting between two steps: the operations make up the buffer; the callbacks that were
called, each in its step and in the order of the operations, are those of the operations whose last
byte was sent; and every other operation is free or in the queue. -/
structure Accounted (pool : List ℕ) (s : WriteQueue κ) : Prop where
  bytes : (s.queue.map QueuedOp.bytes).sum = s.buf.bytes.length
  distinct : ((queuedOps s.log).map Prod.fst).Pairwise (· < ·)
  called : calledOps s.log = (queuedOps s.log).filter fun op => op.1 ≤ sentTotal s.log
  inTime : Along InTime s.log
  pool : (s.writes ++ s.queue.map QueuedOp.id).Perm pool

/-! ## The invariant -/

/-- The operations of a queue are not empty and follow each other from byte `base` on. -/
def Positioned : ℕ → List (QueuedOp κ) → Prop
  | _, [] => True
  | base, op :: ops => 0 < op.bytes ∧ op.last = base + op.bytes ∧ Positioned op.last ops

theorem positioned_append {base : ℕ} {ops ops' : List (QueuedOp κ)} :
    Positioned base (ops ++ ops') ↔
      Positioned base ops ∧ Positioned (base + (ops.map QueuedOp.bytes).sum) ops' := by
  induction ops generalizing base with
  | nil => simp [Positioned]
  | cons op ops ih =>
    simp only [List.cons_append, Positioned, ih, List.map_cons, List.sum_cons, ← Nat.add_assoc]
    constructor
    · rintro ⟨h0, h1, h2, h3⟩
      exact ⟨⟨h0, h1, h2⟩, h1 ▸ h3⟩
    · rintro ⟨⟨h0, h1, h2⟩, h3⟩
      exact ⟨h0, h1, h2, h1 ▸ h3⟩

theorem Positioned.last_mem {base : ℕ} {ops : List (QueuedOp κ)} (h : Positioned base ops)
    {op : QueuedOp κ} (hop : op ∈ ops) :
    base < op.last ∧ op.last ≤ base + (ops.map QueuedOp.bytes).sum := by
  induction ops generalizing base with
  | nil => simp at hop
  | cons op' ops ih =>
    obtain ⟨h0, h1, h2⟩ := h
    rw [List.map_cons, List.sum_cons]
    rcases List.mem_cons.mp hop with rfl | hop
    · omega
    · have := ih h2 hop
      omega

/-- The state inside `event_sock_handle_write`: of the bytes sent, the last `written` are not yet
taken from the operations, and the operations `held` are neither free nor in the queue. -/
structure Inside (pool held : List ℕ) (written : ℕ) (s : WriteQueue κ) : Prop where
  bytes : (s.queue.map QueuedOp.bytes).sum = s.buf.bytes.length + written
  recent : sentBefore s.log + written ≤ sentTotal s.log
  positioned : ∀ base, sentTotal s.log = base + written → Positioned base s.queue
  queued : queuedOps s.log = calledOps s.log ++ s.queue.map QueuedOp.key
  called : ∀ op ∈ calledOps s.log, op.1 + written ≤ sentTotal s.log
  distinct : ((queuedOps s.log).map Prod.fst).Pairwise (· < ·)
  inTime : Along InTime s.log
  pool : (s.writes ++ held ++ s.queue.map QueuedOp.id).Perm pool

section Steps

variable {pool held : List ℕ} {written : ℕ} {s s' : WriteQueue κ}

theorem Inside.last_le (h : Inside pool held written s) {op : ℕ × κ} (hop : op ∈ queuedOps s.log) :
    op.1 ≤ sentTotal s.log + s.buf.bytes.length := by
  have hbytes := h.bytes
  have hrecent := h.recent
  rw [h.queued] at hop
  rcases List.mem_append.mp hop with hop | hop
  · have := h.called op hop
    omega
  · obtain ⟨q, hq, rfl⟩ := List.mem_map.mp hop
    have hlast := ((h.positioned (sentTotal s.log - written) (by omega)).last_mem hq).2
    simp only [QueuedOp.key]
    omega

/-- `event_write` puts its operation behind all others. -/
theorem Inside.eventWrite (h : Inside pool held written s) {bytes : Bytes} {cb : κ}
    (hw : s.eventWrite bytes cb = .ok s') : Inside pool held written s' := by
  have hlen : (s.buf.push bytes).bytes.length = s.buf.bytes.length + s.buf.pushed bytes := by
    simp [Fifo.push, Fifo.pushed, Nat.min_comm]
  simp only [WriteQueue.eventWrite] at hw
  split_ifs at hw with hpos
  · cases hpool : s.writes with
    | nil => simp [hpool] at hw
    | cons id writes =>
      simp only [hpool, Except.ok.injEq] at hw
      -- the position behind the last byte of the new operation
      obtain ⟨last, hlast⟩ : ∃ last, last = sentTotal s.log + (s.buf.push bytes).bytes.length := ⟨_, rfl⟩
      rw [← hlast] at hw
      subst hw
      refine ⟨?_, ?_, ?_, ?_, ?_, ?_, ?_, ?_⟩
      · simp only [List.map_append, List.sum_append, h.bytes, hlen, List.map_cons, List.map_nil,
          List.sum_singleton]
        omega
      · simpa using h.recent
      · intro base hbase
        have hsent : sentTotal s.log = base + written := by simpa using hbase
        have hbytes := h.bytes
        refine positioned_append.mpr ⟨h.positioned base hsent, hpos, ?_, trivial⟩
        simp only
        omega
      · simp [h.queued, QueuedOp.key]
      · simpa using h.called
      -- it is behind the last bytes of all operations before
      · have hle : ∀ op ∈ queuedOps s.log, op.1 < last := by
          intro op hop
          have := h.last_le hop
          omega
        simp only [queuedOps_queued, List.map_append, List.pairwise_append]
        refine ⟨h.distinct, List.pairwise_singleton _ _, ?_⟩
        intro a ha b hb
        obtain ⟨op, hop, rfl⟩ := List.mem_map.mp ha
        obtain rfl : b = last := by simpa using hb
        exact hle op hop
      · exact Trace.along_append_singleton.mpr ⟨h.inTime, trivial⟩
      -- the operation has left the pool for the queue
      · have hperm := h.pool
        rw [hpool] at hperm
        simp only [List.map_append, List.map_cons, List.map_nil]
        refine List.Perm.trans ?_ hperm
        rw [← List.append_assoc]
        exact List.perm_append_singleton id _
  -- nothing is written into a full buffer, and no operation is taken
  · have hzero : s.buf.push bytes = s.buf := by
      have ht : bytes.take s.buf.room = [] := by
        rw [List.take_eq_nil_iff, ← List.length_eq_zero_iff]
        rw [Fifo.pushed] at hpos
        omega
      simp [Fifo.push, ht]
    rw [hzero] at hw
    cases hw
    exact h

theorem Inside.eventWrites (h : Inside pool held written s) {calls : List (Bytes × κ)}
    (hw : s.eventWrites calls = .ok s') : Inside pool held written s' := by
  induction calls generalizing s with
  | nil =>
    cases hw
    exact h
  | cons c calls ih =>
    simp only [WriteQueue.eventWrites, bind, Except.bind] at hw
    cases h1 : s.eventWrite c.1 c.2 with
    | error e => simp [h1] at hw
    | ok s₁ => exact ih (h.eventWrite h1) (by simpa [h1] using hw)

theorem eventWrite_error {bytes : Bytes} {cb : κ} {e : QueueFault}
    (h : s.eventWrite bytes cb = .error e) : e = .noWriteOp := by
  simp only [WriteQueue.eventWrite] at h
  split_ifs at h
  cases hpool : s.writes with
  | nil => simpa [hpool, eq_comm] using h
  | cons id writes => simp [hpool] at h

theorem eventWrites_error {calls : List (Bytes × κ)} {e : QueueFault}
    (h : s.eventWrites calls = .error e) : e = .noWriteOp := by
  induction calls generalizing s with
  | nil => simp [WriteQueue.eventWrites] at h
  | cons c calls ih =>
    simp only [WriteQueue.eventWrites, bind, Except.bind] at h
    cases h1 : s.eventWrite c.1 c.2 with
    | ok s₁ => exact ih (by simpa [h1] using h)
    | error e₁ =>
      obtain rfl : e₁ = e := by simpa [h1] using h
      exact eventWrite_error h1

/-- The head of the queue is taken out and its callback is about to run. -/
theorem Inside.pop (h : Inside pool [] written s) {op : QueuedOp κ} {queue : List (QueuedOp κ)}
    (hq : s.queue = op :: queue) (hle : op.bytes ≤ written) :
    Inside pool [op.id] (written - op.bytes)
      { s with queue := queue, log := s.log ++ [.called op.last op.cb 0] } := by
  have hbytes := h.bytes
  have hrecent := h.recent
  have hqueued := h.queued
  have hpool := h.pool
  obtain ⟨h0, hlast, hpos⟩ : Positioned (sentTotal s.log - written) (op :: queue) := by
    rw [← hq]
    exact h.positioned _ (by omega)
  rw [hq] at hbytes hqueued hpool
  simp only [List.map_cons, List.sum_cons] at hbytes hqueued hpool
  -- the operation leaves the queue, and its last byte was sent
  refine ⟨by simp only; omega, ?_, ?_, ?_, ?_, ?_, ?_, ?_⟩
  · simp only [sentBefore_called, sentTotal_called]
    omega
  · intro base hbase
    rw [sentTotal_called] at hbase
    rwa [show base = op.last by omega]
  · simp [hqueued, QueuedOp.key]
  · intro q hq'
    rw [calledOps_called, List.mem_append, List.mem_singleton] at hq'
    rw [sentTotal_called]
    rcases hq' with hq' | rfl
    · have := h.called q hq'
      omega
    · simp only
      omega
  · simpa using h.distinct
  · exact Trace.along_append_singleton.mpr ⟨h.inTime, rfl, by omega, by omega⟩
  · simpa using hpool

/-- The operation whose callback has returned becomes free. -/
theorem Inside.free {id : ℕ} (h : Inside pool [id] written s) :
    Inside pool [] written { s with writes := id :: s.writes } := by
  refine { h with pool := List.Perm.trans ?_ h.pool }
  simp only [List.append_nil, List.cons_append, List.append_assoc, List.nil_append]
  exact List.perm_middle.symm

/-- The bytes that remain are taken from the head of the queue, which is not finished. -/
theorem Inside.shorten (h : Inside pool [] written s) {op : QueuedOp κ} {queue : List (QueuedOp κ)}
    (hq : s.queue = op :: queue) (hlt : written < op.bytes) :
    Inside pool [] 0 { s with queue := { op with bytes := op.bytes - written } :: queue } := by
  have hbytes := h.bytes
  have hrecent := h.recent
  have hqueued := h.queued
  have hpool := h.pool
  obtain ⟨h0, hlast, hpos⟩ : Positioned (sentTotal s.log - written) (op :: queue) := by
    rw [← hq]
    exact h.positioned _ (by omega)
  rw [hq] at hbytes hqueued hpool
  refine ⟨?_, by simp only; omega, ?_, hqueued, ?_, h.distinct, h.inTime, hpool⟩
  · simp only [List.map_cons, List.sum_cons] at hbytes ⊢
    omega
  · intro base hbase
    simp only at hbase
    exact ⟨by simp only; omega, by simp only; omega, hpos⟩
  · intro q hq'
    have := h.called q hq'
    simp only
    omega

/-- The loop of `event_sock_handle_write` takes all bytes from the operations; the induction is on
the fuel, and every round needs at least one of it. -/
theorem Inside.handleWriteLoop (react : WriteQueue κ → κ → List (Bytes × κ)) {fuel : ℕ}
    (h : Inside pool [] written s) (hfuel : written ≤ fuel) :
    handleWriteLoop react fuel written s ≠ .error .diverges ∧
      ∀ s', handleWriteLoop react fuel written s = .ok s' → Inside pool [] 0 s' := by
  induction fuel generalizing written s with
  | zero =>
    obtain rfl : written = 0 := by omega
    refine ⟨by simp [WriteQueue.handleWriteLoop], ?_⟩
    rintro s' hs
    cases hs
    exact h
  | succ fuel ih =>
    have hbytes := h.bytes
    rw [WriteQueue.handleWriteLoop]
    -- without operations there are no bytes to take, since those of the buffer belong to them
    cases hq : s.queue with
    | nil =>
      obtain rfl : written = 0 := by
        rw [hq] at hbytes
        simp at hbytes
        omega
      refine ⟨by simp, ?_⟩
      rintro s' hs
      cases hs
      exact h
    | cons op queue =>
      simp only
      split_ifs with hzero hle
      · subst hzero
        refine ⟨by simp, ?_⟩
        rintro s' hs
        cases hs
        exact h
      -- the operation is complete: its callback runs and may write, and the loop goes on
      · have hpos : 0 < op.bytes := by
          have := h.positioned (sentTotal s.log - written) (by have := h.recent; omega)
          rw [hq] at this
          exact this.1
        cases hcall : call react { s with queue := queue } op 0 with
        | error e =>
          have := eventWrites_error hcall
          simp [bind, Except.bind, this]
        | ok s₁ =>
          have h₁ := ((h.pop hq hle).eventWrites hcall).free
          simpa [bind, Except.bind] using ih h₁ (by omega)
      -- a part of the operation was sent
      · refine ⟨by simp, ?_⟩
        rintro s' hs
        cases hs
        exact h.shorten hq (by omega)

/-- Between two steps all bytes that were sent are taken from the operations. -/
theorem Inside.accounted (h : Inside pool [] 0 s) : Accounted pool s := by
  refine ⟨by simpa using h.bytes, h.distinct, ?_, h.inTime, by simpa using h.pool⟩
  have hpos := h.positioned (sentTotal s.log) rfl
  rw [h.queued, List.filter_append, List.filter_eq_self.mpr, List.filter_eq_nil_iff.mpr,
    List.append_nil]
  · intro op hop
    obtain ⟨q, hq, rfl⟩ := List.mem_map.mp hop
    have hlt := (hpos.last_mem hq).1
    intro hle
    exact absurd (of_decide_eq_true hle) (Nat.not_le.mpr hlt)
  · intro op hop
    have := h.called op hop
    simpa using this

theorem inside_init (maxlen : ℕ) (pool : List ℕ) : Inside pool [] 0 (init maxlen pool : WriteQueue κ) := by
  refine ⟨rfl, le_rfl, fun _ _ => trivial, rfl, by simp [init, calledOps], by simp [init, queuedOps],
    Trace.along_nil, by simp [init]⟩

theorem Inside.step (react : WriteQueue κ → κ → List (Bytes × κ)) (h : Inside pool [] 0 s)
    (a : Step κ) :
    s.step react a ≠ .error .diverges ∧ ∀ s', s.step react a = .ok s' → Inside pool [] 0 s' := by
  cases a with
  | write bytes cb =>
    refine ⟨fun he => ?_, fun s' hs => h.eventWrite hs⟩
    -- a write only fails for want of an operation
    have := eventWrite_error he
    simp at this
  | send count =>
    simp only [WriteQueue.step, eventSockWrite]
    split_ifs with hpos
    · -- `send` takes its bytes from the buffer before the operations learn of it
      refine Inside.handleWriteLoop react ⟨?_, ?_, ?_, ?_, ?_, ?_, ?_, h.pool⟩ le_rfl
      · have := h.bytes
        simp only [Fifo.pop, List.length_drop]
        omega
      · simp
      · intro base hbase
        simp only [sentTotal_sent] at hbase
        exact h.positioned base (by omega)
      · simpa using h.queued
      · intro op hop
        have := h.called op (by simpa using hop)
        simp only [sentTotal_sent]
        omega
      · simpa using h.distinct
      · exact Trace.along_append_singleton.mpr ⟨h.inTime, trivial⟩
    · refine ⟨by simp, ?_⟩
      rintro s' hs
      cases hs
      exact h

theorem Inside.runFrom (react : WriteQueue κ → κ → List (Bytes × κ)) (h : Inside pool [] 0 s)
    (steps : List (Step κ)) :
    s.runFrom react steps ≠ .error .diverges ∧
      ∀ s', s.runFrom react steps = .ok s' → Inside pool [] 0 s' := by
  induction steps generalizing s with
  | nil =>
    refine ⟨by simp [WriteQueue.runFrom], ?_⟩
    rintro s' hs
    cases hs
    exact h
  | cons a steps ih =>
    obtain ⟨hne, hok⟩ := h.step react a
    simp only [WriteQueue.runFrom, bind, Except.bind]
    cases hstep : s.step react a with
    | error e =>
      refine ⟨fun he => hne ?_, by simp⟩
      rw [hstep]
      exact he
    | ok s₁ => exact ih (hok s₁ hstep)

end Steps

/-- **Accounting of the write queue**: no run loops forever, and after a run in which there was a
free operation for every call of `event_write` the queue is accounted for. -/
theorem run_accounted (react : WriteQueue κ → κ → List (Bytes × κ)) (maxlen : ℕ) (pool : List ℕ)
    (steps : List (Step κ)) :
    run react maxlen pool steps ≠ .error .diverges ∧
      ∀ s, run react maxlen pool steps = .ok s → Accounted pool s := by
  obtain ⟨hne, hok⟩ := (inside_init maxlen pool).runFrom react steps
  exact ⟨hne, fun s hs => (hok s hs).accounted⟩

/-- Two operations, of which the first answers with a third; the second call of `send` ends inside
the second operation. -/
def reentrantQueue : WriteQueue ℕ where
  buf := ⟨ascii "fgxyz", 16, false⟩
  queue := [⟨8, 2, 1, 7⟩, ⟨9, 3, 2, 10⟩]
  writes := [7]
  log := [.queued 3 0, .queued 7 1, .sent 3, .called 3 0 0, .queued 10 2, .sent 2]

theorem run_accounted_reentrant :
    run (fun _ cb => if cb = 0 then [(ascii "xyz", 2)] else []) 16 [7, 8, 9]
        [.write (ascii "abc") 0, .write (ascii "defg") 1, .send 3, .send 2] = .ok reentrantQueue ∧
      Accounted [7, 8, 9] reentrantQueue :=
  ⟨by decide, (run_accounted (fun _ cb => if cb = 0 then [(ascii "xyz", 2)] else []) 16 [7, 8, 9]
    [.write (ascii "abc") 0, .write (ascii "defg") 1, .send 3, .send 2]).2 _ (by decide)⟩

end WriteQueue

end Two
