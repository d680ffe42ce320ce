import Two.Event.State
import Two.Library.Ring

/-!
# Circular buffers

The circular buffer of `cbuf.c`, with its indices and its copy loops. A copy that leaves the memory
of the buffer is a fault, and so is a loop that does not end. The buffer refines the byte queue
`Fifo` that the event loop is modelled with.

## Main definitions

* `Cbuf`, `Cbuf.init`, `Cbuf.push`, `Cbuf.pop`, `Cbuf.peek`, `Cbuf.finish`: `cbuf_t` and its calls
* `Cbuf.run`, `Fifo.run`: a sequence of calls on a buffer and on a queue, with the replies
* `Cbuf.Refines c q`: the buffer `c` holds the queue `q`

## Main results

* `Cbuf.run_refines`: every sequence of calls gets the replies of the queue, without a fault
-/

namespace Two

/-- The values of `state`. -/
inductive CbufState
  | opened
  | ended
  deriving DecidableEq, Repr

/-- `cbuf_t`: `head` is the write index and `tail` the read index. -/
structure Cbuf where
  ptr : ℕ → UInt8
  maxlen : ℤ
  len : ℤ
  head : ℤ
  tail : ℤ
  state : CbufState

/-- What can go wrong in a call. -/
inductive CbufFault
  | outOfBounds
  | diverges
  deriving DecidableEq, Repr

namespace Cbuf

/-- `cbuf_init`. -/
def init (buf : ℕ → UInt8) (maxlen : ℤ) : Cbuf := ⟨buf, maxlen, 0, 0, 0, .opened⟩

/-- The region of `n` bytes at `pos` is inside the memory of the buffer. -/
def Inside (c : Cbuf) (pos n : ℤ) : Prop := 0 ≤ pos ∧ 0 ≤ n ∧ pos + n ≤ c.maxlen

instance (c : Cbuf) (pos n : ℤ) : Decidable (c.Inside pos n) :=
  inferInstanceAs (Decidable (_ ∧ _ ∧ _))

/-- `memcpy` of `n` bytes to position `pos` of the buffer. -/
def copyIn (c : Cbuf) (pos : ℤ) (src : Bytes) (n : ℤ) : Except CbufFault Cbuf :=
  if c.Inside pos n then
    .ok { c with ptr := fun i =>
      if pos ≤ i ∧ i < pos + n then src.getD (i - pos.toNat) 0 else c.ptr i }
  else .error .outOfBounds

/-- `memcpy` of `n` bytes from position `pos` of the buffer, if there is a destination. -/
def copyOut (c : Cbuf) (dst : Bool) (pos n : ℤ) : Except CbufFault Bytes :=
  if !dst then .ok []
  else if c.Inside pos n then .ok ((List.range n.toNat).map fun i => c.ptr (pos.toNat + i))
  else .error .outOfBounds

/-- The bytes that a round of `cbuf_push` copies, its `copylen`. -/
def pushLen (c : Cbuf) (len : ℤ) : ℤ :=
  if c.head < c.tail then min len (c.tail - c.head) else min len (c.maxlen - c.head)

/-- The bytes that a round of `cbuf_pop` or `cbuf_peek` copies from `tail`, its `copylen`. -/
def popLen (c : Cbuf) (tail len : ℤ) : ℤ :=
  if tail < c.head then min len (c.head - tail) else min len (c.maxlen - tail)

/-- The loop of `cbuf_push`. -/
def pushLoop : ℕ → Cbuf → Bytes → ℤ → ℤ → Except CbufFault (ℤ × Cbuf)
  | 0, _, _, _, _ => .error .diverges
  | fuel + 1, c, src, len, bytes =>
    if 0 < len ∧ c.len < c.maxlen ∧ c.state = .opened then do
      let copylen := c.pushLen len
      let c ← c.copyIn c.head src copylen
      let c := { c with head := (c.head + copylen) % c.maxlen, len := c.len + copylen }
      pushLoop fuel c (src.drop copylen.toNat) (len - copylen) (bytes + copylen)
    else .ok (bytes, c)

/-- `cbuf_push`: the result, and the buffer afterwards. Every round shortens `len`. -/
def push (c : Cbuf) (src : Bytes) (len : ℤ) : Except CbufFault (ℤ × Cbuf) :=
  pushLoop (len.toNat + 1) c src len 0

/-- The loop of `cbuf_pop`. -/
def popLoop (dst : Bool) : ℕ → Cbuf → ℤ → ℤ → Bytes → Except CbufFault (ℤ × Bytes × Cbuf)
  | 0, _, _, _, _ => .error .diverges
  | fuel + 1, c, len, bytes, out =>
    if 0 < len ∧ 0 < c.len then do
      let copylen := c.popLen c.tail len
      let copied ← c.copyOut dst c.tail copylen
      let c := { c with tail := (c.tail + copylen) % c.maxlen, len := c.len - copylen }
      popLoop dst fuel c (len - copylen) (bytes + copylen) (out ++ copied)
    else .ok (bytes, out, c)

/-- `cbuf_pop`: the result, the bytes copied to the destination, and the buffer afterwards. -/
def pop (c : Cbuf) (dst : Bool) (len : ℤ) : Except CbufFault (ℤ × Bytes × Cbuf) :=
  popLoop dst (len.toNat + 1) c len 0 []

/-- The loop of `cbuf_peek`, with its own `cbuflen` and `tail`. -/
def peekLoop (c : Cbuf) (dst : Bool) : ℕ → ℤ → ℤ → ℤ → ℤ → Bytes → Except CbufFault (ℤ × Bytes)
  | 0, _, _, _, _, _ => .error .diverges
  | fuel + 1, cbuflen, tail, len, bytes, out =>
    if 0 < len ∧ 0 < cbuflen then do
      let copylen := c.popLen tail len
      let copied ← c.copyOut dst tail copylen
      peekLoop c dst fuel (cbuflen - copylen) ((tail + copylen) % c.maxlen) (len - copylen)
        (bytes + copylen) (out ++ copied)
    else .ok (bytes, out)

/-- `cbuf_peek`. -/
def peek (c : Cbuf) (dst : Bool) (len : ℤ) : Except CbufFault (ℤ × Bytes) :=
  peekLoop c dst (len.toNat + 1) c.len c.tail len 0 []

/-- `cbuf_end`. -/
def finish (c : Cbuf) : Cbuf := { c with state := .ended }

end Cbuf

/-! ## Sequences of calls -/

/-- The calls on a buffer; `dst` is whether there is a destination. -/
inductive CbufCall
  | push (src : Bytes) (len : ℤ)
  | pop (dst : Bool) (len : ℤ)
  | peek (dst : Bool) (len : ℤ)
  | finish

/-- What a call returns, and the bytes that it copies to its destination. -/
structure CbufReply where
  result : ℤ
  copied : Bytes
  deriving DecidableEq, Repr

/-- One call on a buffer. -/
def Cbuf.call (c : Cbuf) : CbufCall → Except CbufFault (CbufReply × Cbuf)
  | .push src len => do
    let (result, c) ← c.push src len
    return (⟨result, []⟩, c)
  | .pop dst len => do
    let (result, copied, c) ← c.pop dst len
    return (⟨result, copied⟩, c)
  | .peek dst len => do
    let (result, copied) ← c.peek dst len
    return (⟨result, copied⟩, c)
  | .finish => return (⟨0, []⟩, c.finish)

/-- A sequence of calls on a buffer. -/
def Cbuf.run : Cbuf → List CbufCall → Except CbufFault (List CbufReply × Cbuf)
  | c, [] => return ([], c)
  | c, call :: calls => do
    let (reply, c) ← c.call call
    let (replies, c) ← run c calls
    return (reply :: replies, c)

/-- The oldest `len` bytes of a queue, or all of them. -/
def Fifo.oldest (q : Fifo) (dst : Bool) (len : ℤ) : CbufReply :=
  ⟨min len.toNat q.bytes.length, if dst then q.bytes.take len.toNat else []⟩

/-- What a call means for a queue of bytes. -/
def Fifo.call (q : Fifo) : CbufCall → CbufReply × Fifo
  | .push src len => (⟨q.pushed (slice src 0 len.toNat), []⟩, q.push (slice src 0 len.toNat))
  | .pop dst len => (q.oldest dst len, q.pop len.toNat)
  | .peek dst len => (q.oldest dst len, q)
  | .finish => (⟨0, []⟩, q.finish)

/-- A sequence of calls on a queue. -/
def Fifo.run : Fifo → List CbufCall → List CbufReply × Fifo
  | q, [] => ([], q)
  | q, call :: calls =>
    ((q.call call).1 :: (run (q.call call).2 calls).1, (run (q.call call).2 calls).2)

/-! ## Queues -/

namespace Fifo

variable {q : Fifo} {xs ys : Bytes}

theorem push_of_le (h : xs.length ≤ q.room) : q.push xs = { q with bytes := q.bytes ++ xs } := by
  rw [push, List.take_of_length_le h]

theorem room_push (h : xs.length ≤ q.room) : (q.push xs).room = q.room - xs.length := by
  rw [push_of_le h]
  simp only [room]
  split_ifs
  · rw [Nat.zero_sub]
  · rw [List.length_append]
    omega

/-- Bytes that fit can be pushed in two parts. -/
theorem push_push (h : xs.length ≤ q.room) : (q.push xs).push ys = q.push (xs ++ ys) := by
  rw [push, room_push h, push_of_le h, push, List.take_append, List.take_of_length_le h,
    List.append_assoc]

theorem pushed_append (h : xs.length ≤ q.room) :
    q.pushed (xs ++ ys) = xs.length + (q.push xs).pushed ys := by
  rw [pushed, pushed, room_push h, List.length_append]
  omega

theorem push_of_pushed_eq_zero (h : q.pushed xs = 0) : q.push xs = q := by
  have ht : xs.take q.room = [] := by
    rw [List.take_eq_nil_iff, ← List.length_eq_zero_iff]
    rw [pushed] at h
    omega
  simp [push, ht]

/-- The oldest bytes can be read in two parts. -/
theorem result_oldest_pop (dst : Bool) {k len : ℤ} (h0 : 0 ≤ k) (hle : k ≤ len)
    (hk : k.toNat ≤ q.bytes.length) :
    (q.oldest dst len).result = k + ((q.pop k.toNat).oldest dst (len - k)).result := by
  simp only [oldest, pop, List.length_drop]
  omega

theorem copied_oldest_pop {dst : Bool} {k len : ℤ} (h0 : 0 ≤ k) (hle : k ≤ len) :
    (q.oldest dst len).copied =
      (if dst then q.bytes.take k.toNat else []) ++ ((q.pop k.toNat).oldest dst (len - k)).copied := by
  have hsum : len.toNat = k.toNat + (len - k).toNat := by omega
  cases dst
  · rfl
  · simp only [oldest, pop, if_true, hsum, List.take_add]

end Fifo

/-! ## Refinement -/

namespace Cbuf

/-- The buffer `c` holds the queue `q`: its bytes lie in the ring from `tail` on, and `head` is the
first position behind them. -/
structure Refines (c : Cbuf) (q : Fifo) : Prop where
  maxlen : c.maxlen = q.maxlen
  len : c.len = q.bytes.length
  fits : q.bytes.length ≤ q.maxlen
  tail_nonneg : 0 ≤ c.tail
  tail_lt : c.tail < c.maxlen
  head : c.head = (c.tail + c.len) % c.maxlen
  lies : Ring.Lies c.ptr q.maxlen c.tail.toNat q.bytes
  ended : c.state = .ended ↔ q.ended

variable {c c' : Cbuf} {q : Fifo}

/-- A position less than two turns away, reduced. -/
theorem emod_wrap {x m : ℤ} (h0 : 0 ≤ x) (h : x < m + m) : x % m = x ∧ x < m ∨ x % m = x - m ∧ m ≤ x := by
  rcases lt_or_ge x m with hlt | hge
  · exact .inl ⟨Int.emod_eq_of_lt h0 hlt, hlt⟩
  · refine .inr ⟨?_, hge⟩
    rw [← Int.sub_emod_right, Int.emod_eq_of_lt (by omega) (by omega)]

/-- A position of the buffer as a position of the ring. -/
theorem toNat_emod {x m : ℤ} {n : ℕ} (h0 : 0 ≤ x) (hm : m = n) : (x % m).toNat = x.toNat % n := by
  subst hm
  rw [Int.toNat_emod h0 (by omega), Int.toNat_natCast]

/-- The write index is the read index exactly for an empty or a full buffer. -/
theorem Refines.head_cases (h : Refines c q) :
    c.head = c.tail + c.len ∧ c.tail + c.len < c.maxlen ∨
      c.head = c.tail + c.len - c.maxlen ∧ c.maxlen ≤ c.tail + c.len := by
  have h1 := h.tail_nonneg
  have h2 := h.tail_lt
  have h3 := h.len
  have h4 := h.maxlen
  have h5 := h.fits
  rw [h.head]
  exact emod_wrap (by omega) (by omega)

theorem refines_init (buf : ℕ → UInt8) {maxlen : ℤ} (h : 0 < maxlen) :
    Refines (init buf maxlen) (.init maxlen.toNat) where
  maxlen := by simp [init, Fifo.init, h.le]
  len := rfl
  fits := by simp [Fifo.init]
  tail_nonneg := le_rfl
  tail_lt := h
  head := by simp [init]
  lies := Ring.lies_nil _ _ _
  ended := by simp [init, Fifo.init]

theorem Refines.finish (h : Refines c q) : Refines c.finish q.finish :=
  ⟨h.maxlen, h.len, h.fits, h.tail_nonneg, h.tail_lt, h.head, h.lies, by simp [Cbuf.finish, Fifo.finish]⟩

/-! ### Pushing -/

/-- A copy that stays inside the memory stores the bytes in the ring. -/
theorem copyIn_eq {pos n : ℤ} (h : c.Inside pos n) (src : Bytes) :
    c.copyIn pos src n =
      .ok { c with ptr := Ring.write c.ptr c.maxlen.toNat pos.toNat (slice src 0 n.toNat) } := by
  obtain ⟨h0, hn, hle⟩ := h
  rw [copyIn, if_pos ⟨h0, hn, hle⟩]
  congr 2
  funext i
  -- the region does not reach past the end of the buffer, so nothing wraps around
  have hcell : ∀ j < n.toNat, (pos.toNat + j) % c.maxlen.toNat = pos.toNat + j :=
    fun j hj => Nat.mod_eq_of_lt (by omega)
  by_cases hi : pos ≤ i ∧ i < pos + n
  · have hj : (slice src 0 n.toNat)[i - pos.toNat]? = some (src.getD (i - pos.toNat) 0) := by
      rw [slice, List.getElem?_map, List.getElem?_range (by omega), Option.map_some, Nat.zero_add]
    have hlen : (slice src 0 n.toNat).length ≤ c.maxlen.toNat := by
      rw [length_slice]
      omega
    have hw : Ring.write c.ptr c.maxlen.toNat pos.toNat (slice src 0 n.toNat)
        ((pos.toNat + (i - pos.toNat)) % c.maxlen.toNat) = src.getD (i - pos.toNat) 0 :=
      Ring.lies_write hlen _ _ hj
    rw [hcell _ (by omega), show pos.toNat + (i - pos.toNat) = i by omega] at hw
    rw [if_pos hi, hw]
  -- outside of the region no cell is written
  · rw [if_neg hi, Ring.write_of_ne]
    intro j hj
    rw [length_slice] at hj
    rw [hcell j hj]
    omega

theorem Refines.pushLen_spec (h : Refines c q) (hfull : c.len < c.maxlen) {len : ℤ} (hlen : 0 < len) :
    c.Inside c.head (c.pushLen len) ∧ 0 < c.pushLen len ∧ c.pushLen len ≤ len ∧
      c.pushLen len ≤ c.maxlen - c.len := by
  have h1 := h.tail_nonneg
  have h2 := h.tail_lt
  have h3 : 0 ≤ c.len := by rw [h.len]; exact Int.natCast_nonneg _
  rw [pushLen]
  -- the free cells end at `tail` or at the end of the memory
  rcases h.head_cases with ⟨h4, h5⟩ | ⟨h4, h5⟩ <;> split_ifs <;>
    refine ⟨⟨?_, ?_, ?_⟩, ?_, ?_, ?_⟩ <;> omega

/-- One round of `cbuf_push`. -/
theorem Refines.copied (h : Refines c q) (hended : q.ended = false) (src : Bytes) {k : ℤ}
    (hin : c.Inside c.head k) (hk : k ≤ c.maxlen - c.len) :
    Refines { c with
        ptr := Ring.write c.ptr c.maxlen.toNat c.head.toNat (slice src 0 k.toNat)
        head := (c.head + k) % c.maxlen
        len := c.len + k }
      (q.push (slice src 0 k.toNat)) := by
  have hk0 := hin.2.1
  have hroom : q.room = q.maxlen - q.bytes.length := by simp [Fifo.room, hended]
  have hm := h.maxlen
  have hl := h.len
  have hm' : c.maxlen.toNat = q.maxlen := by omega
  -- there is room for all of it
  have htake : (slice src 0 k.toNat).take q.room = slice src 0 k.toNat :=
    List.take_of_length_le (by rw [length_slice]; omega)
  have ht := h.tail_nonneg
  refine ⟨h.maxlen, ?_, ?_, h.tail_nonneg, h.tail_lt, ?_, ?_, h.ended⟩
  · simp only [Fifo.push, htake, List.length_append, length_slice]
    omega
  · simp only [Fifo.push, htake, List.length_append, length_slice]
    omega
  · simp only [h.head, Int.emod_add_emod, Int.add_assoc]
  -- the new bytes start where the old ones end
  · have hhead : c.head.toNat % q.maxlen = (c.tail.toNat + q.bytes.length) % q.maxlen := by
      rw [h.head, toNat_emod (by omega) hm, Nat.mod_mod, hl]
      congr 1
      omega
    simp only [Fifo.push, htake, hm']
    rw [Ring.write_congr hhead]
    refine Ring.Lies.append (h.lies.write le_rfl ?_) (Ring.lies_write ?_)
    · rw [length_slice]
      omega
    · rw [length_slice]
      omega

/-- The condition of the loop of `cbuf_push`, for the queue. -/
theorem Refines.pushing_iff (h : Refines c q) (len : ℤ) :
    (0 < len ∧ c.len < c.maxlen ∧ c.state = .opened) ↔ 0 < len ∧ 0 < q.room := by
  have hm := h.maxlen
  have hl := h.len
  have hstate : c.state = .opened ↔ q.ended = false := by
    have := h.ended
    cases hc : c.state <;> simp_all
  rw [hstate, Fifo.room]
  cases q.ended
  · simp
    omega
  · simp

/-- The loop of `cbuf_push` appends the longest beginning of its input that fits. The induction is
on the fuel, which is always more than the bytes that remain. -/
theorem Refines.pushLoop (h : Refines c q) {fuel : ℕ} {len : ℤ} (bytes : ℤ) (src : Bytes)
    (hfuel : len.toNat < fuel) :
    ∃ c', Cbuf.pushLoop fuel c src len bytes =
        .ok (bytes + q.pushed (slice src 0 len.toNat), c') ∧
      Refines c' (q.push (slice src 0 len.toNat)) := by
  induction fuel generalizing c q src len bytes with
  | zero => omega
  | succ fuel ih =>
    by_cases hgo : 0 < len ∧ 0 < q.room
    · have hgo' := (h.pushing_iff len).mpr hgo
      obtain ⟨hin, hpos, hle, hfit⟩ := h.pushLen_spec hgo'.2.1 hgo.1
      have hended : q.ended = false := by
        cases he : q.ended with
        | false => rfl
        | true => simp [Fifo.room, he] at hgo
      have hroom : (slice src 0 (c.pushLen len).toNat).length ≤ q.room := by
        have hm := h.maxlen
        have hl := h.len
        rw [length_slice, Fifo.room, hended, if_neg Bool.false_ne_true]
        omega
      have hless : (len - c.pushLen len).toNat < fuel := by omega
      obtain ⟨c', hrun, href⟩ := ih (h.copied hended src hin hfit) (bytes + c.pushLen len)
        (src.drop (c.pushLen len).toNat) hless
      -- what this round copied and what the others copy make up the whole input
      have hsplit : slice src 0 len.toNat = slice src 0 (c.pushLen len).toNat ++
          slice (src.drop (c.pushLen len).toNat) 0 (len - c.pushLen len).toNat := by
        rw [show len.toNat = (c.pushLen len).toNat + (len - c.pushLen len).toNat by omega, slice_add,
          slice_drop, Nat.add_zero, Nat.zero_add]
      refine ⟨c', ?_, ?_⟩
      · rw [Cbuf.pushLoop, if_pos hgo']
        simp only [copyIn_eq hin, bind, Except.bind]
        rw [hrun, hsplit, Fifo.pushed_append hroom, length_slice]
        congr 2
        omega
      · rw [hsplit, ← Fifo.push_push hroom]
        exact href
    · rw [Cbuf.pushLoop, if_neg (mt (h.pushing_iff len).mp hgo)]
      have hzero : q.pushed (slice src 0 len.toNat) = 0 := by
        rw [Fifo.pushed, length_slice]
        omega
      refine ⟨c, by simp [hzero], ?_⟩
      rwa [Fifo.push_of_pushed_eq_zero hzero]

theorem Refines.push (h : Refines c q) (src : Bytes) (len : ℤ) :
    ∃ c', c.push src len = .ok ((q.pushed (slice src 0 len.toNat) : ℤ), c') ∧
      Refines c' (q.push (slice src 0 len.toNat)) := by
  obtain ⟨c', hrun, href⟩ := h.pushLoop 0 src (Nat.lt_succ_self len.toNat)
  exact ⟨c', by rw [Cbuf.push, hrun, zero_add], href⟩

/-! ### Popping -/

theorem Refines.popLen_spec (h : Refines c q) (hne : 0 < c.len) {len : ℤ} (hlen : 0 < len) :
    c.Inside c.tail (c.popLen c.tail len) ∧ 0 < c.popLen c.tail len ∧ c.popLen c.tail len ≤ len ∧
      c.popLen c.tail len ≤ c.len := by
  have h1 := h.tail_nonneg
  have h2 := h.tail_lt
  have h3 : c.len ≤ c.maxlen := by
    rw [h.len, h.maxlen]
    exact_mod_cast h.fits
  rw [popLen]
  -- the bytes end at `head` or at the end of the memory
  rcases h.head_cases with ⟨h4, h5⟩ | ⟨h4, h5⟩ <;> split_ifs <;>
    refine ⟨⟨?_, ?_, ?_⟩, ?_, ?_, ?_⟩ <;> omega

/-- A copy from the read index yields the oldest bytes. -/
theorem Refines.copyOut (h : Refines c q) {dst : Bool} {k : ℤ} (hin : c.Inside c.tail k) (hk : k ≤ c.len) :
    c.copyOut dst c.tail k = .ok (if dst then q.bytes.take k.toNat else []) := by
  have hl := h.len
  have hm := h.maxlen
  obtain ⟨ht, hk0, hle⟩ := hin
  cases dst with
  | false => rfl
  | true =>
    rw [Cbuf.copyOut, Bool.not_true, if_neg Bool.false_ne_true, if_pos ⟨ht, hk0, hle⟩, if_pos rfl]
    congr 1
    refine List.ext_getElem (by simp; omega) fun i h1 h2 => ?_
    have hi : i < k.toNat := by simpa using h1
    have hlies := h.lies i _ (List.getElem?_eq_getElem (by omega))
    rw [Nat.mod_eq_of_lt (by omega)] at hlies
    simpa using hlies

/-- One round of `cbuf_pop`. -/
theorem Refines.advanced (h : Refines c q) {k : ℤ} (hk0 : 0 ≤ k) (hk : k ≤ c.len) :
    Refines { c with tail := (c.tail + k) % c.maxlen, len := c.len - k } (q.pop k.toNat) := by
  have hl := h.len
  have hm := h.maxlen
  have ht := h.tail_nonneg
  have htl := h.tail_lt
  refine ⟨h.maxlen, ?_, ?_, Int.emod_nonneg _ (by omega), Int.emod_lt_of_pos _ (by omega), ?_, ?_,
    h.ended⟩
  · simp only [Fifo.pop, List.length_drop]
    omega
  · have := h.fits
    simp only [Fifo.pop, List.length_drop]
    omega
  · simp only [h.head, Int.emod_add_emod]
    congr 1
    omega
  · have hlies := h.lies
    rw [← List.take_append_drop k.toNat q.bytes] at hlies
    have hright := hlies.right
    rw [List.length_take_of_le (by omega), ← Int.toNat_add ht hk0, ← Ring.lies_mod,
      ← toNat_emod (by omega) hm] at hright
    exact hright

/-- The loop of `cbuf_pop` removes the oldest bytes. The induction is on the fuel, which is always
more than the bytes that remain to be popped. -/
theorem Refines.popLoop (h : Refines c q) {fuel : ℕ} (dst : Bool) {len : ℤ} (bytes : ℤ) (out : Bytes)
    (hfuel : len.toNat < fuel) :
    ∃ c', Cbuf.popLoop dst fuel c len bytes out =
        .ok (bytes + (q.oldest dst len).result, out ++ (q.oldest dst len).copied, c') ∧
      Refines c' (q.pop len.toNat) := by
  induction fuel generalizing c q len bytes out with
  | zero => omega
  | succ fuel ih =>
    have hl := h.len
    by_cases hgo : 0 < len ∧ 0 < c.len
    -- one round takes the bytes up to the end of the buffer, the next one goes on at its start
    · obtain ⟨hin, hpos, hle, hfit⟩ := h.popLen_spec hgo.2 hgo.1
      obtain ⟨k, hk⟩ : ∃ k, k = c.popLen c.tail len := ⟨_, rfl⟩
      rw [← hk] at hin hpos hle hfit
      have hless : (len - k).toNat < fuel := by omega
      obtain ⟨c', hrun, href⟩ := ih (h.advanced hpos.le hfit) (bytes + k)
        (out ++ if dst then q.bytes.take k.toNat else []) hless
      have hsum : len.toNat = k.toNat + (len - k).toNat := by omega
      refine ⟨c', ?_, ?_⟩
      · rw [Cbuf.popLoop, if_pos hgo]
        simp only [← hk, h.copyOut hin hfit, bind, Except.bind]
        rw [hrun, List.append_assoc, ← Fifo.copied_oldest_pop hpos.le hle,
          Fifo.result_oldest_pop dst hpos.le hle (by omega), add_assoc]
      · rw [hsum]
        simpa [Fifo.pop, List.drop_drop] using href
    · rw [Cbuf.popLoop, if_neg hgo]
      -- nothing is asked for, or nothing is left
      have hnone : len.toNat = 0 ∨ q.bytes = [] := by
        rw [← List.length_eq_zero_iff]
        omega
      have hdrop : q.bytes.drop len.toNat = q.bytes := by
        rcases hnone with h0 | h0 <;> simp only [h0, List.drop_zero, List.drop_nil]
      refine ⟨c, ?_, ?_⟩
      · rcases hnone with h0 | h0 <;> simp only [Fifo.oldest, h0] <;> simp
      · rwa [Fifo.pop, hdrop]

theorem Refines.pop (h : Refines c q) (dst : Bool) (len : ℤ) :
    ∃ c', c.pop dst len = .ok ((q.oldest dst len).result, (q.oldest dst len).copied, c') ∧
      Refines c' (q.pop len.toNat) := by
  obtain ⟨c', hrun, href⟩ := h.popLoop dst 0 [] (Nat.lt_succ_self len.toNat)
  exact ⟨c', by rw [Cbuf.pop, hrun, zero_add, List.nil_append], href⟩

/-! ### Peeking -/

/-- `cbuf_peek` walks over the bytes as `cbuf_pop` does, on copies of two fields. -/
theorem peekLoop_eq (c : Cbuf) (dst : Bool) (fuel : ℕ) (cbuflen tail len bytes : ℤ) (out : Bytes) :
    peekLoop c dst fuel cbuflen tail len bytes out =
      (popLoop dst fuel { c with len := cbuflen, tail := tail } len bytes out).map
        fun r => (r.1, r.2.1) := by
  induction fuel generalizing cbuflen tail len bytes out with
  | zero => rfl
  | succ fuel ih =>
    rw [peekLoop, popLoop]
    split_ifs with hgo
    · -- both loops make the same copy, from the same memory
      have hcopy : Cbuf.copyOut { c with len := cbuflen, tail := tail } dst tail
          (popLen { c with len := cbuflen, tail := tail } tail len) =
            c.copyOut dst tail (c.popLen tail len) := rfl
      simp only [bind, Except.bind, hcopy]
      cases c.copyOut dst tail (c.popLen tail len) with
      | error e => rfl
      | ok copied => exact ih _ _ _ _ _
    · rfl

theorem Refines.peek (h : Refines c q) (dst : Bool) (len : ℤ) :
    c.peek dst len = .ok ((q.oldest dst len).result, (q.oldest dst len).copied) := by
  obtain ⟨c', hrun, -⟩ := h.popLoop dst 0 [] (Nat.lt_succ_self len.toNat)
  rw [Cbuf.peek, peekLoop_eq, hrun, zero_add, List.nil_append]
  rfl

/-! ### Sequences of calls -/

/-- One call on a buffer that holds a queue. -/
theorem Refines.call (h : Refines c q) (call : CbufCall) :
    ∃ c', c.call call = .ok ((q.call call).1, c') ∧ Refines c' (q.call call).2 := by
  cases call with
  | push src len =>
    obtain ⟨c', hrun, href⟩ := h.push src len
    exact ⟨c', by simp only [Cbuf.call, hrun]; rfl, href⟩
  | pop dst len =>
    obtain ⟨c', hrun, href⟩ := h.pop dst len
    exact ⟨c', by simp only [Cbuf.call, hrun]; rfl, href⟩
  | peek dst len => exact ⟨c, by simp only [Cbuf.call, h.peek]; rfl, h⟩
  | finish => exact ⟨c.finish, rfl, h.finish⟩

theorem Refines.run (h : Refines c q) (calls : List CbufCall) :
    ∃ c', c.run calls = .ok ((q.run calls).1, c') ∧ Refines c' (q.run calls).2 := by
  induction calls generalizing c q with
  | nil => exact ⟨c, rfl, h⟩
  | cons call calls ih =>
    obtain ⟨c₁, hcall, h₁⟩ := h.call call
    obtain ⟨c₂, hrun, h₂⟩ := ih h₁
    exact ⟨c₂, by simp only [Cbuf.run, hcall, bind, Except.bind, hrun]; rfl, h₂⟩

/-- **A circular buffer is a bounded queue**: no sequence of calls leaves the memory of the buffer or
loops forever, and each call gets the reply of a queue of at most `maxlen` bytes. -/
theorem run_refines (buf : ℕ → UInt8) {maxlen : ℤ} (h : 0 < maxlen) (calls : List CbufCall) :
    ∃ c, (init buf maxlen).run calls = .ok (((Fifo.init maxlen.toNat).run calls).1, c) ∧
      Refines c ((Fifo.init maxlen.toNat).run calls).2 :=
  (refines_init buf h).run calls

/-- The buffer of `test_write_and_read`, at the point where it has wrapped around. -/
theorem run_refines_wrapped :
    (0 : ℤ) < 8 ∧ ∃ c, (init (fun _ => 0) 8).run
        [.push (ascii "abcd") 4, .pop true 3, .push (ascii "efgh") 4, .pop true 4,
          .push (ascii "ijk") 3, .peek true 4, .pop false (-1), .pop true 10] =
      .ok ([⟨4, []⟩, ⟨3, ascii "abc"⟩, ⟨4, []⟩, ⟨4, ascii "defg"⟩, ⟨3, []⟩, ⟨4, ascii "hijk"⟩,
        ⟨0, []⟩, ⟨4, ascii "hijk"⟩], c) ∧ Refines c ⟨[], 8, false⟩ :=
  ⟨by decide, run_refines _ (by decide) _⟩

end Cbuf

end Two
