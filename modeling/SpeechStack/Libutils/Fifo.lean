import SpeechStack.Lib.History
import SpeechStack.Lib.Loop
import SpeechStack.Lib.Machine
import SpeechStack.Lib.Ring

set_option autoImplicit false

/-! # The byte FIFO

`STfifoBuffer` is a ring of bytes between two addresses. Its pointers wrap at the end of the
ring, and its counters `wndx` and `rndx` at `2 ^ 32`; the number of unread bytes is the difference
of the counters, and the cell of the next byte is given by the pointers. An access goes in at most
two pieces, up to the end of the ring and from its start on.
-/

namespace SpeechStack

/-! ## The buffer -/

/-- `uint8_t`. -/
abbrev Uint8 := BitVec 8

/-- `STfifoBuffer`; the pointers are addresses, and `endPtr` is the field `end`. -/
structure STfifoBuffer where
  buffer : Int
  rptr : Int
  wptr : Int
  endPtr : Int
  rndx : BitVec 32
  wndx : BitVec 32
  deriving DecidableEq

/-- `STMIN(a, b)`. -/
def STMIN (a b : Int) : Int := if a > b then b else a

/-- `st_fifo_reset(f)`. -/
def stFifoReset (f : STfifoBuffer) : STfifoBuffer :=
  { f with wptr := f.buffer, rptr := f.buffer, wndx := 0, rndx := 0 }

/-- `fifo_alloc_common(buffer, size)`; `f` is what the `malloc` of the structure returns, with
the fields that the memory happens to hold. -/
def fifoAllocCommon (buffer : Option Int) (f : Option STfifoBuffer) (size : Int) :
    Option STfifoBuffer :=
  buffer.bind fun buffer =>
    f.map fun f => stFifoReset { f with buffer := buffer, endPtr := buffer + size }

/-- `st_fifo_alloc(size)`, from what the two calls of `malloc` return. -/
def stFifoAlloc (buffer : Option Int) (f : Option STfifoBuffer) (size : BitVec 32) :
    Option STfifoBuffer :=
  fifoAllocCommon buffer f size.toNat

/-- `st_fifo_size(f)`: an unsigned difference, returned as an `int`. -/
def stFifoSize (f : STfifoBuffer) : Int := (f.wndx - f.rndx).toInt

/-- `st_fifo_space(f)`: a difference of pointers, returned as an `int`. -/
def stFifoSpace (f : STfifoBuffer) : Int :=
  (BitVec.ofInt 32 (f.endPtr - f.buffer - stFifoSize f)).toInt

/-- `st_fifo_drain(f, size)`. -/
def stFifoDrain (f : STfifoBuffer) (size : Int) : STfifoBuffer :=
  let rptr := f.rptr + size
  { f with
    rptr := if rptr ≥ f.endPtr then rptr - (f.endPtr - f.buffer) else rptr
    rndx := f.rndx + BitVec.ofInt 32 size }

/-! ## Copies -/

/-- The buffer with the memory it points into, and a log of what `memcpy` has accessed there:
the first address and the length. -/
structure FifoState where
  f : STfifoBuffer
  mem : Int → Uint8
  copies : List (Int × Int)

/-- The `len` bytes from the address `a` on. -/
def bytesAt (m : Int → Uint8) (a len : Int) : List Uint8 :=
  (List.range len.toNat).map fun k : Nat => m (a + k)

/-- `memcpy(dst, src, len)` into the memory `m`. -/
def copyIn (m : Int → Uint8) (dst : Int) (src : Int → Uint8) (len : Int) : Int → Uint8 :=
  fun a => if dst ≤ a ∧ a < dst + len then src (a - dst) else m a

/-- The local variables of `st_fifo_write`; `src` maps offsets from the moving pointer. -/
structure WriteState where
  mem : Int → Uint8
  copies : List (Int × Int)
  src : Int → Uint8
  size : Int
  wndx : BitVec 32
  wptr : Int

/-- The body of the loop of `st_fifo_write`. A `memcpy` of a negative length has no result. -/
def fifoWriteRound (f : STfifoBuffer) (st : WriteState) : Option WriteState :=
  let len := STMIN (f.endPtr - st.wptr) st.size
  if len < 0 then none
  else
    let wptr := st.wptr + len
    some { mem := copyIn st.mem st.wptr st.src len
           copies := st.copies ++ [(st.wptr, len)]
           src := fun k => st.src (k + len)
           size := st.size - len
           wndx := st.wndx + BitVec.ofInt 32 len
           wptr := if wptr ≥ f.endPtr then f.buffer else wptr }

/-- `f->wndx = wndx; f->wptr = wptr`. -/
def WriteState.commit (f : STfifoBuffer) (st : WriteState) : FifoState :=
  ⟨{ f with wndx := st.wndx, wptr := st.wptr }, st.mem, st.copies⟩

/-- `st_fifo_write(f, src, size)`: what it returns, and the buffer it leaves. -/
def stFifoWrite (fuel : Nat) (s : FifoState) (src : Int → Uint8) (size : Int) :
    Option (Int × FifoState) :=
  (doWhile (fifoWriteRound s.f) (fun st => decide (st.size > 0)) fuel
    ⟨s.mem, s.copies, src, size, s.f.wndx, s.f.wptr⟩).map fun st => (size - st.size, st.commit s.f)

/-- The buffer, what `st_fifo_read` has copied to `dest`, and what is left of `buf_size`. -/
structure FifoReadState where
  state : FifoState
  dest : List Uint8
  bufSize : Int

/-- The body of the loop of `st_fifo_read`. -/
def fifoReadRound (st : FifoReadState) : Option FifoReadState :=
  let s := st.state
  let len := STMIN (s.f.endPtr - s.f.rptr) st.bufSize
  if len < 0 then none
  else
    some { state := ⟨stFifoDrain s.f len, s.mem, s.copies ++ [(s.f.rptr, len)]⟩
           dest := st.dest ++ bytesAt s.mem s.f.rptr len
           bufSize := st.bufSize - len }

/-- `st_fifo_read(f, dest, buf_size, func)`: the bytes of `dest`. The function always returns 0,
and does not use `func`. -/
def stFifoRead (fuel : Nat) (s : FifoState) (bufSize : Int) : Option (List Uint8 × FifoState) :=
  (doWhile fifoReadRound (fun st => decide (st.bufSize > 0)) fuel ⟨s, [], bufSize⟩).map fun st =>
    (st.dest, st.state)

/-! ## Runs -/

/-- A call on a FIFO. -/
inductive FifoOp
  | write (src : Int → Uint8) (size : Int)
  | read (size : Int)
  | drain (size : Int)
  | reset

/-- A FIFO, and the bytes that its reads have returned, in order. -/
structure FifoRun where
  state : FifoState
  got : List Uint8

/-- The run begins after the allocation. -/
def FifoRun.start (f : STfifoBuffer) (mem : Int → Uint8) : FifoRun where
  state := ⟨f, mem, []⟩
  got := []

/-- One call. -/
def FifoRun.step (fuel : Nat) (r : FifoRun) : FifoOp → Option FifoRun
  | .write src size => (stFifoWrite fuel r.state src size).map fun w => { r with state := w.2 }
  | .read size => (stFifoRead fuel r.state size).map fun d => ⟨d.2, r.got ++ d.1⟩
  | .drain size => some { r with state := { r.state with f := stFifoDrain r.state.f size } }
  | .reset => some { r with state := { r.state with f := stFifoReset r.state.f } }

/-- The caller asks for no more than there is: `st_fifo_space` for a write, `st_fifo_size` for a
read or a drain. -/
def FifoRun.Fits (r : FifoRun) : FifoOp → Prop
  | .write _ size => 0 ≤ size ∧ size ≤ stFifoSpace r.state.f
  | .read size => 0 ≤ size ∧ size ≤ stFifoSize r.state.f
  | .drain size => 0 ≤ size ∧ size ≤ stFifoSize r.state.f
  | .reset => True

instance FifoRun.decidableFits (r : FifoRun) : ∀ op, Decidable (r.Fits op)
  | .write _ size => inferInstanceAs (Decidable (0 ≤ size ∧ size ≤ stFifoSpace r.state.f))
  | .read size => inferInstanceAs (Decidable (0 ≤ size ∧ size ≤ stFifoSize r.state.f))
  | .drain size => inferInstanceAs (Decidable (0 ≤ size ∧ size ≤ stFifoSize r.state.f))
  | .reset => isTrue trivial

/-! ## The queue of bytes -/

/-- How a byte leaves the queue. -/
inductive FifoExit
  | read
  | drained
  | reset
  deriving DecidableEq

/-- What the calls do to the queue of unread bytes. -/
def FifoOp.enqueue (q : QueueHistory Uint8 FifoExit) : FifoOp → QueueHistory Uint8 FifoExit
  | .write src size => q.push (bytesAt src 0 size)
  | .read size => q.pop .read size.toNat
  | .drain size => q.pop .drained size.toNat
  | .reset => q.pop .reset q.waiting.length

/-- The bytes that a call writes. -/
def FifoOp.written : FifoOp → List Uint8
  | .write src size => bytesAt src 0 size
  | _ => []

/-! ## Bytes in memory -/

theorem STMIN_eq (a b : Int) : STMIN a b = min a b := by
  unfold STMIN
  split <;> omega

@[simp] theorem bytesAt_length (m : Int → Uint8) (a len : Int) :
    (bytesAt m a len).length = len.toNat := by
  simp [bytesAt]

theorem bytesAt_getElem? (m : Int → Uint8) (a len : Int) {k : Nat} (hk : k < len.toNat) :
    (bytesAt m a len)[k]? = some (m (a + k)) := by
  simp [bytesAt, hk]

/-- Two pieces, the second through a pointer that has been moved. -/
theorem bytesAt_append (m : Int → Uint8) {len len' : Int} (h : 0 ≤ len) (h' : 0 ≤ len') :
    bytesAt m 0 len ++ bytesAt (fun k => m (k + len)) 0 len' = bytesAt m 0 (len + len') := by
  rw [bytesAt, bytesAt, bytesAt, Int.toNat_add h h', List.range_add, List.map_append, List.map_map]
  congr 1
  apply List.map_congr_left
  intro k _
  show m (0 + k + len) = m (0 + ((len.toNat + k : Nat) : Int))
  congr 1
  omega

/-! ## The invariant -/

/-- The ring of `n` bytes from the address `base` on holds the unread bytes `q`, and no copy has
gone beyond it. The counters say how many bytes there are, the pointers where they are. -/
structure FifoHolds (base n : Int) (q : List Uint8) (s : FifoState) : Prop where
  buffer : s.f.buffer = base
  endPtr : s.f.endPtr = base + n
  ring : Ring.Holds (fun i => s.mem (base + i)) n (s.f.rptr - base) q
  wptr : s.f.wptr = base + Ring.index n (s.f.rptr - base) q.length
  wndx : s.f.wndx = s.f.rndx + BitVec.ofInt 32 q.length
  copies : ∀ c ∈ s.copies, base ≤ c.1 ∧ 0 ≤ c.2 ∧ c.1 + c.2 ≤ base + n

section FifoHolds

variable {base n : Int} {q : List Uint8} {s : FifoState}

theorem FifoHolds.pos (h : FifoHolds base n q s) : 0 < n := by
  have h₀ := h.ring.front_nonneg
  have h₁ := h.ring.front_lt
  omega

/-- The difference of the counters does not depend on how often they have wrapped. -/
theorem FifoHolds.size (h : FifoHolds base n q s) (hn : n < 2 ^ 31) :
    stFifoSize s.f = q.length := by
  have hlen := h.ring.length_le
  have hdiff : s.f.wndx - s.f.rndx = BitVec.ofInt 32 q.length := by
    rw [h.wndx, BitVec.add_comm, BitVec.add_sub_cancel]
  rw [stFifoSize, hdiff, BitVec.toInt_ofInt_eq_self (by omega) (by omega) (by omega)]

theorem FifoHolds.space (h : FifoHolds base n q s) (hn : n < 2 ^ 31) :
    stFifoSpace s.f = n - q.length := by
  have hlen := h.ring.length_le
  rw [stFifoSpace, h.size hn, h.endPtr, h.buffer, add_sub_cancel_left,
    BitVec.toInt_ofInt_eq_self (by omega) (by omega) (by omega)]

theorem FifoHolds.rptr_inside (h : FifoHolds base n q s) :
    base ≤ s.f.rptr ∧ s.f.rptr < base + n := by
  have h₀ := h.ring.front_nonneg
  have h₁ := h.ring.front_lt
  omega

theorem FifoHolds.wptr_inside (h : FifoHolds base n q s) :
    base ≤ s.f.wptr ∧ s.f.wptr < base + n := by
  have h₀ : 0 ≤ Ring.index n (s.f.rptr - base) q.length := Ring.index_nonneg h.pos
  have h₁ : Ring.index n (s.f.rptr - base) q.length < n := Ring.index_lt h.pos
  rw [h.wptr]
  omega

/-- An empty ring, whatever it has held. -/
theorem fifoHolds_reset (hbuffer : s.f.buffer = base) (hend : s.f.endPtr = base + n) (hn : 0 < n)
    (hcopies : ∀ c ∈ s.copies, base ≤ c.1 ∧ 0 ≤ c.2 ∧ c.1 + c.2 ≤ base + n) :
    FifoHolds base n [] { s with f := stFifoReset s.f } where
  buffer := hbuffer
  endPtr := hend
  ring := by
    show Ring.Holds _ n (s.f.buffer - base) []
    rw [hbuffer, Int.sub_self]
    exact Ring.holds_nil _ le_rfl hn
  wptr := by
    show s.f.buffer = base + Ring.index n (s.f.buffer - base) 0
    rw [hbuffer, Int.sub_self, Ring.index_zero le_rfl hn, Int.add_zero]
  wndx := rfl
  copies := hcopies

/-- What is drained is the front of the queue. -/
theorem FifoHolds.drain (h : FifoHolds base n q s) {k : Int} (h₀ : 0 ≤ k) (hk : k ≤ q.length) :
    FifoHolds base n (q.drop k.toNat) { s with f := stFifoDrain s.f k } := by
  have hlen := h.ring.length_le
  have hin := h.rptr_inside
  have hnat : (k.toNat : Int) = k := Int.toNat_of_nonneg h₀
  -- at most one turn
  have hrptr : (stFifoDrain s.f k).rptr - base = (s.f.rptr - base + k.toNat) % n := by
    rw [hnat, ← Ring.wrap_eq_emod (by omega) (by omega)]
    show (if s.f.rptr + k ≥ s.f.endPtr then _ else _) - base = _
    rw [h.endPtr, h.buffer]
    split <;> split <;> omega
  constructor
  · exact h.buffer
  · exact h.endPtr
  · show Ring.Holds _ n ((stFifoDrain s.f k).rptr - base) _
    rw [hrptr]
    exact h.ring.drop (by omega)
  · show s.f.wptr = base + Ring.index n ((stFifoDrain s.f k).rptr - base) _
    rw [hrptr, Ring.index_advance_by, h.wptr, List.length_drop, Nat.add_sub_cancel' (by omega)]
  · show s.f.wndx = s.f.rndx + BitVec.ofInt 32 k + BitVec.ofInt 32 _
    rw [h.wndx, BitVec.add_assoc, ← BitVec.ofInt_add, List.length_drop]
    congr 2
    omega
  · exact h.copies

/-! ## Writing -/

section Write

variable {f : STfifoBuffer} {st : WriteState}

theorem copyIn_inside (m : Int → Uint8) {dst len a : Int} (src : Int → Uint8) (h₀ : dst ≤ a)
    (h₁ : a < dst + len) : copyIn m dst src len a = src (a - dst) := if_pos ⟨h₀, h₁⟩

theorem copyIn_outside (m : Int → Uint8) {dst len a : Int} (src : Int → Uint8)
    (h : a < dst ∨ dst + len ≤ a) : copyIn m dst src len a = m a := if_neg (by omega)

/-- A copy to the cells behind the last byte, up to the end of the ring, appends. -/
theorem ring_copyIn {m : Int → Uint8} {front len : Int} (src : Int → Uint8)
    (h : Ring.Holds (fun i => m (base + i)) n front q) (h₀ : 0 ≤ len)
    (hroom : q.length + len ≤ n) (hend : Ring.index n front q.length + len ≤ n) :
    Ring.Holds (fun i => copyIn m (base + Ring.index n front q.length) src len (base + i)) n front
      (q ++ bytesAt src 0 len) := by
  have hn : 0 < n := by
    have := h.front_nonneg
    have := h.front_lt
    omega
  have hlen : ((bytesAt src 0 len).length : Int) = len := by
    rw [bytesAt_length, Int.toNat_of_nonneg h₀]
  -- the cells of the copy, one by one
  have hcell : ∀ k, k < len.toNat →
      Ring.index n front (q.length + k) = Ring.index n front q.length + k := fun k hk =>
    Ring.index_add_of_lt hn (by omega)
  apply h.append
  · rw [hlen]
    exact hroom
  · intro k hk
    rw [bytesAt_length] at hk
    rw [bytesAt_getElem? _ _ _ hk, hcell k hk, copyIn_inside _ _ (by omega) (by omega)]
    congr 2
    omega
  · intro k hk
    apply copyIn_outside
    by_contra hin
    -- such a cell would be that of a new byte as well
    obtain ⟨j, hj⟩ : ∃ j : Nat, Ring.index n front k = Ring.index n front q.length + j :=
      ⟨(Ring.index n front k - Ring.index n front q.length).toNat, by omega⟩
    have hjlen : (j : Int) < len := by omega
    rw [← hcell j (by omega)] at hj
    exact Ring.index_ne (by omega) (by omega) hj

/-- One round of `st_fifo_write` copies up to the end of the ring, or all that is left; in the
first case the pointer goes back to the start. -/
theorem FifoHolds.writeRound (h : FifoHolds base n q (st.commit f)) (h₀ : 0 ≤ st.size)
    (hroom : q.length + st.size ≤ n) :
    ∃ len st', fifoWriteRound f st = some st' ∧ len = min (base + n - st.wptr) st.size ∧
      0 ≤ len ∧ FifoHolds base n (q ++ bytesAt st.src 0 len) (st'.commit f) ∧
      st'.size = st.size - len ∧ (st'.src = fun k => st.src (k + len)) ∧
      (st'.size ≠ 0 → st'.wptr = base) := by
  have hend : f.endPtr = base + n := h.endPtr
  have hbuffer : f.buffer = base := h.buffer
  have hin : base ≤ st.wptr ∧ st.wptr < base + n := h.wptr_inside
  have hwptr : st.wptr = base + Ring.index n (f.rptr - base) q.length := h.wptr
  have hring : Ring.Holds (fun i => st.mem (base + i)) n (f.rptr - base) q := h.ring
  obtain ⟨len, hlen⟩ : ∃ len, len = min (base + n - st.wptr) st.size := ⟨_, rfl⟩
  have hpos : 0 ≤ len := by omega
  have hnat : (len.toNat : Int) = len := Int.toNat_of_nonneg hpos
  refine ⟨len, ⟨copyIn st.mem st.wptr st.src len, st.copies ++ [(st.wptr, len)],
    fun k => st.src (k + len), st.size - len, st.wndx + BitVec.ofInt 32 len,
    if st.wptr + len ≥ base + n then f.buffer else st.wptr + len⟩, ?_, hlen, hpos, ?_, rfl, rfl, ?_⟩
  · unfold fifoWriteRound
    dsimp only
    rw [STMIN_eq, hend, ← hlen, if_neg (by omega)]
  · constructor
    · exact h.buffer
    · exact h.endPtr
    · show Ring.Holds (fun i => copyIn st.mem st.wptr st.src len (base + i)) n (f.rptr - base) _
      rw [hwptr]
      exact ring_copyIn st.src hring hpos (by omega) (by omega)
    · -- the tail moves on by `len`, and back when it has reached the end
      show (if st.wptr + len ≥ base + n then f.buffer else st.wptr + len)
        = base + Ring.index n (f.rptr - base) (q ++ bytesAt st.src 0 len).length
      rw [List.length_append, bytesAt_length, ← Ring.index_add, hnat,
        ← Ring.wrap_eq_emod (by omega) (by omega), hbuffer]
      split <;> split <;> omega
    · show st.wndx + BitVec.ofInt 32 len = f.rndx + BitVec.ofInt 32 _
      have hwndx : st.wndx = f.rndx + BitVec.ofInt 32 q.length := h.wndx
      rw [hwndx, BitVec.add_assoc, ← BitVec.ofInt_add, List.length_append, bytesAt_length]
      congr 2
      omega
    · intro c hc
      rcases List.mem_append.mp hc with hold | hnew
      · exact h.copies c hold
      · rw [List.mem_singleton.mp hnew]
        exact ⟨hin.1, hpos, by show st.wptr + len ≤ base + n; omega⟩
  · intro hmore
    have hmore : st.size - len ≠ 0 := hmore
    show (if st.wptr + len ≥ base + n then f.buffer else st.wptr + len) = base
    rw [if_pos (by omega), hbuffer]

/-- Between two rounds of a write of `bytes`: some of them are in the ring, the others are still
behind `src`. -/
structure Writing (base n : Int) (q bytes : List Uint8) (f : STfifoBuffer) (st : WriteState) :
    Prop where
  nonneg : 0 ≤ st.size
  split : ∃ done, FifoHolds base n (q ++ done) (st.commit f) ∧
    done ++ bytesAt st.src 0 st.size = bytes

/-- There are at most two rounds: one that ends at the end of the ring, and one that begins at
its start. -/
def WriteState.turns (base : Int) (st : WriteState) : Nat := if st.wptr = base then 0 else 1

theorem Writing.round {bytes : List Uint8} (hroom : (q.length : Int) + bytes.length ≤ n)
    (h : Writing base n q bytes f st) :
    ∃ st', fifoWriteRound f st = some st' ∧
      (decide (st'.size > 0) = true →
        Writing base n q bytes f st' ∧ st'.turns base < st.turns base) ∧
      (decide (st'.size > 0) = false →
        FifoHolds base n (q ++ bytes) (st'.commit f) ∧ st'.size = 0) := by
  obtain ⟨done, hheld, hsplit⟩ := h.split
  have h₀ := h.nonneg
  have hcount : done.length + st.size.toNat = bytes.length := by
    rw [← hsplit, List.length_append, bytesAt_length]
  have hroom' : ((q ++ done).length : Int) + st.size ≤ n := by
    rw [List.length_append]
    push_cast
    omega
  obtain ⟨len, st', hround, hlen, hpos, hheld', hsize, hsrc, hwrap⟩ := hheld.writeRound h₀ hroom'
  have hpieces : done ++ bytesAt st.src 0 len ++ bytesAt st'.src 0 st'.size = bytes := by
    rw [hsrc, List.append_assoc, bytesAt_append _ hpos (by omega), hsize, add_sub_cancel, hsplit]
  rw [List.append_assoc] at hheld'
  refine ⟨st', hround, fun hmore => ?_, fun hlast => ?_⟩
  · have hmore := of_decide_eq_true hmore
    refine ⟨⟨by omega, _, hheld', hpieces⟩, ?_⟩
    rw [WriteState.turns, WriteState.turns, if_pos (hwrap (by omega))]
    -- from the start of the ring the round would have been the last one
    by_cases hstart : st.wptr = base
    · have hlength : ((q ++ done).length : Int) ≤ n := hheld.ring.length_le
      omega
    · rw [if_neg hstart]
      exact Nat.zero_lt_one
  · have hlast := of_decide_eq_false hlast
    have hnone : st'.size = 0 := by omega
    rw [hnone] at hpieces
    have hall : done ++ bytesAt st.src 0 len = bytes := by
      rw [← hpieces]
      exact (List.append_nil _).symm
    rw [hall] at hheld'
    exact ⟨hheld', hnone⟩

end Write

/-- `st_fifo_write` appends the bytes, and returns how many there were. -/
theorem FifoHolds.write (h : FifoHolds base n q s) (src : Int → Uint8) {size : Int}
    (h₀ : 0 ≤ size) (hroom : q.length + size ≤ n) {fuel : Nat} (hfuel : 2 ≤ fuel) :
    ∃ s', stFifoWrite fuel s src size = some (size, s') ∧
      FifoHolds base n (q ++ bytesAt src 0 size) s' := by
  have hroom' : (q.length : Int) + (bytesAt src 0 size).length ≤ n := by
    rw [bytesAt_length]
    omega
  have hstart : Writing base n q (bytesAt src 0 size) s.f
      ⟨s.mem, s.copies, src, size, s.f.wndx, s.f.wptr⟩ := by
    refine ⟨h₀, [], ?_, rfl⟩
    rw [List.append_nil]
    exact h
  have hturns : WriteState.turns base ⟨s.mem, s.copies, src, size, s.f.wndx, s.f.wptr⟩ < fuel := by
    unfold WriteState.turns
    split <;> omega
  obtain ⟨st', hloop, hheld, hsize⟩ :=
    doWhile_of_variant (WriteState.turns base) (fun _ => Writing.round hroom') hstart hturns
  refine ⟨st'.commit s.f, ?_, hheld⟩
  rw [stFifoWrite, hloop, Option.map_some, hsize, Int.sub_zero]

/-! ## Reading -/

/-- The cells from the read pointer on, up to the end of the ring, are the front of the queue. -/
theorem FifoHolds.bytesAt_rptr (h : FifoHolds base n q s) {len : Int} (hlen : len ≤ q.length)
    (hend : s.f.rptr + len ≤ base + n) :
    bytesAt s.mem s.f.rptr len = q.take len.toNat := by
  have hfront : Ring.index n (s.f.rptr - base) 0 = s.f.rptr - base :=
    Ring.index_zero h.ring.front_nonneg h.ring.front_lt
  apply List.ext_getElem?
  intro k
  by_cases hk : k < len.toNat
  · have hcell : Ring.index n (s.f.rptr - base) (0 + k) = s.f.rptr - base + k := by
      rw [Ring.index_add_of_lt h.pos (by omega), hfront]
    rw [Nat.zero_add] at hcell
    rw [bytesAt_getElem? _ _ _ hk, List.getElem?_take_of_lt hk, h.ring.cell k (by omega), hcell]
    congr 2
    omega
  · rw [List.getElem?_eq_none (by rw [bytesAt_length]; omega),
      List.getElem?_eq_none (by rw [List.length_take]; omega)]

/-- A copy from the read pointer on, and the drain of what has been copied. -/
theorem FifoHolds.copyOut (h : FifoHolds base n q s) {len : Int} (h₀ : 0 ≤ len)
    (hlen : len ≤ q.length) (hend : s.f.rptr + len ≤ base + n) :
    FifoHolds base n (q.drop len.toNat)
      ⟨stFifoDrain s.f len, s.mem, s.copies ++ [(s.f.rptr, len)]⟩ := by
  have hheld := h.drain h₀ hlen
  refine ⟨hheld.buffer, hheld.endPtr, hheld.ring, hheld.wptr, hheld.wndx, fun c hc => ?_⟩
  rcases List.mem_append.mp hc with hold | hnew
  · exact h.copies c hold
  · rw [List.mem_singleton.mp hnew]
    exact ⟨h.rptr_inside.1, h₀, hend⟩

/-- A drain up to the end of the ring goes back to its start. -/
theorem FifoHolds.drain_to_end (h : FifoHolds base n q s) {len : Int}
    (hend : s.f.rptr + len = base + n) : (stFifoDrain s.f len).rptr = base := by
  show (if s.f.rptr + len ≥ s.f.endPtr then s.f.rptr + len - (s.f.endPtr - s.f.buffer)
    else s.f.rptr + len) = base
  rw [h.endPtr, h.buffer, if_pos (by omega)]
  omega

/-- Between two rounds of a read of `size` bytes: `dest` has the front of the queue. -/
structure Reading (base n : Int) (q : List Uint8) (size : Int) (st : FifoReadState) : Prop where
  nonneg : 0 ≤ st.bufSize
  count : st.dest.length + st.bufSize = size
  dest : st.dest = q.take st.dest.length
  holds : FifoHolds base n (q.drop st.dest.length) st.state

def FifoReadState.turns (base : Int) (st : FifoReadState) : Nat :=
  if st.state.f.rptr = base then 0 else 1

/-- One round of `st_fifo_read` takes bytes from the front of the queue, and the pointer goes back
to the start when there are more to take. -/
theorem Reading.round {size : Int} (hsize : size ≤ q.length) {st : FifoReadState}
    (h : Reading base n q size st) :
    ∃ st', fifoReadRound st = some st' ∧
      (decide (st'.bufSize > 0) = true →
        Reading base n q size st' ∧ st'.turns base < st.turns base) ∧
      (decide (st'.bufSize > 0) = false →
        st'.dest = q.take size.toNat ∧ FifoHolds base n (q.drop size.toNat) st'.state) := by
  have h₀ := h.nonneg
  have hcount := h.count
  have hend : st.state.f.endPtr = base + n := h.holds.endPtr
  have hin := h.holds.rptr_inside
  obtain ⟨len, hlen⟩ : ∃ len, len = min (base + n - st.state.f.rptr) st.bufSize := ⟨_, rfl⟩
  have hrest : ((q.drop st.dest.length).length : Int) = q.length - st.dest.length := by
    rw [List.length_drop]
    omega
  -- what is copied, and what stays in the ring
  have hbytes := h.holds.bytesAt_rptr (show len ≤ _ by omega) (by omega)
  have hheld := h.holds.copyOut (show 0 ≤ len by omega) (by omega) (by omega)
  rw [List.drop_drop] at hheld
  have hlength : (st.dest ++ bytesAt st.state.mem st.state.f.rptr len).length
      = st.dest.length + len.toNat := by
    rw [List.length_append, bytesAt_length]
  have hdest : st.dest ++ bytesAt st.state.mem st.state.f.rptr len
      = q.take (st.dest.length + len.toNat) := by
    rw [hbytes, List.take_add, ← h.dest]
  refine ⟨⟨⟨stFifoDrain st.state.f len, st.state.mem, st.state.copies ++ [(st.state.f.rptr, len)]⟩,
    st.dest ++ bytesAt st.state.mem st.state.f.rptr len, st.bufSize - len⟩, ?_, fun hmore => ?_,
    fun hlast => ?_⟩
  · unfold fifoReadRound
    dsimp only
    rw [STMIN_eq, hend, ← hlen, if_neg (by omega)]
  · have hmore : st.bufSize - len > 0 := of_decide_eq_true hmore
    refine ⟨⟨by show 0 ≤ st.bufSize - len; omega, ?_, ?_, ?_⟩, ?_⟩
    · show ((st.dest ++ _).length : Int) + (st.bufSize - len) = size
      rw [hlength]
      omega
    · show st.dest ++ _ = q.take (st.dest ++ _).length
      rw [hlength]
      exact hdest
    · show FifoHolds base n (q.drop (st.dest ++ _).length) _
      rw [hlength]
      exact hheld
    · -- the round has ended at the end of the ring, and had not begun at its start
      have hheldlen := h.holds.ring.length_le
      show (if (stFifoDrain st.state.f len).rptr = base then 0 else 1)
        < if st.state.f.rptr = base then 0 else 1
      rw [if_pos (h.holds.drain_to_end (by omega)), if_neg (by omega)]
      exact Nat.zero_lt_one
  · have hlast : ¬ st.bufSize - len > 0 := of_decide_eq_false hlast
    have hall : st.dest.length + len.toNat = size.toNat := by omega
    rw [hall] at hdest hheld
    exact ⟨hdest, hheld⟩

/-- `st_fifo_read` takes the bytes at the front of the queue. -/
theorem FifoHolds.read (h : FifoHolds base n q s) {size : Int} (h₀ : 0 ≤ size)
    (hsize : size ≤ q.length) {fuel : Nat} (hfuel : 2 ≤ fuel) :
    ∃ s', stFifoRead fuel s size = some (q.take size.toNat, s') ∧
      FifoHolds base n (q.drop size.toNat) s' := by
  have hstart : Reading base n q size ⟨s, [], size⟩ := ⟨h₀, Int.zero_add size, rfl, h⟩
  have hturns : FifoReadState.turns base ⟨s, [], size⟩ < fuel := by
    unfold FifoReadState.turns
    split <;> omega
  obtain ⟨st', hloop, hdest, hheld⟩ :=
    doWhile_of_variant (FifoReadState.turns base) (fun _ => Reading.round hsize) hstart hturns
  refine ⟨st'.state, ?_, hheld⟩
  rw [stFifoRead, hloop, Option.map_some, hdest]

end FifoHolds

/-! ## Refinement -/

/-- The run has handed out what the reads took from the queue, and the ring holds the rest. -/
structure FifoRun.Refines (base n : Int) (q : QueueHistory Uint8 FifoExit) (r : FifoRun) :
    Prop where
  holds : FifoHolds base n q.waiting r.state
  got : r.got = q.left .read

/-- One call does to the ring what it does to the queue. -/
theorem FifoRun.Refines.step {base n : Int} (hn : n < 2 ^ 31) {fuel : Nat} (hfuel : 2 ≤ fuel)
    (q : QueueHistory Uint8 FifoExit) (r : FifoRun) (op : FifoOp) (h : r.Refines base n q)
    (hfits : r.Fits op) : ∃ r', r.step fuel op = some r' ∧ r'.Refines base n (op.enqueue q) := by
  cases op with
  | write src size =>
      obtain ⟨h₀, hspace⟩ := hfits
      rw [h.holds.space hn] at hspace
      obtain ⟨s', hwrite, hheld⟩ := h.holds.write src h₀ (by omega) hfuel
      refine ⟨{ r with state := s' }, ?_, hheld, h.got⟩
      rw [FifoRun.step, hwrite, Option.map_some]
  | read size =>
      obtain ⟨h₀, hsize⟩ := hfits
      rw [h.holds.size hn] at hsize
      obtain ⟨s', hread, hheld⟩ := h.holds.read h₀ hsize hfuel
      refine ⟨⟨s', r.got ++ q.waiting.take size.toNat⟩, ?_, hheld, ?_⟩
      · rw [FifoRun.step, hread, Option.map_some]
      · show r.got ++ _ = (q.pop .read size.toNat).left .read
        rw [h.got, QueueHistory.left_pop_self]
  | drain size =>
      obtain ⟨h₀, hsize⟩ := hfits
      rw [h.holds.size hn] at hsize
      refine ⟨_, rfl, h.holds.drain h₀ hsize, ?_⟩
      show r.got = (q.pop .drained size.toNat).left .read
      rw [h.got, QueueHistory.left_pop_of_ne q (by decide)]
  | reset =>
      refine ⟨_, rfl, ?_, ?_⟩
      · show FifoHolds base n (q.waiting.drop q.waiting.length) _
        rw [List.drop_length]
        exact fifoHolds_reset h.holds.buffer h.holds.endPtr h.holds.pos h.holds.copies
      · show r.got = (q.pop .reset q.waiting.length).left .read
        rw [h.got, QueueHistory.left_pop_of_ne q (by decide)]

/-- A call puts in what it writes. -/
theorem FifoOp.stream_enqueue (q : QueueHistory Uint8 FifoExit) (op : FifoOp) :
    (op.enqueue q).stream = q.stream ++ op.written := by
  cases op with
  | write src size => exact QueueHistory.stream_push q _
  | read size => exact (QueueHistory.stream_pop q _ _).trans (List.append_nil _).symm
  | drain size => exact (QueueHistory.stream_pop q _ _).trans (List.append_nil _).symm
  | reset => exact (QueueHistory.stream_pop q _ _).trans (List.append_nil _).symm

theorem FifoOp.stream_foldl (ops : List FifoOp) (q : QueueHistory Uint8 FifoExit) :
    (ops.foldl FifoOp.enqueue q).stream = q.stream ++ ops.flatMap FifoOp.written := by
  induction ops generalizing q with
  | nil => simp
  | cons op ops ih =>
      rw [List.foldl_cons, ih, FifoOp.stream_enqueue, List.flatMap_cons, List.append_assoc]

/-- The ring is empty after the allocation. -/
theorem stFifoAlloc_refines {buffer : Option Int} {f₀ : Option STfifoBuffer} {f : STfifoBuffer}
    {size : BitVec 32} (hpos : 1 ≤ size.toNat) (halloc : stFifoAlloc buffer f₀ size = some f)
    (mem : Int → Uint8) :
    f.endPtr = f.buffer + size.toNat ∧
      (FifoRun.start f mem).Refines f.buffer size.toNat QueueHistory.empty := by
  rw [stFifoAlloc, fifoAllocCommon, Option.bind_eq_some_iff] at halloc
  obtain ⟨base, -, halloc⟩ := halloc
  rw [Option.map_eq_some_iff] at halloc
  obtain ⟨g, -, rfl⟩ := halloc
  refine ⟨rfl, ?_, rfl⟩
  have hn : (0 : Int) < size.toNat := by omega
  let s : FifoState := ⟨{ g with buffer := base, endPtr := base + (size.toNat : Int) }, mem, []⟩
  have hreset : FifoHolds base size.toNat [] { s with f := stFifoReset s.f } :=
    fifoHolds_reset rfl rfl hn fun c hc => absurd hc List.not_mem_nil
  exact hreset

/-- What callers see of a FIFO of `n` bytes whose queue is `q`; `f` is the buffer as it was
allocated. -/
structure FifoRun.Serves (f : STfifoBuffer) (n : Int) (q : QueueHistory Uint8 FifoExit)
    (r : FifoRun) : Prop where
  got : r.got = q.left .read
  size : stFifoSize r.state.f = q.waiting.length
  space : stFifoSpace r.state.f = n - q.waiting.length
  copies : ∀ c ∈ r.state.copies, f.buffer ≤ c.1 ∧ 0 ≤ c.2 ∧ c.1 + c.2 ≤ f.endPtr
  rptr : f.buffer ≤ r.state.f.rptr ∧ r.state.f.rptr < f.endPtr
  wptr : f.buffer ≤ r.state.f.wptr ∧ r.state.f.wptr < f.endPtr

/-- **The FIFO is a queue.** For every capacity below `2 ^ 31` and every run of calls that ask for
no more than there is, all calls return, and the reads return what has been written, in order,
without what has been drained or reset; size, space, copies and pointers are as they should be, no
matter how often pointers and counters have wrapped. -/
theorem stFifo_serves_queue {buffer : Option Int} {f₀ : Option STfifoBuffer} {f : STfifoBuffer}
    {size : BitVec 32} (hpos : 1 ≤ size.toNat) (hmax : size.toNat < 2 ^ 31)
    (halloc : stFifoAlloc buffer f₀ size = some f) (mem : Int → Uint8) {fuel : Nat}
    (hfuel : 2 ≤ fuel) (ops : List FifoOp)
    (hfits : Machine.Meets (FifoRun.step fuel) FifoRun.Fits (FifoRun.start f mem) ops) :
    let q := ops.foldl FifoOp.enqueue QueueHistory.empty
    q.stream = ops.flatMap FifoOp.written ∧
      ∃ r, Machine.run (FifoRun.step fuel) (FifoRun.start f mem) ops = some r ∧
        r.Serves f size.toNat q := by
  obtain ⟨hend, hstart⟩ := stFifoAlloc_refines hpos halloc mem
  have hn : (size.toNat : Int) < 2 ^ 31 := by omega
  refine ⟨FifoOp.stream_foldl ops QueueHistory.empty, ?_⟩
  obtain ⟨r, hrun, hr⟩ :=
    Machine.run_refines_of_meets (FifoRun.Refines.step hn hfuel) hstart hfits
  refine ⟨r, hrun, hr.got, hr.holds.size hn, hr.holds.space hn, ?_, ?_, ?_⟩
  · rw [hend]
    exact hr.holds.copies
  · rw [hend]
    exact hr.holds.rptr_inside
  · rw [hend]
    exact hr.holds.wptr_inside

/-- Three bytes of room: the second write and the second read go over the end. -/
def fifoTurns : List FifoOp :=
  [.write (fun k => BitVec.ofInt 8 (k + 1)) 2, .read 1, .write (fun k => BitVec.ofInt 8 (k + 10)) 2,
    .drain 1, .read 2, .write (fun k => BitVec.ofInt 8 (k + 20)) 3, .reset, .read 0]

theorem stFifo_serves_queue_turns :
    let f : STfifoBuffer := ⟨100, 100, 100, 103, 0, 0⟩
    let q := fifoTurns.foldl FifoOp.enqueue QueueHistory.empty
    q.stream = fifoTurns.flatMap FifoOp.written ∧
      ∃ r, Machine.run (FifoRun.step 2) (FifoRun.start f fun _ => 0) fifoTurns = some r ∧
        r.Serves f (3#32).toNat q :=
  stFifo_serves_queue (by decide) (by decide)
    (show stFifoAlloc (some 100) (some ⟨7, 7, 7, 7, 7, 7⟩) 3#32 = some _ by decide) _ le_rfl
    fifoTurns (by decide)

end SpeechStack
