import SpeechStack.Libutils.Fifo
import SpeechStack.Tinyalsa.Avail

set_option autoImplicit false

/-! # The frames between two pointers

`Span sh m p r q`: the frames from the pointer `p` up to the pointer `r` are the bytes `q`, in the
ring `m`. The ring is used in both directions, so which of the two pointers is the hardware's is
left open here: one of them moves on and takes frames off the front (`Span.drop`), the other one
adds frames at the end (`Span.append`).
-/

namespace SpeechStack.Tinyalsa

/-- What does not change about a ring. -/
structure Shape where
  bufferSize : Nat
  boundary : Nat
  frameBytes : Nat

def Pcm.shape (pcm : Pcm) : Shape where
  bufferSize := pcm.bufferSize
  boundary := pcm.boundary
  frameBytes := pcm.config.frameBytes

/-- The ring can be addressed. -/
structure Geometry (sh : Shape) : Prop where
  bounded : Bounded sh.bufferSize sh.boundary
  frame_pos : 0 < sh.frameBytes
  fits : sh.bufferSize * sh.frameBytes < 2 ^ 31

/-- The bytes of the ring. -/
def Shape.ringBytes (sh : Shape) : Int := ((sh.bufferSize * sh.frameBytes : Nat) : Int)

/-- The first byte of the frame at the pointer `p`. -/
def Shape.cell (sh : Shape) (p : Nat) : Int := ((p % sh.bufferSize * sh.frameBytes : Nat) : Int)

/-- The frames between two pointers. -/
structure Span (sh : Shape) (m : Int → Uint8) (p r : Nat) (q : List Uint8) : Prop where
  length : (q.length : Int) = ahead sh.boundary p r * sh.frameBytes
  full : ahead sh.boundary p r ≤ sh.bufferSize
  holds : Ring.Holds m sh.ringBytes (sh.cell p) q

/-! ## Bytes -/

theorem bytesAt_shift (m : Int → Uint8) (a len : Int) :
    bytesAt (fun k => m (a + k)) 0 len = bytesAt m a len := by
  simp only [bytesAt, Int.zero_add]

/-- Two pieces, one behind the other. -/
theorem bytesAt_add (m : Int → Uint8) (a : Int) (x y : Nat) :
    bytesAt m a (x + y : Nat) = bytesAt m a x ++ bytesAt m (a + x) y := by
  simp only [bytesAt, Int.toNat_natCast, List.range_add, List.map_append, List.map_map]
  congr 1
  apply List.map_congr_left
  intro k _
  show m (a + ((x + k : Nat) : Int)) = m (a + x + k)
  congr 1
  omega

theorem bytesAt_congr {m m' : Int → Uint8} {a len : Int}
    (h : ∀ i, a ≤ i → i < a + len → m' i = m i) : bytesAt m' a len = bytesAt m a len := by
  apply List.map_congr_left
  intro k hk
  have hk := List.mem_range.mp hk
  exact h _ (by omega) (by omega)

/-- What has been copied is there. -/
theorem bytesAt_copyIn (m : Int → Uint8) (dst : Int) (src : Int → Uint8) (len : Int) :
    bytesAt (copyIn m dst src len) dst len = bytesAt src 0 len := by
  apply List.map_congr_left
  intro k hk
  have hk := List.mem_range.mp hk
  rw [copyIn_inside _ _ (by omega) (by omega)]
  congr 1
  omega

/-- What is in front of a copy is left as it was. -/
theorem bytesAt_copyIn_before (m : Int → Uint8) {dst a n : Int} (src : Int → Uint8) (len : Int)
    (h : a + n ≤ dst) : bytesAt (copyIn m dst src len) a n = bytesAt m a n :=
  bytesAt_congr fun _ _ hi => copyIn_outside m src (Or.inl (by omega))

/-! ## Spans -/

section Cells

variable {sh : Shape} {m m' : Int → Uint8} {p p' r r' n : Nat} {q : List Uint8}

theorem Geometry.pos (g : Geometry sh) : 0 < sh.boundary := by
  have h₁ := g.bounded.pos
  have h₂ := g.bounded.two_le
  omega

theorem Geometry.ringBytes_pos (g : Geometry sh) : 0 < sh.ringBytes := by
  have h := Nat.mul_pos g.bounded.pos g.frame_pos
  unfold Shape.ringBytes
  omega

/-- What is the same around the boundary is the same around the ring. -/
theorem Geometry.emod_eq (g : Geometry sh) {a b : Int}
    (h : a % sh.boundary = b % sh.boundary) : a % sh.bufferSize = b % sh.bufferSize := by
  have hdvd : (sh.bufferSize : Int) ∣ sh.boundary := Int.natCast_dvd_natCast.mpr g.bounded.dvd
  rw [← Int.emod_emod_of_dvd a hdvd, h, Int.emod_emod_of_dvd b hdvd]

/-- A pointer that has been moved on is so much further ahead. -/
theorem ahead_add (hpos : 0 < sh.boundary)
    (hr : (r' : Int) % sh.boundary = (r + n) % sh.boundary)
    (hlt : ahead sh.boundary p r + n < sh.boundary) :
    ahead sh.boundary p r' = ahead sh.boundary p r + n := by
  have hnonneg : 0 ≤ ahead sh.boundary p r := ahead_nonneg hpos
  calc ahead sh.boundary p r' = ((r : Int) + n - p) % sh.boundary := by
        rw [ahead, Int.sub_emod, hr, ← Int.sub_emod]
    _ = (ahead sh.boundary p r + n) % sh.boundary := by
        rw [ahead, Int.emod_add_emod]
        congr 1
        ring
    _ = ahead sh.boundary p r + n := Int.emod_eq_of_lt (by omega) hlt

/-- The other way round. -/
theorem ahead_sub (hpos : 0 < sh.boundary)
    (hp : (p' : Int) % sh.boundary = (p + n) % sh.boundary) (hle : n ≤ ahead sh.boundary p r) :
    ahead sh.boundary p' r = ahead sh.boundary p r - n := by
  have hlt : ahead sh.boundary p r < sh.boundary := ahead_lt hpos
  calc ahead sh.boundary p' r = ((r : Int) - (p + n)) % sh.boundary := by
        rw [ahead, Int.sub_emod, hp, ← Int.sub_emod]
    _ = (ahead sh.boundary p r - n) % sh.boundary := by
        rw [ahead, Int.emod_sub_emod]
        congr 1
        ring
    _ = ahead sh.boundary p r - n := Int.emod_eq_of_lt (by omega) (by omega)

/-- A remainder in frames, in bytes. -/
theorem Geometry.mul_emod (g : Geometry sh) (a : Int) :
    a * sh.frameBytes % sh.ringBytes = a % sh.bufferSize * sh.frameBytes := by
  have hframe : (0 : Int) < sh.frameBytes := Int.natCast_pos.mpr g.frame_pos
  rw [Shape.ringBytes, Nat.cast_mul, Int.mul_comm a, Int.mul_comm (sh.bufferSize : Int),
    Int.mul_emod_mul_of_pos _ _ hframe, Int.mul_comm]

theorem cell_eq_emod (g : Geometry sh) (p : Nat) :
    sh.cell p = (p : Int) * sh.frameBytes % sh.ringBytes := by
  rw [g.mul_emod, Shape.cell]
  push_cast
  rfl

/-- The cell of a pointer, from the one that `n` frames lie between. -/
theorem cell_add (g : Geometry sh) {n : Int}
    (h : (r : Int) % sh.boundary = (p + n) % sh.boundary) :
    sh.cell r = (sh.cell p + n * sh.frameBytes) % sh.ringBytes := by
  have hmod := g.emod_eq h
  calc sh.cell r = (r : Int) * sh.frameBytes % sh.ringBytes := cell_eq_emod g r
    _ = (p + n) * sh.frameBytes % sh.ringBytes := by rw [g.mul_emod, g.mul_emod, hmod]
    _ = _ := by rw [cell_eq_emod g p, Int.emod_add_emod, Int.add_mul]

theorem emod_ahead : (r : Int) % sh.boundary = (p + ahead sh.boundary p r) % sh.boundary := by
  rw [ahead, Int.add_emod_emod]
  congr 1
  ring

/-- The pointer at the end is behind the last byte. -/
theorem Span.index_length (g : Geometry sh) (h : Span sh m p r q) :
    Ring.index sh.ringBytes (sh.cell p) q.length = sh.cell r := by
  rw [Ring.index, h.length]
  exact (cell_add g emod_ahead).symm

/-- The pointer at the front takes `n` frames. -/
theorem Span.drop (g : Geometry sh) (h : Span sh m p r q)
    (hp : (p' : Int) % sh.boundary = (p + n) % sh.boundary) (hle : n ≤ ahead sh.boundary p r) :
    Span sh m p' r (q.drop (n * sh.frameBytes)) where
  length := by
    have hbytes : (n : Int) * sh.frameBytes ≤ ahead sh.boundary p r * sh.frameBytes :=
      Int.mul_le_mul_of_nonneg_right hle (Int.natCast_nonneg _)
    have hlen := h.length
    rw [ahead_sub g.pos hp hle, List.length_drop, Int.sub_mul]
    push_cast [Nat.cast_sub (show n * sh.frameBytes ≤ q.length by
      have : ((n * sh.frameBytes : Nat) : Int) ≤ q.length := by push_cast; omega
      omega)]
    omega
  full := by
    have hfull := h.full
    rw [ahead_sub g.pos hp hle]
    omega
  holds := by
    have hbytes : (n : Int) * sh.frameBytes ≤ ahead sh.boundary p r * sh.frameBytes :=
      Int.mul_le_mul_of_nonneg_right hle (Int.natCast_nonneg _)
    have hlen := h.length
    have hdrop := h.holds.drop (n := n * sh.frameBytes) (by
      have : ((n * sh.frameBytes : Nat) : Int) ≤ q.length := by push_cast; omega
      omega)
    rw [cell_add g hp]
    push_cast at hdrop
    exact hdrop

/-- The pointer at the end moves on over `n` frames that are in place. -/
theorem Span.append (g : Geometry sh) (h : Span sh m p r q) {ys : List Uint8}
    (hys : ys.length = n * sh.frameBytes)
    (hr : (r' : Int) % sh.boundary = (r + n) % sh.boundary)
    (hroom : ahead sh.boundary p r + n ≤ sh.bufferSize)
    (hcells : Ring.Holds m' sh.ringBytes (sh.cell p) (q ++ ys)) :
    Span sh m' p r' (q ++ ys) := by
  have htwo := g.bounded.two_le
  have hpos := g.bounded.pos
  have hahead : ahead sh.boundary p r' = ahead sh.boundary p r + n := ahead_add g.pos hr (by omega)
  constructor
  · rw [List.length_append, hahead, hys, Int.add_mul, ← h.length]
    push_cast
    ring
  · rw [hahead]
    exact hroom
  · exact hcells

/-- A copy of `n` frames behind the last one, up to the end of the ring. -/
theorem Span.copy (g : Geometry sh) (h : Span sh m p r q) (src : Int → Uint8)
    (hroom : ahead sh.boundary p r + n ≤ sh.bufferSize) (hend : r % sh.bufferSize + n ≤ sh.bufferSize) :
    Ring.Holds (copyIn m (sh.cell r) src (n * sh.frameBytes : Nat)) sh.ringBytes
      (sh.cell p) (q ++ bytesAt src 0 (n * sh.frameBytes : Nat)) := by
  have hframe : (0 : Int) ≤ sh.frameBytes := Int.natCast_nonneg _
  have hroom' := Int.mul_le_mul_of_nonneg_right hroom hframe
  have hend' := Nat.mul_le_mul_right sh.frameBytes hend
  have hholds : Ring.Holds (fun i => m (0 + i)) sh.ringBytes (sh.cell p) q := by
    simpa only [Int.zero_add] using h.holds
  have hlen : (0 : Int) ≤ (n * sh.frameBytes : Nat) := Int.natCast_nonneg _
  have hcopy := ring_copyIn src hholds hlen
    (by rw [h.length, Shape.ringBytes]; push_cast; rw [← Int.add_mul]; exact hroom')
    (by
      rw [h.index_length g, Shape.cell, Shape.ringBytes]
      rw [Nat.add_mul] at hend'
      exact_mod_cast hend')
  rw [h.index_length g] at hcopy
  simpa only [Int.zero_add] using hcopy

/-- `n` frames from the front on, up to the end of the ring. -/
theorem Span.bytesAt_front (g : Geometry sh) (h : Span sh m p r q) (hle : n ≤ ahead sh.boundary p r)
    (hend : p % sh.bufferSize + n ≤ sh.bufferSize) :
    bytesAt m (sh.cell p) (n * sh.frameBytes : Nat) = q.take (n * sh.frameBytes) := by
  have hend' := Nat.mul_le_mul_right sh.frameBytes hend
  rw [Nat.add_mul] at hend'
  have hlen : n * sh.frameBytes ≤ q.length := by
    have hbytes : (n : Int) * sh.frameBytes ≤ ahead sh.boundary p r * sh.frameBytes :=
      Int.mul_le_mul_of_nonneg_right hle (Int.natCast_nonneg _)
    have : ((n * sh.frameBytes : Nat) : Int) ≤ q.length := by
      rw [h.length]
      push_cast
      exact hbytes
    omega
  have hfront : Ring.index sh.ringBytes (sh.cell p) 0 = sh.cell p :=
    Ring.index_zero h.holds.front_nonneg h.holds.front_lt
  apply List.ext_getElem?
  intro k
  by_cases hk : k < n * sh.frameBytes
  · have hcell : Ring.index sh.ringBytes (sh.cell p) (0 + k) = sh.cell p + k := by
      rw [Ring.index_add_of_lt g.ringBytes_pos, hfront]
      rw [hfront, Shape.cell, Shape.ringBytes]
      omega
    rw [Nat.zero_add] at hcell
    rw [bytesAt_getElem? _ _ _ (by rw [Int.toNat_natCast]; exact hk), List.getElem?_take_of_lt hk,
      h.holds.cell k (by omega), hcell]
  · rw [List.getElem?_eq_none (by rw [bytesAt_length, Int.toNat_natCast]; omega),
      List.getElem?_eq_none (by rw [List.length_take]; omega)]

end Cells

end SpeechStack.Tinyalsa
