import Mathlib.Tactic

set_option autoImplicit false

/-! # Capture frames

The microphone array delivers 32-bit words, twelve to a frame. Bits 8–11 of a word carry its
channel number, `1` to `12`; the upper half is the sample. A frame starts at every word from
which on twelve words are tagged `1, …, 12` (`Tagged`). Two such words are at least twelve
apart (`Tagged.no_overlap`), so the frames of a stream do not depend on where a scanner
starts or on how it advances, and `framesFrom w p k` can list them as a filter.
-/

namespace SpeechStack

/-- `unsigned int`: one 32-bit slot of the capture stream. -/
abbrev Word := BitVec 32

/-- `CHECKERROR_INT32_LE(x)`: some word of the twelve has the wrong channel number. -/
def checkErrorInt32Le (w : Nat → Word) (p : Nat) : Bool :=
  (List.range 12).any fun j => (w (p + j) &&& 0x00000f00) != BitVec.ofNat 32 (0x100 * (j + 1))

/-- `CHECKDATA_INT32(x)`: every one of the twelve upper halves is `0` or `0xffff`. -/
def checkDataInt32 (w : Nat → Word) (p : Nat) : Bool :=
  (List.range 12).all fun j =>
    (w (p + j) &&& 0xffff0000) == 0 || (w (p + j) &&& 0xffff0000) == 0xffff0000

/-- A frame starts at word `p` of `w`. -/
def Tagged (w : Nat → Word) (p : Nat) : Prop := checkErrorInt32Le w p = false

/-- The twelve words from `p` on carry no sound. -/
def Silent (w : Nat → Word) (p : Nat) : Prop := checkDataInt32 w p = true

instance (w : Nat → Word) : DecidablePred (Tagged w) :=
  fun p => inferInstanceAs (Decidable (checkErrorInt32Le w p = false))

instance (w : Nat → Word) : DecidablePred (Silent w) :=
  fun p => inferInstanceAs (Decidable (checkDataInt32 w p = true))

theorem tagged_iff {w : Nat → Word} {p : Nat} :
    Tagged w p ↔ ∀ j, j < 12 → w (p + j) &&& 0x00000f00 = BitVec.ofNat 32 (0x100 * (j + 1)) := by
  simp [Tagged, checkErrorInt32Le]

/-- The check reads twelve words and nothing else. -/
theorem tagged_congr {w v : Nat → Word} {p q : Nat} (h : ∀ j, j < 12 → w (p + j) = v (q + j)) :
    Tagged w p ↔ Tagged v q := by
  rw [tagged_iff, tagged_iff]
  exact forall₂_congr fun j hj => by rw [h j hj]

theorem silent_congr {w v : Nat → Word} {p q : Nat} (h : ∀ j, j < 12 → w (p + j) = v (q + j)) :
    Silent w p ↔ Silent v q := by
  have hiff : ∀ u : Nat → Word, ∀ r, Silent u r ↔ ∀ j, j < 12 →
      (u (r + j) &&& 0xffff0000 = 0 ∨ u (r + j) &&& 0xffff0000 = 0xffff0000) := by
    intro u r
    simp [Silent, checkDataInt32]
  rw [hiff, hiff]
  exact forall₂_congr fun j hj => by rw [h j hj]

/-- The first word of a frame carries channel number 1. -/
theorem Tagged.first {w : Nat → Word} {p : Nat} (h : Tagged w p) : w p &&& 0x00000f00 = 0x100 :=
  tagged_iff.mp h 0 (by omega)

/-- The other words of a frame do not. -/
theorem Tagged.inner {w : Nat → Word} {p j : Nat} (h : Tagged w p) (h₀ : 0 < j) (h₁ : j < 12) :
    w (p + j) &&& 0x00000f00 ≠ 0x100 := by
  rw [tagged_iff.mp h j h₁]
  intro heq
  have := congrArg BitVec.toNat heq
  have hlit : (0x100 : Word).toNat = 0x100 := rfl
  rw [BitVec.toNat_ofNat, hlit] at this
  omega

/-- So no frame starts inside another one. -/
theorem Tagged.no_overlap {w : Nat → Word} {p q : Nat} (hp : Tagged w p) (hq : Tagged w q)
    (hlt : p < q) : p + 12 ≤ q := by
  by_contra hcon
  obtain ⟨j, rfl⟩ : ∃ j, q = p + j := ⟨q - p, by omega⟩
  exact hp.inner (by omega) (by omega) hq.first

/-- A zero word is not the first word of a frame. -/
theorem Tagged.ne_zero {w : Nat → Word} {p : Nat} (h : Tagged w p) : w p ≠ 0 := by
  intro h₀
  have h₁ := h.first
  rw [h₀] at h₁
  exact absurd h₁ (by decide)

/-! ## The frames of a stretch of words -/

/-- The positions in `[p, p + k)` at which a frame starts, in order. -/
def framesFrom (w : Nat → Word) (p k : Nat) : List Nat :=
  (List.range' p k).filter fun q => !checkErrorInt32Le w q

theorem mem_framesFrom {w : Nat → Word} {p k q : Nat} :
    q ∈ framesFrom w p k ↔ (p ≤ q ∧ q < p + k) ∧ Tagged w q := by
  simp [framesFrom, Tagged]

@[simp] theorem framesFrom_zero (w : Nat → Word) (p : Nat) : framesFrom w p 0 = [] := rfl

theorem framesFrom_add (w : Nat → Word) (p k l : Nat) :
    framesFrom w p (k + l) = framesFrom w p k ++ framesFrom w (p + k) l := by
  rw [framesFrom, framesFrom, framesFrom, ← List.filter_append, List.range'_append_1]

/-- A stretch in which no frame starts. -/
theorem framesFrom_eq_nil {w : Nat → Word} {p k : Nat}
    (h : ∀ i, i < k → ¬ Tagged w (p + i)) : framesFrom w p k = [] := by
  rw [List.eq_nil_iff_forall_not_mem]
  intro q hq
  obtain ⟨⟨h₁, h₂⟩, ht⟩ := mem_framesFrom.mp hq
  refine h (q - p) (by omega) ?_
  rwa [Nat.add_sub_cancel' h₁]

theorem framesFrom_of_not_tagged {w : Nat → Word} {p k : Nat} (h : ¬ Tagged w p) (hk : 0 < k) :
    framesFrom w p k = framesFrom w (p + 1) (k - 1) := by
  obtain ⟨l, rfl⟩ : ∃ l, k = 1 + l := ⟨k - 1, by omega⟩
  rw [framesFrom_add, framesFrom_eq_nil (fun i hi => by rwa [Nat.lt_one_iff.mp hi]),
    List.nil_append, Nat.add_sub_cancel_left]

/-- After a frame the next eleven words start none. -/
theorem framesFrom_of_tagged {w : Nat → Word} {p k : Nat} (h : Tagged w p) (hk : 0 < k) :
    framesFrom w p k = p :: framesFrom w (p + 12) (k - 12) := by
  have hhead : framesFrom w p 1 = [p] := by
    rw [Tagged] at h
    simp [framesFrom, h]
  have htail : ∀ l, l ≤ 11 → framesFrom w (p + 1) l = [] := by
    intro l hl
    refine framesFrom_eq_nil fun i hi ht => ?_
    have := h.no_overlap ht (by omega)
    omega
  by_cases hk12 : k ≤ 12
  · obtain ⟨l, rfl⟩ : ∃ l, k = 1 + l := ⟨k - 1, by omega⟩
    rw [framesFrom_add, hhead, htail l (by omega), Nat.sub_eq_zero_of_le hk12]
    rfl
  · obtain ⟨l, rfl⟩ : ∃ l, k = 1 + (11 + l) := ⟨k - 12, by omega⟩
    rw [framesFrom_add, framesFrom_add, hhead, htail 11 le_rfl, List.nil_append,
      show 1 + (11 + l) - 12 = l by omega, show p + 1 + 11 = p + 12 by omega]
    rfl

/-- Frames are twelve words apart, so a stretch holds one to every twelve words at most. -/
theorem framesFrom_length_le (w : Nat → Word) (p k : Nat) :
    12 * (framesFrom w p k).length ≤ k + 11 := by
  induction k using Nat.strong_induction_on generalizing p with
  | _ k ih =>
      by_cases hk : 0 < k
      · by_cases ht : Tagged w p
        · have := ih (k - 12) (by omega) (p + 12)
          rw [framesFrom_of_tagged ht hk, List.length_cons]
          by_cases hk12 : 12 ≤ k
          · omega
          · rw [Nat.sub_eq_zero_of_le (by omega), framesFrom_zero, List.length_nil]
            omega
        · have := ih (k - 1) (by omega) (p + 1)
          rw [framesFrom_of_not_tagged ht hk]
          omega
      · rw [Nat.eq_zero_of_not_pos hk, framesFrom_zero, List.length_nil]
        omega

/-! ## Packing -/

/-- The three words that `parseData_INT32` makes of the frame at `p`: channels 1, 2 and 7, 8
(the microphones) and 4, 10 (the echo references), two samples to a word. -/
def packFrame (w : Nat → Word) (p : Nat) : List Word :=
  [(w p &&& 0xffff0000) ||| ((w (p + 1) &&& 0xffff0000) >>> 16),
   (w (p + 6) &&& 0xffff0000) ||| ((w (p + 7) &&& 0xffff0000) >>> 16),
   (w (p + 3) &&& 0xffff0000) ||| ((w (p + 9) &&& 0xffff0000) >>> 16)]

/-- The packed frames at the given positions, one after the other. -/
def packFrames (w : Nat → Word) (ps : List Nat) : List Word := ps.flatMap (packFrame w)

@[simp] theorem packFrame_length (w : Nat → Word) (p : Nat) : (packFrame w p).length = 3 := rfl

@[simp] theorem packFrames_nil (w : Nat → Word) : packFrames w [] = [] := rfl

theorem packFrames_cons (w : Nat → Word) (p : Nat) (ps : List Nat) :
    packFrames w (p :: ps) = packFrame w p ++ packFrames w ps := List.flatMap_cons

theorem packFrames_append (w : Nat → Word) (ps qs : List Nat) :
    packFrames w (ps ++ qs) = packFrames w ps ++ packFrames w qs := List.flatMap_append

@[simp] theorem packFrames_length (w : Nat → Word) (ps : List Nat) :
    (packFrames w ps).length = 3 * ps.length := by
  induction ps with
  | nil => rfl
  | cons p ps ih =>
      rw [packFrames_cons, List.length_append, ih, packFrame_length, List.length_cons]
      ring

theorem packFrame_congr {w v : Nat → Word} {p q : Nat} (h : ∀ j, j < 12 → w (p + j) = v (q + j)) :
    packFrame w p = packFrame v q := by
  have h₀ := h 0 (by omega)
  rw [Nat.add_zero, Nat.add_zero] at h₀
  rw [packFrame, packFrame, h₀, h 1 (by omega), h 6 (by omega), h 7 (by omega),
    h 3 (by omega), h 9 (by omega)]

/-- Two stretches pack to the same words when they agree on the twelve words behind every
position at which either of them starts a frame. -/
theorem packFrames_framesFrom_congr {w v : Nat → Word} {p q k : Nat}
    (h : ∀ i, i < k → Tagged w (p + i) ∨ Tagged v (q + i) →
      ∀ j, j < 12 → w (p + i + j) = v (q + i + j)) :
    packFrames w (framesFrom w p k) = packFrames v (framesFrom v q k) := by
  induction k with
  | zero => rfl
  | succ k ih =>
      rw [framesFrom_add, framesFrom_add, packFrames_append, packFrames_append,
        ih (fun i hi => h i (by omega))]
      congr 1
      by_cases hor : Tagged w (p + k) ∨ Tagged v (q + k)
      · have heq := h k (by omega) hor
        have hw : Tagged w (p + k) := hor.elim id (tagged_congr heq).mpr
        rw [framesFrom_of_tagged hw one_pos,
          framesFrom_of_tagged ((tagged_congr heq).mp hw) one_pos]
        exact congrArg (· ++ []) (packFrame_congr heq)
      · rw [not_or] at hor
        rw [framesFrom_of_not_tagged hor.1 one_pos, framesFrom_of_not_tagged hor.2 one_pos]
        rfl

end SpeechStack
