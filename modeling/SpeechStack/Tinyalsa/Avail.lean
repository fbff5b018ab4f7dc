import SpeechStack.Lib.Ring
import SpeechStack.Tinyalsa.State

set_option autoImplicit false

/-! # The pointers into the ring

The application and the hardware move through the ring buffer of the device with one pointer each,
`appl_ptr` and `hw_ptr`. They count frames and start again at `boundary`, the hardware's at 0 and
the application's only behind `boundary`, so that the end of the range has two names. `ahead` is how
far the second pointer is in front of the first.

Of the two functions that compare the pointers, the one for capture is exact. The one for playback
tests for more than `boundary` where it should test for at least `boundary`: on a full ring whose
application pointer alone has started again it answers `boundary` (`Lapped`).
-/

namespace SpeechStack.Tinyalsa

open Wrap

/-- `pcm_mmap_playback_avail(pcm)`: the frames that can be written. -/
def pcmMmapPlaybackAvail (pcm : Pcm) (hwPtr applPtr : Nat) : Int :=
  let avail := int (hwPtr + pcm.bufferSize - applPtr)
  if avail < 0 then int (avail + pcm.boundary)
  else if avail > int pcm.boundary then int (avail - pcm.boundary)
  else avail

/-- `pcm_mmap_capture_avail(pcm)`: the frames that can be read. -/
def pcmMmapCaptureAvail (pcm : Pcm) (hwPtr applPtr : Nat) : Int :=
  let avail := int (hwPtr - applPtr)
  if avail < 0 then int (avail + pcm.boundary) else avail

/-- `pcm_mmap_avail(pcm)`, after the pointers have been synchronised. -/
def pcmMmapAvail (pcm : Pcm) (hwPtr applPtr : Nat) : Int :=
  if pcm.isIn then pcmMmapCaptureAvail pcm hwPtr applPtr else pcmMmapPlaybackAvail pcm hwPtr applPtr

/-- The frames that `pcm_get_htimestamp` stores in `*avail`. -/
def htimestampAvail (pcm : Pcm) (hwPtr applPtr : Nat) : Nat :=
  let frames :=
    if pcm.isIn then int (hwPtr - applPtr) else int (hwPtr + pcm.bufferSize - applPtr)
  uint (if frames < 0 then int (frames + pcm.boundary)
    else if frames > int pcm.boundary then int (frames - pcm.boundary)
    else frames)

/-- `pcm_mmap_appl_forward(pcm, frames)`: the new `appl_ptr`. -/
def pcmMmapApplForward (pcm : Pcm) (applPtr : Nat) (frames : Int) : Nat :=
  let applPtr := uint (applPtr + frames)
  if applPtr > pcm.boundary then uint (applPtr - pcm.boundary) else applPtr

/-- The hardware moves on by one frame. -/
def hwForward (pcm : Pcm) (hwPtr : Nat) : Nat := if hwPtr + 1 = pcm.boundary then 0 else hwPtr + 1

/-! ## Distances -/

/-- How many frames `q` is in front of `p`. -/
def ahead (boundary p q : Nat) : Int := ((q : Int) - p) % boundary

/-- Both pointers are in their ranges. -/
structure InRange (pcm : Pcm) (hwPtr applPtr : Nat) : Prop where
  bounded : Bounded pcm.bufferSize pcm.boundary
  hw : hwPtr < pcm.boundary
  appl : applPtr ≤ pcm.boundary

/-- The ring is full and `appl_ptr` has started again, but not `hw_ptr`. -/
def Lapped (pcm : Pcm) (hwPtr applPtr : Nat) : Prop :=
  hwPtr + pcm.bufferSize = applPtr + pcm.boundary

instance (pcm : Pcm) (hwPtr applPtr : Nat) : Decidable (Lapped pcm hwPtr applPtr) :=
  inferInstanceAs (Decidable (_ = _))

section Distances

variable {pcm : Pcm} {boundary p q hwPtr applPtr : Nat}

theorem ahead_nonneg (h : 0 < boundary) : 0 ≤ ahead boundary p q := Int.emod_nonneg _ (by omega)

theorem ahead_lt (h : 0 < boundary) : ahead boundary p q < boundary :=
  Int.emod_lt_of_pos _ (by omega)

/-- The three ways in which one pointer can be in front of the other. -/
theorem ahead_cases (hp : p ≤ boundary) (hq : q ≤ boundary) (hpos : 0 < boundary) :
    (p ≤ q ∧ q < p + boundary ∧ ahead boundary p q = q - p) ∨
    (q < p ∧ p < q + boundary ∧ ahead boundary p q = q + boundary - p) ∨
    ((q = p + boundary ∨ p = q + boundary) ∧ ahead boundary p q = 0) := by
  unfold ahead
  rcases lt_trichotomy ((q : Int) - p) 0 with hlt | heq | hgt
  · by_cases hall : p = q + boundary
    · refine Or.inr (Or.inr ⟨Or.inr hall, ?_⟩)
      rw [show (q : Int) - p = -boundary by omega, Int.neg_emod_self]
    · refine Or.inr (Or.inl ⟨by omega, by omega, ?_⟩)
      rw [← Int.add_emod_right, Int.emod_eq_of_lt (by omega) (by omega)]
      ring
  · exact Or.inl ⟨by omega, by omega, by rw [heq, Int.zero_emod]⟩
  · by_cases hall : q = p + boundary
    · refine Or.inr (Or.inr ⟨Or.inl hall, ?_⟩)
      rw [show (q : Int) - p = boundary by omega, Int.emod_self]
    · exact Or.inl ⟨by omega, by omega, Int.emod_eq_of_lt (by omega) (by omega)⟩

theorem InRange.pos (h : InRange pcm hwPtr applPtr) : 0 < pcm.boundary := by
  have := h.hw
  omega

/-- The ranges in figures, for `omega`. -/
theorem InRange.facts (h : InRange pcm hwPtr applPtr) :
    0 < pcm.bufferSize ∧ 2 * pcm.bufferSize ≤ pcm.boundary ∧
      pcm.boundary + pcm.bufferSize < 2 ^ 31 ∧ hwPtr < pcm.boundary ∧ applPtr ≤ pcm.boundary := by
  have hfits := h.bounded.fits
  unfold INT_MAX at hfits
  exact ⟨h.bounded.pos, h.bounded.two_le, by omega, h.hw, h.appl⟩

/-- What the mistaken test lets through is a full ring. -/
theorem Lapped.full (h : InRange pcm hwPtr applPtr) (hlap : Lapped pcm hwPtr applPtr) :
    ahead pcm.boundary hwPtr applPtr = pcm.bufferSize := by
  obtain ⟨hsize, htwo, hfits, hhw, happl⟩ := h.facts
  have hsum : hwPtr + pcm.bufferSize = applPtr + pcm.boundary := hlap
  rcases ahead_cases (Nat.le_of_lt hhw) happl h.pos with ⟨hle, -, -⟩ | ⟨-, -, heq⟩ | ⟨hend, -⟩
  · omega
  · omega
  · omega

/-- For playback, with no more in the ring than fits. -/
theorem playbackAvail_eq (h : InRange pcm hwPtr applPtr)
    (hfull : ahead pcm.boundary hwPtr applPtr ≤ pcm.bufferSize) :
    pcmMmapPlaybackAvail pcm hwPtr applPtr =
      if Lapped pcm hwPtr applPtr then (pcm.boundary : Int)
      else pcm.bufferSize - ahead pcm.boundary hwPtr applPtr := by
  obtain ⟨hsize, htwo, hfits, hhw, happl⟩ := h.facts
  have hboundary : int pcm.boundary = pcm.boundary := int_eq (by omega) (by omega)
  have hdiff : int (hwPtr + pcm.bufferSize - applPtr) = hwPtr + pcm.bufferSize - applPtr :=
    int_eq (by omega) (by omega)
  have hlap : Lapped pcm hwPtr applPtr → hwPtr + pcm.bufferSize = applPtr + pcm.boundary := id
  simp only [pcmMmapPlaybackAvail, hdiff, hboundary]
  rcases ahead_cases (Nat.le_of_lt hhw) happl h.pos with ⟨h₁, h₂, heq⟩ | ⟨h₁, h₂, heq⟩ | ⟨h₁, heq⟩
  · rw [if_neg (by omega), if_neg (by omega), if_neg fun h => by have := hlap h; omega, heq]
    ring
  · -- `appl_ptr` has started again
    rw [if_neg (by omega)]
    by_cases hfully : hwPtr + pcm.bufferSize = applPtr + pcm.boundary
    · rw [if_neg (by omega), if_pos (show Lapped pcm hwPtr applPtr from hfully)]
      omega
    · rw [if_pos (by omega), if_neg (mt hlap hfully), int_eq (by omega) (by omega)]
      omega
  · -- the end of the range, by its other name
    rw [if_pos (by omega), if_neg fun h => by have := hlap h; omega, int_eq (by omega) (by omega),
      heq]
    omega

/-- For capture. -/
theorem captureAvail_eq (h : InRange pcm hwPtr applPtr) :
    pcmMmapCaptureAvail pcm hwPtr applPtr = ahead pcm.boundary applPtr hwPtr := by
  obtain ⟨hsize, htwo, hfits, hhw, happl⟩ := h.facts
  have hdiff : int ((hwPtr : Int) - applPtr) = hwPtr - applPtr := int_eq (by omega) (by omega)
  simp only [pcmMmapCaptureAvail, hdiff]
  rcases ahead_cases happl (Nat.le_of_lt hhw) h.pos with ⟨h₁, h₂, heq⟩ | ⟨h₁, h₂, heq⟩ | ⟨h₁, heq⟩
  · rw [if_neg (by omega), heq]
  · rw [if_pos (by omega), int_eq (by omega) (by omega), heq]
    ring
  · rw [if_pos (by omega), int_eq (by omega) (by omega), heq]
    omega

/-- `appl_ptr` stays in its range, and moves by what it is told, around the ring. -/
theorem applForward_spec (h : InRange pcm hwPtr applPtr) {frames : Nat}
    (hframes : frames ≤ pcm.bufferSize) :
    pcmMmapApplForward pcm applPtr frames ≤ pcm.boundary ∧
      (pcmMmapApplForward pcm applPtr frames : Int) % pcm.boundary =
        (applPtr + frames) % pcm.boundary := by
  obtain ⟨hsize, htwo, hfits, hhw, happl⟩ := h.facts
  have hsum : uint ((applPtr : Int) + frames) = applPtr + frames := by
    have := uint_eq (x := (applPtr : Int) + frames) (by omega) (by omega)
    omega
  simp only [pcmMmapApplForward, hsum]
  by_cases hwrap : applPtr + frames > pcm.boundary
  · have hback : (uint (((applPtr + frames : Nat) : Int) - pcm.boundary) : Int) =
        applPtr + frames - pcm.boundary := by
      rw [uint_eq (by omega) (by omega)]
      push_cast
      ring
    rw [if_pos hwrap, hback, Int.sub_emod_right]
    exact ⟨by omega, rfl⟩
  · rw [if_neg hwrap]
    exact ⟨by omega, by push_cast; rfl⟩

theorem hwForward_spec (h : hwPtr < pcm.boundary) :
    hwForward pcm hwPtr < pcm.boundary ∧
      (hwForward pcm hwPtr : Int) % pcm.boundary = (hwPtr + 1) % pcm.boundary := by
  unfold hwForward
  split
  · rename_i heq
    refine ⟨by omega, ?_⟩
    rw [show (hwPtr : Int) + 1 = pcm.boundary by omega, Int.emod_self]
    rfl
  · exact ⟨by omega, by push_cast; rfl⟩

/-- The other function that compares the pointers comes to the same. -/
theorem htimestampAvail_eq (h : InRange pcm hwPtr applPtr) :
    htimestampAvail pcm hwPtr applPtr = uint (pcmMmapAvail pcm hwPtr applPtr) := by
  obtain ⟨hsize, htwo, hfits, hhw, happl⟩ := h.facts
  have hboundary : int pcm.boundary = pcm.boundary := int_eq (by omega) (by omega)
  have hdiff : int ((hwPtr : Int) - applPtr) = hwPtr - applPtr := int_eq (by omega) (by omega)
  cases hin : pcm.isIn with
  | true =>
      simp only [htimestampAvail, pcmMmapAvail, hin, if_true, pcmMmapCaptureAvail, hdiff,
        hboundary]
      rw [if_neg (show ¬ (hwPtr : Int) - applPtr > pcm.boundary by omega)]
  | false =>
      simp only [htimestampAvail, pcmMmapAvail, hin, Bool.false_eq_true, if_false,
        pcmMmapPlaybackAvail]

/-- **The frames that can be moved.** With no more than a buffer in the ring, for capture the answer
is the number of frames in the ring. For playback it is the room for more if and only if the ring is
not full with `appl_ptr` alone started again, when there is no room and the answer is `boundary`.
The answer with a time stamp is the same. -/
theorem pcmMmapAvail_exact (h : InRange pcm hwPtr applPtr) :
    (pcm.isIn = true → pcmMmapAvail pcm hwPtr applPtr = ahead pcm.boundary applPtr hwPtr) ∧
    (pcm.isIn = false → ahead pcm.boundary hwPtr applPtr ≤ pcm.bufferSize →
      (pcmMmapAvail pcm hwPtr applPtr = pcm.bufferSize - ahead pcm.boundary hwPtr applPtr ↔
        ¬ Lapped pcm hwPtr applPtr) ∧
      (Lapped pcm hwPtr applPtr → ahead pcm.boundary hwPtr applPtr = pcm.bufferSize ∧
        pcmMmapAvail pcm hwPtr applPtr = pcm.boundary)) ∧
    htimestampAvail pcm hwPtr applPtr = uint (pcmMmapAvail pcm hwPtr applPtr) := by
  obtain ⟨hsize, htwo, hfits, hhw, happl⟩ := h.facts
  refine ⟨fun hin => ?_, fun hin hfull => ?_, htimestampAvail_eq h⟩
  · rw [pcmMmapAvail, if_pos hin, captureAvail_eq h]
  · have havail : pcmMmapAvail pcm hwPtr applPtr = pcmMmapPlaybackAvail pcm hwPtr applPtr :=
      if_neg (by rw [hin]; exact Bool.false_ne_true)
    have hnonneg : 0 ≤ ahead pcm.boundary hwPtr applPtr := ahead_nonneg h.pos
    rw [havail, playbackAvail_eq h hfull]
    by_cases hlap : Lapped pcm hwPtr applPtr
    · have hsum : hwPtr + pcm.bufferSize = applPtr + pcm.boundary := hlap
      rw [if_pos hlap]
      exact ⟨⟨fun heq => by omega, fun hnot => absurd hlap hnot⟩, fun _ => ⟨hlap.full h, rfl⟩⟩
    · rw [if_neg hlap]
      exact ⟨⟨fun _ => hlap, fun _ => rfl⟩, fun hlap' => absurd hlap' hlap⟩

/-- A full ring of two frames whose application pointer has started again. -/
theorem pcmMmapAvail_exact_lapped :
    ∃ pcm : Pcm, pcm.isIn = false ∧ Lapped pcm 7 1 ∧ ahead pcm.boundary 7 1 = pcm.bufferSize ∧
      pcmMmapAvail pcm 7 1 = pcm.boundary := by
  let pcm : Pcm := ⟨3, PCM_MMAP, true, true, 0, 2, 8, ⟨1, 8000, 1, 2, 0, 1, 2, 0, 0, 1⟩, 0, false⟩
  have hrange : InRange pcm 7 1 := ⟨show Bounded 2 8 from ⟨by decide, by decide, by decide, by decide⟩,
    by decide, by decide⟩
  have hout := ((pcmMmapAvail_exact hrange).2.1 (by decide) (by decide)).2 (by decide)
  exact ⟨pcm, by decide, by decide, hout.1, hout.2⟩

end Distances

end SpeechStack.Tinyalsa
