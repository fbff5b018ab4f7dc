import SpeechStack.Speech.Scanner

set_option autoImplicit false

/-! # What the scanners compute

The specifications of the two scanners in terms of what a capture word means: its channel
number (`channel`) and its sample (`sample`). `parseData_INT32` works in place and still
delivers the frames of the window as it was before the call (`parseDataInt32_packs`);
`skipData` finds the first frame that carries sound, although it jumps (`skipData_finds`).
-/

namespace SpeechStack

open Memory

/-! ## The fields of a word -/

/-- Bits 8–11: the channel number. -/
def channel (w : Word) : BitVec 4 := w.extractLsb' 8 4

/-- The upper half: the sample. -/
def sample (w : Word) : BitVec 16 := w.extractLsb' 16 16

theorem and_channelMask (w : Word) :
    w &&& (0x00000f00 : Word) = (channel w).setWidth 32 <<< 8 := by
  have hmask : ∀ i, i < 32 →
      (0x00000f00 : Word).getLsbD i = (decide (8 ≤ i) && decide (i < 12)) := by decide
  apply BitVec.eq_of_getLsbD_eq
  intro i hi
  rw [BitVec.getLsbD_and, hmask i hi, channel]
  by_cases h₁ : i < 8
  · simp [h₁, Nat.not_le_of_gt h₁]
  · by_cases h₂ : i < 12
    · simp [h₁, h₂, hi, show i - 8 < 4 by omega, show 8 + (i - 8) = i by omega,
        show 8 ≤ i by omega]
    · simp [h₁, h₂, show ¬ i - 8 < 4 by omega]

theorem and_sampleMask (w : Word) : w &&& (0xffff0000 : Word) = sample w ++ (0 : BitVec 16) := by
  have hmask : ∀ i, i < 32 → (0xffff0000 : Word).getLsbD i = decide (16 ≤ i) := by decide
  apply BitVec.eq_of_getLsbD_eq
  intro i hi
  rw [BitVec.getLsbD_and, hmask i hi, sample, BitVec.getLsbD_append]
  by_cases h : i < 16
  · simp [h, Nat.not_le_of_gt h]
  · simp [h, show i - 16 < 16 by omega, show 16 + (i - 16) = i by omega, show 16 ≤ i by omega]

/-- Two masked words make a pair of samples, the first in the upper half. -/
theorem packWord_eq (a b : Word) :
    (a &&& (0xffff0000 : Word)) ||| ((b &&& (0xffff0000 : Word)) >>> 16)
      = sample a ++ sample b := by
  rw [and_sampleMask, and_sampleMask]
  apply BitVec.eq_of_getLsbD_eq
  intro i hi
  rw [BitVec.getLsbD_or, BitVec.getLsbD_ushiftRight, BitVec.getLsbD_append,
    BitVec.getLsbD_append, BitVec.getLsbD_append]
  by_cases h : i < 16
  · simp [h]
  · have hout : (sample b).getLsbD i = false := BitVec.getLsbD_of_ge _ _ (by omega)
    simp [h, hout]

/-- One test of `CHECKERROR_INT32_LE`. -/
theorem channelMask_eq_iff (w : Word) {j : Nat} (hj : j < 12) :
    w &&& 0x00000f00 = BitVec.ofNat 32 (0x100 * (j + 1)) ↔ channel w = BitVec.ofNat 4 (j + 1) := by
  have hlit : ∀ j, j < 12 → BitVec.ofNat 32 (0x100 * (j + 1))
      = (BitVec.ofNat 4 (j + 1)).setWidth 32 <<< 8 := by decide
  have hinj : ∀ a b : BitVec 4, a.setWidth 32 <<< 8 = b.setWidth 32 <<< 8 → a = b := by decide
  rw [hlit j hj]
  refine ⟨fun h => hinj _ _ ((and_channelMask w).symm.trans h), fun h => ?_⟩
  exact (and_channelMask w).trans (by rw [h])

/-- A frame is twelve words with the channel numbers 1 to 12. -/
theorem tagged_iff_channel {w : Nat → Word} {p : Nat} :
    Tagged w p ↔ ∀ j, j < 12 → channel (w (p + j)) = BitVec.ofNat 4 (j + 1) := by
  rw [tagged_iff]
  exact forall₂_congr fun j hj => channelMask_eq_iff _ hj

/-- A frame is silent when all its samples are `0` or `-1`. -/
theorem silent_iff_sample {w : Nat → Word} {p : Nat} :
    Silent w p ↔ ∀ j, j < 12 → sample (w (p + j)) = 0 ∨ sample (w (p + j)) = 0xffff := by
  have hinj : ∀ a b : BitVec 16, a ++ (0 : BitVec 16) = b ++ (0 : BitVec 16) ↔ a = b := by
    intro a b
    refine ⟨fun h => ?_, fun h => by rw [h]⟩
    have hnat := congrArg BitVec.toNat h
    simp only [BitVec.toNat_append, BitVec.ofNat_eq_ofNat, BitVec.toNat_ofNat, Nat.zero_mod,
      Nat.or_zero, Nat.shiftLeft_eq] at hnat
    exact BitVec.eq_of_toNat_eq (by omega)
  have hsilent : Silent w p ↔ ∀ j, j < 12 →
      (w (p + j) &&& (0xffff0000 : Word) = (0 : BitVec 16) ++ (0 : BitVec 16) ∨
        w (p + j) &&& (0xffff0000 : Word) = (0xffff : BitVec 16) ++ (0 : BitVec 16)) := by
    simp [Silent, checkDataInt32]
  rw [hsilent]
  refine forall₂_congr fun j hj => ?_
  rw [and_sampleMask, hinj, hinj]

/-! ## Decoding in place -/

/-- The frames of the first `n` words from position `p` on: where the twelve channel numbers
are, take the frame, and elsewhere advance one word. -/
def windowFrames (w : Nat → Word) (n p : Nat) : List Nat :=
  if p < n then
    if ∀ j, j < 12 → channel (w (p + j)) = BitVec.ofNat 4 (j + 1) then
      p :: windowFrames w n (p + 12)
    else windowFrames w n (p + 1)
  else []
termination_by n - p

theorem windowFrames_eq (w : Nat → Word) (n p : Nat) :
    windowFrames w n p = framesFrom w p (n - p) := by
  fun_induction windowFrames w n p with
  | case1 p hp ht ih =>
      rw [framesFrom_of_tagged (tagged_iff_channel.mpr ht) (by omega), ih, Nat.sub_add_eq]
  | case2 p hp hnt ih =>
      rw [framesFrom_of_not_tagged (mt tagged_iff_channel.mp hnt) (by omega), ih, Nat.sub_add_eq]
  | case3 p hp =>
      rw [Nat.sub_eq_zero_of_le (by omega), framesFrom_zero]

/-- The six channels that are passed on, two samples to a word: `1 2`, `7 8`, `4 10`. -/
def sampleWords (w : Nat → Word) (p : Nat) : List Word :=
  [sample (w p) ++ sample (w (p + 1)), sample (w (p + 6)) ++ sample (w (p + 7)),
   sample (w (p + 3)) ++ sample (w (p + 9))]

theorem packFrame_eq_sampleWords (w : Nat → Word) (p : Nat) :
    packFrame w p = sampleWords w p := by
  rw [sampleWords, ← packWord_eq, ← packWord_eq, ← packWord_eq]
  rfl

/-- **In-place decode equals pure decode.** The call returns twelve bytes for every frame of
the window, no more than the window has room for; the front of the buffer is what the frames
of the buffer before the call pack to, and the rest of the buffer is left as it was. -/
theorem parseDataInt32_packs (m : Nat → Word) (len : Int) (hlen : 48 ≤ len) :
    let F := windowFrames m (12 * (len / 48).toNat) 0
    (parseDataInt32 m len).2 = 12 * (F.length : Int) ∧ (F.length : Int) ≤ len / 48 ∧
    load (parseDataInt32 m len).1 0 (3 * F.length) = F.flatMap (sampleWords m) ∧
    ∀ i, 3 * F.length ≤ i → (parseDataInt32 m len).1 i = m i := by
  have hwin : windowWords len = 12 * (len / 48).toNat := by
    rw [windowWords, MINI_SINGLE_SAMPLE_BYTES]
    omega
  obtain ⟨hret, hload, hkeep⟩ := parseDataInt32_spec m hlen
  have hframes : windowFrames m (12 * (len / 48).toNat) 0 = framesFrom m 0 (windowWords len) := by
    rw [windowFrames_eq, Nat.sub_zero, hwin]
  have hbound := framesFrom_length_le m 0 (windowWords len)
  rw [hframes]
  refine ⟨hret, by omega, ?_, hkeep⟩
  rw [hload, packFrames, funext (packFrame_eq_sampleWords m)]

/-- A junk word, a frame and a second frame that the window cuts. -/
theorem parseDataInt32_packs_overhang :
    let m : Nat → Word := fun i => BitVec.ofNat 32 (0x10000 * i + 0x100 * ((i + 11) % 12 + 1))
    let F := windowFrames m (12 * ((100 : Int) / 48).toNat) 0
    (parseDataInt32 m 100).2 = 12 * (F.length : Int) ∧ (F.length : Int) ≤ 100 / 48 ∧
    load (parseDataInt32 m 100).1 0 (3 * F.length) = F.flatMap (sampleWords m) ∧
    ∀ i, 3 * F.length ≤ i → (parseDataInt32 m 100).1 i = m i :=
  parseDataInt32_packs _ 100 (by decide)

/-! ## The first audible frame -/

/-- A frame starts at word `p`, and some sample of it is neither `0` nor `-1`. -/
def Audible (w : Nat → Word) (p : Nat) : Prop :=
  (∀ j, j < 12 → channel (w (p + j)) = BitVec.ofNat 4 (j + 1)) ∧
    ∃ j, j < 12 ∧ sample (w (p + j)) ≠ 0 ∧ sample (w (p + j)) ≠ 0xffff

theorem audible_iff {w : Nat → Word} {p : Nat} : Audible w p ↔ Tagged w p ∧ ¬ Silent w p := by
  rw [Audible, tagged_iff_channel, silent_iff_sample]
  simp only [not_forall, not_or, exists_prop]

/-- **`skipData` finds the first audible frame.** If an audible frame starts in the window,
the result is the least offset at which one does; otherwise the scan goes to the end of the
window, or past it by what is left of a silent frame. -/
theorem skipData_finds (m : Nat → Word) (len : Int) (hlen : 48 ≤ len) :
    (∀ p : Nat, IsLeast {q : Nat | 4 * (q : Int) < 48 * (len / 48) ∧ Audible m q} p →
      skipData m len = 4 * (p : Int)) ∧
    ((∀ q : Nat, 4 * (q : Int) < 48 * (len / 48) → ¬ Audible m q) →
      4 ∣ skipData m len ∧ 48 * (len / 48) ≤ skipData m len ∧
        skipData m len ≤ 48 * (len / 48) + 44) := by
  set n := windowWords len with hn
  have hwin : 4 * (n : Int) = 48 * (len / 48) := by
    rw [hn, windowWords, MINI_SINGLE_SAMPLE_BYTES]
    omega
  obtain ⟨-, hsilent, hstop⟩ := skipLoop_spec m n n 0 (by omega) (by omega)
  have hskip : skipData m len = 4 * (skipLoop m n n 0 : Int) := by
    rw [skipData, if_neg (by rw [MINI_SINGLE_SAMPLE_BYTES]; omega), ← hn]
  -- nothing audible is passed, neither word by word nor by a jump
  have hpassed : ∀ q, q < skipLoop m n n 0 → ¬ Audible m q := by
    intro q hq haud
    obtain ⟨ht, hs⟩ := audible_iff.mp haud
    exact hs (hsilent q (Nat.zero_le q) hq ht)
  rw [hskip]
  constructor
  · rintro p ⟨⟨hp, haud⟩, hleast⟩
    have hle : skipLoop m n n 0 ≤ p := by
      by_contra hlt
      exact hpassed p (by omega) haud
    have hge : p ≤ skipLoop m n n 0 := by
      rcases hstop with ⟨hlt, ht, hs⟩ | heq | ⟨i, -, hover, heq, -⟩
      · exact hleast ⟨by omega, audible_iff.mpr ⟨ht, hs⟩⟩
      · omega
      · omega
    rw [le_antisymm hle hge]
  · intro hnone
    refine ⟨⟨_, rfl⟩, ?_⟩
    rcases hstop with ⟨hlt, ht, hs⟩ | heq | ⟨i, hi, hover, heq, -⟩
    · exact absurd (audible_iff.mpr ⟨ht, hs⟩) (hnone _ (by omega))
    · omega
    · omega

/-- A silent frame in front of audible ones, which the scan jumps over. -/
theorem skipData_finds_behindSilence :
    let m : Nat → Word := fun i =>
      BitVec.ofNat 32 (0x10000 * (if i < 12 then 0 else i) + 0x100 * (i % 12 + 1))
    (∀ p : Nat, IsLeast {q : Nat | 4 * (q : Int) < 48 * (100 / 48) ∧ Audible m q} p →
      skipData m 100 = 4 * (p : Int)) ∧
    ((∀ q : Nat, 4 * (q : Int) < 48 * (100 / 48) → ¬ Audible m q) →
      4 ∣ skipData m 100 ∧ 48 * (100 / 48) ≤ skipData m 100 ∧
        skipData m 100 ≤ 48 * (100 / 48) + 44) :=
  skipData_finds _ 100 (by decide)

end SpeechStack
