import SpeechStack.Speech.Decode

set_option autoImplicit false

/-! # The order of the output channels

`parseData_INT32` makes three 32-bit words of a frame, each with the sample of the channel that
is documented first in its upper half. A little-endian machine has the lower half of a word at
the lower address, so a reader of 16-bit samples meets the two channels of every word the other
way round: 2 1, 8 7, 10 4.
-/

namespace SpeechStack

open Memory

/-- The byte at address `a` of a buffer of words, on a little-endian machine. -/
def memByte (m : Nat → Word) (a : Nat) : BitVec 8 := (m (a / 4)).extractLsb' (8 * (a % 4)) 8

/-- Sample `j` of a buffer that is read as `PCM_FORMAT_S16_LE`: the byte at the higher address
is the upper one. -/
def sampleS16Le (m : Nat → Word) (j : Nat) : BitVec 16 :=
  memByte m (2 * j + 1) ++ memByte m (2 * j)

/-- The first `n` samples of a buffer. -/
def samplesS16Le (m : Nat → Word) (n : Nat) : List (BitVec 16) := (List.range n).map (sampleS16Le m)

/-- The documented order of the output, by the frame at word `p`: the microphones 1, 2, 7, 8,
then the echo references 4, 10. -/
def documentedOrder (w : Nat → Word) (p : Nat) : List (BitVec 16) :=
  [sample (w p), sample (w (p + 1)), sample (w (p + 6)), sample (w (p + 7)), sample (w (p + 3)),
    sample (w (p + 9))]

/-- The order in which the samples lie in memory. -/
def storedOrder (w : Nat → Word) (p : Nat) : List (BitVec 16) :=
  [sample (w (p + 1)), sample (w p), sample (w (p + 7)), sample (w (p + 6)), sample (w (p + 9)),
    sample (w (p + 3))]

/-! ## Words as pairs of samples -/

theorem sampleS16Le_even (m : Nat → Word) (i : Nat) :
    sampleS16Le m (2 * i) = (m i).extractLsb' 0 16 := by
  have h₀ : 2 * (2 * i) / 4 = i ∧ 2 * (2 * i) % 4 = 0 := by omega
  have h₁ : (2 * (2 * i) + 1) / 4 = i ∧ (2 * (2 * i) + 1) % 4 = 1 := by omega
  rw [sampleS16Le, memByte, memByte, h₀.1, h₀.2, h₁.1, h₁.2]
  apply BitVec.eq_of_getLsbD_eq
  intro k hk
  rw [BitVec.getLsbD_append, BitVec.getLsbD_extractLsb', BitVec.getLsbD_extractLsb',
    BitVec.getLsbD_extractLsb']
  by_cases h : k < 8
  · simp [h, hk]
  · simp [h, hk, show k - 8 < 8 by omega, show 8 + (k - 8) = k by omega]

theorem sampleS16Le_odd (m : Nat → Word) (i : Nat) :
    sampleS16Le m (2 * i + 1) = sample (m i) := by
  have h₀ : 2 * (2 * i + 1) / 4 = i ∧ 2 * (2 * i + 1) % 4 = 2 := by omega
  have h₁ : (2 * (2 * i + 1) + 1) / 4 = i ∧ (2 * (2 * i + 1) + 1) % 4 = 3 := by omega
  rw [sampleS16Le, memByte, memByte, h₀.1, h₀.2, h₁.1, h₁.2, sample]
  apply BitVec.eq_of_getLsbD_eq
  intro k hk
  rw [BitVec.getLsbD_append, BitVec.getLsbD_extractLsb', BitVec.getLsbD_extractLsb',
    BitVec.getLsbD_extractLsb']
  by_cases h : k < 8
  · simp [h, hk]
  · simp [h, hk, show k - 8 < 8 by omega, show 24 + (k - 8) = 16 + k by omega]

/-- The samples of the first `n` words, the lower half of each first. -/
theorem samplesS16Le_words (m : Nat → Word) (n : Nat) :
    samplesS16Le m (2 * n)
      = (load m 0 n).flatMap fun x => [x.extractLsb' 0 16, sample x] := by
  induction n with
  | zero => rfl
  | succ n ih =>
      have hlast : load m 0 (n + 1) = load m 0 n ++ [m n] := by
        simp [load, List.range_succ]
      have hsamples : samplesS16Le m (2 * (n + 1))
          = samplesS16Le m (2 * n) ++ [sampleS16Le m (2 * n), sampleS16Le m (2 * n + 1)] := by
        simp [samplesS16Le, Nat.mul_add, List.range_succ]
      rw [hsamples, ih, hlast, List.flatMap_append, sampleS16Le_even, sampleS16Le_odd]
      simp

/-- The three words of a frame, as samples. -/
theorem sampleWords_samples (w : Nat → Word) (p : Nat) :
    ((sampleWords w p).flatMap fun x => [x.extractLsb' 0 16, sample x]) = storedOrder w p := by
  have hlow : ∀ a b : BitVec 16, (a ++ b).extractLsb' 0 16 = b := by
    intro a b
    apply BitVec.eq_of_getLsbD_eq
    intro k hk
    rw [BitVec.getLsbD_extractLsb', BitVec.getLsbD_append]
    simp [hk]
  have hhigh : ∀ a b : BitVec 16, sample (a ++ b) = a := by
    intro a b
    rw [sample]
    apply BitVec.eq_of_getLsbD_eq
    intro k hk
    rw [BitVec.getLsbD_extractLsb', BitVec.getLsbD_append]
    simp [hk]
  simp only [sampleWords, storedOrder, List.flatMap_cons, List.flatMap_nil, hlow, hhigh]
  rfl

/-! ## The frames of the buffer -/

/-- A buffer of tagged frames decodes to all of them. -/
theorem framesFrom_of_tagged_frames {m : Nat → Word} {k : Nat}
    (ht : ∀ f, f < k → Tagged m (12 * f)) :
    framesFrom m 0 (12 * k) = (List.range k).map fun f => 12 * f := by
  induction k with
  | zero => rfl
  | succ k ih =>
      have hlast : framesFrom m (0 + 12 * k) 12 = [12 * k] := by
        rw [Nat.zero_add, framesFrom_of_tagged (ht k (by omega)) (by omega), framesFrom_zero]
      rw [Nat.mul_succ, framesFrom_add, ih fun f hf => ht f (by omega), hlast, List.range_succ,
        List.map_append]
      rfl

/-- What a reader of samples finds. -/
theorem parseDataInt32_storedOrder {m : Nat → Word} {k : Nat} (hk : 1 ≤ k)
    (ht : ∀ f, f < k → Tagged m (12 * f)) :
    samplesS16Le (parseDataInt32 m (48 * k)).1 (6 * k)
      = (List.range k).flatMap fun f => storedOrder m (12 * f) := by
  obtain ⟨-, hload, -⟩ := parseDataInt32_spec m (show 48 ≤ 48 * (k : Int) by omega)
  have hwords : windowWords (48 * (k : Int)) = 12 * k := by
    rw [windowWords, MINI_SINGLE_SAMPLE_BYTES]
    omega
  rw [hwords, framesFrom_of_tagged_frames ht, List.length_map, List.length_range] at hload
  calc samplesS16Le (parseDataInt32 m (48 * k)).1 (6 * k)
      = samplesS16Le (parseDataInt32 m (48 * k)).1 (2 * (3 * k)) := by
        rw [← Nat.mul_assoc]
    _ = (packFrames m ((List.range k).map fun f => 12 * f)).flatMap
          fun x => [x.extractLsb' 0 16, sample x] := by rw [samplesS16Le_words, hload]
    _ = (List.range k).flatMap fun f => storedOrder m (12 * f) := by
        rw [packFrames, List.flatMap_map, List.flatMap_assoc]
        refine congrArg (List.range k).flatMap (funext fun f => ?_)
        rw [packFrame_eq_sampleWords, sampleWords_samples]

/-- Two lists made of blocks of one length are equal when they are so block by block. -/
theorem flatMap_range_inj {α : Type} {f g : Nat → List α} {n : Nat} (hf : ∀ i, (f i).length = n)
    (hg : ∀ i, (g i).length = n) {k : Nat} :
    (List.range k).flatMap f = (List.range k).flatMap g ↔ ∀ i, i < k → f i = g i := by
  induction k with
  | zero => simp
  | succ k ih =>
      rw [List.range_succ, List.flatMap_append, List.flatMap_append, List.flatMap_singleton,
        List.flatMap_singleton]
      constructor
      · intro heq i hi
        obtain ⟨hinit, hlast⟩ := List.append_inj' heq ((hf k).trans (hg k).symm)
        by_cases hik : i = k
        · rw [hik, hlast]
        · exact ih.mp hinit i (by omega)
      · intro hall
        rw [ih.mpr fun i hi => hall i (by omega), hall k (by omega)]

/-- **The order of the output channels.** The samples of a buffer of tagged frames are in the
documented order if and only if in every frame the two samples of each pair are equal: those of
channels 1 and 2, of 7 and 8, and of 4 and 10. -/
theorem parseDataInt32_documentedOrder_iff (m : Nat → Word) (k : Nat) (hk : 1 ≤ k)
    (ht : ∀ f, f < k → ∀ j, j < 12 → channel (m (12 * f + j)) = BitVec.ofNat 4 (j + 1)) :
    (samplesS16Le (parseDataInt32 m (48 * k)).1 (6 * k)
      = (List.range k).flatMap fun f => documentedOrder m (12 * f)) ↔
    ∀ f, f < k → sample (m (12 * f)) = sample (m (12 * f + 1)) ∧
      sample (m (12 * f + 6)) = sample (m (12 * f + 7)) ∧
      sample (m (12 * f + 3)) = sample (m (12 * f + 9)) := by
  have hblocks := flatMap_range_inj (f := fun f => storedOrder m (12 * f))
    (g := fun f => documentedOrder m (12 * f)) (n := 6) (k := k) (fun _ => rfl) fun _ => rfl
  rw [parseDataInt32_storedOrder hk fun f hf => tagged_iff_channel.mpr (ht f hf), hblocks]
  refine forall₂_congr fun f _ => ?_
  simp only [storedOrder, documentedOrder, List.cons.injEq, and_true]
  constructor
  · rintro ⟨h₁, -, h₃, -, h₅, -⟩
    exact ⟨h₁.symm, h₃.symm, h₅.symm⟩
  · rintro ⟨h₁, h₃, h₅⟩
    exact ⟨h₁.symm, h₁, h₃.symm, h₃, h₅.symm, h₅⟩

/-- One frame whose channel `c` carries the sample `c`: 2 1 8 7 10 4. -/
theorem parseDataInt32_swaps_channels :
    let m : Nat → Word := fun i => BitVec.ofNat 32 (0x10000 * (i + 1) + 0x100 * (i + 1))
    (∀ f, f < 1 → ∀ j, j < 12 → channel (m (12 * f + j)) = BitVec.ofNat 4 (j + 1)) ∧
      samplesS16Le (parseDataInt32 m (48 * (1 : Nat))).1 (6 * 1) = [2, 1, 8, 7, 10, 4] ∧
      samplesS16Le (parseDataInt32 m (48 * (1 : Nat))).1 (6 * 1)
        ≠ (List.range 1).flatMap fun f => documentedOrder m (12 * f) := by
  decide

/-- Two frames whose channels all carry the same sample. -/
theorem parseDataInt32_documentedOrder_iff_constant :
    let m : Nat → Word := fun i => BitVec.ofNat 32 (0x70000 + 0x100 * (i % 12 + 1))
    (samplesS16Le (parseDataInt32 m (48 * (2 : Nat))).1 (6 * 2)
      = (List.range 2).flatMap fun f => documentedOrder m (12 * f)) ↔
    ∀ f, f < 2 → sample (m (12 * f)) = sample (m (12 * f + 1)) ∧
      sample (m (12 * f + 6)) = sample (m (12 * f + 7)) ∧
      sample (m (12 * f + 3)) = sample (m (12 * f + 9)) :=
  parseDataInt32_documentedOrder_iff _ 2 (by decide) (by decide)

end SpeechStack
