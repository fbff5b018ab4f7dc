import SpeechStack.Lib.Memory
import SpeechStack.Speech.Frame

set_option autoImplicit false

/-! # `skipData` and `parseData_INT32`

Both scanners walk over the front of the capture buffer word by word. `skipData` looks for
the first frame that carries sound; `parseData_INT32` packs every frame it meets, in place.
Word `i` of the buffer is the one at byte offset `4 * i`; sizes are in bytes as in the
source, with C's `int` as `Int`.
-/

namespace SpeechStack

open Memory

/-- `MINI_SINGLE_SAMPLE_BYTES`: the bytes of one frame. -/
def MINI_SINGLE_SAMPLE_BYTES : Int := 48

/-- The words of a window of `len` bytes, cut down to whole frames. -/
def windowWords (len : Int) : Nat := ((len - len % MINI_SINGLE_SAMPLE_BYTES) / 4).toNat

/-! ## `skipData` -/

/-- The do-while loop of `skipData` over a window of `n` words. The counter `skip_data` is
four times the index `pdata`, so only the index is kept; every round advances it, and
`fuel = n` rounds are enough (`skipLoop_spec`). -/
def skipLoop (m : Nat → Word) (n : Nat) : Nat → Nat → Nat
  | 0, pdata => pdata
  | fuel + 1, pdata =>
      if m pdata = 0 ∨ checkErrorInt32Le m pdata then
        if pdata + 1 < n then skipLoop m n fuel (pdata + 1) else pdata + 1
      else if checkDataInt32 m pdata then
        if pdata + 12 < n then skipLoop m n fuel (pdata + 12) else pdata + 12
      else pdata

/-- `skipData(data, len)`: the bytes before the first frame that carries sound. -/
def skipData (m : Nat → Word) (len : Int) : Int :=
  if len < MINI_SINGLE_SAMPLE_BYTES then -1
  else 4 * (skipLoop m (windowWords len) (windowWords len) 0 : Int)

/-- No frame starts where the loop advances by one word. -/
theorem not_tagged_of_rejected {m : Nat → Word} {p : Nat}
    (h : m p = 0 ∨ checkErrorInt32Le m p = true) : ¬ Tagged m p := by
  intro ht
  refine h.elim ht.ne_zero fun he => ?_
  rw [Tagged, he] at ht
  exact Bool.noConfusion ht

theorem tagged_of_not_rejected {m : Nat → Word} {p : Nat}
    (h : ¬ (m p = 0 ∨ checkErrorInt32Le m p = true)) : Tagged m p := by
  rw [not_or] at h
  simpa [Tagged] using h.2

/-- Where the loop stops: no word before carries the start of an audible frame, and it stops
at an audible frame, at the end of the window, or behind a silent frame across that end. -/
theorem skipLoop_spec (m : Nat → Word) (n : Nat) :
    ∀ (fuel p : Nat), p < n → n - p ≤ fuel →
      p ≤ skipLoop m n fuel p ∧
      (∀ i, p ≤ i → i < skipLoop m n fuel p → Tagged m i → Silent m i) ∧
      ((skipLoop m n fuel p < n ∧ Tagged m (skipLoop m n fuel p) ∧
          ¬ Silent m (skipLoop m n fuel p)) ∨
        skipLoop m n fuel p = n ∨
        ∃ i, i < n ∧ n < i + 12 ∧ skipLoop m n fuel p = i + 12 ∧ Tagged m i ∧ Silent m i) := by
  intro fuel
  induction fuel with
  -- on the rounds left, of which there are as many as words
  | zero => intro p hp hf; omega
  | succ fuel ih =>
      intro p hp hf
      rw [skipLoop]
      split
      · -- no frame starts at `p`
        rename_i hbad
        have hnt : ¬ Tagged m p := not_tagged_of_rejected hbad
        split
        · obtain ⟨h₁, h₂, h₃⟩ := ih (p + 1) (by omega) (by omega)
          refine ⟨by omega, fun i hi hlt ht => ?_, h₃⟩
          by_cases hip : i = p
          · exact absurd (hip ▸ ht) hnt
          · exact h₂ i (by omega) hlt ht
        · refine ⟨by omega, fun i hi hlt ht => ?_, Or.inr (Or.inl (by omega))⟩
          have hip : i = p := by omega
          exact absurd (hip ▸ ht) hnt
      · rename_i hgood
        have ht : Tagged m p := tagged_of_not_rejected hgood
        split
        · -- a silent frame starts at `p`: none starts in the eleven words that are jumped over
          rename_i hs
          split
          · obtain ⟨h₁, h₂, h₃⟩ := ih (p + 12) (by omega) (by omega)
            refine ⟨by omega, fun i hi hlt hti => ?_, h₃⟩
            by_cases hip : i = p
            · exact hip ▸ hs
            · exact h₂ i (ht.no_overlap hti (by omega)) hlt hti
          · refine ⟨by omega, fun i hi hlt hti => ?_, ?_⟩
            · by_cases hip : i = p
              · exact hip ▸ hs
              · have := ht.no_overlap hti (by omega)
                omega
            · by_cases hn : p + 12 = n
              · exact Or.inr (Or.inl hn)
              · exact Or.inr (Or.inr ⟨p, hp, by omega, rfl, ht, hs⟩)
        · rename_i hs
          -- an audible frame starts at `p`, and the loop breaks
          exact ⟨le_rfl, fun i hi hlt => absurd hlt (by omega), Or.inl ⟨hp, ht, hs⟩⟩

/-- `skipData` on a window that starts with an audible frame. -/
theorem skipData_of_audible {m : Nat → Word} {len : Int} (hlen : 48 ≤ len) (ht : Tagged m 0)
    (hs : ¬ Silent m 0) : skipData m len = 0 := by
  have hw : 0 < windowWords len := by
    rw [windowWords, MINI_SINGLE_SAMPLE_BYTES]
    omega
  obtain ⟨h₁, h₂, -⟩ := skipLoop_spec m (windowWords len) (windowWords len) 0 hw (by omega)
  have hz : skipLoop m (windowWords len) (windowWords len) 0 = 0 := by
    by_contra hne
    exact hs (h₂ 0 le_rfl (by omega) ht)
  rw [skipData, if_neg (by rw [MINI_SINGLE_SAMPLE_BYTES]; omega), hz]
  rfl

/-! ## `parseData_INT32` -/

/-- The three stores of `parseData_INT32` for the frame at `speech`, in the order of the
source: the second and the third read the buffer after the stores before them. -/
def decodeFrame (m : Nat → Word) (speech availspeech : Nat) : Nat → Word :=
  let m₁ := Function.update m availspeech
    ((m speech &&& 0xffff0000) ||| ((m (speech + 1) &&& 0xffff0000) >>> 16))
  let m₂ := Function.update m₁ (availspeech + 1)
    ((m₁ (speech + 6) &&& 0xffff0000) ||| ((m₁ (speech + 7) &&& 0xffff0000) >>> 16))
  Function.update m₂ (availspeech + 2)
    ((m₂ (speech + 3) &&& 0xffff0000) ||| ((m₂ (speech + 9) &&& 0xffff0000) >>> 16))

/-- The do-while loop of `parseData_INT32` over a window of `n` words: `speech` is the read
index and `frames` counts the frames packed so far, so that `availspeech = data + 3 * frames`
and `datalen = 48 * frames`. Every round advances `speech`; `fuel = n` rounds are enough. -/
def parseLoop (n : Nat) : Nat → (Nat → Word) → Nat → Nat → (Nat → Word) × Nat
  | 0, m, _, frames => (m, frames)
  | fuel + 1, m, speech, frames =>
      if checkErrorInt32Le m speech then
        if speech + 1 < n then parseLoop n fuel m (speech + 1) frames else (m, frames)
      else
        let m' := decodeFrame m speech (3 * frames)
        if speech + 12 < n then parseLoop n fuel m' (speech + 12) (frames + 1)
        else (m', frames + 1)

/-- `parseData_INT32(data, len)`: the packed buffer and the return value `datalen / 4`. -/
def parseDataInt32 (m : Nat → Word) (len : Int) : (Nat → Word) × Int :=
  if len < MINI_SINGLE_SAMPLE_BYTES then (m, -1)
  else
    let r := parseLoop (windowWords len) (windowWords len) m 0 0
    (r.1, MINI_SINGLE_SAMPLE_BYTES * r.2 / 4)

/-- The stores of one frame land behind the frames packed before and do not reach what the
frame itself is read from later. -/
theorem decodeFrame_spec {m : Nat → Word} {speech av : Nat} (h : av ≤ speech) :
    load (decodeFrame m speech av) av 3 = packFrame m speech ∧
    (∀ i, i < av ∨ av + 3 ≤ i → decodeFrame m speech av i = m i) := by
  constructor
  · have hload : ∀ f : Nat → Word, load f av 3 = [f av, f (av + 1), f (av + 2)] := fun _ => rfl
    -- the stores hit none of the words that are still to be read
    rw [hload]
    simp only [decodeFrame, packFrame, Function.update_apply]
    simp only [show av + 2 ≠ av by omega, show av + 1 ≠ av by omega, show av ≠ av + 1 by omega,
      show av ≠ av + 2 by omega, show av + 1 ≠ av + 2 by omega, show speech + 6 ≠ av by omega,
      show speech + 7 ≠ av by omega, show speech + 3 ≠ av by omega,
      show speech + 3 ≠ av + 1 by omega, show speech + 9 ≠ av by omega,
      show speech + 9 ≠ av + 1 by omega, if_true, if_false]
  · intro i hi
    simp only [decodeFrame, Function.update_apply]
    rw [if_neg (by omega), if_neg (by omega), if_neg (by omega)]

/-- **The loop packs the frames of the original window.** `orig` is the buffer before the
call: what lies from `3 * frames` on has not been written yet. -/
theorem parseLoop_spec (orig : Nat → Word) (n : Nat) :
    ∀ (fuel : Nat) (m : Nat → Word) (speech frames : Nat),
      speech < n → n - speech ≤ fuel → 12 * frames ≤ speech →
      (∀ i, 3 * frames ≤ i → m i = orig i) →
      (parseLoop n fuel m speech frames).2
          = frames + (framesFrom orig speech (n - speech)).length ∧
      load (parseLoop n fuel m speech frames).1 0
          (3 * (parseLoop n fuel m speech frames).2)
        = load m 0 (3 * frames) ++ packFrames orig (framesFrom orig speech (n - speech)) ∧
      (∀ i, 3 * (parseLoop n fuel m speech frames).2 ≤ i →
        (parseLoop n fuel m speech frames).1 i = orig i) := by
  intro fuel
  induction fuel with
  | zero => intro m speech frames hs hf; omega
  | succ fuel ih =>
      intro m speech frames hs hf hk hm
      -- ahead of the stores the buffer is the original one
      have htag : Tagged m speech ↔ Tagged orig speech :=
        tagged_congr fun j _ => hm _ (by omega)
      rw [parseLoop]
      split
      · -- no frame: one word on
        rename_i hbad
        have hnt : ¬ Tagged orig speech := by
          rw [← htag, Tagged, hbad]
          exact Bool.noConfusion
        rw [framesFrom_of_not_tagged hnt (by omega), ← Nat.sub_add_eq]
        split
        · exact ih m (speech + 1) frames (by omega) (by omega) (by omega) hm
        · rw [Nat.sub_eq_zero_of_le (by omega), framesFrom_zero, packFrames_nil,
            List.append_nil]
          exact ⟨rfl, rfl, hm⟩
      · -- a frame: its three words join those that are packed, twelve words on
        rename_i hgood
        have ht : Tagged orig speech := htag.mp (by simpa [Tagged] using hgood)
        obtain ⟨hpack, hframe⟩ := decodeFrame_spec (m := m) (show 3 * frames ≤ speech by omega)
        set m' := decodeFrame m speech (3 * frames) with hm'def
        have hsplit : load m' 0 (3 * (frames + 1))
            = load m 0 (3 * frames) ++ packFrame orig speech := by
          have hsame : packFrame m speech = packFrame orig speech :=
            packFrame_congr fun j _ => hm _ (by omega)
          rw [← hsame, ← hpack, load, load, load, Nat.mul_add, List.range_add, List.map_append,
            List.map_map]
          congr 1
          · refine List.map_congr_left fun i hi => hframe _ (Or.inl ?_)
            have := List.mem_range.mp hi
            omega
          · refine List.map_congr_left fun i _ => ?_
            simp
        -- and the words behind them are still the original ones
        have hm₂ : ∀ i, 3 * (frames + 1) ≤ i → m' i = orig i := fun i hi => by
          rw [hframe i (Or.inr (by omega)), hm i (by omega)]
        rw [framesFrom_of_tagged ht (by omega), ← Nat.sub_add_eq, List.length_cons,
          packFrames_cons, ← List.append_assoc, ← hsplit]
        split
        · obtain ⟨h₁, h₂, h₃⟩ := ih m' (speech + 12) (frames + 1) (by omega) (by omega)
            (by omega) hm₂
          exact ⟨h₁.trans (by omega), h₂, h₃⟩
        · rw [Nat.sub_eq_zero_of_le (by omega), framesFrom_zero, packFrames_nil,
            List.append_nil]
          exact ⟨rfl, rfl, hm₂⟩

/-- **`parseData_INT32` packs exactly the frames that start in its window.** -/
theorem parseDataInt32_spec (m : Nat → Word) {len : Int} (hlen : 48 ≤ len) :
    (parseDataInt32 m len).2 = 12 * ((framesFrom m 0 (windowWords len)).length : Int) ∧
    load (parseDataInt32 m len).1 0 (3 * (framesFrom m 0 (windowWords len)).length)
      = packFrames m (framesFrom m 0 (windowWords len)) ∧
    (∀ i, 3 * (framesFrom m 0 (windowWords len)).length ≤ i →
      (parseDataInt32 m len).1 i = m i) := by
  have hw : 0 < windowWords len := by
    rw [windowWords, MINI_SINGLE_SAMPLE_BYTES]
    omega
  obtain ⟨h₁, h₂, h₃⟩ := parseLoop_spec m (windowWords len) (windowWords len) m 0 0 hw
    (by omega) (by omega) (fun _ _ => rfl)
  rw [Nat.sub_zero, Nat.zero_add] at h₁
  rw [Nat.sub_zero, h₁] at h₂
  rw [h₁] at h₃
  rw [parseDataInt32, if_neg (by rw [MINI_SINGLE_SAMPLE_BYTES]; omega)]
  refine ⟨?_, ?_, h₃⟩
  · show MINI_SINGLE_SAMPLE_BYTES * ((parseLoop _ _ m 0 0).2 : Int) / 4 = _
    rw [h₁, MINI_SINGLE_SAMPLE_BYTES]
    omega
  · simpa [load] using h₂

end SpeechStack
