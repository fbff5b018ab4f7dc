import SpeechStack.Speech.Decode

set_option autoImplicit false

/-! # How far the scanners read

The two scanners once more, with the words they read listed in the order of the reads: the
short-circuit operators of the two macros decide how many of the twelve words are looked at,
and `dumpdata_12` prints all of them. Both loops are bounded by the position at which a round
starts, so a round that starts in the last eleven words of the window can leave it;
`ScansInside` says when none does.
-/

namespace SpeechStack

open Memory

/-! ## Reads -/

/-- The reads of a chain of `k` tests on the words from `i` on that ends at the first word
that meets `stop`. -/
def readsUntil (stop : Nat → Bool) : Nat → Nat → List Nat
  | 0, _ => []
  | k + 1, i => i :: if stop i then [] else readsUntil stop k (i + 1)

/-- `CHECKERROR_INT32_LE(x)`: `||` stops at the first wrong channel number. -/
def checkErrorReads (w : Nat → Word) (p : Nat) : List Nat :=
  readsUntil (fun i => (w i &&& 0x00000f00) != BitVec.ofNat 32 (0x100 * (i - p + 1))) 12 p

/-- `CHECKDATA_INT32(x)`: `&&` stops at the first word with sound. -/
def checkDataReads (w : Nat → Word) (p : Nat) : List Nat :=
  readsUntil (fun i => !((w i &&& 0xffff0000) == 0 || (w i &&& 0xffff0000) == 0xffff0000)) 12 p

/-- `dumpdata_12(msg, pdata)` prints twelve words. -/
def dumpdata12Reads (p : Nat) : List Nat := List.range' p 12

/-- The reads of one round of `skipData`. -/
def skipRoundReads (m : Nat → Word) (pdata : Nat) : List Nat :=
  if m pdata = 0 then [pdata, pdata]
  else if checkErrorInt32Le m pdata then
    pdata :: checkErrorReads m pdata ++ dumpdata12Reads pdata
  else if checkDataInt32 m pdata then
    pdata :: checkErrorReads m pdata ++ checkDataReads m pdata ++ dumpdata12Reads pdata
  else pdata :: checkErrorReads m pdata ++ checkDataReads m pdata

/-- The loop of `skipData`: its result and its reads. -/
def skipLoopTraced (m : Nat → Word) (n : Nat) : Nat → Nat → Nat × List Nat
  | 0, pdata => (pdata, [])
  | fuel + 1, pdata =>
      let go (next : Nat) : Nat × List Nat :=
        if next < n then
          let r := skipLoopTraced m n fuel next
          (r.1, skipRoundReads m pdata ++ r.2)
        else (next, skipRoundReads m pdata)
      if m pdata = 0 ∨ checkErrorInt32Le m pdata then go (pdata + 1)
      else if checkDataInt32 m pdata then go (pdata + 12)
      else (pdata, skipRoundReads m pdata)

/-- The words that `skipData(data, len)` reads. -/
def skipDataReads (m : Nat → Word) (len : Int) : List Nat :=
  if len < MINI_SINGLE_SAMPLE_BYTES then []
  else (skipLoopTraced m (windowWords len) (windowWords len) 0).2

/-- The reads of one round of `parseData_INT32`: the rejected word is printed, the six
channels of a frame are packed. -/
def parseRoundReads (m : Nat → Word) (speech : Nat) : List Nat :=
  if checkErrorInt32Le m speech then checkErrorReads m speech ++ [speech]
  else checkErrorReads m speech ++
    [speech, speech + 1, speech + 6, speech + 7, speech + 3, speech + 9]

/-- The loop of `parseData_INT32`: its result and its reads. -/
def parseLoopTraced (n : Nat) :
    Nat → (Nat → Word) → Nat → Nat → ((Nat → Word) × Nat) × List Nat
  | 0, m, _, frames => ((m, frames), [])
  | fuel + 1, m, speech, frames =>
      let go (m' : Nat → Word) (next frames' : Nat) : ((Nat → Word) × Nat) × List Nat :=
        if next < n then
          let r := parseLoopTraced n fuel m' next frames'
          (r.1, parseRoundReads m speech ++ r.2)
        else ((m', frames'), parseRoundReads m speech)
      if checkErrorInt32Le m speech then go m (speech + 1) frames
      else go (decodeFrame m speech (3 * frames)) (speech + 12) (frames + 1)

/-- The words that `parseData_INT32(data, len)` reads. -/
def parseDataReads (m : Nat → Word) (len : Int) : List Nat :=
  if len < MINI_SINGLE_SAMPLE_BYTES then []
  else (parseLoopTraced (windowWords len) (windowWords len) m 0 0).2

/-- Listing the reads does not change what the loops compute. -/
theorem skipLoopTraced_fst (m : Nat → Word) (n fuel p : Nat) :
    (skipLoopTraced m n fuel p).1 = skipLoop m n fuel p := by
  induction fuel generalizing p with
  | zero => rfl
  | succ fuel ih =>
      simp only [skipLoopTraced, skipLoop]
      split
      · split <;> simp [ih]
      · split
        · split <;> simp [ih]
        · rfl

theorem parseLoopTraced_fst (n fuel : Nat) (m : Nat → Word) (speech frames : Nat) :
    (parseLoopTraced n fuel m speech frames).1 = parseLoop n fuel m speech frames := by
  induction fuel generalizing m speech frames with
  | zero => rfl
  | succ fuel ih =>
      simp only [parseLoopTraced, parseLoop]
      split
      · split <;> simp [ih]
      · split <;> simp [ih]

/-! ## The reads of one round -/

theorem mem_readsUntil {stop : Nat → Bool} {k i a : Nat} :
    a ∈ readsUntil stop k i ↔ i ≤ a ∧ a < i + k ∧ ∀ j, i ≤ j → j < a → stop j = false := by
  induction k generalizing i with
  -- on the tests left; the first word is always read
  | zero =>
      simp only [readsUntil, List.not_mem_nil, false_iff]
      omega
  | succ k ih =>
      rw [readsUntil, List.mem_cons]
      cases hs : stop i with
      | true =>
          simp only [if_true, List.not_mem_nil, or_false]
          constructor
          · rintro rfl
            exact ⟨le_rfl, by omega, fun j h₁ h₂ => by omega⟩
          · rintro ⟨h₁, -, h₃⟩
            by_contra hne
            have := h₃ i le_rfl (by omega)
            simp [hs] at this
      | false =>
          simp only [Bool.false_eq_true, if_false, ih]
          constructor
          · rintro (rfl | ⟨h₁, h₂, h₃⟩)
            · exact ⟨le_rfl, by omega, fun j h₁ h₂ => by omega⟩
            · refine ⟨by omega, by omega, fun j hj₁ hj₂ => ?_⟩
              by_cases hij : j = i
              · exact hij ▸ hs
              · exact h₃ j (by omega) hj₂
          · rintro ⟨h₁, h₂, h₃⟩
            by_cases hia : a = i
            · exact Or.inl hia
            · exact Or.inr ⟨by omega, by omega, fun j hj₁ hj₂ => h₃ j (by omega) hj₂⟩

/-- The tag test reads a word when the channel numbers before it are right. -/
theorem mem_checkErrorReads {w : Nat → Word} {p a : Nat} :
    a ∈ checkErrorReads w p ↔ ∃ j, j < 12 ∧ a = p + j ∧
      ∀ i, i < j → channel (w (p + i)) = BitVec.ofNat 4 (i + 1) := by
  rw [checkErrorReads, mem_readsUntil]
  constructor
  · rintro ⟨h₁, h₂, h₃⟩
    refine ⟨a - p, by omega, by omega, fun i hi => ?_⟩
    have := h₃ (p + i) (by omega) (by omega)
    rw [Nat.add_sub_cancel_left, bne_eq_false_iff_eq] at this
    exact (channelMask_eq_iff _ (by omega)).mp this
  · rintro ⟨j, hj, rfl, hall⟩
    refine ⟨by omega, by omega, fun i hi₁ hi₂ => ?_⟩
    obtain ⟨k, rfl⟩ : ∃ k, i = p + k := ⟨i - p, by omega⟩
    rw [Nat.add_sub_cancel_left, bne_eq_false_iff_eq]
    exact (channelMask_eq_iff _ (by omega)).mpr (hall k (by omega))

/-- So on a frame it reads all twelve. -/
theorem mem_checkErrorReads_of_tagged {w : Nat → Word} {p a : Nat} (ht : Tagged w p) :
    a ∈ checkErrorReads w p ↔ p ≤ a ∧ a < p + 12 := by
  have htags := tagged_iff_channel.mp ht
  rw [mem_checkErrorReads]
  constructor
  · rintro ⟨j, hj, rfl, -⟩
    omega
  · rintro ⟨h₁, h₂⟩
    exact ⟨a - p, by omega, by omega, fun i hi => htags i (by omega)⟩

theorem mem_checkDataReads_le {w : Nat → Word} {p a : Nat} (h : a ∈ checkDataReads w p) :
    p ≤ a ∧ a < p + 12 := by
  obtain ⟨h₁, h₂, -⟩ := mem_readsUntil.mp h
  exact ⟨h₁, h₂⟩

/-- A round of `skipData` reads one word when that is zero, and twelve otherwise: the tag
test reads those of a frame, `dumpdata_12` those of anything else. -/
theorem mem_skipRoundReads {m : Nat → Word} {p a : Nat} :
    a ∈ skipRoundReads m p ↔ a = p ∨ (m p ≠ 0 ∧ p ≤ a ∧ a < p + 12) := by
  -- `data[i]` is tested first, and a zero word ends the round
  by_cases hz : m p = 0
  · simp [skipRoundReads, hz]
  · by_cases hbad : checkErrorInt32Le m p = true
    · rw [skipRoundReads, if_neg hz, if_pos hbad]
      simp only [List.cons_append, List.mem_cons, List.mem_append, dumpdata12Reads,
        List.mem_range'_1, mem_checkErrorReads]
      constructor
      · rintro (h | ⟨j, hj, rfl, -⟩ | h)
        · exact Or.inl h
        · exact Or.inr ⟨hz, by omega, by omega⟩
        · exact Or.inr ⟨hz, h⟩
      · rintro (h | ⟨-, h⟩)
        · exact Or.inl h
        · exact Or.inr (Or.inr h)
    · have ht : Tagged m p := by simpa [Tagged] using hbad
      have hmem := mem_checkErrorReads_of_tagged (a := a) ht
      have hdata := mem_checkDataReads_le (w := m) (p := p) (a := a)
      rw [skipRoundReads, if_neg hz, if_neg hbad]
      split
      · simp only [List.cons_append, List.mem_cons, List.mem_append, hmem, dumpdata12Reads,
          List.mem_range'_1]
        tauto
      · simp only [List.cons_append, List.mem_cons, List.mem_append, hmem]
        tauto

/-- A round of `parseData_INT32` reads what the tag test reads. -/
theorem mem_parseRoundReads {m : Nat → Word} {p a : Nat} :
    a ∈ parseRoundReads m p ↔ a ∈ checkErrorReads m p := by
  have hfirst : p ∈ checkErrorReads m p :=
    mem_checkErrorReads.mpr ⟨0, by omega, rfl, fun i hi => absurd hi (Nat.not_lt_zero i)⟩
  rw [parseRoundReads]
  split
  · rw [List.mem_append, List.mem_singleton]
    constructor
    · rintro (h | rfl)
      · exact h
      · exact hfirst
    · exact Or.inl
  · rename_i hgood
    have ht : Tagged m p := by simpa [Tagged] using hgood
    rw [List.mem_append, mem_checkErrorReads_of_tagged ht]
    simp only [List.mem_cons, List.not_mem_nil, or_false]
    omega

/-! ## The rounds of a scan -/

/-- A scan of `n` words from `p` on has a round at `q`: it jumps over every frame that starts
before, and lands at or before `q` each time. -/
def Visits (jumps : Nat → Prop) (m : Nat → Word) (n p q : Nat) : Prop :=
  p ≤ q ∧ q < n ∧ ∀ i, p ≤ i → i < q → Tagged m i → jumps i ∧ i + 12 ≤ q

section Visits

variable {jumps : Nat → Prop} {m : Nat → Word} {n p q : Nat}

theorem not_visits (hp : n ≤ p) : ¬ Visits jumps m n p q := by
  rintro ⟨h₁, h₂, -⟩
  omega

theorem visits_of_not_tagged (hp : p < n) (hnt : ¬ Tagged m p) :
    Visits jumps m n p q ↔ q = p ∨ Visits jumps m n (p + 1) q := by
  constructor
  · rintro ⟨h₁, h₂, h₃⟩
    by_cases hpq : q = p
    · exact Or.inl hpq
    · exact Or.inr ⟨by omega, h₂, fun i hi => h₃ i (by omega)⟩
  · rintro (rfl | ⟨h₁, h₂, h₃⟩)
    · exact ⟨le_rfl, hp, fun i h h' => by omega⟩
    · refine ⟨by omega, h₂, fun i hi hlt ht => ?_⟩
      by_cases hip : i = p
      · exact absurd (hip ▸ ht) hnt
      · exact h₃ i (by omega) hlt ht

theorem visits_of_jump (hp : p < n) (ht : Tagged m p) (hj : jumps p) :
    Visits jumps m n p q ↔ q = p ∨ Visits jumps m n (p + 12) q := by
  constructor
  · rintro ⟨h₁, h₂, h₃⟩
    by_cases hpq : q = p
    · exact Or.inl hpq
    · have := (h₃ p le_rfl (by omega) ht).2
      exact Or.inr ⟨this, h₂, fun i hi => h₃ i (by omega)⟩
  · rintro (rfl | ⟨h₁, h₂, h₃⟩)
    · exact ⟨le_rfl, hp, fun i h h' => by omega⟩
    · refine ⟨by omega, h₂, fun i hi hlt hti => ?_⟩
      by_cases hip : i = p
      · exact ⟨hip ▸ hj, by omega⟩
      · -- no frame starts in the eleven words that are jumped over
        exact h₃ i (ht.no_overlap hti (by omega)) hlt hti

theorem visits_of_stop (hp : p < n) (ht : Tagged m p) (hj : ¬ jumps p) :
    Visits jumps m n p q ↔ q = p := by
  constructor
  · rintro ⟨h₁, -, h₃⟩
    by_contra hne
    exact hj (h₃ p le_rfl (by omega) ht).1
  · rintro rfl
    exact ⟨le_rfl, hp, fun i h h' => by omega⟩

end Visits

/-- The reads of `skipData` are those of the rounds it has: it jumps over silent frames. -/
theorem mem_skipLoopTraced {m : Nat → Word} {n a : Nat} (fuel p : Nat) (hp : p < n)
    (hf : n - p ≤ fuel) :
    a ∈ (skipLoopTraced m n fuel p).2 ↔
      ∃ q, Visits (Silent m) m n p q ∧ a ∈ skipRoundReads m q := by
  induction fuel generalizing p with
  | zero => omega
  | succ fuel ih =>
      -- a round that goes on at `next`
      have hgo : ∀ next, p < next →
          (∀ q, Visits (Silent m) m n p q ↔ q = p ∨ Visits (Silent m) m n next q) →
          (a ∈ skipRoundReads m p ∨ (next < n ∧ a ∈ (skipLoopTraced m n fuel next).2) ↔
            ∃ q, Visits (Silent m) m n p q ∧ a ∈ skipRoundReads m q) := by
        intro next hnext hvis
        simp only [hvis, or_and_right, exists_or, exists_eq_left]
        refine or_congr_right ?_
        by_cases hn : next < n
        · rw [ih next hn (by omega)]
          exact and_iff_right hn
        · simp [hn, not_visits (Nat.le_of_not_lt hn)]
      simp only [skipLoopTraced]
      split
      · -- one word on: no frame starts at `p`
        rename_i hbad
        have hnt : ¬ Tagged m p := not_tagged_of_rejected hbad
        rw [← hgo (p + 1) (by omega) fun q => visits_of_not_tagged hp hnt]
        split <;> simp [*]
      · rename_i hgood
        have ht : Tagged m p := tagged_of_not_rejected hgood
        split
        · rename_i hs
          rw [← hgo (p + 12) (by omega) fun q => visits_of_jump hp ht hs]
          split <;> simp [*]
        · rename_i hs
          -- an audible frame ends the scan
          have hs : ¬ Silent m p := hs
          simp [visits_of_stop hp ht hs]

/-- The round after which a silent frame takes the scan to the end of the window or past it. -/
theorem skipLoop_of_visits {m : Nat → Word} {n q : Nat} (hend : n ≤ q + 12) (ht : Tagged m q)
    (hs : Silent m q) (fuel p : Nat) (hf : n - p ≤ fuel) (hv : Visits (Silent m) m n p q) :
    skipLoop m n fuel p = q + 12 := by
  induction fuel generalizing p with
  | zero =>
      have := hv.1
      have := hv.2.1
      omega
  | succ fuel ih =>
      have hp : p < n := lt_of_le_of_lt hv.1 hv.2.1
      rw [skipLoop]
      split
      · -- the scan goes on towards `q`
        rename_i hbad
        have hnt : ¬ Tagged m p := not_tagged_of_rejected hbad
        rcases (visits_of_not_tagged hp hnt).mp hv with rfl | hv'
        · exact absurd ht hnt
        · rw [if_pos (lt_of_le_of_lt hv'.1 hv'.2.1)]
          exact ih (p + 1) (by omega) hv'
      · rename_i hgood
        have htp : Tagged m p := tagged_of_not_rejected hgood
        split
        · rename_i hsp
          rcases (visits_of_jump hp htp hsp).mp hv with rfl | hv'
          · rw [if_neg (by omega)]
          · rw [if_pos (lt_of_le_of_lt hv'.1 hv'.2.1)]
            exact ih (p + 12) (by omega) hv'
        · rename_i hsp
          obtain rfl := (visits_of_stop hp htp hsp).mp hv
          exact absurd hs hsp

theorem parseRoundReads_congr {m v : Nat → Word} {p : Nat} (h : ∀ i, p ≤ i → m i = v i)
    (a : Nat) : a ∈ parseRoundReads m p ↔ a ∈ parseRoundReads v p := by
  simp only [mem_parseRoundReads, mem_checkErrorReads]
  refine exists_congr fun j => and_congr_right fun _ => and_congr_right fun _ => ?_
  exact forall₂_congr fun i _ => by rw [h (p + i) (by omega)]

/-- The reads of `parseData_INT32` are those of the rounds it has on the buffer before the
call: it jumps over every frame, and what it writes lies behind it. -/
theorem mem_parseLoopTraced {orig : Nat → Word} {n a : Nat} (fuel : Nat) (m : Nat → Word)
    (speech frames : Nat) (hs : speech < n) (hf : n - speech ≤ fuel) (hk : 12 * frames ≤ speech)
    (hm : ∀ i, 3 * frames ≤ i → m i = orig i) :
    a ∈ (parseLoopTraced n fuel m speech frames).2 ↔
      ∃ q, Visits (fun _ => True) orig n speech q ∧ a ∈ parseRoundReads orig q := by
  induction fuel generalizing m speech frames with
  | zero => omega
  | succ fuel ih =>
      -- ahead of the stores the buffer is the original one
      have htag : Tagged m speech ↔ Tagged orig speech :=
        tagged_congr fun j _ => hm _ (by omega)
      have hreads := parseRoundReads_congr (p := speech) (fun i hi => hm i (by omega)) a
      -- a round that goes on at `next`
      have hgo : ∀ m' next frames', speech < next → 12 * frames' ≤ next →
          (∀ i, 3 * frames' ≤ i → m' i = orig i) →
          (∀ q, Visits (fun _ => True) orig n speech q ↔
            q = speech ∨ Visits (fun _ => True) orig n next q) →
          (a ∈ parseRoundReads m speech ∨
              (next < n ∧ a ∈ (parseLoopTraced n fuel m' next frames').2) ↔
            ∃ q, Visits (fun _ => True) orig n speech q ∧ a ∈ parseRoundReads orig q) := by
        intro m' next frames' hnext hk' hm' hvis
        simp only [hvis, or_and_right, exists_or, exists_eq_left, hreads]
        refine or_congr_right ?_
        by_cases hn : next < n
        · rw [ih m' next frames' hn (by omega) hk' hm']
          exact and_iff_right hn
        · simp [hn, not_visits (Nat.le_of_not_lt hn)]
      simp only [parseLoopTraced]
      split
      · rename_i hbad
        have hnt : ¬ Tagged orig speech := by
          rw [← htag, Tagged, hbad]
          exact Bool.noConfusion
        rw [← hgo m (speech + 1) frames (by omega) (by omega) hm
          fun q => visits_of_not_tagged hs hnt]
        split <;> simp [*]
      · rename_i hgood
        have ht : Tagged orig speech := htag.mp (by simpa [Tagged] using hgood)
        -- twelve words on, and the stores stay behind
        have hframe := (decodeFrame_spec (m := m) (show 3 * frames ≤ speech by omega)).2
        rw [← hgo (decodeFrame m speech (3 * frames)) (speech + 12) (frames + 1) (by omega)
          (by omega) (fun i hi => by rw [hframe i (Or.inr (by omega)), hm i (by omega)])
          fun q => visits_of_jump hs ht trivial]
        split <;> simp [*]

/-! ## Staying inside the window -/

/-- No round of the two scanners leaves the `len` bytes of the window: where `skipData` has a
round at a word that is not zero, twelve words are inside, and a silent frame ends inside as
well; where `parseData_INT32` has a round, the words up to the first wrong channel number
are. -/
structure ScansInside (m : Nat → Word) (len : Int) : Prop where
  skip : ∀ q : Nat, Visits (Silent m) m (windowWords len) 0 q → m q ≠ 0 →
    4 * ((q : Int) + 11) < len ∧ (Tagged m q → Silent m q → 4 * ((q : Int) + 12) ≤ len)
  parse : ∀ q : Nat, Visits (fun _ => True) m (windowWords len) 0 q → ∀ j : Nat, j < 12 →
    (∀ i, i < j → channel (m (q + i)) = BitVec.ofNat 4 (i + 1)) → 4 * ((q : Int) + j) < len

section Inside

variable {m : Nat → Word} {len : Int}

theorem windowWords_le (hlen : 48 ≤ len) : 0 < windowWords len ∧ 4 * (windowWords len : Int) ≤ len ∧
    len < 4 * (windowWords len : Int) + 48 := by
  rw [windowWords, MINI_SINGLE_SAMPLE_BYTES]
  omega

theorem skipDataReads_inside (hlen : 48 ≤ len) :
    (∀ a ∈ skipDataReads m len, 4 * (a : Int) < len) ↔
      ∀ q : Nat, Visits (Silent m) m (windowWords len) 0 q → m q ≠ 0 →
        4 * ((q : Int) + 11) < len := by
  obtain ⟨hw, hle, -⟩ := windowWords_le hlen
  have hmem : ∀ a, a ∈ skipDataReads m len ↔
      ∃ q, Visits (Silent m) m (windowWords len) 0 q ∧ a ∈ skipRoundReads m q := by
    intro a
    rw [skipDataReads, if_neg (by rw [MINI_SINGLE_SAMPLE_BYTES]; omega)]
    exact mem_skipLoopTraced _ 0 hw (by omega)
  constructor
  · intro h q hv hz
    have := h (q + 11) ((hmem _).mpr ⟨q, hv, mem_skipRoundReads.mpr (Or.inr ⟨hz, by omega⟩)⟩)
    push_cast at this
    exact this
  · intro h a ha
    obtain ⟨q, hv, hq⟩ := (hmem a).mp ha
    have hqn := hv.2.1
    rcases mem_skipRoundReads.mp hq with rfl | ⟨hz, -, hlt⟩
    · omega
    · have := h q hv hz
      omega

theorem parseDataReads_inside (hlen : 48 ≤ len) :
    (∀ a ∈ parseDataReads m len, 4 * (a : Int) < len) ↔
      ∀ q : Nat, Visits (fun _ => True) m (windowWords len) 0 q → ∀ j : Nat, j < 12 →
        (∀ i, i < j → channel (m (q + i)) = BitVec.ofNat 4 (i + 1)) →
        4 * ((q : Int) + j) < len := by
  obtain ⟨hw, -, -⟩ := windowWords_le hlen
  have hmem : ∀ a, a ∈ parseDataReads m len ↔
      ∃ q, Visits (fun _ => True) m (windowWords len) 0 q ∧ a ∈ checkErrorReads m q := by
    intro a
    rw [parseDataReads, if_neg (by rw [MINI_SINGLE_SAMPLE_BYTES]; omega)]
    simp only [← mem_parseRoundReads]
    exact mem_parseLoopTraced _ m 0 0 hw (by omega) (by omega) fun _ _ => rfl
  constructor
  · intro h q hv j hj htags
    have := h (q + j) ((hmem _).mpr ⟨q, hv, mem_checkErrorReads.mpr ⟨j, hj, rfl, htags⟩⟩)
    push_cast at this
    exact this
  · intro h a ha
    obtain ⟨q, hv, hq⟩ := (hmem a).mp ha
    obtain ⟨j, hj, rfl, htags⟩ := mem_checkErrorReads.mp hq
    push_cast
    exact h q hv j hj htags

theorem skipData_le_iff (hlen : 48 ≤ len) :
    (0 ≤ skipData m len ∧ skipData m len ≤ len) ↔
      ∀ q : Nat, Visits (Silent m) m (windowWords len) 0 q → Tagged m q → Silent m q →
        4 * ((q : Int) + 12) ≤ len := by
  obtain ⟨hw, hle, -⟩ := windowWords_le hlen
  set n := windowWords len with hn
  have hskip : skipData m len = 4 * (skipLoop m n n 0 : Int) := by
    rw [skipData, if_neg (by rw [MINI_SINGLE_SAMPLE_BYTES]; omega), ← hn]
  rw [hskip]
  constructor
  · rintro ⟨-, h⟩ q hv ht hs
    -- a frame that ends inside cannot take the scan out
    by_cases hend : n ≤ q + 12
    · rw [skipLoop_of_visits hend ht hs n 0 (by omega) hv] at h
      exact h
    · omega
  · intro h
    obtain ⟨-, hsilent, hstop⟩ := skipLoop_spec m n n 0 hw (by omega)
    rcases hstop with ⟨hlt, -⟩ | heq | ⟨i, hi, -, heq, ht, hs⟩
    · omega
    · omega
    · -- the frame across the end is one that the scan comes to
      have hv : Visits (Silent m) m n 0 i := by
        refine ⟨Nat.zero_le i, hi, fun j _ hj htj => ?_⟩
        exact ⟨hsilent j (Nat.zero_le j) (by omega) htj, htj.no_overlap ht hj⟩
      have := h i hv ht hs
      omega

end Inside

/-- **Staying inside the window.** The scanners read no word at or behind byte `len`, and
`skipData` returns no more than `len`, exactly when none of their rounds leaves the window. -/
theorem scanners_inside_iff (m : Nat → Word) (len : Int) (hlen : 48 ≤ len) :
    ((∀ a ∈ skipDataReads m len, 4 * (a : Int) < len) ∧
      (∀ a ∈ parseDataReads m len, 4 * (a : Int) < len) ∧
      0 ≤ skipData m len ∧ skipData m len ≤ len) ↔ ScansInside m len := by
  rw [skipDataReads_inside hlen, parseDataReads_inside hlen, skipData_le_iff hlen]
  constructor
  · rintro ⟨h₁, h₂, h₃⟩
    exact ⟨fun q hv hz => ⟨h₁ q hv hz, h₃ q hv⟩, h₂⟩
  · rintro ⟨h₁, h₂⟩
    exact ⟨fun q hv hz => (h₁ q hv hz).1, h₂, fun q hv ht => (h₁ q hv ht.ne_zero).2 ht⟩

theorem scanners_inside_iff_frames :
    ((∀ a ∈ skipDataReads (fun i => BitVec.ofNat 32 (0x100 * (i % 12 + 1))) 96, 4 * (a : Int) < 96) ∧
      (∀ a ∈ parseDataReads (fun i => BitVec.ofNat 32 (0x100 * (i % 12 + 1))) 96, 4 * (a : Int) < 96) ∧
      0 ≤ skipData (fun i => BitVec.ofNat 32 (0x100 * (i % 12 + 1))) 96 ∧
      skipData (fun i => BitVec.ofNat 32 (0x100 * (i % 12 + 1))) 96 ≤ 96) ↔
    ScansInside (fun i => BitVec.ofNat 32 (0x100 * (i % 12 + 1))) 96 :=
  scanners_inside_iff _ 96 (by decide)

/-- Eleven zero words and a silent frame in a window of twelve words: both scanners read the
eleven words behind the window, and `skipData` returns 92. -/
theorem scanners_leave_window :
    ¬ ((∀ a ∈ skipDataReads (fun i => BitVec.ofNat 32 (0x100 * (i - 10))) 48, 4 * (a : Int) < 48) ∨
      (∀ a ∈ parseDataReads (fun i => BitVec.ofNat 32 (0x100 * (i - 10))) 48, 4 * (a : Int) < 48) ∨
      (0 ≤ skipData (fun i => BitVec.ofNat 32 (0x100 * (i - 10))) 48 ∧
        skipData (fun i => BitVec.ofNat 32 (0x100 * (i - 10))) 48 ≤ 48)) := by
  decide

end SpeechStack
