import SpeechStack.Speech.Clean

set_option autoImplicit false

/-! # Splitting a request

On a stream of frames some of which are silent, what a run of calls delivers depends on where
the calls begin: `skipData` drops silent frames at the front of a call, and nothing drops them
elsewhere (`speechArrayRead_split_differs`). Runs no call of which begins at a silent frame
are exact, so they deliver the same however they split the request (`speechArrayRead_split`).
-/

namespace SpeechStack

open Memory

/-- No call of the run begins at a silent frame. A frame is twelve words and twelve bytes
delivered, so the calls before one sum up to the word at which it begins. -/
def AudibleStarts (w : Nat → Word) (lens : List Int) : Prop :=
  ∀ before len after, lens = before ++ len :: after → ¬ Silent w before.sum.toNat

/-- Calls for whole frames that the clamp leaves as they are. -/
def Unclamped (h : SpeechArrayHandle) (lens : List Int) : Prop :=
  ∀ len ∈ lens, Accepted h len ∧ len ≤ h.buffSize / 4

instance (h : SpeechArrayHandle) (lens : List Int) : Decidable (Unclamped h lens) :=
  inferInstanceAs (Decidable (∀ len ∈ lens, Accepted h len ∧ len ≤ h.buffSize / 4))

/-- The calls begin where the partial sums point. -/
theorem audibleStarts_iff {w : Nat → Word} {lens : List Int} :
    AudibleStarts w lens ↔ ∀ k, k < lens.length → ¬ Silent w (lens.take k).sum.toNat := by
  constructor
  · intro h k hk
    exact h (lens.take k) lens[k] (lens.drop (k + 1)) (by simp)
  · rintro h before len after rfl
    have hk := h before.length (by simp)
    rwa [List.take_left] at hk

section Run

variable {B : Int} {captured : Nat → Word} {lens : List Int} {N fuel : Nat} {s : Session}

/-- A run of calls that begin at audible frames stays exact and delivers what it asks for. -/
theorem Exact.run_audibleStarts (ht : ∀ k, Tagged captured (12 * k)) (hfuel : 2 ≤ fuel)
    (rest : List Int) (he : Exact B captured lens N s) (hN : lens.sum = 12 * (N : Int))
    (ho : Opened B s.handle) (hok : s.pcm.Reliable) (ha : Unclamped s.handle rest)
    (hstarts : AudibleStarts captured (lens ++ rest)) :
    ∃ t M, Machine.run (Session.step fuel) s rest = some t ∧
      Exact B captured (lens ++ rest) M t ∧ (lens ++ rest).sum = 12 * (M : Int) := by
  induction rest generalizing lens N s with
  | nil =>
      rw [List.append_nil]
      exact ⟨s, N, rfl, he, hN⟩
  | cons len rest ih =>
      obtain ⟨hacc, hle⟩ := ha len (by simp)
      have hclamp : clampLen s.handle len = len := by
        rw [clampLen_eq ho]
        rw [ho.buffSize] at hle
        omega
      have haud : ¬ Silent captured (12 * N) := by
        have h := hstarts lens len rest rfl
        rwa [show lens.sum.toNat = 12 * N by omega] at h
      obtain ⟨t, hstep, -, hexact, hot, hokt, hset⟩ := he.step ht haud ho hok hfuel hacc
      rw [hclamp] at hexact
      have hat : Unclamped t.handle rest := by
        intro len' hmem
        obtain ⟨hacc', hle'⟩ := ha len' (List.mem_cons_of_mem _ hmem)
        exact ⟨hacc'.of_sameSetup hset, by rwa [hset.buffSize]⟩
      have hsum : (lens ++ [len]).sum = 12 * ((N + len.toNat / 12 : Nat) : Int) := by
        have hpos := hacc.pos
        have hframes := hacc.frames
        rw [List.sum_append, List.sum_singleton, hN]
        omega
      have hsplit : lens ++ len :: rest = lens ++ [len] ++ rest := by simp
      rw [hsplit] at hstarts ⊢
      obtain ⟨u, M, hrun, hu⟩ := ih hexact hsum hot hokt hat hstarts
      exact ⟨u, M, Machine.run_cons_eq_some.mpr ⟨t, hstep, hrun⟩, hu⟩

end Run

/-- **Request splitting.** On a stream of frames, audible or silent, two runs that ask for the
same number of bytes, no call of which begins at a silent frame, deliver the same: the frames
of the stream from its start, silent ones included. -/
theorem speechArrayRead_split (config : SpeechArray) (bufferSize : Nat)
    (heap captured : Nat → Word) (fuel : Nat) (lens lens' : List Int)
    (hpos : 0 < pcmFramesToBytes bufferSize) (halign : 48 ∣ pcmFramesToBytes bufferSize)
    (hfuel : 2 ≤ fuel) (ht : ∀ k, Tagged captured (12 * k))
    (hlens : Unclamped (speechArrayOpen config bufferSize heap) lens)
    (hlens' : Unclamped (speechArrayOpen config bufferSize heap) lens')
    (hsum : lens.sum = lens'.sum)
    (hstarts : AudibleStarts captured lens) (hstarts' : AudibleStarts captured lens') :
    ∃ s s', Machine.run (Session.step fuel)
        (Session.fresh config bufferSize heap captured fun _ => 0) lens = some s ∧
      Machine.run (Session.step fuel)
        (Session.fresh config bufferSize heap captured fun _ => 0) lens' = some s' ∧
      s.output = s'.output ∧
      s.output = packFrames captured
        ((List.range (lens.sum / 12).toNat).map fun k => 12 * k) := by
  have hfresh := Session.fresh_exact config heap captured hpos
  have ho := speechArrayOpen_opened config heap hpos halign
  obtain ⟨s, N, hrun, hs, hN⟩ :=
    Exact.run_audibleStarts ht hfuel lens hfresh rfl ho (fun _ => rfl) hlens hstarts
  obtain ⟨s', N', hrun', hs', hN'⟩ :=
    Exact.run_audibleStarts ht hfuel lens' hfresh rfl ho (fun _ => rfl) hlens' hstarts'
  rw [List.nil_append] at hN hN'
  obtain rfl : N = N' := by omega
  refine ⟨s, s', hrun, hrun', hs.output.trans hs'.output.symm, ?_⟩
  rw [hs.output, show (lens.sum / 12).toNat = N by omega]

/-! ### A recording with a pause -/

/-- The stream `w` with frame `k` silenced. -/
def paused (k : Nat) (w : Nat → Word) (i : Nat) : Word :=
  if i / 12 = k then w i &&& 0x0000ffff else w i

theorem paused_tagged {k : Nat} {w : Nat → Word} (ht : ∀ n, Tagged w (12 * n)) (n : Nat) :
    Tagged (paused k w) (12 * n) := by
  rw [tagged_iff]
  intro j hj
  have hw := tagged_iff.mp (ht n) j hj
  rw [paused]
  split
  · rw [BitVec.and_assoc]
    exact hw
  · exact hw

/-- The second frame is silent, `B = 48`: two calls for one frame each drop it, one call for
two frames delivers it. -/
theorem speechArrayRead_split_differs :
    (∀ k, Tagged (paused 1 numbered) (12 * k)) ∧ ¬ Silent (paused 1 numbered) 0 ∧
    Unclamped (speechArrayOpen ⟨6, PCM_FORMAT_S16_LE⟩ 6 fun _ => 0) [12, 12] ∧
    Unclamped (speechArrayOpen ⟨6, PCM_FORMAT_S16_LE⟩ 6 fun _ => 0) [24] ∧
    ([12, 12] : List Int).sum = ([24] : List Int).sum ∧
    ∃ s s', Machine.run (Session.step 2)
        (Session.fresh ⟨6, PCM_FORMAT_S16_LE⟩ 6 (fun _ => 0) (paused 1 numbered) fun _ => 0)
          [12, 12] = some s ∧
      Machine.run (Session.step 2)
        (Session.fresh ⟨6, PCM_FORMAT_S16_LE⟩ 6 (fun _ => 0) (paused 1 numbered) fun _ => 0)
          [24] = some s' ∧
      s.output ≠ s'.output := by
  have hrun : (Machine.run (Session.step 2)
      (Session.fresh ⟨6, PCM_FORMAT_S16_LE⟩ 6 (fun _ => 0) (paused 1 numbered) fun _ => 0)
        [12, 12]).map Session.output = some (packFrames (paused 1 numbered) [0, 24]) := by
    decide
  have hrun' : (Machine.run (Session.step 2)
      (Session.fresh ⟨6, PCM_FORMAT_S16_LE⟩ 6 (fun _ => 0) (paused 1 numbered) fun _ => 0)
        [24]).map Session.output = some (packFrames (paused 1 numbered) [0, 12]) := by
    decide
  obtain ⟨s, hs, hout⟩ := Option.map_eq_some_iff.mp hrun
  obtain ⟨s', hs', hout'⟩ := Option.map_eq_some_iff.mp hrun'
  refine ⟨paused_tagged numbered_clean.tagged, by decide, by decide, by decide, rfl, s, s', hs,
    hs', ?_⟩
  rw [hout, hout']
  decide

theorem speechArrayRead_split_paused :
    ∃ s s', Machine.run (Session.step 2)
        (Session.fresh ⟨6, PCM_FORMAT_S16_LE⟩ 6 (fun _ => 0) (paused 1 numbered) fun _ => 0)
          [24, 12, 12] = some s ∧
      Machine.run (Session.step 2)
        (Session.fresh ⟨6, PCM_FORMAT_S16_LE⟩ 6 (fun _ => 0) (paused 1 numbered) fun _ => 0)
          [24, 24] = some s' ∧
      s.output = s'.output ∧
      s.output = packFrames (paused 1 numbered)
        ((List.range (([24, 12, 12] : List Int).sum / 12).toNat).map fun k => 12 * k) :=
  speechArrayRead_split ⟨6, PCM_FORMAT_S16_LE⟩ 6 (fun _ => 0) (paused 1 numbered) 2
    [24, 12, 12] [24, 24] (by decide) (by decide) le_rfl
    (paused_tagged numbered_clean.tagged) (by decide) (by decide) rfl
    (audibleStarts_iff.mpr (by decide)) (audibleStarts_iff.mpr (by decide))

end SpeechStack
