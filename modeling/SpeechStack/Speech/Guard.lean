import SpeechStack.Speech.Rounds

set_option autoImplicit false

/-! # What the argument test admits

`SpeechArrayRead` tests a request against `out_align`, which `speechArrayOpen` computes from
the caller's format and channel count and never checks. It can be zero, and then the test
itself divides by zero. It can be less than the twelve bytes of an output frame, and then the
test admits requests of less than a frame, for which `parseData_INT32` is given less than
48 bytes and returns -1: the size of the copy to the caller. Nothing else goes wrong with the
caller's buffer (`speechArrayRead_buffSafe_iff`).
-/

namespace SpeechStack

open Memory

/-- The size of the `memcpy` into `buff`, in a call that has passed the guard: what
`parseData_INT32` has returned. A call comes to it when it returns, and when it faults on a
negative size; a call that faults in the shift has `ret = 0`. -/
def ReadResult.copySize (r : ReadResult) : Option Int :=
  match r.status with
  | .returned => some r.ret
  | .fault => if r.ret < 0 then some r.ret else none
  | .running => none

/-- A call for `len` bytes does not misuse the caller's buffer. -/
structure BuffSafe (h : SpeechArrayHandle) (pcm : Pcm) (len : Int) : Prop where
  /-- the argument test divides when `len` is positive -/
  divides : 0 < len → h.outAlign ≠ 0
  /-- what an admitted call copies are between 0 and `len` bytes -/
  copies : Guarded h len → ∀ fuel, ∀ n ∈ (speechArrayRead fuel h pcm len).copySize,
    0 ≤ n ∧ n ≤ len ∧ n = 4 * ((speechArrayRead fuel h pcm len).buff.length : Int)

/-! ## The two results of the decoding -/

section Decodings

variable {B L : Int} {h : SpeechArrayHandle} {pcm : Pcm} {st : ReadState}

/-- From a window of at least a frame the call returns at most a quarter of the window. -/
theorem parseTail_of_frame (hlong : 48 ≤ parseWindow L st.availSize) :
    (parseTail L st).result.status = .returned ∧ 0 ≤ (parseTail L st).result.ret ∧
      4 * (parseTail L st).result.ret ≤ parseWindow L st.availSize ∧
      (parseTail L st).result.ret = 4 * ((parseTail L st).result.buff.length : Int) := by
  obtain ⟨hret, -, -⟩ := parseDataInt32_spec st.handle.buffer hlong
  have hcount := framesFrom_length_le st.handle.buffer 0 (windowWords (parseWindow L st.availSize))
  have hwords : 4 * (windowWords (parseWindow L st.availSize) : Int)
      = 48 * (parseWindow L st.availSize / 48) := by
    rw [windowWords, MINI_SINGLE_SAMPLE_BYTES]
    omega
  set n := (framesFrom st.handle.buffer 0 (windowWords (parseWindow L st.availSize))).length
  -- with leftovers or without, the reply is the same
  have hdone : ∃ st' m, parseTail L st = .done st' (load m 0 (12 * (n : Int) / 4).toNat) ∧
      st'.ret = 12 * (n : Int) := by
    rw [parseTail]
    dsimp only
    rw [hret, if_neg (by omega)]
    split <;> exact ⟨_, _, rfl, rfl⟩
  obtain ⟨st', m, hparse, hst⟩ := hdone
  rw [hparse]
  refine ⟨rfl, ?_, ?_, ?_⟩
  · show 0 ≤ st'.ret
    omega
  · show 4 * st'.ret ≤ _
    omega
  · show st'.ret = 4 * ((load m 0 (12 * (n : Int) / 4).toNat).length : Int)
    rw [load_length]
    omega

end Decodings

/-! ## The requests that are safe -/

section Requests

variable {B len : Int} {h : SpeechArrayHandle} {pcm : Pcm}

/-- On any device, a request that leaves a whole output frame after the clamp is safe. -/
theorem Sized.copySize_spec (hs : Sized B h) (hg : Guarded h len) (h12 : 12 ≤ clampLen h len)
    {fuel : Nat} {n : Int} (hn : n ∈ (speechArrayRead fuel h pcm len).copySize) :
    0 ≤ n ∧ n ≤ len ∧ n = 4 * ((speechArrayRead fuel h pcm len).buff.length : Int) := by
  have hclamp : clampLen h len = min len (B / 2) := hs.clampLen_eq
  rcases speechArrayRead_account hg rfl pcm fuel with
    ⟨u, -, hcall⟩ | ⟨u, hu, hcall⟩ | ⟨u, hu, -, -, -, hcall⟩
  · -- still in the loop
    rw [hcall] at hn
    exact absurd hn (Option.not_mem_none n)
  · obtain ⟨henough, -⟩ := heldSize_spec pcm hs (hs.clampLen_spec hg.pos).2
    have hwindow : parseWindow (clampLen h len) u.availSize = 4 * clampLen h len := by
      rw [parseWindow_eq, hu.avail]
      omega
    obtain ⟨hstatus, hret₀, hret, hbuff⟩ :=
      parseTail_of_frame (show 48 ≤ parseWindow (clampLen h len) u.availSize by omega)
    rw [hcall, ReadResult.copySize, hstatus, Option.mem_some_iff] at hn
    rw [hcall, ← hn]
    exact ⟨hret₀, by omega, hbuff⟩
  · -- the shift has a negative length, before anything is decoded
    have hret : u.ret = 0 := hu.ret
    have hnone : (speechArrayRead fuel h pcm len).copySize = none := by
      rw [hcall]
      show (if u.ret < 0 then some u.ret else none) = none
      rw [hret, if_neg (lt_irrefl 0)]
    rw [hnone] at hn
    exact absurd hn (Option.not_mem_none n)

/-- The first call of a session on a stream that begins with an audible frame drops nothing. -/
theorem firstSkip_fresh (ht : Tagged pcm.captured 0) (haud : ¬ Silent pcm.captured 0)
    (hd : h.dataSize = 0) (hpos : pcm.pos = 0) (L : Int) : firstSkip h pcm L ≤ 0 := by
  rw [firstSkip, hd]
  by_cases hlong : 48 ≤ 0 + firstReadSize h L
  · have hholds : ∀ i, i < 12 → firstFill h pcm L (0 + i) = pcm.captured (0 + i) := by
      intro i hi
      have hoff : (h.dataSize / 4).toNat = 0 := by omega
      rw [firstFill, hoff, store_inside _ _ (by omega) (by rw [pcmWords_eq]; omega), hpos,
        Nat.sub_zero, Nat.zero_add]
    have hskip := skipData_of_audible (m := firstFill h pcm L) hlong
      ((tagged_congr hholds).mpr ht) fun hsilent => haud ((silent_congr hholds).mp hsilent)
    omega
  · rw [skipData, if_pos (by rw [MINI_SINGLE_SAMPLE_BYTES]; omega)]
    omega

/-- On a device that does not fail, a request that leaves less than an output frame ends in a
copy of -1 bytes. -/
theorem Guarded.copySize_minusOne (hg : Guarded h len) (hok : pcm.Reliable)
    (hskip : firstSkip h pcm (clampLen h len) ≤ 0) (h12 : clampLen h len < 12) :
    (speechArrayRead 2 h pcm len).copySize = some (-1) := by
  set L := clampLen h len with hL
  have hbuffer : (fill (readStart h pcm L)).handle.buffer = firstFill h pcm L :=
    fill_buffer (hok _)
  have havail : (fill (readStart h pcm L)).availSize = h.dataSize + firstReadSize h L :=
    fill_availSize (hok _)
  obtain ⟨hA, -, -⟩ := speechArrayRead_eq hg hok le_rfl hL rfl rfl rfl
  rw [hbuffer, havail] at hA
  have hshort : parseWindow L (fill (readStart h pcm L)).availSize < 48 := by
    rw [parseWindow_eq]
    omega
  rw [hA hskip, parseTail_of_short hshort]
  rfl

end Requests

/-- **The argument test and the caller's buffer.** On a clean stream, `len` is safe in every
state that calls of any lengths reach, whatever the device did in them and will do, if and only
if it is not positive, or `out_align` is not zero and divides it only when it is an output
frame or more, the capture buffer having room for one. -/
theorem speechArrayRead_buffSafe_iff (config : SpeechArray) (bufferSize : Nat)
    (heap captured : Nat → Word) (len : Int) (hc : CleanStream captured) :
    (∀ outcome fuel lens s, Machine.run (Session.step fuel)
        (Session.fresh config bufferSize heap captured outcome) lens = some s →
      BuffSafe s.handle s.pcm len) ↔
    (0 < len → (speechArrayOpen config bufferSize heap).outAlign ≠ 0 ∧
      ((speechArrayOpen config bufferSize heap).outAlign ∣ len →
        12 ≤ len ∧ 24 ≤ pcmFramesToBytes bufferSize)) := by
  have hs := speechArrayOpen_sized config bufferSize heap
  set h := speechArrayOpen config bufferSize heap with hopen
  have hclamp : clampLen h len = min len ((pcmFramesToBytes bufferSize : Int) / 2) :=
    hs.clampLen_eq
  constructor
  · intro hall hlen
    -- the first call of a session on a device that does not fail
    have hfirst := hall (fun _ => 0) 2 [] _ rfl
    refine ⟨hfirst.divides hlen, fun hdvd => ?_⟩
    by_contra hsmall
    have hg : Guarded h len := ⟨hlen, hfirst.divides hlen, hdvd⟩
    have hskip : firstSkip h ⟨captured, fun _ => 0, 0, 0⟩ (clampLen h len) ≤ 0 :=
      firstSkip_fresh (hc.tagged 0) (hc.audible 0) rfl rfl (clampLen h len)
    have hcopy := hg.copySize_minusOne (fun _ => rfl) hskip (by omega)
    have hneg := hfirst.copies hg 2 (-1) hcopy
    omega
  · intro hcond outcome fuel lens s hrun
    obtain ⟨hsized, hset⟩ := Session.run_sized hs hrun
    have halign : s.handle.outAlign = h.outAlign := hset.outAlign
    have hclamp' : clampLen s.handle len = min len ((pcmFramesToBytes bufferSize : Int) / 2) :=
      hsized.clampLen_eq
    refine ⟨fun hlen => halign ▸ (hcond hlen).1, fun hg fuel' n hn => ?_⟩
    have hframe := (hcond hg.pos).2 (halign ▸ hg.guard)
    exact hsized.copySize_spec hg (by omega) hn

/-- One channel of 16 bits: two bytes are admitted, and -1 bytes are copied. -/
theorem speechArrayRead_copies_minusOne :
    CleanStream numbered ∧
    Guarded (speechArrayOpen ⟨1, PCM_FORMAT_S16_LE⟩ 6 fun _ => 0) 2 ∧
    (speechArrayRead 2 (speechArrayOpen ⟨1, PCM_FORMAT_S16_LE⟩ 6 fun _ => 0)
      ⟨numbered, fun _ => 0, 0, 0⟩ 2).copySize = some (-1) ∧
    ¬ BuffSafe (speechArrayOpen ⟨1, PCM_FORMAT_S16_LE⟩ 6 fun _ => 0)
      ⟨numbered, fun _ => 0, 0, 0⟩ 2 := by
  have hg : Guarded (speechArrayOpen ⟨1, PCM_FORMAT_S16_LE⟩ 6 fun _ => 0) 2 :=
    ⟨by decide, by decide, by decide⟩
  have hcopy : (speechArrayRead 2 (speechArrayOpen ⟨1, PCM_FORMAT_S16_LE⟩ 6 fun _ => 0)
      ⟨numbered, fun _ => 0, 0, 0⟩ 2).copySize = some (-1) := by decide
  refine ⟨numbered_clean, hg, hcopy, fun hsafe => ?_⟩
  have hneg := hsafe.copies hg 2 (-1) hcopy
  omega

/-- No channels: the argument test divides by zero. -/
example : ¬ BuffSafe (speechArrayOpen ⟨0, PCM_FORMAT_S16_LE⟩ 6 fun _ => 0)
    ⟨numbered, fun _ => 0, 0, 0⟩ 24 := fun hsafe => hsafe.divides (by decide) (by decide)

/-- Six channels of 16 bits admit whole output frames only. -/
theorem speechArrayRead_buffSafe_iff_sixChannels :
    (∀ outcome fuel lens s, Machine.run (Session.step fuel)
        (Session.fresh ⟨6, PCM_FORMAT_S16_LE⟩ 6 (fun _ => 0) numbered outcome) lens = some s →
      BuffSafe s.handle s.pcm 24) ↔
    (0 < (24 : Int) → (speechArrayOpen ⟨6, PCM_FORMAT_S16_LE⟩ 6 fun _ => 0).outAlign ≠ 0 ∧
      ((speechArrayOpen ⟨6, PCM_FORMAT_S16_LE⟩ 6 fun _ => 0).outAlign ∣ (24 : Int) →
        12 ≤ (24 : Int) ∧ 24 ≤ pcmFramesToBytes 6)) :=
  speechArrayRead_buffSafe_iff ⟨6, PCM_FORMAT_S16_LE⟩ 6 (fun _ => 0) numbered 24 numbered_clean

end SpeechStack
