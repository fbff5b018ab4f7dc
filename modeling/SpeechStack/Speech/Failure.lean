import SpeechStack.Speech.Guard

set_option autoImplicit false

/-! # A device that fails

A failed `pcm_read` leads to another round of the do-while loop, with the same request and the
same target, and never out of it. So a loop always ends behind a read that has succeeded, and it
ends only if the device succeeds as often as the call has reads: two at most, and how many is
decided by the state before the call. On a device that fails for ever from some point on the
call does not come back. A loop that ends still has to decode: a request of less than an output
frame and a skip behind the first fill end in a `memcpy` of a negative size instead
(`speechArrayRead_failsIntact_iff`).
-/

namespace SpeechStack

open Memory

/-- The last `pcm_read` of a call that issued the reads `first, …, next - 1` has failed, and so
have those before it, back to some read of the call. -/
def FailedLast (outcome : Nat → Int) (first next : Nat) : Prop :=
  ∃ k, first ≤ k ∧ k < next ∧ ∀ j, k ≤ j → j < next → outcome j ≠ 0

/-- A call for `len` bytes comes back, and one whose last read has failed reports that and
leaves what was held. -/
structure FailsIntact (h : SpeechArrayHandle) (pcm : Pcm) (len : Int) : Prop where
  finishes : ∃ fuel, (speechArrayRead fuel h pcm len).status = .returned
  reported : ∀ fuel, (speechArrayRead fuel h pcm len).status ≠ .running →
    FailedLast pcm.outcome pcm.reads (speechArrayRead fuel h pcm len).pcm.reads →
    (speechArrayRead fuel h pcm len).ret < 0 ∧
      (speechArrayRead fuel h pcm len).handle.dataSize = h.dataSize ∧
      load (speechArrayRead fuel h pcm len).handle.buffer 0 (h.dataSize / 4).toNat
        = load h.buffer 0 (h.dataSize / 4).toNat

/-- The device succeeds at least `n` times from its `i`-th read on. -/
def SucceedsFrom (outcome : Nat → Int) : Nat → Nat → Prop
  | 0, _ => True
  | n + 1, i => ∃ j, i ≤ j ∧ outcome j = 0 ∧ SucceedsFrom outcome n (j + 1)

/-- The call drops a prefix of the first fill, and what is left does not meet the request. -/
def Refills (h : SpeechArrayHandle) (pcm : Pcm) (len : Int) : Prop :=
  0 < firstSkip h pcm len ∧ firstSkip h pcm len ≤ h.dataSize + firstReadSize h len ∧
    h.dataSize + firstReadSize h len - firstSkip h pcm len < 4 * len

instance (h : SpeechArrayHandle) (pcm : Pcm) (len : Int) : Decidable (Refills h pcm len) :=
  inferInstanceAs (Decidable (_ ∧ _ ∧ _))

/-- What a call for `len` bytes (after the clamp) decodes is a frame or more, and it drops no
more than the first fill holds. -/
def Decodable (h : SpeechArrayHandle) (pcm : Pcm) (len : Int) : Prop :=
  12 ≤ len ∧ (firstSkip h pcm len ≤ h.dataSize + firstReadSize h len ∨ firstSkip h pcm len ≤ 0)

instance (h : SpeechArrayHandle) (pcm : Pcm) (len : Int) : Decidable (Decodable h pcm len) :=
  inferInstanceAs (Decidable (_ ∧ _))

/-- How many reads a call for `len` bytes (after the clamp) has to make: one unless more than
the request is left over, and one for the refill. -/
def readsDue (h : SpeechArrayHandle) (pcm : Pcm) (len : Int) : Nat :=
  (if h.dataSize ≤ 4 * len ∧ 0 < h.buffSize then 1 else 0) +
    if Refills h pcm len then 1 else 0

/-! ## The rounds -/

section Loop

variable {B L r : Int} {h : SpeechArrayHandle} {pcm : Pcm} {st : ReadState}

/-- The loop comes to its end. -/
def Ends (L r : Int) (st : ReadState) : Prop := ∃ fuel, (readLoop L r fuel st).status ≠ .running

theorem ends_of_again {st' : ReadState} (hround : readRound L r st = .again st') :
    Ends L r st ↔ Ends L r st' := by
  constructor
  · rintro ⟨fuel, hend⟩
    cases fuel with
    | zero => exact absurd rfl hend
    | succ fuel =>
        rw [readLoop, hround] at hend
        exact ⟨fuel, hend⟩
  · rintro ⟨fuel, hend⟩
    refine ⟨fuel + 1, ?_⟩
    rw [readLoop, hround]
    exact hend

/-- What a failed read leaves in place. -/
theorem readDevice_failed_same (hb : st.readBytes ≠ 0)
    (hfail : st.pcm.outcome st.pcm.reads ≠ 0) :
    (readDevice st).readBytes = st.readBytes ∧ (readDevice st).checkSkip = st.checkSkip ∧
      (readDevice st).pcm.reads = st.pcm.reads + 1 := by
  rw [readDevice_failed hb hfail]
  exact ⟨rfl, rfl, rfl⟩

/-- A loop that has something to read and ends has met a read that succeeds. -/
theorem Waiting.succeeds (hw : Waiting h pcm L st) (hb : st.readBytes ≠ 0)
    (hend : Ends L r st) : ∃ j, st.pcm.reads ≤ j ∧ pcm.outcome j = 0 := by
  obtain ⟨fuel, hend⟩ := hend
  induction fuel generalizing st with
  | zero => exact absurd rfl hend
  | succ fuel ih =>
      by_cases hok : st.pcm.outcome st.pcm.reads = 0
      · exact ⟨st.pcm.reads, le_rfl, hw.outcome ▸ hok⟩
      · have hret : (readDevice st).ret ≠ 0 := by rwa [readDevice_ret_of_readBytes hb]
        obtain ⟨hb', -, hreads⟩ := readDevice_failed_same hb hok
        rw [readLoop, readRound_of_failed hret] at hend
        obtain ⟨j, hj, hok'⟩ := ih (hw.retry hret) (hb' ▸ hb) hend
        exact ⟨j, by omega, hok'⟩

/-- The failures before the first success only delay the loop. -/
theorem Waiting.delayed (hw : Waiting h pcm L st) (hb : st.readBytes ≠ 0) {j : Nat}
    (hj : st.pcm.reads ≤ j) (hok : pcm.outcome j = 0) :
    ∃ st', Waiting h pcm L st' ∧ st'.readBytes = st.readBytes ∧ st'.checkSkip = st.checkSkip ∧
      st.pcm.reads ≤ st'.pcm.reads ∧ st'.pcm.reads ≤ j ∧ pcm.outcome st'.pcm.reads = 0 ∧
      (Ends L r st ↔ Ends L r st') := by
  obtain ⟨n, rfl⟩ : ∃ n, j = st.pcm.reads + n := ⟨j - st.pcm.reads, by omega⟩
  induction n generalizing st with
  | zero => exact ⟨st, hw, rfl, rfl, le_rfl, le_rfl, hok, Iff.rfl⟩
  | succ n ih =>
      by_cases hnow : st.pcm.outcome st.pcm.reads = 0
      · exact ⟨st, hw, rfl, rfl, le_rfl, by omega, hw.outcome ▸ hnow, Iff.rfl⟩
      · -- one failure, and the success is one read closer
        have hret : (readDevice st).ret ≠ 0 := by rwa [readDevice_ret_of_readBytes hb]
        obtain ⟨hb', hc', hreads⟩ := readDevice_failed_same hb hnow
        have hnext : st.pcm.reads + (n + 1) = (readDevice st).pcm.reads + n := by omega
        obtain ⟨st', hw', h₁, h₂, h₃, h₄, h₅, h₆⟩ :=
          ih (hw.retry hret) (hb' ▸ hb) (by omega) (hnext ▸ hok)
        exact ⟨st', hw', h₁.trans hb', h₂.trans hc', by omega, by omega, h₅,
          (ends_of_again (readRound_of_failed hret)).trans h₆⟩

/-- The refill asks for nothing exactly when the request is met. -/
theorem Sized.refillSize_eq_zero_iff (hs : Sized B h) (hL : 2 * L ≤ B) {a k : Int} (hk : 0 < k) :
    refillSize h L (firstReadSize h L) a k = 0 ↔ 4 * L ≤ a := by
  have hr₈ := hs.firstReadSize_words L
  simp only [refillSize, HW_OUT_DATA_RATIO, HW_BUFFER_COUNT, hs.hwAlign, hs.buffSize]
  split
  · omega
  · split
    · omega
    · split <;> omega

/-- The first fill asks for something unless more than the request is left over. -/
theorem Sized.firstReadSize_ne_zero_iff (hs : Sized B h) (hL : 2 * L ≤ B) :
    firstReadSize h L ≠ 0 ↔ h.dataSize ≤ 4 * L ∧ 0 < h.buffSize := by
  obtain ⟨hr₁, hr₂⟩ := firstReadSize_cases hs L
  have hB := hs.nonneg
  have hd₀ := hs.dataNonneg
  have hsize := hs.buffSize
  by_cases hd : h.dataSize ≤ 4 * L
  · obtain ⟨-, hcase⟩ := hr₂ hd
    omega
  · have hzero := hr₁ (by omega)
    omega

/-- A round whose read succeeds ends the loop, when no refill follows. -/
theorem Waiting.ends (hw : Waiting h pcm L st) (hret : (readDevice st).ret = 0)
    (hs : Sized B h) (hL : 2 * L ≤ B) (hno : st.checkSkip = false → ¬ Refills h pcm L) :
    Ends L (firstReadSize h L) st := by
  have hg := hw.fetch hret
  have hround := readRound_of_read (L := L) (r := firstReadSize h L) hret
  have hchk : (fill st).checkSkip = st.checkSkip := fill_checkSkip st
  refine ⟨1, ?_⟩
  by_cases hkeep : (fill st).checkSkip = false →
      skipData (fill st).handle.buffer (fill st).availSize ≤ 0
  · rw [readLoop_of_parseTail 0 (hround.trans (skipRound_kept hkeep))]
    exact parseTail_status
  · rw [Classical.not_imp, not_le] at hkeep
    obtain ⟨hc, hpos⟩ := hkeep
    have hskip := hg.skipData_eq hc
    obtain ⟨-, havail, -⟩ := hg.early hc
    by_cases hle : skipData (fill st).handle.buffer (fill st).availSize ≤ (fill st).availSize
    swap
    · rw [skipRound_overSkipped hc hpos (by omega)] at hround
      rw [readLoop, hround]
      exact Status.noConfusion
    · -- what is left meets the request, so the refill asks for nothing
      have hzero : (dropSkipped L (firstReadSize h L)
          (skipData (fill st).handle.buffer (fill st).availSize) (fill st)).readBytes = 0 := by
        show refillSize (fill st).handle L _ _ _ = 0
        rw [refillSize_congr hg.setup, hs.refillSize_eq_zero_iff hL hpos]
        by_contra hlt
        exact hno (hchk.symm.trans hc) ⟨by omega, by omega, by omega⟩
      rw [skipRound_dropped hc hpos hle, if_neg (not_not_intro hzero)] at hround
      rw [readLoop_of_parseTail 0 hround]
      exact parseTail_status

/-- A round whose read succeeds is followed by the round of the refill, when there is one. -/
theorem Waiting.refills (hw : Waiting h pcm L st) (hret : (readDevice st).ret = 0)
    (hs : Sized B h) (hL : 2 * L ≤ B) (hc : st.checkSkip = false) (hrefills : Refills h pcm L) :
    ∃ st', Waiting h pcm L st' ∧ st'.readBytes ≠ 0 ∧ st'.checkSkip = true ∧
      st'.pcm.reads = (fill st).pcm.reads ∧
      (Ends L (firstReadSize h L) st ↔ Ends L (firstReadSize h L) st') := by
  have hg := hw.fetch hret
  have hround := readRound_of_read (L := L) (r := firstReadSize h L) hret
  rw [← fill_checkSkip st] at hc
  have hskip := hg.skipData_eq hc
  obtain ⟨-, havail, -⟩ := hg.early hc
  obtain ⟨hpos, hle, hlt⟩ := hrefills
  rw [← hskip] at hpos
  rw [← hskip, ← havail] at hle hlt
  have hb : (dropSkipped L (firstReadSize h L)
      (skipData (fill st).handle.buffer (fill st).availSize) (fill st)).readBytes ≠ 0 := by
    show refillSize (fill st).handle L _ _ _ ≠ 0
    rw [refillSize_congr hg.setup, Ne, hs.refillSize_eq_zero_iff hL hpos]
    omega
  rw [skipRound_dropped hc hpos hle, if_pos hb] at hround
  exact ⟨_, hg.drop hc hpos hle, hb, rfl, rfl, ends_of_again hround⟩

/-- The round of the refill comes to its end when the device succeeds once more. -/
theorem Waiting.ends_late_iff (hw : Waiting h pcm L st) (hs : Sized B h) (hL : 2 * L ≤ B)
    (hb : st.readBytes ≠ 0) (hc : st.checkSkip = true) :
    Ends L (firstReadSize h L) st ↔ ∃ j, st.pcm.reads ≤ j ∧ pcm.outcome j = 0 := by
  refine ⟨hw.succeeds hb, fun ⟨j, hj, hok⟩ => ?_⟩
  obtain ⟨st', hw', hb', hc', -, -, hok', hends⟩ :=
    hw.delayed (r := firstReadSize h L) hb hj hok
  rw [hends]
  have hret : (readDevice st').ret = 0 := by
    rw [readDevice_ret_of_readBytes (by omega), hw'.outcome, hok']
  refine hw'.ends hret hs hL fun hfalse => ?_
  rw [hc', hc] at hfalse
  exact Bool.noConfusion hfalse

/-- The rounds from a first read that succeeds on: one more success is needed when there is a
refill. -/
theorem Waiting.ends_early_iff (hw : Waiting h pcm L st) (hs : Sized B h) (hL : 2 * L ≤ B)
    (hret : (readDevice st).ret = 0) (hc : st.checkSkip = false) :
    Ends L (firstReadSize h L) st ↔
      (Refills h pcm L → ∃ j, (fill st).pcm.reads ≤ j ∧ pcm.outcome j = 0) := by
  by_cases hrefills : Refills h pcm L
  · obtain ⟨st', hw', hb', hc', hreads, hends⟩ := hw.refills hret hs hL hc hrefills
    rw [hends, hw'.ends_late_iff hs hL hb' hc', hreads]
    exact ⟨fun hj _ => hj, fun hj => hj hrefills⟩
  · exact ⟨fun _ hr => absurd hr hrefills, fun _ => hw.ends hret hs hL fun _ => hrefills⟩

end Loop

/-! ## Calls -/

section Calls

variable {B L len : Int} {h : SpeechArrayHandle} {pcm : Pcm}

theorem SucceedsFrom.mono {outcome : Nat → Int} {n i j : Nat} (hs : SucceedsFrom outcome n j)
    (hij : i ≤ j) : SucceedsFrom outcome n i := by
  cases n with
  | zero => trivial
  | succ n =>
      obtain ⟨k, hk, hok, hrest⟩ := hs
      exact ⟨k, hij.trans hk, hok, hrest⟩

theorem Pcm.Reliable.succeedsFrom (hok : pcm.Reliable) (n i : Nat) :
    SucceedsFrom pcm.outcome n i := by
  induction n generalizing i with
  | zero => trivial
  | succ n ih => exact ⟨i, le_rfl, hok i, ih (i + 1)⟩

theorem succeedsFrom_ite {outcome : Nat → Int} {c : Prop} [Decidable c] {i : Nat} :
    SucceedsFrom outcome (if c then 1 else 0) i ↔ (c → ∃ j, i ≤ j ∧ outcome j = 0) := by
  by_cases hc : c
  · rw [if_pos hc]
    constructor
    · rintro ⟨j, hj, hok, -⟩ -
      exact ⟨j, hj, hok⟩
    · intro hall
      obtain ⟨j, hj, hok⟩ := hall hc
      exact ⟨j, hj, hok, trivial⟩
  · rw [if_neg hc]
    exact ⟨fun _ hc' => absurd hc' hc, fun _ => trivial⟩

/-- The whole loop of a call. -/
theorem ends_readStart_iff (hs : Sized B h) (hL : 2 * L ≤ B) :
    Ends L (firstReadSize h L) (readStart h pcm L) ↔
      SucceedsFrom pcm.outcome (readsDue h pcm L) pcm.reads := by
  have hw := readStart_waiting h pcm L
  rw [readsDue]
  by_cases hb : firstReadSize h L = 0
  · -- enough is left over: the first round reads nothing
    have hb' : (readStart h pcm L).readBytes = 0 := hb
    have hsame : readDevice (readStart h pcm L) = readStart h pcm L := if_neg (not_not_intro hb)
    have hret : (readDevice (readStart h pcm L)).ret = 0 := by rw [hsame]; rfl
    rw [if_neg (mt (hs.firstReadSize_ne_zero_iff hL).mpr (not_not_intro hb)), Nat.zero_add,
      succeedsFrom_ite, hw.ends_early_iff hs hL hret rfl, fill_eq_self hb']
    exact Iff.rfl
  · rw [if_pos ((hs.firstReadSize_ne_zero_iff hL).mp hb), Nat.add_comm]
    have hprompt : ∀ st, Waiting h pcm L st → st.readBytes = firstReadSize h L →
        st.checkSkip = false → pcm.outcome st.pcm.reads = 0 →
        (Ends L (firstReadSize h L) st ↔
          (Refills h pcm L → ∃ j, st.pcm.reads + 1 ≤ j ∧ pcm.outcome j = 0)) := by
      intro st hw' hbytes hc hok
      rw [← hw'.outcome] at hok
      have hne : st.readBytes ≠ 0 := hbytes ▸ hb
      have hreads : (fill st).pcm.reads = st.pcm.reads + 1 := by
        show (readDevice st).pcm.reads = _
        rw [readDevice_eq hok hne]
        rfl
      rw [hw'.ends_early_iff hs hL (by rw [readDevice_ret_of_readBytes hne, hok]) hc, hreads]
    constructor
    · intro hend
      obtain ⟨j, hj, hok⟩ := hw.succeeds hb hend
      obtain ⟨st, hw', hbytes, hc, hreads, -, hok', hends⟩ :=
        hw.delayed (r := firstReadSize h L) hb hj hok
      refine ⟨st.pcm.reads, hreads, hok', succeedsFrom_ite.mpr ?_⟩
      exact (hprompt st hw' hbytes hc hok').mp (hends.mp hend)
    · rintro ⟨j, hj, hok, hrest⟩
      obtain ⟨st, hw', hbytes, hc, -, hle, hok', hends⟩ :=
        hw.delayed (r := firstReadSize h L) hb hj hok
      refine hends.mpr ((hprompt st hw' hbytes hc hok').mpr ?_)
      exact succeedsFrom_ite.mp (hrest.mono (by omega))

theorem parseTail_pcm (st : ReadState) : (parseTail L st).result.pcm = st.pcm := by
  rw [parseTail]
  dsimp only
  split
  · rfl
  · split <;> rfl

/-- A call that has come back has not failed last. -/
theorem Guarded.not_failedLast (hg : Guarded h len) {fuel : Nat}
    (hend : (speechArrayRead fuel h pcm len).status ≠ .running) :
    ¬ FailedLast pcm.outcome pcm.reads (speechArrayRead fuel h pcm len).pcm.reads := by
  rintro ⟨k, hk, hlt, hfail⟩
  have hlast : ∀ n, n + 1 = (speechArrayRead fuel h pcm len).pcm.reads → pcm.reads ≤ n →
      pcm.outcome n = 0 := by
    rcases speechArrayRead_account hg rfl pcm fuel with
      ⟨u, -, hcall⟩ | ⟨u, hu, hcall⟩ | ⟨u, hu, -, -, -, hcall⟩
    · rw [hcall] at hend
      exact absurd rfl hend
    · rw [hcall, parseTail_pcm]
      exact hu.lastRead
    · rw [hcall]
      exact hu.lastRead
  obtain ⟨n, hn⟩ : ∃ n, n + 1 = (speechArrayRead fuel h pcm len).pcm.reads :=
    ⟨(speechArrayRead fuel h pcm len).pcm.reads - 1, by omega⟩
  exact hfail n (by omega) (by omega) (hlast n hn (by omega))

/-- A call whose loop has ended returns exactly when there was something to decode. -/
theorem Sized.returned_iff (hs : Sized B h) (hg : Guarded h len) {fuel : Nat}
    (hend : (speechArrayRead fuel h pcm len).status ≠ .running) :
    (speechArrayRead fuel h pcm len).status = .returned ↔
      Decodable h pcm (clampLen h len) := by
  rcases speechArrayRead_account hg rfl pcm fuel with
    ⟨u, -, hcall⟩ | ⟨u, hu, hcall⟩ | ⟨u, hu, -, hlt, hpos, hcall⟩
  · rw [hcall] at hend
    exact absurd rfl hend
  · obtain ⟨henough, -⟩ := heldSize_spec pcm hs (hs.clampLen_spec hg.pos).2
    have hwindow : parseWindow (clampLen h len) u.availSize = 4 * clampLen h len := by
      rw [parseWindow_eq, hu.avail]
      omega
    rw [hcall]
    by_cases h12 : 12 ≤ clampLen h len
    · have hreturned := (parseTail_of_frame (show 48 ≤ parseWindow (clampLen h len) u.availSize
        by omega)).1
      exact ⟨fun _ => ⟨h12, hu.skip⟩, fun _ => hreturned⟩
    · rw [parseTail_of_short (show parseWindow (clampLen h len) u.availSize < 48 by omega)]
      exact ⟨fun hreturned => Status.noConfusion hreturned, fun hd => absurd hd.1 h12⟩
  · -- the shift has a negative length
    rw [hcall]
    refine ⟨fun hreturned => Status.noConfusion hreturned, fun hd => ?_⟩
    have hskip := hd.2
    omega

end Calls

/-- **A failing device.** In every state that calls of any lengths reach on any device, an
admitted call comes back, and reports a failure with what was held unchanged, if and only if
the device succeeds from now on as often as the call has reads to make, the clamped request is
an output frame or more, and what is dropped of the first fill lies in it. -/
theorem speechArrayRead_failsIntact_iff (config : SpeechArray) (bufferSize : Nat)
    (heap captured : Nat → Word) (outcome : Nat → Int) (fuel : Nat) (lens : List Int) (len : Int)
    (s : Session)
    (hrun : Machine.run (Session.step fuel)
      (Session.fresh config bufferSize heap captured outcome) lens = some s)
    (hlen : Guarded s.handle len) :
    FailsIntact s.handle s.pcm len ↔
      SucceedsFrom s.pcm.outcome (readsDue s.handle s.pcm (clampLen s.handle len))
        s.pcm.reads ∧ Decodable s.handle s.pcm (clampLen s.handle len) := by
  obtain ⟨hs, -⟩ := Session.run_sized (speechArrayOpen_sized config bufferSize heap) hrun
  rw [← ends_readStart_iff hs (hs.clampLen_spec hlen.pos).2]
  have hcall : ∀ n, readLoop (clampLen s.handle len) (firstReadSize s.handle
      (clampLen s.handle len)) n (readStart s.handle s.pcm (clampLen s.handle len))
        = speechArrayRead n s.handle s.pcm len :=
    fun n => (speechArrayRead_of_guarded hlen).symm
  constructor
  · rintro ⟨⟨n, hreturned⟩, -⟩
    have hend : (speechArrayRead n s.handle s.pcm len).status ≠ .running := by
      rw [hreturned]
      exact Status.noConfusion
    exact ⟨⟨n, by rwa [hcall]⟩, (hs.returned_iff hlen hend).mp hreturned⟩
  · rintro ⟨⟨n, hend⟩, hdecodable⟩
    rw [hcall] at hend
    exact ⟨⟨n, (hs.returned_iff hlen hend).mpr hdecodable⟩,
      fun m hm hfail => absurd hfail (hlen.not_failedLast hm)⟩

/-- A device that fails for ever: the first call does not come back. -/
theorem speechArrayRead_retries_forever :
    Guarded (speechArrayOpen ⟨6, PCM_FORMAT_S16_LE⟩ 6 fun _ => 0) 12 ∧
    (∀ fuel, (speechArrayRead fuel (speechArrayOpen ⟨6, PCM_FORMAT_S16_LE⟩ 6 fun _ => 0)
      ⟨numbered, fun _ => -1, 0, 0⟩ 12).status = .running) ∧
    ¬ FailsIntact (speechArrayOpen ⟨6, PCM_FORMAT_S16_LE⟩ 6 fun _ => 0)
      ⟨numbered, fun _ => -1, 0, 0⟩ 12 := by
  have hg : Guarded (speechArrayOpen ⟨6, PCM_FORMAT_S16_LE⟩ 6 fun _ => 0) 12 :=
    ⟨by decide, by decide, by decide⟩
  have hforever : ∀ fuel, (speechArrayRead fuel (speechArrayOpen ⟨6, PCM_FORMAT_S16_LE⟩ 6
      fun _ => 0) ⟨numbered, fun _ => -1, 0, 0⟩ 12).status = .running := by
    intro fuel
    by_contra hend
    rw [speechArrayRead_of_guarded hg] at hend
    obtain ⟨j, -, hok⟩ := (readStart_waiting _ _ _).succeeds (by decide) ⟨fuel, hend⟩
    exact absurd hok (show (-1 : Int) ≠ 0 by decide)
  refine ⟨hg, hforever, fun hfails => ?_⟩
  obtain ⟨fuel, hreturned⟩ := hfails.finishes
  rw [hforever fuel] at hreturned
  exact Status.noConfusion hreturned

/-- Two failures, then a success: the first call comes back. -/
theorem speechArrayRead_failsIntact_iff_twice :
    FailsIntact (speechArrayOpen ⟨6, PCM_FORMAT_S16_LE⟩ 6 fun _ => 0)
      ⟨numbered, fun k => if k < 2 then -1 else 0, 0, 0⟩ 12 ↔
    SucceedsFrom (fun k => if k < 2 then -1 else 0)
      (readsDue (speechArrayOpen ⟨6, PCM_FORMAT_S16_LE⟩ 6 fun _ => 0)
        ⟨numbered, fun k => if k < 2 then -1 else 0, 0, 0⟩
        (clampLen (speechArrayOpen ⟨6, PCM_FORMAT_S16_LE⟩ 6 fun _ => 0) 12)) 0 ∧
    Decodable (speechArrayOpen ⟨6, PCM_FORMAT_S16_LE⟩ 6 fun _ => 0)
      ⟨numbered, fun k => if k < 2 then -1 else 0, 0, 0⟩
      (clampLen (speechArrayOpen ⟨6, PCM_FORMAT_S16_LE⟩ 6 fun _ => 0) 12) :=
  speechArrayRead_failsIntact_iff ⟨6, PCM_FORMAT_S16_LE⟩ 6 (fun _ => 0) numbered
    (fun k => if k < 2 then -1 else 0) 2 [] 12
    (Session.fresh ⟨6, PCM_FORMAT_S16_LE⟩ 6 (fun _ => 0) numbered
      fun k => if k < 2 then -1 else 0) rfl ⟨by decide, by decide, by decide⟩

end SpeechStack
