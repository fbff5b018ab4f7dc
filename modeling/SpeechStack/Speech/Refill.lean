import SpeechStack.Speech.Bounds
import SpeechStack.Speech.Split

set_option autoImplicit false

/-! # Where the refill goes

A call keeps two accounts of what it holds: the byte count `avail_size`, and the pointer
`data` behind which the device writes. They agree at the first fill. The refill moves the
pointer on by all that was held before the skip, the leftovers of earlier calls included, so
the two agree there only when nothing was left over. `RefillClear` says when every read of a
call lands at the end of what is held; then the buffer holds consecutive captured words at
all times (`speechArrayRead_contiguous`), also when the device fails now and then.
-/

namespace SpeechStack

open Memory

/-- A `pcm_read` that stores right behind the bytes that are held. -/
def Event.Contiguous : Event → Prop
  | .pcmRead data _ availSize => data = availSize
  | .memcpy _ _ _ => True

instance : DecidablePred Event.Contiguous
  | .pcmRead data _ availSize => inferInstanceAs (Decidable (data = availSize))
  | .memcpy _ _ _ => inferInstanceAs (Decidable True)

/-! ## The states of a call -/

/-- The state that the skip check of a round leaves behind. -/
def skipped (len readSize : Int) (st : ReadState) : ReadState :=
  let skip := skipData st.handle.buffer st.availSize
  if st.checkSkip = false ∧ 0 < skip ∧ skip ≤ st.availSize then dropSkipped len readSize skip st
  else st

/-- The states that the do-while loop passes through before it decodes: at the head of each
round, after each read that succeeds, and after the skip. -/
def loopStates (len readSize : Int) : Nat → ReadState → List ReadState
  | 0, _ => []
  | fuel + 1, st =>
      if (readDevice st).ret ≠ 0 then st :: loopStates len readSize fuel (readDevice st)
      else
        match skipRound len readSize (fill st) with
        | .again st' => st :: fill st :: loopStates len readSize fuel st'
        | _ => [st, fill st, skipped len readSize (fill st)]

/-- The states of a call that passes the guard. -/
def callStates (fuel : Nat) (h : SpeechArrayHandle) (pcm : Pcm) (len : Int) : List ReadState :=
  if len ≤ 0 ∨ h.outAlign = 0 ∨ len % h.outAlign ≠ 0 then []
  else
    loopStates (clampLen h len) (firstReadSize h (clampLen h len)) fuel
      (readStart h pcm (clampLen h len))

/-- What is held are consecutive words of the stream `w`, the last one that the device has
delivered included. -/
def HoldsStretch (w : Nat → Word) (st : ReadState) : Prop := ∃ p n, Window w p n st

/-- Every read of the call lands at the end of what is held, and at all times the buffer holds
consecutive captured words. -/
structure CallContiguous (w : Nat → Word) (fuel : Nat) (h : SpeechArrayHandle) (pcm : Pcm)
    (len : Int) : Prop where
  reads : ∀ e ∈ (speechArrayRead fuel h pcm len).events, e.Contiguous
  held : ∀ st ∈ callStates fuel h pcm len, HoldsStretch w st

/-- By the state before a call for `len` bytes (after the clamp): when it discards a prefix
and what is left does not meet the request, nothing had been left over, and the refill is not
cut by the clamp after an odd number of words was discarded. -/
def RefillClear (B : Int) (h : SpeechArrayHandle) (pcm : Pcm) (len : Int) : Prop :=
  ∀ d r k, d = h.dataSize → r = firstReadSize h len → k = firstSkip h pcm len →
    0 < k → k ≤ d + r → d + r - k < 4 * len →
    d = 0 ∧ ¬ (2 * B < d + r - k + r ∧ k % 8 = 4)

instance (B : Int) (h : SpeechArrayHandle) (pcm : Pcm) (len : Int) :
    Decidable (RefillClear B h pcm len) :=
  decidable_of_iff (0 < firstSkip h pcm len → firstSkip h pcm len ≤ h.dataSize + firstReadSize h len →
      h.dataSize + firstReadSize h len - firstSkip h pcm len < 4 * len →
      h.dataSize = 0 ∧ ¬ (2 * B < h.dataSize + firstReadSize h len - firstSkip h pcm len
        + firstReadSize h len ∧ firstSkip h pcm len % 8 = 4))
    ⟨fun hc => by rintro d r k rfl rfl rfl; exact hc, fun hc => hc _ _ _ rfl rfl rfl⟩

/-- The three ways out of a round whose read succeeded. -/
theorem skipRound_cases (len readSize : Int) (st : ReadState) :
    skipRound len readSize st = parseTail len (skipped len readSize st) ∨
    (skipRound len readSize st = .again (skipped len readSize st) ∧
      (skipped len readSize st).readBytes ≠ 0 ∧ st.checkSkip = false ∧
      0 < skipData st.handle.buffer st.availSize ∧
      skipData st.handle.buffer st.availSize ≤ st.availSize) ∨
    (∃ dst src size, skipRound len readSize st
        = .fault { st with events := st.events ++ [.memcpy dst src size] }) ∧
      skipped len readSize st = st := by
  set skip := skipData st.handle.buffer st.availSize with hskip
  by_cases hdrop : st.checkSkip = false ∧ 0 < skip ∧ skip ≤ st.availSize
  · obtain ⟨hc, hs, hle⟩ := hdrop
    -- the prefix is dropped, and a refill may follow
    have hleft : skipped len readSize st = dropSkipped len readSize skip st :=
      if_pos ⟨hc, hs, hle⟩
    rw [hleft, skipRound_dropped hc hs hle, ← hskip]
    by_cases hb : (dropSkipped len readSize skip st).readBytes = 0
    · rw [if_neg (not_not_intro hb)]
      exact Or.inl rfl
    · rw [if_pos hb]
      exact Or.inr (Or.inl ⟨rfl, hb, hc, hs, hle⟩)
  · have hleft : skipped len readSize st = st := if_neg hdrop
    rw [hleft]
    by_cases hkeep : st.checkSkip = false → skip ≤ 0
    · exact Or.inl (skipRound_kept hkeep)
    · -- more is to be dropped than there is
      rw [Classical.not_imp, not_le] at hkeep
      obtain ⟨hc, hs⟩ := hkeep
      have hlt : ¬ skip ≤ st.availSize := fun hle => hdrop ⟨hc, hs, hle⟩
      exact Or.inr (Or.inr ⟨⟨_, _, _, skipRound_overSkipped hc hs (not_le.mp hlt)⟩, rfl⟩)

/-! ## The rounds -/

section Rounds

variable {B L r : Int} {w : Nat → Word} {h : SpeechArrayHandle} {pcm : Pcm} {st : ReadState}

/-- At the head of a round of a call that was entered with `h` and `pcm`. -/
structure Fetching (w : Nat → Word) (h : SpeechArrayHandle) (pcm : Pcm) (r : Int)
    (st : ReadState) : Prop where
  events : ∀ e ∈ st.events, e.Contiguous
  target : st.data = st.availSize
  count : 0 ≤ st.readBytes ∧ st.readBytes % 8 = 0
  held : HoldsStretch w st
  setup : SameSetup h st.handle
  /-- before the skip check nothing has changed but the device's counter of calls -/
  early : st.checkSkip = false → st.handle = h ∧ st.pcm.captured = pcm.captured ∧
    st.pcm.pos = pcm.pos ∧ st.availSize = h.dataSize ∧ st.readBytes = r

/-- After the read of a round has succeeded. -/
structure Fetched (w : Nat → Word) (h : SpeechArrayHandle) (pcm : Pcm) (L r : Int)
    (st : ReadState) : Prop where
  events : ∀ e ∈ st.events, e.Contiguous
  held : HoldsStretch w st
  setup : SameSetup h st.handle
  /-- before the skip check the buffer is what the first fill has made of it -/
  early : st.checkSkip = false → st.handle.buffer = firstFill h pcm L ∧
    st.data = h.dataSize ∧ st.availSize = h.dataSize + r

/-- A read that fails leaves everything in place for the next round. -/
theorem Fetching.retry (hf : Fetching w h pcm r st) (hret : (readDevice st).ret ≠ 0) :
    Fetching w h pcm r (readDevice st) := by
  by_cases hb : st.readBytes = 0
  · have hsame : readDevice st = st := if_neg (not_not_intro hb)
    rwa [hsame]
  · rw [readDevice_ret_of_readBytes hb] at hret
    obtain ⟨p, n, hw⟩ := hf.held
    rw [readDevice_failed hb hret]
    refine ⟨?_, hf.target, hf.count, ⟨p, n, hw.captured, hw.pos, hw.size, hw.holds⟩, hf.setup,
      hf.early⟩
    rw [List.forall_mem_append, List.forall_mem_singleton]
    exact ⟨hf.events, hf.target⟩

/-- A read that succeeds extends the stretch that is held. -/
theorem Fetching.fetch (hf : Fetching w h pcm r st) (hr : r = firstReadSize h L)
    (hret : (readDevice st).ret = 0) : Fetched w h pcm L r (fill st) := by
  obtain ⟨hnonneg, h8⟩ := hf.count
  obtain ⟨p, n, hw⟩ := hf.held
  by_cases hb : st.readBytes = 0
  · rw [fill_eq_self hb]
    refine ⟨hf.events, ⟨p, n, hw⟩, hf.setup, fun hchk => ?_⟩
    obtain ⟨hh, -, -, havail, hrb⟩ := hf.early hchk
    refine ⟨?_, hf.target.trans havail, by omega⟩
    funext i
    rw [hh, firstFill, ← hr, ← hrb, hb, store_outside _ _ (by rw [pcmWords_eq]; omega)]
  · -- the read leaves its outcome in `ret`
    have hok : st.pcm.outcome st.pcm.reads = 0 := (readDevice_ret_of_readBytes hb).symm.trans hret
    refine ⟨?_, ⟨p, _, hw.fill hok (hf.target.trans hw.size)
      (k := (st.readBytes / 4).toNat) (by omega) h8⟩,
      hf.setup.trans (fill_sameSetup st), fun hchk => ?_⟩
    · rw [fill_events hok, if_pos hb, List.forall_mem_append, List.forall_mem_singleton]
      exact ⟨hf.events, hf.target⟩
    · rw [fill_checkSkip] at hchk
      obtain ⟨hh, hcap, hpos, havail, hrb⟩ := hf.early hchk
      rw [fill_buffer hok, fill_data, fill_availSize hok, hf.target, havail, hrb]
      refine ⟨?_, rfl, rfl⟩
      rw [hh, hcap, hpos, firstFill, hr]

/-- The skip leaves a stretch that is held. -/
theorem Fetched.skipped (hf : Fetched w h pcm L r st) :
    HoldsStretch w (skipped L r st) ∧ SameSetup h (skipped L r st).handle ∧
      ∀ e ∈ (skipped L r st).events, e.Contiguous := by
  rw [SpeechStack.skipped]
  split
  · rename_i hc
    obtain ⟨-, hs, hle⟩ := hc
    obtain ⟨p, n, hw⟩ := hf.held
    have hs₄ := skipData_dvd _ _ hs
    have hsize := hw.size
    obtain ⟨s, hsk⟩ : ∃ s : Nat, skipData st.handle.buffer st.availSize = 4 * (s : Int) :=
      ⟨(skipData st.handle.buffer st.availSize / 4).toNat, by omega⟩
    rw [hsk]
    refine ⟨⟨_, _, hw.dropSkipped (by omega) L r⟩, hf.setup.trans ⟨rfl, rfl, rfl, rfl⟩, ?_⟩
    show ∀ e ∈ st.events ++ [Event.memcpy _ _ _], e.Contiguous
    rw [List.forall_mem_append, List.forall_mem_singleton]
    exact ⟨hf.events, trivial⟩
  · exact ⟨hf.held, hf.setup, hf.events⟩

/-- A refill that is clear is a read like the first one. -/
theorem Fetched.again (hf : Fetched w h pcm L r st) (hs : Sized B h) (hL : 2 * L ≤ B)
    (hr : r = firstReadSize h L) (hr8 : r % 8 = 0) (hclear : RefillClear B h pcm L)
    (hb : (SpeechStack.skipped L r st).readBytes ≠ 0) (hchk : st.checkSkip = false)
    (hpos : 0 < skipData st.handle.buffer st.availSize)
    (hle : skipData st.handle.buffer st.availSize ≤ st.availSize) :
    Fetching w h pcm r (SpeechStack.skipped L r st) := by
  obtain ⟨hheld, hsetup, hevents⟩ := hf.skipped
  obtain ⟨hbuf, hdata, havail⟩ := hf.early hchk
  have hk : skipData st.handle.buffer st.availSize = firstSkip h pcm L := by
    rw [hbuf, havail, firstSkip, ← hr]
  have hdrop : SpeechStack.skipped L r st
      = dropSkipped L r (skipData st.handle.buffer st.availSize) st := if_pos ⟨hchk, hpos, hle⟩
  have hs₄ := skipData_dvd _ _ hpos
  rw [hk] at hdrop hpos hle hs₄
  set k := firstSkip h pcm L with hkdef
  have hd₄ := hs.dataWords
  -- there is a refill, so the request is not met
  have hrb : (SpeechStack.skipped L r st).readBytes
      = refillSize h L r (h.dataSize + r - k) k := by
    calc (SpeechStack.skipped L r st).readBytes
        = refillSize st.handle L r (st.availSize - k) k := by rw [hdrop]; rfl
      _ = refillSize h L r (st.availSize - k) k := refillSize_congr hf.setup L r _ k
      _ = refillSize h L r (h.dataSize + r - k) k := by rw [havail]
  have hshort : h.dataSize + r - k < 4 * L := by
    by_contra hge
    exact hb (hrb.trans (refillSize_of_le (by omega)))
  -- so the call is clear only if nothing was left over
  obtain ⟨hd₀, hodd⟩ := hclear _ _ _ rfl hr hkdef hpos (havail ▸ hle) hshort
  have hcount : 0 ≤ refillSize h L r (h.dataSize + r - k) k ∧
      refillSize h L r (h.dataSize + r - k) k % 8 = 0 := by
    have hwords := hs.words
    simp only [refillSize, HW_OUT_DATA_RATIO, HW_BUFFER_COUNT, hs.hwAlign, hs.buffSize]
    rw [if_neg (by omega)]
    split
    · omega
    · split <;> omega
  refine ⟨hevents, ?_, by rwa [hrb], hheld, hsetup, fun hfalse => ?_⟩
  · rw [hdrop]
    -- `data` was 0, so what it advances by is what is held
    show st.data + st.availSize - k = st.availSize - k
    omega
  · rw [hdrop] at hfalse
    exact Bool.noConfusion hfalse

/-- All rounds of the loop, and the state that it decodes from. -/
theorem Fetching.loop (hs : Sized B h) (hL : 2 * L ≤ B) (hr : r = firstReadSize h L)
    (hr8 : r % 8 = 0) (hclear : RefillClear B h pcm L) (fuel : Nat)
    (hf : Fetching w h pcm r st) :
    (∀ e ∈ (readLoop L r fuel st).events, e.Contiguous) ∧
    (∀ u ∈ loopStates L r fuel st, HoldsStretch w u) ∧
    ((readLoop L r fuel st).status = .returned →
      ∃ u, readLoop L r fuel st = (parseTail L u).result ∧ HoldsStretch w u ∧
        SameSetup h u.handle) := by
  induction fuel generalizing st with
  | zero => exact ⟨hf.events, fun u hu => absurd hu List.not_mem_nil, Status.noConfusion⟩
  | succ fuel ih =>
      by_cases hret : (readDevice st).ret = 0
      swap
      · -- the device has failed: the next round tries again
        obtain ⟨h₁, h₂, h₃⟩ := ih (hf.retry hret)
        rw [readLoop, readRound_of_failed hret, loopStates, if_pos hret]
        exact ⟨h₁, List.forall_mem_cons.mpr ⟨hf.held, h₂⟩, h₃⟩
      · have hround : readRound L r st = skipRound L r (fill st) := readRound_of_read hret
        have hfetched := hf.fetch hr hret
        obtain ⟨hheld, hsetup, hevents⟩ := hfetched.skipped
        have hstates : ∀ u ∈ [st, fill st, SpeechStack.skipped L r (fill st)],
            HoldsStretch w u := by
          intro u hu
          simp only [List.mem_cons, List.not_mem_nil, or_false] at hu
          rcases hu with rfl | rfl | rfl
          · exact hf.held
          · exact hfetched.held
          · exact hheld
        rw [loopStates, if_neg (not_not_intro hret)]
        -- the read has succeeded: what the skip check makes of the round
        rcases skipRound_cases L r (fill st) with hparse | ⟨hagain, hb, hchk, hpos, hle⟩ |
          ⟨⟨dst, src, size, hfault⟩, -⟩
        · -- the last round: it decodes
          rw [hparse] at hround ⊢
          rw [readLoop_of_parseTail fuel hround]
          refine ⟨(parseTail_events (fun _ _ _ => trivial) _ _).mpr hevents, ?_,
            fun _ => ⟨_, rfl, hheld, hsetup⟩⟩
          cases hp : parseTail L (SpeechStack.skipped L r (fill st)) with
          | again st' => exact absurd hp (parseTail_ne_again _ _ _)
          | done st' buff => exact hstates
          | fault st' => exact hstates
        · -- the refill is a round of its own
          obtain ⟨h₁, h₂, h₃⟩ :=
            ih (hfetched.again hs hL hr hr8 hclear hb hchk hpos hle)
          rw [readLoop, hround, hagain]
          refine ⟨h₁, ?_, h₃⟩
          rw [List.forall_mem_cons, List.forall_mem_cons]
          exact ⟨hf.held, hfetched.held, h₂⟩
        · -- a copy of negative length ends the call
          rw [readLoop, hround, hfault]
          refine ⟨?_, hstates, Status.noConfusion⟩
          show ∀ e ∈ (fill st).events ++ [Event.memcpy dst src size], e.Contiguous
          rw [List.forall_mem_append, List.forall_mem_singleton]
          exact ⟨hfetched.events, trivial⟩

end Rounds

/-! ## Calls -/

theorem Sized.of_front {B : Int} {w : Nat → Word} {p n : Nat} {h h' : SpeechArrayHandle}
    {pcm : Pcm} (hs : Sized B h) (hset : SameSetup h h') (hf : Front w p n h' pcm) :
    Sized B h' where
  buffSize := hset.buffSize.trans hs.buffSize
  hwAlign := hset.hwAlign.trans hs.hwAlign
  ratio := hset.ratio.trans hs.ratio
  nonneg := hs.nonneg
  words := hs.words
  dataNonneg := by
    rw [hf.size]
    omega
  dataWords := by
    rw [hf.size]
    omega

/-- What a call that decodes a stretch keeps is the rest of it. -/
theorem HoldsStretch.parseTail_front {w : Nat → Word} {L : Int} {st : ReadState}
    (hheld : HoldsStretch w st) (hL : 0 ≤ L)
    (hret : (parseTail L st).result.status = .returned) :
    ∃ p n, Front w p n (parseTail L st).result.handle (parseTail L st).result.pcm ∧
      SameSetup st.handle (parseTail L st).result.handle := by
  obtain ⟨p, n, hw⟩ := hheld
  by_cases h12 : 12 ≤ min L.toNat n
  · obtain ⟨st', hparse, -, hfront, hsetup, -⟩ := parseTail_spec hw (by omega) rfl h12
    rw [hparse]
    exact ⟨_, _, hfront, hsetup⟩
  · -- less than a frame: the call does not return
    have hsize := hw.size
    have hshort : parseWindow L st.availSize < 48 := by
      rw [parseWindow_eq]
      omega
    rw [parseTail_of_short hshort] at hret
    exact Status.noConfusion hret

/-- A clear call on a handle that holds a stretch of the stream. -/
theorem Front.call {B : Int} {w : Nat → Word} {p n : Nat} {h : SpeechArrayHandle} {pcm : Pcm}
    (hf : Front w p n h pcm) (hs : Sized B h) (fuel : Nat) (len : Int)
    (hclear : RefillClear B h pcm (clampLen h len)) :
    CallContiguous w fuel h pcm len ∧
    ((speechArrayRead fuel h pcm len).status = .returned →
      ∃ p n, Front w p n (speechArrayRead fuel h pcm len).handle
          (speechArrayRead fuel h pcm len).pcm ∧
        SameSetup h (speechArrayRead fuel h pcm len).handle) := by
  have hrejected : ∀ status buff, ∃ p n,
      Front w p n (({ readStart h pcm len with ret := -1 } : ReadState).result status buff).handle
        (({ readStart h pcm len with ret := -1 } : ReadState).result status buff).pcm ∧
      SameSetup h (({ readStart h pcm len with ret := -1 } : ReadState).result status buff).handle :=
    fun _ _ => ⟨p, n, hf, rfl, rfl, rfl, rfl⟩
  by_cases hg : Guarded h len
  swap
  · -- a rejected call does nothing
    obtain ⟨status, hcall⟩ := speechArrayRead_of_not_guarded hg pcm fuel
    refine ⟨⟨?_, ?_⟩, fun _ => hcall ▸ hrejected status []⟩
    · rw [hcall]
      exact fun e he => absurd he List.not_mem_nil
    · rw [callStates, if_pos (not_guarded_iff.mp hg)]
      exact fun e he => absurd he List.not_mem_nil
  · have hcall : speechArrayRead fuel h pcm len = readLoop (clampLen h len)
        (firstReadSize h (clampLen h len)) fuel (readStart h pcm (clampLen h len)) :=
      speechArrayRead_of_guarded hg
    have hpos := hg.pos
    have hclamp : clampLen h len = min len (B / 2) := hs.clampLen_eq
    have hB := hs.nonneg
    set L := clampLen h len with hL
    -- the first read is of whole hardware frames
    obtain ⟨hr₁, hr₂⟩ := firstReadSize_cases hs L
    have hr8 : 0 ≤ firstReadSize h L ∧ firstReadSize h L % 8 = 0 := by
      by_cases hd : h.dataSize ≤ 4 * L
      · obtain ⟨h8, hcase⟩ := hr₂ hd
        omega
      · rw [hr₁ (by omega)]
        omega
    have hstart : Fetching w h pcm (firstReadSize h L) (readStart h pcm L) :=
      ⟨fun e he => absurd he List.not_mem_nil, rfl, hr8, ⟨p, n, hf.start L⟩,
        ⟨rfl, rfl, rfl, rfl⟩, fun _ => ⟨rfl, rfl, rfl, rfl, rfl⟩⟩
    obtain ⟨hevents, hstates, hdecode⟩ := hstart.loop hs (by omega) rfl hr8.2 hclear fuel
    rw [hcall]
    refine ⟨⟨by rwa [hcall], ?_⟩, fun hret => ?_⟩
    · rw [callStates, if_neg fun hno => not_guarded_iff.mpr hno hg]
      exact hstates
    · obtain ⟨u, hu, hheld, hsetup⟩ := hdecode hret
      rw [hu] at hret ⊢
      obtain ⟨p', n', hfront, hsetup'⟩ := hheld.parseTail_front (by omega) hret
      exact ⟨p', n', hfront, hsetup.trans hsetup'⟩

/-- **Refill contiguity.** From `speechArrayOpen` on, on any stream and a device that may fail
at any time: when all calls of a run are clear, whatever their lengths, every read of every
call lands at the end of what is held, the buffer holds consecutive captured words at all
times, and so do the leftovers between the calls. -/
theorem speechArrayRead_contiguous (config : SpeechArray) (bufferSize : Nat)
    (heap captured : Nat → Word) (outcome : Nat → Int) (fuel : Nat) (lens : List Int) (len : Int)
    (s : Session)
    (hrun : Machine.run (Session.step fuel)
      (Session.fresh config bufferSize heap captured outcome) lens = some s)
    (hclear : Machine.Meets (Session.step fuel)
      (fun s len => RefillClear (pcmFramesToBytes bufferSize) s.handle s.pcm
        (clampLen s.handle len))
      (Session.fresh config bufferSize heap captured outcome) (lens ++ [len])) :
    CallContiguous captured fuel s.handle s.pcm len ∧
      ∃ p n, Front captured p n s.handle s.pcm := by
  obtain ⟨hbefore, hlast⟩ := Machine.meets_append hclear hrun
  -- between the calls: the sizes of the handle, and a stretch that it holds
  have hinv : Sized (pcmFramesToBytes bufferSize) s.handle ∧
      ∃ p n, Front captured p n s.handle s.pcm := by
    refine Machine.run_invariant_of_meets (fun s => Sized (pcmFramesToBytes bufferSize) s.handle ∧
      ∃ p n, Front captured p n s.handle s.pcm) ?_ ?_ hbefore hrun
    · rintro u l t ⟨hs, p, n, hf⟩ hC hstep
      obtain ⟨hret, rfl⟩ := Session.step_eq_some.mp hstep
      obtain ⟨p', n', hfront, hset⟩ := (hf.call hs fuel l hC).2 hret
      exact ⟨hs.of_front hset hfront, p', n', hfront⟩
    · exact ⟨speechArrayOpen_sized config bufferSize heap, 0, 0, rfl, rfl, rfl,
        holds_zero _ _ _ _⟩
  obtain ⟨hs, p, n, hf⟩ := hinv
  exact ⟨(hf.call hs fuel len hlast.1).1, p, n, hf⟩

/-- Twelve junk words in front and a device whose second read fails: the first call refills
behind what it has kept of the first fill, and the second one finds frames only. -/
theorem speechArrayRead_contiguous_delayed :
    ∃ s, Machine.run (Session.step 4)
        (Session.fresh ⟨6, PCM_FORMAT_S16_LE⟩ 6 (fun _ => 0) (fun i => if i < 12 then 0 else
          numbered i) fun k => if k = 1 then -1 else 0) [24] = some s ∧
      CallContiguous (fun i => if i < 12 then 0 else numbered i) 4 s.handle s.pcm 12 ∧
      ∃ p n, Front (fun i => if i < 12 then 0 else numbered i) p n s.handle s.pcm := by
  have hrun : (Machine.run (Session.step 4)
      (Session.fresh ⟨6, PCM_FORMAT_S16_LE⟩ 6 (fun _ => 0) (fun i => if i < 12 then 0 else
        numbered i) fun k => if k = 1 then -1 else 0) [24]).isSome := by decide
  obtain ⟨s, hs⟩ := Option.isSome_iff_exists.mp hrun
  exact ⟨s, hs, speechArrayRead_contiguous ⟨6, PCM_FORMAT_S16_LE⟩ 6 (fun _ => 0) _ _ 4 [24] 12 s
    hs (by decide)⟩

/-- Two silent frames behind an audible one, `B = 96`: the first call leaves the first silent
frame over; the second one discards both, holds 48 bytes, and has the device write behind
byte 96. -/
theorem speechArrayRead_refill_gap :
    ∃ s, Machine.run (Session.step 2)
        (Session.fresh ⟨6, PCM_FORMAT_S16_LE⟩ 12 (fun _ => 0) (paused 1 (paused 2 numbered))
          fun _ => 0) [12] = some s ∧
      Accepted s.handle 24 ∧
      .pcmRead 96 104 48 ∈ (speechArrayRead 2 s.handle s.pcm 24).events ∧
      ¬ CallContiguous (paused 1 (paused 2 numbered)) 2 s.handle s.pcm 24 := by
  have hrun : ((Machine.run (Session.step 2)
      (Session.fresh ⟨6, PCM_FORMAT_S16_LE⟩ 12 (fun _ => 0) (paused 1 (paused 2 numbered))
        fun _ => 0) [12]).any fun s => decide (Accepted s.handle 24) &&
          decide (.pcmRead 96 104 48 ∈ (speechArrayRead 2 s.handle s.pcm 24).events)) = true := by
    decide
  obtain ⟨s, hs, hall⟩ := Option.any_eq_true _ _ |>.mp hrun
  rw [Bool.and_eq_true, decide_eq_true_eq, decide_eq_true_eq] at hall
  refine ⟨s, hs, hall.1, hall.2, fun hc => ?_⟩
  have hcontig := hc.reads _ hall.2
  change (96 : Int) = 48 at hcontig
  omega

end SpeechStack
