import SpeechStack.Speech.Clean

set_option autoImplicit false

/-! # `SpeechArrayRead1`

The reader that `SpeechArrayRead` replaces. It asks the device for what the request lacks and
no more, decodes all that it holds, and keeps what the decoder has not used; the loop, the
skip check and the refill are as in the newer reader, without its lower bound and clamp. On a
clean stream the two are the same to their callers (`speechArrayRead1_agrees`).
-/

namespace SpeechStack

open Memory

/-- `read_size`: the missing bytes, rounded up to hardware frames with the remainder of C. -/
def readSize1 (h : SpeechArrayHandle) (len : Int) : Int :=
  let readSize := len * h.ratio - h.dataSize
  if readSize.tmod h.hwAlign ≠ 0 then
    readSize + h.hwAlign - (readSize + h.hwAlign).tmod h.hwAlign
  else readSize

/-- The `pcm_read` at the head of a round, also when there is nothing to read. -/
def readDevice1 (st : ReadState) : ReadState :=
  let r := pcmRead st.pcm st.handle st.data st.readBytes
  { st with
    ret := r.1, pcm := r.2.1, handle := r.2.2
    events := st.events ++ [.pcmRead st.data st.readBytes st.availSize] }

/-- Shift the bytes behind the first `skip` ones to the front and size the refill. -/
def dropSkipped1 (skip : Int) (st : ReadState) : ReadState :=
  let availSize := st.availSize - skip
  let buffer := memmove st.handle.buffer 0 (skip / 4).toNat (availSize / 4).toNat
  { st with
    handle := { st.handle with buffer := buffer }
    events := st.events ++ [.memcpy 0 skip availSize]
    data := st.data + st.availSize - skip
    availSize := availSize
    readBytes := skip - skip % st.handle.hwAlign + st.handle.hwAlign
    checkSkip := true }

/-- Decode everything, copy to the caller, and keep what the decoder has not used. -/
def parseTail1 (st : ReadState) : Round :=
  let r := parseDataInt32 st.handle.buffer st.availSize
  let h := { st.handle with buffer := r.1 }
  if r.2 < 0 then .fault { st with handle := h, ret := r.2 }
  else
    let buff := load h.buffer 0 (r.2 / 4).toNat
    let used := r.2 * HW_OUT_DATA_RATIO
    let dataSize := st.availSize - used
    let h := { h with dataSize := dataSize }
    if dataSize ≠ 0 then
      let buffer := memmove h.buffer 0 (used / 4).toNat (dataSize / 4).toNat
      let buffer := memset buffer (dataSize / 4).toNat (used / 4).toNat 0
      .done { st with
        handle := { h with buffer := buffer }, ret := r.2
        events := st.events ++ [.memcpy 0 used dataSize] } buff
    else .done { st with handle := h, ret := r.2 } buff

/-- The rest of a round after a read that succeeded. -/
def skipRound1 (st : ReadState) : Round :=
  if st.checkSkip then parseTail1 st
  else
    let skip := skipData st.handle.buffer st.availSize
    if skip > 0 then
      -- a negative length of the shift is a huge `size_t`
      if st.availSize - skip < 0 then
        .fault { st with events := st.events ++ [.memcpy 0 skip (st.availSize - skip)] }
      else
        let st := dropSkipped1 skip st
        if st.readBytes ≠ 0 then .again st else parseTail1 st
    else parseTail1 st

/-- One round of the do-while loop. -/
def readRound1 (st : ReadState) : Round :=
  -- a negative count is a huge `unsigned int`
  if st.readBytes < 0 then .fault st
  else
    let st := readDevice1 st
    if st.ret ≠ 0 then .again st
    else skipRound1 { st with availSize := st.availSize + st.readBytes }

/-- The do-while loop, for at most `fuel` rounds. -/
def readLoop1 : Nat → ReadState → ReadResult
  | 0, st => st.result .running []
  | fuel + 1, st =>
      match readRound1 st with
      | .again st' => readLoop1 fuel st'
      | .done st' buff => st'.result .returned buff
      | .fault st' => st'.result .fault []

/-- The locals at the head of the loop. -/
def readStart1 (h : SpeechArrayHandle) (pcm : Pcm) (len : Int) : ReadState :=
  { readStart h pcm len with readBytes := readSize1 h len }

/-- `SpeechArrayRead1(handle, buff, len)` with `handle` and `buff` not null. -/
def speechArrayRead1 (fuel : Nat) (h : SpeechArrayHandle) (pcm : Pcm) (len : Int) : ReadResult :=
  let rejected := { readStart1 h pcm len with ret := -1 }
  if len ≤ 0 then rejected.result .returned []
  else if h.outAlign = 0 then rejected.result .fault [] -- the division `len % out_align` traps
  else if len % h.outAlign ≠ 0 then rejected.result .returned []
  else readLoop1 fuel (readStart1 h pcm (clampLen h len))

/-- One more call of the older reader; none when it does not return. -/
def Session.step1 (fuel : Nat) (s : Session) (len : Int) : Option Session :=
  let r := speechArrayRead1 fuel s.handle s.pcm len
  if r.status = .returned then
    some { handle := r.handle, pcm := r.pcm, replies := s.replies ++ [(r.ret, r.buff)] }
  else none

/-! ## One call -/

theorem readSize1_eq {B L : Int} {h : SpeechArrayHandle} (ho : Opened B h)
    (hd : h.dataSize = 0) (hL : L % 12 = 0) : readSize1 h L = 4 * L := by
  have hmod : (L * 4).tmod 8 = 0 := Int.tmod_eq_zero_of_dvd (by omega)
  rw [readSize1, ho.ratio, ho.hwAlign, hd, Int.sub_zero]
  rw [if_neg (not_not_intro hmod), Int.mul_comm]

/-- A round with something to read starts as in the newer reader. -/
theorem readDevice1_eq {st : ReadState} (hb : st.readBytes ≠ 0) :
    readDevice1 st = readDevice st := by
  rw [readDevice, if_pos hb]
  rfl

/-- When the window is made of whole frames of the stream, everything is decoded and nothing
is kept. -/
theorem parseTail1_whole {w : Nat → Word} {N n : Nat} {st : ReadState}
    (hw : Window w (12 * N) n st) (ht : ∀ k, Tagged w (12 * k)) (hn : n % 12 = 0)
    (hpos : 0 < n) :
    ∃ st', parseTail1 st = .done st' (nextReply w N n).2 ∧ st'.ret = n ∧
      Front w (12 * (N + n / 12)) 0 st'.handle st'.pcm ∧ SameSetup st.handle st'.handle ∧
      st'.pcm.outcome = st.pcm.outcome := by
  have hwin : windowWords (4 * (n : Int)) = 12 * (n / 12) := by
    rw [windowWords, MINI_SINGLE_SAMPLE_BYTES]
    omega
  obtain ⟨hret, hload, -⟩ := parseDataInt32_spec st.handle.buffer
    (show (48 : Int) ≤ 4 * (n : Int) by omega)
  rw [hwin] at hret hload
  have hpack := hw.packFrames_whole ht hn le_rfl
  -- a stream of frames decodes to one frame in twelve words
  have hcount : (decoded st n).length = n / 12 := by
    have := congrArg List.length hpack
    rw [packFrames_length, packFrames_length, List.length_map, List.length_range] at this
    omega
  change (parseDataInt32 st.handle.buffer (4 * (n : Int))).2
    = 12 * ((decoded st n).length : Int) at hret
  change load _ 0 (3 * (decoded st n).length) = packFrames st.handle.buffer (decoded st n)
    at hload
  rw [hcount, hpack] at hload
  rw [hcount, show 12 * ((n / 12 : Nat) : Int) = n by omega] at hret
  rw [parseTail1, hw.size]
  dsimp only
  -- so nothing is left to be moved to the front
  rw [hret, if_neg (by omega), if_neg (by unfold HW_OUT_DATA_RATIO; omega)]
  refine ⟨{ st with
      handle := { st.handle with
        buffer := (parseDataInt32 st.handle.buffer (4 * (n : Int))).1
        dataSize := 4 * (n : Int) - n * HW_OUT_DATA_RATIO }
      ret := n }, ?_, rfl, ⟨hw.captured, ?_, ?_, holds_zero _ _ _ _⟩, ⟨rfl, rfl, rfl, rfl⟩, rfl⟩
  · rw [show ((n : Int) / 4).toNat = 3 * (n / 12) by omega, hload, ← hw.size]
    rfl
  · show st.pcm.pos = _
    rw [hw.pos]
    omega
  · show 4 * (n : Int) - n * HW_OUT_DATA_RATIO = _
    unfold HW_OUT_DATA_RATIO
    omega

section Step

variable {B : Int} {captured : Nat → Word} {N fuel : Nat} {s : Session}

/-- One call of the older reader on a clean stream, when it holds nothing: it fetches the
request, returns it, and holds nothing again. -/
theorem Front.step1 (hf : Front captured (12 * N) 0 s.handle s.pcm) (hc : CleanStream captured)
    (ho : Opened B s.handle) (hok : s.pcm.Reliable) (hfuel : 1 ≤ fuel) {len : Int}
    (ha : Accepted s.handle len) {L : Int} (hL : L = clampLen s.handle len) :
    ∃ t, s.step1 fuel len = some t ∧ t.replies = s.replies ++ [nextReply captured N L] ∧
      Front captured (12 * (N + L.toNat / 12)) 0 t.handle t.pcm ∧ Opened B t.handle ∧
      t.pcm.Reliable ∧ SameSetup s.handle t.handle := by
  obtain ⟨hL₀, hL₁₂, -⟩ := clampLen_spec ho ha
  rw [← hL] at hL₀ hL₁₂
  have hd : s.handle.dataSize = 0 := hf.size
  have hsize := readSize1_eq ho hd hL₁₂
  obtain ⟨fuel, rfl⟩ : ∃ k, fuel = k + 1 := ⟨fuel - 1, by omega⟩
  set st₀ := readStart1 s.handle s.pcm L with hst₀
  have hrb : st₀.readBytes = 4 * L := hsize
  have hw₀ : Window captured (12 * N) 0 st₀ := ⟨hf.captured, hf.pos, hf.size, hf.holds⟩
  -- the one read of the call is its request
  have hw := hw₀.fill (hok _) (k := L.toNat) hd (by omega) (by omega)
  rw [Nat.zero_add] at hw
  set st := fill st₀ with hst
  -- the window starts with an audible frame
  have hskip : skipData st.handle.buffer st.availSize = 0 := by
    have havail := hw.size
    have h₁ := hw.tagged_iff (i := 0) (by omega)
    have h₂ := hw.silent_iff (i := 0) (by omega)
    exact skipData_of_audible (by omega) (h₁.mpr (hc.tagged N))
      fun h => hc.audible N (h₂.mp h)
  obtain ⟨st', hparse, hret, hfront, hset, hout⟩ :=
    parseTail1_whole hw hc.tagged (by omega) (by omega)
  -- so the round decodes, and is the last one
  have hround : readRound1 st₀ = parseTail1 st := by
    have hchk : st.checkSkip = false := fill_checkSkip st₀
    calc readRound1 st₀ = skipRound1 st := by
          rw [readRound1, if_neg (by omega), readDevice1_eq (by omega)]
          exact if_neg (not_not_intro (readDevice_ret (hok _) rfl))
      _ = parseTail1 st := by
          rw [skipRound1, hchk, if_neg Bool.false_ne_true]
          exact if_neg (by omega)
  have hcall : speechArrayRead1 (fuel + 1) s.handle s.pcm len
      = st'.result .returned (nextReply captured N L.toNat).2 := by
    have hmod : len % s.handle.outAlign = 0 := Int.emod_eq_zero_of_dvd ha.guard
    have hpos := ha.pos
    rw [speechArrayRead1]
    dsimp only
    rw [if_neg (by omega), if_neg ha.outAlign_ne_zero, if_neg (not_not_intro hmod), ← hL,
      readLoop1, ← hst₀, hround, hparse]
  have hset' : SameSetup s.handle st'.handle := (fill_sameSetup st₀).trans hset
  have hreply : (st'.ret, (nextReply captured N L.toNat).2) = nextReply captured N L := by
    rw [hret, nextReply, nextReply, Int.toNat_natCast]
    congr 1
    omega
  refine ⟨⟨st'.handle, st'.pcm, s.replies ++ [nextReply captured N L]⟩, ?_, rfl, hfront,
    ho.of_sameSetup hset' (by rw [hfront.size]; omega) (by rw [hfront.size]; omega),
    fun k => ?_, hset'⟩
  · rw [Session.step1, hcall]
    show some (Session.mk st'.handle st'.pcm
      (s.replies ++ [(st'.ret, (nextReply captured N L.toNat).2)])) = _
    rw [hreply]
  · show st'.pcm.outcome k = 0
    rw [hout]
    exact fill_pcm_reliable hok k

/-- The newer reader, which may hold frames that it has read ahead, and the older one, which
holds none, make the same replies. -/
theorem Exact.run_agrees (hc : CleanStream captured) (hfuel : 2 ≤ fuel) (rest : List Int)
    {lens : List Int} {s' : Session} (he : Exact B captured lens N s)
    (hf : Front captured (12 * N) 0 s'.handle s'.pcm) (hsame : s.replies = s'.replies)
    (ho : Opened B s.handle) (ho' : Opened B s'.handle) (hok : s.pcm.Reliable)
    (hok' : s'.pcm.Reliable) (ha : ∀ len ∈ rest, Accepted s.handle len)
    (ha' : ∀ len ∈ rest, Accepted s'.handle len) :
    ∃ t t', Machine.run (Session.step fuel) s rest = some t ∧
      Machine.run (Session.step1 fuel) s' rest = some t' ∧ t.replies = t'.replies := by
  -- on the calls: both readers have delivered the first `N` frames
  induction rest generalizing lens N s s' with
  | nil => exact ⟨s, s', rfl, rfl, hsame⟩
  | cons len rest ih =>
      have hclamp : clampLen s.handle len = clampLen s'.handle len := by
        rw [clampLen_eq ho, clampLen_eq ho']
      obtain ⟨t, hstep, hreply, het, hot, hokt, hset⟩ :=
        he.step hc.tagged (hc.audible N) ho hok hfuel (ha len (by simp))
      have hone : 1 ≤ fuel := by omega
      obtain ⟨t', hstep', hreply', hft', hot', hokt', hset'⟩ :=
        hf.step1 hc ho' hok' hone (ha' len (by simp)) hclamp
      obtain ⟨u, u', hrun, hrun', hreplies⟩ := ih het hft' (by rw [hreply, hreply', hsame])
        hot hot' hokt hokt'
        (fun l hl => (ha l (List.mem_cons_of_mem _ hl)).of_sameSetup hset)
        (fun l hl => (ha' l (List.mem_cons_of_mem _ hl)).of_sameSetup hset')
      exact ⟨u, u', Machine.run_cons_eq_some.mpr ⟨t, hstep, hrun⟩,
        Machine.run_cons_eq_some.mpr ⟨t', hstep', hrun'⟩, hreplies⟩

end Step

/-- **The two readers agree.** On a clean stream and a device that does not fail, the same
sequence of requests for whole frames runs to its end with either reader, each on its own
handle and its own copy of the stream, and every call makes the same reply. -/
theorem speechArrayRead1_agrees (config : SpeechArray) (bufferSize : Nat)
    (heap heap' captured : Nat → Word) (fuel : Nat) (lens : List Int)
    (hpos : 0 < pcmFramesToBytes bufferSize) (halign : 48 ∣ pcmFramesToBytes bufferSize)
    (hc : CleanStream captured) (hfuel : 2 ≤ fuel)
    (hlens : ∀ len ∈ lens, Accepted (speechArrayOpen config bufferSize heap) len) :
    ∃ s s', Machine.run (Session.step fuel)
        (Session.fresh config bufferSize heap captured fun _ => 0) lens = some s ∧
      Machine.run (Session.step1 fuel)
        (Session.fresh config bufferSize heap' captured fun _ => 0) lens = some s' ∧
      s.replies = s'.replies :=
  Exact.run_agrees hc hfuel lens (Session.fresh_exact config heap captured hpos)
    ⟨rfl, rfl, rfl, holds_zero _ _ _ _⟩ rfl (speechArrayOpen_opened config heap hpos halign)
    (speechArrayOpen_opened config heap' hpos halign) (fun _ => rfl) (fun _ => rfl) hlens
    fun len hlen => ⟨(hlens len hlen).pos, (hlens len hlen).frames, (hlens len hlen).guard⟩

/-- Requests below, at and above the clamp; the newer reader reads ahead. -/
theorem speechArrayRead1_agrees_numbered :
    ∃ s s', Machine.run (Session.step 2)
        (Session.fresh ⟨6, PCM_FORMAT_S16_LE⟩ 6 (fun _ => 0) numbered fun _ => 0) [12, 24, 48, 12]
          = some s ∧
      Machine.run (Session.step1 2)
        (Session.fresh ⟨6, PCM_FORMAT_S16_LE⟩ 6 (fun _ => 1) numbered fun _ => 0) [12, 24, 48, 12]
          = some s' ∧
      s.replies = s'.replies :=
  speechArrayRead1_agrees ⟨6, PCM_FORMAT_S16_LE⟩ 6 (fun _ => 0) (fun _ => 1) numbered 2
    [12, 24, 48, 12] (by decide) (by decide) numbered_clean le_rfl (by decide)

end SpeechStack
