import SpeechStack.Speech.Window

set_option autoImplicit false

/-! # Where the device writes

Each `pcm_read` of a call stores into `[data, data + read_bytes)`. The first fill leaves the
buffer when the leftovers are an odd number of words and the request is the largest one, or
when more than `B` bytes are left over; the refill leaves it when it follows leftovers (its
target is `data_size` bytes too far), or when a full buffer has been discarded (it is asked
for eight bytes more than were). `FillsFit` says so in terms of the state before the call,
and is exact in every reachable state (`speechArrayRead_inBounds_iff`).
-/

namespace SpeechStack

open Memory

/-- A `pcm_read` whose target lies inside a buffer of `size` bytes. -/
def Event.InBounds (size : Int) : Event → Prop
  | .pcmRead data readBytes _ => 0 ≤ data ∧ data + readBytes ≤ size
  | .memcpy _ _ _ => True

instance (size : Int) : DecidablePred (Event.InBounds size)
  | .pcmRead data readBytes _ => inferInstanceAs (Decidable (0 ≤ data ∧ data + readBytes ≤ size))
  | .memcpy _ _ _ => inferInstanceAs (Decidable True)

/-- The buffer after the first fill of a call for `len` bytes (after the clamp). -/
def firstFill (h : SpeechArrayHandle) (pcm : Pcm) (len : Int) : Nat → Word :=
  store h.buffer (h.dataSize / 4).toNat (pcmWords (firstReadSize h len))
    fun k => pcm.captured (pcm.pos + k)

/-- The bytes that the call discards from the front of that buffer. -/
def firstSkip (h : SpeechArrayHandle) (pcm : Pcm) (len : Int) : Int :=
  skipData (firstFill h pcm len) (h.dataSize + firstReadSize h len)

/-- The fills of a call for `len` bytes stay inside the buffer, by the state before the call:
`d` bytes left over, `r` bytes asked for by the first fill, `s` bytes discarded. -/
structure FillsFit (B : Int) (h : SpeechArrayHandle) (pcm : Pcm) (len : Int) : Prop where
  first : 4 * len < h.dataSize ∨
    h.dataSize ≤ B ∧ ¬ (h.dataSize % 8 = 4 ∧ 4 * len = 2 * B)
  refill : ∀ d r s, d = h.dataSize → r = firstReadSize h len → s = firstSkip h pcm len →
    0 < s → s ≤ d + r → d + r - s < 4 * len →
    (d = 0 ∧ s ≠ 2 * B) ∨
      (0 < d ∧ d + 2 * r - s ≤ 2 * B ∧ 2 * d + r - s + max (s - s % 8 + 8) B ≤ 2 * B)

/-! ## The events of the phases -/

theorem fill_events {st : ReadState} (hok : st.pcm.outcome st.pcm.reads = 0) :
    (fill st).events = st.events ++
      if st.readBytes ≠ 0 then [.pcmRead st.data st.readBytes st.availSize] else [] := by
  show (readDevice st).events = _
  by_cases hb : st.readBytes = 0
  · rw [readDevice, if_neg (not_not_intro hb), if_neg (not_not_intro hb), List.append_nil]
  · rw [readDevice_eq hok hb, if_pos hb]

/-- The end of a call adds no `pcm_read`. -/
theorem parseTail_events {P : Event → Prop} (hcopy : ∀ dst src size, P (.memcpy dst src size))
    (len : Int) (st : ReadState) :
    (∀ e ∈ (parseTail len st).result.events, P e) ↔ ∀ e ∈ st.events, P e := by
  rw [parseTail]
  dsimp only
  split
  · exact Iff.rfl
  · split
    · show (∀ e ∈ st.events ++ [_], P e) ↔ _
      rw [List.forall_mem_append, List.forall_mem_singleton]
      exact and_iff_left (hcopy _ _ _)
    · exact Iff.rfl

theorem parseTail_inBounds (len size : Int) (st : ReadState) :
    (∀ e ∈ (parseTail len st).result.events, e.InBounds size) ↔
      ∀ e ∈ st.events, e.InBounds size :=
  parseTail_events (fun _ _ _ => trivial) len st

theorem fill_buffer {st : ReadState} (hok : st.pcm.outcome st.pcm.reads = 0) :
    (fill st).handle.buffer = store st.handle.buffer (st.data / 4).toNat (pcmWords st.readBytes)
      fun k => st.pcm.captured (st.pcm.pos + k) := by
  show (readDevice st).handle.buffer = _
  by_cases hb : st.readBytes = 0
  · rw [readDevice, if_neg (not_not_intro hb), hb]
    funext i
    exact (store_outside _ _ (by simp [pcmWords_eq]; omega)).symm
  · rw [readDevice_eq hok hb]
    rfl

/-! ## Sessions keep the handle's shape -/

theorem skipData_dvd (m : Nat → Word) (len : Int) (h : 0 < skipData m len) :
    skipData m len % 4 = 0 := by
  rw [skipData] at h ⊢
  split at h
  · omega
  · rename_i hlen
    rw [if_neg hlen]
    omega

theorem parseTail_result {len : Int} {st : ReadState}
    (hret : (parseTail len st).result.status = .returned) :
    SameSetup st.handle (parseTail len st).result.handle ∧
      (parseTail len st).result.handle.dataSize = st.availSize - parseWindow len st.availSize ∧
      (parseTail len st).result.pcm = st.pcm := by
  rw [parseTail] at hret ⊢
  dsimp only at hret ⊢
  split at hret
  · exact Status.noConfusion hret
  · rename_i hneg
    rw [if_neg hneg]
    split <;> exact ⟨⟨rfl, rfl, rfl, rfl⟩, rfl, rfl⟩

section Calls

variable {B len : Int} {fuel : Nat} {h : SpeechArrayHandle} {pcm : Pcm} {s t : Session}

/-- What the first fill of an opened handle asks for. -/
theorem firstReadSize_words (ho : Opened B h) (hlen : len % 12 = 0) :
    0 ≤ firstReadSize h len ∧ firstReadSize h len % 8 = 0 ∧
      (h.dataSize ≤ 4 * len → 4 * len ≤ h.dataSize + firstReadSize h len) := by
  obtain ⟨h₁, h₂⟩ := firstReadSize_spec ho hlen
  have := ho.pos
  have := ho.dataNonneg
  by_cases hd : h.dataSize ≤ 4 * len
  · obtain ⟨h₈, hcase⟩ := h₂ hd
    omega
  · rw [h₁ (by omega)]
    omega

/-- What the refill asks for: whole words, and something when the request is not met. -/
theorem refillSize_words (ho : Opened B h) {r a k : Int} (hr : r % 8 = 0) (ha : a % 4 = 0)
    (hk : 0 < k) (hlen : 2 * len ≤ B) :
    0 ≤ refillSize h len r a k ∧ refillSize h len r a k % 4 = 0 ∧
      (a < 4 * len → refillSize h len r a k ≠ 0) := by
  have hBpos := ho.pos
  have hBalign := ho.align
  by_cases hlt : a < 4 * len
  · obtain ⟨h₁, h₂⟩ := refillSize_spec ho (s := k) hlt hr
    by_cases hclamp : 2 * B < a + r
    · rw [h₁ hclamp]
      omega
    · rw [h₂ (by omega)]
      omega
  · rw [refillSize_of_le (by omega)]
    omega

/-- A call that returns has decoded from some state of the loop. -/
theorem speechArrayRead_returned (ho : Opened B h) (ha : Accepted h len) (hok : pcm.Reliable)
    (hfuel : 2 ≤ fuel) (hret : (speechArrayRead fuel h pcm len).status = .returned) :
    ∃ st, speechArrayRead fuel h pcm len = (parseTail (clampLen h len) st).result ∧
      SameSetup h st.handle ∧ st.pcm.Reliable ∧ 0 ≤ st.availSize ∧ st.availSize % 4 = 0 := by
  obtain ⟨-, hL₁₂, hL₂⟩ := clampLen_spec ho ha
  set L := clampLen h len with hL
  obtain ⟨hr₀, hr₈, -⟩ := firstReadSize_words ho hL₁₂
  set r := firstReadSize h L with hr
  set st := fill (readStart h pcm L) with hst
  have hset : SameSetup h st.handle := fill_sameSetup (readStart h pcm L)
  have hok₁ : st.pcm.Reliable := fill_pcm_reliable hok
  have havail : st.availSize = h.dataSize + r := fill_availSize (hok _)
  set skip := skipData st.handle.buffer st.availSize with hskip
  obtain ⟨hA, hF, hD⟩ := speechArrayRead_eq ha.guarded hok hfuel hL hr hst hskip
  have hd₀ := ho.dataNonneg
  have hd₄ := ho.dataWords
  by_cases hs : 0 < skip
  swap
  · exact ⟨st, hA (by omega), hset, hok₁, by omega, by omega⟩
  have hs₄ : skip % 4 = 0 := skipData_dvd _ _ hs
  by_cases hle : skip ≤ st.availSize
  swap
  · rw [(hF hs (by omega)).1] at hret
    exact Status.noConfusion hret
  have hset₂ : SameSetup h (dropSkipped L r skip st).handle := hset.trans ⟨rfl, rfl, rfl, rfl⟩
  have havail₂ : (dropSkipped L r skip st).availSize = st.availSize - skip := rfl
  have hok₂ : (dropSkipped L r skip st).pcm.Reliable := hok₁
  have hfill := fill_availSize (hok₂ _)
  have ho₁ : Opened B st.handle := hst ▸ fill_opened ho
  obtain ⟨hrb₀, hrb₄, -⟩ := refillSize_words ho₁ hr₈
    (show (st.availSize - skip) % 4 = 0 by omega) hs hL₂
  change 0 ≤ (dropSkipped L r skip st).readBytes at hrb₀
  change (dropSkipped L r skip st).readBytes % 4 = 0 at hrb₄
  exact ⟨_, hD hs hle, hset₂.trans (fill_sameSetup _), fill_pcm_reliable hok₁, by omega,
    by omega⟩

theorem Session.step_eq_some :
    s.step fuel len = some t ↔
      (speechArrayRead fuel s.handle s.pcm len).status = .returned ∧
      (⟨(speechArrayRead fuel s.handle s.pcm len).handle,
        (speechArrayRead fuel s.handle s.pcm len).pcm, s.replies ++
          [((speechArrayRead fuel s.handle s.pcm len).ret,
            (speechArrayRead fuel s.handle s.pcm len).buff)]⟩ : Session) = t := by
  rw [Session.step]
  split
  · rename_i hret
    simp [hret]
  · rename_i hret
    simp [hret]

/-- Every call that returns leaves a handle of the same shape. -/
theorem Session.step_opened (ho : Opened B s.handle) (ha : Accepted s.handle len)
    (hok : s.pcm.Reliable) (hfuel : 2 ≤ fuel) (hstep : s.step fuel len = some t) :
    Opened B t.handle ∧ SameSetup s.handle t.handle ∧ t.pcm.Reliable := by
  obtain ⟨hret, rfl⟩ := step_eq_some.mp hstep
  obtain ⟨st, hcall, hset, hok', h₀, h₄⟩ := speechArrayRead_returned ho ha hok hfuel hret
  rw [hcall] at hret
  obtain ⟨hsame, hsize, hpcm⟩ := parseTail_result hret
  rw [parseWindow_eq] at hsize
  have hdata : 0 ≤ (parseTail (clampLen s.handle len) st).result.handle.dataSize ∧
      (parseTail (clampLen s.handle len) st).result.handle.dataSize % 4 = 0 := by
    rw [hsize]
    omega
  show Opened B (speechArrayRead fuel s.handle s.pcm len).handle ∧
    SameSetup s.handle (speechArrayRead fuel s.handle s.pcm len).handle ∧
    (speechArrayRead fuel s.handle s.pcm len).pcm.Reliable
  rw [hcall, hpcm]
  exact ⟨ho.of_sameSetup (hset.trans hsame) hdata.1 hdata.2, hset.trans hsame, hok'⟩

/-- Every session reached by accepted calls has a handle of the same shape. -/
theorem Session.run_opened (hfuel : 2 ≤ fuel) {lens : List Int} (ho : Opened B s.handle)
    (hok : s.pcm.Reliable) (ha : ∀ len ∈ lens, Accepted s.handle len)
    (hrun : Machine.run (Session.step fuel) s lens = some t) :
    Opened B t.handle ∧ SameSetup s.handle t.handle ∧ t.pcm.Reliable := by
  induction lens generalizing s with
  | nil =>
      rw [Machine.run_nil, Option.some.injEq] at hrun
      subst hrun
      exact ⟨ho, ⟨rfl, rfl, rfl, rfl⟩, hok⟩
  | cons len lens ih =>
      obtain ⟨m, hm, hrest⟩ := Machine.run_cons_eq_some.mp hrun
      obtain ⟨hom, hset, hokm⟩ := step_opened ho (ha len (by simp)) hok hfuel hm
      have ham : ∀ len' ∈ lens, Accepted m.handle len' := fun len' hmem =>
        (ha len' (List.mem_cons_of_mem _ hmem)).of_sameSetup hset
      obtain ⟨hot, hset', hokt⟩ := ih hom hokm ham hrest
      exact ⟨hot, hset.trans hset', hokt⟩

/-! ## The bounds -/

/-- The first fill stays inside the buffer when `FillsFit` says so. -/
theorem firstFill_fits (ho : Opened B h) (hlen : len % 12 = 0) (hle : 2 * len ≤ B)
    (hlen₀ : 0 < len) :
    (firstReadSize h len ≠ 0 → h.dataSize + firstReadSize h len ≤ 2 * B) ↔
      (4 * len < h.dataSize ∨ h.dataSize ≤ B ∧ ¬ (h.dataSize % 8 = 4 ∧ 4 * len = 2 * B)) := by
  obtain ⟨h₁, h₂⟩ := firstReadSize_spec ho hlen
  have := ho.pos
  have := ho.align
  have := ho.dataNonneg
  have := ho.dataWords
  by_cases hd : h.dataSize ≤ 4 * len
  · obtain ⟨-, hcase⟩ := h₂ hd
    omega
  · rw [h₁ (by omega)]
    omega

/-- The refill, when there is one, stays inside the buffer when `FillsFit` says so. -/
theorem refill_fits (ho : Opened B h) (hlen : len % 12 = 0) (hle : 2 * len ≤ B) {d r k : Int}
    (hd : d = h.dataSize) (hr : r = firstReadSize h len) (hk : 0 < k) (hkle : k ≤ d + r)
    (hlt : d + r - k < 4 * len) :
    d + (d + r) - k + refillSize h len r (d + r - k) k ≤ 2 * B ↔
      (d = 0 ∧ k ≠ 2 * B) ∨
        (0 < d ∧ d + 2 * r - k ≤ 2 * B ∧ 2 * d + r - k + max (k - k % 8 + 8) B ≤ 2 * B) := by
  obtain ⟨h₁, h₂⟩ := firstReadSize_spec ho hlen
  rw [← hr, ← hd] at h₁ h₂
  obtain ⟨-, hr₈, -⟩ := firstReadSize_words ho hlen
  rw [← hr] at hr₈
  have := ho.pos
  have := ho.align
  have := ho.dataNonneg
  obtain ⟨hclamp, hfree⟩ := refillSize_spec ho (s := k) hlt hr₈
  by_cases hbig : 2 * B < d + r - k + r
  · rw [hclamp hbig]
    by_cases hcase : d ≤ 4 * len
    · have := (h₂ hcase).2
      omega
    · have := h₁ (by omega)
      omega
  · rw [hfree (by omega)]
    by_cases hcase : d ≤ 4 * len
    · have := (h₂ hcase).2
      omega
    · have := h₁ (by omega)
      omega

/-- The events up to the first fill. -/
theorem firstFill_inBounds (ho : Opened B h) (hok : pcm.Reliable) (L : Int) :
    (∀ e ∈ (fill (readStart h pcm L)).events, e.InBounds (2 * B)) ↔
      (firstReadSize h L ≠ 0 → h.dataSize + firstReadSize h L ≤ 2 * B) := by
  have hd₀ := ho.dataNonneg
  rw [fill_events (hok _)]
  show (∀ e ∈ [] ++ if firstReadSize h L ≠ 0 then
    [Event.pcmRead h.dataSize (firstReadSize h L) h.dataSize] else [], _) ↔ _
  by_cases hz : firstReadSize h L = 0
  · simp [hz]
  · rw [if_pos hz, List.nil_append, List.forall_mem_singleton]
    show 0 ≤ h.dataSize ∧ h.dataSize + firstReadSize h L ≤ 2 * B ↔ _
    exact ⟨fun hb _ => hb.2, fun hb => ⟨hd₀, hb hz⟩⟩

/-- Without a refill only the first fill matters. -/
theorem fillsFit_iff_of_no_refill {L : Int} (ho : Opened B h) (hL₁₂ : L % 12 = 0)
    (hL₂ : 2 * L ≤ B) (hL₀ : 0 < L)
    (hnone : 0 < firstSkip h pcm L → firstSkip h pcm L ≤ h.dataSize + firstReadSize h L →
      ¬ h.dataSize + firstReadSize h L - firstSkip h pcm L < 4 * L) :
    FillsFit B h pcm L ↔ (firstReadSize h L ≠ 0 → h.dataSize + firstReadSize h L ≤ 2 * B) := by
  rw [firstFill_fits ho hL₁₂ hL₂ hL₀]
  refine ⟨fun hf => hf.first, fun hf => ⟨hf, ?_⟩⟩
  rintro d r' s rfl rfl rfl h₁ h₂ h₃
  exact absurd h₃ (hnone h₁ h₂)

/-- One call on an opened handle. -/
theorem speechArrayRead_inBounds (ho : Opened B h) (ha : Accepted h len) (hok : pcm.Reliable)
    (hfuel : 2 ≤ fuel) :
    (∀ e ∈ (speechArrayRead fuel h pcm len).events, e.InBounds (2 * B)) ↔
      FillsFit B h pcm (clampLen h len) := by
  obtain ⟨hL₀, hL₁₂, hL₂⟩ := clampLen_spec ho ha
  set L := clampLen h len with hL
  set r := firstReadSize h L with hr
  have hd₀ := ho.dataNonneg
  obtain ⟨hr₀, hr₈, -⟩ := firstReadSize_words ho hL₁₂
  set st := fill (readStart h pcm L) with hst
  have hbuffer : st.handle.buffer = firstFill h pcm L := fill_buffer (hok _)
  have havail : st.availSize = h.dataSize + r := fill_availSize (hok _)
  set k := firstSkip h pcm L with hk
  have hskip : k = skipData st.handle.buffer st.availSize := by rw [hbuffer, havail, hk, firstSkip]
  obtain ⟨hA, hF, hD⟩ := speechArrayRead_eq ha.guarded hok hfuel hL hr hst hskip
  -- the first fill, and the events up to it
  have hfirst := firstFill_fits ho hL₁₂ hL₂ hL₀
  have hevents : (∀ e ∈ st.events, e.InBounds (2 * B)) ↔
      (r ≠ 0 → h.dataSize + r ≤ 2 * B) := firstFill_inBounds ho hok L
  have hdropped : (∀ e ∈ (dropSkipped L r k st).events, e.InBounds (2 * B)) ↔
      (r ≠ 0 → h.dataSize + r ≤ 2 * B) := by
    rw [← hevents]
    show (∀ e ∈ st.events ++ [_], e.InBounds (2 * B)) ↔ _
    rw [List.forall_mem_append]
    exact and_iff_left fun e he => by rw [List.mem_singleton.mp he]; trivial
  have hno : (0 < k → k ≤ h.dataSize + r → ¬ h.dataSize + r - k < 4 * L) →
      (FillsFit B h pcm L ↔ (r ≠ 0 → h.dataSize + r ≤ 2 * B)) :=
    fillsFit_iff_of_no_refill ho hL₁₂ hL₂ hL₀
  by_cases hpos : 0 < k
  swap
  · rw [hA (by omega), parseTail_inBounds, hevents, hno fun hp => absurd hp hpos]
  by_cases hle : k ≤ st.availSize
  swap
  · rw [(hF hpos (by omega)).2, hno fun _ hle' => absurd (havail ▸ hle') hle, ← hevents,
      List.forall_mem_append]
    exact and_iff_left fun e he => by rw [List.mem_singleton.mp he]; trivial
  have hrefill : (dropSkipped L r k st).readBytes = refillSize h L r (h.dataSize + r - k) k := by
    rw [← havail]
    exact refillSize_congr (fill_sameSetup (readStart h pcm L)) L r (st.availSize - k) k
  have hk₄ : k % 4 = 0 := skipData_dvd _ _ hpos
  have hd₄ := ho.dataWords
  have hok₂ : (dropSkipped L r k st).pcm.Reliable := by
    rw [hst]
    exact fill_pcm_reliable hok
  rw [hD hpos hle, parseTail_inBounds, fill_events (hok₂ _), List.forall_mem_append, hdropped]
  by_cases hb : (dropSkipped L r k st).readBytes = 0
  · rw [if_neg (not_not_intro hb), hno]
    · exact and_iff_left fun e he => absurd he List.not_mem_nil
    · intro _ _ hlt
      exact (refillSize_words ho hr₈ (by omega) hpos hL₂).2.2 hlt (hrefill ▸ hb)
  · have hlt : h.dataSize + r - k < 4 * L := by
      by_contra hge
      exact hb (hrefill.trans (refillSize_of_le (by omega)))
    have hdata : (dropSkipped L r k st).data = h.dataSize + (h.dataSize + r) - k := by
      show st.data + st.availSize - k = _
      rw [havail, hst, fill_data]
      rfl
    rw [if_pos hb, List.forall_mem_singleton, hrefill, hdata]
    have hsecond := refill_fits ho hL₁₂ hL₂ rfl hr hpos (by omega) hlt
    show _ ∧ (0 ≤ h.dataSize + (h.dataSize + r) - k ∧
      h.dataSize + (h.dataSize + r) - k + refillSize h L r (h.dataSize + r - k) k ≤ 2 * B) ↔ _
    rw [hsecond, hfirst]
    constructor
    · rintro ⟨h₁, -, h₂⟩
      refine ⟨h₁, ?_⟩
      rintro d r' s rfl rfl rfl - - -
      exact h₂
    · rintro ⟨h₁, h₂⟩
      exact ⟨h₁, by omega, h₂ _ _ _ rfl rfl rfl hpos (by omega) hlt⟩

end Calls

/-- **Capture-buffer bounds.** In every state that accepted calls reach from
`speechArrayOpen`, whatever has been captured and will be, the next accepted call issues its
`pcm_read`s inside the buffer if and only if `FillsFit` holds of that state and request. -/
theorem speechArrayRead_inBounds_iff (config : SpeechArray) (bufferSize : Nat)
    (heap captured : Nat → Word) (fuel : Nat) (lens : List Int) (len : Int) (s : Session)
    (hpos : 0 < pcmFramesToBytes bufferSize) (halign : 48 ∣ pcmFramesToBytes bufferSize)
    (hfuel : 2 ≤ fuel)
    (hlens : ∀ l ∈ lens, Accepted (speechArrayOpen config bufferSize heap) l)
    (hrun : Machine.run (Session.step fuel)
      (Session.fresh config bufferSize heap captured fun _ => 0) lens = some s)
    (hlen : Accepted s.handle len) :
    (∀ e ∈ (speechArrayRead fuel s.handle s.pcm len).events, e.InBounds s.handle.buffSize) ↔
      FillsFit (pcmFramesToBytes bufferSize) s.handle s.pcm (clampLen s.handle len) := by
  obtain ⟨ho, -, hok⟩ := Session.run_opened hfuel
    (speechArrayOpen_opened config heap hpos halign) (fun _ => rfl) hlens hrun
  rw [ho.buffSize]
  exact speechArrayRead_inBounds ho hlen hok hfuel

/-- A first call for 24 bytes on a device that delivers zero words only, `B = 48`: all 96
bytes of the buffer are discarded, and the refill asks for 104. -/
theorem speechArrayRead_overruns_buffer :
    pcmFramesToBytes 6 = 48 ∧
    Accepted (speechArrayOpen ⟨6, PCM_FORMAT_S16_LE⟩ 6 fun _ => 0) 24 ∧
    ¬ ∀ e ∈ (speechArrayRead 2 (speechArrayOpen ⟨6, PCM_FORMAT_S16_LE⟩ 6 fun _ => 0)
        ⟨fun _ => 0, fun _ => 0, 0, 0⟩ 24).events,
      e.InBounds (speechArrayOpen ⟨6, PCM_FORMAT_S16_LE⟩ 6 fun _ => 0).buffSize :=
  ⟨rfl, by decide, by decide⟩

theorem speechArrayRead_inBounds_iff_silence :
    (∀ e ∈ (speechArrayRead 2 (speechArrayOpen ⟨6, PCM_FORMAT_S16_LE⟩ 6 fun _ => 0)
        ⟨fun _ => 0, fun _ => 0, 0, 0⟩ 24).events,
      e.InBounds (speechArrayOpen ⟨6, PCM_FORMAT_S16_LE⟩ 6 fun _ => 0).buffSize) ↔
      FillsFit 48 (speechArrayOpen ⟨6, PCM_FORMAT_S16_LE⟩ 6 fun _ => 0)
        ⟨fun _ => 0, fun _ => 0, 0, 0⟩
        (clampLen (speechArrayOpen ⟨6, PCM_FORMAT_S16_LE⟩ 6 fun _ => 0) 24) :=
  speechArrayRead_inBounds_iff ⟨6, PCM_FORMAT_S16_LE⟩ 6 (fun _ => 0) (fun _ => 0) 2 [] 24
    (Session.fresh ⟨6, PCM_FORMAT_S16_LE⟩ 6 (fun _ => 0) (fun _ => 0) fun _ => 0)
    (by decide) (by decide) le_rfl (fun l hl => absurd hl List.not_mem_nil) rfl
    (by decide)

end SpeechStack
