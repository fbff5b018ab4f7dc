import SpeechStack.Speech.Failure

set_option autoImplicit false

/-! # The shifts inside the capture buffer

A call moves bytes within the handle's buffer twice at most, each time with `memcpy`: what is
left of the first fill behind the skipped bytes, and what is left over behind the parse window.
Both go to the front, so source and destination are apart exactly when no more bytes are moved
than the distance they are moved by. Neither is checked: the prefetch of a whole hardware
buffer leaves more over than a small request takes. `ShiftsApart` says when a call is free of
overlaps, by the state before it, and is exact (`speechArrayRead_shiftsApart_iff`).
-/

namespace SpeechStack

open Memory

/-- The contract of `memcpy`: a length that is not negative, and ranges that are apart. -/
def Event.Disjoint : Event → Prop
  | .pcmRead _ _ _ => True
  | .memcpy dst src size => 0 ≤ size ∧ (dst + size ≤ src ∨ src + size ≤ dst)

instance : DecidablePred Event.Disjoint
  | .pcmRead _ _ _ => inferInstanceAs (Decidable True)
  | .memcpy dst src size =>
      inferInstanceAs (Decidable (0 ≤ size ∧ (dst + size ≤ src ∨ src + size ≤ dst)))

/-- The shifts of a call for `len` bytes (after the clamp) meet the contract, by the state
before it: `d` bytes left over, `r` bytes asked for by the first fill, `k` bytes skipped. -/
structure ShiftsApart (B len d r k : Int) : Prop where
  /-- what is left behind the skipped bytes is no more than they are, and not negative -/
  skip : 0 < k → k ≤ d + r ∧ d + r ≤ 2 * k
  /-- no more than a request is left over: when nothing is skipped, -/
  whole : k ≤ 0 → (d ≤ 4 * len → d + B ≤ 8 * len) ∧ (4 * len < d → d ≤ 8 * len)
  /-- when what is left behind the skipped bytes meets the request, -/
  enough : 0 < k → 4 * len ≤ d + r - k → d + r - k ≤ 8 * len
  /-- and when the refill follows it, cut by the clamp to the buffer or not -/
  refill : 0 < k → d + r - k < 4 * len →
    (2 * B < d + r - k + r → B ≤ 4 * len) ∧
      (d + r - k + r ≤ 2 * B → d + r - k + max (k - k % 8 + 8) B ≤ 8 * len)

section Calls

variable {B L len : Int} {fuel : Nat} {h : SpeechArrayHandle} {pcm : Pcm} {st : ReadState}

theorem forall_disjoint_iff {es : List Event} :
    (∀ e ∈ es, e.Disjoint) ↔ ∀ e ∈ memcpys es, e.Disjoint := by
  constructor
  · exact fun hall e he => hall e (List.mem_of_mem_filter he)
  · intro hall e he
    cases e with
    | pcmRead => trivial
    | memcpy dst src size => exact hall _ (List.mem_filter.mpr ⟨he, rfl⟩)

/-- The shift of the skip. -/
theorem shiftOf_disjoint_iff :
    (∀ e ∈ shiftOf h pcm L, e.Disjoint) ↔ (0 < firstSkip h pcm L →
      firstSkip h pcm L ≤ h.dataSize + firstReadSize h L ∧
        h.dataSize + firstReadSize h L ≤ 2 * firstSkip h pcm L) := by
  rw [shiftOf]
  split
  · rename_i hpos
    rw [List.forall_mem_singleton]
    show 0 ≤ _ ∧ (0 + _ ≤ _ ∨ _ + _ ≤ (0 : Int)) ↔ _
    omega
  · rename_i hpos
    exact ⟨fun _ hpos' => absurd hpos' hpos, fun _ e he => absurd he List.not_mem_nil⟩

/-- The end of a call adds the shift of what is left over. -/
theorem parseTail_disjoint_iff (h12 : 12 ≤ L) (hlong : 4 * L ≤ st.availSize) :
    (∀ e ∈ (parseTail L st).result.events, e.Disjoint) ↔
      (∀ e ∈ memcpys st.events, e.Disjoint) ∧ st.availSize ≤ 8 * L := by
  have hwindow : parseWindow L st.availSize = 4 * L := by
    rw [parseWindow_eq]
    omega
  obtain ⟨hret, -, -⟩ := parseDataInt32_spec st.handle.buffer (show 48 ≤ 4 * L by omega)
  rw [parseTail, hwindow]
  dsimp only
  rw [hret, if_neg (by omega)]
  split
  · show (∀ e ∈ st.events ++ [_], Event.Disjoint e) ↔ _
    rw [List.forall_mem_append, List.forall_mem_singleton, forall_disjoint_iff]
    show _ ∧ (0 ≤ _ ∧ (0 + _ ≤ _ ∨ _ + _ ≤ (0 : Int))) ↔ _
    exact and_congr_right fun _ => by omega
  · show (∀ e ∈ st.events, Event.Disjoint e) ↔ _
    rw [forall_disjoint_iff]
    exact (and_iff_left (by omega)).symm

/-- `ShiftsApart` in terms of what the call comes to hold. -/
theorem shiftsApart_iff (ho : Opened B h) (hL₁₂ : 12 ≤ L) :
    ShiftsApart B L h.dataSize (firstReadSize h L) (firstSkip h pcm L) ↔
      (0 < firstSkip h pcm L → firstSkip h pcm L ≤ h.dataSize + firstReadSize h L ∧
        h.dataSize + firstReadSize h L ≤ 2 * firstSkip h pcm L) ∧
      heldSize h pcm L ≤ 8 * L := by
  obtain ⟨hr₁, hr₂⟩ := firstReadSize_cases ho.sized L
  have hr₈ := ho.sized.firstReadSize_words L
  rw [heldSize]
  set d := h.dataSize
  set r := firstReadSize h L
  set k := firstSkip h pcm L
  have hB := ho.pos
  by_cases hpos : 0 < k
  swap
  · -- nothing is skipped: the first fill is all there is
    rw [if_neg hpos]
    have hheld : d + r ≤ 8 * L ↔ (d ≤ 4 * L → d + B ≤ 8 * L) ∧ (4 * L < d → d ≤ 8 * L) := by
      by_cases hd : d ≤ 4 * L
      · obtain ⟨-, hcase⟩ := hr₂ hd
        omega
      · have hzero := hr₁ (by omega)
        omega
    rw [hheld]
    exact ⟨fun hs => ⟨hs.skip, hs.whole (by omega)⟩, fun hs => ⟨hs.1, fun _ => hs.2,
      fun hk => absurd hk hpos, fun hk => absurd hk hpos⟩⟩
  · rw [if_pos hpos]
    by_cases hmet : 4 * L ≤ d + r - k
    · rw [refillSize_of_le hmet, Int.add_zero]
      exact ⟨fun hs => ⟨hs.skip, hs.enough hpos hmet⟩, fun hs => ⟨hs.1, fun hk => by omega,
        fun _ _ => hs.2, fun _ hlt => by omega⟩⟩
    · obtain ⟨hclamp, hfree⟩ := refillSize_spec ho (s := k) (not_le.mp hmet) hr₈
      have hheld : d + r - k + refillSize h L r (d + r - k) k ≤ 8 * L ↔
          (2 * B < d + r - k + r → B ≤ 4 * L) ∧
            (d + r - k + r ≤ 2 * B → d + r - k + max (k - k % 8 + 8) B ≤ 8 * L) := by
        by_cases hbig : 2 * B < d + r - k + r
        · rw [hclamp hbig]
          omega
        · rw [hfree (by omega)]
          omega
      rw [hheld]
      exact ⟨fun hs => ⟨hs.skip, hs.refill hpos (by omega)⟩, fun hs => ⟨hs.1,
        fun hk => by omega, fun _ hge => absurd hge hmet, fun _ _ => hs.2⟩⟩

/-- One call, on any device. -/
theorem Opened.disjoint_of_shiftsApart (pcm : Pcm) (ho : Opened B h) (ha : Accepted h len)
    (hapart : ShiftsApart B (clampLen h len) h.dataSize (firstReadSize h (clampLen h len))
      (firstSkip h pcm (clampLen h len))) :
    ∀ e ∈ (speechArrayRead fuel h pcm len).events, e.Disjoint := by
  obtain ⟨hL₀, hL₁₂, hL⟩ := clampLen_spec ho ha
  set L := clampLen h len with hLdef
  obtain ⟨hskip, hheld⟩ := (shiftsApart_iff ho (by omega)).mp hapart
  have hshift := shiftOf_disjoint_iff.mpr hskip
  rcases speechArrayRead_account ha.guarded hLdef pcm fuel with
    ⟨u, hu, hcall⟩ | ⟨u, hu, hcall⟩ | ⟨u, -, -, hlt, hpos, -⟩
  · -- the call is in its loop: there has been no shift yet, or the one of the skip
    rw [hcall]
    show ∀ e ∈ u.events, e.Disjoint
    rw [forall_disjoint_iff]
    cases hc : u.checkSkip with
    | false =>
        obtain ⟨-, -, -, -, -, -, hnone⟩ := hu.early hc
        rw [hnone]
        exact fun e he => absurd he List.not_mem_nil
    | true =>
        obtain ⟨-, -, -, hevents⟩ := hu.late hc
        rwa [hevents]
  · obtain ⟨henough, -⟩ := heldSize_spec pcm ho.sized hL
    rw [hcall, parseTail_disjoint_iff (by omega) (by rw [hu.avail]; exact henough), hu.shift,
      hu.avail]
    exact ⟨hshift, hheld⟩
  · have hle := (hskip hpos).1
    omega

/-- A device that does not fail brings out both shifts. -/
theorem Opened.shiftsApart_of_disjoint (pcm : Pcm) (ho : Opened B h) (ha : Accepted h len)
    (hok : pcm.Reliable)
    (hall : ∀ fuel, ∀ e ∈ (speechArrayRead fuel h pcm len).events, e.Disjoint) :
    ShiftsApart B (clampLen h len) h.dataSize (firstReadSize h (clampLen h len))
      (firstSkip h pcm (clampLen h len)) := by
  obtain ⟨hL₀, hL₁₂, hL⟩ := clampLen_spec ho ha
  set L := clampLen h len with hLdef
  rw [shiftsApart_iff ho (by omega)]
  -- the call comes to its end
  obtain ⟨fuel, hend⟩ := (ends_readStart_iff ho.sized hL).mpr (hok.succeedsFrom _ _)
  rw [hLdef, ← speechArrayRead_of_guarded ha.guarded] at hend
  have hevents := hall fuel
  rcases speechArrayRead_account ha.guarded hLdef pcm fuel with
    ⟨u, -, hcall⟩ | ⟨u, hu, hcall⟩ | ⟨u, -, -, hlt, hpos, hcall⟩
  · rw [hcall] at hend
    exact absurd rfl hend
  · obtain ⟨henough, -⟩ := heldSize_spec pcm ho.sized hL
    rw [hcall, parseTail_disjoint_iff (by omega) (by rw [hu.avail]; exact henough), hu.shift,
      hu.avail] at hevents
    exact ⟨shiftOf_disjoint_iff.mp hevents.1, hevents.2⟩
  · -- the length of the shift is negative
    rw [hcall] at hevents
    have hneg := hevents _ (List.mem_append_right _ (List.mem_singleton_self _))
    change 0 ≤ _ ∧ _ at hneg
    omega

end Calls

/-- **The shifts and `memcpy`'s contract.** In every state that calls of any lengths reach, on
any stream and any device, the next accepted call keeps the ranges of its shifts apart,
whatever the device does from then on, if and only if `ShiftsApart` holds of that state and
request. -/
theorem speechArrayRead_shiftsApart_iff (config : SpeechArray) (bufferSize : Nat)
    (heap captured : Nat → Word) (outcome : Nat → Int) (fuel : Nat) (lens : List Int) (len : Int)
    (s : Session) (hpos : 0 < pcmFramesToBytes bufferSize)
    (halign : 48 ∣ pcmFramesToBytes bufferSize)
    (hrun : Machine.run (Session.step fuel)
      (Session.fresh config bufferSize heap captured outcome) lens = some s)
    (hlen : Accepted s.handle len) :
    (∀ later fuel, ∀ e ∈ (speechArrayRead fuel s.handle { s.pcm with outcome := later } len).events,
      e.Disjoint) ↔
      ShiftsApart (pcmFramesToBytes bufferSize) (clampLen s.handle len) s.handle.dataSize
        (firstReadSize s.handle (clampLen s.handle len))
        (firstSkip s.handle s.pcm (clampLen s.handle len)) := by
  obtain ⟨hs, -⟩ := Session.run_sized (speechArrayOpen_sized config bufferSize heap) hrun
  have ho : Opened (pcmFramesToBytes bufferSize) s.handle :=
    ⟨hs.buffSize, hs.hwAlign, hs.ratio, by omega, by omega, hs.dataNonneg, hs.dataWords⟩
  constructor
  · intro hall
    -- the skip does not depend on what the device will do
    exact ho.shiftsApart_of_disjoint { s.pcm with outcome := fun _ => 0 } hlen
      (fun _ => rfl) (hall fun _ => 0)
  · intro hapart later n
    exact ho.disjoint_of_shiftsApart { s.pcm with outcome := later } hlen hapart

/-- `B = 144` and a first request for one frame: 96 bytes are moved down by 48. -/
theorem speechArrayRead_shift_overlaps :
    pcmFramesToBytes 18 = 144 ∧ CleanStream numbered ∧
    Accepted (speechArrayOpen ⟨6, PCM_FORMAT_S16_LE⟩ 18 fun _ => 0) 12 ∧
    .memcpy 0 48 96 ∈ (speechArrayRead 2 (speechArrayOpen ⟨6, PCM_FORMAT_S16_LE⟩ 18 fun _ => 0)
      ⟨numbered, fun _ => 0, 0, 0⟩ 12).events ∧
    ¬ ∀ e ∈ (speechArrayRead 2 (speechArrayOpen ⟨6, PCM_FORMAT_S16_LE⟩ 18 fun _ => 0)
      ⟨numbered, fun _ => 0, 0, 0⟩ 12).events, e.Disjoint :=
  ⟨rfl, numbered_clean, by decide, by decide, by decide⟩

/-- `B = 48`, where a request for one frame leaves nothing over. -/
theorem speechArrayRead_shiftsApart_iff_oneFrame :
    (∀ later fuel, ∀ e ∈ (speechArrayRead fuel
        (speechArrayOpen ⟨6, PCM_FORMAT_S16_LE⟩ 6 fun _ => 0)
        ⟨numbered, later, 0, 0⟩ 12).events, e.Disjoint) ↔
      ShiftsApart 48 (clampLen (speechArrayOpen ⟨6, PCM_FORMAT_S16_LE⟩ 6 fun _ => 0) 12) 0
        (firstReadSize (speechArrayOpen ⟨6, PCM_FORMAT_S16_LE⟩ 6 fun _ => 0)
          (clampLen (speechArrayOpen ⟨6, PCM_FORMAT_S16_LE⟩ 6 fun _ => 0) 12))
        (firstSkip (speechArrayOpen ⟨6, PCM_FORMAT_S16_LE⟩ 6 fun _ => 0)
          ⟨numbered, fun _ => 0, 0, 0⟩
          (clampLen (speechArrayOpen ⟨6, PCM_FORMAT_S16_LE⟩ 6 fun _ => 0) 12)) :=
  speechArrayRead_shiftsApart_iff ⟨6, PCM_FORMAT_S16_LE⟩ 6 (fun _ => 0) numbered (fun _ => 0) 2 []
    12 (Session.fresh ⟨6, PCM_FORMAT_S16_LE⟩ 6 (fun _ => 0) numbered fun _ => 0) (by decide)
    (by decide) rfl (by decide)

end SpeechStack
