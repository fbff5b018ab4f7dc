import SpeechStack.Speech.Resync
import SpeechStack.Speech.Refill

set_option autoImplicit false

/-! # Calls on any device

`speechArrayRead_eq` describes a call on a device that does not fail. Here the device may fail
at any time, and the request need not be made of whole frames. A failed read repeats the round,
so it delays a call and changes nothing else: whenever a call comes to its decoding, it holds
`heldSize` bytes, has made at most one shift, and the last read it has issued has succeeded
(`speechArrayRead_account`).
-/

namespace SpeechStack

open Memory

/-! ## The rule for the loop -/

section Rule

variable {L r : Int} {st : ReadState}

theorem parseTail_status : (parseTail L st).result.status ≠ .running := by
  cases hp : parseTail L st with
  | again st' => exact absurd hp (parseTail_ne_again L st st')
  | done st' buff => exact Status.noConfusion
  | fault st' => exact Status.noConfusion

/-- The states of the do-while loop by what they satisfy: `P` at the head of a round, `Q` after
a read that has succeeded, `D` where the call decodes. -/
structure LoopRule (L r : Int) (P Q D : ReadState → Prop) : Prop where
  retry : ∀ st, P st → (readDevice st).ret ≠ 0 → P (readDevice st)
  fetch : ∀ st, P st → (readDevice st).ret = 0 → Q (fill st)
  keep : ∀ st, Q st → (st.checkSkip = false → skipData st.handle.buffer st.availSize ≤ 0) → D st
  drop : ∀ st, Q st → st.checkSkip = false → 0 < skipData st.handle.buffer st.availSize →
    skipData st.handle.buffer st.availSize ≤ st.availSize →
    P (dropSkipped L r (skipData st.handle.buffer st.availSize) st)
  decode : ∀ st, P st → st.checkSkip = true → st.readBytes = 0 → D st

/-- A loop that starts in `P` is still running, decodes from a state of `D`, or ends with a
shift of negative length. -/
theorem LoopRule.cases {P Q D : ReadState → Prop} (hrule : LoopRule L r P Q D) (fuel : Nat)
    (h : P st) :
    (∃ u, P u ∧ readLoop L r fuel st = u.result .running []) ∨
    (∃ u, D u ∧ readLoop L r fuel st = (parseTail L u).result) ∨
    ∃ u, Q u ∧ u.checkSkip = false ∧ u.availSize < skipData u.handle.buffer u.availSize ∧
      0 < skipData u.handle.buffer u.availSize ∧
      readLoop L r fuel st = (overSkipped u).result .fault [] := by
  induction fuel generalizing st with
  | zero => exact Or.inl ⟨st, h, rfl⟩
  | succ fuel ih =>
      by_cases hret : (readDevice st).ret = 0
      swap
      · -- the device has failed
        rw [readLoop, readRound_of_failed hret]
        exact ih (hrule.retry st h hret)
      · have hQ := hrule.fetch st h hret
        have hround := readRound_of_read (L := L) (r := r) hret
        set u := fill st
        set skip := skipData u.handle.buffer u.availSize with hskip
        by_cases hkeep : u.checkSkip = false → skip ≤ 0
        · -- nothing is dropped
          rw [readLoop_of_parseTail fuel (hround.trans (skipRound_kept hkeep))]
          exact Or.inr (Or.inl ⟨u, hrule.keep u hQ hkeep, rfl⟩)
        · rw [Classical.not_imp, not_le] at hkeep
          obtain ⟨hc, hpos⟩ := hkeep
          by_cases hle : skip ≤ u.availSize
          · have hP := hrule.drop u hQ hc hpos hle
            rw [skipRound_dropped hc hpos hle] at hround
            by_cases hb : (dropSkipped L r skip u).readBytes = 0
            · rw [if_neg (not_not_intro hb)] at hround
              rw [readLoop_of_parseTail fuel hround]
              exact Or.inr (Or.inl ⟨_, hrule.decode _ hP rfl hb, rfl⟩)
            · rw [if_pos hb] at hround
              rw [readLoop, hround]
              exact ih hP
          · rw [skipRound_overSkipped hc hpos (by omega)] at hround
            rw [readLoop, hround]
            exact Or.inr (Or.inr ⟨u, hQ, hc, by omega, hpos, rfl⟩)

end Rule

/-! ## The account of a call -/

/-- A `memcpy` inside the buffer. -/
def Event.isMemcpy : Event → Bool
  | .pcmRead _ _ _ => false
  | .memcpy _ _ _ => true

/-- The copies among the events of a call. -/
def memcpys (events : List Event) : List Event := events.filter Event.isMemcpy

/-- The shift of the first fill, when a prefix of it is dropped. -/
def shiftOf (h : SpeechArrayHandle) (pcm : Pcm) (len : Int) : List Event :=
  let k := firstSkip h pcm len
  if 0 < k then [.memcpy 0 k (h.dataSize + firstReadSize h len - k)] else []

section Account

variable {B L : Int} {h : SpeechArrayHandle} {pcm : Pcm} {st u : ReadState}

/-- At the head of a round of a call for `L` bytes that was entered with `h` and `pcm`. -/
structure Waiting (h : SpeechArrayHandle) (pcm : Pcm) (L : Int) (st : ReadState) : Prop where
  setup : SameSetup h st.handle
  outcome : st.pcm.outcome = pcm.outcome
  /-- before the skip check nothing has changed but the device's counter of calls -/
  early : st.checkSkip = false → st.handle = h ∧ st.pcm.captured = pcm.captured ∧
    st.pcm.pos = pcm.pos ∧ st.data = h.dataSize ∧ st.availSize = h.dataSize ∧
    st.readBytes = firstReadSize h L ∧ memcpys st.events = []
  /-- behind it the refill is due -/
  late : st.checkSkip = true → 0 < firstSkip h pcm L ∧
    firstSkip h pcm L ≤ h.dataSize + firstReadSize h L ∧
    st.availSize + st.readBytes = heldSize h pcm L ∧ memcpys st.events = shiftOf h pcm L
  /-- a read that is not due has not been tried either -/
  idle : st.readBytes = 0 → ∀ k, k + 1 = st.pcm.reads → pcm.reads ≤ k → pcm.outcome k = 0

/-- After the read of a round has succeeded. -/
structure Gathered (h : SpeechArrayHandle) (pcm : Pcm) (L : Int) (st : ReadState) : Prop where
  ret : st.ret = 0
  setup : SameSetup h st.handle
  outcome : st.pcm.outcome = pcm.outcome
  early : st.checkSkip = false → st.handle.buffer = firstFill h pcm L ∧
    st.availSize = h.dataSize + firstReadSize h L ∧ memcpys st.events = []
  late : st.checkSkip = true → 0 < firstSkip h pcm L ∧
    firstSkip h pcm L ≤ h.dataSize + firstReadSize h L ∧
    st.availSize = heldSize h pcm L ∧ memcpys st.events = shiftOf h pcm L
  lastRead : ∀ k, k + 1 = st.pcm.reads → pcm.reads ≤ k → pcm.outcome k = 0

/-- Where a call for `L` bytes decodes. -/
structure Decoding (h : SpeechArrayHandle) (pcm : Pcm) (L : Int) (st : ReadState) : Prop where
  setup : SameSetup h st.handle
  avail : st.availSize = heldSize h pcm L
  shift : memcpys st.events = shiftOf h pcm L
  skip : firstSkip h pcm L ≤ h.dataSize + firstReadSize h L ∨ firstSkip h pcm L ≤ 0
  lastRead : ∀ k, k + 1 = st.pcm.reads → pcm.reads ≤ k → pcm.outcome k = 0

theorem memcpys_append_pcmRead (es : List Event) (d n a : Int) :
    memcpys (es ++ [.pcmRead d n a]) = memcpys es := by
  rw [memcpys, memcpys, List.filter_append]
  exact List.append_nil _

theorem memcpys_append_memcpy (es : List Event) (d s n : Int) :
    memcpys (es ++ [.memcpy d s n]) = memcpys es ++ [.memcpy d s n] := by
  rw [memcpys, memcpys, List.filter_append]
  rfl

theorem readStart_waiting (h : SpeechArrayHandle) (pcm : Pcm) (L : Int) :
    Waiting h pcm L (readStart h pcm L) where
  setup := ⟨rfl, rfl, rfl, rfl⟩
  outcome := rfl
  early := fun _ => ⟨rfl, rfl, rfl, rfl, rfl, rfl, rfl⟩
  late := fun hc => Bool.noConfusion hc
  idle := fun _ k hk hle => by
    have hreads : (readStart h pcm L).pcm.reads = pcm.reads := rfl
    omega

theorem Waiting.retry (hw : Waiting h pcm L st) (hret : (readDevice st).ret ≠ 0) :
    Waiting h pcm L (readDevice st) := by
  by_cases hb : st.readBytes = 0
  · have hsame : readDevice st = st := if_neg (not_not_intro hb)
    rwa [hsame]
  · rw [readDevice_ret_of_readBytes hb] at hret
    rw [readDevice_failed hb hret]
    refine ⟨hw.setup, hw.outcome, fun hc => ?_, fun hc => ?_, fun hb' => absurd hb' hb⟩
    · obtain ⟨h₁, h₂, h₃, h₄, h₅, h₆, h₇⟩ := hw.early hc
      exact ⟨h₁, h₂, h₃, h₄, h₅, h₆, (memcpys_append_pcmRead _ _ _ _).trans h₇⟩
    · obtain ⟨h₁, h₂, h₃, h₄⟩ := hw.late hc
      exact ⟨h₁, h₂, h₃, (memcpys_append_pcmRead _ _ _ _).trans h₄⟩

theorem Waiting.fetch (hw : Waiting h pcm L st) (hret : (readDevice st).ret = 0) :
    Gathered h pcm L (fill st) := by
  by_cases hb : st.readBytes = 0
  · have hsame : readDevice st = st := if_neg (not_not_intro hb)
    rw [hsame] at hret
    rw [fill_eq_self hb]
    refine ⟨hret, hw.setup, hw.outcome, fun hc => ?_, fun hc => ?_, hw.idle hb⟩
    · obtain ⟨h₁, -, -, -, h₅, h₆, h₇⟩ := hw.early hc
      refine ⟨?_, by omega, h₇⟩
      -- a fill of no bytes
      funext i
      rw [h₁, firstFill, ← h₆, hb, store_outside _ _ (by rw [pcmWords_eq]; omega)]
    · obtain ⟨h₁, h₂, h₃, h₄⟩ := hw.late hc
      exact ⟨h₁, h₂, by omega, h₄⟩
  · have hok : st.pcm.outcome st.pcm.reads = 0 :=
      (readDevice_ret_of_readBytes hb).symm.trans hret
    have hevents : memcpys (fill st).events = memcpys st.events := by
      rw [fill_events hok, if_pos hb, memcpys_append_pcmRead]
    refine ⟨hret, hw.setup.trans (fill_sameSetup st), ?_, fun hc => ?_, fun hc => ?_, ?_⟩
    · show (readDevice st).pcm.outcome = _
      rw [readDevice_eq hok hb]
      exact hw.outcome
    · rw [fill_checkSkip] at hc
      obtain ⟨h₁, h₂, h₃, h₄, h₅, h₆, h₇⟩ := hw.early hc
      refine ⟨?_, ?_, hevents.trans h₇⟩
      · rw [fill_buffer hok, h₁, h₂, h₃, h₄, h₆, firstFill]
      · rw [fill_availSize hok, h₅, h₆]
    · rw [fill_checkSkip] at hc
      obtain ⟨h₁, h₂, h₃, h₄⟩ := hw.late hc
      exact ⟨h₁, h₂, (fill_availSize hok).trans h₃, hevents.trans h₄⟩
    · intro k hk _
      have hreads : (fill st).pcm.reads = st.pcm.reads + 1 := by
        show (readDevice st).pcm.reads = _
        rw [readDevice_eq hok hb]
        rfl
      have hlast : k = st.pcm.reads := by omega
      rw [hlast, ← hw.outcome, hok]

/-- The skip looks at the first fill. -/
theorem Gathered.skipData_eq (hg : Gathered h pcm L st) (hc : st.checkSkip = false) :
    skipData st.handle.buffer st.availSize = firstSkip h pcm L := by
  obtain ⟨h₁, h₂, -⟩ := hg.early hc
  rw [h₁, h₂, firstSkip]

theorem Gathered.keep (hg : Gathered h pcm L st)
    (hkeep : st.checkSkip = false → skipData st.handle.buffer st.availSize ≤ 0) :
    Decoding h pcm L st := by
  cases hc : st.checkSkip with
  | false =>
      have hle := hkeep hc
      rw [hg.skipData_eq hc] at hle
      obtain ⟨-, h₂, h₃⟩ := hg.early hc
      refine ⟨hg.setup, ?_, ?_, Or.inr hle, hg.lastRead⟩
      · rw [h₂, heldSize]
        exact (if_neg (by omega)).symm
      · rw [h₃, shiftOf]
        exact (if_neg (by omega)).symm
  | true =>
      obtain ⟨-, h₂, h₃, h₄⟩ := hg.late hc
      exact ⟨hg.setup, h₃, h₄, Or.inl h₂, hg.lastRead⟩

theorem Gathered.drop (hg : Gathered h pcm L st) (hc : st.checkSkip = false)
    (hpos : 0 < skipData st.handle.buffer st.availSize)
    (hle : skipData st.handle.buffer st.availSize ≤ st.availSize) :
    Waiting h pcm L (dropSkipped L (firstReadSize h L)
      (skipData st.handle.buffer st.availSize) st) := by
  obtain ⟨-, havail, hevents⟩ := hg.early hc
  rw [hg.skipData_eq hc] at hpos hle ⊢
  refine ⟨hg.setup.trans ⟨rfl, rfl, rfl, rfl⟩, hg.outcome, fun hfalse => Bool.noConfusion hfalse,
    fun _ => ⟨hpos, havail ▸ hle, ?_, ?_⟩, fun _ => hg.lastRead⟩
  · show st.availSize - _ + refillSize st.handle L _ (st.availSize - _) _ = _
    rw [havail, refillSize_congr hg.setup, heldSize]
    exact (if_pos hpos).symm
  · show memcpys (st.events ++ [.memcpy 0 _ (st.availSize - _)]) = _
    rw [memcpys_append_memcpy, hevents, havail, shiftOf]
    exact (if_pos hpos).symm

theorem Waiting.decode (hw : Waiting h pcm L st) (hc : st.checkSkip = true)
    (hb : st.readBytes = 0) : Decoding h pcm L st := by
  obtain ⟨-, h₂, h₃, h₄⟩ := hw.late hc
  exact ⟨hw.setup, by omega, h₄, Or.inl h₂, hw.idle hb⟩

theorem loopRule_account (h : SpeechArrayHandle) (pcm : Pcm) (L : Int) :
    LoopRule L (firstReadSize h L) (Waiting h pcm L) (Gathered h pcm L) (Decoding h pcm L) where
  retry := fun _ hw hret => hw.retry hret
  fetch := fun _ hw hret => hw.fetch hret
  keep := fun _ hg hkeep => hg.keep hkeep
  drop := fun _ hg hc hpos hle => hg.drop hc hpos hle
  decode := fun _ hw hc hb => hw.decode hc hb

/-- **The account of a call.** A call that passes the guard is still in its loop, or decodes
what the account says, or was to drop more than the first fill holds. -/
theorem speechArrayRead_account {len : Int} (hg : Guarded h len) (hL : L = clampLen h len)
    (pcm : Pcm) (fuel : Nat) :
    (∃ u, Waiting h pcm L u ∧ speechArrayRead fuel h pcm len = u.result .running []) ∨
    (∃ u, Decoding h pcm L u ∧ speechArrayRead fuel h pcm len = (parseTail L u).result) ∨
    ∃ u, Gathered h pcm L u ∧ memcpys u.events = [] ∧
      h.dataSize + firstReadSize h L < firstSkip h pcm L ∧ 0 < firstSkip h pcm L ∧
      speechArrayRead fuel h pcm len = ({ u with events := u.events ++
        [.memcpy 0 (firstSkip h pcm L) (h.dataSize + firstReadSize h L - firstSkip h pcm L)] } :
          ReadState).result .fault [] := by
  rw [speechArrayRead_of_guarded hg, ← hL]
  rcases (loopRule_account h pcm L).cases fuel (readStart_waiting h pcm L) with
    hrunning | hdecode | ⟨u, hu, hc, hlt, hpos, hcall⟩
  · exact Or.inl hrunning
  · exact Or.inr (Or.inl hdecode)
  · obtain ⟨-, havail, hevents⟩ := hu.early hc
    rw [overSkipped] at hcall
    rw [hu.skipData_eq hc] at hlt hpos hcall
    rw [havail] at hlt hcall
    exact Or.inr (Or.inr ⟨u, hu, hevents, hlt, hpos, hcall⟩)

theorem Sized.firstReadSize_words (hs : Sized B h) (L : Int) : firstReadSize h L % 8 = 0 := by
  obtain ⟨hr₁, hr₂⟩ := firstReadSize_cases hs L
  by_cases hd : h.dataSize ≤ 4 * L
  · exact (hr₂ hd).1
  · rw [hr₁ (by omega)]
    omega

/-- Enough is held for the request wherever a call decodes. -/
theorem heldSize_spec (pcm : Pcm) (hs : Sized B h) (hL : 2 * L ≤ B) :
    4 * L ≤ heldSize h pcm L ∧ heldSize h pcm L % 4 = 0 := by
  obtain ⟨hr₁, hr₂⟩ := firstReadSize_cases hs L
  have hwords := hs.words
  have hd₄ := hs.dataWords
  have hr₈ := hs.firstReadSize_words L
  have hfirst : 4 * L ≤ h.dataSize + firstReadSize h L := by
    by_cases hd : h.dataSize ≤ 4 * L
    · obtain ⟨-, hcase⟩ := hr₂ hd
      omega
    · rw [hr₁ (by omega)]
      omega
  rw [heldSize]
  split
  · rename_i hpos
    have hk₄ : firstSkip h pcm L % 4 = 0 := skipData_dvd _ _ hpos
    simp only [refillSize, HW_OUT_DATA_RATIO, HW_BUFFER_COUNT, hs.hwAlign, hs.buffSize]
    -- the refill makes up for what was dropped, or fills the buffer
    split
    · omega
    · split
      · omega
      · split <;> omega
  · omega

end Account

/-! ## Sessions keep the sizes of the handle -/

section Sessions

variable {B len : Int} {fuel : Nat} {s t : Session}

theorem Sized.of_sameSetup {h h' : SpeechArrayHandle} (hs : Sized B h) (hset : SameSetup h h')
    (h₀ : 0 ≤ h'.dataSize) (h₄ : h'.dataSize % 4 = 0) : Sized B h' where
  buffSize := hset.buffSize.trans hs.buffSize
  hwAlign := hset.hwAlign.trans hs.hwAlign
  ratio := hset.ratio.trans hs.ratio
  nonneg := hs.nonneg
  words := hs.words
  dataNonneg := h₀
  dataWords := h₄

/-- After the clamp a request is not negative and fills the buffer at most. -/
theorem Sized.clampLen_spec {h : SpeechArrayHandle} (hs : Sized B h) (hlen : 0 < len) :
    0 ≤ clampLen h len ∧ 2 * clampLen h len ≤ B := by
  have hclamp : clampLen h len = min len (B / 2) := hs.clampLen_eq
  have hB := hs.nonneg
  omega

/-- A call that returns, on any device and for any `len`, keeps the sizes of the handle. -/
theorem Session.step_sized (hs : Sized B s.handle) (hstep : s.step fuel len = some t) :
    Sized B t.handle ∧ SameSetup s.handle t.handle := by
  obtain ⟨hret, rfl⟩ := step_eq_some.mp hstep
  show Sized B (speechArrayRead fuel s.handle s.pcm len).handle ∧
    SameSetup s.handle (speechArrayRead fuel s.handle s.pcm len).handle
  by_cases hg : Guarded s.handle len
  · rcases speechArrayRead_account hg rfl s.pcm fuel with
      ⟨u, -, hcall⟩ | ⟨u, hu, hcall⟩ | ⟨u, -, -, -, -, hcall⟩
    · rw [hcall] at hret
      exact Status.noConfusion hret
    · obtain ⟨hL₀, hL⟩ := hs.clampLen_spec hg.pos
      obtain ⟨henough, hwords⟩ := heldSize_spec s.pcm hs hL
      rw [hcall] at hret ⊢
      obtain ⟨hsame, hsize, -⟩ := parseTail_result hret
      have hset := hu.setup.trans hsame
      rw [parseWindow_eq, hu.avail] at hsize
      refine ⟨hs.of_sameSetup hset ?_ ?_, hset⟩
      · rw [hsize]
        omega
      · rw [hsize]
        omega
    · rw [hcall] at hret
      exact Status.noConfusion hret
  · obtain ⟨status, hcall⟩ := speechArrayRead_of_not_guarded hg s.pcm fuel
    rw [hcall]
    exact ⟨hs, rfl, rfl, rfl, rfl⟩

/-- In every session, whatever the device did and whatever was asked for, the handle has the
sizes of `speechArrayOpen`. -/
theorem Session.run_sized (hs : Sized B s.handle) {lens : List Int}
    (hrun : Machine.run (Session.step fuel) s lens = some t) :
    Sized B t.handle ∧ SameSetup s.handle t.handle := by
  refine Machine.run_invariant (fun u => Sized B u.handle ∧ SameSetup s.handle u.handle) ?_
    ⟨hs, rfl, rfl, rfl, rfl⟩ hrun
  rintro u l v ⟨hu, hset⟩ hstep
  obtain ⟨hv, hset'⟩ := step_sized hu hstep
  exact ⟨hv, hset.trans hset'⟩

end Sessions

end SpeechStack
