import SpeechStack.Speech.Read

set_option autoImplicit false

/-! # One call of `SpeechArrayRead`

The facts about a single call that the results on sequences of calls are built from: the
arithmetic of the two fills (`firstReadSize_spec`, `refillSize_spec`), the call as an
equation when the device does not fail (`speechArrayRead_eq`), and what each of its three
phases does to a buffer that holds a stretch of the captured stream (`Window`).
-/

namespace SpeechStack

open Memory

/-! ## Handles -/

/-- A handle opened with `buff_size = 2 * B`, two 32-bit hardware channels and the fixed
ratio, `B` a positive multiple of the frame size; `data_size` counts whole words. -/
structure Opened (B : Int) (h : SpeechArrayHandle) : Prop where
  buffSize : h.buffSize = 2 * B
  hwAlign : h.hwAlign = 8
  ratio : h.ratio = 4
  pos : 0 < B
  align : B % 48 = 0
  dataNonneg : 0 ≤ h.dataSize
  dataWords : h.dataSize % 4 = 0

/-- A `len` that the calls of this development pass: positive, whole output frames, and
accepted by the guard of `SpeechArrayRead`. -/
structure Accepted (h : SpeechArrayHandle) (len : Int) : Prop where
  pos : 0 < len
  frames : 12 ∣ len
  guard : h.outAlign ∣ len

instance (h : SpeechArrayHandle) (len : Int) : Decidable (Accepted h len) :=
  decidable_of_iff (0 < len ∧ len % 12 = 0 ∧ h.outAlign ∣ len)
    ⟨fun ⟨h₁, h₂, h₃⟩ => ⟨h₁, Int.dvd_of_emod_eq_zero h₂, h₃⟩,
      fun ha => ⟨ha.pos, Int.emod_eq_zero_of_dvd ha.frames, ha.guard⟩⟩

theorem Accepted.outAlign_ne_zero {h : SpeechArrayHandle} {len : Int} (ha : Accepted h len) :
    h.outAlign ≠ 0 := by
  intro h₀
  have hdvd := ha.guard
  rw [h₀, zero_dvd_iff] at hdvd
  exact absurd ha.pos (by omega)

/-- A `len` that the guard of `SpeechArrayRead` lets through. -/
structure Guarded (h : SpeechArrayHandle) (len : Int) : Prop where
  pos : 0 < len
  outAlign : h.outAlign ≠ 0
  guard : h.outAlign ∣ len

theorem not_guarded_iff {h : SpeechArrayHandle} {len : Int} :
    ¬ Guarded h len ↔ len ≤ 0 ∨ h.outAlign = 0 ∨ len % h.outAlign ≠ 0 := by
  constructor
  · intro hno
    by_contra hall
    rw [not_or, not_or, not_not] at hall
    exact hno ⟨not_le.mp hall.1, hall.2.1, Int.dvd_of_emod_eq_zero hall.2.2⟩
  · rintro (hpos | halign | hmod) hg
    · exact absurd hg.pos (not_lt.mpr hpos)
    · exact hg.outAlign halign
    · exact hmod (Int.emod_eq_zero_of_dvd hg.guard)

theorem Accepted.guarded {h : SpeechArrayHandle} {len : Int} (ha : Accepted h len) :
    Guarded h len := ⟨ha.pos, ha.outAlign_ne_zero, ha.guard⟩

theorem speechArrayOpen_opened (config : SpeechArray) {bufferSize : Nat} (heap : Nat → Word)
    (hpos : 0 < pcmFramesToBytes bufferSize) (halign : 48 ∣ pcmFramesToBytes bufferSize) :
    Opened (pcmFramesToBytes bufferSize) (speechArrayOpen config bufferSize heap) where
  buffSize := rfl
  hwAlign := rfl
  ratio := rfl
  pos := by omega
  align := by omega
  dataNonneg := le_rfl
  dataWords := rfl

/-- A handle opened with `buff_size = 2 * B` for whole hardware frames, as every handle is:
the sizes of `Opened` without the assumption that `B` is made of whole capture frames. -/
structure Sized (B : Int) (h : SpeechArrayHandle) : Prop where
  buffSize : h.buffSize = 2 * B
  hwAlign : h.hwAlign = 8
  ratio : h.ratio = 4
  nonneg : 0 ≤ B
  words : B % 8 = 0
  dataNonneg : 0 ≤ h.dataSize
  dataWords : h.dataSize % 4 = 0

theorem Opened.sized {B : Int} {h : SpeechArrayHandle} (ho : Opened B h) : Sized B h where
  buffSize := ho.buffSize
  hwAlign := ho.hwAlign
  ratio := ho.ratio
  nonneg := ho.pos.le
  words := by
    have := ho.align
    omega
  dataNonneg := ho.dataNonneg
  dataWords := ho.dataWords

theorem speechArrayOpen_sized (config : SpeechArray) (bufferSize : Nat) (heap : Nat → Word) :
    Sized (pcmFramesToBytes bufferSize) (speechArrayOpen config bufferSize heap) where
  buffSize := rfl
  hwAlign := rfl
  ratio := rfl
  nonneg := Int.natCast_nonneg _
  words := by
    have hframe : pcmFramesToBytes bufferSize = bufferSize * 2 * 4 := rfl
    omega
  dataNonneg := le_rfl
  dataWords := rfl

section Sizes

variable {B len : Int} {h : SpeechArrayHandle}

theorem Sized.clampLen_eq (hs : Sized B h) : clampLen h len = min len (B / 2) := by
  rw [clampLen, hs.buffSize, hs.ratio]
  split <;> omega

theorem clampLen_eq (ho : Opened B h) : clampLen h len = min len (B / 2) := ho.sized.clampLen_eq

/-- After the clamp a request is a positive number of frames and fills the buffer at most. -/
theorem clampLen_spec (ho : Opened B h) (ha : Accepted h len) :
    0 < clampLen h len ∧ clampLen h len % 12 = 0 ∧ 2 * clampLen h len ≤ B := by
  have := ho.pos
  have := ho.align
  have := ha.pos
  have := ha.frames
  rw [clampLen_eq ho]
  omega

/-- The first fill asks for nothing when more than a request is left over, and otherwise for
the missing bytes, rounded up to hardware frames, but for no less than `B`. -/
theorem firstReadSize_cases (hs : Sized B h) (len : Int) :
    (4 * len < h.dataSize → firstReadSize h len = 0) ∧
    (h.dataSize ≤ 4 * len → firstReadSize h len % 8 = 0 ∧
      ((4 * len - h.dataSize ≤ B ∧ firstReadSize h len = B) ∨
        (B < 4 * len - h.dataSize ∧ 4 * len - h.dataSize ≤ firstReadSize h len ∧
          firstReadSize h len < 4 * len - h.dataSize + 8))) := by
  have := hs.nonneg
  have := hs.words
  simp only [firstReadSize, HW_OUT_DATA_RATIO, HW_BUFFER_COUNT, hs.ratio, hs.hwAlign,
    hs.buffSize]
  constructor
  · intro hgt
    rw [if_pos (by omega)]
  · intro hle
    rw [if_neg (by omega)]
    split <;> split <;> omega

theorem firstReadSize_spec (ho : Opened B h) (hlen : len % 12 = 0) :
    (4 * len < h.dataSize → firstReadSize h len = 0) ∧
    (h.dataSize ≤ 4 * len → firstReadSize h len % 8 = 0 ∧
      ((4 * len - h.dataSize ≤ B ∧ firstReadSize h len = B) ∨
        (B < 4 * len - h.dataSize ∧
          firstReadSize h len = 4 * len - h.dataSize + h.dataSize % 8))) := by
  obtain ⟨h₁, h₂⟩ := firstReadSize_cases ho.sized len
  have hwords := ho.dataWords
  refine ⟨h₁, fun hle => ?_⟩
  obtain ⟨h₈, hcase⟩ := h₂ hle
  exact ⟨h₈, hcase.imp id fun ⟨hlt, hlo, hhi⟩ => ⟨hlt, by omega⟩⟩

/-- The refill asks for at least `B` bytes, unless the clamp to the buffer cuts it. -/
theorem refillSize_spec (ho : Opened B h) {r a s : Int} (ha : a < 4 * len) (hr : r % 8 = 0) :
    (2 * B < a + r → refillSize h len r a s = 2 * B - a) ∧
    (a + r ≤ 2 * B → refillSize h len r a s = max (s - s % 8 + 8) B) := by
  -- the clamp cuts exactly the refills that do not fit behind `a`
  simp only [refillSize, HW_OUT_DATA_RATIO, HW_BUFFER_COUNT, ho.hwAlign, ho.buffSize]
  rw [if_neg (by omega)]
  constructor
  · intro hgt
    rw [if_pos (by omega)]
    omega
  · intro hle
    rw [if_neg (by omega)]
    split <;> omega

theorem refillSize_of_le {r a s : Int} (ha : 4 * len ≤ a) : refillSize h len r a s = 0 := by
  rw [refillSize, HW_OUT_DATA_RATIO, if_pos (by omega)]

end Sizes

/-! ## A call as an equation -/

/-- The device does not fail. -/
def Pcm.Reliable (pcm : Pcm) : Prop := ∀ n, pcm.outcome n = 0

/-- The head of a round: `pcm_read`, and its bytes counted. -/
def fill (st : ReadState) : ReadState :=
  { readDevice st with availSize := (readDevice st).availSize + (readDevice st).readBytes }

/-- A call ends with its last round. -/
def Round.result : Round → ReadResult
  | .again st => st.result .running []
  | .done st buff => st.result .returned buff
  | .fault st => st.result .fault []

theorem readDevice_eq {st : ReadState} (hok : st.pcm.outcome st.pcm.reads = 0)
    (hb : st.readBytes ≠ 0) :
    readDevice st = { st with
      ret := 0
      pcm := (pcmFill st.pcm st.handle st.data st.readBytes).1
      handle := (pcmFill st.pcm st.handle st.data st.readBytes).2
      events := st.events ++ [.pcmRead st.data st.readBytes st.availSize] } := by
  rw [readDevice, if_pos hb, pcmRead, if_neg (not_not_intro hok)]

/-- A read that fails is counted and recorded, and moves nothing. -/
theorem readDevice_failed {st : ReadState} (hb : st.readBytes ≠ 0)
    (hfail : st.pcm.outcome st.pcm.reads ≠ 0) :
    readDevice st = { st with
      ret := st.pcm.outcome st.pcm.reads
      pcm := { st.pcm with reads := st.pcm.reads + 1 }
      events := st.events ++ [.pcmRead st.data st.readBytes st.availSize] } := by
  rw [readDevice, if_pos hb, pcmRead, if_pos hfail]

theorem readDevice_ret_of_readBytes {st : ReadState} (hb : st.readBytes ≠ 0) :
    (readDevice st).ret = st.pcm.outcome st.pcm.reads := by
  by_cases hok : st.pcm.outcome st.pcm.reads = 0
  · rw [readDevice_eq hok hb, hok]
  · rw [readDevice_failed hb hok]

theorem readDevice_ret {st : ReadState} (hok : st.pcm.outcome st.pcm.reads = 0)
    (hret : st.ret = 0) :
    (readDevice st).ret = 0 := by
  by_cases hb : st.readBytes = 0
  · rw [readDevice, if_neg (not_not_intro hb), hret]
  · rw [readDevice_eq hok hb]

/-- A fill of nothing changes nothing. -/
theorem fill_eq_self {st : ReadState} (hb : st.readBytes = 0) : fill st = st := by
  have hread : readDevice st = st := if_neg (not_not_intro hb)
  have hsize : st.availSize + st.readBytes = st.availSize := by omega
  rw [fill, hread, hsize]

theorem fill_checkSkip (st : ReadState) : (fill st).checkSkip = st.checkSkip := by
  show (readDevice st).checkSkip = _
  rw [readDevice]
  split <;> rfl

/-! ### The ways through a round -/

section Round

variable {L r : Int} {st : ReadState}

theorem readRound_of_failed (hret : (readDevice st).ret ≠ 0) :
    readRound L r st = .again (readDevice st) := by
  rw [readRound]
  exact if_pos hret

theorem readRound_of_read (hret : (readDevice st).ret = 0) :
    readRound L r st = skipRound L r (fill st) := by
  rw [readRound]
  exact if_neg (not_not_intro hret)

theorem skipRound_kept
    (hkeep : st.checkSkip = false → skipData st.handle.buffer st.availSize ≤ 0) :
    skipRound L r st = parseTail L st := by
  rw [skipRound]
  cases hc : st.checkSkip with
  | true => rfl
  | false =>
      have hle := hkeep hc
      dsimp only
      rw [if_neg Bool.false_ne_true, if_neg (by omega)]

/-- The shift of a call that is to drop more than it holds. -/
def overSkipped (st : ReadState) : ReadState :=
  let skip := skipData st.handle.buffer st.availSize
  { st with events := st.events ++ [.memcpy 0 skip (st.availSize - skip)] }

theorem skipRound_overSkipped (hc : st.checkSkip = false)
    (hpos : 0 < skipData st.handle.buffer st.availSize)
    (hlt : st.availSize < skipData st.handle.buffer st.availSize) :
    skipRound L r st = .fault (overSkipped st) := by
  rw [skipRound, if_neg (by rw [hc]; exact Bool.false_ne_true)]
  dsimp only
  rw [if_pos hpos, if_pos (by omega)]
  rfl

/-- Behind the shift the refill is a round of its own, when there is one. -/
theorem skipRound_dropped (hc : st.checkSkip = false)
    (hpos : 0 < skipData st.handle.buffer st.availSize)
    (hle : skipData st.handle.buffer st.availSize ≤ st.availSize) :
    skipRound L r st =
      if (dropSkipped L r (skipData st.handle.buffer st.availSize) st).readBytes ≠ 0 then
        .again (dropSkipped L r (skipData st.handle.buffer st.availSize) st)
      else parseTail L (dropSkipped L r (skipData st.handle.buffer st.availSize) st) := by
  rw [skipRound, if_neg (by rw [hc]; exact Bool.false_ne_true)]
  dsimp only
  rw [if_pos hpos, if_neg (by omega)]

end Round

theorem fill_pcm_reliable {st : ReadState} (hok : st.pcm.Reliable) : (fill st).pcm.Reliable := by
  show (readDevice st).pcm.Reliable
  by_cases hb : st.readBytes = 0
  · rw [readDevice, if_neg (not_not_intro hb)]
    exact hok
  · rw [readDevice_eq (hok _) hb]
    exact hok

/-- Less than a frame in the parse window: the decoder refuses, and its result is the length of
a copy. -/
theorem parseTail_of_short {len : Int} {st : ReadState}
    (hshort : parseWindow len st.availSize < 48) :
    parseTail len st = .fault { st with ret := -1 } := by
  have hneg : parseDataInt32 st.handle.buffer (parseWindow len st.availSize)
      = (st.handle.buffer, -1) := by
    rw [parseDataInt32, if_pos (by rw [MINI_SINGLE_SAMPLE_BYTES]; exact hshort)]
  rw [parseTail]
  dsimp only
  rw [hneg, if_pos (by omega)]

/-- `parseTail` leaves the loop. -/
theorem parseTail_ne_again (len : Int) (st st' : ReadState) : parseTail len st ≠ .again st' := by
  rw [parseTail]
  split
  · exact Round.noConfusion
  · dsimp only
    split <;> exact Round.noConfusion

theorem readLoop_of_parseTail {len readSize : Int} {st st' : ReadState} (fuel : Nat)
    (h : readRound len readSize st = parseTail len st') :
    readLoop len readSize (fuel + 1) st = (parseTail len st').result := by
  rw [readLoop, h]
  cases hp : parseTail len st' with
  | again st'' => exact absurd hp (parseTail_ne_again len st' st'')
  | done st'' buff => rfl
  | fault st'' => rfl

/-- The guard lets a call through to its loop. -/
theorem speechArrayRead_of_guarded {len : Int} {h : SpeechArrayHandle} {pcm : Pcm} {fuel : Nat}
    (hg : Guarded h len) :
    speechArrayRead fuel h pcm len = readLoop (clampLen h len)
      (firstReadSize h (clampLen h len)) fuel (readStart h pcm (clampLen h len)) := by
  have hmod : len % h.outAlign = 0 := Int.emod_eq_zero_of_dvd hg.guard
  have hpos := hg.pos
  rw [speechArrayRead]
  dsimp only
  rw [if_neg (by omega), if_neg hg.outAlign, if_neg (not_not_intro hmod)]

/-- A call outside the guard leaves handle and device alone. -/
theorem speechArrayRead_of_not_guarded {len : Int} {h : SpeechArrayHandle} (hg : ¬ Guarded h len)
    (pcm : Pcm) (fuel : Nat) :
    ∃ status, speechArrayRead fuel h pcm len
      = ({ readStart h pcm len with ret := -1 } : ReadState).result status [] := by
  rw [speechArrayRead]
  dsimp only
  by_cases hpos : len ≤ 0
  · rw [if_pos hpos]
    exact ⟨_, rfl⟩
  · by_cases halign : h.outAlign = 0
    · rw [if_neg hpos, if_pos halign]
      exact ⟨_, rfl⟩
    · rw [if_neg hpos, if_neg halign, if_pos fun hmod =>
        hg ⟨by omega, halign, Int.dvd_of_emod_eq_zero hmod⟩]
      exact ⟨_, rfl⟩

/-- **A call on a reliable device**: one fill, the skip check, at most one refill, and the
decoding of what is then in the buffer. Two rounds are enough. -/
theorem speechArrayRead_eq {len : Int} {h : SpeechArrayHandle} {pcm : Pcm} {fuel : Nat}
    (hg : Guarded h len) (hok : pcm.Reliable) (hfuel : 2 ≤ fuel) {L r skip : Int}
    (hL : L = clampLen h len) (hr : r = firstReadSize h L) {st : ReadState}
    (hst : st = fill (readStart h pcm L))
    (hskip : skip = skipData st.handle.buffer st.availSize) :
    (skip ≤ 0 → speechArrayRead fuel h pcm len = (parseTail L st).result) ∧
    (0 < skip → st.availSize < skip →
      (speechArrayRead fuel h pcm len).status = .fault ∧
      (speechArrayRead fuel h pcm len).events
        = st.events ++ [.memcpy 0 skip (st.availSize - skip)]) ∧
    (0 < skip → skip ≤ st.availSize →
      speechArrayRead fuel h pcm len
        = (parseTail L (fill (dropSkipped L r skip st))).result) := by
  obtain ⟨fuel, rfl⟩ : ∃ k, fuel = k + 2 := ⟨fuel - 2, by omega⟩
  have hcall : speechArrayRead (fuel + 2) h pcm len
      = readLoop L r (fuel + 2) (readStart h pcm L) := by
    rw [speechArrayRead_of_guarded hg, hr, hL]
  have hround : readRound L r (readStart h pcm L) = skipRound L r st := by
    rw [hst]
    exact readRound_of_read (readDevice_ret (hok _) rfl)
  have hchk : st.checkSkip = false := by rw [hst, fill_checkSkip, readStart]
  rw [hcall]
  refine ⟨fun hs => ?_, fun hs hlt => ?_, fun hs hle => ?_⟩
  · -- nothing to skip
    rw [skipRound_kept fun _ => hskip ▸ hs] at hround
    exact readLoop_of_parseTail (fuel + 1) hround
  · -- more to skip than there is: the length of the copy is negative
    rw [skipRound_overSkipped hchk (hskip ▸ hs) (hskip ▸ hlt)] at hround
    rw [readLoop, hround, hskip]
    exact ⟨rfl, rfl⟩
  · rw [skipRound_dropped hchk (hskip ▸ hs) (hskip ▸ hle), ← hskip] at hround
    by_cases hb : (dropSkipped L r skip st).readBytes = 0
    · rw [if_neg (not_not_intro hb)] at hround
      rw [fill_eq_self hb]
      exact readLoop_of_parseTail (fuel + 1) hround
    · -- the refill is a round of its own, which does not skip again
      rw [if_pos hb] at hround
      have hst₂ : (dropSkipped L r skip st).pcm.Reliable := by
        rw [hst]
        exact fill_pcm_reliable hok
      have hret₂ : (dropSkipped L r skip st).ret = 0 := by
        rw [hst]
        exact readDevice_ret (hok _) rfl
      have hround₂ : readRound L r (dropSkipped L r skip st)
          = parseTail L (fill (dropSkipped L r skip st)) := by
        calc readRound L r (dropSkipped L r skip st)
            = skipRound L r (fill (dropSkipped L r skip st)) :=
              readRound_of_read (readDevice_ret (hst₂ _) hret₂)
          _ = parseTail L (fill (dropSkipped L r skip st)) :=
              skipRound_kept fun hagain => by
                rw [fill_checkSkip] at hagain
                cases hagain
      rw [readLoop, hround]
      exact readLoop_of_parseTail fuel hround₂

/-! ## What the phases do to a buffer that holds a stretch of the stream -/

/-- The fields that no call changes. -/
structure SameSetup (h h' : SpeechArrayHandle) : Prop where
  outAlign : h'.outAlign = h.outAlign
  buffSize : h'.buffSize = h.buffSize
  hwAlign : h'.hwAlign = h.hwAlign
  ratio : h'.ratio = h.ratio

theorem SameSetup.trans {h h' h'' : SpeechArrayHandle} (h₁ : SameSetup h h')
    (h₂ : SameSetup h' h'') : SameSetup h h'' where
  outAlign := h₂.outAlign.trans h₁.outAlign
  buffSize := h₂.buffSize.trans h₁.buffSize
  hwAlign := h₂.hwAlign.trans h₁.hwAlign
  ratio := h₂.ratio.trans h₁.ratio

theorem Opened.of_sameSetup {B : Int} {h h' : SpeechArrayHandle} (ho : Opened B h)
    (hs : SameSetup h h') (h₀ : 0 ≤ h'.dataSize) (h₄ : h'.dataSize % 4 = 0) : Opened B h' where
  buffSize := hs.buffSize.trans ho.buffSize
  hwAlign := hs.hwAlign.trans ho.hwAlign
  ratio := hs.ratio.trans ho.ratio
  pos := ho.pos
  align := ho.align
  dataNonneg := h₀
  dataWords := h₄

theorem refillSize_congr {h h' : SpeechArrayHandle} (hs : SameSetup h h') (len r a k : Int) :
    refillSize h' len r a k = refillSize h len r a k := by
  rw [refillSize, refillSize, hs.hwAlign, hs.buffSize]

theorem Accepted.of_sameSetup {h h' : SpeechArrayHandle} {len : Int} (ha : Accepted h len)
    (hs : SameSetup h h') : Accepted h' len :=
  ⟨ha.pos, ha.frames, hs.outAlign.symm ▸ ha.guard⟩

/-- Between calls: the handle holds the `n` words of `w` from position `p` on, and the device
goes on behind them. -/
structure Front (w : Nat → Word) (p n : Nat) (h : SpeechArrayHandle) (pcm : Pcm) : Prop where
  captured : pcm.captured = w
  pos : pcm.pos = p + n
  size : h.dataSize = 4 * n
  holds : Holds h.buffer 0 w p n

/-- Inside a call: the buffer holds the `n` words of `w` from position `p` on. -/
structure Window (w : Nat → Word) (p n : Nat) (st : ReadState) : Prop where
  captured : st.pcm.captured = w
  pos : st.pcm.pos = p + n
  size : st.availSize = 4 * n
  holds : Holds st.handle.buffer 0 w p n

theorem Front.start {w : Nat → Word} {p n : Nat} {h : SpeechArrayHandle} {pcm : Pcm}
    (hf : Front w p n h pcm) (len : Int) : Window w p n (readStart h pcm len) where
  captured := hf.captured
  pos := hf.pos
  size := hf.size
  holds := hf.holds

/-- A fill changes the buffer only. -/
theorem fill_handle (st : ReadState) : ∃ b, (fill st).handle = { st.handle with buffer := b } := by
  show ∃ b, (readDevice st).handle = _
  rw [readDevice]
  split
  · dsimp only
    rw [pcmRead]
    split
    · exact ⟨st.handle.buffer, rfl⟩
    · exact ⟨_, rfl⟩
  · exact ⟨st.handle.buffer, rfl⟩

theorem fill_sameSetup (st : ReadState) : SameSetup st.handle (fill st).handle := by
  obtain ⟨b, hb⟩ := fill_handle st
  rw [hb]
  exact ⟨rfl, rfl, rfl, rfl⟩

theorem fill_opened {B : Int} {st : ReadState} (ho : Opened B st.handle) :
    Opened B (fill st).handle := by
  obtain ⟨b, hb⟩ := fill_handle st
  rw [hb]
  exact ⟨ho.buffSize, ho.hwAlign, ho.ratio, ho.pos, ho.align, ho.dataNonneg, ho.dataWords⟩

theorem fill_data (st : ReadState) : (fill st).data = st.data := by
  show (readDevice st).data = _
  rw [readDevice]
  split <;> rfl

theorem pcmWords_eq (count : Int) : pcmWords count = 2 * (count / 8).toNat := rfl

theorem fill_availSize {st : ReadState} (hok : st.pcm.outcome st.pcm.reads = 0) :
    (fill st).availSize = st.availSize + st.readBytes := by
  show (readDevice st).availSize + (readDevice st).readBytes = _
  by_cases hb : st.readBytes = 0
  · rw [readDevice, if_neg (not_not_intro hb)]
  · rw [readDevice_eq hok hb]

/-- A fill of whole hardware frames right behind the window extends it. -/
theorem Window.fill {w : Nat → Word} {p n k : Nat} {st : ReadState} (hw : Window w p n st)
    (hok : st.pcm.outcome st.pcm.reads = 0) (hdata : st.data = 4 * n) (hk : st.readBytes = 4 * k)
    (h8 : st.readBytes % 8 = 0) : Window w p (n + k) (fill st) := by
  have hsize : (SpeechStack.fill st).availSize = 4 * ((n + k : Nat) : Int) := by
    calc (SpeechStack.fill st).availSize = st.availSize + st.readBytes := fill_availSize hok
      _ = 4 * (n : Int) + 4 * (k : Int) := by rw [hw.size, hk]
      _ = 4 * ((n + k : Nat) : Int) := by
          push_cast
          ring
  have hwords : pcmWords st.readBytes = k := by
    rw [pcmWords_eq]
    omega
  by_cases hb : st.readBytes = 0
  · -- nothing to read
    have hfill : readDevice st = st := if_neg (not_not_intro hb)
    obtain rfl : k = 0 := by omega
    refine ⟨?_, ?_, hsize, ?_⟩
    · show (readDevice st).pcm.captured = w
      rw [hfill, hw.captured]
    · show (readDevice st).pcm.pos = _
      rw [hfill, hw.pos, Nat.add_zero]
    · show Holds (readDevice st).handle.buffer 0 w p n
      rw [hfill]
      exact hw.holds
  · have hfill := readDevice_eq hok hb
    refine ⟨?_, ?_, hsize, ?_⟩
    · show (readDevice st).pcm.captured = w
      rw [hfill]
      exact hw.captured
    · show (readDevice st).pcm.pos = _
      rw [hfill]
      show st.pcm.pos + pcmWords st.readBytes = _
      rw [hw.pos, hwords, Nat.add_assoc]
    · show Holds (readDevice st).handle.buffer 0 w p (n + k)
      rw [hfill]
      show Holds (store st.handle.buffer (st.data / 4).toNat (pcmWords st.readBytes)
        fun i => st.pcm.captured (st.pcm.pos + i)) 0 w p (n + k)
      -- the device writes right behind the `n` words that are held
      have htarget : (st.data / 4).toNat = 0 + n := by omega
      rw [htarget, hwords, hw.captured, hw.pos]
      exact hw.holds.store_append k

/-- The shift drops words from the front of the window. -/
theorem Window.dropSkipped {w : Nat → Word} {p n s : Nat} {st : ReadState}
    (hw : Window w p n st) (hs : s ≤ n) (len readSize : Int) :
    Window w (p + s) (n - s) (dropSkipped len readSize (4 * s) st) where
  captured := hw.captured
  pos := by
    show st.pcm.pos = _
    rw [hw.pos]
    omega
  size := by
    show st.availSize - 4 * s = _
    rw [hw.size]
    omega
  holds := by
    have hsize := hw.size
    show Holds (memmove st.handle.buffer 0 (4 * (s : Int) / 4).toNat
      ((st.availSize - 4 * s) / 4).toNat) 0 w (p + s) (n - s)
    have hdrop := hw.holds.drop s
    rw [Nat.zero_add] at hdrop
    have hsrc : (4 * (s : Int) / 4).toNat = s := by omega
    rw [hsrc]
    exact hdrop.memmove (by omega) 0

/-- The frames that the decoder meets: those of the buffer that start in the words of the
parse window, cut down to whole frames. -/
def decoded (st : ReadState) (l : Nat) : List Nat :=
  framesFrom st.handle.buffer 0 (12 * (l / 12))

/-- **The end of a call.** From a window of `n` words the decoder is given `l` words, the
request or everything; the call returns the packed frames it met and keeps the rest. -/
theorem parseTail_spec {w : Nat → Word} {p n l : Nat} {len : Int} {st : ReadState}
    (hw : Window w p n st) (hlen : len = (len.toNat : Int)) (hl : l = min len.toNat n)
    (h12 : 12 ≤ l) :
    ∃ st', parseTail len st = .done st' (packFrames st.handle.buffer (decoded st l)) ∧
      st'.ret = 12 * ((decoded st l).length : Int) ∧
      Front w (p + l) (n - l) st'.handle st'.pcm ∧ SameSetup st.handle st'.handle ∧
      st'.pcm.outcome = st.pcm.outcome := by
  have hsize := hw.size
  have hparse : parseWindow len st.availSize = 4 * (l : Int) := by
    rw [parseWindow_eq]
    omega
  have hwin : windowWords (4 * (l : Int)) = 12 * (l / 12) := by
    rw [windowWords, MINI_SINGLE_SAMPLE_BYTES]
    omega
  obtain ⟨hret, hload, hkeep⟩ := parseDataInt32_spec st.handle.buffer
    (show (48 : Int) ≤ 4 * (l : Int) by omega)
  rw [hwin] at hret hload hkeep
  -- the packed frames are shorter than what they are decoded from
  have hshort : 12 * (decoded st l).length ≤ 12 * (l / 12) + 11 := framesFrom_length_le _ _ _
  change (parseDataInt32 st.handle.buffer (4 * (l : Int))).2
    = 12 * ((decoded st l).length : Int) at hret
  have hbuff : load (parseDataInt32 st.handle.buffer (4 * (l : Int))).1 0
      ((parseDataInt32 st.handle.buffer (4 * (l : Int))).2 / 4).toNat
      = packFrames st.handle.buffer (decoded st l) := by
    rw [hret, show (12 * ((decoded st l).length : Int) / 4).toNat = 3 * (decoded st l).length by
      omega]
    exact hload
  -- so the decoder has not touched the rest of the window
  have htail : Holds (parseDataInt32 st.handle.buffer (4 * (l : Int))).1 l w (p + l) (n - l) := by
    intro i hi
    rw [hkeep (l + i) (by show 3 * (decoded st l).length ≤ _; omega)]
    have := hw.holds (l + i) (by omega)
    rw [Nat.zero_add] at this
    rw [this, Nat.add_assoc]
  rw [parseTail]
  dsimp only
  rw [hparse, if_neg (by omega), hbuff]
  split
  · -- the rest moves to the front, and the buffer behind it is cleared
    rename_i hpos
    refine ⟨_, rfl, hret, ⟨hw.captured, ?_, ?_, ?_⟩, ⟨rfl, rfl, rfl, rfl⟩, rfl⟩
    · show st.pcm.pos = _
      rw [hw.pos]
      omega
    · show st.availSize - 4 * (l : Int) = _
      omega
    · have hmove := (htail.memmove (k := ((st.availSize - 4 * (l : Int)) / 4).toNat)
        (by omega) 0)
      have hsrc : (4 * (l : Int) / 4).toNat = l := by omega
      show Holds (memset (memmove _ 0 (4 * (l : Int) / 4).toNat _) _ _ _) 0 w (p + l) (n - l)
      rw [hsrc]
      exact hmove.memset (Or.inl (by omega))
  · rename_i hpos
    have hn : n - l = 0 := by omega
    refine ⟨_, rfl, hret, ⟨hw.captured, ?_, ?_, ?_⟩, ⟨rfl, rfl, rfl, rfl⟩, rfl⟩
    · show st.pcm.pos = _
      rw [hw.pos]
      omega
    · show st.availSize - 4 * (l : Int) = _
      omega
    · rw [hn]
      exact holds_zero _ _ _ _

/-- A window decodes to the frames of the stream when no frame is cut by its end: neither one
of the stream nor one that the words behind the window would complete. -/
theorem Window.packFrames_decoded {w : Nat → Word} {p n l : Nat} {st : ReadState}
    (hw : Window w p n st)
    (hcut : ∀ i, i < 12 * (l / 12) → n < i + 12 →
      ¬ Tagged st.handle.buffer i ∧ ¬ Tagged w (p + i)) :
    packFrames st.handle.buffer (decoded st l)
      = packFrames w (framesFrom w p (12 * (l / 12))) := by
  refine packFrames_framesFrom_congr fun i hi hor j hj => ?_
  rw [Nat.zero_add, Nat.add_assoc p i j]
  have hin : i + 12 ≤ n := by
    -- a frame that is not whole in the window is cut, here or in the stream
    by_contra hcon
    have hno := hcut i hi (by omega)
    rw [Nat.zero_add] at hor
    exact hor.elim hno.1 hno.2
  have := hw.holds (i + j) (by omega)
  rwa [Nat.zero_add] at this

/-- A frame is seen in the buffer where the window holds all of it. -/
theorem Window.tagged_iff {w : Nat → Word} {p n i : Nat} {st : ReadState}
    (hw : Window w p n st) (hi : i + 12 ≤ n) :
    Tagged st.handle.buffer i ↔ Tagged w (p + i) := by
  refine tagged_congr fun j hj => ?_
  have := hw.holds (i + j) (by omega)
  rwa [Nat.zero_add, ← Nat.add_assoc] at this

theorem Window.silent_iff {w : Nat → Word} {p n i : Nat} {st : ReadState}
    (hw : Window w p n st) (hi : i + 12 ≤ n) :
    Silent st.handle.buffer i ↔ Silent w (p + i) := by
  refine silent_congr fun j hj => ?_
  have := hw.holds (i + j) (by omega)
  rwa [Nat.zero_add, ← Nat.add_assoc] at this

/-- The step of a session whose call ends in the decoding of a window. -/
theorem Session.step_of_window {w : Nat → Word} {p n l fuel : Nat} {L len : Int} {s : Session}
    {st : ReadState} (hcall : speechArrayRead fuel s.handle s.pcm len = (parseTail L st).result)
    (hw : Window w p n st) (hL : L = (L.toNat : Int)) (hl : l = min L.toNat n) (h12 : 12 ≤ l) :
    ∃ t, s.step fuel len = some t ∧
      t.replies = s.replies ++
        [(12 * ((decoded st l).length : Int), packFrames st.handle.buffer (decoded st l))] ∧
      Front w (p + l) (n - l) t.handle t.pcm ∧ SameSetup st.handle t.handle ∧
      t.pcm.outcome = st.pcm.outcome := by
  obtain ⟨st', hparse, hret, hfront, hsetup, hout⟩ := parseTail_spec hw hL hl h12
  rw [hparse] at hcall
  refine ⟨⟨st'.handle, st'.pcm,
    s.replies ++ [(st'.ret, packFrames st.handle.buffer (decoded st l))]⟩, ?_, ?_, hfront,
    hsetup, hout⟩
  · rw [Session.step, hcall]
    rfl
  · rw [hret]

end SpeechStack
