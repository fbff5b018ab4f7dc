import SpeechStack.Tinyalsa.State

set_option autoImplicit false

/-! # Hardware parameters

What `pcm_open` asks of the driver: masks of the values that it would take and intervals for
those that are numbers. `Allows p v` says that `p` leaves room for the setup `v`, which has one
value for each parameter. `pcm_open` starts with all setups and narrows them down to the ones
that the configuration describes (`hwRequest_allows`), but for `PCM_FORMAT_S8`: it takes a sample
of this format for one of 16 bits.
-/

namespace SpeechStack.Tinyalsa

open Wrap

def SNDRV_PCM_HW_PARAM_ACCESS : Nat := 0
def SNDRV_PCM_HW_PARAM_FORMAT : Nat := 1
def SNDRV_PCM_HW_PARAM_SUBFORMAT : Nat := 2
def SNDRV_PCM_HW_PARAM_FIRST_MASK : Nat := SNDRV_PCM_HW_PARAM_ACCESS
def SNDRV_PCM_HW_PARAM_LAST_MASK : Nat := SNDRV_PCM_HW_PARAM_SUBFORMAT
def SNDRV_PCM_HW_PARAM_SAMPLE_BITS : Nat := 8
def SNDRV_PCM_HW_PARAM_FRAME_BITS : Nat := 9
def SNDRV_PCM_HW_PARAM_CHANNELS : Nat := 10
def SNDRV_PCM_HW_PARAM_RATE : Nat := 11
def SNDRV_PCM_HW_PARAM_PERIOD_SIZE : Nat := 13
def SNDRV_PCM_HW_PARAM_PERIODS : Nat := 15
def SNDRV_PCM_HW_PARAM_TICK_TIME : Nat := 19
def SNDRV_PCM_HW_PARAM_FIRST_INTERVAL : Nat := SNDRV_PCM_HW_PARAM_SAMPLE_BITS
def SNDRV_PCM_HW_PARAM_LAST_INTERVAL : Nat := SNDRV_PCM_HW_PARAM_TICK_TIME

def SNDRV_MASK_MAX : Nat := 256

def SNDRV_PCM_ACCESS_MMAP_INTERLEAVED : Nat := 0
def SNDRV_PCM_ACCESS_RW_INTERLEAVED : Nat := 3
def SNDRV_PCM_SUBFORMAT_STD : Nat := 0
def SNDRV_PCM_HW_PARAMS_NO_PERIOD_WAKEUP : BitVec 32 := 4

def PCM_FORMAT_S8 : Nat := 2

/-- `pcm_format_to_alsa(format)`. -/
def pcmFormatToAlsa (format : Nat) : Nat :=
  if format = PCM_FORMAT_S32_LE then 10
  else if format = PCM_FORMAT_S8 then 0
  else if format = PCM_FORMAT_S24_3LE then 32
  else if format = PCM_FORMAT_S24_LE then 6
  else 2

/-- `struct snd_interval`. -/
structure Interval where
  min : Nat
  max : Nat
  integer : Bool
  deriving DecidableEq

/-- `struct snd_pcm_hw_params`: a mask for each mask parameter, in words, and an interval for
each of the others. -/
structure HwParams where
  flags : BitVec 32
  masks : Nat → Nat → BitVec 32
  intervals : Nat → Interval
  rmask : BitVec 32
  cmask : BitVec 32
  info : BitVec 32

def paramIsMask (n : Nat) : Bool :=
  decide (SNDRV_PCM_HW_PARAM_FIRST_MASK ≤ n) && decide (n ≤ SNDRV_PCM_HW_PARAM_LAST_MASK)

def paramIsInterval (n : Nat) : Bool :=
  decide (SNDRV_PCM_HW_PARAM_FIRST_INTERVAL ≤ n) && decide (n ≤ SNDRV_PCM_HW_PARAM_LAST_INTERVAL)

/-- `param_set_mask(p, n, bit)`: of the words, only the first two are cleared. -/
def paramSetMask (p : HwParams) (n bit : Nat) : HwParams :=
  if bit ≥ SNDRV_MASK_MAX then p
  else if paramIsMask n then
    let bits := fun word => if word = 0 ∨ word = 1 then 0 else p.masks n word
    let bits := Function.update bits (bit / 32) (bits (bit / 32) ||| 1 <<< (bit % 32))
    { p with masks := Function.update p.masks n bits }
  else p

/-- `param_set_min(p, n, val)`. -/
def paramSetMin (p : HwParams) (n val : Nat) : HwParams :=
  if paramIsInterval n then
    { p with intervals := Function.update p.intervals n { p.intervals n with min := val } }
  else p

/-- `param_set_int(p, n, val)`. -/
def paramSetInt (p : HwParams) (n val : Nat) : HwParams :=
  if paramIsInterval n then
    { p with intervals := Function.update p.intervals n ⟨val, val, true⟩ }
  else p

/-- `param_get_int(p, n)`: 0 for what is not known to be a single number. -/
def paramGetInt (p : HwParams) (n : Nat) : Nat :=
  if paramIsInterval n then
    if (p.intervals n).integer then (p.intervals n).max else 0
  else 0

/-- What `param_init` makes of any parameters. -/
def paramInit : HwParams where
  flags := 0
  masks n word := if paramIsMask n ∧ (word = 0 ∨ word = 1) then BitVec.allOnes 32 else 0
  intervals n := if paramIsInterval n then ⟨0, 2 ^ 32 - 1, false⟩ else ⟨0, 0, false⟩
  rmask := BitVec.allOnes 32
  cmask := 0
  info := BitVec.allOnes 32

/-- `pcm_mask_test(m, index)`. -/
def pcmMaskTest (m : Nat → BitVec 32) (index : Nat) : Bool :=
  if index / 32 ≥ SNDRV_MASK_MAX / 32 then false
  else ((m (index / 32)) >>> (index % 32)) &&& 1 != 0

/-- The parameters that `pcm_open` sends to the driver. -/
def hwRequest (flags : BitVec 32) (config : PcmConfig) : HwParams :=
  let params := paramInit
  let params := paramSetMask params SNDRV_PCM_HW_PARAM_FORMAT (pcmFormatToAlsa config.format)
  let params := paramSetMask params SNDRV_PCM_HW_PARAM_SUBFORMAT SNDRV_PCM_SUBFORMAT_STD
  let params := paramSetMin params SNDRV_PCM_HW_PARAM_PERIOD_SIZE config.periodSize
  let params := paramSetInt params SNDRV_PCM_HW_PARAM_SAMPLE_BITS (pcmFormatToBits config.format)
  let params := paramSetInt params SNDRV_PCM_HW_PARAM_FRAME_BITS
    (uint (pcmFormatToBits config.format * config.channels))
  let params := paramSetInt params SNDRV_PCM_HW_PARAM_CHANNELS config.channels
  let params := paramSetInt params SNDRV_PCM_HW_PARAM_PERIODS config.periodCount
  let params := paramSetInt params SNDRV_PCM_HW_PARAM_RATE config.rate
  let params := if flags &&& PCM_NOIRQ != 0 then
      { params with flags := params.flags ||| SNDRV_PCM_HW_PARAMS_NO_PERIOD_WAKEUP }
    else params
  if flags &&& PCM_MMAP != 0 then
    paramSetMask params SNDRV_PCM_HW_PARAM_ACCESS SNDRV_PCM_ACCESS_MMAP_INTERLEAVED
  else paramSetMask params SNDRV_PCM_HW_PARAM_ACCESS SNDRV_PCM_ACCESS_RW_INTERLEAVED

/-! ## Setups -/

/-- The parameters leave room for the setup `v`. -/
structure Allows (p : HwParams) (v : Nat → Nat) : Prop where
  masks : ∀ n, paramIsMask n = true → pcmMaskTest (p.masks n) (v n) = true
  intervals : ∀ n, paramIsInterval n = true →
    (p.intervals n).min ≤ v n ∧ v n ≤ (p.intervals n).max

theorem bit_test {index bit : Nat} (hbit : bit < 32) :
    ((1 : BitVec 32) <<< bit >>> index &&& 1 != 0) = true ↔ index = bit := by
  have hlow : ((1#32 : BitVec 32) <<< bit >>> index).getLsbD 0 = decide (index = bit) := by
    rw [BitVec.getLsbD_ushiftRight, BitVec.getLsbD_shiftLeft, BitVec.getLsbD_one]
    by_cases h : index = bit
    · simp [h, hbit]
    · simp [h]
      omega
  have hand : (1#32 : BitVec 32) <<< bit >>> index &&& 1#32 =
      if index = bit then 1 else 0 := by
    rw [BitVec.and_one_eq_setWidth_ofBool_getLsbD, hlow]
    split <;> simp [*]
  rw [BitVec.ofNat_eq_ofNat, hand]
  split <;> simp [*]

/-- A mask that has been set has one bit. -/
theorem pcmMaskTest_set {n bit index : Nat} (p : HwParams) (hn : paramIsMask n = true)
    (hbit : bit < SNDRV_MASK_MAX) (hhigh : ∀ word, 2 ≤ word → p.masks n word = 0) :
    pcmMaskTest ((paramSetMask p n bit).masks n) index = true ↔ index = bit := by
  have hword : ∀ word, (paramSetMask p n bit).masks n word =
      if word = bit / 32 then (1 : BitVec 32) <<< (bit % 32) else 0 := by
    intro word
    have hcleared : ∀ w, (if w = 0 ∨ w = 1 then (0 : BitVec 32) else p.masks n w) = 0 := by
      intro w
      split
      · rfl
      · exact hhigh w (by omega)
    unfold paramSetMask
    rw [if_neg (by omega), if_pos hn]
    simp only [Function.update_self, Function.update_apply, hcleared]
    split
    · exact BitVec.zero_or
    · rfl
  unfold pcmMaskTest SNDRV_MASK_MAX at *
  rw [hword]
  by_cases hsame : index / 32 = bit / 32
  · rw [if_neg (by omega), if_pos hsame, bit_test (Nat.mod_lt _ (by omega))]
    omega
  · rw [if_neg hsame]
    have hne : index ≠ bit := fun heq => hsame (by rw [heq])
    simp [hne]

theorem paramSetMask_masks_of_ne {n n' : Nat} (p : HwParams) (bit : Nat) (h : n' ≠ n) :
    (paramSetMask p n bit).masks n' = p.masks n' := by
  unfold paramSetMask
  split
  · rfl
  · split
    · exact Function.update_of_ne h _ _
    · rfl

@[simp] theorem paramSetMask_intervals (p : HwParams) (n bit : Nat) :
    (paramSetMask p n bit).intervals = p.intervals := by
  unfold paramSetMask
  split
  · rfl
  · split <;> rfl

@[simp] theorem paramSetMin_masks (p : HwParams) (n val : Nat) :
    (paramSetMin p n val).masks = p.masks := by
  unfold paramSetMin
  split <;> rfl

@[simp] theorem paramSetInt_masks (p : HwParams) (n val : Nat) :
    (paramSetInt p n val).masks = p.masks := by
  unfold paramSetInt
  split <;> rfl

/-- The parameters that `pcm_open` sets to a number. -/
def namedNumbers : List Nat :=
  [SNDRV_PCM_HW_PARAM_SAMPLE_BITS, SNDRV_PCM_HW_PARAM_FRAME_BITS, SNDRV_PCM_HW_PARAM_CHANNELS,
    SNDRV_PCM_HW_PARAM_PERIODS, SNDRV_PCM_HW_PARAM_RATE]

/-- The way that the library accesses the samples. -/
def accessOf (flags : BitVec 32) : Nat :=
  if flags &&& PCM_MMAP != 0 then SNDRV_PCM_ACCESS_MMAP_INTERLEAVED
  else SNDRV_PCM_ACCESS_RW_INTERLEAVED

/-- The setup meets the request: of the numbers that it names, all are met but for the size of a
period, which may be larger. -/
structure Requested (flags : BitVec 32) (config : PcmConfig) (v : Nat → Nat) : Prop where
  access : v SNDRV_PCM_HW_PARAM_ACCESS = accessOf flags
  format : v SNDRV_PCM_HW_PARAM_FORMAT = pcmFormatToAlsa config.format
  subformat : v SNDRV_PCM_HW_PARAM_SUBFORMAT = SNDRV_PCM_SUBFORMAT_STD
  sampleBits : v SNDRV_PCM_HW_PARAM_SAMPLE_BITS = pcmFormatToBits config.format
  frameBits : v SNDRV_PCM_HW_PARAM_FRAME_BITS =
    uint (pcmFormatToBits config.format * config.channels)
  channels : v SNDRV_PCM_HW_PARAM_CHANNELS = config.channels
  periods : v SNDRV_PCM_HW_PARAM_PERIODS = config.periodCount
  rate : v SNDRV_PCM_HW_PARAM_RATE = config.rate
  periodSize : config.periodSize ≤ v SNDRV_PCM_HW_PARAM_PERIOD_SIZE
  others : ∀ n, paramIsInterval n = true → n ∉ namedNumbers → v n < 2 ^ 32

/-- In how many bits a sample of an ALSA format is stored. -/
def storedBits (alsaFormat : Nat) : Nat :=
  match alsaFormat with
  | 0 => 8 -- SNDRV_PCM_FORMAT_S8
  | 2 => 16 -- SNDRV_PCM_FORMAT_S16_LE
  | 32 => 24 -- SNDRV_PCM_FORMAT_S24_3LE
  | _ => 32 -- SNDRV_PCM_FORMAT_S24_LE, SNDRV_PCM_FORMAT_S32_LE

/-- The setup is one that the configuration describes: samples and frames are as wide as its
format and channels make them. -/
structure Described (flags : BitVec 32) (config : PcmConfig) (v : Nat → Nat) : Prop where
  access : v SNDRV_PCM_HW_PARAM_ACCESS = accessOf flags
  format : v SNDRV_PCM_HW_PARAM_FORMAT = pcmFormatToAlsa config.format
  subformat : v SNDRV_PCM_HW_PARAM_SUBFORMAT = SNDRV_PCM_SUBFORMAT_STD
  sampleBits : v SNDRV_PCM_HW_PARAM_SAMPLE_BITS = storedBits (v SNDRV_PCM_HW_PARAM_FORMAT)
  frameBits : v SNDRV_PCM_HW_PARAM_FRAME_BITS =
    v SNDRV_PCM_HW_PARAM_SAMPLE_BITS * v SNDRV_PCM_HW_PARAM_CHANNELS
  channels : v SNDRV_PCM_HW_PARAM_CHANNELS = config.channels
  periods : v SNDRV_PCM_HW_PARAM_PERIODS = config.periodCount
  rate : v SNDRV_PCM_HW_PARAM_RATE = config.rate
  periodSize : config.periodSize ≤ v SNDRV_PCM_HW_PARAM_PERIOD_SIZE
  others : ∀ n, paramIsInterval n = true → n ∉ namedNumbers → v n < 2 ^ 32

theorem pcmFormatToAlsa_lt (format : Nat) : pcmFormatToAlsa format < SNDRV_MASK_MAX := by
  unfold pcmFormatToAlsa SNDRV_MASK_MAX
  split_ifs <;> omega

theorem paramSetMin_intervals {n : Nat} (p : HwParams) (val n' : Nat)
    (hn : paramIsInterval n = true) : (paramSetMin p n val).intervals n' =
      if n' = n then { p.intervals n with min := val } else p.intervals n' := by
  unfold paramSetMin
  rw [if_pos hn]
  exact Function.update_apply _ _ _ _

theorem paramSetInt_intervals {n : Nat} (p : HwParams) (val n' : Nat)
    (hn : paramIsInterval n = true) : (paramSetInt p n val).intervals n' =
      if n' = n then ⟨val, val, true⟩ else p.intervals n' := by
  unfold paramSetInt
  rw [if_pos hn]
  exact Function.update_apply _ _ _ _

/-- The intervals of the request, the last one set first. -/
theorem hwRequest_intervals (flags : BitVec 32) (config : PcmConfig) {n : Nat}
    (hn : paramIsInterval n = true) : (hwRequest flags config).intervals n =
      if n = SNDRV_PCM_HW_PARAM_RATE then ⟨config.rate, config.rate, true⟩
      else if n = SNDRV_PCM_HW_PARAM_PERIODS then ⟨config.periodCount, config.periodCount, true⟩
      else if n = SNDRV_PCM_HW_PARAM_CHANNELS then ⟨config.channels, config.channels, true⟩
      else if n = SNDRV_PCM_HW_PARAM_FRAME_BITS then
        ⟨uint (pcmFormatToBits config.format * config.channels),
          uint (pcmFormatToBits config.format * config.channels), true⟩
      else if n = SNDRV_PCM_HW_PARAM_SAMPLE_BITS then
        ⟨pcmFormatToBits config.format, pcmFormatToBits config.format, true⟩
      else if n = SNDRV_PCM_HW_PARAM_PERIOD_SIZE then ⟨config.periodSize, 2 ^ 32 - 1, false⟩
      else ⟨0, 2 ^ 32 - 1, false⟩ := by
  have hwake : ∀ (p : HwParams) (b : Bool), (if b then
      { p with flags := p.flags ||| SNDRV_PCM_HW_PARAMS_NO_PERIOD_WAKEUP } else p).intervals =
        p.intervals := by
    intro p b
    cases b <;> rfl
  have haccess : ∀ (p q : HwParams) (b : Bool), p.intervals = q.intervals →
      (if b then p else q).intervals = q.intervals := by
    rintro p q b h
    cases b
    · rfl
    · exact h
  unfold hwRequest
  rw [haccess _ _ _ (by simp), paramSetMask_intervals, hwake,
    paramSetInt_intervals _ _ _ (by decide), paramSetInt_intervals _ _ _ (by decide),
    paramSetInt_intervals _ _ _ (by decide), paramSetInt_intervals _ _ _ (by decide),
    paramSetInt_intervals _ _ _ (by decide), paramSetMin_intervals _ _ _ (by decide),
    paramSetMask_intervals, paramSetMask_intervals]
  simp [paramInit, hn, show paramIsInterval SNDRV_PCM_HW_PARAM_PERIOD_SIZE = true by decide]

theorem paramSetMask_masks_congr {p q : HwParams} (h : p.masks = q.masks) (n bit : Nat) :
    (paramSetMask p n bit).masks = (paramSetMask q n bit).masks := by
  unfold paramSetMask
  split
  · exact h
  · split
    · simp only [h]
    · exact h

theorem paramInit_masks_high {n word : Nat} (h : 2 ≤ word) : paramInit.masks n word = 0 := by
  show (if paramIsMask n = true ∧ (word = 0 ∨ word = 1) then BitVec.allOnes 32 else 0) = 0
  exact if_neg fun hlow => by omega

/-- The masks of the request are set one after the other. -/
theorem hwRequest_masks (flags : BitVec 32) (config : PcmConfig) :
    (hwRequest flags config).masks =
      (paramSetMask (paramSetMask (paramSetMask paramInit SNDRV_PCM_HW_PARAM_FORMAT
        (pcmFormatToAlsa config.format)) SNDRV_PCM_HW_PARAM_SUBFORMAT SNDRV_PCM_SUBFORMAT_STD)
        SNDRV_PCM_HW_PARAM_ACCESS (accessOf flags)).masks := by
  have hwake : ∀ (p : HwParams) (b : Bool), (if b then
      { p with flags := p.flags ||| SNDRV_PCM_HW_PARAMS_NO_PERIOD_WAKEUP } else p).masks =
        p.masks := by
    intro p b
    cases b <;> rfl
  unfold hwRequest accessOf
  dsimp only
  split
  · exact paramSetMask_masks_congr (by rw [hwake]; simp) _ _
  · exact paramSetMask_masks_congr (by rw [hwake]; simp) _ _

theorem hwRequest_mask_tests (flags : BitVec 32) (config : PcmConfig) (index : Nat) :
    (pcmMaskTest ((hwRequest flags config).masks SNDRV_PCM_HW_PARAM_ACCESS) index = true ↔
      index = accessOf flags) ∧
    (pcmMaskTest ((hwRequest flags config).masks SNDRV_PCM_HW_PARAM_FORMAT) index = true ↔
      index = pcmFormatToAlsa config.format) ∧
    (pcmMaskTest ((hwRequest flags config).masks SNDRV_PCM_HW_PARAM_SUBFORMAT) index = true ↔
      index = SNDRV_PCM_SUBFORMAT_STD) := by
  have haccess : accessOf flags < SNDRV_MASK_MAX := by
    unfold accessOf
    split <;> decide
  rw [hwRequest_masks]
  refine ⟨?_, ?_, ?_⟩
  · refine pcmMaskTest_set _ (by decide) haccess fun word hword => ?_
    rw [paramSetMask_masks_of_ne _ _ (by decide), paramSetMask_masks_of_ne _ _ (by decide)]
    exact paramInit_masks_high hword
  · rw [paramSetMask_masks_of_ne _ _ (by decide), paramSetMask_masks_of_ne _ _ (by decide)]
    exact pcmMaskTest_set _ (by decide) (pcmFormatToAlsa_lt _) fun _ => paramInit_masks_high
  · rw [paramSetMask_masks_of_ne _ _ (by decide)]
    refine pcmMaskTest_set _ (by decide) (by decide) fun word hword => ?_
    rw [paramSetMask_masks_of_ne _ _ (by decide)]
    exact paramInit_masks_high hword

/-- The setups that the parameters of `pcm_open` leave room for, by the values it sets. -/
theorem allows_hwRequest (flags : BitVec 32) (config : PcmConfig) (v : Nat → Nat) :
    Allows (hwRequest flags config) v ↔ Requested flags config v := by
  constructor
  · rintro ⟨hmasks, hints⟩
    have hnum : ∀ n, paramIsInterval n = true → ∀ a b c,
        (hwRequest flags config).intervals n = ⟨a, b, c⟩ → a ≤ v n ∧ v n ≤ b := by
      intro n hn a b c h
      have := hints n hn
      rwa [h] at this
    have hone : ∀ n, paramIsInterval n = true → ∀ a,
        (hwRequest flags config).intervals n = ⟨a, a, true⟩ → v n = a := by
      intro n hn a h
      exact le_antisymm (hnum n hn a a true h).2 (hnum n hn a a true h).1
    exact {
      access := (hwRequest_mask_tests flags config _).1.mp (hmasks _ (by decide))
      format := (hwRequest_mask_tests flags config _).2.1.mp (hmasks _ (by decide))
      subformat := (hwRequest_mask_tests flags config _).2.2.mp (hmasks _ (by decide))
      sampleBits := hone _ (by decide) _ (by rw [hwRequest_intervals _ _ (by decide)]; rfl)
      frameBits := hone _ (by decide) _ (by rw [hwRequest_intervals _ _ (by decide)]; rfl)
      channels := hone _ (by decide) _ (by rw [hwRequest_intervals _ _ (by decide)]; rfl)
      periods := hone _ (by decide) _ (by rw [hwRequest_intervals _ _ (by decide)]; rfl)
      rate := hone _ (by decide) _ (by rw [hwRequest_intervals _ _ (by decide)]; rfl)
      periodSize := (hnum SNDRV_PCM_HW_PARAM_PERIOD_SIZE (by decide) config.periodSize
        (2 ^ 32 - 1) false (by rw [hwRequest_intervals _ _ (by decide)]; rfl)).1
      others := by
        intro n hn hnot
        have hmax := (hints n hn).2
        rw [hwRequest_intervals flags config hn] at hmax
        simp only [namedNumbers, List.mem_cons, List.not_mem_nil, or_false, not_or] at hnot
        obtain ⟨h1, h2, h3, h4, h5⟩ := hnot
        rw [if_neg h5, if_neg h4, if_neg h3, if_neg h2, if_neg h1] at hmax
        split at hmax
        · exact Nat.lt_of_le_pred (by decide) hmax
        · exact Nat.lt_of_le_pred (by decide) hmax }
  · intro h
    obtain ⟨haccess, hformat, hsubformat⟩ :
        (pcmMaskTest ((hwRequest flags config).masks 0) (v 0) = true) ∧
        (pcmMaskTest ((hwRequest flags config).masks 1) (v 1) = true) ∧
        (pcmMaskTest ((hwRequest flags config).masks 2) (v 2) = true) :=
      ⟨(hwRequest_mask_tests flags config _).1.mpr h.access,
        (hwRequest_mask_tests flags config _).2.1.mpr h.format,
        (hwRequest_mask_tests flags config _).2.2.mpr h.subformat⟩
    constructor
    · intro n hn
      have hle : n ≤ 2 := by
        simp only [paramIsMask, Bool.and_eq_true, decide_eq_true_eq] at hn
        exact hn.2
      interval_cases n
      · exact haccess
      · exact hformat
      · exact hsubformat
    · intro n hn
      rw [hwRequest_intervals flags config hn]
      split_ifs with h1 h2 h3 h4 h5 h6
      · exact ⟨(h1 ▸ h.rate).ge, (h1 ▸ h.rate).le⟩
      · exact ⟨(h2 ▸ h.periods).ge, (h2 ▸ h.periods).le⟩
      · exact ⟨(h3 ▸ h.channels).ge, (h3 ▸ h.channels).le⟩
      · exact ⟨(h4 ▸ h.frameBits).ge, (h4 ▸ h.frameBits).le⟩
      · exact ⟨(h5 ▸ h.sampleBits).ge, (h5 ▸ h.sampleBits).le⟩
      · exact ⟨h6 ▸ h.periodSize, Nat.le_pred_of_lt (h.others n hn (by subst h6; decide))⟩
      · refine ⟨Nat.zero_le _, Nat.le_pred_of_lt (h.others n hn ?_)⟩
        simp [namedNumbers, h1, h2, h3, h4, h5]

/-- `pcm_format_to_bits` has no case for `PCM_FORMAT_S8`. -/
theorem storedBits_alsa_iff (format : Nat) :
    storedBits (pcmFormatToAlsa format) = pcmFormatToBits format ↔ format ≠ PCM_FORMAT_S8 := by
  unfold pcmFormatToAlsa pcmFormatToBits PCM_FORMAT_S32_LE PCM_FORMAT_S8 PCM_FORMAT_S24_3LE
    PCM_FORMAT_S24_LE
  by_cases h₁ : format = 1
  · subst h₁
    decide
  by_cases h₂ : format = 2
  · subst h₂
    decide
  by_cases h₃ : format = 3
  · subst h₃
    decide
  by_cases h₄ : format = 4
  · subst h₄
    decide
  simp [h₁, h₂, h₃, h₄, storedBits]

/-- The widths that `pcm_open` asks for are those of the format and the channels: the format is not
`PCM_FORMAT_S8`, and a frame has less than 2³² bits. -/
def PcmConfig.Storable (config : PcmConfig) : Prop :=
  config.format ≠ PCM_FORMAT_S8 ∧ pcmFormatToBits config.format * config.channels < 2 ^ 32

theorem uint_frameBits_iff (bits channels : Nat) :
    uint (bits * channels) = bits * channels ↔ bits * channels < 2 ^ 32 := by
  have hcast := uint_cast ((bits : Int) * channels)
  constructor
  · intro h
    have hlt := Int.emod_lt_of_pos ((bits : Int) * channels) (show (0 : Int) < 2 ^ 32 by decide)
    rw [← hcast, h] at hlt
    exact_mod_cast hlt
  · intro h
    exact_mod_cast uint_natCast h

theorem PcmConfig.Storable.described {config : PcmConfig} (h : config.Storable)
    (flags : BitVec 32) (v : Nat → Nat) :
    Requested flags config v ↔ Described flags config v := by
  have hbits := (storedBits_alsa_iff config.format).mpr h.1
  have hframe := (uint_frameBits_iff _ _).mpr h.2
  constructor
  · intro hv
    exact ⟨hv.access, hv.format, hv.subformat, by rw [hv.sampleBits, hv.format, hbits],
      by rw [hv.frameBits, hv.sampleBits, hv.channels, hframe], hv.channels, hv.periods, hv.rate,
      hv.periodSize, hv.others⟩
  · intro hv
    have hsample : v SNDRV_PCM_HW_PARAM_SAMPLE_BITS = pcmFormatToBits config.format := by
      rw [hv.sampleBits, hv.format, hbits]
    exact ⟨hv.access, hv.format, hv.subformat, hsample,
      by rw [hv.frameBits, hsample, hv.channels, hframe], hv.channels, hv.periods, hv.rate,
      hv.periodSize, hv.others⟩

/-- **The request.** Unless the format is `PCM_FORMAT_S8` or a frame has 2³² bits, the setups that
the parameters of `pcm_open` leave room for are those that the configuration describes; otherwise
there is room for none that it describes. -/
theorem hwRequest_allows (flags : BitVec 32) (config : PcmConfig) :
    (config.Storable → ∀ v, Allows (hwRequest flags config) v ↔ Described flags config v) ∧
    (¬ config.Storable →
      ∀ v, Allows (hwRequest flags config) v → ¬ Described flags config v) := by
  constructor
  · intro hstorable v
    rw [allows_hwRequest]
    exact hstorable.described flags v
  · intro hno v hallows hv
    have hreq := (allows_hwRequest flags config v).mp hallows
    -- the two widths of the setup agree only for a storable configuration
    have hbits : storedBits (pcmFormatToAlsa config.format) = pcmFormatToBits config.format := by
      rw [← hreq.sampleBits, hv.sampleBits, hv.format]
    have hframe : uint (pcmFormatToBits config.format * config.channels) =
        pcmFormatToBits config.format * config.channels := by
      rw [← hreq.frameBits, hv.frameBits, hreq.sampleBits, hv.channels]
    exact hno ⟨(storedBits_alsa_iff _).mp hbits, (uint_frameBits_iff _ _).mp hframe⟩

theorem hwRequest_allows_stereo : ∀ v,
    Allows (hwRequest PCM_IN ⟨2, 44100, 1024, 4, PCM_FORMAT_S16_LE, 0, 0, 0, 0, 0⟩) v ↔
      Described PCM_IN ⟨2, 44100, 1024, 4, PCM_FORMAT_S16_LE, 0, 0, 0, 0, 0⟩ v :=
  (hwRequest_allows PCM_IN ⟨2, 44100, 1024, 4, PCM_FORMAT_S16_LE, 0, 0, 0, 0, 0⟩).1
    ⟨by decide, by decide⟩

end SpeechStack.Tinyalsa
