import SpeechStack.Lib.Ledger
import SpeechStack.Tinyalsa.Flow
import SpeechStack.Tinyalsa.Params

set_option autoImplicit false

/-! # `pcm_open` and `pcm_close`

A stream is opened in many calls, each of which may fail, and a failed `pcm_open` still returns a
handle, which the caller has to close. Every call of the kernel and of the allocator is made once
at most, so that `PcmAnswers`, with one answer for each, stands for all that can happen; an
answer that is a number is an `errno`, with 0 for a success. `log` is the ledger of what the
library acquires and releases.
-/

namespace SpeechStack.Tinyalsa

open Wrap Ledger

def PCM_MONOTONIC : BitVec 32 := 0x00000008

/-- What the library holds for a stream: the two blocks of memory, the file and the three
mappings of it. -/
inductive PcmResource where
  | handle
  | fd
  | buffer
  | status
  | control
  | syncPtr
  deriving DecidableEq

/-- `struct snd_pcm_sw_params`. -/
structure SwParams where
  tstampMode : Nat
  periodStep : Nat
  availMin : Int
  xferAlign : Nat
  startThreshold : Nat
  stopThreshold : Nat
  silenceThreshold : Nat
  silenceSize : Nat
  boundary : Nat
  deriving DecidableEq

/-- What the calls of `pcm_open` come back with. -/
structure PcmAnswers where
  /-- there is memory for the handle -/
  handle : Bool
  /-- `open`: the `errno` or the descriptor -/
  fd : Except Nat Nat
  info : Nat
  /-- `SNDRV_PCM_IOCTL_HW_PARAMS`: the `errno` or the parameters that the driver has settled on -/
  hwParams : HwParams → Except Nat HwParams
  buffer : Nat
  swParams : SwParams → Nat
  /-- the status and the control page can be mapped -/
  status : Bool
  control : Bool
  /-- there is memory for `sync_ptr` -/
  syncPtr : Bool
  ttstamp : Nat

/-- What `mmap` has left in `mmap_buffer`. -/
inductive MapPtr where
  | null
  | failed
  | mapped
  deriving DecidableEq

/-- The handle, the configuration of the caller, which `pcm_open` writes to as well, and the
ledger. -/
structure PcmOpening where
  pcm : Pcm
  mmapBuffer : MapPtr
  /-- the pointers that are not null -/
  mmapStatus : Bool
  mmapControl : Bool
  syncPtr : Bool
  /-- `mmap_control->avail_min` -/
  controlAvailMin : Int
  /-- the text of `pcm_get_error`, with the error whose `strerror` follows it -/
  error : Option (String × Int)
  config : PcmConfig
  log : List (Op PcmResource)

def PcmOpening.oops (o : PcmOpening) (e : Int) (text : String) : PcmOpening :=
  { o with error := some (text, e) }

def PcmOpening.got (o : PcmOpening) (r : PcmResource) : PcmOpening :=
  { o with log := o.log ++ [.acquire r] }

def PcmOpening.gave (o : PcmOpening) (r : PcmResource) : PcmOpening :=
  { o with log := o.log ++ [.release r] }

/-- `flags & PCM_MMAP`. -/
def PcmOpening.isMmap (o : PcmOpening) : Bool := o.pcm.flags &&& PCM_MMAP != 0

/-- The name of the device file. -/
def deviceName (card device : Nat) (flags : BitVec 32) : String :=
  "/dev/snd/pcmC" ++ toString card ++ "D" ++ toString device ++
    (if flags &&& PCM_IN != 0 then "c" else "p")

/-- `munmap(pcm->mmap_buffer, …)`, which leaves the pointer and does nothing to one that is not
of a mapping. -/
def munmapBuffer (o : PcmOpening) : PcmOpening :=
  if o.mmapBuffer = .mapped then o.gave .buffer else o

/-- From the label `fail_close` on. -/
def PcmOpening.failClose (o : PcmOpening) : PcmOpening :=
  { o.gave .fd with pcm := { o.pcm with fd := -1 } }

/-- From the label `fail` on. -/
def PcmOpening.fail (o : PcmOpening) : PcmOpening :=
  (if o.isMmap then munmapBuffer o else o).failClose

/-- From the label `mmap_error` of `pcm_hw_mmap_status` on; the answer to `pcm_sync_ptr` is not
looked at. -/
def mmapError (k : PcmAnswers) (o : PcmOpening) : Int × PcmOpening :=
  if k.syncPtr then
    (0, { o.got .syncPtr with
      syncPtr := true, mmapStatus := true, mmapControl := true
      controlAvailMin := if o.isMmap then o.pcm.config.availMin else 1 })
  else (-ENOMEM, o)

/-- `pcm_hw_mmap_status(pcm)`. -/
def pcmHwMmapStatus (k : PcmAnswers) (o : PcmOpening) : Int × PcmOpening :=
  if o.syncPtr then (0, o)
  else if !k.status then mmapError k { o with mmapStatus := false }
  else
    let o := { o.got .status with mmapStatus := true }
    if !k.control then
      mmapError k { o.gave .status with mmapControl := false, mmapStatus := false }
    else
      (0, { o.got .control with
        mmapControl := true
        controlAvailMin := if o.isMmap then o.pcm.config.availMin else 1 })

/-- The parameters that `pcm_open` sends for `SNDRV_PCM_IOCTL_SW_PARAMS`, and the configuration
of the handle with its defaults. -/
def swRequest (o : PcmOpening) : SwParams × PcmConfig :=
  let config := o.config
  let frames : Int := (config.periodCount : Int) * config.periodSize
  let start := if config.startThreshold = 0 then
      if o.pcm.isIn then 1 else uint frames / 2
    else config.startThreshold
  let stop := if config.stopThreshold = 0 then
      if o.pcm.isIn then uint (frames * 10) else uint frames
    else config.stopThreshold
  let availMin := if o.pcm.config.availMin = 0 then
      if o.isMmap then int o.pcm.config.periodSize else 1
    else config.availMin
  (⟨1, 1, availMin, config.periodSize / 2, start, stop, config.silenceThreshold,
      config.silenceSize, o.pcm.bufferSize⟩,
    { o.pcm.config with
      startThreshold := if config.startThreshold = 0 then start else o.pcm.config.startThreshold
      stopThreshold := if config.stopThreshold = 0 then stop else o.pcm.config.stopThreshold
      availMin := if o.pcm.config.availMin = 0 then availMin else o.pcm.config.availMin })

/-- `pcm_open` behind the software parameters. -/
def openStatus (k : PcmAnswers) (o : PcmOpening) : PcmOpening :=
  match pcmHwMmapStatus k o with
  | (rc, o) =>
      if rc < 0 then (o.oops rc "mmap status failed").fail
      else if o.pcm.flags &&& PCM_MONOTONIC != 0 && k.ttstamp != 0 then
        (o.oops (-1) "cannot set timestamp type").fail
      else { o with pcm := { o.pcm with underruns := 0 } }

/-- `pcm_open` behind the mapping of the buffer. -/
def openSoftware (k : PcmAnswers) (fuel : Nat) (o : PcmOpening) : Option PcmOpening :=
  let (sparams, config) := swRequest o
  match boundaryLoop fuel o.pcm.bufferSize with
  | none => none
  | some boundary =>
      let o := { o with pcm := { o.pcm with config := config, boundary := boundary } }
      if k.swParams sparams != 0 then
        some (o.oops (k.swParams sparams) "cannot set sw params").fail
      else some (openStatus k o)

/-- `pcm_open` behind the hardware parameters. -/
def openBuffer (k : PcmAnswers) (fuel : Nat) (o : PcmOpening) : Option PcmOpening :=
  if o.isMmap then
    if k.buffer = 0 then openSoftware k fuel { o.got .buffer with mmapBuffer := .mapped }
    else some (({ o with mmapBuffer := .failed }.oops (-k.buffer)
      ("failed to mmap buffer " ++ toString (pcmFramesToBytes o.pcm o.pcm.bufferSize) ++
        " bytes\n")).failClose)
  else openSoftware k fuel o

/-- The refined parameters go to the configuration of the caller. -/
def PcmOpening.refined (o : PcmOpening) (params : HwParams) : PcmOpening :=
  let periodSize := paramGetInt params SNDRV_PCM_HW_PARAM_PERIOD_SIZE
  let periodCount := paramGetInt params SNDRV_PCM_HW_PARAM_PERIODS
  { o with
    config := { o.config with periodSize := periodSize, periodCount := periodCount }
    pcm := { o.pcm with bufferSize := uint (periodCount * periodSize : Nat) } }

/-- `pcm_open` behind the request for the info of the device. -/
def openHardware (k : PcmAnswers) (fuel : Nat) (o : PcmOpening) : Option PcmOpening :=
  let noirq := o.pcm.flags &&& PCM_NOIRQ != 0
  if noirq && !o.isMmap then
    some (o.oops (-EINVAL) "noirq only currently supported with mmap().").fail
  else
    let o := if noirq then
        { o with pcm := { o.pcm with noirqFramesPerMsec := o.config.rate / 1000 } }
      else o
    match k.hwParams (hwRequest o.pcm.flags o.config) with
    | .error errno => some (o.oops errno "cannot set hw params").failClose
    | .ok params => openBuffer k fuel (o.refined params)

/-- `pcm_open` behind the allocation of the handle. -/
def openDevice (k : PcmAnswers) (fuel card device : Nat) (o : PcmOpening) : Option PcmOpening :=
  match k.fd with
  | .error errno =>
      some ({ o with pcm := { o.pcm with fd := -1 } }.oops errno
        ("cannot open device '" ++ deviceName card device o.pcm.flags ++ "'"))
  | .ok fd =>
      let o := { o.got .fd with pcm := { o.pcm with fd := fd } }
      if k.info ≠ 0 then some (o.oops k.info "cannot get info").failClose
      else openHardware k fuel o

/-- The handle behind its allocation. -/
def openingStart (flags : BitVec 32) (config : PcmConfig) : PcmOpening where
  pcm := {
    fd := 0
    flags := flags
    running := false
    prepared := false
    underruns := 0
    bufferSize := 0
    boundary := 0
    config := config
    noirqFramesPerMsec := 0
    waitForAvailMin := false }
  mmapBuffer := .null
  mmapStatus := false
  mmapControl := false
  syncPtr := false
  controlAvailMin := 0
  error := none
  config := config
  log := [.acquire .handle]

/-- `pcm_open(card, device, flags, config)`: the handle, where `none` is `&bad_pcm`, and the
ledger. No configuration is a null pointer. -/
def pcmOpen (k : PcmAnswers) (fuel card device : Nat) (flags : BitVec 32)
    (config : Option PcmConfig) : Option (Option PcmOpening × List (Op PcmResource)) :=
  if !k.handle then some (none, [])
  else
    match config with
    | none => some (none, [.acquire .handle])
    | some config =>
        (openDevice k fuel card device (openingStart flags config)).map fun o => (some o, o.log)

/-- `pcm_is_ready(pcm)`. -/
def pcmIsReady : Option PcmOpening → Bool
  | none => false
  | some o => decide (0 ≤ o.pcm.fd)

/-- `pcm_hw_munmap_status(pcm)`. -/
def pcmHwMunmapStatus (o : PcmOpening) : PcmOpening :=
  let o := if o.syncPtr then { o.gave .syncPtr with syncPtr := false }
    else
      let o := if o.mmapStatus then o.gave .status else o
      if o.mmapControl then o.gave .control else o
  { o with mmapStatus := false, mmapControl := false }

/-- `pcm_close(pcm)`: what it returns and the ledger of what it does. Its `pcm_stop` holds
nothing. -/
def pcmClose : Option PcmOpening → Int × List (Op PcmResource)
  | none => (0, [])
  | some o =>
      let o := pcmHwMunmapStatus { o with log := [] }
      let o := if o.isMmap then munmapBuffer o else o
      let o := if 0 ≤ o.pcm.fd then o.gave .fd else o
      (0, (o.gave .handle).log)

/-- The pages of a handle are all that `pcm_hw_mmap_status` sees to. -/
theorem pcmHwMmapStatus_same (k : PcmAnswers) (o : PcmOpening) :
    (pcmHwMmapStatus k o).2.pcm = o.pcm ∧ (pcmHwMmapStatus k o).2.config = o.config := by
  have herror : ∀ o' : PcmOpening, (mmapError k o').2.pcm = o'.pcm ∧
      (mmapError k o').2.config = o'.config := by
    intro o'
    unfold mmapError
    split <;> exact ⟨rfl, rfl⟩
  unfold pcmHwMmapStatus
  split
  · exact ⟨rfl, rfl⟩
  · split
    · exact herror _
    · dsimp only
      split
      · exact herror _
      · exact ⟨rfl, rfl⟩

/-! ## The ledger -/

/-- What is behind the pointers to the status and the control page. -/
def PcmOpening.pages (o : PcmOpening) : Multiset PcmResource :=
  if o.syncPtr then {.syncPtr}
  else (if o.mmapStatus then {.status} else 0) + if o.mmapControl then {.control} else 0

/-- What belongs to a handle, without the mapping of the buffer. -/
def PcmOpening.rest (o : PcmOpening) : Multiset PcmResource :=
  {.handle} + (if 0 ≤ o.pcm.fd then {.fd} else 0) + o.pages

/-- The mapping of the buffer, as far as the handle says. -/
def PcmOpening.mapping (o : PcmOpening) : Multiset PcmResource :=
  if o.mmapBuffer = .mapped then {.buffer} else 0

/-- What `pcm_close` releases, in this order. -/
def PcmOpening.closes (o : PcmOpening) : List PcmResource :=
  (if o.syncPtr then [.syncPtr]
    else (if o.mmapStatus then [.status] else []) ++ if o.mmapControl then [.control] else []) ++
    (if o.isMmap ∧ o.mmapBuffer = .mapped then [.buffer] else []) ++
    (if 0 ≤ o.pcm.fd then [.fd] else []) ++ [.handle]

theorem pcmHwMunmapStatus_spec (o : PcmOpening) :
    (pcmHwMunmapStatus o).log = o.log ++ List.map Op.release
      (if o.syncPtr then [.syncPtr]
        else (if o.mmapStatus then [.status] else []) ++ if o.mmapControl then [.control] else []) ∧
    (pcmHwMunmapStatus o).pcm = o.pcm ∧ (pcmHwMunmapStatus o).mmapBuffer = o.mmapBuffer := by
  unfold pcmHwMunmapStatus
  cases hsync : o.syncPtr with
  | true => exact ⟨rfl, rfl, rfl⟩
  | false =>
      cases hstatus : o.mmapStatus <;> cases hcontrol : o.mmapControl <;>
        simp [PcmOpening.gave, hcontrol]

theorem pcmClose_log (o : PcmOpening) : (pcmClose (some o)).2 = o.closes.map .release := by
  obtain ⟨hlog, hpcm, hbuffer⟩ := pcmHwMunmapStatus_spec { o with log := [] }
  unfold pcmClose PcmOpening.closes munmapBuffer
  dsimp only
  generalize pcmHwMunmapStatus { o with log := [] } = o' at *
  have hmmap : o'.isMmap = o.isMmap := by
    unfold PcmOpening.isMmap
    rw [hpcm]
  rw [hmmap, hbuffer]
  cases o.isMmap <;> by_cases hmapped : o.mmapBuffer = .mapped <;> by_cases hfd : 0 ≤ o.pcm.fd <;>
    simp [hmapped, hfd, hpcm, hlog, PcmOpening.gave]

theorem PcmOpening.closes_eq {o : PcmOpening} (hmap : o.mmapBuffer = .mapped → o.isMmap = true) :
    (o.closes : Multiset PcmResource) = o.rest + o.mapping := by
  have hbuffer : (if o.isMmap = true ∧ o.mmapBuffer = .mapped then [PcmResource.buffer] else []) =
      if o.mmapBuffer = .mapped then [PcmResource.buffer] else [] := by
    by_cases h : o.mmapBuffer = .mapped
    · rw [if_pos ⟨hmap h, h⟩, if_pos h]
    · rw [if_neg fun hb => h hb.2, if_neg h]
  unfold PcmOpening.closes PcmOpening.rest PcmOpening.pages PcmOpening.mapping
  rw [hbuffer]
  split_ifs <;> decide

/-- Who does not hold the mapping any more cannot close a handle that points to it. -/
theorem PcmOpening.closes_dangling {o : PcmOpening}
    (hmap : o.mmapBuffer = .mapped → o.isMmap = true) (hmapped : o.mmapBuffer = .mapped) :
    settle (o.closes.map .release) o.rest = none := by
  rw [Option.eq_none_iff_forall_ne_some]
  intro held hheld
  have heq := (settle_releases_iff _ _ _).mp hheld
  have hmapping : o.mapping = {.buffer} := if_pos hmapped
  rw [PcmOpening.closes_eq hmap, hmapping] at heq
  have hcard := congrArg Multiset.card heq
  simp only [Multiset.card_add, Multiset.card_singleton] at hcard
  omega

/-- The ledger of a handle on the way: it owns what it points to. -/
structure PcmOpening.Owns (o : PcmOpening) : Prop where
  ledger : settle o.log 0 = some (o.rest + o.mapping)
  mmap : o.mmapBuffer = .mapped → o.isMmap = true

/-- `pcm_open` has given the mapping of the buffer back and left the pointer to it. -/
def PcmOpening.Dangles (o : PcmOpening) : Prop := o.mmapBuffer = .mapped ∧ o.pcm.fd < 0

/-- The ledger of the handle that `pcm_open` returns. -/
structure PcmOpening.Returned (o : PcmOpening) : Prop where
  owns : ¬o.Dangles → settle o.log 0 = some (o.rest + o.mapping)
  dangles : o.Dangles → settle o.log 0 = some o.rest
  mmap : o.mmapBuffer = .mapped → o.isMmap = true

theorem PcmOpening.rest_fd {o : PcmOpening} (hfd : 0 ≤ o.pcm.fd) :
    o.rest = .fd ::ₘ (o.failClose).rest := by
  unfold PcmOpening.rest PcmOpening.failClose PcmOpening.gave
  dsimp only
  rw [if_pos hfd, if_neg (show ¬(0 : Int) ≤ -1 by decide), ← Multiset.singleton_add]
  abel

theorem PcmOpening.Owns.failClose {o : PcmOpening} (h : o.Owns) (hfd : 0 ≤ o.pcm.fd)
    (hno : o.mmapBuffer ≠ .mapped) : (o.failClose).Returned where
  owns := by
    intro _
    show settle (o.log ++ [.release .fd]) 0 = _
    rw [settle_append_of_eq h.ledger, PcmOpening.rest_fd hfd, Multiset.cons_add]
    exact settle_release _ _
  dangles := fun hd => absurd hd.1 hno
  mmap := h.mmap

theorem PcmOpening.Owns.fail {o : PcmOpening} (h : o.Owns) (hfd : 0 ≤ o.pcm.fd) :
    (o.fail).Returned := by
  by_cases hno : o.mmapBuffer = .mapped
  · have hfail : o.fail = (o.gave .buffer).failClose := by
      unfold PcmOpening.fail munmapBuffer
      rw [if_pos (h.mmap hno), if_pos hno]
    rw [hfail]
    have hlog : settle (o.gave .buffer).failClose.log 0 = some (o.gave .buffer).failClose.rest := by
      show settle (o.log ++ [.release .buffer] ++ [.release .fd]) 0 = _
      have hmapping : o.mapping = {.buffer} := if_pos hno
      rw [List.append_assoc, settle_append_of_eq h.ledger, hmapping, PcmOpening.rest_fd hfd]
      refine (settle_releases_iff [PcmResource.buffer, .fd] _ _).mpr ?_
      show .fd ::ₘ o.failClose.rest + {.buffer} =
        ↑[PcmResource.buffer, .fd] + o.failClose.rest
      rw [← Multiset.cons_coe, ← Multiset.cons_coe, Multiset.coe_nil, ← Multiset.singleton_add,
        ← Multiset.singleton_add, ← Multiset.singleton_add]
      abel
    exact ⟨fun hd => absurd ⟨hno, by show (-1 : Int) < 0; omega⟩ hd, fun _ => hlog, h.mmap⟩
  · have hfail : o.fail = o.failClose := by
      unfold PcmOpening.fail munmapBuffer
      rw [if_neg hno, ite_self]
    rw [hfail]
    exact h.failClose hfd hno

/-- What is acquired is one more thing that the handle owns. -/
theorem PcmOpening.Owns.got {o o' : PcmOpening} {r : PcmResource} (h : o.Owns)
    (hlog : o'.log = o.log ++ [.acquire r])
    (hrest : o'.rest + o'.mapping = r ::ₘ (o.rest + o.mapping))
    (hmap : o'.mmapBuffer = .mapped → o'.isMmap = true) : o'.Owns where
  ledger := by rw [hlog, settle_acquire h.ledger, hrest]
  mmap := hmap

/-- One more page, or the block in its place. -/
theorem PcmOpening.Owns.gotPage {o o' : PcmOpening} {r : PcmResource} (h : o.Owns)
    (hlog : o'.log = o.log ++ [.acquire r]) (hpages : o'.pages = r ::ₘ o.pages)
    (hpcm : o'.pcm = o.pcm) (hbuffer : o'.mmapBuffer = o.mmapBuffer) : o'.Owns := by
  refine h.got hlog ?_ ?_
  · unfold PcmOpening.rest PcmOpening.mapping
    rw [hpages, hpcm, hbuffer, ← Multiset.singleton_add, ← Multiset.singleton_add]
    abel
  · unfold PcmOpening.isMmap
    rw [hpcm, hbuffer]
    exact h.mmap

theorem mmapError_owns (k : PcmAnswers) {o : PcmOpening} (h : o.Owns) (hpages : o.pages = 0) :
    (mmapError k o).2.Owns := by
  unfold mmapError
  split
  · refine h.gotPage (r := .syncPtr) rfl ?_ rfl rfl
    rw [hpages]
    rfl
  · exact h

/-- `pcm_hw_mmap_status` on a handle that has no pages yet. -/
theorem pcmHwMmapStatus_owns (k : PcmAnswers) {o : PcmOpening} (h : o.Owns)
    (hsync : o.syncPtr = false) (hstatus : o.mmapStatus = false)
    (hcontrol : o.mmapControl = false) : (pcmHwMmapStatus k o).2.Owns := by
  obtain ⟨pcm, mmapBuffer, mmapStatus, mmapControl, syncPtr, availMin, error, config, log⟩ := o
  obtain rfl : mmapStatus = false := hstatus
  obtain rfl : mmapControl = false := hcontrol
  obtain rfl : syncPtr = false := hsync
  unfold pcmHwMmapStatus
  dsimp only
  rw [if_neg Bool.false_ne_true]
  split
  · exact mmapError_owns k h rfl
  · split
    · -- the page of the status is given back
      refine mmapError_owns k (o := ⟨pcm, mmapBuffer, false, false, false, availMin, error, config,
        log ++ [.acquire .status] ++ [.release .status]⟩) ⟨?_, h.mmap⟩ rfl
      rw [settle_append_of_eq (settle_acquire h.ledger .status)]
      exact settle_release _ _
    · have hgot : PcmOpening.Owns ⟨pcm, mmapBuffer, true, false, false, availMin, error, config,
          log ++ [.acquire .status]⟩ := h.gotPage (r := .status) rfl rfl rfl rfl
      have hpages : ({.status} + {.control} : Multiset PcmResource) = .control ::ₘ ({.status} + 0) := by
        decide
      exact hgot.gotPage (r := .control) rfl hpages rfl rfl

theorem openStatus_returned (k : PcmAnswers) {o : PcmOpening} (h : o.Owns) (hfd : 0 ≤ o.pcm.fd)
    (hsync : o.syncPtr = false) (hstatus : o.mmapStatus = false)
    (hcontrol : o.mmapControl = false) : (openStatus k o).Returned := by
  have howns := pcmHwMmapStatus_owns k h hsync hstatus hcontrol
  have hpcm := (pcmHwMmapStatus_same k o).1
  unfold openStatus
  generalize pcmHwMmapStatus k o = result at *
  obtain ⟨rc, o'⟩ := result
  dsimp only at *
  have hfd' : 0 ≤ o'.pcm.fd := by rwa [hpcm]
  split
  · exact PcmOpening.Owns.fail (o := o'.oops rc "mmap status failed") ⟨howns.ledger, howns.mmap⟩ hfd'
  · split
    · exact PcmOpening.Owns.fail (o := o'.oops (-1) "cannot set timestamp type")
        ⟨howns.ledger, howns.mmap⟩ hfd'
    · exact ⟨fun _ => howns.ledger, fun hd => absurd hd.2 (not_lt.mpr hfd'), howns.mmap⟩

theorem openSoftware_returned (k : PcmAnswers) {fuel : Nat} {o o' : PcmOpening} (h : o.Owns)
    (hfd : 0 ≤ o.pcm.fd) (hsync : o.syncPtr = false) (hstatus : o.mmapStatus = false)
    (hcontrol : o.mmapControl = false) (hopen : openSoftware k fuel o = some o') :
    o'.Returned := by
  unfold openSoftware at hopen
  dsimp only at hopen
  split at hopen
  · cases hopen
  · next boundary _ =>
      have howns : PcmOpening.Owns { o with
          pcm := { o.pcm with config := (swRequest o).2, boundary := boundary } } :=
        ⟨h.ledger, h.mmap⟩
      split at hopen
      · obtain rfl := Option.some.inj hopen
        exact PcmOpening.Owns.fail (o := PcmOpening.oops _ _ _) ⟨howns.ledger, howns.mmap⟩ hfd
      · obtain rfl := Option.some.inj hopen
        exact openStatus_returned k howns hfd hsync hstatus hcontrol

theorem openBuffer_returned (k : PcmAnswers) {fuel : Nat} {o o' : PcmOpening} (h : o.Owns)
    (hfd : 0 ≤ o.pcm.fd) (hbuffer : o.mmapBuffer = .null) (hsync : o.syncPtr = false)
    (hstatus : o.mmapStatus = false) (hcontrol : o.mmapControl = false)
    (hopen : openBuffer k fuel o = some o') : o'.Returned := by
  have hmapping : o.mapping = 0 := if_neg (by rw [hbuffer]; decide)
  unfold openBuffer at hopen
  by_cases hmmap : o.isMmap = true
  · rw [if_pos hmmap] at hopen
    split at hopen
    · have howns : PcmOpening.Owns { o.got .buffer with mmapBuffer := .mapped } := by
        refine h.got (r := .buffer) rfl ?_ fun _ => hmmap
        rw [hmapping, add_zero]
        show o.rest + {.buffer} = _
        rw [add_comm, Multiset.singleton_add]
      exact openSoftware_returned k howns hfd hsync hstatus hcontrol hopen
    · obtain rfl := Option.some.inj hopen
      refine PcmOpening.Owns.failClose (o := PcmOpening.oops _ _ _) ⟨?_, by intro hf; cases hf⟩ hfd
        (by intro hf; cases hf)
      show settle o.log 0 = some (o.rest + 0)
      rw [h.ledger, hmapping]
  · rw [if_neg hmmap] at hopen
    exact openSoftware_returned k h hfd hsync hstatus hcontrol hopen

/-- What `pcm_open` does with a file that is open. -/
theorem openHardware_returned (k : PcmAnswers) {fuel : Nat} {o o' : PcmOpening} (h : o.Owns)
    (hfd : 0 ≤ o.pcm.fd) (hbuffer : o.mmapBuffer = .null) (hsync : o.syncPtr = false)
    (hstatus : o.mmapStatus = false) (hcontrol : o.mmapControl = false)
    (hopen : openHardware k fuel o = some o') : o'.Returned := by
  have hnot : o.mmapBuffer ≠ .mapped := by
    rw [hbuffer]
    decide
  unfold openHardware at hopen
  dsimp only at hopen
  generalize hnoirq : (if (o.pcm.flags &&& PCM_NOIRQ != 0) = true then
    { o with pcm := { o.pcm with noirqFramesPerMsec := o.config.rate / 1000 } } else o) = o₁ at hopen
  have hsame : o₁.Owns ∧ 0 ≤ o₁.pcm.fd ∧ o₁.mmapBuffer = .null ∧ o₁.syncPtr = false ∧
      o₁.mmapStatus = false ∧ o₁.mmapControl = false := by
    subst hnoirq
    split
    · exact ⟨⟨h.ledger, h.mmap⟩, hfd, hbuffer, hsync, hstatus, hcontrol⟩
    · exact ⟨h, hfd, hbuffer, hsync, hstatus, hcontrol⟩
  obtain ⟨howns, hfd₁, hbuffer₁, hsync₁, hstatus₁, hcontrol₁⟩ := hsame
  split at hopen
  · obtain rfl := Option.some.inj hopen
    exact PcmOpening.Owns.fail (o := PcmOpening.oops _ _ _) ⟨h.ledger, h.mmap⟩ hfd
  · split at hopen
    · obtain rfl := Option.some.inj hopen
      refine PcmOpening.Owns.failClose (o := PcmOpening.oops _ _ _) ⟨howns.ledger, howns.mmap⟩
        hfd₁ ?_
      show o₁.mmapBuffer ≠ .mapped
      rw [hbuffer₁]
      decide
    · next params _ =>
        have howns' : (o₁.refined params).Owns := ⟨howns.ledger, howns.mmap⟩
        exact openBuffer_returned k howns' hfd₁ hbuffer₁ hsync₁ hstatus₁ hcontrol₁ hopen

theorem openDevice_returned (k : PcmAnswers) {fuel card device : Nat} {flags : BitVec 32}
    {config : PcmConfig} {o : PcmOpening}
    (hopen : openDevice k fuel card device (openingStart flags config) = some o) :
    o.Returned := by
  unfold openDevice at hopen
  split at hopen
  · obtain rfl := Option.some.inj hopen
    have hnot : (openingStart flags config).mmapBuffer ≠ .mapped := by
      intro hm
      cases hm
    exact {
      owns := fun _ => rfl
      dangles := fun hd => absurd hd.1 hnot
      mmap := fun hm => absurd hm hnot }
  · next fd _ =>
      have howns : PcmOpening.Owns { (openingStart flags config).got .fd with
          pcm := { (openingStart flags config).pcm with fd := fd } } := by
        refine ⟨?_, fun hm => by cases hm⟩
        unfold PcmOpening.rest
        rw [if_pos (Int.natCast_nonneg fd)]
        show settle [.acquire PcmResource.handle, .acquire .fd] 0 =
          some ({.handle} + {.fd} + 0 + 0)
        decide
      dsimp only at hopen
      split at hopen
      · obtain rfl := Option.some.inj hopen
        exact PcmOpening.Owns.failClose (o := PcmOpening.oops _ _ _) ⟨howns.ledger, howns.mmap⟩
          (Int.natCast_nonneg fd) (by intro hm; cases hm)
      · exact openHardware_returned k howns (Int.natCast_nonneg fd) rfl rfl rfl rfl hopen

/-- **Opening and closing.** A handle that is closed has given back all that `pcm_open` acquired,
and nothing twice, unless `pcm_open` failed behind the mapping of the buffer: then the mapping is
given back two times. What `pcm_open` acquired before it noticed that there is no configuration is
never given back. -/
theorem pcmOpen_settles {k : PcmAnswers} {fuel card device : Nat} {flags : BitVec 32}
    {config : Option PcmConfig} {h : Option PcmOpening} {log : List (Op PcmResource)}
    (hopen : pcmOpen k fuel card device flags config = some (h, log)) :
    settle (log ++ (pcmClose h).2) 0 =
      match h with
      | none => some (if k.handle then {.handle} else 0)
      | some o => if o.mmapBuffer = .mapped ∧ pcmIsReady h = false then none else some 0 := by
  unfold pcmOpen at hopen
  cases hhandle : k.handle with
  | false =>
      rw [hhandle] at hopen
      obtain ⟨rfl, rfl⟩ := Prod.mk.inj (Option.some.inj hopen)
      rfl
  | true =>
      rw [hhandle, if_neg (by decide)] at hopen
      cases config with
      | none =>
          obtain ⟨rfl, rfl⟩ := Prod.mk.inj (Option.some.inj hopen)
          rfl
      | some config =>
          obtain ⟨o, ho, heq⟩ := Option.map_eq_some_iff.mp hopen
          obtain ⟨rfl, rfl⟩ := Prod.mk.inj heq
          have hret := openDevice_returned k ho
          have hready : pcmIsReady (some o) = false ↔ o.pcm.fd < 0 := by
            simp [pcmIsReady]
          dsimp only
          rw [pcmClose_log]
          by_cases hd : o.Dangles
          · rw [if_pos ⟨hd.1, hready.mpr hd.2⟩, settle_append_of_eq (hret.dangles hd)]
            exact PcmOpening.closes_dangling hret.mmap hd.1
          · rw [if_neg fun hd' => hd ⟨hd'.1, hready.mp hd'.2⟩, settle_append_of_eq (hret.owns hd)]
            refine (settle_releases_iff _ _ _).mpr ?_
            rw [PcmOpening.closes_eq hret.mmap, add_zero]

/-! ## Streams that are ready -/

theorem PcmOpening.fail_flags (o : PcmOpening) : (o.fail).pcm.flags = o.pcm.flags := by
  unfold PcmOpening.fail munmapBuffer
  split
  · split <;> rfl
  · rfl

theorem openStatus_flags (k : PcmAnswers) (o : PcmOpening) :
    (openStatus k o).pcm.flags = o.pcm.flags := by
  have hpcm := (pcmHwMmapStatus_same k o).1
  unfold openStatus
  generalize pcmHwMmapStatus k o = result at *
  obtain ⟨rc, o'⟩ := result
  dsimp only at *
  split
  · rw [PcmOpening.fail_flags, ← hpcm]
    rfl
  · split
    · rw [PcmOpening.fail_flags, ← hpcm]
      rfl
    · show o'.pcm.flags = _
      rw [hpcm]

theorem openSoftware_flags {k : PcmAnswers} {fuel : Nat} {o o' : PcmOpening}
    (h : openSoftware k fuel o = some o') : o'.pcm.flags = o.pcm.flags := by
  unfold openSoftware at h
  dsimp only at h
  split at h
  · cases h
  · split at h
    · obtain rfl := Option.some.inj h
      rw [PcmOpening.fail_flags]
      rfl
    · obtain rfl := Option.some.inj h
      exact openStatus_flags k _

theorem openBuffer_flags {k : PcmAnswers} {fuel : Nat} {o o' : PcmOpening}
    (h : openBuffer k fuel o = some o') : o'.pcm.flags = o.pcm.flags := by
  unfold openBuffer at h
  split at h
  · split at h
    · exact openSoftware_flags (o := { o.got .buffer with mmapBuffer := .mapped }) h
    · obtain rfl := Option.some.inj h
      rfl
  · exact openSoftware_flags h

theorem openHardware_flags {k : PcmAnswers} {fuel : Nat} {o o' : PcmOpening}
    (h : openHardware k fuel o = some o') : o'.pcm.flags = o.pcm.flags := by
  unfold openHardware at h
  dsimp only at h
  generalize hnoirq : (if (o.pcm.flags &&& PCM_NOIRQ != 0) = true then
    { o with pcm := { o.pcm with noirqFramesPerMsec := o.config.rate / 1000 } } else o) = o₁ at h
  have hsame : o₁.pcm.flags = o.pcm.flags := by
    subst hnoirq
    split <;> rfl
  split at h
  · obtain rfl := Option.some.inj h
    exact PcmOpening.fail_flags _
  · split at h
    · obtain rfl := Option.some.inj h
      exact hsame
    · next params _ => exact (openBuffer_flags (o := o₁.refined params) h).trans hsame

/-- The flags of a handle are those of the call. -/
theorem openDevice_flags {k : PcmAnswers} {fuel card device : Nat} {o o' : PcmOpening}
    (h : openDevice k fuel card device o = some o') : o'.pcm.flags = o.pcm.flags := by
  unfold openDevice at h
  split at h
  · obtain rfl := Option.some.inj h
    rfl
  · dsimp only at h
    split at h
    · obtain rfl := Option.some.inj h
      rfl
    · next fd _ _ =>
        exact openHardware_flags (o := { o.got .fd with pcm := { o.pcm with fd := fd } }) h

/-- What a stream without a mapping of its buffer holds. -/
theorem pcmOpen_held {k : PcmAnswers} {fuel card device : Nat} {flags : BitVec 32}
    {config : PcmConfig} {h : Option PcmOpening} {log : List (Op PcmResource)}
    (hmmap : flags &&& PCM_MMAP = 0)
    (hopen : pcmOpen k fuel card device flags (some config) = some (h, log)) :
    settle log 0 = some (h.elim 0 PcmOpening.rest) ∧
      ∀ o, h = some o → settle (o.closes.map .release) o.rest = some 0 := by
  unfold pcmOpen at hopen
  cases hhandle : k.handle with
  | false =>
      rw [hhandle] at hopen
      obtain ⟨rfl, rfl⟩ := Prod.mk.inj (Option.some.inj hopen)
      exact ⟨rfl, fun o ho => by cases ho⟩
  | true =>
      rw [hhandle, if_neg (by decide)] at hopen
      obtain ⟨o, ho, heq⟩ := Option.map_eq_some_iff.mp hopen
      obtain ⟨rfl, rfl⟩ := Prod.mk.inj heq
      have hret := openDevice_returned k ho
      have hno : o.mmapBuffer ≠ .mapped := by
        intro hm
        have hflags : o.pcm.flags = flags := openDevice_flags ho
        have := hret.mmap hm
        simp [PcmOpening.isMmap, hflags, hmmap] at this
      have hmapping : o.mapping = 0 := if_neg hno
      refine ⟨?_, fun o' ho' => ?_⟩
      · rw [hret.owns fun hd => hno hd.1, hmapping, add_zero]
        rfl
      · obtain rfl := Option.some.inj ho'
        refine (settle_releases_iff _ _ _).mpr ?_
        rw [PcmOpening.closes_eq hret.mmap, hmapping, add_zero, add_zero]

/-- What is on the handle of a stream that could be opened, `o` being the handle behind the
hardware parameters. -/
structure PcmOpening.Ready (o o' : PcmOpening) (boundary : Nat) : Prop where
  pcm : o'.pcm = { o.pcm with config := (swRequest o).2, boundary := boundary, underruns := 0 }
  config : o'.config = o.config

/-- The handle behind the hardware parameters, when a period has come to `size` frames. -/
structure PcmOpening.Refined (o : PcmOpening) (flags : BitVec 32) (config : PcmConfig)
    (size : Nat) : Prop where
  flags : o.pcm.flags = flags
  pcmConfig : o.pcm.config = config
  stopped : o.pcm.running = false ∧ o.pcm.prepared = false
  bufferSize : o.pcm.bufferSize = uint (config.periodCount * size : Nat)
  config : o.config = { config with periodSize := size }

/-- The buffer of a stream that is ready. -/
theorem PcmOpening.Ready.bufferSize {o o' : PcmOpening} {flags : BitVec 32} {config : PcmConfig}
    {size boundary : Nat} (h : o.Ready o' boundary) (hrefined : o.Refined flags config size)
    (hsmall : config.periodCount * size < 2 ^ 32) :
    o'.pcm.bufferSize = config.periodCount * size := by
  rw [h.pcm]
  exact hrefined.bufferSize.trans (uint_natCast hsmall)

/-- What `pcm_open` keeps of a configuration for a buffer of so many frames: where a threshold is 0
it has a default of its own. -/
def PcmConfig.kept (config : PcmConfig) (flags : BitVec 32) (frames : Nat) : PcmConfig :=
  { config with
    startThreshold := if config.startThreshold = 0 then
        if flags &&& PCM_IN != 0 then 1 else frames / 2
      else config.startThreshold
    stopThreshold := if config.stopThreshold = 0 then
        if flags &&& PCM_IN != 0 then uint (frames * 10 : Nat) else frames
      else config.stopThreshold
    availMin := if config.availMin = 0 then
        if flags &&& PCM_MMAP != 0 then int config.periodSize else 1
      else config.availMin }

theorem PcmOpening.Refined.kept {o : PcmOpening} {flags : BitVec 32} {config : PcmConfig}
    {size : Nat} (h : o.Refined flags config size)
    (hsmall : config.periodCount * size < 2 ^ 32) :
    (swRequest o).2 = config.kept flags (config.periodCount * size) := by
  have hmmap : o.isMmap = (flags &&& PCM_MMAP != 0) := by
    unfold PcmOpening.isMmap
    rw [h.flags]
  have hin : o.pcm.isIn = (flags &&& PCM_IN != 0) := by
    unfold Pcm.isIn
    rw [h.flags]
  have hframes : uint ((config.periodCount : Int) * size) = config.periodCount * size := by
    exact_mod_cast uint_natCast hsmall
  have hten : uint ((config.periodCount : Int) * size * 10) =
      uint (config.periodCount * size * 10 : Nat) := by
    push_cast
    rfl
  unfold swRequest PcmConfig.kept
  dsimp only
  rw [h.config, h.pcmConfig, hmmap, hin]
  dsimp only
  rw [hframes, hten]
  -- where the caller has a value of its own, it is kept
  congr 1 <;> split <;> rfl

/-- A driver that settles on the setup `v`, whatever is asked for. -/
def settleOn (v : Nat → Nat) (p : HwParams) : Except Nat HwParams :=
  .ok { p with intervals := fun n => ⟨v n, v n, true⟩ }

/-- The setup of the microphone array. -/
def arraySetup (n : Nat) : Nat :=
  if n = SNDRV_PCM_HW_PARAM_ACCESS then SNDRV_PCM_ACCESS_RW_INTERLEAVED
  else if n = SNDRV_PCM_HW_PARAM_FORMAT then 10
  else if n = SNDRV_PCM_HW_PARAM_SAMPLE_BITS then 32
  else if n = SNDRV_PCM_HW_PARAM_FRAME_BITS then 64
  else if n = SNDRV_PCM_HW_PARAM_CHANNELS then 2
  else if n = SNDRV_PCM_HW_PARAM_RATE then 96000
  else if n = SNDRV_PCM_HW_PARAM_PERIOD_SIZE then 3072
  else if n = SNDRV_PCM_HW_PARAM_PERIODS then 2
  else 0

/-- `hw_config` of `speecharray.c`. -/
def hwConfig : PcmConfig where
  channels := 2
  rate := 96000
  periodSize := 3072
  periodCount := 2
  format := PCM_FORMAT_S32_LE
  startThreshold := 0
  stopThreshold := 0
  silenceThreshold := 0
  silenceSize := 0
  availMin := 0

/-- The answers for a stream that opens. -/
def arrayAnswers : PcmAnswers where
  handle := true
  fd := .ok 5
  info := 0
  hwParams := settleOn arraySetup
  buffer := 0
  swParams _ := 0
  status := true
  control := true
  syncPtr := true
  ttstamp := 0

/-- The answers for a stream that is not opened, since the driver does not take the software
parameters. -/
def refusingAnswers : PcmAnswers := { arrayAnswers with swParams := fun _ => EINVAL }

theorem refusingAnswers_fails :
    ((pcmOpen refusingAnswers 31 0 0 PCM_MMAP (some hwConfig)).any fun r =>
      r.1.any fun o => decide (o.mmapBuffer = .mapped) && !pcmIsReady r.1) = true := by
  decide

theorem pcmOpen_settles_refusingAnswers : ∃ h log,
    pcmOpen refusingAnswers 31 0 0 PCM_MMAP (some hwConfig) = some (h, log) ∧
      settle (log ++ (pcmClose h).2) 0 = none := by
  have hfails := refusingAnswers_fails
  cases hopen : pcmOpen refusingAnswers 31 0 0 PCM_MMAP (some hwConfig) with
  | none => simp [hopen] at hfails
  | some r =>
      obtain ⟨h, log⟩ := r
      rw [hopen] at hfails
      refine ⟨h, log, rfl, ?_⟩
      rw [pcmOpen_settles hopen]
      cases h with
      | none => cases hfails
      | some o =>
          simp only [Option.any_some, Bool.and_eq_true, decide_eq_true_eq,
            Bool.not_eq_eq_eq_not, Bool.not_true] at hfails
          exact if_pos hfails

end SpeechStack.Tinyalsa
