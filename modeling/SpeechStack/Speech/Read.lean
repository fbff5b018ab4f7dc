import SpeechStack.Lib.Machine
import SpeechStack.Speech.Scanner

set_option autoImplicit false

/-! # `speechArrayOpen` and `SpeechArrayRead`

The read path of the microphone array, statement by statement. `handle->buffer` is a memory
of words whose cells behind `buff_size` stand for the heap behind the block, so that a read
or a store past the end is visible and what it meets is arbitrary. Byte counts and offsets
are multiples of four throughout (`Speech/Window.lean`); they are `Int`, as C's `int` before
any wrap-around: none of them exceeds `4 * buff_size`.

A call ends by returning, by a copy with a negative length (`Status.fault`), or not at all
within the given number of rounds (`Status.running`): the do-while loop of the source
retries a failing `pcm_read` for ever.
-/

namespace SpeechStack

open Memory

/-! ## Opening -/

def HW_BUFFER_COUNT : Int := 2
def HW_OUT_DATA_RATIO : Int := 4
def DEFAULT_CHANNEL_COUNT : Nat := 2

def PCM_FORMAT_S16_LE : Nat := 0
def PCM_FORMAT_S32_LE : Nat := 1
def PCM_FORMAT_S24_LE : Nat := 3
def PCM_FORMAT_S24_3LE : Nat := 4

/-- `pcm_format_to_bits`; every other format is taken for a 16-bit one. -/
def pcmFormatToBits (format : Nat) : Nat :=
  if format = PCM_FORMAT_S32_LE ∨ format = PCM_FORMAT_S24_LE then 32
  else if format = PCM_FORMAT_S24_3LE then 24
  else 16

/-- `pcm_frames_to_bytes` for the hardware configuration `hw_config`. -/
def pcmFramesToBytes (frames : Nat) : Nat :=
  frames * DEFAULT_CHANNEL_COUNT * (pcmFormatToBits PCM_FORMAT_S32_LE / 8)

/-- `struct SpeechArray_t`: the two fields that decide `out_align`. -/
structure SpeechArray where
  channels : Nat
  format : Nat

/-- `struct SpeechArrayHandle_t`: the fields of the read path. -/
structure SpeechArrayHandle where
  outAlign : Int
  buffSize : Int
  buffer : Nat → Word
  dataSize : Int
  hwAlign : Int
  ratio : Int

/-- `speechArrayOpen(config)` when the device opens and the allocation succeeds.
`bufferSize` is `pcm_get_buffer_size`, `heap` what `malloc` left in the buffer and what lies
behind it; `out_align` is computed in 32-bit unsigned arithmetic. -/
def speechArrayOpen (config : SpeechArray) (bufferSize : Nat) (heap : Nat → Word) :
    SpeechArrayHandle where
  outAlign := ((pcmFormatToBits config.format * config.channels) % 2 ^ 32 / 8 : Nat)
  buffSize := HW_BUFFER_COUNT * pcmFramesToBytes bufferSize
  buffer := heap
  dataSize := 0
  hwAlign := (DEFAULT_CHANNEL_COUNT * pcmFormatToBits PCM_FORMAT_S32_LE / 8 : Nat)
  ratio := HW_OUT_DATA_RATIO

/-! ## The device -/

/-- The capture device: the words it delivers in order, what each `pcm_read` returns, how
many words it has delivered and how often it has been asked. -/
structure Pcm where
  captured : Nat → Word
  outcome : Nat → Int
  pos : Nat
  reads : Nat

/-- The words of `count` bytes cut down to whole hardware frames (two words of 32 bits). -/
def pcmWords (count : Int) : Nat :=
  2 * (count / (DEFAULT_CHANNEL_COUNT * pcmFormatToBits PCM_FORMAT_S32_LE / 8 : Nat)).toNat

/-- The device and the handle after a `pcm_read(pcm, data, count)` that succeeds; `data` is
the byte offset of the target from `handle->buffer`. -/
def pcmFill (pcm : Pcm) (h : SpeechArrayHandle) (data count : Int) : Pcm × SpeechArrayHandle :=
  let buffer :=
    store h.buffer (data / 4).toNat (pcmWords count) fun k => pcm.captured (pcm.pos + k)
  ({ pcm with pos := pcm.pos + pcmWords count, reads := pcm.reads + 1 },
   { h with buffer := buffer })

/-- `pcm_read`: its return value, and nothing stored when that is an error. -/
def pcmRead (pcm : Pcm) (h : SpeechArrayHandle) (data count : Int) :
    Int × Pcm × SpeechArrayHandle :=
  if pcm.outcome pcm.reads ≠ 0 then
    (pcm.outcome pcm.reads, { pcm with reads := pcm.reads + 1 }, h)
  else (0, pcmFill pcm h data count)

/-! ## `SpeechArrayRead` -/

/-- What a call does to the buffer from outside: a `pcm_read` into
`[data, data + readBytes)` with `availSize` bytes held before it, or a `memcpy` inside the
buffer. Offsets are relative to `handle->buffer`. -/
inductive Event where
  | pcmRead (data readBytes availSize : Int)
  | memcpy (dst src size : Int)
  deriving DecidableEq

/-- The locals of a call that change from round to round. -/
structure ReadState where
  handle : SpeechArrayHandle
  pcm : Pcm
  events : List Event
  ret : Int
  data : Int
  availSize : Int
  checkSkip : Bool
  readBytes : Int

inductive Status where
  | returned
  | fault
  | running
  deriving DecidableEq

/-- A call's return value, the words it copied to the caller, and what it leaves behind. -/
structure ReadResult where
  status : Status
  ret : Int
  buff : List Word
  handle : SpeechArrayHandle
  pcm : Pcm
  events : List Event

/-- How one round of the do-while loop ends. -/
inductive Round where
  | again (st : ReadState)
  | done (st : ReadState) (buff : List Word)
  | fault (st : ReadState)

/-- `len` after the clamp to what the buffer can hold. -/
def clampLen (h : SpeechArrayHandle) (len : Int) : Int :=
  if len > h.buffSize / h.ratio then h.buffSize / h.ratio else len

/-- `read_size`: the bytes that the first fill asks for. -/
def firstReadSize (h : SpeechArrayHandle) (len : Int) : Int :=
  if h.dataSize > len * HW_OUT_DATA_RATIO then 0
  else
    let readSize := len * h.ratio - h.dataSize
    let readSize :=
      if readSize % h.hwAlign ≠ 0 then
        readSize + h.hwAlign - (readSize + h.hwAlign) % h.hwAlign
      else readSize
    if readSize < h.buffSize / HW_BUFFER_COUNT then h.buffSize / HW_BUFFER_COUNT else readSize

/-- `read_bytes` of the refill, after `skip` bytes have been discarded and `availSize` are
left. -/
def refillSize (h : SpeechArrayHandle) (len readSize availSize skip : Int) : Int :=
  if availSize ≥ len * HW_OUT_DATA_RATIO then 0
  else
    let readBytes := skip - skip % h.hwAlign + h.hwAlign
    let readBytes :=
      if readBytes < h.buffSize / HW_BUFFER_COUNT then h.buffSize / HW_BUFFER_COUNT
      else readBytes
    if availSize + readSize > h.buffSize then
      h.buffSize - availSize - readSize % h.hwAlign
    else readBytes

/-- The `pcm_read` at the head of a round, when there is something to read. -/
def readDevice (st : ReadState) : ReadState :=
  if st.readBytes ≠ 0 then
    let r := pcmRead st.pcm st.handle st.data st.readBytes
    { st with
      ret := r.1, pcm := r.2.1, handle := r.2.2
      events := st.events ++ [.pcmRead st.data st.readBytes st.availSize] }
  else st

/-- Shift the bytes behind the first `skip` ones to the front and size the refill. -/
def dropSkipped (len readSize skip : Int) (st : ReadState) : ReadState :=
  let availSize := st.availSize - skip
  let buffer := memmove st.handle.buffer 0 (skip / 4).toNat (availSize / 4).toNat
  { st with
    handle := { st.handle with buffer := buffer }
    events := st.events ++ [.memcpy 0 skip availSize]
    data := st.data + st.availSize - skip
    availSize := availSize
    readBytes := refillSize st.handle len readSize availSize skip
    checkSkip := true }

/-- `parse_size`: the bytes that the decoder is given. -/
def parseWindow (len availSize : Int) : Int :=
  if availSize > len * HW_OUT_DATA_RATIO then len * HW_OUT_DATA_RATIO else availSize

theorem parseWindow_eq (len availSize : Int) :
    parseWindow len availSize = min (4 * len) availSize := by
  rw [parseWindow, HW_OUT_DATA_RATIO]
  split <;> omega

/-- Decode, copy to the caller, and keep what lies behind the parse window. -/
def parseTail (len : Int) (st : ReadState) : Round :=
  let parseSize := parseWindow len st.availSize
  let r := parseDataInt32 st.handle.buffer parseSize
  let h := { st.handle with buffer := r.1 }
  if r.2 < 0 then .fault { st with handle := h, ret := r.2 }
  else
    let buff := load h.buffer 0 (r.2 / 4).toNat
    let dataSize := st.availSize - parseSize
    let h := { h with dataSize := dataSize }
    if dataSize > 0 then
      let buffer := memmove h.buffer 0 (parseSize / 4).toNat (dataSize / 4).toNat
      let buffer := memset buffer (dataSize / 4).toNat ((h.buffSize - dataSize) / 4).toNat 0
      .done { st with
        handle := { h with buffer := buffer }, ret := r.2
        events := st.events ++ [.memcpy 0 parseSize dataSize] } buff
    else .done { st with handle := h, ret := r.2 } buff

/-- The rest of a round after a read that succeeded: the skip check of the first such round,
then either another round for the refill or the decoding. -/
def skipRound (len readSize : Int) (st : ReadState) : Round :=
  if st.checkSkip then parseTail len st
  else
    let skip := skipData st.handle.buffer st.availSize
    if skip > 0 then
      -- a negative length of the shift is a huge `size_t`
      if st.availSize - skip < 0 then
        .fault { st with events := st.events ++ [.memcpy 0 skip (st.availSize - skip)] }
      else
        let st := dropSkipped len readSize skip st
        if st.readBytes ≠ 0 then .again st else parseTail len st
    else parseTail len st

/-- One round of the do-while loop. -/
def readRound (len readSize : Int) (st : ReadState) : Round :=
  let st := readDevice st
  if st.ret ≠ 0 then .again st
  else skipRound len readSize { st with availSize := st.availSize + st.readBytes }

def ReadState.result (st : ReadState) (status : Status) (buff : List Word) : ReadResult where
  status := status
  ret := st.ret
  buff := buff
  handle := st.handle
  pcm := st.pcm
  events := st.events

/-- The do-while loop, for at most `fuel` rounds. -/
def readLoop (len readSize : Int) : Nat → ReadState → ReadResult
  | 0, st => st.result .running []
  | fuel + 1, st =>
      match readRound len readSize st with
      | .again st' => readLoop len readSize fuel st'
      | .done st' buff => st'.result .returned buff
      | .fault st' => st'.result .fault []

/-- The locals at the head of the loop. -/
def readStart (h : SpeechArrayHandle) (pcm : Pcm) (len : Int) : ReadState where
  handle := h
  pcm := pcm
  events := []
  ret := 0
  data := h.dataSize
  availSize := h.dataSize
  checkSkip := false
  readBytes := firstReadSize h len

/-- `SpeechArrayRead(handle, buff, len)` with `handle` and `buff` not null. -/
def speechArrayRead (fuel : Nat) (h : SpeechArrayHandle) (pcm : Pcm) (len : Int) : ReadResult :=
  let rejected := { readStart h pcm len with ret := -1 }
  if len ≤ 0 then rejected.result .returned []
  else if h.outAlign = 0 then rejected.result .fault [] -- the division `len % out_align` traps
  else if len % h.outAlign ≠ 0 then rejected.result .returned []
  else
    let len := clampLen h len
    readLoop len (firstReadSize h len) fuel (readStart h pcm len)

/-! ## Sequences of calls -/

/-- A handle in use: what the calls so far have returned, in order. -/
structure Session where
  handle : SpeechArrayHandle
  pcm : Pcm
  replies : List (Int × List Word)

/-- One more call; none when it does not return. -/
def Session.step (fuel : Nat) (s : Session) (len : Int) : Option Session :=
  let r := speechArrayRead fuel s.handle s.pcm len
  if r.status = .returned then
    some { handle := r.handle, pcm := r.pcm, replies := s.replies ++ [(r.ret, r.buff)] }
  else none

/-- Everything the calls so far have delivered. -/
def Session.output (s : Session) : List Word := s.replies.flatMap Prod.snd

/-- The session right after `speechArrayOpen`, on a device that has delivered nothing. -/
def Session.fresh (config : SpeechArray) (bufferSize : Nat) (heap captured : Nat → Word)
    (outcome : Nat → Int) : Session where
  handle := speechArrayOpen config bufferSize heap
  pcm := { captured := captured, outcome := outcome, pos := 0, reads := 0 }
  replies := []

end SpeechStack
