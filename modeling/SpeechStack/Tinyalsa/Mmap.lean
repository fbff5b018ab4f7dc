import SpeechStack.Libutils.Fifo
import SpeechStack.Tinyalsa.Avail

set_option autoImplicit false

/-! # `pcm_mmap_transfer`

A call moves frames between the caller's buffer and the ring that the device maps into memory. The
hardware plays or captures at the same time, so the call is cut into the accesses to what it shares
with the hardware: the look at the pointers (`Pc.loop`, and `Pc.areas` again in `pcm_mmap_begin`),
the copy (`Pc.begun`) and the move of `appl_ptr` (`Pc.copied`). Between any two of them the hardware
may move on by any number of frames. Whether the stream starts and how a wait ends is part of the
action.

The effect of `SNDRV_PCM_IOCTL_PREPARE` on the pointers is the driver's, so a call is modelled on a
stream that has been prepared.
-/

namespace SpeechStack.Tinyalsa

open Wrap

def ENOSYS : Int := 38

/-- The local variables of `pcm_mmap_transfer_areas`. -/
structure Areas where
  offset : Nat
  size : Nat
  count : Nat

/-- Where a call is. -/
inductive Pc where
  | idle
  /-- At the head of the loop. -/
  | loop
  /-- Before `pcm_start`. -/
  | starting (avail : Int)
  /-- Behind it. -/
  | consider (avail : Int)
  /-- In `pcm_wait`. -/
  | waiting
  /-- At the head of the loop of `pcm_mmap_transfer_areas`. -/
  | areas (a : Areas)
  /-- Behind `pcm_mmap_begin`. -/
  | begun (a : Areas) (pcmOffset frames : Nat)
  /-- Behind `pcm_areas_copy`. -/
  | copied (a : Areas) (frames : Nat)
  | returned (r : Int)

/-- The stream, the hardware and the call, with its arguments and local variables. -/
structure Mmap where
  pcm : Pcm
  hwPtr : Nat
  applPtr : Nat
  mmapBuffer : Int → Uint8
  pc : Pc
  buffer : Int → Uint8
  bytes : Nat
  offset : Nat
  count : Nat
  err : Int
  /-- What the hardware has played or captured, for the record. -/
  device : List Uint8
  /-- What the calls have moved, for the record. -/
  moved : List Uint8
  /-- What the calls before had moved. -/
  before : List Uint8

inductive MmapAct where
  /-- The hardware plays a frame, or captures this one. -/
  | hw (frame : Int → Uint8)
  | pcmMmapWrite (data : Int → Uint8) (count : Nat)
  | pcmMmapRead (data : Int → Uint8) (count : Nat)
  /-- The call goes on. -/
  | app
  /-- `SNDRV_PCM_IOCTL_START` succeeds, or fails with an `errno`, which is positive. -/
  | start (errno : Option Int)
  /-- `pcm_wait` returns. -/
  | wait (r : Int)

/-- `pcm_mmap_begin`: the offset in the ring and the frames that may be copied from there. -/
def pcmMmapBegin (pcm : Pcm) (hwPtr applPtr frames : Nat) : Nat × Nat :=
  let offset := applPtr % pcm.bufferSize
  let avail := uint (pcmMmapAvail pcm hwPtr applPtr)
  let avail := if avail > pcm.bufferSize then pcm.bufferSize else avail
  let continuous := pcm.bufferSize - offset
  let copyFrames := if frames > avail then avail else frames
  (offset, if copyFrames > continuous then continuous else copyFrames)

/-- `pcm_areas_copy`: the ring and the caller's buffer behind it. A `memcpy` of a negative length
has no result. -/
def pcmAreasCopy (pcm : Pcm) (ring buf : Int → Uint8) (pcmOffset srcOffset frames : Nat) :
    Option ((Int → Uint8) × (Int → Uint8)) :=
  let sizeBytes := int (pcmFramesToBytes pcm frames)
  let pcmOffsetBytes := int (pcmFramesToBytes pcm pcmOffset)
  let srcOffsetBytes := int (pcmFramesToBytes pcm srcOffset)
  if sizeBytes < 0 then none
  else if pcm.isIn then
    some (ring, copyIn buf srcOffsetBytes (fun k => ring (pcmOffsetBytes + k)) sizeBytes)
  else
    some (copyIn ring pcmOffsetBytes (fun k => buf (srcOffsetBytes + k)) sizeBytes, buf)

/-- The frames of `pcm_mmap_transfer` once there is something to move; without any it breaks. -/
def Mmap.transfer (s : Mmap) (avail : Int) : Mmap :=
  let frames := if int s.count > avail then avail else int s.count
  if frames = 0 then { s with pc := .returned 0 }
  else { s with pc := .areas ⟨s.offset, uint frames, 0⟩ }

/-- The head of the loop of `pcm_mmap_transfer`. -/
def Mmap.look (s : Mmap) : Mmap :=
  if s.count = 0 then { s with pc := .returned 0 }
  else
    let avail := pcmMmapAvail s.pcm s.hwPtr s.applPtr
    if avail < 0 then { s with pc := .returned s.err }
    else if !s.pcm.running ∧ s.pcm.config.startThreshold ≤ uint (s.pcm.bufferSize - avail) then
      { s with pc := .starting avail }
    else { s with pc := .consider avail }

/-- Whether to wait. -/
def Mmap.consider (s : Mmap) (avail : Int) : Mmap :=
  if s.pcm.running then
    let wait := s.pcm.waitForAvailMin || decide (uint avail < s.count)
    if wait ∧ avail < s.pcm.config.availMin then
      { s with pcm := { s.pcm with waitForAvailMin := false }, pc := .waiting }
    else Mmap.transfer { s with pcm := { s.pcm with waitForAvailMin := wait } } avail
  else s.transfer avail

/-- The head of the loop of `pcm_mmap_transfer_areas`, and what `pcm_mmap_transfer` does behind
it. -/
def Mmap.nextArea (s : Mmap) (a : Areas) : Mmap :=
  if a.size = 0 then
    if int a.count < 0 then { s with pc := .returned (int a.count) }
    else { s with offset := uint (s.offset + a.count), count := uint (s.count - a.count),
                  pc := .loop }
  else
    let begun := pcmMmapBegin s.pcm s.hwPtr s.applPtr a.size
    { s with pc := .begun a begun.1 begun.2 }

/-- The bytes of `frames` frames from `offset` on in the caller's buffer. -/
def Mmap.frames (s : Mmap) (offset frames : Nat) : List Uint8 :=
  bytesAt s.buffer (offset * s.pcm.config.frameBytes : Nat) (frames * s.pcm.config.frameBytes : Nat)

/-- `pcm_mmap_commit` and the rest of the loop of `pcm_mmap_transfer_areas`. -/
def Mmap.commit (s : Mmap) (a : Areas) (frames : Nat) : Mmap :=
  let s := { s with applPtr := pcmMmapApplForward s.pcm s.applPtr (int frames)
                    moved := s.moved ++ s.frames a.offset frames }
  if int frames < 0 then { s with pc := .returned (int frames) }
  else
    { s with pc := .areas ⟨uint (a.offset + frames), uint (a.size - frames),
                           uint (a.count + frames)⟩ }

/-- The call goes on by one access. -/
def Mmap.app (s : Mmap) : Option Mmap :=
  match s.pc with
  | .loop => some s.look
  | .consider avail => some (s.consider avail)
  | .areas a => some (s.nextArea a)
  | .begun a pcmOffset frames =>
      (pcmAreasCopy s.pcm s.mmapBuffer s.buffer pcmOffset a.offset frames).map fun m =>
        { s with mmapBuffer := m.1, buffer := m.2, pc := .copied a frames }
  | .copied a frames => some (s.commit a frames)
  | _ => none

/-- `pcm_start`, for a stream that has been prepared. -/
def Mmap.start (s : Mmap) (errno : Option Int) : Option Mmap :=
  match s.pc, errno with
  | .starting avail, none =>
      some { s with pcm := { s.pcm with running := true, waitForAvailMin := false }
                    pc := .consider avail }
  | .starting _, some errno => if 0 < errno then some { s with pc := .returned (-errno) } else none
  | _, _ => none

/-- Behind `pcm_wait`. -/
def Mmap.wait (s : Mmap) (r : Int) : Option Mmap :=
  match s.pc with
  | .waiting =>
      if r < 0 then
        some { s with pcm := { s.pcm with prepared := false, running := false }
                      applPtr := 0
                      err := r
                      pc := .returned r }
      else some { s with err := r, pc := .loop }
  | _ => none

/-- A call of `pcm_mmap_transfer(pcm, buffer, bytes)`, if the stream has the flags that are
`needed`. -/
def Mmap.call (s : Mmap) (needed : BitVec 32) (buffer : Int → Uint8) (bytes : Nat) : Mmap :=
  let s := { s with buffer := buffer, bytes := bytes, offset := 0, count := 0, err := 0
                    before := s.moved }
  if ~~~s.pcm.flags &&& needed != 0 then { s with pc := .returned (-ENOSYS) }
  else if bytes = 0 then { s with pc := .returned 0 }
  else { s with count := pcmBytesToFrames s.pcm bytes, pc := .loop }

/-- `pcm_mmap_write(pcm, data, count)`. The flag `PCM_OUT` is no bit. -/
def Mmap.pcmMmapWrite (s : Mmap) : (Int → Uint8) → Nat → Mmap := s.call (PCM_OUT ||| PCM_MMAP)

/-- `pcm_mmap_read(pcm, data, count)`. -/
def Mmap.pcmMmapRead (s : Mmap) : (Int → Uint8) → Nat → Mmap := s.call (PCM_IN ||| PCM_MMAP)

/-- A call may begin. -/
def Pc.isDone : Pc → Bool
  | .idle => true
  | .returned _ => true
  | _ => false

/-- The bytes of the frame at `hw_ptr`. -/
def Mmap.hwFrame (s : Mmap) : Int :=
  ((s.hwPtr % s.pcm.bufferSize * s.pcm.config.frameBytes : Nat) : Int)

/-- The hardware moves on by a frame. It plays no frame that has not been written. -/
def Mmap.hw (s : Mmap) (frame : Int → Uint8) : Option Mmap :=
  let len : Int := s.pcm.config.frameBytes
  if s.pcm.isIn then
    some { s with mmapBuffer := copyIn s.mmapBuffer s.hwFrame frame len
                  hwPtr := hwForward s.pcm s.hwPtr
                  device := s.device ++ bytesAt frame 0 len }
  else if ahead s.pcm.boundary s.hwPtr s.applPtr = 0 then none
  else
    some { s with hwPtr := hwForward s.pcm s.hwPtr
                  device := s.device ++ bytesAt s.mmapBuffer s.hwFrame len }

/-- One step. -/
def Mmap.step (s : Mmap) : MmapAct → Option Mmap
  | .hw frame => if s.pcm.prepared then s.hw frame else none
  | .pcmMmapWrite data count =>
      if s.pcm.prepared ∧ s.pc.isDone then some (s.pcmMmapWrite data count) else none
  | .pcmMmapRead data count =>
      if s.pcm.prepared ∧ s.pc.isDone then some (s.pcmMmapRead data count) else none
  | .app => s.app
  | .start errno => s.start errno
  | .wait r => s.wait r

end SpeechStack.Tinyalsa
