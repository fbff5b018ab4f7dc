import SpeechStack.Tinyalsa.Flow

set_option autoImplicit false

/-! # Runs of `pcm_mmap_write` and `pcm_mmap_read`

Any number of calls on a stream that has been prepared, with the hardware moving whenever it likes.
What the hardware plays is what the calls have written, in order, nothing lost and nothing twice, as
long as no call looks at a full ring that has been lapped. What the calls read is what the hardware
has captured, as long as it does not capture into a full ring, which a stop threshold above the size
of the buffer lets it do.

A call that returns 0 has moved all its frames, if the stream starts before the ring is full and a
call waits on it when there is no room. Otherwise it may return 0 early.
-/

namespace SpeechStack.Tinyalsa

open Wrap

/-- A prepared stream with nothing in its ring, before the first call. -/
def Mmap.fresh (pcm : Pcm) (p : Nat) (ring buffer : Int → Uint8) : Mmap where
  pcm := pcm
  hwPtr := p
  applPtr := p
  mmapBuffer := ring
  pc := .idle
  buffer := buffer
  bytes := 0
  offset := 0
  count := 0
  err := 0
  device := []
  moved := []
  before := []

section Runs

variable {pcm : Pcm} {p : Nat} {ring buffer : Int → Uint8} {acts : List MmapAct} {s : Mmap}

/-- A call that has returned 0, on a stream that starts in time and waits. -/
theorem Flows.returned {q : List Uint8} (h : Flows pcm s q) (hprompt : Prompt pcm)
    (hpc : s.pc = .returned 0) :
    s.moved = s.before ++ s.frames 0 (s.bytes / pcm.config.frameBytes) := by
  have hok := h.pc
  rw [PcOk, hpc] at hok
  have hsize : s.pcm.bufferSize = pcm.bufferSize := congrArg Shape.bufferSize h.setup.shape
  have hprompt' : Prompt s.pcm := by
    constructor
    · rw [h.setup.config, hsize]
      exact hprompt.start
    · rw [h.setup.config]
      exact hprompt.wait
  have hcalls := h.calls
  rwa [Mmap.done, hpc, hok rfl hprompt', h.setup.config] at hcalls

end Runs

end SpeechStack.Tinyalsa
