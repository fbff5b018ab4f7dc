import SpeechStack.Lib.Loop
import SpeechStack.Lib.Wrap
import SpeechStack.Speech.Read

set_option autoImplicit false

/-! # `struct pcm` and the boundary

The handle of an opened stream, in the fields that the data path uses. An `unsigned int` is a
natural number, and what C computes in 32 bits is brought back by `Wrap.uint` and `Wrap.int`.

`pcm_open` ends with a loop that doubles `boundary`, where the pointers into the ring buffer start
again, as long as there is room in an `int`. The loop is the reason why every difference of two
pointers fits in an `int` (`boundary_spec`); it does not end for a buffer without frames.
-/

namespace SpeechStack.Tinyalsa

open Wrap

def PCM_OUT : BitVec 32 := 0x00000000
def PCM_IN : BitVec 32 := 0x10000000
def PCM_MMAP : BitVec 32 := 0x00000001
def PCM_NOIRQ : BitVec 32 := 0x00000002
def PCM_NORESTART : BitVec 32 := 0x00000004

def ENOMEM : Nat := 12
def EINVAL : Nat := 22
def EPIPE : Nat := 32

/-- `struct pcm_config`. -/
structure PcmConfig where
  channels : Nat
  rate : Nat
  periodSize : Nat
  periodCount : Nat
  format : Nat
  startThreshold : Nat
  stopThreshold : Nat
  silenceThreshold : Nat
  silenceSize : Nat
  availMin : Int
  deriving DecidableEq

/-- `struct pcm`. -/
structure Pcm where
  fd : Int
  flags : BitVec 32
  running : Bool
  prepared : Bool
  underruns : Int
  bufferSize : Nat
  boundary : Nat
  config : PcmConfig
  noirqFramesPerMsec : Nat
  waitForAvailMin : Bool
  deriving DecidableEq

/-- `flags & PCM_IN`. -/
def Pcm.isIn (pcm : Pcm) : Bool := pcm.flags &&& PCM_IN != 0

/-- A mono stream of two frames of 16 bits. -/
def smallPcm (flags : BitVec 32) : Pcm where
  fd := 3
  flags := flags
  running := false
  prepared := true
  underruns := 0
  bufferSize := 2
  boundary := 8
  config := ⟨1, 8000, 1, 2, PCM_FORMAT_S16_LE, 1, 2, 0, 0, 1⟩
  noirqFramesPerMsec := 0
  waitForAvailMin := false

/-! ## Frames and bytes -/

/-- The bytes of a frame: `channels * (pcm_format_to_bits(format) >> 3)`. -/
def PcmConfig.frameBytes (config : PcmConfig) : Nat :=
  config.channels * (pcmFormatToBits config.format / 8)

/-- `pcm_bytes_to_frames(pcm, bytes)`. -/
def pcmBytesToFrames (pcm : Pcm) (bytes : Nat) : Nat := bytes / uint pcm.config.frameBytes

/-- `pcm_frames_to_bytes(pcm, frames)`. -/
def pcmFramesToBytes (pcm : Pcm) (frames : Nat) : Nat :=
  uint (frames * pcm.config.channels * (pcmFormatToBits pcm.config.format / 8 : Nat))

theorem pcmFramesToBytes_eq {pcm : Pcm} {frames : Nat}
    (h : frames * pcm.config.frameBytes < 2 ^ 32) :
    pcmFramesToBytes pcm frames = frames * pcm.config.frameBytes := by
  have hcast : ((frames : Int) * pcm.config.channels * (pcmFormatToBits pcm.config.format / 8 : Nat))
      = ((frames * pcm.config.frameBytes : Nat) : Int) := by
    rw [PcmConfig.frameBytes]
    push_cast
    ring
  rw [pcmFramesToBytes, hcast, uint_natCast h]

theorem pcmBytesToFrames_eq {pcm : Pcm} (h : pcm.config.frameBytes < 2 ^ 32) (bytes : Nat) :
    pcmBytesToFrames pcm bytes = bytes / pcm.config.frameBytes := by
  rw [pcmBytesToFrames, uint_natCast h]

/-! ## The boundary -/

def INT_MAX : Int := 2 ^ 31 - 1

/-- The end of `pcm_open`: `while (boundary * 2 <= INT_MAX - buffer_size) boundary *= 2`. -/
def boundaryLoop (fuel bufferSize : Nat) : Option Nat :=
  whileDo (fun boundary : Nat => decide (uint (boundary * 2) ≤ uint (INT_MAX - bufferSize)))
    (fun boundary : Nat => some (uint (boundary * 2))) fuel bufferSize

/-- What the pointers into the ring rely on. -/
structure Bounded (bufferSize boundary : Nat) : Prop where
  pos : 0 < bufferSize
  dvd : bufferSize ∣ boundary
  two_le : 2 * bufferSize ≤ boundary
  fits : (boundary : Int) + bufferSize ≤ INT_MAX

/-- A round of the loop, with the arithmetic done. -/
theorem boundary_test {bufferSize boundary : Nat} (hsize : bufferSize ≤ INT_MAX)
    (h : boundary < 2 ^ 31) :
    uint (boundary * 2) = boundary * 2 ∧
      (uint (boundary * 2) ≤ uint (INT_MAX - bufferSize) ↔
        (boundary : Int) * 2 + bufferSize ≤ INT_MAX) := by
  have hdouble : (uint ((boundary : Int) * 2) : Int) = boundary * 2 := uint_eq (by omega) (by omega)
  have hroom : (uint (INT_MAX - bufferSize) : Int) = INT_MAX - bufferSize := by
    unfold INT_MAX at *
    exact uint_eq (by omega) (by omega)
  constructor <;> omega

/-- The boundary on the way: the buffer size doubled, within an `int` also with one more buffer once
it has been doubled. -/
structure Doubled (bufferSize boundary : Nat) : Prop where
  lt : boundary < 2 ^ 31
  eq : ∃ k, boundary = bufferSize * 2 ^ k ∧ (0 < k → (boundary : Int) + bufferSize ≤ INT_MAX)

theorem Doubled.double {bufferSize boundary : Nat} (h : Doubled bufferSize boundary)
    (hroom : (boundary : Int) * 2 + bufferSize ≤ INT_MAX) :
    Doubled bufferSize (boundary * 2) := by
  obtain ⟨k, hk, -⟩ := h.eq
  constructor
  · unfold INT_MAX at hroom
    omega
  · refine ⟨k + 1, ?_, fun _ => ?_⟩
    · rw [hk, pow_succ]
      ring
    · push_cast
      exact hroom

/-- For an empty buffer the loop goes on for ever: twice nothing is nothing. -/
theorem boundaryLoop_zero (fuel : Nat) : boundaryLoop fuel 0 = none := by
  refine whileDo_eq_none (fun b => b = 0) ?_ ?_ fuel rfl
  · rintro s rfl
    exact decide_eq_true (by decide)
  · rintro s t rfl ht
    exact (Option.some.inj ht).symm

/-- The loop ends with the buffer size doubled as often as it can be. -/
theorem boundaryLoop_pos {bufferSize : Nat} (hsize : bufferSize ≤ INT_MAX) (hpos : 0 < bufferSize) :
    ∃ k, boundaryLoop 31 bufferSize = some (bufferSize * 2 ^ k) ∧
      INT_MAX < ((bufferSize * 2 ^ k : Nat) : Int) * 2 + bufferSize ∧
      (0 < k → ((bufferSize * 2 ^ k : Nat) : Int) + bufferSize ≤ INT_MAX) ∧
      (3 * bufferSize ≤ INT_MAX → Bounded bufferSize (bufferSize * 2 ^ k)) := by
  have hmax : INT_MAX = 2 ^ 31 - 1 := rfl
  have hstart : Doubled bufferSize bufferSize :=
    ⟨by omega, 0, (Nat.mul_one _).symm, fun h => absurd h (lt_irrefl 0)⟩
  have hround : ∀ b : Nat, 0 < b ∧ Doubled bufferSize b →
      decide (uint (b * 2) ≤ uint (INT_MAX - bufferSize)) = true →
      ∃ c, some (uint (b * 2)) = some c ∧ (0 < c ∧ Doubled bufferSize c) ∧
        31 - Nat.log 2 c < 31 - Nat.log 2 b := by
    intro b hinv htest
    obtain ⟨hdouble, hiff⟩ := boundary_test hsize hinv.2.lt
    have hnext := hinv.2.double (hiff.mp (of_decide_eq_true htest))
    have hlog : Nat.log 2 (b * 2) = Nat.log 2 b + 1 :=
      Nat.log_mul_base Nat.one_lt_two (by omega)
    have hlt : Nat.log 2 (b * 2) < 31 := Nat.log_lt_of_lt_pow (by omega) hnext.lt
    exact ⟨b * 2, by rw [hdouble], ⟨by omega, hnext⟩, by omega⟩
  obtain ⟨b, hb, hinv, htest⟩ :=
    whileDo_of_variant (fun b => 31 - Nat.log 2 b) hround ⟨hpos, hstart⟩ (Nat.sub_le _ _)
  have hstop := (boundary_test hsize hinv.2.lt).2.not.mp (of_decide_eq_false htest)
  obtain ⟨k, rfl, hk⟩ := hinv.2.eq
  refine ⟨k, hb, by omega, hk, fun hthree => ?_⟩
  have hkpos : 0 < k := by
    by_contra hzero
    obtain rfl : k = 0 := by omega
    rw [pow_zero, Nat.mul_one] at hstop
    omega
  refine ⟨hpos, Nat.dvd_mul_right _ _, ?_, hk hkpos⟩
  calc 2 * bufferSize = bufferSize * 2 ^ 1 := by ring
    _ ≤ bufferSize * 2 ^ k := Nat.mul_le_mul_left _ (Nat.pow_le_pow_right (by omega) hkpos)

/-- **The boundary.** It is the buffer size doubled as often as it can be with room for one more
buffer in an `int`; for an empty buffer the loop goes on for ever. -/
theorem boundary_spec {bufferSize : Nat} (hsize : bufferSize ≤ INT_MAX) :
    (bufferSize = 0 → ∀ fuel, boundaryLoop fuel bufferSize = none) ∧
    (0 < bufferSize → ∃ k, boundaryLoop 31 bufferSize = some (bufferSize * 2 ^ k) ∧
      INT_MAX < ((bufferSize * 2 ^ k : Nat) : Int) * 2 + bufferSize ∧
      (0 < k → ((bufferSize * 2 ^ k : Nat) : Int) + bufferSize ≤ INT_MAX) ∧
      (3 * bufferSize ≤ INT_MAX → Bounded bufferSize (bufferSize * 2 ^ k))) := by
  refine ⟨?_, boundaryLoop_pos hsize⟩
  rintro rfl fuel
  exact boundaryLoop_zero fuel

/-- The buffer of the microphone array. -/
theorem boundary_spec_hwConfig : ∃ k, boundaryLoop 31 6144 = some (6144 * 2 ^ k) ∧
    INT_MAX < ((6144 * 2 ^ k : Nat) : Int) * 2 + 6144 ∧ Bounded 6144 (6144 * 2 ^ k) := by
  have hsize : ((6144 : Nat) : Int) ≤ INT_MAX := by decide
  obtain ⟨k, hloop, hlast, -, hbounded⟩ := (boundary_spec hsize).2 (by decide)
  exact ⟨k, hloop, hlast, hbounded (by decide)⟩

end SpeechStack.Tinyalsa
