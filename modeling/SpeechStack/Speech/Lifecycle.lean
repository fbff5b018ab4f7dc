import SpeechStack.Speech.Window
import SpeechStack.Tinyalsa.Open

set_option autoImplicit false

/-! # The microphone array from `speechArrayOpen` to `speechArrayClose`

The whole of the two functions, with everything that they call answered in any way. The handle of
a stream that opens is the one that `SpeechArrayRead` is about (`speechArrayOpen`, in
`Speech/Read.lean`). On the way back from an error the stream is not closed.
-/

namespace SpeechStack

open Ledger Wrap

/-- `struct SpeechArray_t`, in the fields that decide something. -/
structure ArrayConfig extends SpeechArray where
  card : Nat
  device : Nat

/-- What belongs to a `SpeechArrayHandle_t`. -/
inductive ArrayResource where
  | handle
  | mutex
  | cond
  | buffer
  | pcm (r : Tinyalsa.PcmResource)
  deriving DecidableEq

/-- What the calls of `speechArrayOpen` come back with. -/
structure ArrayAnswers where
  /-- there is memory for the handle and for the buffer -/
  handle : Bool
  buffer : Bool
  mutexInit : Int
  condInit : Int
  pcm : Tinyalsa.PcmAnswers
  /-- what is in the memory of the buffer and behind it -/
  heap : Nat → Word

/-- `struct SpeechArrayHandle_t`: the fields of the read path and the stream. -/
structure ArrayHandle where
  read : SpeechArrayHandle
  pcmHandle : Tinyalsa.PcmOpening

/-- The fields of the read path, behind an opened stream. -/
def arrayRead (config : ArrayConfig) (o : Tinyalsa.PcmOpening) (heap : Nat → Word) :
    SpeechArrayHandle where
  outAlign := int (uint (pcmFormatToBits config.format * config.channels) / 8 : Nat)
  buffSize := int (HW_BUFFER_COUNT * Tinyalsa.pcmFramesToBytes o.pcm o.pcm.bufferSize)
  buffer := heap
  dataSize := 0
  hwAlign := int (uint (o.config.channels * pcmFormatToBits o.config.format) / 8 : Nat)
  ratio := HW_OUT_DATA_RATIO

/-- What `speechArrayOpen` has acquired when it calls `pcm_open`. -/
def arrayStart : List (Op ArrayResource) := [.acquire .handle, .acquire .mutex, .acquire .cond]

/-- From the label `Error` on, when there is no buffer. -/
def arrayError : List (Op ArrayResource) := [.release .mutex, .release .cond, .release .handle]

/-- `speechArrayOpen` behind the set-up of the handle. -/
def openArray (k : ArrayAnswers) (fuel : Nat) (config : ArrayConfig) :
    Option (Option ArrayHandle × List (Op ArrayResource)) :=
  match Tinyalsa.pcmOpen k.pcm fuel config.card config.device Tinyalsa.PCM_IN
      (some Tinyalsa.hwConfig) with
  | none => none
  | some (pcmHandle, log) =>
      let log := arrayStart ++ log.map (Op.map .pcm)
      match pcmHandle with
      | none => some (none, log ++ arrayError)
      | some o =>
          if !Tinyalsa.pcmIsReady (some o) then some (none, log ++ arrayError)
          else if !k.buffer then some (none, log ++ arrayError)
          else some (some ⟨arrayRead config o k.heap, o⟩, log ++ [.acquire .buffer])

/-- `speechArrayOpen(config)`: the handle, if it is not null, and the ledger. -/
def speechArrayOpenWith (k : ArrayAnswers) (fuel : Nat) (config : Option ArrayConfig) :
    Option (Option ArrayHandle × List (Op ArrayResource)) :=
  match config with
  | none => some (none, [])
  | some config =>
      if !k.handle then some (none, [])
      else if k.mutexInit ≠ 0 then some (none, [.acquire .handle, .release .handle])
      else if k.condInit ≠ 0 then
        some (none, [.acquire .handle, .acquire .mutex, .release .mutex, .release .handle])
      else openArray k fuel config

/-- `speechArrayClose(handle)`: what it returns and the ledger of what it does. -/
def speechArrayClose : Option ArrayHandle → Int × List (Op ArrayResource)
  | none => (-1, [])
  | some h =>
      (0, (Tinyalsa.pcmClose (some h.pcmHandle)).2.map (Op.map .pcm) ++
        [.release .mutex, .release .cond, .release .buffer, .release .handle])

/-! ## The ledger -/

/-- What a `speechArrayOpen` that returns a null pointer never gives back: all that `pcm_open` has
acquired. -/
def abandoned (k : ArrayAnswers) (fuel : Nat) : Option ArrayConfig → Multiset ArrayResource
  | none => 0
  | some config =>
      if k.handle = true ∧ k.mutexInit = 0 ∧ k.condInit = 0 then
        match Tinyalsa.pcmOpen k.pcm fuel config.card config.device Tinyalsa.PCM_IN
            (some Tinyalsa.hwConfig) with
        | some (some o, _) => o.rest.map .pcm
        | _ => 0
      else 0

theorem arrayError_settles (held : Multiset ArrayResource) :
    settle arrayError ({.handle, .mutex, .cond} + held) = some held := by
  have hstart : ({.handle, .mutex, .cond} : Multiset ArrayResource) =
      ([.mutex, .cond, .handle] : List ArrayResource) := by decide
  rw [hstart]
  exact settle_releases [ArrayResource.mutex, .cond, .handle] held

/-- Behind `pcm_open`, one holds what the stream holds and the three things acquired before. -/
theorem arrayStart_settles {log : List (Op Tinyalsa.PcmResource)}
    {held : Multiset Tinyalsa.PcmResource} (h : settle log 0 = some held) :
    settle (arrayStart ++ log.map (Op.map ArrayResource.pcm)) 0 =
      some ({.handle, .mutex, .cond} + held.map .pcm) := by
  have hstart : settle arrayStart 0 = some ({.handle, .mutex, .cond} : Multiset ArrayResource) := by
    decide
  have hpcm := settle_frame (settle_map ArrayResource.pcm h) {.handle, .mutex, .cond}
  rw [Multiset.map_zero, zero_add] at hpcm
  rw [settle_append_of_eq hstart, hpcm, add_comm]

theorem openedArray_settles {k : ArrayAnswers} {fuel : Nat} {config : ArrayConfig}
    {h : Option ArrayHandle} {log : List (Op ArrayResource)} (hhandle : k.handle = true)
    (hmutex : k.mutexInit = 0) (hcond : k.condInit = 0)
    (hopen : openArray k fuel config = some (h, log)) :
    settle (log ++ (speechArrayClose h).2) 0 =
      some (if h.isSome then 0 else abandoned k fuel (some config)) := by
  have habandoned : abandoned k fuel (some config) =
      match Tinyalsa.pcmOpen k.pcm fuel config.card config.device Tinyalsa.PCM_IN
          (some Tinyalsa.hwConfig) with
      | some (some o, _) => o.rest.map .pcm
      | _ => 0 := if_pos ⟨hhandle, hmutex, hcond⟩
  unfold openArray at hopen
  cases hpcm : Tinyalsa.pcmOpen k.pcm fuel config.card config.device Tinyalsa.PCM_IN
      (some Tinyalsa.hwConfig) with
  | none =>
      rw [hpcm] at hopen
      cases hopen
  | some r =>
      obtain ⟨pcmHandle, plog⟩ := r
      obtain ⟨hheld, hcloses⟩ := Tinyalsa.pcmOpen_held (by decide) hpcm
      have hstart := arrayStart_settles hheld
      rw [hpcm] at hopen habandoned
      cases pcmHandle with
      | none =>
          obtain ⟨rfl, rfl⟩ := Prod.mk.inj (Option.some.inj hopen)
          rw [habandoned, show (speechArrayClose none).2 = [] from rfl, List.append_nil,
            settle_append_of_eq hstart]
          exact arrayError_settles 0
      | some o =>
          have hlost : settle (arrayStart ++ plog.map (Op.map .pcm) ++ arrayError) 0 =
              some (abandoned k fuel (some config)) := by
            rw [settle_append_of_eq hstart, habandoned]
            exact arrayError_settles _
          dsimp only at hopen
          split at hopen
          · obtain ⟨rfl, rfl⟩ := Prod.mk.inj (Option.some.inj hopen)
            rw [show (speechArrayClose none).2 = [] from rfl, List.append_nil]
            exact hlost
          · split at hopen
            · obtain ⟨rfl, rfl⟩ := Prod.mk.inj (Option.some.inj hopen)
              rw [show (speechArrayClose none).2 = [] from rfl, List.append_nil]
              exact hlost
            · obtain ⟨rfl, rfl⟩ := Prod.mk.inj (Option.some.inj hopen)
              have hlog : settle (arrayStart ++ plog.map (Op.map .pcm) ++ [.acquire .buffer]) 0 =
                  some (o.rest.map .pcm + {.handle, .mutex, .cond, .buffer}) := by
                have hfour : ({.handle, .mutex, .cond, .buffer} : Multiset ArrayResource) =
                    {.buffer} + {.handle, .mutex, .cond} := by decide
                rw [settle_acquire hstart, ← Multiset.singleton_add, hfour, ← add_assoc, add_comm]
                rfl
              have hpcmClose : settle (((Tinyalsa.pcmClose (some o)).2).map (Op.map .pcm))
                  (o.rest.map .pcm + {.handle, .mutex, .cond, .buffer}) =
                    some ({.handle, .mutex, .cond, .buffer} : Multiset ArrayResource) := by
                rw [Tinyalsa.pcmClose_log]
                have hframe := settle_frame (settle_map ArrayResource.pcm (hcloses o rfl))
                  {.handle, .mutex, .cond, .buffer}
                rwa [Multiset.map_zero, zero_add] at hframe
              have hlast : settle [.release .mutex, .release .cond, .release .buffer,
                  .release .handle] ({.handle, .mutex, .cond, .buffer} : Multiset ArrayResource) =
                    some 0 := by decide
              unfold speechArrayClose
              rw [settle_append_of_eq hlog, settle_append_of_eq hpcmClose]
              exact hlast

/-- **The microphone array, opened and closed.** A handle that is closed has given back all that
was acquired for it, nothing twice. A `speechArrayOpen` that fails gives back all but the stream:
what `pcm_open` has acquired is lost with the handle. -/
theorem speechArrayOpen_settles {k : ArrayAnswers} {fuel : Nat} {config : Option ArrayConfig}
    {h : Option ArrayHandle} {log : List (Op ArrayResource)}
    (hopen : speechArrayOpenWith k fuel config = some (h, log)) :
    settle (log ++ (speechArrayClose h).2) 0 =
      some (if h.isSome then 0 else abandoned k fuel config) := by
  cases config with
  | none =>
      obtain ⟨rfl, rfl⟩ := Prod.mk.inj (Option.some.inj hopen)
      rfl
  | some config =>
      have hnothing : ¬(k.handle = true ∧ k.mutexInit = 0 ∧ k.condInit = 0) →
          abandoned k fuel (some config) = 0 := fun hno => if_neg hno
      unfold speechArrayOpenWith at hopen
      dsimp only at hopen
      by_cases hhandle : k.handle = true
      · rw [hhandle, if_neg (by decide)] at hopen
        by_cases hmutex : k.mutexInit = 0
        · rw [if_neg (not_not.mpr hmutex)] at hopen
          by_cases hcond : k.condInit = 0
          · rw [if_neg (not_not.mpr hcond)] at hopen
            exact openedArray_settles hhandle hmutex hcond hopen
          · rw [if_pos hcond] at hopen
            obtain ⟨rfl, rfl⟩ := Prod.mk.inj (Option.some.inj hopen)
            rw [hnothing fun hall => hcond hall.2.2]
            rfl
        · rw [if_pos hmutex] at hopen
          obtain ⟨rfl, rfl⟩ := Prod.mk.inj (Option.some.inj hopen)
          rw [hnothing fun hall => hmutex hall.2.1]
          rfl
      · rw [if_pos (by simpa using hhandle)] at hopen
        obtain ⟨rfl, rfl⟩ := Prod.mk.inj (Option.some.inj hopen)
        rw [hnothing fun hall => hhandle hall.1]
        rfl

/-- The answers when there is no memory for the buffer of an opened stream. -/
def noBuffer : ArrayAnswers where
  handle := true
  buffer := false
  mutexInit := 0
  condInit := 0
  pcm := Tinyalsa.arrayAnswers
  heap _ := 0

/-- Stereo of 16 bits. -/
def stereo : ArrayConfig := { channels := 2, format := PCM_FORMAT_S16_LE, card := 0, device := 0 }

theorem noBuffer_fails :
    ((speechArrayOpenWith noBuffer 31 (some stereo)).any fun r => r.1.isNone) = true := by
  decide

theorem noBuffer_abandons : abandoned noBuffer 31 (some stereo) =
    {.pcm .handle, .pcm .fd, .pcm .status, .pcm .control} := by
  decide

theorem speechArrayOpen_settles_noBuffer : ∃ log,
    speechArrayOpenWith noBuffer 31 (some stereo) = some (none, log) ∧
      settle (log ++ (speechArrayClose none).2) 0 =
        some {.pcm .handle, .pcm .fd, .pcm .status, .pcm .control} := by
  have hfails := noBuffer_fails
  cases hopen : speechArrayOpenWith noBuffer 31 (some stereo) with
  | none => simp [hopen] at hfails
  | some r =>
      obtain ⟨h, log⟩ := r
      rw [hopen] at hfails
      obtain rfl : h = none := Option.isNone_iff_eq_none.mp hfails
      refine ⟨log, rfl, ?_⟩
      rw [speechArrayOpen_settles hopen, noBuffer_abandons]
      rfl

/-! ## The handle -/

end SpeechStack
