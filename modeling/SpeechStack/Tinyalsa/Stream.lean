import SpeechStack.Lib.Loop
import SpeechStack.Tinyalsa.State

set_option autoImplicit false

/-! # `pcm_write`, `pcm_read` and the flags `prepared` and `running`

The calls that move sound by an `ioctl` each, and the three that change the state of the device:
`pcm_prepare`, `pcm_start`, `pcm_stop`. The driver is a function of everything that it has been
asked so far, so that a statement about every driver is one about every history of underruns and
other errors. An answer is the `errno` of the request, with 0 for a success.
-/

namespace SpeechStack.Tinyalsa

open Wrap

/-- The requests, a transfer with its number of frames. -/
inductive Ioctl where
  | prepare
  | start
  | drop
  | syncPtr
  | writei (frames : Nat)
  | readi (frames : Nat)
  deriving DecidableEq

/-- What has been asked and what was answered. -/
abbrev Trace : Type := List (Ioctl × Nat)

abbrev Driver : Type := Trace → Ioctl → Nat

/-- An opened stream: its handle, whether it has a `sync_ptr`, the text of `pcm_get_error` with the
error whose `strerror` follows it, and the requests so far. -/
structure Stream where
  pcm : Pcm
  syncPtr : Bool
  error : Option (String × Nat)
  trace : Trace

/-- A request with its answer. -/
def Stream.asked (s : Stream) (request : Ioctl) (errno : Nat) : Stream :=
  { s with trace := s.trace ++ [(request, errno)] }

/-- `ioctl(pcm->fd, request, …)`. -/
def Stream.ioctl (driver : Driver) (s : Stream) (request : Ioctl) : Nat × Stream :=
  (driver s.trace request, s.asked request (driver s.trace request))

/-- `oops(pcm, e, text)`, which always returns -1. -/
def Stream.oops (s : Stream) (e : Nat) (text : String) : Int × Stream :=
  (-1, { s with error := some (text, e) })

/-- `pcm_prepare(pcm)`. -/
def pcmPrepare (driver : Driver) (s : Stream) : Int × Stream :=
  if s.pcm.prepared then (0, s)
  else
    match s.ioctl driver .prepare with
    | (0, s) => (0, { s with pcm := { s.pcm with prepared := true } })
    | (errno, s) => s.oops errno "cannot prepare channel"

/-- `pcm_sync_ptr(pcm, 0)`, whose result `pcm_start` does not look at. -/
def pcmSyncPtr (driver : Driver) (s : Stream) : Stream :=
  if s.syncPtr then (s.ioctl driver .syncPtr).2 else s

/-- `pcm_start(pcm)`. -/
def pcmStart (driver : Driver) (s : Stream) : Int × Stream :=
  match pcmPrepare driver s with
  | (0, s) =>
      let s := if s.pcm.flags &&& PCM_MMAP != 0 then pcmSyncPtr driver s else s
      match s.ioctl driver .start with
      | (0, s) => (0, { s with pcm := { s.pcm with running := true } })
      | (errno, s) => s.oops errno "cannot start channel"
  | (prepareError, s) => (prepareError, s)

/-- `pcm_stop(pcm)`. -/
def pcmStop (driver : Driver) (s : Stream) : Int × Stream :=
  match s.ioctl driver .drop with
  | (0, s) => (0, { s with pcm := { s.pcm with prepared := false, running := false } })
  | (errno, s) => s.oops errno "cannot stop channel"

/-- `x.frames`. -/
def xferFrames (pcm : Pcm) (count : Nat) : Nat :=
  count / (uint (pcm.config.channels * pcmFormatToBits pcm.config.format) / 8)

/-- A round of the loop of `pcm_write`. -/
def pcmWriteRound (driver : Driver) (frames : Nat) (s : Stream) : Stream ⊕ (Int × Stream) :=
  if !s.pcm.running then
    match pcmPrepare driver s with
    | (0, s) =>
        match s.ioctl driver (.writei frames) with
        | (0, s) => .inr (0, { s with pcm := { s.pcm with running := true } })
        | (errno, s) => .inr (s.oops errno "cannot write initial data")
    | (prepareError, s) => .inr (prepareError, s)
  else
    match s.ioctl driver (.writei frames) with
    | (0, s) => .inr (0, s)
    | (errno, s) =>
        let s := { s with pcm := { s.pcm with prepared := false, running := false } }
        if errno = EPIPE then
          let s := { s with pcm := { s.pcm with underruns := s.pcm.underruns + 1 } }
          if s.pcm.flags &&& PCM_NORESTART != 0 then .inr (-EPIPE, s) else .inl s
        else .inr (s.oops errno "cannot write stream data")

/-- `pcm_write(pcm, data, count)`. -/
def pcmWrite (driver : Driver) (fuel : Nat) (s : Stream) (count : Nat) : Option (Int × Stream) :=
  if s.pcm.isIn then some (-EINVAL, s)
  else forever (pcmWriteRound driver (xferFrames s.pcm count)) fuel s

/-- The `errno` that `pcm_read` returns when `pcm_start` has failed: that of its last request. -/
def Stream.errno (s : Stream) : Nat := (s.trace.getLast?.map Prod.snd).getD 0

/-- A round of the loop of `pcm_read`. -/
def pcmReadRound (driver : Driver) (frames : Nat) (s : Stream) : Stream ⊕ (Int × Stream) :=
  let (started, s) := if !s.pcm.running then pcmStart driver s else (0, s)
  if started < 0 then .inr (-s.errno, s)
  else
    match s.ioctl driver (.readi frames) with
    | (0, s) => .inr (0, s)
    | (errno, s) =>
        let s := { s with pcm := { s.pcm with prepared := false, running := false } }
        if errno = EPIPE then
          .inl { s with pcm := { s.pcm with underruns := s.pcm.underruns + 1 } }
        else .inr (s.oops errno "cannot read stream data")

/-- `pcm_read(pcm, data, count)`. -/
def pcmRead (driver : Driver) (fuel : Nat) (s : Stream) (count : Nat) : Option (Int × Stream) :=
  if !s.pcm.isIn then some (-EINVAL, s)
  else forever (pcmReadRound driver (xferFrames s.pcm count)) fuel s

/-! ## What a call can do -/

/-- What `pcm_prepare` can do. -/
theorem pcmPrepare_cases {driver : Driver} {s s' : Stream} {r : Int}
    (h : pcmPrepare driver s = (r, s')) :
    (s.pcm.prepared = true ∧ r = 0 ∧ s' = s) ∨
    (s.pcm.prepared = false ∧ r = 0 ∧
      s' = { s.asked .prepare 0 with pcm := { s.pcm with prepared := true } }) ∨
    (s.pcm.prepared = false ∧ r = -1 ∧ ∃ e, e ≠ 0 ∧
      s' = { s.asked .prepare e with error := some ("cannot prepare channel", e) }) := by
  rw [pcmPrepare, Stream.ioctl] at h
  cases hprepared : s.pcm.prepared with
  | true =>
      rw [hprepared, if_pos rfl] at h
      obtain ⟨rfl, rfl⟩ := Prod.mk.inj h
      exact .inl ⟨rfl, rfl, rfl⟩
  | false =>
      rw [hprepared, if_neg Bool.false_ne_true] at h
      generalize driver s.trace .prepare = e at h
      cases e with
      | zero =>
          obtain ⟨rfl, rfl⟩ := Prod.mk.inj h
          exact .inr (.inl ⟨rfl, rfl, rfl⟩)
      | succ e =>
          obtain ⟨rfl, rfl⟩ := Prod.mk.inj h
          exact .inr (.inr ⟨rfl, rfl, e + 1, e.succ_ne_zero, rfl⟩)

/-- What `pcm_start` can do behind `pcm_prepare`. -/
theorem pcmStart_cases {driver : Driver} {s s' : Stream} {r : Int}
    (h : pcmStart driver s = (r, s')) :
    ∃ r₀ m, pcmPrepare driver s = (r₀, m) ∧
      ((r₀ ≠ 0 ∧ r = r₀ ∧ s' = m) ∨
        (r₀ = 0 ∧ ∃ n, (n = m ∨ ∃ e, n = m.asked .syncPtr e) ∧
          ((driver n.trace .start = 0 ∧ r = 0 ∧
              s' = { n.asked .start 0 with pcm := { n.pcm with running := true } }) ∨
            (r = -1 ∧ ∃ e, e ≠ 0 ∧
              s' = { n.asked .start e with error := some ("cannot start channel", e) })))) := by
  rw [pcmStart] at h
  rcases hprepare : pcmPrepare driver s with ⟨r₀, m⟩
  refine ⟨r₀, m, rfl, ?_⟩
  rw [hprepare] at h
  split at h
  case h_1 m' heq =>
    obtain ⟨rfl, rfl⟩ := Prod.mk.inj heq
    refine .inr ⟨rfl, ?_⟩
    generalize hn : (if m.pcm.flags &&& PCM_MMAP != 0 then pcmSyncPtr driver m else m) = n at h
    refine ⟨n, ?_, ?_⟩
    · rw [← hn]
      split
      · rw [pcmSyncPtr]
        split
        · exact .inr ⟨_, rfl⟩
        · exact .inl rfl
      · exact .inl rfl
    · dsimp only [Stream.ioctl] at h
      cases he : driver n.trace .start with
      | zero =>
          rw [he] at h
          obtain ⟨rfl, rfl⟩ := Prod.mk.inj h
          exact .inl ⟨rfl, rfl, rfl⟩
      | succ e =>
          rw [he] at h
          obtain ⟨rfl, rfl⟩ := Prod.mk.inj h
          exact .inr ⟨rfl, e + 1, e.succ_ne_zero, rfl⟩
  case h_2 r₁ m' hne heq =>
    obtain ⟨rfl, rfl⟩ := Prod.mk.inj heq
    obtain ⟨rfl, rfl⟩ := Prod.mk.inj h
    exact .inl ⟨hne, rfl, rfl⟩

/-- What `pcm_stop` can do. -/
theorem pcmStop_cases {driver : Driver} {s s' : Stream} {r : Int}
    (h : pcmStop driver s = (r, s')) :
    (r = 0 ∧ s' = { s.asked .drop 0 with pcm := { s.pcm with prepared := false, running := false } })
    ∨ (r = -1 ∧ ∃ e, e ≠ 0 ∧
      s' = { s.asked .drop e with error := some ("cannot stop channel", e) }) := by
  rw [pcmStop, Stream.ioctl] at h
  generalize driver s.trace .drop = e at h
  cases e with
  | zero =>
      obtain ⟨rfl, rfl⟩ := Prod.mk.inj h
      exact .inl ⟨rfl, rfl⟩
  | succ e =>
      obtain ⟨rfl, rfl⟩ := Prod.mk.inj h
      exact .inr ⟨rfl, e + 1, e.succ_ne_zero, rfl⟩

/-- A stream whose transfer has failed while it ran. -/
def Stream.lost (s : Stream) (request : Ioctl) (e : Nat) : Stream :=
  { s.asked request e with
    pcm := { s.pcm with
      prepared := false
      running := false
      underruns := if e = EPIPE then s.pcm.underruns + 1 else s.pcm.underruns } }

/-- What a round of `pcm_write` can do. -/
theorem pcmWriteRound_cases {driver : Driver} {frames : Nat} {s : Stream}
    {next : Stream ⊕ (Int × Stream)} (h : pcmWriteRound driver frames s = next) :
    (s.pcm.running = false ∧ ∃ r₀ m, pcmPrepare driver s = (r₀, m) ∧
      ((r₀ ≠ 0 ∧ next = .inr (r₀, m)) ∨
        (r₀ = 0 ∧ driver m.trace (.writei frames) = 0 ∧ next = .inr (0,
          { m.asked (.writei frames) 0 with pcm := { m.pcm with running := true } })) ∨
        (r₀ = 0 ∧ ∃ e, e ≠ 0 ∧ next = .inr (-1,
          { m.asked (.writei frames) e with error := some ("cannot write initial data", e) })))) ∨
    (s.pcm.running = true ∧
      (next = .inr (0, s.asked (.writei frames) 0) ∨
        next = .inr (-EPIPE, s.lost (.writei frames) EPIPE) ∨
        next = .inl (s.lost (.writei frames) EPIPE) ∨
        ∃ e, e ≠ 0 ∧ e ≠ EPIPE ∧ next = .inr (-1, { s.lost (.writei frames) e with
          error := some ("cannot write stream data", e) }))) := by
  rw [pcmWriteRound] at h
  cases hrunning : s.pcm.running with
  | false =>
      refine .inl ⟨rfl, ?_⟩
      rw [hrunning, if_pos (by rfl)] at h
      rcases hprepare : pcmPrepare driver s with ⟨r₀, m⟩
      refine ⟨r₀, m, rfl, ?_⟩
      rw [hprepare] at h
      split at h
      case h_1 m' heq =>
        obtain ⟨rfl, rfl⟩ := Prod.mk.inj heq
        rw [Stream.ioctl] at h
        cases he : driver m.trace (.writei frames) with
        | zero =>
            rw [he] at h
            exact .inr (.inl ⟨rfl, rfl, h.symm⟩)
        | succ e =>
            rw [he] at h
            exact .inr (.inr ⟨rfl, e + 1, e.succ_ne_zero, h.symm⟩)
      case h_2 r₁ m' hne heq =>
        obtain ⟨rfl, rfl⟩ := Prod.mk.inj heq
        exact .inl ⟨hne, h.symm⟩
  | true =>
      refine .inr ⟨rfl, ?_⟩
      rw [hrunning, if_neg (by decide), Stream.ioctl] at h
      generalize driver s.trace (.writei frames) = e at h
      cases e with
      | zero => exact .inl h.symm
      | succ e =>
          change (if e + 1 = EPIPE then _ else _) = next at h
          split at h
          next he =>
            rw [he] at h
            dsimp only at h
            split at h
            · exact .inr (.inl h.symm)
            · exact .inr (.inr (.inl h.symm))
          next he =>
            refine .inr (.inr (.inr ⟨e + 1, e.succ_ne_zero, he, ?_⟩))
            rw [← h, Stream.lost, if_neg he]
            rfl

/-- What a round of `pcm_read` can do behind `pcm_start`. -/
theorem pcmReadRound_cases {driver : Driver} {frames : Nat} {s : Stream}
    {next : Stream ⊕ (Int × Stream)} (h : pcmReadRound driver frames s = next) :
    ∃ r₀ m, (s.pcm.running = false ∧ pcmStart driver s = (r₀, m) ∨
        s.pcm.running = true ∧ r₀ = 0 ∧ m = s) ∧
      ((r₀ < 0 ∧ next = .inr (-m.errno, m)) ∨
        (0 ≤ r₀ ∧ (next = .inr (0, m.asked (.readi frames) 0) ∨
          next = .inl (m.lost (.readi frames) EPIPE) ∨
          ∃ e, e ≠ 0 ∧ e ≠ EPIPE ∧ next = .inr (-1, { m.lost (.readi frames) e with
            error := some ("cannot read stream data", e) })))) := by
  rw [pcmReadRound] at h
  rcases hstart : if !s.pcm.running then pcmStart driver s else (0, s) with ⟨r₀, m⟩
  refine ⟨r₀, m, ?_, ?_⟩
  · cases hrunning : s.pcm.running with
    | false =>
        rw [hrunning, if_pos (by rfl)] at hstart
        exact .inl ⟨rfl, hstart⟩
    | true =>
        rw [hrunning, if_neg (by decide)] at hstart
        obtain ⟨rfl, rfl⟩ := Prod.mk.inj hstart
        exact .inr ⟨rfl, rfl, rfl⟩
  · rw [hstart] at h
    dsimp only at h
    split at h
    next hneg => exact .inl ⟨hneg, h.symm⟩
    next hneg =>
      refine .inr ⟨not_lt.mp hneg, ?_⟩
      rw [Stream.ioctl] at h
      generalize driver m.trace (.readi frames) = e at h
      cases e with
      | zero => exact .inl h.symm
      | succ e =>
          change (if e + 1 = EPIPE then _ else _) = next at h
          split at h
          next he =>
            rw [he] at h
            exact .inr (.inl h.symm)
          next he =>
            refine .inr (.inr ⟨e + 1, e.succ_ne_zero, he, ?_⟩)
            rw [← h, Stream.lost, if_neg he]
            rfl

end SpeechStack.Tinyalsa
