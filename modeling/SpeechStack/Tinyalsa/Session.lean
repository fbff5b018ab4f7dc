import SpeechStack.Lib.Machine
import SpeechStack.Tinyalsa.Stream

set_option autoImplicit false

/-! # The flags of a stream and the state of its device

A session is a stream with the calls that an application has made. The handle keeps two flags,
`prepared` and `running`, by which it decides when to ask for PREPARE and START; whether they are
right is a question about the answers of the driver. They are, as long as no first write has failed
(`flags_agree_iff`): `pcm_write` resets them when a transfer fails on a running stream, and does
not when the first one fails, which leaves a stream that is prepared in name only, until it is
stopped (`stumbled_until_stop`). What has been transferred is in every session what the calls
that returned 0 asked for, once each (`transfers_exactly_once`).
-/

namespace SpeechStack.Tinyalsa

open Machine

/-! ## Sessions -/

/-- The calls of an application; a transfer comes with the number of rounds it is given. -/
inductive Call where
  | prepare
  | start
  | stop
  | write (count fuel : Nat)
  | read (count fuel : Nat)
  deriving DecidableEq

/-- A call with its result, if it returns. -/
def Stream.call (driver : Driver) (s : Stream) : Call → Option (Int × Stream)
  | .prepare => some (pcmPrepare driver s)
  | .start => some (pcmStart driver s)
  | .stop => some (pcmStop driver s)
  | .write count fuel => pcmWrite driver fuel s count
  | .read count fuel => pcmRead driver fuel s count

/-- A stream and what its calls have returned. -/
structure Session where
  stream : Stream
  log : List (Call × Int)

def Session.step (driver : Driver) (s : Session) (call : Call) : Option Session :=
  (s.stream.call driver call).map fun (r, stream) => ⟨stream, s.log ++ [(call, r)]⟩

/-- The session of a stream that has just been opened. -/
def Session.opened (pcm : Pcm) (syncPtr : Bool) : Session where
  stream := ⟨{ pcm with prepared := false, running := false, underruns := 0 }, syncPtr, none, []⟩
  log := []

/-! ## The device -/

/-- The states of the device. -/
inductive Mode where
  | setup
  | prepared
  | running
  deriving DecidableEq

/-- The device: its state, and how many transfers have met an underrun while it ran. -/
structure Device where
  mode : Mode
  underruns : Nat
  deriving DecidableEq

/-- What an answered request makes of the device: a transfer that goes through runs it, one that
fails throws it back to where it has to be prepared again. -/
def Device.after (d : Device) : Ioctl × Nat → Device
  | (.prepare, 0) => { d with mode := .prepared }
  | (.start, 0) => { d with mode := .running }
  | (.drop, 0) => { d with mode := .setup }
  | (.writei _, 0) | (.readi _, 0) => { d with mode := .running }
  | (.writei _, e + 1) | (.readi _, e + 1) =>
      ⟨.setup, if d.mode = .running ∧ e + 1 = EPIPE then d.underruns + 1 else d.underruns⟩
  | _ => d

def device (trace : Trace) : Device := trace.foldl Device.after ⟨.setup, 0⟩

theorem device_append (trace : Trace) (x : Ioctl × Nat) :
    device (trace ++ [x]) = (device trace).after x := by
  rw [device, List.foldl_append]
  rfl

/-- A write has failed on a device that did not run. -/
def FirstWriteFailed (trace : Trace) : Prop :=
  ∃ before frames e after, trace = before ++ (Ioctl.writei frames, e + 1) :: after ∧
    (device before).mode ≠ .running

theorem FirstWriteFailed.append {trace : Trace} (h : FirstWriteFailed trace) (new : Trace) :
    FirstWriteFailed (trace ++ new) := by
  obtain ⟨before, frames, e, after, rfl, hmode⟩ := h
  exact ⟨before, frames, e, after ++ new, by rw [List.append_assoc, List.cons_append], hmode⟩

theorem firstWriteFailed_append {trace : Trace} {x : Ioctl × Nat} :
    FirstWriteFailed (trace ++ [x]) ↔
      FirstWriteFailed trace ∨
        (∃ frames e, x = (.writei frames, e + 1)) ∧ (device trace).mode ≠ .running := by
  constructor
  · rintro ⟨before, frames, e, after, heq, hmode⟩
    rcases List.eq_nil_or_concat after with rfl | ⟨after, y, rfl⟩
    · obtain ⟨rfl, hx⟩ := List.append_inj' heq rfl
      exact .inr ⟨⟨frames, e, (List.cons.inj hx).1⟩, hmode⟩
    · rw [List.concat_eq_append, ← List.cons_append, ← List.append_assoc] at heq
      obtain ⟨rfl, -⟩ := List.append_inj' heq rfl
      exact .inl ⟨before, frames, e, after, rfl, hmode⟩
  · rintro (h | ⟨⟨frames, e, rfl⟩, hmode⟩)
    · exact h.append _
    · exact ⟨trace, frames, e, [], rfl, hmode⟩

/-! ## What a call does to the flags -/

/-- What the handle always knows of the device. -/
structure Stream.Tracks (s : Stream) : Prop where
  running : s.pcm.running = true ↔ (device s.trace).mode = .running
  prepared : (device s.trace).mode ≠ .setup → s.pcm.prepared = true
  underruns : s.pcm.underruns = (device s.trace).underruns

/-- The handle does not take the device for prepared when it is not. -/
def Stream.Agrees (s : Stream) : Prop :=
  s.pcm.prepared = true → (device s.trace).mode ≠ .setup

/-- A step that leaves the handle as good as it was. -/
structure Calm (s s' : Stream) : Prop where
  tracks : s'.Tracks
  agrees : s.Agrees → s'.Agrees
  first : FirstWriteFailed s'.trace ↔ FirstWriteFailed s.trace

/-- A step that ends with a first write that fails. -/
structure Stumbles (s' : Stream) : Prop where
  tracks : s'.Tracks
  agrees : ¬ s'.Agrees
  first : FirstWriteFailed s'.trace

theorem Calm.refl {s : Stream} (h : s.Tracks) : Calm s s := ⟨h, id, Iff.rfl⟩

theorem Calm.trans {s m s' : Stream} (h₁ : Calm s m) (h₂ : Calm m s') : Calm s s' :=
  ⟨h₂.tracks, h₂.agrees ∘ h₁.agrees, h₂.first.trans h₁.first⟩

/-- A request that is no failed first write, with flags that follow the device. -/
theorem Calm.of_ioctl {s s' : Stream} {x : Ioctl × Nat} {d : Device}
    (htrace : s'.trace = s.trace ++ [x]) (hd : (device s.trace).after x = d)
    (hrunning : s'.pcm.running = true ↔ d.mode = .running)
    (hprepared : d.mode ≠ .setup → s'.pcm.prepared = true)
    (hunderruns : s'.pcm.underruns = d.underruns)
    (hagrees : s.Agrees → s'.pcm.prepared = true → d.mode ≠ .setup)
    (hfirst : ∀ frames e, x = (.writei frames, e + 1) → (device s.trace).mode = .running) :
    Calm s s' := by
  have hdevice : device s'.trace = d := by rw [htrace, device_append, hd]
  refine ⟨⟨?_, ?_, ?_⟩, fun h => ?_, ?_⟩
  · rw [hdevice]
    exact hrunning
  · rw [hdevice]
    exact hprepared
  · rw [hdevice]
    exact hunderruns
  · rw [Stream.Agrees, hdevice]
    exact hagrees h
  · rw [htrace, firstWriteFailed_append]
    refine ⟨fun h => h.resolve_right ?_, .inl⟩
    rintro ⟨⟨frames, e, hx⟩, hmode⟩
    exact hmode (hfirst frames e hx)

/-- A request that leaves the device as it is. -/
theorem Calm.of_idle {s s' : Stream} {x : Ioctl × Nat} (hs : s.Tracks)
    (htrace : s'.trace = s.trace ++ [x]) (hpcm : s'.pcm = s.pcm)
    (hidle : ∀ d : Device, d.after x = d) : Calm s s' := by
  refine Calm.of_ioctl htrace (hidle _) ?_ ?_ ?_ ?_ ?_
  · rw [hpcm]
    exact hs.running
  · rw [hpcm]
    exact hs.prepared
  · rw [hpcm]
    exact hs.underruns
  · rw [hpcm]
    exact id
  · rintro frames e rfl
    have hsetup := congrArg Device.mode (hidle ⟨.running, 0⟩)
    cases hsetup

/-- The transfers; what they do to the device depends on the answer alone. -/
def Ioctl.isTransfer : Ioctl → Bool
  | .writei _ => true
  | .readi _ => true
  | _ => false

theorem Device.after_transfer (d : Device) {request : Ioctl} (h : request.isTransfer = true) :
    d.after (request, 0) = { d with mode := .running } := by
  cases request <;> first | rfl | cases h

theorem Device.after_transfer_refused (d : Device) {request : Ioctl}
    (h : request.isTransfer = true) {e : Nat} (he : e ≠ 0) :
    d.after (request, e) =
      ⟨.setup, if d.mode = .running ∧ e = EPIPE then d.underruns + 1 else d.underruns⟩ := by
  obtain ⟨e, rfl⟩ := Nat.exists_eq_succ_of_ne_zero he
  cases request <;> first | rfl | cases h

/-- A transfer that goes through. -/
theorem Calm.of_transfer {s s' : Stream} {request : Ioctl} (hs : s.Tracks)
    (hrequest : request.isTransfer = true) (htrace : s'.trace = s.trace ++ [(request, 0)])
    (hprepared : s.pcm.prepared = true) (hpcm : s'.pcm = { s.pcm with running := true }) :
    Calm s s' := by
  refine Calm.of_ioctl htrace (Device.after_transfer _ hrequest) ?_ ?_ ?_ ?_ ?_
  · simp [hpcm]
  · simp [hpcm, hprepared]
  · rw [hpcm]
    exact hs.underruns
  · simp
  · intro frames e hx
    cases hx

/-- A transfer that fails while the stream runs. -/
theorem Calm.of_refused {s s' : Stream} {request : Ioctl} {e : Nat} (hs : s.Tracks)
    (hrequest : request.isTransfer = true) (htrace : s'.trace = s.trace ++ [(request, e)])
    (he : e ≠ 0) (hrunning : s.pcm.running = true)
    (hpcm : s'.pcm = { s.pcm with
      prepared := false
      running := false
      underruns := if e = EPIPE then s.pcm.underruns + 1 else s.pcm.underruns }) :
    Calm s s' := by
  have hmode := hs.running.mp hrunning
  refine Calm.of_ioctl htrace (Device.after_transfer_refused _ hrequest he) ?_ ?_ ?_ ?_ ?_
  · simp [hpcm]
  · simp
  · rw [hpcm]
    dsimp only
    rw [hs.underruns]
    by_cases h : e = EPIPE
    · rw [if_pos h, if_pos ⟨hmode, h⟩]
      rfl
    · rw [if_neg h, if_neg fun hboth => h hboth.2]
  · simp [hpcm]
  · exact fun _ _ _ => hmode

/-- A first write that fails: `prepared` stays as it is. -/
theorem Stumbles.of_refused {s s' : Stream} {frames e : Nat} (hs : s.Tracks)
    (htrace : s'.trace = s.trace ++ [(.writei frames, e)]) (he : e ≠ 0)
    (hrunning : s.pcm.running = false) (hprepared : s.pcm.prepared = true)
    (hpcm : s'.pcm = s.pcm) : Stumbles s' := by
  have hmode : (device s.trace).mode ≠ .running := fun h => by
    rw [hs.running.mpr h] at hrunning
    cases hrunning
  have hdevice : device s'.trace = ⟨.setup, (device s.trace).underruns⟩ := by
    rw [htrace, device_append, Device.after_transfer_refused _ rfl he,
      if_neg fun hboth => hmode hboth.1]
  refine ⟨⟨?_, ?_, ?_⟩, ?_, ?_⟩
  · rw [hdevice, hpcm, hrunning]
    simp
  · rw [hdevice]
    exact fun h => absurd rfl h
  · rw [hdevice, hpcm]
    exact hs.underruns
  · rw [Stream.Agrees, hdevice, hpcm]
    exact fun h => h hprepared rfl
  · rw [htrace, firstWriteFailed_append]
    obtain ⟨e, rfl⟩ := Nat.exists_eq_succ_of_ne_zero he
    exact .inr ⟨⟨frames, e, rfl⟩, hmode⟩

theorem Stream.Tracks.running_prepared {s : Stream} (hs : s.Tracks)
    (h : s.pcm.running = true) : s.pcm.prepared = true :=
  hs.prepared (by rw [hs.running.mp h]; exact Mode.noConfusion)

theorem Stream.Tracks.not_running {s : Stream} (hs : s.Tracks) (h : s.pcm.prepared = false) :
    s.pcm.running = false := by
  by_contra hrun
  rw [hs.running_prepared (Bool.eq_true_of_not_eq_false hrun)] at h
  cases h

/-! ## The calls -/

theorem pcmPrepare_calm {driver : Driver} {s s' : Stream} {r : Int} (hs : s.Tracks)
    (h : pcmPrepare driver s = (r, s')) :
    Calm s s' ∧ (r = 0 → s'.pcm.prepared = true) ∧ s'.pcm.running = s.pcm.running := by
  rcases pcmPrepare_cases h with ⟨hp, -, rfl⟩ | ⟨hp, -, rfl⟩ | ⟨-, rfl, e, he, rfl⟩
  · exact ⟨Calm.refl hs, fun _ => hp, rfl⟩
  · have hrunning := hs.not_running hp
    have hd : (device s.trace).after (.prepare, 0) = { device s.trace with mode := .prepared } := rfl
    refine ⟨Calm.of_ioctl rfl hd ?_ (fun _ => rfl) hs.underruns ?_ ?_, fun _ => rfl, rfl⟩
    · simp [hrunning]
    · exact fun _ _ => Mode.noConfusion
    · intro frames e hx
      cases hx
  · obtain ⟨e, rfl⟩ := Nat.exists_eq_succ_of_ne_zero he
    exact ⟨Calm.of_idle hs rfl rfl fun _ => rfl, fun h => absurd h (by decide), rfl⟩

theorem pcmStart_calm {driver : Driver} {s s' : Stream} {r : Int} (hs : s.Tracks)
    (h : pcmStart driver s = (r, s')) :
    Calm s s' ∧ (r = 0 → s'.pcm.prepared = true ∧ s'.pcm.running = true) := by
  obtain ⟨r₀, m, hprepare, hrest⟩ := pcmStart_cases h
  obtain ⟨hcalm, hprepared, -⟩ := pcmPrepare_calm hs hprepare
  rcases hrest with ⟨hne, rfl, rfl⟩ | ⟨rfl, n, hn, hrest⟩
  · exact ⟨hcalm, fun h => absurd h hne⟩
  · -- the SYNC_PTR in between changes nothing
    obtain ⟨hsync, hpcm⟩ : Calm m n ∧ n.pcm = m.pcm := by
      rcases hn with rfl | ⟨e, rfl⟩
      · exact ⟨Calm.refl hcalm.tracks, rfl⟩
      · exact ⟨Calm.of_idle hcalm.tracks rfl rfl fun _ => rfl, rfl⟩
    have hp : n.pcm.prepared = true := by rw [hpcm, hprepared rfl]
    have hboth := hcalm.trans hsync
    rcases hrest with ⟨-, rfl, rfl⟩ | ⟨rfl, e, he, rfl⟩
    · have hd : (device n.trace).after (.start, 0) = { device n.trace with mode := .running } := rfl
      refine ⟨hboth.trans (Calm.of_ioctl rfl hd ?_ (fun _ => hp) hboth.tracks.underruns ?_ ?_),
        fun _ => ⟨hp, rfl⟩⟩
      · exact ⟨fun _ => rfl, fun _ => rfl⟩
      · exact fun _ _ => Mode.noConfusion
      · intro frames e hx
        cases hx
    · obtain ⟨e, rfl⟩ := Nat.exists_eq_succ_of_ne_zero he
      exact ⟨hboth.trans (Calm.of_idle hboth.tracks rfl rfl fun _ => rfl),
        fun h => absurd h (by decide)⟩

theorem pcmPrepare_nonpos {driver : Driver} {s s' : Stream} {r : Int}
    (h : pcmPrepare driver s = (r, s')) : r ≤ 0 := by
  rcases pcmPrepare_cases h with ⟨-, rfl, -⟩ | ⟨-, rfl, -⟩ | ⟨-, rfl, -⟩ <;> decide

theorem pcmStart_nonpos {driver : Driver} {s s' : Stream} {r : Int}
    (h : pcmStart driver s = (r, s')) : r ≤ 0 := by
  obtain ⟨r₀, m, hprepare, ⟨-, rfl, -⟩ | ⟨-, n, -, ⟨-, rfl, -⟩ | ⟨rfl, -⟩⟩⟩ := pcmStart_cases h
  · exact pcmPrepare_nonpos hprepare
  · decide
  · decide

theorem pcmStop_calm {driver : Driver} {s s' : Stream} {r : Int} (hs : s.Tracks)
    (h : pcmStop driver s = (r, s')) : Calm s s' := by
  rcases pcmStop_cases h with ⟨-, rfl⟩ | ⟨-, e, he, rfl⟩
  · have hd : (device s.trace).after (.drop, 0) = { device s.trace with mode := .setup } := rfl
    refine Calm.of_ioctl rfl hd ?_ (fun h => absurd rfl h) hs.underruns ?_ ?_
    · simp
    · exact fun _ h => Bool.noConfusion h
    · intro frames e hx
      cases hx
  · obtain ⟨e, rfl⟩ := Nat.exists_eq_succ_of_ne_zero he
    exact Calm.of_idle hs rfl rfl fun _ => rfl

/-- Where a call may leave the stream. -/
def Leaves (s s' : Stream) : Prop := Calm s s' ∨ Stumbles s'

theorem Leaves.after {s m s' : Stream} (h₁ : Calm s m) (h₂ : Leaves m s') : Leaves s s' :=
  h₂.imp h₁.trans id

theorem pcmWriteRound_leaves (driver : Driver) (frames : Nat) {s : Stream} (hs : s.Tracks) :
    Sum.elim (Calm s) (fun p => Leaves s p.2) (pcmWriteRound driver frames s) := by
  obtain ⟨next, hnext⟩ : ∃ next, pcmWriteRound driver frames s = next := ⟨_, rfl⟩
  rw [hnext]
  rcases pcmWriteRound_cases hnext with ⟨hrunning, r₀, m, hprepare, hrest⟩ | ⟨hrunning, hrest⟩
  · obtain ⟨hcalm, hprepared, hsame⟩ := pcmPrepare_calm hs hprepare
    rcases hrest with ⟨-, rfl⟩ | ⟨rfl, -, rfl⟩ | ⟨rfl, e, he, rfl⟩
    · exact .inl hcalm
    · exact .inl (hcalm.trans (Calm.of_transfer hcalm.tracks rfl rfl (hprepared rfl) rfl))
    · exact .inr (Stumbles.of_refused hcalm.tracks rfl he (hsame.trans hrunning) (hprepared rfl) rfl)
  · rcases hrest with rfl | rfl | rfl | ⟨e, he, -, rfl⟩
    · exact .inl (Calm.of_transfer hs rfl rfl (hs.running_prepared hrunning) (by rw [← hrunning]; rfl))
    · exact .inl (Calm.of_refused hs rfl rfl (by decide) hrunning rfl)
    · exact Calm.of_refused hs rfl rfl (by decide) hrunning rfl
    · exact .inl (Calm.of_refused hs rfl rfl he hrunning rfl)

theorem pcmReadRound_calm (driver : Driver) (frames : Nat) {s : Stream} (hs : s.Tracks) :
    Sum.elim (Calm s) (fun p => Calm s p.2) (pcmReadRound driver frames s) := by
  obtain ⟨next, hnext⟩ : ∃ next, pcmReadRound driver frames s = next := ⟨_, rfl⟩
  rw [hnext]
  obtain ⟨r₀, m, hstart, hrest⟩ := pcmReadRound_cases hnext
  obtain ⟨hcalm, hrunning⟩ : Calm s m ∧ (0 ≤ r₀ → m.pcm.running = true) := by
    rcases hstart with ⟨-, hstart⟩ | ⟨hrunning, -, rfl⟩
    · obtain ⟨hcalm, hzero⟩ := pcmStart_calm hs hstart
      exact ⟨hcalm, fun hle => (hzero (le_antisymm (pcmStart_nonpos hstart) hle)).2⟩
    · exact ⟨Calm.refl hs, fun _ => hrunning⟩
  rcases hrest with ⟨-, rfl⟩ | ⟨hle, hrest⟩
  · exact hcalm
  · have hm := hrunning hle
    have hp := hcalm.tracks.running_prepared hm
    rcases hrest with rfl | rfl | ⟨e, he, -, rfl⟩
    · exact hcalm.trans (Calm.of_transfer hcalm.tracks rfl rfl hp (by rw [← hm]; rfl))
    · exact hcalm.trans (Calm.of_refused hcalm.tracks rfl rfl (by decide) hm rfl)
    · exact hcalm.trans (Calm.of_refused hcalm.tracks rfl rfl he hm rfl)

/-- **What a call does to the flags.** -/
theorem call_leaves {driver : Driver} {s s' : Stream} {call : Call} {r : Int} (hs : s.Tracks)
    (h : s.call driver call = some (r, s')) : Leaves s s' := by
  cases call with
  | prepare => exact .inl (pcmPrepare_calm hs (Option.some.inj h)).1
  | start => exact .inl (pcmStart_calm hs (Option.some.inj h)).1
  | stop => exact .inl (pcmStop_calm hs (Option.some.inj h))
  | write count fuel =>
      rw [Stream.call, pcmWrite] at h
      split at h
      · obtain ⟨-, rfl⟩ := Prod.mk.inj (Option.some.inj h)
        exact .inl (Calm.refl hs)
      · refine forever_post (Calm s) (fun p => Leaves s p.2) (fun t ht => ?_) (Calm.refl hs) h
        exact round_imp (fun _ => ht.trans) (fun _ => Leaves.after ht)
          (pcmWriteRound_leaves driver (xferFrames s.pcm count) ht.tracks)
  | read count fuel =>
      rw [Stream.call, pcmRead] at h
      split at h
      · obtain ⟨-, rfl⟩ := Prod.mk.inj (Option.some.inj h)
        exact .inl (Calm.refl hs)
      · refine .inl (forever_post (Calm s) (fun p => Calm s p.2) (fun t ht => ?_) (Calm.refl hs) h)
        exact round_imp (fun _ => ht.trans) (fun _ => ht.trans)
          (pcmReadRound_calm driver (xferFrames s.pcm count) ht.tracks)

/-! ## Whole sessions -/

theorem Session.opened_tracks (pcm : Pcm) (syncPtr : Bool) :
    (Session.opened pcm syncPtr).stream.Tracks where
  running := ⟨Bool.noConfusion, Mode.noConfusion⟩
  prepared := fun h => absurd rfl h
  underruns := rfl

theorem Session.step_cases {driver : Driver} {s s' : Session} {call : Call}
    (h : s.step driver call = some s') : ∃ r, s.stream.call driver call = some (r, s'.stream) ∧
      s'.log = s.log ++ [(call, r)] := by
  obtain ⟨⟨r, stream⟩, hcall, rfl⟩ := Option.map_eq_some_iff.mp h
  exact ⟨r, hcall, rfl⟩

/-- **The flags.** In every session `running` and `underruns` are what the answers of the driver
make of them; `prepared` never claims too much as long as no first write has failed, and does
behind the first one that has. -/
theorem flags_agree_iff (driver : Driver) (pcm : Pcm) (syncPtr : Bool) {calls : List Call}
    {t : Session} (hrun : run (Session.step driver) (Session.opened pcm syncPtr) calls = some t) :
    t.stream.Tracks ∧
      ((∀ bs cs u, calls = bs ++ cs →
          run (Session.step driver) (Session.opened pcm syncPtr) bs = some u → u.stream.Agrees) ↔
        ¬ FirstWriteFailed t.stream.trace) := by
  have hopened := Session.opened_tracks pcm syncPtr
  have hnone : ¬ FirstWriteFailed (Session.opened pcm syncPtr).stream.trace := by
    rintro ⟨before, frames, e, after, hnil, -⟩
    exact List.cons_ne_nil _ _ (List.append_eq_nil_iff.mp hnil.symm).2
  have hkeep : ∀ s call s', s.stream.Tracks → Session.step driver s call = some s' →
      Leaves s.stream s'.stream := by
    intro s call s' hs hstep
    obtain ⟨r, hcall, -⟩ := Session.step_cases hstep
    exact call_leaves hs hcall
  have htracks : ∀ {s t : Session} {cs : List Call}, s.stream.Tracks →
      run (Session.step driver) s cs = some t → t.stream.Tracks := by
    intro s t cs hs h
    refine run_invariant (fun s => s.stream.Tracks) (fun s call s' hs hstep => ?_) hs h
    exact (hkeep s call s' hs hstep).elim Calm.tracks Stumbles.tracks
  refine ⟨htracks hopened hrun, fun hall => ?_, fun hfirst bs cs u hcalls hu => ?_⟩
  · -- a first write that fails leaves a flag that is wrong
    have hmeets := meets_of_forall_prefix (C := fun s call => ∀ s',
      Session.step driver s call = some s' → s'.stream.Agrees) (P := fun s => s.stream.Agrees)
      (fun s call s' hstep hs' s'' hs'' => by
        obtain rfl := Option.some.inj (hstep.symm.trans hs'')
        exact hs') hrun hall
    refine (run_invariant_of_meets (fun s => s.stream.Tracks ∧ ¬ FirstWriteFailed s.stream.trace)
      (fun s call s' hs hagrees hstep => ?_) ⟨hopened, hnone⟩ hmeets hrun).2
    rcases hkeep s call s' hs.1 hstep with hcalm | hstumbles
    · exact ⟨hcalm.tracks, hcalm.first.not.mpr hs.2⟩
    · exact absurd (hagrees s' hstep) hstumbles.agrees
  · -- and where there is none yet, there was none before
    have hinv := run_invariant
      (fun s => s.stream.Tracks ∧ (s.stream.Agrees ∨ FirstWriteFailed s.stream.trace))
      (fun s call s' hs hstep => ?_) ⟨hopened, .inl fun h => Bool.noConfusion h⟩ hu
    · refine hinv.2.resolve_right fun hbad => hfirst ?_
      rw [hcalls] at hrun
      obtain ⟨u', hu', hrest⟩ := run_append.mp hrun
      obtain rfl := Option.some.inj (hu.symm.trans hu')
      refine (run_invariant (fun s => s.stream.Tracks ∧ FirstWriteFailed s.stream.trace)
        (fun s call s' hs hstep => ?_) ⟨hinv.1, hbad⟩ hrest).2
      rcases hkeep s call s' hs.1 hstep with hcalm | hstumbles
      · exact ⟨hcalm.tracks, hcalm.first.mpr hs.2⟩
      · exact ⟨hstumbles.tracks, hstumbles.first⟩
    · rcases hkeep s call s' hs.1 hstep with hcalm | hstumbles
      · exact ⟨hcalm.tracks, hs.2.imp hcalm.agrees hcalm.first.mpr⟩
      · exact ⟨hstumbles.tracks, .inr hstumbles.first⟩

/-- A device that is lost as soon as the first write comes, and wants to be prepared then. -/
def lostDevice : Driver := fun trace request =>
  match request with
  | .writei _ => if trace.length = 1 ∨ (device trace).mode = .setup then 5 else 0
  | .start => if (device trace).mode = .setup then 77 else 0
  | _ => 0

theorem flags_agree_iff_lostDevice :
    ∃ t, run (Session.step lostDevice) (Session.opened (smallPcm PCM_OUT) false)
        [.write 8 2, .prepare] = some t ∧
      t.log = [(.write 8 2, -1), (.prepare, 0)] ∧ t.stream.Tracks ∧
      ¬ ∀ bs cs u, [.write 8 2, .prepare] = bs ++ cs →
        run (Session.step lostDevice) (Session.opened (smallPcm PCM_OUT) false) bs = some u →
          u.stream.Agrees := by
  have hrun : run (Session.step lostDevice) (Session.opened (smallPcm PCM_OUT) false)
      [.write 8 2, .prepare] = some _ := rfl
  obtain ⟨htracks, hiff⟩ := flags_agree_iff lostDevice (smallPcm PCM_OUT) false hrun
  refine ⟨_, rfl, rfl, htracks, fun hall => hiff.mp hall ?_⟩
  exact ⟨[(.prepare, 0)], 4, 4, [], rfl, by decide⟩

/-! ## A first write that fails -/

/-- A device that starts and transfers only when it has been prepared. -/
def WantsPrepare (driver : Driver) : Prop :=
  ∀ trace, (device trace).mode = .setup →
    driver trace .start ≠ 0 ∧ ∀ frames, driver trace (.writei frames) ≠ 0

/-- A stream that is prepared in name only. -/
structure Stream.Stuck (s : Stream) : Prop where
  prepared : s.pcm.prepared = true
  running : s.pcm.running = false
  setup : (device s.trace).mode = .setup

theorem Stream.Tracks.stuck {s : Stream} (hs : s.Tracks) (h : ¬ s.Agrees) : s.Stuck := by
  rw [Stream.Agrees, Classical.not_imp, not_not] at h
  refine ⟨h.1, Bool.eq_false_of_not_eq_true fun hrun => ?_, h.2⟩
  rw [hs.running.mp hrun] at h
  cases h.2

/-- What a call leaves of a stuck stream, and what it returns. -/
structure StaysStuck (s s' : Stream) : Prop where
  stuck : s'.Stuck
  trace : ∃ new, s'.trace = s.trace ++ new ∧ ∀ x ∈ new, x.1 ≠ .prepare

theorem StaysStuck.refl {s : Stream} (h : s.Stuck) : StaysStuck s s :=
  ⟨h, [], (List.append_nil _).symm, fun _ hx => absurd hx List.not_mem_nil⟩

theorem StaysStuck.trans {s m s' : Stream} (h₁ : StaysStuck s m) (h₂ : StaysStuck m s') :
    StaysStuck s s' := by
  obtain ⟨new₁, htrace₁, hnew₁⟩ := h₁.trace
  obtain ⟨new₂, htrace₂, hnew₂⟩ := h₂.trace
  refine ⟨h₂.stuck, new₁ ++ new₂, by rw [htrace₂, htrace₁, List.append_assoc], fun x hx => ?_⟩
  exact (List.mem_append.mp hx).elim (hnew₁ x) (hnew₂ x)

theorem StaysStuck.of_ioctl {s s' : Stream} {x : Ioctl × Nat} (hs : s.Stuck)
    (htrace : s'.trace = s.trace ++ [x]) (hpcm : s'.pcm = s.pcm) (hx : x.1 ≠ .prepare)
    (hmode : ∀ d : Device, d.mode = .setup → (d.after x).mode = .setup) : StaysStuck s s' := by
  refine ⟨⟨?_, ?_, ?_⟩, [x], htrace, fun y hy => ?_⟩
  · rw [hpcm, hs.prepared]
  · rw [hpcm, hs.running]
  · rw [htrace, device_append]
    exact hmode _ hs.setup
  · obtain rfl := List.mem_singleton.mp hy
    exact hx

theorem pcmPrepare_of_stuck {driver : Driver} {s s' : Stream} {r : Int} (hs : s.Stuck)
    (h : pcmPrepare driver s = (r, s')) : r = 0 ∧ s' = s := by
  rw [pcmPrepare, if_pos hs.prepared] at h
  obtain ⟨rfl, rfl⟩ := Prod.mk.inj h
  exact ⟨rfl, rfl⟩

theorem pcmStart_of_stuck {driver : Driver} (hdriver : WantsPrepare driver) {s s' : Stream} {r : Int}
    (hs : s.Stuck) (h : pcmStart driver s = (r, s')) :
    StaysStuck s s' ∧ r < 0 ∧ s'.errno ≠ 0 := by
  obtain ⟨r₀, m, hprepare, hrest⟩ := pcmStart_cases h
  obtain ⟨rfl, rfl⟩ := pcmPrepare_of_stuck hs hprepare
  obtain ⟨n, hn, hrest⟩ := (hrest.resolve_left fun h => h.1 rfl).2
  have hsync : StaysStuck m n := by
    rcases hn with rfl | ⟨e, rfl⟩
    · exact StaysStuck.refl hs
    · exact StaysStuck.of_ioctl hs rfl rfl Ioctl.noConfusion fun d hd => hd
  rcases hrest with ⟨haccept, -⟩ | ⟨rfl, e, he, rfl⟩
  · exact absurd haccept (hdriver _ hsync.stuck.setup).1
  · refine ⟨hsync.trans (StaysStuck.of_ioctl hsync.stuck rfl rfl Ioctl.noConfusion ?_), by decide, ?_⟩
    · obtain ⟨e, rfl⟩ := Nat.exists_eq_succ_of_ne_zero he
      exact fun d hd => hd
    · simpa [Stream.errno, Stream.asked] using he

theorem pcmWriteRound_of_stuck {driver : Driver} (hdriver : WantsPrepare driver) (frames : Nat)
    {s : Stream} (hs : s.Stuck) :
    Sum.elim (fun _ => False) (fun p => StaysStuck s p.2 ∧ p.1 < 0)
      (pcmWriteRound driver frames s) := by
  obtain ⟨next, hnext⟩ : ∃ next, pcmWriteRound driver frames s = next := ⟨_, rfl⟩
  rw [hnext]
  rcases pcmWriteRound_cases hnext with ⟨-, r₀, m, hprepare, hrest⟩ | ⟨hrunning, -⟩
  · obtain ⟨rfl, rfl⟩ := pcmPrepare_of_stuck hs hprepare
    rcases hrest with ⟨hne, -⟩ | ⟨-, haccept, -⟩ | ⟨-, e, he, rfl⟩
    · exact absurd rfl hne
    · exact absurd haccept ((hdriver _ hs.setup).2 frames)
    · refine ⟨StaysStuck.of_ioctl hs rfl rfl Ioctl.noConfusion fun d _ => ?_, Int.negSucc_lt_zero 0⟩
      rw [Device.after_transfer_refused d rfl he]
  · rw [hs.running] at hrunning
    cases hrunning

theorem pcmReadRound_of_stuck {driver : Driver} (hdriver : WantsPrepare driver) (frames : Nat)
    {s : Stream} (hs : s.Stuck) :
    Sum.elim (fun _ => False) (fun p => StaysStuck s p.2 ∧ p.1 < 0)
      (pcmReadRound driver frames s) := by
  obtain ⟨next, hnext⟩ : ∃ next, pcmReadRound driver frames s = next := ⟨_, rfl⟩
  rw [hnext]
  obtain ⟨r₀, m, hstart, hrest⟩ := pcmReadRound_cases hnext
  rcases hstart with ⟨-, hstart⟩ | ⟨hrunning, -⟩
  · obtain ⟨hstays, hneg, herrno⟩ := pcmStart_of_stuck hdriver hs hstart
    rcases hrest with ⟨-, rfl⟩ | ⟨hle, -⟩
    · exact ⟨hstays, by dsimp only; omega⟩
    · omega
  · rw [hs.running] at hrunning
    cases hrunning

theorem call_of_stuck {driver : Driver} (hdriver : WantsPrepare driver) {s s' : Stream} {call : Call}
    {r : Int} (hs : s.Stuck) (hcall : call ≠ .stop) (h : s.call driver call = some (r, s')) :
    StaysStuck s s' ∧ if call = .prepare then r = 0 else r < 0 := by
  cases call with
  | prepare =>
      obtain ⟨rfl, rfl⟩ := pcmPrepare_of_stuck hs (Option.some.inj h)
      exact ⟨StaysStuck.refl hs, by rw [if_pos rfl]⟩
  | start =>
      obtain ⟨hstays, hneg, -⟩ := pcmStart_of_stuck hdriver hs (Option.some.inj h)
      exact ⟨hstays, by rwa [if_neg Call.noConfusion]⟩
  | stop => exact absurd rfl hcall
  | write count fuel =>
      rw [if_neg Call.noConfusion]
      rw [Stream.call, pcmWrite] at h
      split at h
      · obtain ⟨rfl, rfl⟩ := Prod.mk.inj (Option.some.inj h)
        exact ⟨StaysStuck.refl hs, by decide⟩
      · refine forever_post (fun t => t = s) (fun p => StaysStuck s p.2 ∧ p.1 < 0) ?_ rfl h
        rintro t rfl
        exact round_imp (fun _ => False.elim) (fun _ => id)
          (pcmWriteRound_of_stuck hdriver (xferFrames t.pcm count) hs)
  | read count fuel =>
      rw [if_neg Call.noConfusion]
      rw [Stream.call, pcmRead] at h
      split at h
      · obtain ⟨rfl, rfl⟩ := Prod.mk.inj (Option.some.inj h)
        exact ⟨StaysStuck.refl hs, by decide⟩
      · refine forever_post (fun t => t = s) (fun p => StaysStuck s p.2 ∧ p.1 < 0) ?_ rfl h
        rintro t rfl
        exact round_imp (fun _ => False.elim) (fun _ => id)
          (pcmReadRound_of_stuck hdriver (xferFrames t.pcm count) hs)

/-- **Until it is stopped.** A stream whose first write has failed asks a device that wants to be
prepared for nothing but what it refuses: `pcm_prepare` reports a success without a request, and
every other call fails. -/
theorem stumbled_until_stop {driver : Driver} (hdriver : WantsPrepare driver) (pcm : Pcm)
    (syncPtr : Bool) {bs cs : List Call} {s t : Session}
    (hbefore : run (Session.step driver) (Session.opened pcm syncPtr) bs = some s)
    (hstumbled : ¬ s.stream.Agrees) (hstop : Call.stop ∉ cs)
    (hafter : run (Session.step driver) s cs = some t) :
    ¬ t.stream.Agrees ∧
      (∃ new, t.stream.trace = s.stream.trace ++ new ∧ ∀ x ∈ new, x.1 ≠ .prepare) ∧
      ∃ new, t.log = s.log ++ new ∧
        ∀ call r, (call, r) ∈ new → if call = .prepare then r = 0 else r < 0 := by
  have htracks : s.stream.Tracks := by
    refine run_invariant (fun s => s.stream.Tracks) (fun s call s' hs hstep => ?_)
      (Session.opened_tracks pcm syncPtr) hbefore
    obtain ⟨r, hcall, -⟩ := Session.step_cases hstep
    exact (call_leaves hs hcall).elim Calm.tracks Stumbles.tracks
  have hstuck := htracks.stuck hstumbled
  have hmeets : Meets (Session.step driver) (fun _ call => call ≠ .stop) s cs := by
    clear hafter hbefore hstumbled htracks hstuck
    induction cs generalizing s with
    | nil => trivial
    | cons c cs ih =>
        rw [List.mem_cons, not_or] at hstop
        exact ⟨fun h => hstop.1 h.symm, fun s' _ => ih hstop.2⟩
  obtain ⟨hstays, new, hlog, hnew⟩ := run_invariant_of_meets
    (fun u => StaysStuck s.stream u.stream ∧ ∃ new, u.log = s.log ++ new ∧
      ∀ call r, (call, r) ∈ new → if call = .prepare then r = 0 else r < 0)
    (fun u call u' hu hcall hstep => by
      obtain ⟨hstays, new, hlog, hnew⟩ := hu
      obtain ⟨r, hres, hlog'⟩ := Session.step_cases hstep
      obtain ⟨hnext, hr⟩ := call_of_stuck hdriver hstays.stuck hcall hres
      refine ⟨hstays.trans hnext, new ++ [(call, r)], by rw [hlog', hlog, List.append_assoc], ?_⟩
      intro call' r' hmem
      rcases List.mem_append.mp hmem with hmem | hmem
      · exact hnew call' r' hmem
      · obtain ⟨rfl, rfl⟩ := Prod.mk.inj (List.mem_singleton.mp hmem)
        exact hr)
    ⟨StaysStuck.refl hstuck, [], (List.append_nil _).symm,
      fun _ _ hmem => absurd hmem List.not_mem_nil⟩ hmeets hafter
  exact ⟨fun hagrees => hagrees hstays.stuck.prepared hstays.stuck.setup, hstays.trace, new, hlog,
    hnew⟩

theorem lostDevice_wantsPrepare : WantsPrepare lostDevice := by
  intro trace h
  refine ⟨?_, fun frames => ?_⟩
  · simp [lostDevice, h]
  · simp [lostDevice, h]

theorem stumbled_until_stop_lostDevice :
    ∃ t, run (Session.step lostDevice) (Session.opened (smallPcm PCM_OUT) false)
        ([.write 8 2] ++ [.prepare, .write 8 2, .start]) = some t ∧
      t.log = [(.write 8 2, -1), (.prepare, 0), (.write 8 2, -1), (.start, -1)] ∧
      ¬ t.stream.Agrees ∧ (t.stream.trace.map Prod.fst).count .prepare = 1 := by
  have hbefore : run (Session.step lostDevice) (Session.opened (smallPcm PCM_OUT) false)
      [.write 8 2] = some _ := rfl
  have hstop : Call.stop ∉ [Call.prepare, .write 8 2, .start] := by decide
  obtain ⟨hstuck, -, -⟩ := stumbled_until_stop lostDevice_wantsPrepare (smallPcm PCM_OUT) false
    hbefore (fun h => h rfl (by decide)) hstop rfl
  exact ⟨_, run_append.mpr ⟨_, hbefore, rfl⟩, rfl, hstuck, by decide⟩

/-! ## What is transferred -/

/-- The transfers that went through. -/
def accepted (trace : Trace) : List Ioctl :=
  (trace.filter fun x => x.1.isTransfer && x.2 == 0).map Prod.fst

theorem accepted_append (trace : Trace) (request : Ioctl) (e : Nat) :
    accepted (trace ++ [(request, e)]) =
      accepted trace ++ if request.isTransfer = true ∧ e = 0 then [request] else [] := by
  rw [accepted, List.filter_append, List.map_append, accepted]
  congr 1
  cases hrequest : request.isTransfer <;> cases e <;> simp [hrequest]

/-- The transfer that a call is about. -/
def Call.transfer (pcm : Pcm) : Call → List Ioctl
  | .write count _ => [.writei (xferFrames pcm count)]
  | .read count _ => [.readi (xferFrames pcm count)]
  | _ => []

/-- `done` has been transferred on the way. -/
structure Adds (s s' : Stream) (done : List Ioctl) : Prop where
  accepted : accepted s'.trace = accepted s.trace ++ done
  config : s'.pcm.config = s.pcm.config

theorem Adds.refl (s : Stream) : Adds s s [] := ⟨(List.append_nil _).symm, rfl⟩

theorem Adds.after {s m s' : Stream} {done : List Ioctl} (h₁ : Adds s m []) (h₂ : Adds m s' done) :
    Adds s s' done := by
  refine ⟨?_, h₂.config.trans h₁.config⟩
  rw [h₂.accepted, h₁.accepted, List.append_nil]

theorem Adds.of_transfer {s s' : Stream} {request : Ioctl} (h : request.isTransfer = true)
    (htrace : s'.trace = s.trace ++ [(request, 0)]) (hconfig : s'.pcm.config = s.pcm.config) :
    Adds s s' [request] :=
  ⟨by rw [htrace, accepted_append, if_pos ⟨h, rfl⟩], hconfig⟩

theorem Adds.of_other {s s' : Stream} {request : Ioctl} {e : Nat}
    (h : request.isTransfer = true → e ≠ 0) (htrace : s'.trace = s.trace ++ [(request, e)])
    (hconfig : s'.pcm.config = s.pcm.config) : Adds s s' [] :=
  ⟨by rw [htrace, accepted_append, if_neg fun hboth => h hboth.1 hboth.2], hconfig⟩

theorem pcmPrepare_adds {driver : Driver} {s s' : Stream} {r : Int}
    (h : pcmPrepare driver s = (r, s')) : Adds s s' [] ∧ (r ≠ 0 → s'.errno ≠ 0) := by
  rcases pcmPrepare_cases h with ⟨-, rfl, rfl⟩ | ⟨-, rfl, rfl⟩ | ⟨-, -, e, he, rfl⟩
  · exact ⟨Adds.refl s', fun h => absurd rfl h⟩
  · exact ⟨Adds.of_other Bool.noConfusion rfl rfl, fun h => absurd rfl h⟩
  · refine ⟨Adds.of_other Bool.noConfusion rfl rfl, fun _ => ?_⟩
    simpa [Stream.errno, Stream.asked] using he

theorem pcmStart_adds {driver : Driver} {s s' : Stream} {r : Int}
    (h : pcmStart driver s = (r, s')) : Adds s s' [] ∧ (r ≠ 0 → s'.errno ≠ 0) := by
  obtain ⟨r₀, m, hprepare, hrest⟩ := pcmStart_cases h
  obtain ⟨hadds, herrno⟩ := pcmPrepare_adds hprepare
  rcases hrest with ⟨hne, rfl, rfl⟩ | ⟨rfl, n, hn, hrest⟩
  · exact ⟨hadds, herrno⟩
  · have hsync : Adds m n [] := by
      rcases hn with rfl | ⟨e, rfl⟩
      · exact Adds.refl n
      · exact Adds.of_other Bool.noConfusion rfl rfl
    rcases hrest with ⟨-, rfl, rfl⟩ | ⟨-, e, he, rfl⟩
    · exact ⟨(hadds.after hsync).after (Adds.of_other Bool.noConfusion rfl rfl),
        fun h => absurd rfl h⟩
    · refine ⟨(hadds.after hsync).after (Adds.of_other Bool.noConfusion rfl rfl), fun _ => ?_⟩
      simpa [Stream.errno, Stream.asked] using he

theorem pcmWriteRound_adds (driver : Driver) (frames : Nat) (s : Stream) :
    Sum.elim (fun t => Adds s t [])
      (fun p => Adds s p.2 (if p.1 = 0 then [.writei frames] else []))
      (pcmWriteRound driver frames s) := by
  obtain ⟨next, hnext⟩ : ∃ next, pcmWriteRound driver frames s = next := ⟨_, rfl⟩
  rw [hnext]
  rcases pcmWriteRound_cases hnext with ⟨-, r₀, m, hprepare, hrest⟩ | ⟨-, hrest⟩
  · have hadds := (pcmPrepare_adds hprepare).1
    rcases hrest with ⟨hne, rfl⟩ | ⟨rfl, -, rfl⟩ | ⟨rfl, e, he, rfl⟩
    · rw [Sum.elim_inr, if_neg hne]
      exact hadds
    · exact hadds.after (Adds.of_transfer rfl rfl rfl)
    · exact hadds.after (Adds.of_other (fun _ => he) rfl rfl)
  · rcases hrest with rfl | rfl | rfl | ⟨e, he, -, rfl⟩
    · exact Adds.of_transfer rfl rfl rfl
    · exact Adds.of_other (fun _ => by decide) rfl rfl
    · exact Adds.of_other (fun _ => by decide) rfl rfl
    · exact Adds.of_other (fun _ => he) rfl rfl

theorem pcmReadRound_adds (driver : Driver) (frames : Nat) (s : Stream) :
    Sum.elim (fun t => Adds s t [])
      (fun p => Adds s p.2 (if p.1 = 0 then [.readi frames] else []))
      (pcmReadRound driver frames s) := by
  obtain ⟨next, hnext⟩ : ∃ next, pcmReadRound driver frames s = next := ⟨_, rfl⟩
  rw [hnext]
  obtain ⟨r₀, m, hstart, hrest⟩ := pcmReadRound_cases hnext
  obtain ⟨hadds, herrno⟩ : Adds s m [] ∧ (r₀ ≠ 0 → m.errno ≠ 0) := by
    rcases hstart with ⟨-, hstart⟩ | ⟨-, rfl, rfl⟩
    · exact pcmStart_adds hstart
    · exact ⟨Adds.refl m, fun h => absurd rfl h⟩
  rcases hrest with ⟨hneg, rfl⟩ | ⟨-, rfl | rfl | ⟨e, he, -, rfl⟩⟩
  · have hne : -(m.errno : Int) ≠ 0 := by
      have := herrno (by omega)
      omega
    rw [Sum.elim_inr, if_neg hne]
    exact hadds
  · exact hadds.after (Adds.of_transfer rfl rfl rfl)
  · exact hadds.after (Adds.of_other (fun _ => by decide) rfl rfl)
  · exact hadds.after (Adds.of_other (fun _ => he) rfl rfl)

/-- A call that returns 0 has made its transfer, once; any other one has made none. -/
theorem call_adds {driver : Driver} {s s' : Stream} {call : Call} {r : Int}
    (h : s.call driver call = some (r, s')) :
    Adds s s' (if r = 0 then call.transfer s.pcm else []) := by
  cases call with
  | prepare =>
      exact (ite_self (c := r = 0) ([] : List Ioctl)).symm ▸ (pcmPrepare_adds (Option.some.inj h)).1
  | start =>
      exact (ite_self (c := r = 0) ([] : List Ioctl)).symm ▸ (pcmStart_adds (Option.some.inj h)).1
  | stop =>
      rcases pcmStop_cases (Option.some.inj h) with ⟨rfl, rfl⟩ | ⟨rfl, e, he, rfl⟩
      · exact Adds.of_other Bool.noConfusion rfl rfl
      · exact Adds.of_other Bool.noConfusion rfl rfl
  | write count fuel =>
      rw [Stream.call, pcmWrite] at h
      split at h
      · obtain ⟨rfl, rfl⟩ := Prod.mk.inj (Option.some.inj h)
        exact Adds.refl s
      · refine forever_post (fun t => Adds s t [])
          (fun p => Adds s p.2 (if p.1 = 0 then _ else [])) (fun t ht => ?_) (Adds.refl s) h
        exact round_imp (fun _ => ht.after) (fun _ => ht.after)
          (pcmWriteRound_adds driver (xferFrames s.pcm count) t)
  | read count fuel =>
      rw [Stream.call, pcmRead] at h
      split at h
      · obtain ⟨rfl, rfl⟩ := Prod.mk.inj (Option.some.inj h)
        exact Adds.refl s
      · refine forever_post (fun t => Adds s t [])
          (fun p => Adds s p.2 (if p.1 = 0 then _ else [])) (fun t ht => ?_) (Adds.refl s) h
        exact round_imp (fun _ => ht.after) (fun _ => ht.after)
          (pcmReadRound_adds driver (xferFrames s.pcm count) t)

/-- **Exactly once.** In every session, under every driver, the transfers that went through are
those of the calls that returned 0, in their order and once each. -/
theorem transfers_exactly_once (driver : Driver) (pcm : Pcm) (syncPtr : Bool) {calls : List Call}
    {t : Session} (hrun : run (Session.step driver) (Session.opened pcm syncPtr) calls = some t) :
    accepted t.stream.trace =
      t.log.flatMap fun (call, r) => if r = 0 then call.transfer pcm else [] := by
  refine (run_invariant (fun s => accepted s.stream.trace =
    s.log.flatMap (fun (call, r) => if r = 0 then call.transfer pcm else []) ∧
      s.stream.pcm.config = pcm.config) (fun s call s' hs hstep => ?_) ⟨rfl, rfl⟩ hrun).1
  obtain ⟨r, hcall, hlog⟩ := Session.step_cases hstep
  have hadds := call_adds hcall
  have htransfer : call.transfer s.stream.pcm = call.transfer pcm := by
    cases call <;> simp [Call.transfer, xferFrames, hs.2]
  refine ⟨?_, hadds.config.trans hs.2⟩
  rw [hadds.accepted, hlog, List.flatMap_append, hs.1, htransfer, List.flatMap_singleton]

theorem transfers_exactly_once_lostDevice :
    ∃ t, run (Session.step fun trace _ => if trace.length = 3 then EPIPE else 0)
        (Session.opened (smallPcm PCM_OUT) false) [.write 4 2, .write 6 2, .write 8 2] = some t ∧
      t.stream.pcm.underruns = 1 ∧ accepted t.stream.trace = [.writei 2, .writei 3, .writei 4] := by
  have hrun : run (Session.step fun trace _ => if trace.length = 3 then EPIPE else 0)
      (Session.opened (smallPcm PCM_OUT) false) [.write 4 2, .write 6 2, .write 8 2] = some _ := rfl
  exact ⟨_, hrun, rfl, transfers_exactly_once _ _ _ hrun⟩

end SpeechStack.Tinyalsa
