import SpeechStack.Lib.Machine
import SpeechStack.Tinyalsa.Cells
import SpeechStack.Tinyalsa.Mmap

set_option autoImplicit false

/-! # What flows through the ring

In both directions the ring is a queue of frames between two pointers, one of which is the
hardware's. `Flows pcm s q` says that the queue is `q`, that what has gone in and what has come out differ
by just `q`, and what the call has done so far. The invariant is kept by every step
(`Flows.step`), as long as the frames in the ring are counted right where the call looks at the
pointers, and the hardware does not capture into a full ring (`Orderly`).
-/

namespace SpeechStack.Tinyalsa

open Wrap

/-- What does not change about a stream. -/
structure SameSetup (pcm pcm' : Pcm) : Prop where
  flags : pcm'.flags = pcm.flags
  shape : pcm'.shape = pcm.shape
  config : pcm'.config = pcm.config

theorem SameSetup.refl (pcm : Pcm) : SameSetup pcm pcm := ⟨rfl, rfl, rfl⟩

theorem SameSetup.trans {pcm pcm' pcm'' : Pcm} (h : SameSetup pcm pcm')
    (h' : SameSetup pcm' pcm'') : SameSetup pcm pcm'' :=
  ⟨h'.flags.trans h.flags, h'.shape.trans h.shape, h'.config.trans h.config⟩

theorem SameSetup.isIn {pcm pcm' : Pcm} (h : SameSetup pcm pcm') : pcm'.isIn = pcm.isIn := by
  rw [Pcm.isIn, Pcm.isIn, h.flags]

/-- The pointer at the front of what is in the ring. -/
def Mmap.front (s : Mmap) : Nat := if s.pcm.isIn then s.applPtr else s.hwPtr

/-- The pointer behind it. -/
def Mmap.back (s : Mmap) : Nat := if s.pcm.isIn then s.hwPtr else s.applPtr

/-- The frames in the ring. -/
def Mmap.queued (s : Mmap) : Int := ahead s.pcm.boundary s.front s.back

/-- The frames that a call can move. -/
def Mmap.room (s : Mmap) : Int := if s.pcm.isIn then s.queued else s.pcm.bufferSize - s.queued

/-- The frames that the call has moved. -/
def Mmap.done (s : Mmap) : Nat :=
  match s.pc with
  | .areas a => a.offset
  | .begun a _ _ => a.offset
  | .copied a _ => a.offset
  | _ => s.offset

/-- A call for all the frames of the ring neither gives up nor goes without waiting. -/
structure Prompt (pcm : Pcm) : Prop where
  start : pcm.config.startThreshold ≤ pcm.bufferSize
  wait : 0 < pcm.config.availMin

/-- The ring holds the queue `q`. -/
structure Linked (s : Mmap) (q : List Uint8) : Prop where
  geometry : Geometry s.pcm.shape
  hw : s.hwPtr < s.pcm.boundary
  appl : s.applPtr ≤ s.pcm.boundary
  span : Span s.pcm.shape s.mmapBuffer s.front s.back q

/-- The local variables of `pcm_mmap_transfer_areas` are within those of `pcm_mmap_transfer`. -/
structure AreasOk (offset count : Nat) (room : Int) (a : Areas) : Prop where
  offset : a.offset = offset + a.count
  size : a.count + a.size ≤ count
  room : a.size ≤ room

/-- What holds where the call is; `copied` is what the copy has achieved. -/
def PcOk (s : Mmap) (room : Int) (copied : Areas → Nat → Prop) : Prop :=
  match s.pc with
  | .idle => True
  | .loop => True
  | .starting avail => 0 ≤ avail ∧ avail ≤ room ∧ 0 < s.count
  | .consider avail => 0 ≤ avail ∧ avail ≤ room ∧ 0 < s.count ∧
      (s.pcm.running = false → uint (s.pcm.bufferSize - avail) < s.pcm.config.startThreshold)
  | .waiting => True
  | .areas a => AreasOk s.offset s.count room a
  | .begun a pcmOffset frames => AreasOk s.offset s.count room a ∧ pcmOffset = s.applPtr % s.pcm.bufferSize ∧
      0 < frames ∧ frames ≤ a.size ∧ pcmOffset + frames ≤ s.pcm.bufferSize
  | .copied a frames => AreasOk s.offset s.count room a ∧ 0 < frames ∧ frames ≤ a.size ∧
      s.applPtr % s.pcm.bufferSize + frames ≤ s.pcm.bufferSize ∧ copied a frames
  | .returned r => r = 0 → Prompt s.pcm → s.offset = s.bytes / s.pcm.config.frameBytes

/-- The frames of a copy are in the ring behind the queue, or off its front in the buffer of the
caller. -/
def Mmap.Copied (s : Mmap) (q : List Uint8) (a : Areas) (frames : Nat) : Prop :=
  if s.pcm.isIn then s.frames a.offset frames = q.take (frames * s.pcm.config.frameBytes)
  else Ring.Holds s.mmapBuffer s.pcm.shape.ringBytes (s.pcm.shape.cell s.front)
    (q ++ s.frames a.offset frames)

/-- The invariant, for a stream that has been set up as `pcm`. -/
structure Flows (pcm : Pcm) (s : Mmap) (q : List Uint8) : Prop where
  setup : SameSetup pcm s.pcm
  linked : s.pcm.prepared = true → Linked s q
  live : s.pc.isDone = false → s.pcm.prepared = true
  small : s.bytes < 2 ^ 31
  total : s.pc.isDone = false → s.offset + s.count = s.bytes / s.pcm.config.frameBytes
  calls : s.moved = s.before ++ s.frames 0 s.done
  stream : if s.pcm.isIn then s.moved ++ q = s.device else s.device ++ q = s.moved
  pc : PcOk s s.room (s.Copied q)

/-- The call is about to look at the pointers. -/
def Pc.isLoop : Pc → Bool
  | .loop => true
  | _ => false

/-- The steps with which the invariant is kept: the hardware does not capture into a full ring, no
call is for more bytes than an `int` can count, and no call with frames left looks at a ring that has
been lapped. -/
def Orderly (s : Mmap) : MmapAct → Prop
  | .hw _ => s.pcm.isIn = true → s.queued < s.pcm.bufferSize
  | .pcmMmapWrite _ count => count < 2 ^ 31
  | .pcmMmapRead _ count => count < 2 ^ 31
  | .app => s.pc.isLoop = true → 0 < s.count → s.pcm.isIn = false →
      ¬ Lapped s.pcm s.hwPtr s.applPtr
  | .start _ => True
  | .wait _ => True

instance decidableOrderly : ∀ s a, Decidable (Orderly s a)
  | s, .hw _ => inferInstanceAs (Decidable (s.pcm.isIn = true → s.queued < s.pcm.bufferSize))
  | _, .pcmMmapWrite _ count => inferInstanceAs (Decidable (count < 2 ^ 31))
  | _, .pcmMmapRead _ count => inferInstanceAs (Decidable (count < 2 ^ 31))
  | s, .app => inferInstanceAs (Decidable
      (s.pc.isLoop = true → 0 < s.count → s.pcm.isIn = false →
        ¬ Lapped s.pcm s.hwPtr s.applPtr))
  | _, .start _ => isTrue trivial
  | _, .wait _ => isTrue trivial

section

variable {pcm : Pcm} {s s' : Mmap} {q : List Uint8}

theorem PcOk.mono {room room' : Int} {copied copied' : Areas → Nat → Prop}
    (h : PcOk s room copied) (hroom : room ≤ room')
    (hcopied : ∀ a frames, copied a frames → copied' a frames) : PcOk s room' copied' := by
  have hareas : ∀ a, AreasOk s.offset s.count room a → AreasOk s.offset s.count room' a := fun a ha =>
    ⟨ha.offset, ha.size, ha.room.trans hroom⟩
  unfold PcOk at h ⊢
  split at h
  · trivial
  · trivial
  · exact ⟨h.1, h.2.1.trans hroom, h.2.2⟩
  · exact ⟨h.1, h.2.1.trans hroom, h.2.2⟩
  · trivial
  · exact hareas _ h
  · exact ⟨hareas _ h.1, h.2⟩
  · exact ⟨hareas _ h.1, h.2.1, h.2.2.1, h.2.2.2.1, hcopied _ _ h.2.2.2.2⟩
  · exact h

/-! ## The two directions -/

/-- Off the flag for capture. -/
theorem not_isIn (hout : s.pcm.isIn = false) : ¬ s.pcm.isIn = true := by
  rw [hout]
  exact Bool.false_ne_true

theorem Mmap.front_in (hin : s.pcm.isIn = true) : s.front = s.applPtr := if_pos hin

theorem Mmap.back_in (hin : s.pcm.isIn = true) : s.back = s.hwPtr := if_pos hin

theorem Mmap.front_out (hout : s.pcm.isIn = false) : s.front = s.hwPtr := if_neg (not_isIn hout)

theorem Mmap.back_out (hout : s.pcm.isIn = false) : s.back = s.applPtr := if_neg (not_isIn hout)

theorem Mmap.room_in (hin : s.pcm.isIn = true) :
    s.room = ahead s.pcm.boundary s.applPtr s.hwPtr := by
  rw [Mmap.room, if_pos hin, Mmap.queued, Mmap.front_in hin, Mmap.back_in hin]

theorem Mmap.room_out (hout : s.pcm.isIn = false) :
    s.room = s.pcm.bufferSize - ahead s.pcm.boundary s.hwPtr s.applPtr := by
  rw [Mmap.room, if_neg (not_isIn hout), Mmap.queued, Mmap.front_out hout, Mmap.back_out hout]

/-! ## What the call sees -/

theorem Linked.inRange (h : Linked s q) : InRange s.pcm s.hwPtr s.applPtr :=
  ⟨h.geometry.bounded, h.hw, h.appl⟩

theorem Linked.queued_bounds (h : Linked s q) : 0 ≤ s.queued ∧ s.queued ≤ s.pcm.bufferSize :=
  ⟨ahead_nonneg h.geometry.pos, h.span.full⟩

theorem Linked.room_bounds (h : Linked s q) : 0 ≤ s.room ∧ s.room ≤ s.pcm.bufferSize := by
  have hq := h.queued_bounds
  unfold Mmap.room
  split <;> omega

theorem Linked.avail (h : Linked s q)
    (hlap : s.pcm.isIn = false → ¬ Lapped s.pcm s.hwPtr s.applPtr) :
    pcmMmapAvail s.pcm s.hwPtr s.applPtr = s.room := by
  have hfull := h.span.full
  cases hin : s.pcm.isIn with
  | true =>
      rw [Mmap.room_in hin, pcmMmapAvail, if_pos hin]
      exact captureAvail_eq h.inRange
  | false =>
      rw [Mmap.front_out hin, Mmap.back_out hin] at hfull
      rw [Mmap.room_out hin, pcmMmapAvail, if_neg (not_isIn hin),
        playbackAvail_eq h.inRange hfull, if_neg (hlap hin)]

/-- A ring with room has not been lapped. -/
theorem Linked.not_lapped (h : Linked s q) (hroom : 0 < s.room) (hin : s.pcm.isIn = false) :
    ¬ Lapped s.pcm s.hwPtr s.applPtr := by
  intro hlap
  have hfull := hlap.full h.inRange
  rw [Mmap.room_out hin] at hroom
  omega

/-- The least of what is asked for, what is available and what comes before the end of the ring. -/
theorem pcmMmapBegin_eq (pcm : Pcm) (hwPtr applPtr size : Nat) :
    pcmMmapBegin pcm hwPtr applPtr size = (applPtr % pcm.bufferSize,
      min size (min (min (uint (pcmMmapAvail pcm hwPtr applPtr)) pcm.bufferSize)
        (pcm.bufferSize - applPtr % pcm.bufferSize))) := by
  have hmin : ∀ a b : Nat, (if a > b then b else a) = min a b := by
    intro a b
    split <;> omega
  simp only [pcmMmapBegin, hmin, Nat.min_assoc]

/-- With as much room as it is asked for, `pcm_mmap_begin` only stops at the end of the ring. -/
theorem Linked.begin (h : Linked s q) {size : Nat} (hpos : 0 < size) (hroom : size ≤ s.room) :
    pcmMmapBegin s.pcm s.hwPtr s.applPtr size =
      (s.applPtr % s.pcm.bufferSize,
        min size (s.pcm.bufferSize - s.applPtr % s.pcm.bufferSize)) := by
  have hbounds := h.room_bounds
  have hfits := h.inRange.facts
  have havail : uint (pcmMmapAvail s.pcm s.hwPtr s.applPtr) = s.room := by
    rw [h.avail fun hin => h.not_lapped (by omega) hin]
    exact uint_eq hbounds.1 (by omega)
  rw [pcmMmapBegin_eq]
  congr 1
  omega

/-! ## Steps that move nothing -/

/-- A step that leaves alone what is moved, and where. -/
structure SameFlow (s s' : Mmap) : Prop where
  setup : SameSetup s.pcm s'.pcm
  prepared : s'.pcm.prepared = s.pcm.prepared
  hwPtr : s'.hwPtr = s.hwPtr
  applPtr : s'.applPtr = s.applPtr
  mmapBuffer : s'.mmapBuffer = s.mmapBuffer
  buffer : s'.buffer = s.buffer
  bytes : s'.bytes = s.bytes
  device : s'.device = s.device
  moved : s'.moved = s.moved
  before : s'.before = s.before

theorem SameFlow.shape (h : SameFlow s s') : s'.pcm.shape = s.pcm.shape := h.setup.shape

theorem SameFlow.isIn (h : SameFlow s s') : s'.pcm.isIn = s.pcm.isIn := h.setup.isIn

theorem SameFlow.frameBytes (h : SameFlow s s') :
    s'.pcm.config.frameBytes = s.pcm.config.frameBytes := congrArg Shape.frameBytes h.shape

theorem SameFlow.boundary (h : SameFlow s s') : s'.pcm.boundary = s.pcm.boundary :=
  congrArg Shape.boundary h.shape

theorem SameFlow.bufferSize (h : SameFlow s s') : s'.pcm.bufferSize = s.pcm.bufferSize :=
  congrArg Shape.bufferSize h.shape

theorem SameFlow.front (h : SameFlow s s') : s'.front = s.front := by
  rw [Mmap.front, Mmap.front, h.isIn, h.applPtr, h.hwPtr]

theorem SameFlow.back (h : SameFlow s s') : s'.back = s.back := by
  rw [Mmap.back, Mmap.back, h.isIn, h.applPtr, h.hwPtr]

theorem SameFlow.queued (h : SameFlow s s') : s'.queued = s.queued := by
  rw [Mmap.queued, Mmap.queued, h.boundary, h.front, h.back]

theorem SameFlow.room (h : SameFlow s s') : s'.room = s.room := by
  rw [Mmap.room, Mmap.room, h.isIn, h.queued, h.bufferSize]

theorem SameFlow.frames (h : SameFlow s s') (offset n : Nat) :
    s'.frames offset n = s.frames offset n := by
  rw [Mmap.frames, Mmap.frames, h.frameBytes, h.buffer]

theorem SameFlow.copied (h : SameFlow s s') : s'.Copied q = s.Copied q := by
  funext a frames
  rw [Mmap.Copied, Mmap.Copied, h.isIn, h.frames, h.frameBytes, h.mmapBuffer, h.shape, h.front]

theorem SameFlow.linked (h : SameFlow s s') (hl : Linked s q) : Linked s' q := by
  constructor
  · rw [h.shape]
    exact hl.geometry
  · rw [h.hwPtr, h.boundary]
    exact hl.hw
  · rw [h.applPtr, h.boundary]
    exact hl.appl
  · rw [h.shape, h.mmapBuffer, h.front, h.back]
    exact hl.span

/-- For such a step only the control has to be looked at. -/
theorem Flows.control (h : Flows pcm s q) (hs : SameFlow s s') (hdone : s'.done = s.done)
    (hlive : s'.pc.isDone = false → s.pcm.prepared = true)
    (htotal : s'.pc.isDone = false → s'.offset + s'.count = s.offset + s.count ∧
      s.offset + s.count = s.bytes / s.pcm.config.frameBytes)
    (hpc : PcOk s' s.room (s.Copied q)) : Flows pcm s' q := by
  constructor
  · exact h.setup.trans hs.setup
  · rw [hs.prepared]
    exact fun hp => hs.linked (h.linked hp)
  · rw [hs.prepared]
    exact hlive
  · rw [hs.bytes]
    exact h.small
  · intro hrun
    rw [hs.bytes, hs.frameBytes, (htotal hrun).1]
    exact (htotal hrun).2
  · rw [hs.moved, hs.before, hs.frames, hdone]
    exact h.calls
  · rw [hs.isIn, hs.moved, hs.device]
    exact h.stream
  · rw [hs.room, hs.copied]
    exact hpc

/-- The counts of a call are far from wrapping. -/
theorem Flows.total_lt (h : Flows pcm s q) (hrun : s.pc.isDone = false) :
    s.offset + s.count < 2 ^ 31 := by
  have hle := Nat.div_le_self s.bytes s.pcm.config.frameBytes
  have hsmall := h.small
  rw [h.total hrun]
  omega

theorem Flows.linked_of_live (h : Flows pcm s q) (hrun : s.pc.isDone = false) : Linked s q :=
  h.linked (h.live hrun)

/-- The look at the pointers. -/
theorem Flows.look (h : Flows pcm s q) (hpc : s.pc = .loop)
    (hlap : 0 < s.count → s.pcm.isIn = false → ¬ Lapped s.pcm s.hwPtr s.applPtr) :
    Flows pcm s.look q := by
  have hrun : s.pc.isDone = false := by rw [hpc]; rfl
  have hlinked := h.linked_of_live hrun
  have hroom := hlinked.room_bounds
  have htotal := h.total hrun
  have hdone : s.done = s.offset := by rw [Mmap.done, hpc]
  have hsame : ∀ pc, SameFlow s { s with pc := pc } := fun pc =>
    ⟨⟨rfl, rfl, rfl⟩, rfl, rfl, rfl, rfl, rfl, rfl, rfl, rfl, rfl⟩
  unfold Mmap.look
  split
  · rename_i hzero
    refine h.control (hsame _) hdone.symm (fun hno => Bool.noConfusion hno)
      (fun hno => Bool.noConfusion hno) fun _ _ => ?_
    show s.offset = s.bytes / s.pcm.config.frameBytes
    omega
  · rename_i hcount
    have havail := hlinked.avail (hlap (Nat.pos_of_ne_zero hcount))
    simp only [havail]
    rw [if_neg (by omega)]
    split
    · exact h.control (hsame _) hdone.symm (fun _ => h.live hrun) (fun _ => ⟨rfl, htotal⟩)
        ⟨hroom.1, le_rfl, Nat.pos_of_ne_zero hcount⟩
    · rename_i hstart
      refine h.control (hsame _) hdone.symm (fun _ => h.live hrun) (fun _ => ⟨rfl, htotal⟩)
        ⟨hroom.1, le_rfl, Nat.pos_of_ne_zero hcount, fun hstopped => ?_⟩
      by_contra hlt
      have hstopped' : s.pcm.running = false := hstopped
      exact hstart ⟨by rw [hstopped']; rfl, Nat.le_of_not_lt hlt⟩

/-- The choice of what to move. It gives up on a ring without room only for a stream that is not
`Prompt`. -/
theorem Flows.transfer (h : Flows pcm s q) {avail : Int} (hpc : s.pc = .consider avail) (wait : Bool)
    (hgive : avail = 0 → ¬ Prompt s.pcm) :
    Flows pcm (Mmap.transfer { s with pcm := { s.pcm with waitForAvailMin := wait } } avail) q := by
  have hrun : s.pc.isDone = false := by rw [hpc]; rfl
  have hlt := h.total_lt hrun
  have htotal := h.total hrun
  have hroom := (h.linked_of_live hrun).room_bounds
  have hsize := (h.linked_of_live hrun).inRange.facts
  have hdone : s.done = s.offset := by rw [Mmap.done, hpc]
  have hok := h.pc
  rw [PcOk, hpc] at hok
  obtain ⟨hnonneg, hle, hpos, -⟩ := hok
  have hmin : (if (s.count : Int) > avail then avail else (s.count : Int)) = min avail s.count := by
    split <;> omega
  have hcount : int (s.count : Int) = s.count := int_eq (by omega) (by omega)
  have hsame : ∀ pc,
      SameFlow s { s with pcm := { s.pcm with waitForAvailMin := wait }, pc := pc } := fun pc =>
    ⟨⟨rfl, rfl, rfl⟩, rfl, rfl, rfl, rfl, rfl, rfl, rfl, rfl, rfl⟩
  unfold Mmap.transfer
  simp only [hcount, hmin]
  clear hcount
  split
  · rename_i hzero
    refine h.control (hsame _) hdone.symm (fun hno => Bool.noConfusion hno)
      (fun hno => Bool.noConfusion hno) fun _ hprompt => ?_
    exact absurd ⟨hprompt.start, hprompt.wait⟩ (hgive (by omega))
  · have hframes : (uint (min avail (s.count : Int)) : Int) = min avail s.count :=
      uint_eq (by omega) (by omega)
    refine h.control (hsame _) hdone.symm (fun _ => h.live hrun) (fun _ => ⟨rfl, htotal⟩)
      ⟨rfl, ?_, ?_⟩
    · show 0 + uint _ ≤ s.count
      omega
    · show (uint _ : Int) ≤ s.room
      omega

theorem Flows.consider (h : Flows pcm s q) {avail : Int} (hpc : s.pc = .consider avail) :
    Flows pcm (s.consider avail) q := by
  have hrun : s.pc.isDone = false := by rw [hpc]; rfl
  have hsize := (h.linked_of_live hrun).inRange.facts
  have hok := h.pc
  rw [PcOk, hpc] at hok
  obtain ⟨hnonneg, hle, hpos, hstopped⟩ := hok
  unfold Mmap.consider
  cases hrunning : s.pcm.running with
  | true =>
      simp only [if_true]
      split
      · exact h.control ⟨⟨rfl, rfl, rfl⟩, rfl, rfl, rfl, rfl, rfl, rfl, rfl, rfl, rfl⟩
          (by rw [Mmap.done, Mmap.done, hpc]) (fun _ => h.live hrun)
          (fun _ => ⟨rfl, h.total hrun⟩) trivial
      · rename_i hgo
        refine h.transfer hpc _ fun hzero hprompt => hgo ⟨?_, by rw [hzero]; exact hprompt.wait⟩
        -- nothing is less than what there is to move
        rw [hzero, Bool.or_eq_true]
        exact Or.inr (decide_eq_true hpos)
  | false =>
      simp only [Bool.false_eq_true, if_false]
      refine h.transfer hpc s.pcm.waitForAvailMin fun hzero hprompt => ?_
      have hlt := hstopped hrunning
      have hstart := hprompt.start
      have hall : (uint ((s.pcm.bufferSize : Int) - avail) : Int) = s.pcm.bufferSize := by
        rw [hzero, Int.sub_zero]
        exact uint_eq (by omega) (by omega)
      omega

/-! ## `pcm_start` and `pcm_wait` -/

theorem Flows.start (h : Flows pcm s q) {errno : Option Int} (hs : s.start errno = some s') :
    Flows pcm s' q := by
  unfold Mmap.start at hs
  split at hs
  · rename_i avail hpc
    obtain rfl := Option.some.inj hs
    have hrun : s.pc.isDone = false := by rw [hpc]; rfl
    have hok := h.pc
    rw [PcOk, hpc] at hok
    refine h.control ⟨⟨rfl, rfl, rfl⟩, rfl, rfl, rfl, rfl, rfl, rfl, rfl, rfl, rfl⟩
      (by rw [Mmap.done, Mmap.done, hpc]) (fun _ => h.live hrun) (fun _ => ⟨rfl, h.total hrun⟩)
      ⟨hok.1, hok.2.1, hok.2.2, fun hno => Bool.noConfusion hno⟩
  · rename_i avail errno hpc
    split at hs
    · obtain rfl := Option.some.inj hs
      refine h.control ⟨⟨rfl, rfl, rfl⟩, rfl, rfl, rfl, rfl, rfl, rfl, rfl, rfl, rfl⟩
        (by rw [Mmap.done, Mmap.done, hpc]) (fun hno => Bool.noConfusion hno)
        (fun hno => Bool.noConfusion hno) fun hzero => ?_
      omega
    · cases hs
  · cases hs

/-- A wait that fails leaves a stream that has to be prepared again. -/
theorem Flows.wait (h : Flows pcm s q) {r : Int} (hs : s.wait r = some s') : Flows pcm s' q := by
  unfold Mmap.wait at hs
  split at hs
  · rename_i hpc
    have hrun : s.pc.isDone = false := by rw [hpc]; rfl
    have hdone : s.done = s.offset := by rw [Mmap.done, hpc]
    split at hs
    · rename_i hneg
      obtain rfl := Option.some.inj hs
      have hcalls := h.calls
      rw [hdone] at hcalls
      refine ⟨⟨h.setup.flags, h.setup.shape, h.setup.config⟩, fun hno => Bool.noConfusion hno,
        fun hno => Bool.noConfusion hno, h.small,
        fun hno => Bool.noConfusion hno, hcalls, h.stream, fun hzero => ?_⟩
      omega
    · obtain rfl := Option.some.inj hs
      exact h.control ⟨⟨rfl, rfl, rfl⟩, rfl, rfl, rfl, rfl, rfl, rfl, rfl, rfl, rfl⟩
        hdone.symm (fun _ => h.live hrun) (fun _ => ⟨rfl, h.total hrun⟩) trivial
  · cases hs

/-! ## The loop of `pcm_mmap_transfer_areas` -/

/-- What is known in the middle of a call that moves frames. -/
theorem Flows.areasOk (h : Flows pcm s q) {a : Areas} (hareas : AreasOk s.offset s.count s.room a)
    (hrun : s.pc.isDone = false) : a.offset + a.size < 2 ^ 31 ∧ a.count + a.size < 2 ^ 31 := by
  have hlt := h.total_lt hrun
  have hoffset := hareas.offset
  have hsize := hareas.size
  constructor <;> omega

theorem Flows.nextArea (h : Flows pcm s q) {a : Areas} (hpc : s.pc = .areas a) :
    Flows pcm (s.nextArea a) q := by
  have hrun : s.pc.isDone = false := by rw [hpc]; rfl
  have hlinked := h.linked_of_live hrun
  have hareas := h.pc
  rw [PcOk, hpc] at hareas
  have hlt := h.areasOk hareas hrun
  have htotal := h.total_lt hrun
  have hoffset := hareas.offset
  have hsize := hareas.size
  have hdone : s.done = a.offset := by rw [Mmap.done, hpc]
  unfold Mmap.nextArea
  split
  · rename_i hend
    have hcount : ¬ int (a.count : Int) < 0 := by
      rw [int_eq (by omega) (by omega)]
      omega
    have hoff : uint ((s.offset : Int) + a.count) = a.offset := by
      have := uint_eq (x := (s.offset : Int) + a.count) (by omega) (by omega)
      omega
    have hleft : uint ((s.count : Int) - a.count) = s.count - a.count := by
      have := uint_eq (x := (s.count : Int) - a.count) (by omega) (by omega)
      omega
    rw [if_neg hcount]
    refine h.control ⟨⟨rfl, rfl, rfl⟩, rfl, rfl, rfl, rfl, rfl, rfl, rfl, rfl, rfl⟩
      (hoff.trans hdone.symm) (fun _ => h.live hrun) (fun _ => ⟨?_, h.total hrun⟩) trivial
    show uint ((s.offset : Int) + a.count) + uint ((s.count : Int) - a.count) = s.offset + s.count
    rw [hoff, hleft]
    omega
  · rename_i hmore
    have hbegin := hlinked.begin (Nat.pos_of_ne_zero hmore) hareas.room
    have hinside : s.applPtr % s.pcm.bufferSize < s.pcm.bufferSize :=
      Nat.mod_lt _ hlinked.geometry.bounded.pos
    refine h.control ⟨⟨rfl, rfl, rfl⟩, rfl, rfl, rfl, rfl, rfl, rfl, rfl, rfl, rfl⟩
      hdone.symm (fun _ => h.live hrun) (fun _ => ⟨rfl, h.total hrun⟩) ?_
    rw [hbegin]
    refine ⟨⟨hareas.offset, hareas.size, hareas.room⟩, rfl, ?_, ?_, ?_⟩
    · show 0 < min a.size (s.pcm.bufferSize - s.applPtr % s.pcm.bufferSize)
      omega
    · exact Nat.min_le_left _ _
    · show s.applPtr % s.pcm.bufferSize +
        min a.size (s.pcm.bufferSize - s.applPtr % s.pcm.bufferSize) ≤ s.pcm.bufferSize
      omega

/-- A new call starts with nothing done. -/
theorem Flows.call (h : Flows pcm s q) (hprepared : s.pcm.prepared = true) (needed : BitVec 32)
    (buffer : Int → Uint8) {bytes : Nat} (hsmall : bytes < 2 ^ 31) :
    Flows pcm (s.call needed buffer bytes) q := by
  have hlinked := h.linked hprepared
  have hframe : s.pcm.config.frameBytes < 2 ^ 32 := by
    have hle : 1 * s.pcm.config.frameBytes ≤ s.pcm.bufferSize * s.pcm.config.frameBytes :=
      Nat.mul_le_mul_right _ hlinked.geometry.bounded.pos
    have hfits : s.pcm.bufferSize * s.pcm.config.frameBytes < 2 ^ 31 := hlinked.geometry.fits
    omega
  have hnone : ∀ t : Mmap, t.frames 0 0 = [] := by
    intro t
    rw [Mmap.frames, Nat.zero_mul]
    rfl
  have hcalls : ∀ t : Mmap, s.moved = s.moved ++ t.frames 0 0 := by
    intro t
    rw [hnone, List.append_nil]
  have hlinked' : ∀ pc count, Linked { s with
      buffer := buffer, bytes := bytes, offset := 0, count := count, err := 0, before := s.moved
      pc := pc } q := fun _ _ => ⟨hlinked.geometry, hlinked.hw, hlinked.appl, hlinked.span⟩
  unfold Mmap.call
  dsimp only
  split
  · refine ⟨h.setup, fun _ => hlinked' _ _, fun hno => Bool.noConfusion hno, hsmall,
      fun hno => Bool.noConfusion hno, hcalls _, h.stream, fun hno => ?_⟩
    exact absurd hno (by decide)
  · split
    · rename_i hzero
      refine ⟨h.setup, fun _ => hlinked' _ _, fun hno => Bool.noConfusion hno, hsmall,
        fun hno => Bool.noConfusion hno, hcalls _, h.stream, fun _ _ => ?_⟩
      show 0 = bytes / s.pcm.config.frameBytes
      rw [hzero, Nat.zero_div]
    · refine ⟨h.setup, fun _ => hlinked' _ _, fun _ => hprepared, hsmall, fun _ => ?_, hcalls _, h.stream,
        trivial⟩
      show 0 + pcmBytesToFrames s.pcm bytes = bytes / s.pcm.config.frameBytes
      rw [Nat.zero_add, pcmBytesToFrames_eq hframe]

/-! ## The copy -/

/-- Frames that fit are not cut off on the way to bytes. -/
theorem framesToBytes_int {n : Nat} (h : n * pcm.config.frameBytes < 2 ^ 31) :
    int (pcmFramesToBytes pcm n) = (n * pcm.config.frameBytes : Nat) := by
  rw [pcmFramesToBytes_eq (by omega)]
  exact int_eq (by omega) (by omega)

/-- The frames of the call fit in an `int`. -/
theorem Flows.bytes_lt (h : Flows pcm s q) (hrun : s.pc.isDone = false) {n : Nat}
    (hn : n ≤ s.offset + s.count) : n * s.pcm.config.frameBytes < 2 ^ 31 := by
  have hsmall := h.small
  have hle : n * s.pcm.config.frameBytes ≤ s.bytes := by
    rw [h.total hrun] at hn
    exact (Nat.mul_le_mul_right _ hn).trans (Nat.div_mul_le_self _ _)
  omega

/-- More frames of the caller's buffer. -/
theorem Mmap.frames_add (s : Mmap) (a n : Nat) :
    s.frames 0 (a + n) = s.frames 0 a ++ s.frames a n := by
  rw [Mmap.frames, Nat.add_mul, bytesAt_add]
  simp only [Mmap.frames, Nat.zero_mul, Nat.cast_zero, Int.zero_add]

/-- `pcm_areas_copy` never gets a negative length, and copies what it should to where there is
room. -/
theorem Flows.copy (h : Flows pcm s q) {a : Areas} {pcmOffset n : Nat}
    (hpc : s.pc = .begun a pcmOffset n) : ∃ s', s.app = some s' ∧ Flows pcm s' q := by
  have hrun : s.pc.isDone = false := by rw [hpc]; rfl
  have hlinked := h.linked_of_live hrun
  have hok := h.pc
  rw [PcOk, hpc] at hok
  obtain ⟨hareas, rfl, hpos, hle, hend⟩ := hok
  have hsize := hareas.size
  have hoffset := hareas.offset
  have hroom := hareas.room
  have hfits : s.pcm.bufferSize * s.pcm.config.frameBytes < 2 ^ 31 := hlinked.geometry.fits
  have hring : ∀ k, k ≤ s.pcm.bufferSize → k * s.pcm.config.frameBytes < 2 ^ 31 := fun k hk =>
    (Nat.mul_le_mul_right _ hk).trans_lt hfits
  have hlen := framesToBytes_int (hring n (by omega))
  have hdst := framesToBytes_int (hring (s.applPtr % s.pcm.bufferSize) (by omega))
  have hsrc := framesToBytes_int (h.bytes_lt hrun (n := a.offset) (by omega))
  have hdone : s.done = a.offset := by rw [Mmap.done, hpc]
  have hcalls := h.calls
  rw [hdone] at hcalls
  have happ : s.app = (pcmAreasCopy s.pcm s.mmapBuffer s.buffer (s.applPtr % s.pcm.bufferSize)
      a.offset n).map fun m =>
        { s with mmapBuffer := m.1, buffer := m.2, pc := .copied a n } := by
    rw [Mmap.app, hpc]
  have hnonneg : ¬ int (pcmFramesToBytes s.pcm n : Int) < 0 := by
    rw [hlen]
    omega
  have hcell : ((s.applPtr % s.pcm.bufferSize * s.pcm.config.frameBytes : Nat) : Int) =
      s.pcm.shape.cell s.applPtr := rfl
  have hroom' := hlinked.queued_bounds
  simp only [pcmAreasCopy, if_neg hnonneg] at happ
  rw [hlen, hdst, hsrc, hcell] at happ
  cases hin : s.pcm.isIn with
  | true =>
      have hfront : s.front = s.applPtr := Mmap.front_in hin
      obtain ⟨buf, hbuf⟩ : ∃ buf, buf = copyIn s.buffer (a.offset * s.pcm.config.frameBytes : Nat)
          (fun k => s.mmapBuffer (s.pcm.shape.cell s.applPtr + k))
          (n * s.pcm.config.frameBytes : Nat) := ⟨_, rfl⟩
      rw [if_pos hin, Option.map_some, ← hbuf] at happ
      refine ⟨_, happ, ?_⟩
      -- the front of the queue, in the buffer of the caller
      have hqueued : (n : Int) ≤ ahead s.pcm.shape.boundary s.front s.back := by
        have hle' : (n : Int) ≤ s.room := by omega
        rwa [Mmap.room_in hin, ← Mmap.front_in hin, ← Mmap.back_in hin] at hle'
      have htake := hlinked.span.bytesAt_front hlinked.geometry hqueued (by rw [hfront]; exact hend)
      rw [hfront] at htake
      refine ⟨h.setup, fun _ => ⟨hlinked.geometry, hlinked.hw, hlinked.appl, hlinked.span⟩,
        fun _ => h.live hrun, h.small, fun _ => h.total hrun, ?_, h.stream,
        ⟨⟨hareas.offset, hareas.size, hareas.room⟩, hpos, hle, hend, ?_⟩⟩
      · show s.moved = s.before ++ bytesAt buf (0 * s.pcm.config.frameBytes : Nat)
          (a.offset * s.pcm.config.frameBytes : Nat)
        rw [hbuf, bytesAt_copyIn_before _ _ _ (by rw [Nat.zero_mul]; omega)]
        exact hcalls
      · rw [Mmap.Copied, if_pos hin]
        show bytesAt buf (a.offset * s.pcm.config.frameBytes : Nat)
          (n * s.pcm.config.frameBytes : Nat) = _
        rw [hbuf, bytesAt_copyIn, bytesAt_shift]
        exact htake
  | false =>
      have hback : s.back = s.applPtr := Mmap.back_out hin
      rw [if_neg (not_isIn hin), Option.map_some] at happ
      refine ⟨_, happ, ?_⟩
      -- the frames of the caller, behind the queue
      have hfree : ahead s.pcm.shape.boundary s.front s.back + n ≤ s.pcm.shape.bufferSize := by
        have hle' : (n : Int) ≤ s.room := by omega
        rw [Mmap.room_out hin, ← Mmap.front_out hin, ← Mmap.back_out hin] at hle'
        show ahead s.pcm.boundary s.front s.back + n ≤ s.pcm.bufferSize
        omega
      have hcopy := hlinked.span.copy hlinked.geometry
        (fun k => s.buffer ((a.offset * s.pcm.config.frameBytes : Nat) + k)) hfree
        (by rw [hback]; exact hend)
      rw [hback, bytesAt_shift] at hcopy
      refine ⟨h.setup, fun _ => ⟨hlinked.geometry, hlinked.hw, hlinked.appl, ⟨hlinked.span.length,
          hlinked.span.full, hcopy.left⟩⟩,
        fun _ => h.live hrun, h.small, fun _ => h.total hrun, hcalls, h.stream,
        ⟨⟨hareas.offset, hareas.size, hareas.room⟩, hpos, hle, hend, ?_⟩⟩
      rw [Mmap.Copied, if_neg (not_isIn hin)]
      exact hcopy

/-! ## The commit -/

/-- A commit of `n` frames that moves `appl_ptr` to `applPtr`. -/
def Mmap.committed (s : Mmap) (applPtr : Nat) (a : Areas) (n : Nat) : Mmap :=
  { s with applPtr := applPtr
           moved := s.moved ++ s.frames a.offset n
           pc := .areas ⟨a.offset + n, a.size - n, a.count + n⟩ }

theorem Flows.commit_eq (h : Flows pcm s q) {a : Areas} {n : Nat} (hpc : s.pc = .copied a n) :
    s.commit a n = s.committed (pcmMmapApplForward s.pcm s.applPtr n) a n := by
  have hrun : s.pc.isDone = false := by rw [hpc]; rfl
  have hok := h.pc
  rw [PcOk, hpc] at hok
  obtain ⟨hareas, hpos, hle, hend, hcopied⟩ := hok
  have hlt := h.areasOk hareas hrun
  have h₁ := uint_eq (x := (a.offset : Int) + n) (by omega) (by omega)
  have h₂ := uint_eq (x := (a.size : Int) - n) (by omega) (by omega)
  have h₃ := uint_eq (x := (a.count : Int) + n) (by omega) (by omega)
  have hareas' : (⟨uint ((a.offset : Int) + n), uint ((a.size : Int) - n),
      uint ((a.count : Int) + n)⟩ : Areas) = ⟨a.offset + n, a.size - n, a.count + n⟩ := by
    simp only [Areas.mk.injEq]
    exact ⟨by omega, by omega, by omega⟩
  have hint : int (n : Int) = n := int_eq (by omega) (by omega)
  simp only [Mmap.commit, hint, hareas']
  exact if_neg (Int.not_lt.mpr (Int.natCast_nonneg n))

/-- The commit takes the frames off the queue, or puts them in. -/
theorem Flows.commit (h : Flows pcm s q) {a : Areas} {n : Nat} (hpc : s.pc = .copied a n) :
    ∃ q', Flows pcm (s.commit a n) q' := by
  have hrun : s.pc.isDone = false := by rw [hpc]; rfl
  have hlinked := h.linked_of_live hrun
  have hgeo := hlinked.geometry
  rw [h.commit_eq hpc]
  have hok := h.pc
  rw [PcOk, hpc] at hok
  obtain ⟨hareas, hpos, hle, hend, hcopied⟩ := hok
  have hdone : s.done = a.offset := by rw [Mmap.done, hpc]
  have hcalls := h.calls
  rw [hdone] at hcalls
  have hn : n ≤ s.pcm.bufferSize := by omega
  obtain ⟨happl, hmod⟩ := applForward_spec hlinked.inRange hn
  generalize pcmMmapApplForward s.pcm s.applPtr n = applPtr at happl hmod
  have hcalls' : s.moved ++ s.frames a.offset n = s.before ++ s.frames 0 (a.offset + n) := by
    rw [Mmap.frames_add, hcalls, List.append_assoc]
  have hareas' : ∀ room : Int, s.room - n ≤ room →
      AreasOk s.offset s.count room ⟨a.offset + n, a.size - n, a.count + n⟩ := by
    intro room hroom'
    have hoffset := hareas.offset
    have hsize := hareas.size
    have hroom := hareas.room
    exact ⟨by dsimp only; omega, by dsimp only; omega, by dsimp only; omega⟩
  rw [Mmap.Copied] at hcopied
  have hstream := h.stream
  have hroom := hareas.room
  have hspan := hlinked.span
  cases hin : s.pcm.isIn with
  | true =>
      rw [if_pos hin] at hcopied hstream
      have hfront : (s.committed applPtr a n).front = applPtr := Mmap.front_in hin
      have hback : (s.committed applPtr a n).back = s.hwPtr := Mmap.back_in hin
      have hqueued : (n : Int) ≤ ahead s.pcm.boundary s.applPtr s.hwPtr := by
        rw [← Mmap.room_in hin]
        omega
      rw [Mmap.front_in hin, Mmap.back_in hin] at hspan
      refine ⟨q.drop (n * s.pcm.config.frameBytes), h.setup, fun _ => ⟨hgeo, hlinked.hw, happl, ?_⟩,
        fun _ => h.live hrun, h.small, fun _ => h.total hrun, hcalls', ?_, hareas' _ ?_⟩
      · rw [hfront, hback]
        exact hspan.drop hgeo hmod hqueued
      · show if s.pcm.isIn then s.moved ++ s.frames a.offset n ++ _ = s.device else _
        rw [if_pos hin, hcopied, List.append_assoc, List.take_append_drop]
        exact hstream
      · have hleft := ahead_sub (r := s.hwPtr) hgeo.pos hmod hqueued
        rw [Mmap.room_in hin, Mmap.room_in (s := s.committed applPtr a n) hin]
        exact hleft.ge
  | false =>
      rw [if_neg (not_isIn hin)] at hcopied hstream
      have hfront : (s.committed applPtr a n).front = s.hwPtr := Mmap.front_out hin
      have hback : (s.committed applPtr a n).back = applPtr := Mmap.back_out hin
      have hfree : ahead s.pcm.boundary s.hwPtr s.applPtr + n ≤ s.pcm.bufferSize := by
        rw [Mmap.room_out hin] at hroom
        omega
      rw [Mmap.front_out hin, Mmap.back_out hin] at hspan
      rw [Mmap.front_out hin] at hcopied
      have hlen : (s.frames a.offset n).length = n * s.pcm.config.frameBytes := by
        rw [Mmap.frames, bytesAt_length, Int.toNat_natCast]
      refine ⟨q ++ s.frames a.offset n, h.setup, fun _ => ⟨hgeo, hlinked.hw, happl, ?_⟩,
        fun _ => h.live hrun, h.small, fun _ => h.total hrun, hcalls', ?_, hareas' _ ?_⟩
      · rw [hfront, hback]
        exact hspan.append hgeo hlen hmod hfree hcopied
      · show if s.pcm.isIn then _ else s.device ++ (q ++ s.frames a.offset n) =
          s.moved ++ s.frames a.offset n
        rw [if_neg (not_isIn hin), ← List.append_assoc, hstream]
      · have hfacts := hlinked.inRange.facts
        have hmore := ahead_add (p := s.hwPtr) hgeo.pos hmod
          (show ahead s.pcm.boundary s.hwPtr s.applPtr + n < s.pcm.boundary by omega)
        have hmore' : ahead s.pcm.boundary s.hwPtr applPtr =
          ahead s.pcm.boundary s.hwPtr s.applPtr + n := hmore
        rw [Mmap.room_out hin, Mmap.room_out (s := s.committed applPtr a n) hin]
        show _ ≤ (s.pcm.bufferSize : Int) - ahead s.pcm.boundary s.hwPtr applPtr
        omega

/-! ## The hardware -/

theorem Mmap.frames_length (s : Mmap) (offset n : Nat) :
    (s.frames offset n).length = n * s.pcm.config.frameBytes := by
  rw [Mmap.frames, bytesAt_length, Int.toNat_natCast]

/-- The state after the hardware has moved, with the ring and the record it leaves. -/
def Mmap.hwMoved (s : Mmap) (hwPtr : Nat) (ring : Int → Uint8) (device : List Uint8) : Mmap :=
  { s with hwPtr := hwPtr, mmapBuffer := ring, device := device }

/-- The hardware captures a frame into a ring that is not full. -/
theorem Flows.capture (h : Flows pcm s q) (hprepared : s.pcm.prepared = true)
    (hin : s.pcm.isIn = true) (hspace : s.queued < s.pcm.bufferSize) (frame : Int → Uint8) :
    ∃ q', Flows pcm (s.hwMoved (hwForward s.pcm s.hwPtr)
      (copyIn s.mmapBuffer s.hwFrame frame s.pcm.config.frameBytes)
      (s.device ++ bytesAt frame 0 s.pcm.config.frameBytes)) q' := by
  have hlinked := h.linked hprepared
  have hgeo := hlinked.geometry
  obtain ⟨hhw, hmod⟩ := hwForward_spec hlinked.hw
  generalize hwForward s.pcm s.hwPtr = hwPtr at hhw hmod
  have hspan := hlinked.span
  have hstream := h.stream
  rw [if_pos hin] at hstream
  rw [Mmap.front_in hin, Mmap.back_in hin] at hspan
  rw [Mmap.queued, Mmap.front_in hin, Mmap.back_in hin] at hspace
  have hinside : s.hwPtr % s.pcm.bufferSize < s.pcm.bufferSize := Nat.mod_lt _ hgeo.bounded.pos
  have hroom : ahead s.pcm.boundary s.applPtr s.hwPtr + (1 : Nat) ≤ s.pcm.bufferSize := by
    push_cast
    omega
  have hcopy := hspan.copy hgeo (n := 1) frame hroom hinside
  rw [Nat.one_mul] at hcopy
  have hnew : (bytesAt frame 0 s.pcm.config.frameBytes).length = 1 * s.pcm.config.frameBytes := by
    rw [bytesAt_length, Int.toNat_natCast, Nat.one_mul]
  have hmod' : (hwPtr : Int) % s.pcm.boundary = (s.hwPtr + (1 : Nat)) % s.pcm.boundary := by
    rw [hmod, Nat.cast_one]
  have hfacts := hlinked.inRange.facts
  have hmore := ahead_add (p := s.applPtr) hgeo.pos hmod'
    (show ahead s.pcm.boundary s.applPtr s.hwPtr + (1 : Nat) < s.pcm.boundary by omega)
  generalize hring : copyIn s.mmapBuffer s.hwFrame frame s.pcm.config.frameBytes = ring
  have hcells : Ring.Holds ring s.pcm.shape.ringBytes (s.pcm.shape.cell s.applPtr)
      (q ++ bytesAt frame 0 s.pcm.config.frameBytes) := hring ▸ hcopy
  generalize bytesAt frame 0 s.pcm.config.frameBytes = new at hnew hcells
  have hfront : (s.hwMoved hwPtr ring (s.device ++ new)).front = s.applPtr := Mmap.front_in hin
  have hback : (s.hwMoved hwPtr ring (s.device ++ new)).back = hwPtr := Mmap.back_in hin
  refine ⟨q ++ new, h.setup, fun _ => ⟨hgeo, hhw, hlinked.appl, ?_⟩, h.live, h.small, h.total, h.calls,
    ?_, ?_⟩
  · rw [hfront, hback]
    exact hspan.append hgeo hnew hmod' hroom hcells
  · show if s.pcm.isIn then s.moved ++ (q ++ new) = s.device ++ new else _
    rw [if_pos hin, ← List.append_assoc, hstream]
  · show PcOk s _ _
    refine h.pc.mono ?_ fun a n hcopied => ?_
    · rw [Mmap.room_in hin, Mmap.room_in (s := s.hwMoved hwPtr ring (s.device ++ new)) hin]
      show _ ≤ ahead s.pcm.boundary s.applPtr hwPtr
      have hmore' : ahead s.pcm.boundary s.applPtr hwPtr =
        ahead s.pcm.boundary s.applPtr s.hwPtr + (1 : Nat) := hmore
      omega
    · -- the frames that are copied were there before
      rw [Mmap.Copied, if_pos hin] at hcopied
      rw [Mmap.Copied, if_pos (show (s.hwMoved hwPtr ring (s.device ++ new)).pcm.isIn = true from hin)]
      have hlen := congrArg List.length hcopied
      rw [Mmap.frames_length, List.length_take] at hlen
      show s.frames a.offset n = (q ++ new).take (n * s.pcm.config.frameBytes)
      rw [hcopied, List.take_append_of_le_length (by omega)]

/-- The hardware plays a frame that has been written. -/
theorem Flows.play (h : Flows pcm s q) (hprepared : s.pcm.prepared = true)
    (hin : s.pcm.isIn = false) (hqueued : ahead s.pcm.boundary s.hwPtr s.applPtr ≠ 0) :
    ∃ q', Flows pcm (s.hwMoved (hwForward s.pcm s.hwPtr) s.mmapBuffer
      (s.device ++ bytesAt s.mmapBuffer s.hwFrame s.pcm.config.frameBytes)) q' := by
  have hlinked := h.linked hprepared
  have hgeo := hlinked.geometry
  obtain ⟨hhw, hmod⟩ := hwForward_spec hlinked.hw
  generalize hwForward s.pcm s.hwPtr = hwPtr at hhw hmod
  have hspan := hlinked.span
  have hstream := h.stream
  rw [if_neg (not_isIn hin)] at hstream
  rw [Mmap.front_out hin, Mmap.back_out hin] at hspan
  have hinside : s.hwPtr % s.pcm.bufferSize < s.pcm.bufferSize := Nat.mod_lt _ hgeo.bounded.pos
  have hone : ((1 : Nat) : Int) ≤ ahead s.pcm.boundary s.hwPtr s.applPtr := by
    have hnonneg : 0 ≤ ahead s.pcm.boundary s.hwPtr s.applPtr := ahead_nonneg hgeo.pos
    omega
  have hplayed := hspan.bytesAt_front hgeo (n := 1) hone hinside
  rw [Nat.one_mul] at hplayed
  have hmod' : (hwPtr : Int) % s.pcm.boundary = (s.hwPtr + (1 : Nat)) % s.pcm.boundary := by
    rw [hmod, Nat.cast_one]
  have hdrop := hspan.drop hgeo hmod' hone
  have hleft := ahead_sub (r := s.applPtr) hgeo.pos hmod' hone
  have hlen : s.pcm.config.frameBytes ≤ q.length := by
    have hlength := congrArg List.length hplayed
    rw [bytesAt_length, List.length_take, Int.toNat_natCast] at hlength
    have hlength' : s.pcm.config.frameBytes = min s.pcm.config.frameBytes q.length := hlength
    omega
  generalize hdevice : s.device ++ bytesAt s.mmapBuffer s.hwFrame s.pcm.config.frameBytes = device
  have hrecord : device = s.device ++ q.take s.pcm.config.frameBytes := by
    rw [← hdevice]
    exact congrArg (s.device ++ ·) hplayed
  rw [Nat.one_mul] at hdrop
  have hfront : (s.hwMoved hwPtr s.mmapBuffer device).front = hwPtr := Mmap.front_out hin
  have hback : (s.hwMoved hwPtr s.mmapBuffer device).back = s.applPtr := Mmap.back_out hin
  refine ⟨q.drop s.pcm.config.frameBytes, h.setup, fun _ => ⟨hgeo, hhw, hlinked.appl, ?_⟩, h.live,
    h.small,
    h.total, h.calls, ?_, ?_⟩
  · rw [hfront, hback]
    exact hdrop
  · show if s.pcm.isIn then _ else device ++ q.drop s.pcm.config.frameBytes = s.moved
    rw [if_neg (not_isIn hin), hrecord, List.append_assoc, List.take_append_drop]
    exact hstream
  · show PcOk s _ _
    refine h.pc.mono ?_ fun a n hcopied => ?_
    · rw [Mmap.room_out hin, Mmap.room_out (s := s.hwMoved hwPtr s.mmapBuffer device) hin]
      show _ ≤ (s.pcm.bufferSize : Int) - ahead s.pcm.boundary hwPtr s.applPtr
      have hleft' : ahead s.pcm.boundary hwPtr s.applPtr =
        ahead s.pcm.boundary s.hwPtr s.applPtr - (1 : Nat) := hleft
      omega
    · -- the frames behind the queue are behind what is left of it
      rw [Mmap.Copied, if_neg (not_isIn hin), Mmap.front_out hin] at hcopied
      rw [Mmap.Copied, if_neg (not_isIn (s := s.hwMoved hwPtr s.mmapBuffer device) hin), hfront]
      show Ring.Holds s.mmapBuffer s.pcm.shape.ringBytes (s.pcm.shape.cell hwPtr)
        (q.drop s.pcm.config.frameBytes ++ s.frames a.offset n)
      have hboth := hcopied.drop (n := s.pcm.config.frameBytes)
        (by rw [List.length_append]; omega)
      rw [List.drop_append_of_le_length hlen] at hboth
      rw [cell_add hgeo hmod', Nat.cast_one, Int.one_mul]
      exact hboth

/-! ## Steps -/

/-- **One step.** -/
theorem Flows.step (h : Flows pcm s q) {a : MmapAct} (hC : Orderly s a) (hs : s.step a = some s') :
    ∃ q', Flows pcm s' q' := by
  cases a with
  | hw frame =>
      rw [Mmap.step] at hs
      split at hs
      · rename_i hprepared
        unfold Mmap.hw at hs
        dsimp only at hs
        split at hs
        · rename_i hin
          obtain rfl := Option.some.inj hs
          exact h.capture hprepared hin (hC hin) frame
        · rename_i hout
          have hin : s.pcm.isIn = false := Bool.eq_false_iff.mpr hout
          split at hs
          · cases hs
          · rename_i hqueued
            obtain rfl := Option.some.inj hs
            exact h.play hprepared hin hqueued
      · cases hs
  | pcmMmapWrite data count =>
      rw [Mmap.step] at hs
      split at hs
      · rename_i hcan
        obtain rfl := Option.some.inj hs
        exact ⟨q, h.call hcan.1 _ data hC⟩
      · cases hs
  | pcmMmapRead data count =>
      rw [Mmap.step] at hs
      split at hs
      · rename_i hcan
        obtain rfl := Option.some.inj hs
        exact ⟨q, h.call hcan.1 _ data hC⟩
      · cases hs
  | app =>
      rw [Mmap.step] at hs
      cases hpc : s.pc with
      | loop =>
          rw [Mmap.app, hpc] at hs
          obtain rfl := Option.some.inj hs
          exact ⟨q, h.look hpc (hC (by rw [hpc]; rfl))⟩
      | consider avail =>
          rw [Mmap.app, hpc] at hs
          obtain rfl := Option.some.inj hs
          exact ⟨q, h.consider hpc⟩
      | areas a =>
          rw [Mmap.app, hpc] at hs
          obtain rfl := Option.some.inj hs
          exact ⟨q, h.nextArea hpc⟩
      | begun a pcmOffset n =>
          obtain ⟨t, ht, hflows⟩ := h.copy hpc
          obtain rfl := Option.some.inj (ht.symm.trans hs)
          exact ⟨q, hflows⟩
      | copied a n =>
          rw [Mmap.app, hpc] at hs
          obtain rfl := Option.some.inj hs
          exact h.commit hpc
      | idle => rw [Mmap.app, hpc] at hs; cases hs
      | starting avail => rw [Mmap.app, hpc] at hs; cases hs
      | waiting => rw [Mmap.app, hpc] at hs; cases hs
      | returned r => rw [Mmap.app, hpc] at hs; cases hs
  | start errno => exact ⟨q, h.start hs⟩
  | wait r => exact ⟨q, h.wait hs⟩

end

end SpeechStack.Tinyalsa
