import SpeechStack.Speech.Clean

set_option autoImplicit false

/-! # Request sizes

The guard of `SpeechArrayRead` lets through every multiple of `out_align`, which is a
multiple of the twelve bytes of an output frame for some formats only. A call consumes four
bytes for each byte of the (clamped) request and decodes whole frames, so the rest of a frame
at the end of the parse window is dropped: a run takes exactly what it decodes when every
request is a number of whole frames after the clamp, and only then
(`speechArrayRead_takesDecoded_iff`).
-/

namespace SpeechStack

open Memory

/-- A `len` that passes the guard and asks for one output frame at least. -/
structure Admitted (h : SpeechArrayHandle) (len : Int) : Prop where
  frame : 12 ≤ len
  guard : h.outAlign ∣ len

instance (h : SpeechArrayHandle) (len : Int) : Decidable (Admitted h len) :=
  decidable_of_iff (12 ≤ len ∧ h.outAlign ∣ len)
    ⟨fun ⟨h₁, h₂⟩ => ⟨h₁, h₂⟩, fun ha => ⟨ha.frame, ha.guard⟩⟩

theorem Admitted.guarded {h : SpeechArrayHandle} {len : Int} (ha : Admitted h len)
    (h₁ : 1 ≤ h.outAlign) : Guarded h len where
  pos := by
    have := ha.frame
    omega
  outAlign := by omega
  guard := ha.guard

/-- The bytes that a call removes from the front of the buffer: those that were held and
read, less those that are kept. -/
def removed (s t : Session) : Int :=
  s.handle.dataSize + 4 * ((t.pcm.pos : Int) - s.pcm.pos) - t.handle.dataSize

/-- The call removed exactly the frames it decoded, 48 bytes for every twelve it returned. -/
def TakesDecoded (s t : Session) : Prop :=
  ∃ reply, t.replies = s.replies ++ [reply] ∧ 12 * removed s t = 48 * reply.1

/-- A run of calls that drops nothing: every call takes what it decodes, the calls together
return the first frames of the stream, and what is held goes on behind these. -/
def DropsNothing (captured : Nat → Word) (fuel : Nat) (s : Session) (lens : List Int) : Prop :=
  ∃ t N n, Machine.run (Session.step fuel) s lens = some t ∧
    Machine.Meets (Session.step fuel)
      (fun s len => ∀ t, s.step fuel len = some t → TakesDecoded s t) s lens ∧
    t.output = packFrames captured ((List.range N).map fun k => 12 * k) ∧
    Front captured (12 * N) n t.handle t.pcm

section Run

variable {B : Int} {captured : Nat → Word} {lens : List Int} {N fuel : Nat} {s : Session}

/-- A call consumes four bytes for each byte of the request, and returns whole frames. -/
theorem Exact.step_removed (he : Exact B captured lens N s)
    (hc : CleanStream captured) (ho : Opened B s.handle) (hok : s.pcm.Reliable)
    (hfuel : 2 ≤ fuel) {len : Int} (hg : Guarded s.handle len) {L : Int}
    (hL : L = clampLen s.handle len) (h12 : 12 ≤ L) :
    ∃ t, s.step fuel len = some t ∧ removed s t = 4 * L ∧
      ∃ (frames : Nat) (words : List Word),
        t.replies = s.replies ++ [(12 * (frames : Int), words)] := by
  obtain ⟨n, st, hcall, hw, hLn, -, -, -⟩ :=
    he.call hc.tagged (hc.audible N) ho hok hfuel hg hL h12
  obtain ⟨t, hstep, hreplies, hfront, -, -⟩ :=
    Session.step_of_window hcall hw (by omega) (l := L.toNat) (by omega) (by omega)
  refine ⟨t, hstep, ?_, _, _, hreplies⟩
  have hd₀ := ho.dataNonneg
  have hd₄ := ho.dataWords
  calc removed s t = s.handle.dataSize + 4 * ((t.pcm.pos : Int) - s.pcm.pos)
        - 4 * ((n - L.toNat : Nat) : Int) := by rw [removed, hfront.size]
    _ = 4 * L := by
        rw [hfront.pos, he.front.pos]
        push_cast
        omega

/-- So it takes what it decodes exactly when the request is a number of whole frames. -/
theorem Exact.takesDecoded_iff (he : Exact B captured lens N s)
    (hc : CleanStream captured) (ho : Opened B s.handle) (hok : s.pcm.Reliable)
    (hfuel : 2 ≤ fuel) {len : Int} (hg : Guarded s.handle len) {L : Int}
    (hL : L = clampLen s.handle len) (h12 : 12 ≤ L) :
    (∀ t, s.step fuel len = some t → TakesDecoded s t) ↔ 12 ∣ L := by
  obtain ⟨t, hstep, hrem, frames, words, hreplies⟩ :=
    he.step_removed hc ho hok hfuel hg hL h12
  constructor
  · intro h
    obtain ⟨reply, hreply, htakes⟩ := h t hstep
    -- the call has one reply, so it is the one counted
    have hsame := List.append_cancel_left (hreplies.symm.trans hreply)
    rw [List.cons.injEq] at hsame
    rw [hrem, ← hsame.1] at htakes
    exact ⟨frames, by omega⟩
  · intro hdvd t' hstep'
    -- a request of whole frames is delivered as a whole
    obtain ⟨u, hu, hureplies, -⟩ :=
      he.step_of_whole hc.tagged (hc.audible N) ho hok hfuel hg hL h12 (by omega)
    obtain rfl : u = t' := Option.some.inj (hu.symm.trans hstep')
    obtain rfl : t = u := Option.some.inj (hstep.symm.trans hu)
    refine ⟨_, hureplies, ?_⟩
    rw [hrem, nextReply]
    ring

/-- What a run drops, by its requests. -/
theorem Exact.dropsNothing_iff (hc : CleanStream captured) (hfuel : 2 ≤ fuel)
    (rest : List Int) (he : Exact B captured lens N s) (ho : Opened B s.handle)
    (hok : s.pcm.Reliable) (hout : 1 ≤ s.handle.outAlign)
    (ha : ∀ len ∈ rest, Admitted s.handle len) :
    DropsNothing captured fuel s rest ↔ ∀ len ∈ rest, 12 ∣ min len (B / 2) := by
  induction rest generalizing lens N s with
  -- on the calls, up to the first request that cuts a frame
  | nil =>
      simp only [List.not_mem_nil, false_implies, implies_true, iff_true]
      exact ⟨s, N, _, rfl, trivial, he.output, he.front⟩
  | cons len rest ih =>
      have hadm := ha len (by simp)
      have hg := hadm.guarded hout
      have hclamp : clampLen s.handle len = min len (B / 2) := clampLen_eq ho
      have h12 : 12 ≤ clampLen s.handle len := by
        have := hadm.frame
        have := ho.pos
        have := ho.align
        omega
      have hhead := he.takesDecoded_iff hc ho hok hfuel hg rfl h12
      rw [hclamp] at hhead
      by_cases hdvd : 12 ∣ min len (B / 2)
      · -- this call drops nothing, and leaves the session exact for the rest
        obtain ⟨t, hstep, -, het, hot, hokt, hset⟩ :=
          he.step_of_whole hc.tagged (hc.audible N) ho hok hfuel hg rfl h12 (by omega)
        have hat : ∀ len' ∈ rest, Admitted t.handle len' := fun len' hmem =>
          have hadm' := ha len' (List.mem_cons_of_mem _ hmem)
          ⟨hadm'.frame, hset.outAlign ▸ hadm'.guard⟩
        rw [List.forall_mem_cons, ← ih het hot hokt (by rwa [hset.outAlign]) hat]
        constructor
        · rintro ⟨u, M, n, hrun, hmeets, hu⟩
          obtain ⟨m, hm, hrest⟩ := Machine.run_cons_eq_some.mp hrun
          obtain rfl : t = m := Option.some.inj (hstep.symm.trans hm)
          exact ⟨hdvd, u, M, n, hrest, hmeets.2 t hstep, hu⟩
        · rintro ⟨-, u, M, n, hrun, hmeets, hu⟩
          refine ⟨u, M, n, Machine.run_cons_eq_some.mpr ⟨t, hstep, hrun⟩,
            ⟨hhead.mpr hdvd, fun t' ht' => ?_⟩, hu⟩
          obtain rfl : t = t' := Option.some.inj (hstep.symm.trans ht')
          exact hmeets
      · -- the first request with a cut frame: its call takes more than it decodes
        constructor
        · rintro ⟨u, M, n, -, hmeets, -⟩
          exact absurd (hhead.mp hmeets.1) hdvd
        · intro h
          exact absurd (h len (by simp)) hdvd

end Run

/-- **Request sizes.** For every configuration and every sequence of admitted requests, on a
clean stream: nothing is dropped if and only if every request is a number of whole output
frames after the clamp. -/
theorem speechArrayRead_takesDecoded_iff (config : SpeechArray) (bufferSize : Nat)
    (heap captured : Nat → Word) (fuel : Nat) (lens : List Int)
    (hpos : 0 < pcmFramesToBytes bufferSize) (halign : 48 ∣ pcmFramesToBytes bufferSize)
    (hout : 1 ≤ (speechArrayOpen config bufferSize heap).outAlign)
    (hc : CleanStream captured) (hfuel : 2 ≤ fuel)
    (hlens : ∀ len ∈ lens, Admitted (speechArrayOpen config bufferSize heap) len) :
    DropsNothing captured fuel (Session.fresh config bufferSize heap captured fun _ => 0) lens ↔
      ∀ len ∈ lens, 12 ∣ min len ((pcmFramesToBytes bufferSize : Int) / 2) :=
  Exact.dropsNothing_iff hc hfuel lens (Session.fresh_exact config heap captured hpos)
    (speechArrayOpen_opened config heap hpos halign) (fun _ => rfl) hout hlens

/-- Two 16-bit channels, requests of which two are cut by the clamp to a whole frame. -/
theorem speechArrayRead_takesDecoded_iff_clamped :
    DropsNothing numbered 2 (Session.fresh ⟨2, PCM_FORMAT_S16_LE⟩ 6 (fun _ => 0) numbered
        fun _ => 0) [12, 28, 24, 100] ↔
      ∀ len ∈ [12, 28, 24, 100], 12 ∣ min len ((pcmFramesToBytes 6 : Int) / 2) :=
  speechArrayRead_takesDecoded_iff ⟨2, PCM_FORMAT_S16_LE⟩ 6 (fun _ => 0) numbered 2
    [12, 28, 24, 100] (by decide) (by decide) (by decide) numbered_clean le_rfl (by decide)

/-- Two 16-bit channels (`out_align = 4`) and requests of 16 bytes: the first call takes 64
bytes and returns the one frame that is in them, the second drops what is left of the frame
that the first one cut. -/
theorem speechArrayRead_drops_cutFrame :
    Admitted (speechArrayOpen ⟨2, PCM_FORMAT_S16_LE⟩ 6 fun _ => 0) 16 ∧
    ¬ DropsNothing numbered 2 (Session.fresh ⟨2, PCM_FORMAT_S16_LE⟩ 6 (fun _ => 0) numbered
        fun _ => 0) [16, 16] := by
  refine ⟨by decide, fun h => ?_⟩
  have hfresh := Session.fresh_exact ⟨2, PCM_FORMAT_S16_LE⟩ (fun _ => 0) numbered
    (show 0 < pcmFramesToBytes 6 by decide)
  have ho := speechArrayOpen_opened ⟨2, PCM_FORMAT_S16_LE⟩ (fun _ => 0)
    (show 0 < pcmFramesToBytes 6 by decide) (by decide)
  have hall := (Exact.dropsNothing_iff numbered_clean le_rfl [16, 16] hfresh ho (fun _ => rfl)
    (by decide) (by decide)).mp h
  exact absurd (hall 16 (by simp)) (by decide)

end SpeechStack
