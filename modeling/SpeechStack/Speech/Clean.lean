import SpeechStack.Speech.Window

set_option autoImplicit false

/-! # Clean streams

On a stream that is nothing but audible frames `SpeechArrayRead` is exact: a call returns as
many bytes as it is asked for, up to the clamp, and the calls together return the packed
frames of the stream from its start, none lost, repeated or changed.

The invariant that the calls keep is `Exact`: the buffer holds a whole number of frames, at
most `B` bytes, and these are the captured words that have not been delivered yet.
-/

namespace SpeechStack

open Memory

/-- A stream of correctly tagged frames, each of which carries sound. -/
structure CleanStream (captured : Nat → Word) : Prop where
  tagged : ∀ k, Tagged captured (12 * k)
  audible : ∀ k, ¬ Silent captured (12 * k)

/-- On a stream of tagged frames the frames start at the multiples of twelve. -/
theorem framesFrom_of_tagged_stream {w : Nat → Word} (ht : ∀ k, Tagged w (12 * k)) (a : Nat) :
    ∀ b, framesFrom w (12 * a) (12 * b) = (List.range b).map fun k => 12 * (a + k) := by
  intro b
  induction b with
  | zero => rfl
  | succ b ih =>
      have hlast : framesFrom w (12 * a + 12 * b) 12 = [12 * (a + b)] := by
        rw [← Nat.mul_add, framesFrom_of_tagged (ht (a + b)) (by omega), framesFrom_zero]
      rw [Nat.mul_succ, framesFrom_add, ih, hlast, List.range_succ, List.map_append]
      rfl

/-- A frame that is seen at a word of such a stream starts at a multiple of twelve, whatever
lies behind that word. -/
theorem Tagged.dvd_of_tagged_stream {w v : Nat → Word} (ht : ∀ k, Tagged w (12 * k)) {i q : Nat}
    (hv : Tagged v q) (heq : v q = w i) : 12 ∣ i := by
  by_contra hdvd
  have hinner := (ht (i / 12)).inner (j := i % 12) (by omega) (by omega)
  rw [Nat.div_add_mod, ← heq] at hinner
  exact hinner hv.first

/-- A window of whole frames decodes to the frames of the stream. -/
theorem Window.packFrames_whole {w : Nat → Word} {N n l : Nat} {st : ReadState}
    (hw : Window w (12 * N) n st) (ht : ∀ k, Tagged w (12 * k)) (hn : n % 12 = 0) (hl : l ≤ n) :
    packFrames st.handle.buffer (decoded st l)
      = packFrames w ((List.range (l / 12)).map fun k => 12 * (N + k)) := by
  rw [← framesFrom_of_tagged_stream ht]
  refine hw.packFrames_decoded fun i hi hcut => ?_
  have hmem : st.handle.buffer i = w (12 * N + i) := by
    have := hw.holds i (by omega)
    rwa [Nat.zero_add] at this
  have hno : ¬ 12 ∣ 12 * N + i := by omega
  exact ⟨fun h => hno (h.dvd_of_tagged_stream ht hmem),
    fun h => hno (h.dvd_of_tagged_stream ht rfl)⟩

/-- What holds of a session after the calls `lens` on a clean stream, `N` frames of which have
been delivered. -/
structure Exact (B : Int) (captured : Nat → Word) (lens : List Int) (N : Nat) (s : Session) :
    Prop where
  /-- every call returned what it was asked for, up to the clamp -/
  returns : s.replies.map Prod.fst = lens.map fun len => min len (2 * B / 4)
  /-- and copied that many bytes -/
  bytes : ∀ q ∈ s.replies, 4 * (q.2.length : Int) = q.1
  /-- all bytes returned are the packing of the first `N` frames -/
  output : s.output = packFrames captured ((List.range N).map fun k => 12 * k)
  whole : s.handle.dataSize % 48 = 0
  bound : s.handle.dataSize ≤ B
  /-- the buffer front holds the captured words from frame `N` on, and they are all that has
  been captured but not delivered -/
  front : Front captured (12 * N) (s.handle.dataSize / 4).toNat s.handle s.pcm

section Step

variable {B : Int} {captured : Nat → Word} {lens : List Int} {N fuel : Nat} {s : Session}

/-- What a call for `L` bytes, whole frames, returns and copies from frame `N` on. -/
def nextReply (w : Nat → Word) (N : Nat) (L : Int) : Int × List Word :=
  (L, packFrames w ((List.range (L.toNat / 12)).map fun k => 12 * (N + k)))

/-- One call on a stream of frames, when the first frame that it finds is audible: nothing is
skipped, and the decoder meets a window that holds the request. -/
theorem Exact.call (he : Exact B captured lens N s) (ht : ∀ k, Tagged captured (12 * k))
    (haud : ¬ Silent captured (12 * N)) (ho : Opened B s.handle) (hok : s.pcm.Reliable)
    (hfuel : 2 ≤ fuel) {len : Int} (hg : Guarded s.handle len) {L : Int}
    (hL : L = clampLen s.handle len) (h12 : 12 ≤ L) :
    ∃ n st, speechArrayRead fuel s.handle s.pcm len = (parseTail L st).result ∧
      Window captured (12 * N) n st ∧ L.toNat ≤ n ∧
      (L % 12 = 0 → n % 12 = 0 ∧ 4 * (n : Int) - 4 * L ≤ B) ∧
      SameSetup s.handle st.handle ∧ st.pcm.Reliable := by
  obtain ⟨hr₁, hr₂⟩ := firstReadSize_cases ho.sized L
  set r := firstReadSize s.handle L with hr
  have hclamp : clampLen s.handle len = min len (B / 2) := clampLen_eq ho
  have hwhole := he.whole
  have hbound := he.bound
  have halign := ho.align
  have hBpos := ho.pos
  have hd₀ := ho.dataNonneg
  -- the three regimes of the first fill: nothing, `B` bytes, or the rest of the request
  have hsize : 0 ≤ r ∧ r % 8 = 0 ∧ 4 * L ≤ s.handle.dataSize + r ∧
      (L % 12 = 0 → r % 48 = 0 ∧ s.handle.dataSize + r - 4 * L ≤ B) := by
    by_cases hle : s.handle.dataSize ≤ 4 * L
    · obtain ⟨h₈, hcase⟩ := hr₂ hle
      omega
    · rw [hr₁ (by omega)]
      omega
  set n := (s.handle.dataSize / 4).toNat with hn
  set st := fill (readStart s.handle s.pcm L) with hst
  have hw : Window captured (12 * N) (n + (r / 4).toNat) st :=
    (he.front.start L).fill (hok _) he.front.size (by show r = _; omega) (by show r % 8 = 0; omega)
  -- the first frame in the buffer is a frame of the stream
  have hskip : skipData st.handle.buffer st.availSize = 0 := by
    have hsize := hw.size
    have h₁ := hw.tagged_iff (i := 0) (by omega)
    have h₂ := hw.silent_iff (i := 0) (by omega)
    exact skipData_of_audible (by omega) (h₁.mpr (ht N)) fun h => haud (h₂.mp h)
  refine ⟨n + (r / 4).toNat, st, ?_, hw, by omega, fun h => by omega,
    fill_sameSetup (readStart s.handle s.pcm L), fill_pcm_reliable hok⟩
  exact (speechArrayRead_eq hg hok hfuel hL hr hst hskip.symm).1 le_rfl

/-- Such a call keeps the session exact when the request is a number of whole frames after
the clamp. -/
theorem Exact.step_of_whole (he : Exact B captured lens N s)
    (ht : ∀ k, Tagged captured (12 * k)) (haud : ¬ Silent captured (12 * N))
    (ho : Opened B s.handle) (hok : s.pcm.Reliable) (hfuel : 2 ≤ fuel) {len : Int}
    (hg : Guarded s.handle len) {L : Int} (hL : L = clampLen s.handle len) (h12 : 12 ≤ L)
    (hwhole : L % 12 = 0) :
    ∃ t, s.step fuel len = some t ∧ t.replies = s.replies ++ [nextReply captured N L] ∧
      Exact B captured (lens ++ [len]) (N + L.toNat / 12) t ∧
      Opened B t.handle ∧ t.pcm.Reliable ∧ SameSetup s.handle t.handle := by
  obtain ⟨n, st, hcall, hw, hLn, hn, hset, hokst⟩ := he.call ht haud ho hok hfuel hg hL h12
  obtain ⟨hn₁₂, hnB⟩ := hn hwhole
  obtain ⟨t, hstep, hreplies, hfront, hsetup, hout⟩ :=
    Session.step_of_window hcall hw (by omega) (l := L.toNat) (by omega) (by omega)
  have hpack := hw.packFrames_whole ht hn₁₂ hLn
  -- the words of the request are whole frames, so the decoder meets all of them
  have hcount : (decoded st L.toNat).length = L.toNat / 12 := by
    have := congrArg List.length hpack
    rw [packFrames_length, packFrames_length, List.length_map, List.length_range] at this
    omega
  have hreply : t.replies = s.replies ++ [nextReply captured N L] := by
    have hret : 12 * ((L.toNat / 12 : Nat) : Int) = L := by omega
    rw [hreplies, hpack, hcount, hret, nextReply]
  have hset' := hset.trans hsetup
  have hclamp : L = min len (2 * B / 4) := by
    rw [hL, clampLen_eq ho]
    omega
  have hsize := hfront.size
  refine ⟨t, hstep, hreply, ⟨?_, ?_, ?_, by omega, by omega, ?_⟩, ?_, ?_, hset'⟩
  · rw [hreply, List.map_append, List.map_append, he.returns]
    show _ ++ [L] = _ ++ [min len (2 * B / 4)]
    rw [← hclamp]
  · intro q hq
    rw [hreply, List.mem_append, List.mem_singleton] at hq
    rcases hq with hq | rfl
    · exact he.bytes q hq
    · show 4 * ((packFrames _ _).length : Int) = L
      rw [packFrames_length, List.length_map, List.length_range]
      omega
  · -- what was delivered so far, and the frames of this call
    calc t.output = s.output ++ (nextReply captured N L).2 := by
          rw [Session.output, hreply, List.flatMap_append, List.flatMap_singleton]
          rfl
      _ = packFrames captured ((List.range N).map (fun k => 12 * k) ++
            (List.range (L.toNat / 12)).map fun k => 12 * (N + k)) := by
          rw [he.output, nextReply, packFrames_append]
      _ = packFrames captured ((List.range (N + L.toNat / 12)).map fun k => 12 * k) := by
          rw [List.range_add, List.map_append, List.map_map]
          rfl
  · have hp : 12 * (N + L.toNat / 12) = 12 * N + L.toNat := by omega
    have hn' : (t.handle.dataSize / 4).toNat = n - L.toNat := by omega
    rw [hp, hn']
    exact hfront
  · exact ho.of_sameSetup hset' (by omega) (by omega)
  · intro k
    rw [hout]
    exact hokst k

/-- In particular when it is one already before the clamp. -/
theorem Exact.step (he : Exact B captured lens N s) (ht : ∀ k, Tagged captured (12 * k))
    (haud : ¬ Silent captured (12 * N)) (ho : Opened B s.handle) (hok : s.pcm.Reliable)
    (hfuel : 2 ≤ fuel) {len : Int} (ha : Accepted s.handle len) :
    ∃ t, s.step fuel len = some t ∧
      t.replies = s.replies ++ [nextReply captured N (clampLen s.handle len)] ∧
      Exact B captured (lens ++ [len]) (N + (clampLen s.handle len).toNat / 12) t ∧
      Opened B t.handle ∧ t.pcm.Reliable ∧ SameSetup s.handle t.handle := by
  obtain ⟨hL₀, hL₁₂, -⟩ := clampLen_spec ho ha
  exact he.step_of_whole ht haud ho hok hfuel ha.guarded rfl (by omega) hL₁₂

/-- What the calls after a state that is exact lead to. -/
theorem Exact.run (hc : CleanStream captured) (hfuel : 2 ≤ fuel) (rest : List Int)
    (he : Exact B captured lens N s) (ho : Opened B s.handle) (hok : s.pcm.Reliable)
    (ha : ∀ len ∈ rest, Accepted s.handle len) :
    ∃ t M, Machine.run (Session.step fuel) s rest = some t ∧
      Exact B captured (lens ++ rest) M t := by
  -- on the calls: each delivers the next frames
  induction rest generalizing lens N s with
  | nil => exact ⟨s, N, rfl, by rwa [List.append_nil]⟩
  | cons len rest ih =>
      obtain ⟨t, hstep, -, ht, hot, hokt, hset⟩ :=
        he.step hc.tagged (hc.audible N) ho hok hfuel (ha len (by simp))
      have hat : ∀ len' ∈ rest, Accepted t.handle len' := fun len' hmem =>
        (ha len' (List.mem_cons_of_mem _ hmem)).of_sameSetup hset
      obtain ⟨u, K, hrun, hu⟩ := ih ht hot hokt hat
      refine ⟨u, K, Machine.run_cons_eq_some.mpr ⟨t, hstep, hrun⟩, ?_⟩
      rwa [List.append_assoc, List.singleton_append] at hu

end Step

theorem Session.fresh_exact (config : SpeechArray) {bufferSize : Nat} (heap captured : Nat → Word)
    (hpos : 0 < pcmFramesToBytes bufferSize) :
    Exact (pcmFramesToBytes bufferSize) captured [] 0
      (Session.fresh config bufferSize heap captured fun _ => 0) where
  returns := rfl
  bytes := fun q hq => absurd hq (List.not_mem_nil)
  output := rfl
  whole := rfl
  bound := by
    show (0 : Int) ≤ _
    omega
  front := ⟨rfl, rfl, rfl, holds_zero _ _ _ _⟩

/-- **Clean-stream exactness.** Opened with `buff_size = 2 * B`, `B` any positive multiple of
the frame size, on a device that does not fail and captures nothing but audible frames, any
sequence of calls with positive lengths in whole output frames that the guard accepts runs to
its end, and leaves the session exact. -/
theorem speechArrayRead_clean_exact (config : SpeechArray) (bufferSize : Nat)
    (heap captured : Nat → Word) (fuel : Nat) (lens : List Int)
    (hpos : 0 < pcmFramesToBytes bufferSize) (halign : 48 ∣ pcmFramesToBytes bufferSize)
    (hc : CleanStream captured) (hfuel : 2 ≤ fuel)
    (hlens : ∀ len ∈ lens, Accepted (speechArrayOpen config bufferSize heap) len) :
    ∃ s N, Machine.run (Session.step fuel)
        (Session.fresh config bufferSize heap captured fun _ => 0) lens = some s ∧
      Exact (pcmFramesToBytes bufferSize) captured lens N s :=
  Exact.run hc hfuel lens (Session.fresh_exact config heap captured hpos)
    (speechArrayOpen_opened config heap hpos halign) (fun _ => rfl) hlens

/-! ### A sample stream -/

/-- Frames that carry the numbers 1, 2, 3, 4 on all channels, over and over. -/
def numbered (i : Nat) : Word :=
  BitVec.ofNat 32 (0x10000 * (i / 12 % 4 + 1) + 0x100 * (i % 12 + 1))

theorem numbered_periodic (k j : Nat) (hj : j < 12) :
    numbered (12 * k + j) = numbered (12 * (k % 4) + j) := by
  rw [numbered, numbered, show (12 * k + j) / 12 = k by omega,
    show (12 * (k % 4) + j) / 12 = k % 4 by omega, show (12 * k + j) % 12 = j by omega,
    show (12 * (k % 4) + j) % 12 = j by omega, Nat.mod_mod]

theorem numbered_clean : CleanStream numbered where
  tagged k := by
    have hall : ∀ r, r < 4 → Tagged numbered (12 * r) := by decide
    exact (tagged_congr (numbered_periodic k)).mpr (hall (k % 4) (Nat.mod_lt _ (by omega)))
  audible k := by
    have hall : ∀ r, r < 4 → ¬ Silent numbered (12 * r) := by decide
    rw [silent_congr (numbered_periodic k)]
    exact hall (k % 4) (Nat.mod_lt _ (by omega))

theorem speechArrayRead_clean_exact_numbered :
    ∃ s N, Machine.run (Session.step 2)
        (Session.fresh ⟨6, PCM_FORMAT_S16_LE⟩ 6 (fun _ => 0) numbered fun _ => 0) [12, 48, 24]
          = some s ∧
      Exact 48 numbered [12, 48, 24] N s :=
  speechArrayRead_clean_exact ⟨6, PCM_FORMAT_S16_LE⟩ 6 (fun _ => 0) numbered 2 [12, 48, 24]
    (by decide) (by decide) numbered_clean le_rfl (by decide)

end SpeechStack
