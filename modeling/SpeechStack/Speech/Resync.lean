import SpeechStack.Speech.Bounds
import SpeechStack.Speech.Clean

set_option autoImplicit false

/-! # Streams with junk

`scan` is the reading of a stream that a receiver would like: take a frame where one starts,
step over one word where none does. `SpeechArrayRead` follows it (`Synced`) as long as no call
meets one of the places where it forgets what it holds: `CallClear` lists them. Where a call
does, a frame is lost (`speechArrayRead_loses_frame`).
-/

namespace SpeechStack

open Memory

/-- The positions at which the first `looks` steps of the scan from `p` on take a frame. -/
def scan (w : Nat → Word) : Nat → Nat → List Nat
  | 0, _ => []
  | looks + 1, p =>
      if checkErrorInt32Le w p then scan w looks (p + 1) else p :: scan w looks (p + 12)

/-- The scan takes every frame: it never steps over the start of one. -/
theorem scan_eq_framesFrom (w : Nat → Word) (looks p : Nat) :
    ∃ k, looks ≤ k ∧ scan w looks p = framesFrom w p k := by
  induction looks generalizing p with
  | zero => exact ⟨0, le_rfl, rfl⟩
  | succ looks ih =>
      rw [scan]
      split
      · rename_i hbad
        obtain ⟨k, hk, heq⟩ := ih (p + 1)
        have hnt : ¬ Tagged w p := by
          rw [Tagged, hbad]
          exact Bool.noConfusion
        refine ⟨k + 1, by omega, ?_⟩
        rw [framesFrom_of_not_tagged hnt (by omega), heq, Nat.add_sub_cancel]
      · rename_i hgood
        obtain ⟨k, hk, heq⟩ := ih (p + 12)
        have ht : Tagged w p := by simpa [Tagged] using hgood
        refine ⟨k + 12, by omega, ?_⟩
        rw [framesFrom_of_tagged ht (by omega), heq, Nat.add_sub_cancel]

/-- The frames that start before a position are the first ones that the scan takes. -/
theorem framesFrom_prefix_scan (w : Nat → Word) (p : Nat) :
    framesFrom w 0 p <+: scan w p 0 := by
  obtain ⟨k, hk, heq⟩ := scan_eq_framesFrom w p 0
  obtain ⟨l, rfl⟩ : ∃ l, k = p + l := ⟨k - p, by omega⟩
  rw [heq, framesFrom_add]
  exact List.prefix_append _ _

theorem mem_scan_of_tagged {w : Nat → Word} {p : Nat} (h : Tagged w p) :
    p ∈ scan w (p + 1) 0 := by
  refine (framesFrom_prefix_scan w (p + 1)).subset ?_
  exact mem_framesFrom.mpr ⟨by omega, h⟩

/-! ## The places where a call forgets what it holds -/

/-- The stream position of the first word that the handle holds. -/
def frontPos (h : SpeechArrayHandle) (pcm : Pcm) : Nat := pcm.pos - (h.dataSize / 4).toNat

/-- `n` words of `w` from `p` on, in front of what a buffer held before. -/
def inFrontOf (w : Nat → Word) (p n : Nat) (old : Nat → Word) : Nat → Word :=
  fun i => if i < n then w (p + i) else old i

/-- The bytes that a call for `len` bytes gives to the decoder: those left over and filled in,
less those discarded, plus those of the refill. -/
def heldSize (h : SpeechArrayHandle) (pcm : Pcm) (len : Int) : Int :=
  let r := firstReadSize h len
  let k := firstSkip h pcm len
  if 0 < k then
    h.dataSize + r - k + refillSize h len r (h.dataSize + r - k) k
  else h.dataSize + r

/-- A call for `len` bytes (after the clamp) that forgets nothing, by the state before it. -/
structure CallClear (B : Int) (h : SpeechArrayHandle) (pcm : Pcm) (len : Int) : Prop where
  /-- its fills stay inside the buffer -/
  fits : FillsFit B h pcm len
  /-- the first fill holds a whole frame; or none that starts in its whole-frame part is cut
  by its end, and the words behind do not complete a silent one -/
  skip : ∀ n : Nat, 4 * (n : Int) = h.dataSize + firstReadSize h len →
    (∃ i, i + 12 ≤ n ∧ Tagged pcm.captured (frontPos h pcm + i)) ∨
    ∀ i, i < 12 * (n / 12) → n < i + 12 →
      ¬ Tagged pcm.captured (frontPos h pcm + i) ∧
        (Tagged (firstFill h pcm len) i → ¬ Silent (firstFill h pcm len) i)
  /-- it refills only when nothing was left over, and with whole hardware frames -/
  refill : ∀ r k, r = firstReadSize h len → k = firstSkip h pcm len → 0 < k →
    h.dataSize + r - k < 4 * len →
    h.dataSize = 0 ∧ ¬ (2 * B < h.dataSize + r - k + r ∧ k % 8 = 4)
  /-- no frame that starts in the parse window is cut by the end of what is held, nor
  completed by what lies behind -/
  parse : ∀ p n l : Nat, p = frontPos h pcm + (firstSkip h pcm len / 4).toNat →
    4 * (n : Int) = heldSize h pcm len → l = min len.toNat n →
    ∀ i, i < l → n < i + 12 → ¬ Tagged pcm.captured (p + i) ∧
      (i < 12 * (l / 12) → ¬ Tagged (inFrontOf pcm.captured p n (firstFill h pcm len)) i)

/-! ## The step -/

/-- The session has delivered the packed frames of the stream before position `p`, and holds
the `n` words from there on. -/
structure Synced (w : Nat → Word) (p n : Nat) (s : Session) : Prop where
  front : Front w p n s.handle s.pcm
  output : s.output = packFrames w (framesFrom w 0 p)

theorem Front.frontPos_eq {w : Nat → Word} {p n : Nat} {h : SpeechArrayHandle} {pcm : Pcm}
    (hf : Front w p n h pcm) : frontPos h pcm = p := by
  have hpos := hf.pos
  have hsize := hf.size
  rw [frontPos]
  omega

/-- What `skipData` discards is junk, unless the end of the window misleads it. -/
theorem Window.skipData_junk {w : Nat → Word} {p n : Nat} {st : ReadState}
    (hw : Window w p n st) (hn : 12 ≤ n) (haud : ∀ q, Tagged w q → ¬ Silent w q)
    (hclear : (∃ i, i + 12 ≤ n ∧ Tagged w (p + i)) ∨
      ∀ i, i < 12 * (n / 12) → n < i + 12 →
        ¬ Tagged w (p + i) ∧ (Tagged st.handle.buffer i → ¬ Silent st.handle.buffer i)) :
    ∃ q : Nat, skipData st.handle.buffer st.availSize = 4 * (q : Int) ∧ q ≤ n ∧
      ∀ i, i < q → ¬ Tagged w (p + i) := by
  have hsize := hw.size
  have hwords : windowWords st.availSize = 12 * (n / 12) := by
    rw [windowWords, MINI_SINGLE_SAMPLE_BYTES]
    omega
  have hskip : skipData st.handle.buffer st.availSize
      = 4 * (skipLoop st.handle.buffer (12 * (n / 12)) (12 * (n / 12)) 0 : Int) := by
    rw [skipData, hwords, if_neg (by rw [MINI_SINGLE_SAMPLE_BYTES]; omega)]
  obtain ⟨-, hsilent, hstop⟩ :=
    skipLoop_spec st.handle.buffer (12 * (n / 12)) (12 * (n / 12)) 0 (by omega) (by omega)
  set q := skipLoop st.handle.buffer (12 * (n / 12)) (12 * (n / 12)) 0
  -- a frame that the window holds as a whole stops the loop
  have hheld : ∀ i, i < q → i + 12 ≤ n → ¬ Tagged w (p + i) := by
    intro i hi hin ht
    have hs := hsilent i (Nat.zero_le i) hi ((hw.tagged_iff hin).mpr ht)
    exact haud _ ht ((hw.silent_iff hin).mp hs)
  rcases hclear with ⟨i, hi, ht⟩ | hcut
  · -- no junk word lies behind the frame that is held
    have hqi : q ≤ i := by
      by_contra hlt
      exact hheld i (by omega) hi ht
    exact ⟨q, hskip, by omega, fun j hj => hheld j hj (by omega)⟩
  · -- the loop stays in the window: a silent frame across its end would be cut
    have hqn : q ≤ 12 * (n / 12) := by
      rcases hstop with ⟨hlt, -⟩ | heq | ⟨i, hi, -, hqi, ht, hs⟩
      · omega
      · omega
      · by_cases hin : i + 12 ≤ n
        · exact absurd ((hw.silent_iff hin).mp hs) (haud _ ((hw.tagged_iff hin).mp ht))
        · exact absurd hs ((hcut i hi (by omega)).2 ht)
    refine ⟨q, hskip, by omega, fun i hi => ?_⟩
    by_cases hin : i + 12 ≤ n
    · exact hheld i hi hin
    · exact (hcut i (by omega) (by omega)).1

/-! ## The phases of a clear call -/

/-- Behind the first fill, in a call from `s` with `L` bytes after the clamp: the window holds
`N` words of the stream from `p` on. -/
structure FirstFilled (w : Nat → Word) (p N : Nat) (L : Int) (s : Session) (st : ReadState) :
    Prop where
  window : Window w p N st
  words : 4 * (N : Int) = s.handle.dataSize + firstReadSize s.handle L
  data : st.data = s.handle.dataSize
  buffer : st.handle.buffer = firstFill s.handle s.pcm L
  setup : SameSetup s.handle st.handle
  reliable : st.pcm.Reliable

/-- What the decoder of the call is given: `q` words of junk have been dropped from the front,
the window holds the `m` words behind them, and behind the window is what the first fill left
there. -/
structure Decodes (w : Nat → Word) (p q m : Nat) (L : Int) (s : Session) (st : ReadState) :
    Prop where
  skipped : q = (firstSkip s.handle s.pcm L / 4).toNat
  size : 4 * (m : Int) = heldSize s.handle s.pcm L
  whole : 12 ≤ m
  junk : ∀ i, i < q → ¬ Tagged w (p + i)
  window : Window w (p + q) m st
  buffer : st.handle.buffer = inFrontOf w (p + q) m (firstFill s.handle s.pcm L)
  setup : SameSetup s.handle st.handle
  reliable : st.pcm.Reliable

section Phases

variable {B L : Int} {w : Nat → Word} {p n N q : Nat} {s : Session} {st : ReadState}

theorem Window.buffer_eq {old : Nat → Word} (hw : Window w p n st)
    (hold : ∀ i, n ≤ i → st.handle.buffer i = old i) :
    st.handle.buffer = inFrontOf w p n old := by
  funext i
  rw [inFrontOf]
  split
  · rename_i hi
    have hin := hw.holds i hi
    rwa [Nat.zero_add] at hin
  · rename_i hi
    exact hold i (Nat.le_of_not_lt hi)

theorem Front.firstFilled (hf : Front w p n s.handle s.pcm) (ho : Opened B s.handle)
    (hok : s.pcm.Reliable) (hL : L % 12 = 0) :
    FirstFilled w p (n + (firstReadSize s.handle L / 4).toNat) L s
      (fill (readStart s.handle s.pcm L)) := by
  obtain ⟨hr₀, hr₈, -⟩ := firstReadSize_words ho hL
  have hsize := hf.size
  constructor
  · apply (hf.start L).fill (hok _) hsize _ hr₈
    show firstReadSize s.handle L = _
    omega
  · push_cast
    omega
  · exact fill_data _
  · exact fill_buffer (hok _)
  · exact fill_sameSetup (readStart s.handle s.pcm L)
  · exact fill_pcm_reliable hok

/-- The skip looks at the window of the first fill. -/
theorem FirstFilled.firstSkip_eq (h : FirstFilled w p N L s st) :
    firstSkip s.handle s.pcm L = skipData st.handle.buffer st.availSize := by
  rw [h.buffer, h.window.size, h.words, firstSkip]

/-- Nothing is dropped: the decoder is given what the first fill left. -/
theorem FirstFilled.decodes (h : FirstFilled w p N L s st)
    (hskip : firstSkip s.handle s.pcm L = 0) (hN : 12 ≤ N) : Decodes w p 0 N L s st where
  skipped := by rw [hskip]; rfl
  size := by rw [heldSize, hskip, if_neg (lt_irrefl 0), h.words]
  whole := hN
  junk := fun i hi => absurd hi (Nat.not_lt_zero i)
  window := h.window
  buffer := h.window.buffer_eq fun i _ => congrFun h.buffer i
  setup := h.setup
  reliable := h.reliable

/-- The shift leaves the words behind the window in their places. -/
theorem FirstFilled.dropSkipped_buffer (h : FirstFilled w p N L s st) (r : Int) {i : Nat}
    (hi : N - q ≤ i) :
    (dropSkipped L r (4 * q) st).handle.buffer i = firstFill s.handle s.pcm L i := by
  have hsize := h.window.size
  show memmove st.handle.buffer 0 (4 * (q : Int) / 4).toNat ((st.availSize - 4 * q) / 4).toNat i = _
  -- the move writes into the first words only
  rw [memmove, store_outside _ _ (Or.inr (by omega)), h.buffer]

theorem FirstFilled.dropSkipped_readBytes (h : FirstFilled w p N L s st) (r : Int) :
    (dropSkipped L r (4 * q) st).readBytes
      = refillSize s.handle L r (4 * (N : Int) - 4 * q) (4 * q) := by
  show refillSize st.handle L r (st.availSize - 4 * q) (4 * q) = _
  rw [refillSize_congr h.setup, h.window.size]

theorem FirstFilled.held (h : FirstFilled w p N L s st)
    (hskip : firstSkip s.handle s.pcm L = 4 * q) (hq₀ : 0 < q) :
    heldSize s.handle s.pcm L = 4 * (N : Int) - 4 * q +
      (dropSkipped L (firstReadSize s.handle L) (4 * q) st).readBytes := by
  rw [heldSize, hskip, if_pos (by omega), h.dropSkipped_readBytes, h.words]

/-- Enough is left without a refill. -/
theorem FirstFilled.decodes_kept (h : FirstFilled w p N L s st)
    (hskip : firstSkip s.handle s.pcm L = 4 * q) (hq₀ : 0 < q) (hqN : q ≤ N)
    (hjunk : ∀ i, i < q → ¬ Tagged w (p + i)) (hL : 12 ≤ L)
    (henough : 4 * L ≤ 4 * (N : Int) - 4 * q) :
    Decodes w p q (N - q) L s (fill (dropSkipped L (firstReadSize s.handle L) (4 * q) st)) := by
  have hzero : (dropSkipped L (firstReadSize s.handle L) (4 * q) st).readBytes = 0 := by
    rw [h.dropSkipped_readBytes, refillSize_of_le henough]
  have hdrop := h.window.dropSkipped hqN L (firstReadSize s.handle L)
  rw [fill_eq_self hzero]
  refine ⟨by omega, ?_, by omega, hjunk, hdrop, ?_, h.setup.trans ⟨rfl, rfl, rfl, rfl⟩, h.reliable⟩
  · rw [h.held hskip hq₀, hzero]
    omega
  · exact hdrop.buffer_eq fun i hi => h.dropSkipped_buffer _ hi

/-- The refill of a clear call asks for whole hardware frames, and for a whole frame at
least. -/
theorem CallClear.refill_size (hclear : CallClear B s.handle s.pcm L) (ho : Opened B s.handle)
    (hL₁₂ : L % 12 = 0) (hL : 2 * L ≤ B) (h : FirstFilled w p N L s st)
    (hskip : firstSkip s.handle s.pcm L = 4 * q) (hq₀ : 0 < q) (hqN : q ≤ N)
    (hmore : 4 * (N : Int) - 4 * q < 4 * L) :
    s.handle.dataSize = 0 ∧
      0 < (dropSkipped L (firstReadSize s.handle L) (4 * q) st).readBytes ∧
      (dropSkipped L (firstReadSize s.handle L) (4 * q) st).readBytes % 8 = 0 ∧
      48 ≤ 4 * (N : Int) - 4 * q +
        (dropSkipped L (firstReadSize s.handle L) (4 * q) st).readBytes := by
  obtain ⟨-, hr₈, -⟩ := firstReadSize_words ho hL₁₂
  have hpos := ho.pos
  have halign := ho.align
  obtain ⟨hd₀, hodd⟩ := hclear.refill _ _ rfl hskip.symm (by omega) (by rw [← h.words]; exact hmore)
  rw [← h.words] at hodd
  obtain ⟨hclamp, hfree⟩ := refillSize_spec ho (s := 4 * q) hmore hr₈
  rw [h.dropSkipped_readBytes]
  refine ⟨hd₀, ?_⟩
  by_cases hbig : 2 * B < 4 * (N : Int) - 4 * q + firstReadSize s.handle L
  · -- cut by the clamp: what is free is whole hardware frames, as an even number was dropped
    rw [hclamp hbig]
    have heven : 4 * (q : Int) % 8 ≠ 4 := fun h => hodd ⟨hbig, h⟩
    have hwords := h.words
    omega
  · -- not cut: at least `B` bytes, in whole hardware frames
    rw [hfree (by omega)]
    have hfill : B ≤ max (4 * (q : Int) - 4 * q % 8 + 8) B := le_max_right _ _
    have hround : max (4 * (q : Int) - 4 * q % 8 + 8) B % 8 = 0 := by omega
    omega

/-- The refill goes on behind the window, since nothing was left over. -/
theorem FirstFilled.decodes_refilled (h : FirstFilled w p N L s st) (ho : Opened B s.handle)
    (hL₁₂ : L % 12 = 0) (hL : 2 * L ≤ B) (hclear : CallClear B s.handle s.pcm L)
    (hskip : firstSkip s.handle s.pcm L = 4 * q) (hq₀ : 0 < q) (hqN : q ≤ N)
    (hjunk : ∀ i, i < q → ¬ Tagged w (p + i)) (hmore : 4 * (N : Int) - 4 * q < 4 * L) :
    ∃ m, Decodes w p q m L s (fill (dropSkipped L (firstReadSize s.handle L) (4 * q) st)) := by
  obtain ⟨hd₀, hpos, h₈, hwhole⟩ := hclear.refill_size ho hL₁₂ hL h hskip hq₀ hqN hmore
  have hheld := h.held hskip hq₀
  have hsetup : SameSetup s.handle
      (dropSkipped L (firstReadSize s.handle L) (4 * q) st).handle :=
    h.setup.trans ⟨rfl, rfl, rfl, rfl⟩
  have hok : (dropSkipped L (firstReadSize s.handle L) (4 * q) st).pcm.Reliable := h.reliable
  have hdrop := h.window.dropSkipped hqN L (firstReadSize s.handle L)
  have hold := fun i hi =>
    h.dropSkipped_buffer (q := q) (firstReadSize s.handle L) (i := i) hi
  have hdata : (dropSkipped L (firstReadSize s.handle L) (4 * q) st).data
      = 4 * ((N - q : Nat) : Int) := by
    show st.data + st.availSize - 4 * q = _
    rw [h.data, h.window.size]
    omega
  -- from here on only what is known about the state counts
  generalize dropSkipped L (firstReadSize s.handle L) (4 * q) st = st₂ at *
  have hwin := hdrop.fill (hok _) hdata (k := (st₂.readBytes / 4).toNat) (by omega) h₈
  refine ⟨N - q + (st₂.readBytes / 4).toNat, by omega, by omega, by omega, hjunk, hwin, ?_,
    hsetup.trans (fill_sameSetup st₂), fill_pcm_reliable hok⟩
  apply hwin.buffer_eq
  intro i hi
  -- behind the refill the buffer is as the shift has left it
  rw [fill_buffer (hok _), store_outside _ _ (Or.inr ?_), hold i (by omega)]
  rw [pcmWords_eq]
  omega

end Phases

/-! ## Calls -/

section Step

variable {B len : Int} {w : Nat → Word} {p n fuel : Nat} {s t : Session}

/-- The state from which a clear call decodes. -/
theorem Synced.decodeState (hs : Synced w p n s) (haud : ∀ q, Tagged w q → ¬ Silent w q)
    (ho : Opened B s.handle) (hok : s.pcm.Reliable) (hfuel : 2 ≤ fuel)
    (ha : Accepted s.handle len) {L : Int} (hL : L = clampLen s.handle len)
    (hclear : CallClear B s.handle s.pcm L) :
    ∃ (st : ReadState) (q m : Nat), Decodes w p q m L s st ∧
      speechArrayRead fuel s.handle s.pcm len = (parseTail L st).result := by
  obtain ⟨hL₀, hL₁₂, hL₂⟩ := clampLen_spec ho ha
  rw [← hL] at hL₀ hL₁₂ hL₂
  obtain ⟨hr₀, hr₈, hrL⟩ := firstReadSize_words ho hL₁₂
  have hfill := hs.front.firstFilled ho hok hL₁₂
  obtain ⟨N, hN⟩ : ∃ N, n + (firstReadSize s.handle L / 4).toNat = N := ⟨_, rfl⟩
  rw [hN] at hfill
  have hwords := hfill.words
  have hN₁₂ : 12 ≤ N := by omega
  -- the skip drops junk
  obtain ⟨q, hq, hqN, hjunk⟩ := hfill.window.skipData_junk hN₁₂ haud (by
    rw [hfill.buffer, ← hs.front.frontPos_eq, ← hs.front.captured]
    exact hclear.skip N hwords)
  rw [← hfill.firstSkip_eq] at hq
  obtain ⟨hA, -, hD⟩ :=
    speechArrayRead_eq ha.guarded hok hfuel hL rfl rfl hfill.firstSkip_eq
  rw [hq, hfill.window.size] at hD
  rcases Nat.eq_zero_or_pos q with rfl | hq₀
  · exact ⟨_, 0, N, hfill.decodes hq hN₁₂, hA (by omega)⟩
  · by_cases hmore : 4 * (N : Int) - 4 * q < 4 * L
    · obtain ⟨m, hm⟩ :=
        hfill.decodes_refilled ho hL₁₂ hL₂ hclear hq hq₀ hqN hjunk hmore
      exact ⟨_, q, m, hm, hD (by omega) (by omega)⟩
    · exact ⟨_, q, N - q, hfill.decodes_kept hq hq₀ hqN hjunk (by omega) (by omega),
        hD (by omega) (by omega)⟩

/-- A clear call delivers the frames that it passes. -/
theorem Synced.step (hs : Synced w p n s) (haud : ∀ q, Tagged w q → ¬ Silent w q)
    (ho : Opened B s.handle) (hok : s.pcm.Reliable) (hfuel : 2 ≤ fuel)
    (ha : Accepted s.handle len)
    (hclear : CallClear B s.handle s.pcm (clampLen s.handle len)) :
    ∃ (t : Session) (p' n' : Nat), s.step fuel len = some t ∧ Synced w p' n' t ∧ Opened B t.handle ∧
      t.pcm.Reliable ∧ SameSetup s.handle t.handle := by
  obtain ⟨hL₀, hL₁₂, hL₂⟩ := clampLen_spec ho ha
  obtain ⟨st, q, m, hdec, hcall⟩ := hs.decodeState haud ho hok hfuel ha rfl hclear
  obtain ⟨hq, hm, h12, hjunk, hw, hbuf, hset, hokst⟩ := hdec
  set L := clampLen s.handle len with hL
  set l := min L.toNat m with hl
  obtain ⟨t, hstep, hreplies, hfront, hsetup, hout⟩ :=
    Session.step_of_window hcall hw (by omega) hl (by omega)
  have hcut := hclear.parse (p + q) m l (by rw [hs.front.frontPos_eq, hq]) hm hl
  rw [hs.front.captured, ← hbuf] at hcut
  -- no frame is cut by the end of the window, so the decoder sees those of the stream
  have hpack : packFrames st.handle.buffer (decoded st l)
      = packFrames w (framesFrom w (p + q) l) := by
    -- none starts in the words that do not make a whole frame
    have hrest : framesFrom w (p + q + 12 * (l / 12)) (l - 12 * (l / 12)) = [] := by
      refine framesFrom_eq_nil fun i hi => ?_
      have := (hcut (12 * (l / 12) + i) (by omega) (by omega)).1
      rwa [← Nat.add_assoc] at this
    have hsplit : framesFrom w (p + q) l = framesFrom w (p + q) (12 * (l / 12)) := by
      obtain ⟨k, hk⟩ : ∃ k, l = 12 * (l / 12) + k := ⟨l - 12 * (l / 12), by omega⟩
      rw [show l - 12 * (l / 12) = k by omega] at hrest
      conv_lhs => rw [hk]
      rw [framesFrom_add, hrest, List.append_nil]
    rw [hsplit]
    exact hw.packFrames_decoded fun i hi hlt =>
      ⟨(hcut i (by omega) hlt).2 hi, (hcut i (by omega) hlt).1⟩
  have hsize := hfront.size
  have hset' := hset.trans hsetup
  refine ⟨t, p + q + l, m - l, hstep, ⟨hfront, ?_⟩,
    ho.of_sameSetup hset' (by omega) (by omega), fun k => by rw [hout]; exact hokst k, hset'⟩
  -- the frames before, none in the junk, and those of this call
  calc t.output = s.output ++ packFrames st.handle.buffer (decoded st l) := by
        rw [Session.output, hreplies, List.flatMap_append, List.flatMap_singleton]
        rfl
    _ = packFrames w (framesFrom w 0 p ++ framesFrom w p q ++ framesFrom w (p + q) l) := by
        rw [hs.output, hpack, framesFrom_eq_nil hjunk, List.append_nil, packFrames_append]
    _ = packFrames w (framesFrom w 0 (p + q + l)) := by
        rw [framesFrom_add w 0 (p + q) l, framesFrom_add w 0 p q, Nat.zero_add, Nat.zero_add]

/-- What a run of clear calls leads to. -/
theorem Synced.run (haud : ∀ q, Tagged w q → ¬ Silent w q) (hfuel : 2 ≤ fuel) (lens : List Int)
    (hs : Synced w p n s) (ho : Opened B s.handle) (hok : s.pcm.Reliable)
    (ha : ∀ len ∈ lens, Accepted s.handle len)
    (hclear : Machine.Meets (Session.step fuel)
      (fun s len => CallClear B s.handle s.pcm (clampLen s.handle len)) s lens) :
    ∃ (t : Session) (p' n' : Nat), Machine.run (Session.step fuel) s lens = some t ∧
      Synced w p' n' t := by
  -- on the calls: each moves the position in the stream on
  induction lens generalizing p n s with
  | nil => exact ⟨s, p, n, rfl, hs⟩
  | cons len lens ih =>
      obtain ⟨t, p', n', hstep, ht, hot, hokt, hset⟩ :=
        hs.step haud ho hok hfuel (ha len (by simp)) hclear.1
      have hat : ∀ len' ∈ lens, Accepted t.handle len' := fun len' hmem =>
        (ha len' (List.mem_cons_of_mem _ hmem)).of_sameSetup hset
      obtain ⟨u, p'', n'', hrun, hu⟩ := ih ht hot hokt hat (hclear.2 t hstep)
      exact ⟨u, p'', n'', Machine.run_cons_eq_some.mpr ⟨t, hstep, hrun⟩, hu⟩

end Step

/-- Every frame that the scan emits carries sound. -/
def AudibleScan (w : Nat → Word) : Prop := ∀ looks, ∀ p ∈ scan w looks 0, ¬ Silent w p

/-- **Resynchronisation.** On a stream whose frames are all audible, with junk words anywhere
between them, a run of calls that are all clear runs to its end and delivers a prefix of the
frames of the scan, each as it was captured. -/
theorem speechArrayRead_resync (config : SpeechArray) (bufferSize : Nat)
    (heap captured : Nat → Word) (fuel : Nat) (lens : List Int)
    (hpos : 0 < pcmFramesToBytes bufferSize) (halign : 48 ∣ pcmFramesToBytes bufferSize)
    (hfuel : 2 ≤ fuel) (haud : AudibleScan captured)
    (hlens : ∀ len ∈ lens, Accepted (speechArrayOpen config bufferSize heap) len)
    (hclear : Machine.Meets (Session.step fuel)
      (fun s len => CallClear (pcmFramesToBytes bufferSize) s.handle s.pcm
        (clampLen s.handle len))
      (Session.fresh config bufferSize heap captured fun _ => 0) lens) :
    ∃ s, Machine.run (Session.step fuel)
        (Session.fresh config bufferSize heap captured fun _ => 0) lens = some s ∧
      ∃ looks, s.output <+: packFrames captured (scan captured looks 0) := by
  have hstart : Synced captured 0 0 (Session.fresh config bufferSize heap captured fun _ => 0) :=
    ⟨⟨rfl, rfl, rfl, holds_zero _ _ _ _⟩, rfl⟩
  obtain ⟨s, p, n, hrun, hs⟩ := Synced.run
    (fun q ht => haud (q + 1) q (mem_scan_of_tagged ht)) hfuel lens hstart
    (speechArrayOpen_opened config heap hpos halign) (fun _ => rfl) hlens hclear
  refine ⟨s, hrun, p, ?_⟩
  rw [hs.output]
  obtain ⟨rest, hrest⟩ := framesFrom_prefix_scan captured p
  exact ⟨packFrames captured rest, by rw [← hrest, packFrames_append]⟩

/-! ### A stream that starts with junk -/

/-- `k` zero words, then `w`. -/
def delayed (k : Nat) (w : Nat → Word) (i : Nat) : Word := if i < k then 0 else w (i - k)

theorem delayed_add (k : Nat) (w : Nat → Word) (i : Nat) : delayed k w (k + i) = w i := by
  rw [delayed, if_neg (by omega), Nat.add_sub_cancel_left]

/-- Delaying a clean stream adds no frame. -/
theorem delayed_audibleScan {k : Nat} {w : Nat → Word} (hc : CleanStream w) :
    AudibleScan (delayed k w) := by
  intro looks p hp
  obtain ⟨m, -, hm⟩ := scan_eq_framesFrom (delayed k w) looks 0
  rw [hm] at hp
  obtain ⟨-, ht⟩ := mem_framesFrom.mp hp
  -- a frame does not start with a zero word
  by_cases hpk : p < k
  · have hzero : delayed k w p = 0 := if_pos hpk
    have hfirst := ht.first
    rw [hzero] at hfirst
    exact absurd hfirst (by decide)
  · obtain ⟨i, rfl⟩ : ∃ i, p = k + i := ⟨p - k, by omega⟩
    have hsame : ∀ j, j < 12 → delayed k w (k + i + j) = w (i + j) := fun j _ => by
      rw [Nat.add_assoc, delayed_add]
    obtain ⟨c, rfl⟩ := ((tagged_congr hsame).mp ht).dvd_of_tagged_stream hc.tagged rfl
    rw [silent_congr hsame]
    exact hc.audible c

/-- One junk word in front, `B = 48`: the first fill ends inside the first frame, all of it
is discarded, and the call delivers the second frame. -/
theorem speechArrayRead_loses_frame :
    AudibleScan (delayed 1 numbered) ∧
    Accepted (speechArrayOpen ⟨6, PCM_FORMAT_S16_LE⟩ 6 fun _ => 0) 12 ∧
    ∃ s, Machine.run (Session.step 2)
        (Session.fresh ⟨6, PCM_FORMAT_S16_LE⟩ 6 (fun _ => 0) (delayed 1 numbered) fun _ => 0)
          [12] = some s ∧
      ¬ ∃ looks, s.output <+: packFrames (delayed 1 numbered)
        (scan (delayed 1 numbered) looks 0) := by
  have hrun : (Machine.run (Session.step 2)
      (Session.fresh ⟨6, PCM_FORMAT_S16_LE⟩ 6 (fun _ => 0) (delayed 1 numbered) fun _ => 0)
        [12]).map Session.output = some (packFrame (delayed 1 numbered) 13) := by decide
  obtain ⟨s, hs, hout⟩ := Option.map_eq_some_iff.mp hrun
  refine ⟨delayed_audibleScan numbered_clean,
    by decide, s, hs, ?_⟩
  rintro ⟨looks, hprefix⟩
  rw [hout] at hprefix
  match looks with
  | 0 => exact absurd hprefix.length_le (by decide)
  | 1 => exact absurd hprefix.length_le (by decide)
  | looks + 2 =>
      -- the scan steps over the junk word and takes the frame behind it
      have hfirst : scan (delayed 1 numbered) (looks + 2) 0
          = 1 :: scan (delayed 1 numbered) looks 13 := rfl
      rw [hfirst, packFrames_cons] at hprefix
      exact absurd (List.cons_prefix_cons.mp hprefix).1 (by decide)

/-- Twelve junk words in front, and a request that fills the buffer: the call discards them
and refills behind what is left, as much as is free. -/
theorem callClear_delayed :
    CallClear 48 (speechArrayOpen ⟨6, PCM_FORMAT_S16_LE⟩ 6 fun _ => 0)
      ⟨delayed 12 numbered, fun _ => 0, 0, 0⟩ 24 where
  fits := ⟨by decide, by rintro d r k rfl rfl rfl - - -; decide⟩
  skip := by
    intro n hn
    have hr : (speechArrayOpen ⟨6, PCM_FORMAT_S16_LE⟩ 6 fun _ => 0).dataSize
        + firstReadSize (speechArrayOpen ⟨6, PCM_FORMAT_S16_LE⟩ 6 fun _ => 0) 24 = 96 := by
      decide
    exact Or.inl ⟨12, by omega, by decide⟩
  refill := by
    rintro r k rfl rfl - -
    decide
  parse := by
    rintro p n l rfl hn rfl
    have hheld : heldSize (speechArrayOpen ⟨6, PCM_FORMAT_S16_LE⟩ 6 fun _ => 0)
        ⟨delayed 12 numbered, fun _ => 0, 0, 0⟩ 24 = 96 := by decide
    obtain rfl : n = 24 := by omega
    decide

theorem speechArrayRead_resync_delayed :
    ∃ s, Machine.run (Session.step 2)
        (Session.fresh ⟨6, PCM_FORMAT_S16_LE⟩ 6 (fun _ => 0) (delayed 12 numbered) fun _ => 0)
          [24] = some s ∧
      ∃ looks, s.output <+: packFrames (delayed 12 numbered)
        (scan (delayed 12 numbered) looks 0) :=
  speechArrayRead_resync ⟨6, PCM_FORMAT_S16_LE⟩ 6 (fun _ => 0) (delayed 12 numbered) 2 [24]
    (by decide) (by decide) le_rfl (delayed_audibleScan numbered_clean) (by decide)
    ⟨callClear_delayed, fun _ _ => trivial⟩

end SpeechStack
