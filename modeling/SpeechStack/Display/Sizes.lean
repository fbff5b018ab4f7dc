import SpeechStack.Display.Variants

set_option autoImplicit false

/-! # The length check

Each of the five encoders computes `spi_send_len` in 32-bit arithmetic, compares it with
`TX_BUF_MAX_LEN`, and then runs its loops on the length it was given. For a length whose size in
bits is `2 ^ 32` or more the check sees what is left of the size, while the loops write all of it.
-/

namespace SpeechStack

/-- The five filling functions. -/
inductive Encoder
  | data
  | data1
  | data2
  | data3
  | data4
  deriving DecidableEq, Repr

/-- `filling_spi_send_display_data`, `_data1`, `_data2`, `_data3` and `_data4`. -/
def Encoder.fill : Encoder → (Nat → Byte) → (Nat → Word) → Nat → Word → Word → SpiSend
  | data => fillingSpiSendDisplayData
  | data1 => fillingSpiSendDisplayData1
  | data2 => fillingSpiSendDisplayData2
  | data3 => fillingSpiSendDisplayData3
  | data4 => fillingSpiSendDisplayData4

/-- The words around the pixels. -/
def Encoder.headWords : Encoder → Nat
  | data => 12
  | _ => 24

/-- The size of a transfer in bits, before it is cut down to 32 bits. -/
def Encoder.bits (e : Encoder) (len : Nat) : Nat := (e.headWords + 4 * len) * 9

/-- When the length check passes, everything is written below `spi_send_len`, and this is no more
than the buffer has. -/
def SpiSend.Within (r : SpiSend) : Prop :=
  r.ok = true → (∀ i ∈ r.buf.written, i < r.sendLen) ∧ r.sendLen ≤ TX_BUF_MAX_LEN

/-- The size fits into 32 bits, or what is left of it fails the check. -/
def Caught (bits : Nat) : Prop :=
  bits < 2 ^ 32 ∨ bits % 2 ^ 32 = 0 ∨ 8 * TX_BUF_MAX_LEN < bits % 2 ^ 32

/-- The check fails on a size that is left as nothing or as too much. -/
theorem check_fails_iff (bits : Nat) :
    (spiSendLen bits = 0 ∨ spiSendLen bits > TX_BUF_MAX_LEN)
      ↔ bits = 0 ∨ 8 * TX_BUF_MAX_LEN < bits := by
  rw [spiSendLen_eq]
  omega

section Check

variable {bits sendLen : Nat} {buf₀ buf : TxBuf}

/-- The check protects the buffer from exactly the sizes it is told. -/
theorem within_iff_caught (hsend : sendLen = spiSendLen (bits % 2 ^ 32))
    (hinside : bits < 2 ^ 32 → sendLen ≤ TX_BUF_MAX_LEN → ∀ i ∈ buf.written, i < sendLen)
    (hbehind : 2 ^ 32 ≤ bits → ∃ i ∈ buf.written, TX_BUF_MAX_LEN ≤ i) :
    SpiSend.Within (if sendLen = 0 ∨ sendLen > TX_BUF_MAX_LEN then ⟨false, sendLen, buf₀⟩
      else ⟨true, sendLen, buf⟩) ↔ Caught bits := by
  have hfails := check_fails_iff (bits % 2 ^ 32)
  rw [← hsend] at hfails
  by_cases hfail : sendLen = 0 ∨ sendLen > TX_BUF_MAX_LEN
  · -- the function returns -1
    rw [if_pos hfail]
    constructor
    · intro _
      exact Or.inr (hfails.mp hfail)
    · intro _ hok
      exact absurd hok Bool.false_ne_true
  · have hroom : sendLen ≤ TX_BUF_MAX_LEN := by omega
    rw [if_neg hfail]
    constructor
    · intro hwithin
      by_contra hcaught
      obtain ⟨hbelow, -⟩ := hwithin rfl
      obtain ⟨i, hi, hmax⟩ := hbehind (Nat.le_of_not_lt fun hwrap => hcaught (Or.inl hwrap))
      have hlt := hbelow i hi
      dsimp only at hlt
      omega
    · rintro (hwrap | hcaught) -
      · exact ⟨hinside hwrap hroom, hroom⟩
      · exact absurd (hfails.mpr hcaught) hfail

end Check

/-- A loop whose rounds only add to the log has in it whatever one round has stored. -/
theorem mem_written_rounds {σ : Type} (written : σ → List Nat) {f : Nat → σ → σ} {i j m : Nat}
    (hlog : ∀ i s, ∀ j ∈ written s, j ∈ written (f i s)) (hi : i < m) (s : σ)
    (hj : j ∈ written (f i ((List.range i).foldl (fun s i => f i s) s))) :
    j ∈ written ((List.range m).foldl (fun s i => f i s) s) := by
  induction m with
  | zero => omega
  | succ m ih =>
      rw [List.range_succ, List.foldl_append, List.foldl_cons, List.foldl_nil]
      by_cases hlast : i = m
      · rwa [← hlast]
      · exact hlog m _ j (ih (by omega))

/-! ## The encoders of eighteen and nine bytes -/

theorem Touches.mono {buf buf' : TxBuf} {n n' : Nat} (h : Touches buf buf' 0 n) (hn : n ≤ n') :
    Touches buf buf' 0 n' where
  old := fun i hi => h.old i (by omega)
  inside := by
    intro i hi
    rcases h.inside i hi with hold | hnew
    · exact Or.inl hold
    · exact Or.inr (by omega)
  log := h.log

theorem touches_clear (cells : Nat → Byte) (n : Nat) :
    Touches ⟨cells, []⟩ (TxBuf.clear ⟨cells, []⟩ n) 0 n where
  old := by
    intro i hi
    show Memory.store cells 0 n (fun _ => 0) i = cells i
    exact Memory.store_outside cells _ hi
  inside := by
    intro i hi
    simp only [TxBuf.clear, List.nil_append, List.mem_range] at hi
    exact Or.inr ⟨Nat.zero_le i, by omega⟩
  log := by
    intro i hi
    exact absurd hi List.not_mem_nil

section FillSpiSend

variable {header : TxBuf → TxBuf} {round : Nat → TxBuf → TxBuf}

/-- What a round of one of the four loops stores: its nine bytes, the last one always, and in one
of them the start of the header. -/
structure NineBytes (round : Nat → TxBuf → TxBuf) : Prop where
  inside : ∀ i b, Touches b (round i b) 0 (18 + 9 * (i + 1))
  last : ∀ i b, 18 + 9 * i + 8 ∈ (round i b).written

/-- The bytes below the end of the last block are all that is stored. -/
theorem NineBytes.touches (hround : NineBytes round) (hheader : ∀ b, Touches b (header b) 0 18)
    (cells : Nat → Byte) {m n : Nat} (hroom : 18 + 9 * m ≤ n) :
    Touches ⟨cells, []⟩ ((List.range m).foldl (fun b i => round i b)
      (header (TxBuf.clear ⟨cells, []⟩ n))) 0 n := by
  have hstart := (touches_clear cells n).trans ((hheader _).mono (by omega))
  apply hstart.trans
  apply Touches.foldl
  intro i hi b
  exact (hround.inside i b).mono (by omega)

theorem NineBytes.last_mem (hround : NineBytes round) {i m : Nat} (hi : i < m) (b : TxBuf) :
    18 + 9 * i + 8 ∈ ((List.range m).foldl (fun b i => round i b) b).written :=
  mem_written_rounds TxBuf.written (fun i b => (hround.inside i b).log) hi b (hround.last i _)

/-- The four variants. -/
theorem NineBytes.within_iff (hround : NineBytes round)
    (hheader : ∀ b, Touches b (header b) 0 18) (cells : Nat → Byte) (len : Nat) :
    (fillSpiSend header round cells len).Within ↔ Caught ((24 + 4 * len) * 9) := by
  have hsize : (16 + len * 4 + 8) * 9 = (24 + 4 * len) * 9 := by ring
  unfold fillSpiSend
  dsimp only
  rw [hsize]
  apply within_iff_caught rfl
  · intro hwrap _ i hi
    have hroom : 18 + 9 * (len / 2) ≤ spiSendLen ((24 + 4 * len) * 9 % 2 ^ 32) := by
      rw [Nat.mod_eq_of_lt hwrap, spiSendLen_eq]
      omega
    rcases (hround.touches hheader cells hroom).inside i hi with hold | hnew
    · exact absurd hold List.not_mem_nil
    · omega
  · intro hwrap
    -- the round of this number writes behind the buffer
    have hrounds : TX_BUF_MAX_LEN < len / 2 := by
      simp only [TX_BUF_MAX_LEN]
      omega
    exact ⟨_, hround.last_mem hrounds _, by omega⟩

end FillSpiSend

theorem nineBytes_packEight (psrc : Nat → Nat → Byte) :
    NineBytes fun i => packEight (psrc i) (18 + 9 * i) where
  inside := by
    intro i b
    exact (((((Touches.refl b 0 _).putU32 (by omega) (by omega)).putU32 (by omega) (by omega)).putU32
      (by omega) (by omega)).putU32 (by omega) (by omega)).put (by omega) (by omega)
  last := fun i b => List.mem_append_right _ (List.mem_singleton.mpr rfl)

theorem nineBytes_packEight1 (psrc : Nat → Nat → Byte) :
    NineBytes fun i => packEight1 (psrc i) i (if i = 0 then 0 else 18 + 9 * i) (18 + 9 * i) where
  inside := by
    intro i b
    have hpbits : (if i = 0 then 0 else 18 + 9 * i) + 8 ≤ 0 + (18 + 9 * (i + 1)) := by
      split <;> omega
    exact ((((Touches.refl b 0 _).putU64 (Nat.zero_le _) hpbits).putU64 (Nat.zero_le _)
      hpbits).putU64 (Nat.zero_le _) hpbits).put (by omega) (by omega)
  last := fun i b => List.mem_append_right _ (List.mem_singleton.mpr rfl)

theorem nineBytes_packEight2 (psrc : Nat → Nat → Byte) :
    NineBytes fun i => packEight2 (psrc i) (18 + 9 * i) where
  inside := by
    intro i b
    exact Touches.foldl (fun k hk b => (Touches.refl b 0 _).put (by omega) (by omega)) b
  last := fun i b => List.mem_append_right _ (List.mem_singleton.mpr rfl)

theorem nineBytes_packEight4 (psrc : Nat → Nat → Byte) :
    NineBytes fun i => packEight4 (psrc i) (18 + 9 * i) where
  inside := by
    intro i b
    exact (((Touches.refl b 0 _).putU32 (by omega) (by omega)).putU32 (by omega) (by omega)).put
      (by omega) (by omega)
  last := fun i b => List.mem_append_right _ (List.mem_singleton.mpr rfl)

/-! ## The plain encoder -/

/-- `f` only adds to the log. -/
def Logs (f : TxBuf × Nat → TxBuf × Nat) : Prop :=
  ∀ s, ∀ i ∈ s.1.written, i ∈ (f s).1.written

section Logs

variable {f g : TxBuf × Nat → TxBuf × Nat}

theorem Logs.comp (hf : Logs f) (hg : Logs g) : Logs fun s => g (f s) :=
  fun s i hi => hg _ i (hf s i hi)

theorem TxBuf.mem_put {buf : TxBuf} {i k : Nat} {v : Byte} (hi : i ∈ buf.written) :
    i ∈ (buf.put k v).written :=
  List.mem_append_left _ hi

theorem mem_writeLcmByte {b : Byte} {p i : Nat} {buf : TxBuf} (hi : i ∈ buf.written) :
    i ∈ (writeLcmByte b p buf).written := by
  unfold writeLcmByte
  dsimp only
  split
  · exact TxBuf.mem_put hi
  · exact TxBuf.mem_put (TxBuf.mem_put hi)

theorem logs_writeLcmCommand (b : Byte) : Logs (writeLcmCommand b) :=
  fun _ _ hi => mem_writeLcmByte hi

theorem logs_writeLcmData (b : Byte) : Logs (writeLcmData b) :=
  fun _ _ hi => mem_writeLcmByte (TxBuf.mem_put hi)

/-- A data word sets its flag in the byte of its position. -/
theorem mem_writeLcmData (b : Byte) (s : TxBuf × Nat) : s.2 / 8 ∈ (writeLcmData b s).1.written :=
  mem_writeLcmByte (List.mem_append_right _ (List.mem_singleton.mpr rfl))

theorem logs_writePixel (pixel : Word) : Logs (writePixel pixel) :=
  (((logs_writeLcmData _).comp (logs_writeLcmData _)).comp (logs_writeLcmData _)).comp
    (logs_writeLcmData _)

/-- A pixel starts in the byte of its position. -/
theorem mem_writePixel (pixel : Word) (s : TxBuf × Nat) :
    s.2 / 8 ∈ (writePixel pixel s).1.written :=
  logs_writeLcmData _ _ _ (logs_writeLcmData _ _ _ (logs_writeLcmData _ _ _ (mem_writeLcmData _ s)))

theorem writePixel_pos (pixel : Word) (s : TxBuf × Nat) :
    (writePixel pixel s).2 = (s.2 + 36) % 2 ^ 32 := by
  simp only [writePixel, writeLcmData]
  omega

theorem writeCoordinate_pos (x : Word) (s : TxBuf × Nat) :
    (writeCoordinate x s).2 = (s.2 + 36) % 2 ^ 32 := by
  simp only [writeCoordinate, writeLcmData, List.range_succ, List.range_zero, List.nil_append,
    List.cons_append, List.foldl_cons, List.foldl_nil]
  omega

/-- The position counts the bits, modulo `2 ^ 32`. -/
theorem writePixels_pos (pBuf : Nat → Word) (m : Nat) (s : TxBuf × Nat) (hs : s.2 < 2 ^ 32) :
    ((List.range m).foldl (fun s i => writePixel (pBuf i) s) s).2 = (s.2 + 36 * m) % 2 ^ 32 := by
  induction m with
  | zero =>
      rw [Nat.mul_zero, Nat.add_zero, Nat.mod_eq_of_lt hs]
      rfl
  | succ m ih =>
      rw [List.range_succ, List.foldl_append, List.foldl_cons, List.foldl_nil, writePixel_pos, ih]
      omega

end Logs

/-- Pixel `i` is stored from the byte `(99 + 36 * i) / 8` on, before the position wraps. -/
theorem mem_writeDisplay (pBuf : Nat → Word) {len i : Nat} (x y : Word) (buf : TxBuf)
    (hi : i < len) (hpos : 99 + 36 * i < 2 ^ 32) :
    (99 + 36 * i) / 8 ∈ (writeDisplay pBuf len x y (buf, 0)).1.written := by
  unfold writeDisplay
  dsimp only
  apply logs_writeLcmCommand
  apply mem_written_rounds (fun s : TxBuf × Nat => s.1.written)
    (fun i => logs_writePixel (pBuf i)) hi
  have hstart : ∀ s : TxBuf × Nat, s.2 = 0 → (writeLcmCommand 0x2C (writeCoordinate y
      (writeLcmCommand 0x2B (writeCoordinate x (writeLcmCommand 0x2A s))))).2 = 99 := by
    intro s hs
    simp only [writeLcmCommand, writeCoordinate_pos, hs]
    rfl
  have hat := writePixels_pos pBuf i _ (by rw [hstart (buf, 0) rfl]; decide)
  rw [hstart (buf, 0) rfl, Nat.mod_eq_of_lt hpos] at hat
  rw [← hat]
  exact mem_writePixel _ _

/-- The plain encoder. -/
theorem fillingSpiSendDisplayData_within_iff (cells : Nat → Byte) (pBuf : Nat → Word) (len : Nat)
    (x y : Word) :
    (fillingSpiSendDisplayData cells pBuf len x y).Within ↔ Caught ((12 + 4 * len) * 9) := by
  have hsize : (12 + len * 4) * 9 = (12 + 4 * len) * 9 := by ring
  unfold fillingSpiSendDisplayData
  dsimp only
  rw [hsize]
  apply within_iff_caught rfl
  · intro hwrap hcheck i hi
    rw [Nat.mod_eq_of_lt hwrap, spiSendLen_eq] at hcheck hi ⊢
    obtain ⟨s, hs, hfilled⟩ := fillingSpiSendDisplayData_filled cells pBuf len x y hwrap hcheck
    unfold fillingSpiSendDisplayData at hs
    dsimp only at hs
    rw [hsize, Nat.mod_eq_of_lt hwrap, spiSendLen_eq, if_neg (by omega)] at hs
    rw [SpiSend.mk.injEq] at hs
    rw [hs.2.2] at hi
    exact hfilled.inside i hi
  · intro hwrap
    -- this pixel is stored behind the buffer
    have hpixel : TX_BUF_MAX_LEN < len := by
      simp only [TX_BUF_MAX_LEN]
      omega
    have hpos : 99 + 36 * TX_BUF_MAX_LEN < 2 ^ 32 := by decide
    exact ⟨_, mem_writeDisplay pBuf x y _ hpixel hpos, by omega⟩

/-! ## All five -/

/-- **The length check protects the transmit buffer** on the sizes that fit into 32 bits and on
those whose remainder fails it, for each of the encoders, and on no other. -/
theorem Encoder.fill_within_iff (e : Encoder) (cells : Nat → Byte) (pBuf : Nat → Word) (len : Nat)
    (x y : Word) : (e.fill cells pBuf len x y).Within ↔ Caught (e.bits len) := by
  cases e with
  | data => exact fillingSpiSendDisplayData_within_iff cells pBuf len x y
  | data1 =>
      exact (nineBytes_packEight1 _).within_iff (touches_fillHeaderWithnop x y) cells len
  | data2 =>
      exact (nineBytes_packEight2 _).within_iff (touches_fillHeaderWithnop x y) cells len
  | data3 =>
      exact (nineBytes_packEight _).within_iff (touches_fillHeaderWithnop1 x y) cells len
  | data4 =>
      exact (nineBytes_packEight4 _).within_iff (touches_fillHeaderWithnop1 x y) cells len

/-- 119304647 pixel words: the check sees 212 bits, and `spi_send_len` is 27. -/
theorem fillingSpiSendDisplayData3_overruns :
    (Encoder.bits .data3 119304647) % 2 ^ 32 = 212 ∧ spiSendLen 212 = 27 ∧
    ¬ (fillingSpiSendDisplayData3 (fun _ => 0) (fun _ => 0xffffffff) 119304647 0 0).Within := by
  refine ⟨by decide, by decide, ?_⟩
  rw [fillingSpiSendDisplayData3_eq, (nineBytes_packEight _).within_iff
    (touches_fillHeaderWithnop1 0 0)]
  simp only [Caught, TX_BUF_MAX_LEN]
  omega

end SpeechStack
