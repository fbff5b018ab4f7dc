import SpeechStack.Display.Variants

set_option autoImplicit false

/-! # Block by block

The payload of the encoders with a header of eighteen bytes is made of blocks of nine bytes,
each stored by one round of the loop and computed from eight bytes of pixels. Two such buffers
agree behind the header exactly when their blocks do. The byte expressions of
`filling_spi_send_display_data2` are the swapped words of `_data3` for all pixels. The words of
`_data4`, which are built in memory order, are not: a shift loses two bits of one byte, and a
mask the lowest bit of another.
-/

namespace SpeechStack

open Memory Bits

/-! ## Rounds -/

section Rounds

variable {f : Nat → TxBuf → TxBuf} {blk : Nat → List Byte}

/-- Rounds that store one block each leave the blocks one behind the other. -/
theorem rounds_cells (hf : ∀ i b, Stored b (f i b) (18 + 9 * i) (blk i))
    (hlen : ∀ i, (blk i).length = 9) (m : Nat) (buf : TxBuf) (k : Nat) :
    ((List.range m).foldl (fun b i => f i b) buf).cells k =
      if 18 ≤ k ∧ k < 18 + 9 * m then (blk ((k - 18) / 9)).getD ((k - 18) % 9) 0
      else buf.cells k := by
  induction m with
  | zero => rw [if_neg (by omega)]; rfl
  | succ m ih =>
      rw [List.range_succ, List.foldl_append, List.foldl_cons, List.foldl_nil]
      have hround := hf m ((List.range m).foldl (fun b i => f i b) buf)
      by_cases hin : 18 + 9 * m ≤ k ∧ k < 18 + 9 * m + 9
      · -- a byte of the last block
        have hnew := hround.new (k - (18 + 9 * m)) (by rw [hlen]; omega)
        have hquot : (k - 18) / 9 = m := by omega
        have hrem : (k - 18) % 9 = k - (18 + 9 * m) := by omega
        rw [Nat.add_sub_cancel' hin.1] at hnew
        rw [hnew, if_pos (by omega), hquot, hrem]
      · rw [hround.old k (by rw [hlen]; omega), ih]
        by_cases hbefore : 18 ≤ k ∧ k < 18 + 9 * m
        · rw [if_pos hbefore, if_pos (by omega)]
        · rw [if_neg hbefore, if_neg (by omega)]

end Rounds

/-- A transfer whose size does not wrap and passes the check. -/
theorem fillSpiSend_eq {header : TxBuf → TxBuf} {round : Nat → TxBuf → TxBuf}
    {cells : Nat → Byte} {len : Nat} (hwrap : (24 + 4 * len) * 9 < 2 ^ 32)
    (hcheck : ((24 + 4 * len) * 9 + 7) / 8 ≤ TX_BUF_MAX_LEN) :
    fillSpiSend header round cells len = ⟨true, ((24 + 4 * len) * 9 + 7) / 8,
      (List.range (len / 2)).foldl (fun buf i => round i buf)
        (header (TxBuf.clear ⟨cells, []⟩ (((24 + 4 * len) * 9 + 7) / 8)))⟩ := by
  have hsize : (16 + len * 4 + 8) * 9 = (24 + 4 * len) * 9 := by ring
  unfold fillSpiSend
  dsimp only
  rw [hsize, Nat.mod_eq_of_lt hwrap, spiSendLen_eq, if_neg (by omega)]

theorem clear_cells (cells : Nat → Byte) {n k : Nat} (hk : k < n) :
    (TxBuf.clear ⟨cells, []⟩ n).cells k = 0 := by
  show memset cells 0 n 0 k = 0
  rw [memset, store_inside _ _ (Nat.zero_le k) (by omega)]

/-- Two transfers leave the same bytes from byte `lo` on. -/
structure SpiSend.AgreeFrom (lo : Nat) (r r' : SpiSend) : Prop where
  ok : r.ok = true ∧ r'.ok = true
  sendLen : r.sendLen = r'.sendLen
  bytes : ∀ k, lo ≤ k → k < r'.sendLen → r.buf.cells k = r'.buf.cells k

section Agree

variable {header header' : TxBuf → TxBuf} {f f' : Nat → TxBuf → TxBuf}
  {len lo : Nat}

/-- Two encoders agree when their headers and blocks do. -/
theorem agreeFrom_iff (cells cells' : Nat → Byte) (blk blk' : Nat → List Byte)
    (hwrap : (24 + 4 * len) * 9 < 2 ^ 32)
    (hcheck : ((24 + 4 * len) * 9 + 7) / 8 ≤ TX_BUF_MAX_LEN)
    (hhead : ∀ b, Touches b (header b) 0 18) (hhead' : ∀ b, Touches b (header' b) 0 18)
    (hf : ∀ i b, Stored b (f i b) (18 + 9 * i) (blk i)) (hlen : ∀ i, (blk i).length = 9)
    (hf' : ∀ i b, Stored b (f' i b) (18 + 9 * i) (blk' i)) (hlen' : ∀ i, (blk' i).length = 9)
    (hlo : lo ≤ 18)
    (hsame : ∀ n k, lo ≤ k → k < 18 → (header (TxBuf.clear ⟨cells, []⟩ n)).cells k
      = (header' (TxBuf.clear ⟨cells', []⟩ n)).cells k) :
    SpiSend.AgreeFrom lo (fillSpiSend header f cells len) (fillSpiSend header' f' cells' len) ↔
      ∀ i, i < len / 2 → blk i = blk' i := by
  rw [fillSpiSend_eq hwrap hcheck, fillSpiSend_eq hwrap hcheck]
  set n := ((24 + 4 * len) * 9 + 7) / 8 with hn
  constructor
  · intro hagree i hi
    apply List.ext_getElem (by rw [hlen, hlen'])
    intro j hj hj'
    rw [hlen] at hj
    -- byte `j` of block `i`
    have hbyte := hagree.bytes (18 + 9 * i + j) (by omega) (by show _ < n; omega)
    dsimp only at hbyte
    have hquot : (18 + 9 * i + j - 18) / 9 = i := by omega
    have hrem : (18 + 9 * i + j - 18) % 9 = j := by omega
    rw [rounds_cells hf hlen, rounds_cells hf' hlen', if_pos (by omega), if_pos (by omega), hquot,
      hrem] at hbyte
    rwa [List.getD_eq_getElem _ _ (by rw [hlen]; exact hj),
      List.getD_eq_getElem _ _ (by rw [hlen']; exact hj)] at hbyte
  · intro hblocks
    refine ⟨⟨rfl, rfl⟩, rfl, fun k hk hkn => ?_⟩
    dsimp only at hkn ⊢
    rw [rounds_cells hf hlen, rounds_cells hf' hlen']
    by_cases hin : 18 ≤ k ∧ k < 18 + 9 * (len / 2)
    · rw [if_pos hin, if_pos hin, hblocks _ (by omega)]
    · rw [if_neg hin, if_neg hin]
      by_cases hhd : k < 18
      · exact hsame n k hk hhd
      · -- behind the payload both are as `memset` has left them
        rw [(hhead _).old k (by omega), (hhead' _).old k (by omega), clear_cells cells hkn,
          clear_cells cells' hkn]

end Agree

/-! ## The blocks -/

/-- The block of `filling_spi_send_display_data3`. -/
def swappedBlock (psrc : Nat → Byte) : List Byte :=
  blockBytes (packedLo psrc) (packedHi psrc) (psrc 6)

/-- The block of `filling_spi_send_display_data4`. -/
def memoryBlock (psrc : Nat → Byte) : List Byte :=
  [byteOf (memoryLo psrc) 0, byteOf (memoryLo psrc) 1, byteOf (memoryLo psrc) 2,
    byteOf (memoryLo psrc) 3, byteOf (memoryHi psrc) 0, byteOf (memoryHi psrc) 1,
    byteOf (memoryHi psrc) 2, byteOf (memoryHi psrc) 3, psrc 6]

theorem stored_packEight (psrc : Nat → Byte) (d : Nat) (buf : TxBuf) :
    Stored buf (packEight psrc d buf) d (swappedBlock psrc) := stored_swapped buf d _ _ _

/-- `n` bytes stored one after the other. -/
theorem TxBuf.puts_cells (f : Nat → Byte) (i n k : Nat) (buf : TxBuf) :
    ((List.range n).foldl (fun b j => b.put (i + j) (f j)) buf).cells k =
      if i ≤ k ∧ k < i + n then f (k - i) else buf.cells k := by
  induction n with
  | zero =>
      rw [if_neg (by omega)]
      rfl
  | succ n ih =>
      rw [List.range_succ, List.foldl_append, List.foldl_cons, List.foldl_nil, TxBuf.put_cells, ih]
      -- the last store, or one before
      by_cases hlast : k = i + n
      · rw [if_pos hlast, if_pos (by omega), hlast, Nat.add_sub_cancel_left]
      · rw [if_neg hlast]
        by_cases hin : i ≤ k ∧ k < i + n
        · rw [if_pos hin, if_pos (by omega)]
        · rw [if_neg hin, if_neg (by omega)]

theorem stored_puts (bytes : List Byte) (d : Nat) (buf : TxBuf) :
    Stored buf ((List.range bytes.length).foldl
      (fun b k => b.put (d + k) (bytes.getD k 0)) buf) d bytes := by
  have htouch : Touches buf ((List.range bytes.length).foldl
      (fun b k => b.put (d + k) (bytes.getD k 0)) buf) d bytes.length :=
    Touches.foldl (fun k hk b => (Touches.refl b d _).put (by omega) (by omega)) buf
  refine ⟨fun j hj => ?_, htouch.old, htouch.inside⟩
  rw [TxBuf.puts_cells (fun k => bytes.getD k 0), if_pos (by omega), Nat.add_sub_cancel_left]

theorem stored_packEight2 (psrc : Nat → Byte) (d : Nat) (buf : TxBuf) :
    Stored buf (packEight2 psrc d buf) d (packedBytes psrc) := stored_puts (packedBytes psrc) d buf

/-- Two words and a byte, as they are. -/
theorem stored_packEight4 (psrc : Nat → Byte) (d : Nat) (buf : TxBuf) :
    Stored buf (packEight4 psrc d buf) d (memoryBlock psrc) := by
  have htouch : Touches buf (packEight4 psrc d buf) d 9 :=
    (((Touches.refl buf d 9).putU32 (by omega) (by omega)).putU32 (by omega) (by omega)).put
      (by omega) (by omega)
  refine ⟨fun j hj => ?_, htouch.old, htouch.inside⟩
  have hj : j < 9 := hj
  unfold packEight4 memoryBlock
  simp only [TxBuf.put_cells, TxBuf.putU32_cells]
  interval_cases j <;> simp

/-- **The byte expressions are the swapped words**, for all eight bytes of a group. -/
theorem packedBytes_eq_swappedBlock (psrc : Nat → Byte) :
    packedBytes psrc = swappedBlock psrc := by
  simp only [packedBytes, swappedBlock, blockBytes, List.cons.injEq, and_true]
  refine ⟨?_, ?_, ?_, ?_, ?_, ?_, ?_, ?_, ?_⟩
  -- each byte has the same bits: the flag, and parts of one or two bytes of the group
  all_goals
    apply bits_injective
    simp [bits, byteOf, uchar, ul32, packedLo, packedHi, List.range_succ,
      BitVec.getMsbD_ushiftRight, BitVec.getMsbD_setWidth, -BitVec.getLsbD_eq_getElem]

/-- The first word in memory order: the third byte lacks the two lowest bits of the first byte
of the group, which have been shifted into the fourth. -/
theorem memoryLo_bytes (s : Nat → Byte) :
    byteOf (memoryLo s) 0 = byteOf (packedLo s) 3 ∧
    byteOf (memoryLo s) 1 = byteOf (packedLo s) 2 ∧
    (byteOf (memoryLo s) 2 = byteOf (packedLo s) 1 ↔ s 0 &&& 0x03 = 0) ∧
    (s 0 &&& 0x03 = 0 → byteOf (memoryLo s) 3 = byteOf (packedLo s) 0) := by
  simp only [← bits_injective.eq_iff]
  refine ⟨?_, ?_, ?_, ?_⟩
  all_goals
    simp +contextual [bits, byteOf, ul32, memoryLo, packedLo, List.range_succ,
      BitVec.getMsbD_ushiftRight, BitVec.getMsbD_setWidth, -BitVec.getLsbD_eq_getElem]

/-- The second word in memory order: its last byte lacks the lowest bit of the last byte of the
group. -/
theorem memoryHi_bytes (s : Nat → Byte) :
    byteOf (memoryHi s) 0 = byteOf (packedHi s) 3 ∧
    byteOf (memoryHi s) 1 = byteOf (packedHi s) 2 ∧
    byteOf (memoryHi s) 2 = byteOf (packedHi s) 1 ∧
    (byteOf (memoryHi s) 3 = byteOf (packedHi s) 0 ↔ s 7 &&& 0x01 = 0) := by
  simp only [← bits_injective.eq_iff]
  refine ⟨?_, ?_, ?_, ?_⟩
  all_goals
    simp [bits, byteOf, ul32, memoryHi, packedHi, List.range_succ, BitVec.getMsbD_ushiftRight,
      BitVec.getMsbD_setWidth, -BitVec.getLsbD_eq_getElem]

/-- The words in memory order are the swapped ones when those three bits are zero, and only
then. -/
theorem memoryBlock_eq_swappedBlock_iff (psrc : Nat → Byte) :
    memoryBlock psrc = swappedBlock psrc ↔ psrc 0 &&& 0x03 = 0 ∧ psrc 7 &&& 0x01 = 0 := by
  obtain ⟨h₀, h₁, h₂, h₃⟩ := memoryLo_bytes psrc
  obtain ⟨h₄, h₅, h₆, h₇⟩ := memoryHi_bytes psrc
  simp only [memoryBlock, swappedBlock, blockBytes, List.cons.injEq, and_true]
  constructor
  · rintro ⟨-, -, hthird, -, -, -, -, hlast⟩
    exact ⟨h₂.mp hthird, h₇.mp hlast⟩
  · rintro ⟨hlow, hlast⟩
    exact ⟨h₀, h₁, h₂.mpr hlow, h₃ hlow, h₄, h₅, h₆, h₇.mpr hlast⟩

/-! ## The transfers -/

/-- **Byte-wise and word-wise payloads.** For every number of pixel words whose size does not
wrap and passes the check, `filling_spi_send_display_data2` and `_data3` leave the same bytes
behind the header. -/
theorem fillingSpiSendDisplayData2_agrees (cells cells' : Nat → Byte) (pBuf : Nat → Word)
    (len : Nat) (x y : Word) (hwrap : (24 + 4 * len) * 9 < 2 ^ 32)
    (hcheck : ((24 + 4 * len) * 9 + 7) / 8 ≤ TX_BUF_MAX_LEN) :
    SpiSend.AgreeFrom 18 (fillingSpiSendDisplayData2 cells pBuf len x y)
      (fillingSpiSendDisplayData3 cells' pBuf len x y) := by
  have hagree := agreeFrom_iff cells cells'
    (fun i => packedBytes fun k => pixelByte pBuf (8 * i + k))
    (fun i => swappedBlock fun k => pixelByte pBuf (8 * i + k)) hwrap hcheck
    (touches_fillHeaderWithnop x y) (touches_fillHeaderWithnop1 x y)
    (fun i b => stored_packEight2 _ _ b) (fun _ => rfl) (fun i b => stored_packEight _ _ b)
    (fun _ => rfl) le_rfl fun _ k h₁ h₂ => by omega
  exact hagree.mpr fun i _ => packedBytes_eq_swappedBlock _

/-- Three pixel words, the last of which neither encoder sends. -/
theorem fillingSpiSendDisplayData2_agrees_threePixels :
    SpiSend.AgreeFrom 18
      (fillingSpiSendDisplayData2 (fun _ => 0xff) (fun i => BitVec.ofNat 32 (0x12345678 + i)) 3
        239 319)
      (fillingSpiSendDisplayData3 (fun _ => 0x00) (fun i => BitVec.ofNat 32 (0x12345678 + i)) 3
        239 319) :=
  fillingSpiSendDisplayData2_agrees _ _ _ 3 239 319 (by decide) (by decide)

/-- Two stores, one behind the other. -/
theorem Stored.append {b b₁ b₂ : TxBuf} {d : Nat} {xs ys : List Byte} (h₁ : Stored b b₁ d xs)
    (h₂ : Stored b₁ b₂ (d + xs.length) ys) : Stored b b₂ d (xs ++ ys) where
  new := by
    intro j hj
    rw [List.length_append] at hj
    by_cases hfirst : j < xs.length
    · rw [h₂.old _ (Or.inl (by omega)), h₁.new j hfirst, List.getD_append _ _ _ _ hfirst]
    · have hnew := h₂.new (j - xs.length) (by omega)
      rw [Nat.add_assoc, Nat.add_sub_cancel' (Nat.le_of_not_lt hfirst)] at hnew
      rw [hnew, List.getD_append_right _ _ _ _ (Nat.le_of_not_lt hfirst)]
  old := by
    intro i hi
    rw [List.length_append] at hi
    rw [h₂.old i (by omega), h₁.old i (by omega)]
  inside := by
    intro i hi
    rw [List.length_append]
    rcases h₂.inside i hi with hold | hnew
    · rcases h₁.inside i hold with hold | hnew
      · exact Or.inl hold
      · exact Or.inr ⟨hnew.1, by omega⟩
    · exact Or.inr ⟨by omega, by omega⟩

/-- The eighteen bytes of `fill_header_withnop1`. -/
def headerBytes1 (x y : Word) : List Byte :=
  blockBytes
      (ul32 (byteOf x 3) <<< 14 ||| ul32 (byteOf x 2) <<< 5 ||| ul32 (byteOf x 1) >>> 4 |||
        0x15402010#32)
      (ul32 (byteOf x 1) <<< 28 ||| ul32 (byteOf x 0) <<< 19 ||| ul32 (byteOf y 3) <<< 1 |||
        0x0800ae01#32)
      (byteOf y 2) ++
    blockBytes (ul32 (byteOf y 1) <<< 23 ||| ul32 (byteOf y 0) <<< 14 ||| 0x80400000#32) 0 0x2c

theorem stored_fillHeaderWithnop1 (x y : Word) (d : Nat) (buf : TxBuf) :
    Stored buf (fillHeaderWithnop1 x y d buf) d (headerBytes1 x y) :=
  (stored_swapped buf d _ _ _).append (stored_zero _ (d + 9) _ _)

/-- They do not depend on what was in the buffer. -/
theorem fillHeaderWithnop1_cells (x y : Word) (buf : TxBuf) {k : Nat} (hk : k < 18) :
    (fillHeaderWithnop1 x y 0 buf).cells k = (headerBytes1 x y).getD k 0 := by
  have hnew := (stored_fillHeaderWithnop1 x y 0 buf).new k hk
  rwa [Nat.zero_add] at hnew

/-- Byte `k` of the eight that make the pixel words `2 * i` and `2 * i + 1`. -/
theorem pixelByte_group (pBuf : Nat → Word) (i k : Nat) :
    pixelByte pBuf (8 * i + k) = byteOf (pBuf (2 * i + k / 4)) (k % 4) := by
  have hword : (8 * i + k) / 4 = 2 * i + k / 4 := by omega
  have hbyte : (8 * i + k) % 4 = k % 4 := by omega
  rw [pixelByte, hword, hbyte]

/-- The three bits that matter, in the pixel words. -/
theorem lowBits_iff (w : Word) : byteOf w 0 &&& 0x03 = 0 ↔ w &&& 0x00000003 = 0 := by
  rw [← bits_injective.eq_iff, ← bits_injective.eq_iff]
  simp [bits, byteOf, List.range_succ]

theorem highBit_iff (w : Word) : byteOf w 3 &&& 0x01 = 0 ↔ w &&& 0x01000000 = 0 := by
  rw [← bits_injective.eq_iff, ← bits_injective.eq_iff]
  simp [bits, byteOf, List.range_succ]

/-- **The encoder without byte swaps.** For every number of pixel words whose size does not
wrap and passes the check, `filling_spi_send_display_data4` and `_data3` leave the same bytes if
and only if, in every pair of pixel words that is sent, the two lowest bits of the first and bit
24 of the second are zero. -/
theorem fillingSpiSendDisplayData4_agrees_iff (cells cells' : Nat → Byte) (pBuf : Nat → Word)
    (len : Nat) (x y : Word) (hwrap : (24 + 4 * len) * 9 < 2 ^ 32)
    (hcheck : ((24 + 4 * len) * 9 + 7) / 8 ≤ TX_BUF_MAX_LEN) :
    SpiSend.AgreeFrom 0 (fillingSpiSendDisplayData4 cells pBuf len x y)
      (fillingSpiSendDisplayData3 cells' pBuf len x y) ↔
    ∀ i, i < len / 2 → pBuf (2 * i) &&& 0x00000003 = 0 ∧ pBuf (2 * i + 1) &&& 0x01000000 = 0 := by
  have hagree := agreeFrom_iff cells cells'
    (fun i => memoryBlock fun k => pixelByte pBuf (8 * i + k))
    (fun i => swappedBlock fun k => pixelByte pBuf (8 * i + k)) hwrap hcheck
    (touches_fillHeaderWithnop1 x y) (touches_fillHeaderWithnop1 x y)
    (fun i b => stored_packEight4 _ _ b) (fun _ => rfl) (fun i b => stored_packEight _ _ b)
    (fun _ => rfl) (Nat.zero_le 18) fun _ k _ hk =>
      (fillHeaderWithnop1_cells x y _ hk).trans (fillHeaderWithnop1_cells x y _ hk).symm
  refine hagree.trans (forall₂_congr fun i _ => ?_)
  rw [memoryBlock_eq_swappedBlock_iff, pixelByte_group, pixelByte_group, lowBits_iff, highBit_iff]
  exact Iff.rfl

/-- A first pixel word `1`: bits are lost in byte 20. -/
theorem fillingSpiSendDisplayData4_loses_bits :
    (24 + 4 * 2) * 9 < 2 ^ 32 ∧ ((24 + 4 * 2) * 9 + 7) / 8 ≤ TX_BUF_MAX_LEN ∧
    (fillingSpiSendDisplayData4 (fun _ => 0) (fun _ => 1) 2 0 0).buf.cells 20 = 0x20 ∧
    (fillingSpiSendDisplayData3 (fun _ => 0) (fun _ => 1) 2 0 0).buf.cells 20 = 0x60 ∧
    ¬ SpiSend.AgreeFrom 0 (fillingSpiSendDisplayData4 (fun _ => 0) (fun _ => 1) 2 0 0)
      (fillingSpiSendDisplayData3 (fun _ => 0) (fun _ => 1) 2 0 0) := by
  have h₄ : (fillingSpiSendDisplayData4 (fun _ => 0) (fun _ => 1) 2 0 0).buf.cells 20 = 0x20 := by
    decide
  have h₃ : (fillingSpiSendDisplayData3 (fun _ => 0) (fun _ => 1) 2 0 0).buf.cells 20 = 0x60 := by
    decide
  refine ⟨by decide, by decide, h₄, h₃, fun hagree => ?_⟩
  have hbyte := hagree.bytes 20 (Nat.zero_le 20) (by decide)
  rw [h₄, h₃] at hbyte
  exact absurd hbyte (by decide)

/-- Two pixel words without the three bits. -/
theorem fillingSpiSendDisplayData4_agrees_iff_twoPixels :
    SpiSend.AgreeFrom 0
      (fillingSpiSendDisplayData4 (fun _ => 0) (fun _ => 0xf81ff81c) 2 239 319)
      (fillingSpiSendDisplayData3 (fun _ => 0) (fun _ => 0xf81ff81c) 2 239 319) ↔
    ∀ i, i < 2 / 2 → (0xf81ff81c : Word) &&& 0x00000003 = 0 ∧
      (0xf81ff81c : Word) &&& 0x01000000 = 0 :=
  fillingSpiSendDisplayData4_agrees_iff _ _ (fun _ => 0xf81ff81c) 2 239 319 (by decide) (by decide)

end SpeechStack
