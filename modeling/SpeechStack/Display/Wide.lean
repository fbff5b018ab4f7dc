import SpeechStack.Display.Blocks

set_option autoImplicit false

/-! # The encoders with 64-bit words

`fill_header_withnop` ORs a mask and the shifted bytes of the coordinates into a cleared 64-bit
word and swaps it. Its masks begin one bit too late, and both coordinates are taken from `x`, so
that it never writes the header of `fill_header_withnop1`. The loop of
`filling_spi_send_display_data1` moves its 64-bit pointer, indexes it by the number of the round as
well, and starts at the header: from two pixel words on it does not send what
`filling_spi_send_display_data2` sends.
-/

namespace SpeechStack

open Memory Bits

/-! ## 64-bit words in memory -/

/-- Byte `k` of a 64-bit word, counted from the least significant one. -/
def byteOf64 (v : BitVec 64) (k : Nat) : Byte := v.extractLsb' (8 * k) 8

/-- `pbits[0] = swap_endian_64(pbits[0])` for the 64-bit word at byte `i`. -/
def TxBuf.swapU64 (buf : TxBuf) (i : Nat) : TxBuf := buf.putU64 i (swapEndian64 (buf.getU64 i))

/-- The bytes of a 64-bit word, the most significant first. -/
def bytes64 (v : BitVec 64) : List Byte :=
  [byteOf64 v 7, byteOf64 v 6, byteOf64 v 5, byteOf64 v 4, byteOf64 v 3, byteOf64 v 2,
    byteOf64 v 1, byteOf64 v 0]

theorem bytes64_getD (v : BitVec 64) {j : Nat} (hj : j < 8) :
    (bytes64 v).getD j 0 = byteOf64 v (7 - j) := by
  interval_cases j <;> rfl

theorem byteOf64_or (v w : BitVec 64) (k : Nat) :
    byteOf64 (v ||| w) k = byteOf64 v k ||| byteOf64 w k := BitVec.extractLsb'_or

theorem byteOf64_swapEndian64 (x : BitVec 64) (k : Nat) (hk : k < 8) :
    byteOf64 (swapEndian64 x) k = byteOf64 x (7 - k) := by
  apply bits_injective
  interval_cases k
  all_goals
    simp [bits, byteOf64, swapEndian64, List.range_succ, BitVec.getMsbD_ushiftRight,
      -BitVec.getLsbD_eq_getElem]

namespace TxBuf

variable (buf : TxBuf) (i k : Nat) (v : BitVec 64)

theorem putU64_cells :
    (buf.putU64 i v).cells k = if i ≤ k ∧ k < i + 8 then byteOf64 v (k - i) else buf.cells k :=
  puts_cells (byteOf64 v) i 8 k buf

/-- A 64-bit load reads the eight cells. -/
theorem byteOf64_getU64 {j : Nat} (hj : j < 8) :
    byteOf64 (buf.getU64 i) j = buf.cells (i + j) := by
  apply BitVec.eq_of_getLsbD_eq
  intro k hk
  have hbit : (buf.getU64 i).getLsbD (8 * j + k) =
      @BitVec.getLsbD (8 + 8 + 8 + 8 + 8 + 8 + 8 + 8) (buf.cells (i + 7) ++ buf.cells (i + 6) ++
        buf.cells (i + 5) ++ buf.cells (i + 4) ++ buf.cells (i + 3) ++ buf.cells (i + 2) ++
        buf.cells (i + 1) ++ buf.cells i) (8 * j + k) := rfl
  unfold byteOf64
  rw [BitVec.getLsbD_extractLsb', hbit]
  simp only [BitVec.getLsbD_append, hk, decide_true, Bool.true_and]
  -- byte `j` of the word is one of the eight cells
  interval_cases j <;> grind

theorem orU64_cells :
    (buf.orU64 i v).cells k =
      if i ≤ k ∧ k < i + 8 then buf.cells k ||| byteOf64 v (k - i) else buf.cells k := by
  unfold orU64
  rw [putU64_cells]
  by_cases hin : i ≤ k ∧ k < i + 8
  · rw [if_pos hin, if_pos hin, byteOf64_or, byteOf64_getU64 _ _ (by omega),
      Nat.add_sub_cancel' hin.1]
  · rw [if_neg hin, if_neg hin]

/-- A byte swap in memory reverses eight cells. -/
theorem swapU64_cells :
    (buf.swapU64 i).cells k =
      if i ≤ k ∧ k < i + 8 then buf.cells (i + (7 - (k - i))) else buf.cells k := by
  unfold swapU64
  rw [putU64_cells]
  by_cases hin : i ≤ k ∧ k < i + 8
  · rw [if_pos hin, if_pos hin, byteOf64_swapEndian64 _ _ (by omega),
      byteOf64_getU64 _ _ (by omega)]
  · rw [if_neg hin, if_neg hin]

end TxBuf

/-- Two words ORed into cleared cells and swapped, and a byte behind them. -/
theorem stored_swapped64 (buf : TxBuf) (d : Nat) (v w : BitVec 64) (last : Byte)
    (hzero : ∀ j, j < 8 → buf.cells (d + j) = 0) :
    Stored buf ((((buf.orU64 d v).orU64 d w).swapU64 d).put (d + 8) last) d
      (bytes64 (v ||| w) ++ [last]) := by
  have htouch : Touches buf ((((buf.orU64 d v).orU64 d w).swapU64 d).put (d + 8) last) d 9 :=
    ((((Touches.refl buf d 9).putU64 (by omega) (by omega)).putU64 (by omega) (by omega)).putU64
      (by omega) (by omega)).put (by omega) (by omega)
  refine ⟨fun j hj => ?_, htouch.old, htouch.inside⟩
  have hj : j < 9 := hj
  rw [TxBuf.put_cells]
  by_cases hlast : j = 8
  · rw [if_pos (by omega), hlast]
    rfl
  · -- byte `j` of the memory is byte `7 - j` of the word
    have hj : j < 8 := by omega
    rw [if_neg (by omega), TxBuf.swapU64_cells, if_pos (by omega), Nat.add_sub_cancel_left,
      TxBuf.orU64_cells, if_pos (by omega), TxBuf.orU64_cells, if_pos (by omega),
      hzero _ (by omega), Nat.add_sub_cancel_left, List.getD_append _ _ _ _ hj, bytes64_getD _ hj,
      byteOf64_or]
    exact congrArg (· ||| byteOf64 w (7 - j)) BitVec.zero_or

/-! ## The header -/

/-- The eighteen bytes of `fill_header_withnop`. -/
def headerBytes (x : Word) : List Byte :=
  (bytes64 (BIG_HEADER0_MASK |||
      (ull64 (byteOf x 3) <<< 46 ||| ull64 (byteOf x 2) <<< 37 ||| ull64 (byteOf x 1) <<< 28 |||
        ull64 (byteOf x 0) <<< 19 ||| ull64 (byteOf x 3) <<< 1)) ++ [byteOf x 2]) ++
    (bytes64 (BIG_HEADER_NOP_MASK |||
      (ull64 (byteOf x 1) <<< 55 ||| ull64 (byteOf x 0) <<< 46)) ++ [0x2c])

theorem stored_fillHeaderWithnop (x y : Word) (d : Nat) (buf : TxBuf)
    (hzero : ∀ j, j < 18 → buf.cells (d + j) = 0) :
    Stored buf (fillHeaderWithnop x y d buf) d (headerBytes x) := by
  have hfirst := stored_swapped64 buf d BIG_HEADER0_MASK
    (ull64 (byteOf x 3) <<< 46 ||| ull64 (byteOf x 2) <<< 37 ||| ull64 (byteOf x 1) <<< 28 |||
      ull64 (byteOf x 0) <<< 19 ||| ull64 (byteOf x 3) <<< 1) (byteOf x 2)
    fun j hj => hzero j (by omega)
  apply hfirst.append
  apply stored_swapped64
  intro j hj
  -- the second half is still cleared
  show TxBuf.cells _ (d + 9 + j) = 0
  rw [hfirst.old _ (Or.inr (by show d + 9 ≤ _; omega)), Nat.add_assoc]
  exact hzero _ (by omega)

/-- What has been stored, read back. -/
theorem Stored.load {buf buf' : TxBuf} {d : Nat} {bytes : List Byte}
    (h : Stored buf buf' d bytes) : load buf'.cells d bytes.length = bytes := by
  apply List.ext_getElem
  · exact load_length _ _ _
  · intro j h₁ h₂
    have hnew := h.new j h₂
    rw [List.getD_eq_getElem _ _ h₂] at hnew
    simpa [Memory.load] using hnew

theorem bitsOf_headerBytes1 (x y : Word) :
    bitsOf (headerBytes1 x y) = bitsOf (headerWords3 x y) := by
  rw [headerBytes1, bitsOf_append, bitsOf_headerBlock, bitsOf_headerBlock', ← bitsOf_append]
  rfl

/-- The first byte tells the two headers apart: `0 0x2a 1` begins with `0x15`. -/
theorem headerBytes_ne (x y : Word) : headerBytes x ≠ headerBytes1 x y := by
  intro heq
  have hfirst : (headerBytes x).getD 0 0 = 0x0a := by
    apply bits_injective
    simp [headerBytes, bytes64, byteOf64, bits, ull64, BIG_HEADER0_MASK, List.range_succ,
      -BitVec.getLsbD_eq_getElem]
  have hfirst₁ : (headerBytes1 x y).getD 0 0 = 0x15 := by
    apply bits_injective
    simp [headerBytes1, blockBytes, byteOf, bits, ul32, List.range_succ,
      BitVec.getMsbD_ushiftRight, -BitVec.getLsbD_eq_getElem]
  rw [heq, hfirst₁] at hfirst
  exact absurd hfirst (by decide)

/-- **The header routines never agree.** On eighteen cleared bytes `fill_header_withnop1` writes
the words of the header, and `fill_header_withnop` something else, for all coordinates. -/
theorem fillHeaderWithnop_never_agrees (x y : Word) (dst : Nat) (buf : TxBuf)
    (hzero : ∀ j, j < 18 → buf.cells (dst + j) = 0) :
    let bytes := load (fillHeaderWithnop x y dst buf).cells dst 18
    let bytes1 := load (fillHeaderWithnop1 x y dst buf).cells dst 18
    bytes ≠ bytes1 ∧ bitsOf bytes ≠ bitsOf (headerWords3 x y) ∧
      bitsOf bytes1 = bitsOf (headerWords3 x y) := by
  have hbytes : load (fillHeaderWithnop x y dst buf).cells dst 18 = headerBytes x :=
    (stored_fillHeaderWithnop x y dst buf hzero).load
  have hbytes₁ : load (fillHeaderWithnop1 x y dst buf).cells dst 18 = headerBytes1 x y :=
    (stored_fillHeaderWithnop1 x y dst buf).load
  intro bytes bytes1
  have hne : bytes ≠ bytes1 := by
    show load _ _ _ ≠ load _ _ _
    rw [hbytes, hbytes₁]
    exact headerBytes_ne x y
  have hwords : bitsOf bytes1 = bitsOf (headerWords3 x y) := by
    show bitsOf (load _ _ _) = _
    rw [hbytes₁, bitsOf_headerBytes1]
  refine ⟨hne, fun hbits => hne ?_, hwords⟩
  exact bitsOf_injective (by omega) (hbits.trans hwords.symm)

/-- The coordinates of the demo. -/
theorem fillHeaderWithnop_demo :
    (fillHeaderWithnop 239 319 0 ⟨fun _ => 0, []⟩).cells 0 = 0x0a ∧
    (fillHeaderWithnop1 239 319 0 ⟨fun _ => 0, []⟩).cells 0 = 0x15 ∧
    load (fillHeaderWithnop 239 319 0 ⟨fun _ => 0, []⟩).cells 0 18 ≠
      load (fillHeaderWithnop1 239 319 0 ⟨fun _ => 0, []⟩).cells 0 18 := by
  have hfirst : (fillHeaderWithnop 239 319 0 ⟨fun _ => 0, []⟩).cells 0 = 0x0a := by decide
  have hfirst₁ : (fillHeaderWithnop1 239 319 0 ⟨fun _ => 0, []⟩).cells 0 = 0x15 := by decide
  refine ⟨hfirst, hfirst₁, fun heq => ?_⟩
  have hhead : (fillHeaderWithnop 239 319 0 ⟨fun _ => 0, []⟩).cells 0
      = (fillHeaderWithnop1 239 319 0 ⟨fun _ => 0, []⟩).cells 0 := (List.cons.inj heq).1
  rw [hfirst, hfirst₁] at hhead
  exact absurd hhead (by decide)

theorem fillHeaderWithnop_never_agrees_demo :
    let bytes := load (fillHeaderWithnop 239 319 0 ⟨fun _ => 0, []⟩).cells 0 18
    let bytes1 := load (fillHeaderWithnop1 239 319 0 ⟨fun _ => 0, []⟩).cells 0 18
    bytes ≠ bytes1 ∧ bitsOf bytes ≠ bitsOf (headerWords3 239 319) ∧
      bitsOf bytes1 = bitsOf (headerWords3 239 319) :=
  fillHeaderWithnop_never_agrees 239 319 0 ⟨fun _ => 0, []⟩ fun _ _ => rfl

/-! ## The payload -/

/-- The header does not depend on what was in a buffer that has been cleared. -/
theorem fillHeaderWithnop_cells (x y : Word) (cells : Nat → Byte) {n k : Nat} (hn : 18 ≤ n)
    (hk : k < 18) :
    (fillHeaderWithnop x y 0 (TxBuf.clear ⟨cells, []⟩ n)).cells k = (headerBytes x).getD k 0 := by
  have hzero : ∀ j, j < 18 → (TxBuf.clear ⟨cells, []⟩ n).cells (0 + j) = 0 := by
    intro j hj
    exact clear_cells cells (by omega)
  have hnew := (stored_fillHeaderWithnop x y 0 _ hzero).new k hk
  rwa [Nat.zero_add] at hnew

/-- A round of `filling_spi_send_display_data1` stores eight bytes at `pbits`, and the last byte
of its group. -/
theorem packEight1_cells (psrc : Nat → Byte) {i pbits pdst k : Nat} (buf : TxBuf)
    (hk : k < pbits ∨ pbits + 8 ≤ k) (hlast : k ≠ pdst + 8) :
    (packEight1 psrc i pbits pdst buf).cells k = buf.cells k := by
  unfold packEight1
  dsimp only
  rw [TxBuf.put_cells, if_neg hlast, TxBuf.putU64_cells, if_neg (by omega), TxBuf.orU64_cells,
    if_neg (by omega), TxBuf.orU64_cells, if_neg (by omega)]

/-- The first byte behind the header is not stored: the first round works on the header. -/
theorem packEight1_rounds (psrc : Nat → Nat → Byte) (m : Nat) (buf : TxBuf) :
    ((List.range m).foldl (fun b i => packEight1 (psrc i) i (if i = 0 then 0 else 18 + 9 * i)
      (18 + 9 * i) b) buf).cells 18 = buf.cells 18 := by
  induction m with
  | zero => rfl
  | succ m ih =>
      rw [List.range_succ, List.foldl_append, List.foldl_cons, List.foldl_nil, packEight1_cells, ih]
      · split <;> omega
      · omega

/-- Byte 18 of a payload begins with the data bit. -/
theorem packedBytes_ne_zero (psrc : Nat → Byte) : (packedBytes psrc).getD 0 0 ≠ 0 := by
  intro hzero
  have hflag := congrArg BitVec.msb hzero
  simp [packedBytes, uchar, ul32, BitVec.msb_eq_getLsbD_last] at hflag

/-- **The 64-bit payload loop.** For every number of pixel words whose size does not wrap and
passes the check, `filling_spi_send_display_data1` and `_data2` leave the same bytes if and only if
the loop has no round. -/
theorem fillingSpiSendDisplayData1_agrees_iff (cells cells' : Nat → Byte) (pBuf : Nat → Word)
    (len : Nat) (x y : Word) (hwrap : (24 + 4 * len) * 9 < 2 ^ 32)
    (hcheck : ((24 + 4 * len) * 9 + 7) / 8 ≤ TX_BUF_MAX_LEN) :
    SpiSend.AgreeFrom 0 (fillingSpiSendDisplayData1 cells pBuf len x y)
      (fillingSpiSendDisplayData2 cells' pBuf len x y) ↔ len < 2 := by
  unfold fillingSpiSendDisplayData1 fillingSpiSendDisplayData2
  rw [fillSpiSend_eq hwrap hcheck, fillSpiSend_eq hwrap hcheck]
  set n := ((24 + 4 * len) * 9 + 7) / 8 with hn
  constructor
  · intro hagree
    by_contra hlong
    have hbyte := hagree.bytes 18 (Nat.zero_le 18) (show 18 < n by omega)
    dsimp only at hbyte
    -- cleared on one side, a data bit on the other
    rw [packEight1_rounds, (touches_fillHeaderWithnop x y _).old 18 (Or.inr le_rfl),
      clear_cells cells (by omega),
      rounds_cells (fun i b => stored_packEight2 (fun k => pixelByte pBuf (8 * i + k)) _ b)
        (fun _ => rfl), if_pos (by omega)] at hbyte
    exact packedBytes_ne_zero _ hbyte.symm
  · intro hshort
    have hnone : len / 2 = 0 := by omega
    rw [hnone]
    refine ⟨⟨rfl, rfl⟩, rfl, fun k _ hk => ?_⟩
    show (fillHeaderWithnop x y 0 _).cells k = (fillHeaderWithnop x y 0 _).cells k
    have hk : k < n := hk
    by_cases hhead : k < 18
    · rw [fillHeaderWithnop_cells x y cells (by omega) hhead,
        fillHeaderWithnop_cells x y cells' (by omega) hhead]
    · rw [(touches_fillHeaderWithnop x y _).old k (by omega),
        (touches_fillHeaderWithnop x y _).old k (by omega), clear_cells cells hk,
        clear_cells cells' hk]

/-- Two pixel words of zeros: the first byte behind the header is not stored. -/
theorem fillingSpiSendDisplayData1_skips_byte :
    (24 + 4 * 2) * 9 < 2 ^ 32 ∧ ((24 + 4 * 2) * 9 + 7) / 8 ≤ TX_BUF_MAX_LEN ∧
    (fillingSpiSendDisplayData1 (fun _ => 0) (fun _ => 0) 2 239 319).buf.cells 18 = 0x00 ∧
    (fillingSpiSendDisplayData2 (fun _ => 0) (fun _ => 0) 2 239 319).buf.cells 18 = 0x80 ∧
    ¬ SpiSend.AgreeFrom 0 (fillingSpiSendDisplayData1 (fun _ => 0) (fun _ => 0) 2 239 319)
      (fillingSpiSendDisplayData2 (fun _ => 0) (fun _ => 0) 2 239 319) := by
  have h₁ : (fillingSpiSendDisplayData1 (fun _ => 0) (fun _ => 0) 2 239 319).buf.cells 18
      = 0x00 := by
    decide
  have h₂ : (fillingSpiSendDisplayData2 (fun _ => 0) (fun _ => 0) 2 239 319).buf.cells 18
      = 0x80 := by
    decide
  refine ⟨by decide, by decide, h₁, h₂, fun hagree => ?_⟩
  have hbyte := hagree.bytes 18 (Nat.zero_le 18) (by decide)
  rw [h₁, h₂] at hbyte
  exact absurd hbyte (by decide)

/-- One pixel word: both encoders send the header only. -/
theorem fillingSpiSendDisplayData1_agrees_iff_one :
    SpiSend.AgreeFrom 0 (fillingSpiSendDisplayData1 (fun _ => 0xff) (fun _ => 0x12345678) 1 239 319)
      (fillingSpiSendDisplayData2 (fun _ => 0x00) (fun _ => 0x12345678) 1 239 319) ↔ 1 < 2 :=
  fillingSpiSendDisplayData1_agrees_iff _ _ _ 1 239 319 (by decide) (by decide)

end SpeechStack
