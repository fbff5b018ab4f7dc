import SpeechStack.Display.Lcm

set_option autoImplicit false

/-! # The fast encoder

`filling_spi_send_display_data3` makes the same transfer nine bytes at a time: eight nine-bit
words are two 32-bit words and a byte, packed by shifts and masks, byte-swapped and stored.
No-operations pad the header to eighteen bytes and stand behind the pixels. The machine is
little-endian: `px[k]` is the byte `k` of `x` from the least significant one.
-/

namespace SpeechStack

open Memory Bits

/-- `swap_endian_32(x)`. -/
def swapEndian32 (x : Word) : Word :=
  ((x &&& 0x000000ff#32) <<< 24) ||| ((x &&& 0x0000ff00#32) <<< 8) |||
    ((x &&& 0x00ff0000#32) >>> 8) ||| ((x &&& 0xff000000#32) >>> 24)

/-- `*(unsigned int *)(buf + i) = v`. -/
def TxBuf.putU32 (buf : TxBuf) (i : Nat) (v : Word) : TxBuf :=
  (((buf.put i (byteOf v 0)).put (i + 1) (byteOf v 1)).put (i + 2) (byteOf v 2)).put (i + 3)
    (byteOf v 3)

/-- `*(unsigned int *)(buf + i)`. -/
def TxBuf.getU32 (buf : TxBuf) (i : Nat) : Word :=
  buf.cells (i + 3) ++ buf.cells (i + 2) ++ buf.cells (i + 1) ++ buf.cells i

/-- `pbits[k] = swap_endian_32(pbits[k])` for the 32-bit word at byte `i`. -/
def TxBuf.swapU32 (buf : TxBuf) (i : Nat) : TxBuf := buf.putU32 i (swapEndian32 (buf.getU32 i))

/-- A byte of a 32-bit expression: `(ul32)((ul32)p[k])`. -/
def ul32 (b : Byte) : Word := b.setWidth 32

/-- `fill_header_withnop1(x, y, dst)`. -/
def fillHeaderWithnop1 (x y : Word) (dst : Nat) (buf : TxBuf) : TxBuf :=
  let px := byteOf x
  let py := byteOf y
  let buf := buf.putU32 dst
    (ul32 (px 3) <<< 14 ||| ul32 (px 2) <<< 5 ||| ul32 (px 1) >>> 4 ||| 0x15402010#32)
  let buf := buf.putU32 (dst + 4)
    (ul32 (px 1) <<< 28 ||| ul32 (px 0) <<< 19 ||| ul32 (py 3) <<< 1 ||| 0x0800ae01#32)
  let buf := buf.swapU32 dst
  let buf := buf.swapU32 (dst + 4)
  let buf := buf.put (dst + 8) (py 2)
  let dst := dst + 9
  let buf := buf.putU32 dst (ul32 (py 1) <<< 23 ||| ul32 (py 0) <<< 14 ||| 0x80400000#32)
  let buf := buf.swapU32 dst
  let buf := buf.putU32 (dst + 4) 0x00000000#32
  buf.put (dst + 8) 0x2c

/-- `pbits[0]` of `filling_spi_send_display_data3`, before it is swapped. -/
def packedLo (psrc : Nat → Byte) : Word :=
  ul32 (psrc 1) <<< 23 ||| ul32 (psrc 0) <<< 14 ||| ul32 (psrc 3) <<< 5 ||| ul32 (psrc 2) >>> 4 |||
    0x80402010#32

/-- `pbits[1]` of `filling_spi_send_display_data3`, before it is swapped. -/
def packedHi (psrc : Nat → Byte) : Word :=
  ul32 (psrc 2) <<< 28 ||| ul32 (psrc 5) <<< 19 ||| ul32 (psrc 4) <<< 10 ||| ul32 (psrc 7) <<< 1 |||
    0x08040201#32

/-- The body of the loop of `filling_spi_send_display_data3`: the eight bytes from `psrc` on
become the nine bytes from `pdst` on. -/
def packEight (psrc : Nat → Byte) (pdst : Nat) (buf : TxBuf) : TxBuf :=
  let buf := buf.putU32 pdst (packedLo psrc)
  let buf := buf.putU32 (pdst + 4) (packedHi psrc)
  let buf := buf.swapU32 pdst
  let buf := buf.swapU32 (pdst + 4)
  buf.put (pdst + 8) (psrc 6)

/-- Byte `k` of the pixel array in memory. -/
def pixelByte (pBuf : Nat → Word) (k : Nat) : Byte := byteOf (pBuf (k / 4)) (k % 4)

/-- `filling_spi_send_display_data3(data_buf, len, x, y)` on a buffer whose cells hold
`cells`. In round `i` of the loop `psrc` is at byte `8 * i` and `pdst` at byte `18 + 9 * i`. -/
def fillingSpiSendDisplayData3 (cells : Nat → Byte) (pBuf : Nat → Word) (len : Nat) (x y : Word) :
    SpiSend :=
  let i := (16 + len * 4 + 8) * 9 % 2 ^ 32
  let sendLen := spiSendLen i
  let buf : TxBuf := ⟨cells, []⟩
  if sendLen = 0 ∨ sendLen > TX_BUF_MAX_LEN then ⟨false, sendLen, buf⟩
  else
    let buf := fillHeaderWithnop1 x y 0 (buf.clear sendLen)
    let buf := (List.range (len / 2)).foldl
      (fun buf i => packEight (fun k => pixelByte pBuf (8 * i + k)) (18 + 9 * i) buf) buf
    ⟨true, sendLen, buf⟩

/-! ## Stores -/

/-- The four bytes of a 32-bit word are its bits, the most significant byte first. -/
theorem bits_eq_bytes (x : Word) :
    bits x = bitsOf [byteOf x 3, byteOf x 2, byteOf x 1, byteOf x 0] := by
  simp [bits, bitsOf, byteOf, List.range_succ]

theorem byteOf_swapEndian32 (x : Word) (k : Nat) (hk : k < 4) :
    byteOf (swapEndian32 x) k = byteOf x (3 - k) := by
  apply bits_injective
  interval_cases k
  all_goals
    simp [bits, byteOf, swapEndian32, List.range_succ, BitVec.getMsbD_ushiftRight,
      -BitVec.getLsbD_eq_getElem]

theorem TxBuf.put_cells (buf : TxBuf) (i k : Nat) (v : Byte) :
    (buf.put i v).cells k = if k = i then v else buf.cells k := by
  simp [TxBuf.put, Function.update_apply]

theorem TxBuf.putU32_cells (buf : TxBuf) (i k : Nat) (v : Word) :
    (buf.putU32 i v).cells k = if i ≤ k ∧ k < i + 4 then byteOf v (k - i) else buf.cells k := by
  unfold TxBuf.putU32
  simp only [TxBuf.put_cells]
  -- one of the four bytes, or a cell outside
  by_cases hin : i ≤ k ∧ k < i + 4
  · obtain ⟨j, rfl⟩ : ∃ j, k = i + j := ⟨k - i, by omega⟩
    have hj : j < 4 := by omega
    rw [if_pos hin, Nat.add_sub_cancel_left]
    interval_cases j <;> simp
  · rw [if_neg hin, if_neg (by omega), if_neg (by omega), if_neg (by omega), if_neg (by omega)]

/-- A 32-bit load reads the four cells. -/
theorem TxBuf.byteOf_getU32 (buf : TxBuf) (i j : Nat) (hj : j < 4) :
    byteOf (buf.getU32 i) j = buf.cells (i + j) := by
  apply BitVec.eq_of_getLsbD_eq
  intro k hk
  have hbit : (buf.getU32 i).getLsbD (8 * j + k) =
      @BitVec.getLsbD (8 + 8 + 8 + 8) (buf.cells (i + 3) ++ buf.cells (i + 2) ++
        buf.cells (i + 1) ++ buf.cells i) (8 * j + k) := rfl
  unfold byteOf
  rw [BitVec.getLsbD_extractLsb', hbit]
  simp only [BitVec.getLsbD_append]
  -- byte `j` of the word is one of the four cells
  interval_cases j
  · simp [hk]
  · simp [hk]
  · simp [hk, show ¬ 16 + k < 8 by omega, show ¬ 16 + k - 8 < 8 by omega,
      show 16 + k - 8 - 8 = k by omega]
  · simp [hk, show ¬ 24 + k < 8 by omega, show ¬ 24 + k - 8 < 8 by omega,
      show ¬ 24 + k - 8 - 8 < 8 by omega, show 24 + k - 8 - 8 - 8 = k by omega]

/-- A byte swap in memory reverses four cells. -/
theorem TxBuf.swapU32_cells (buf : TxBuf) (i k : Nat) :
    (buf.swapU32 i).cells k =
      if i ≤ k ∧ k < i + 4 then buf.cells (i + (3 - (k - i))) else buf.cells k := by
  unfold TxBuf.swapU32
  rw [TxBuf.putU32_cells]
  by_cases hin : i ≤ k ∧ k < i + 4
  · rw [if_pos hin, if_pos hin, byteOf_swapEndian32 _ _ (by omega),
      TxBuf.byteOf_getU32 _ _ _ (by omega)]
  · rw [if_neg hin, if_neg hin]

/-- `bytes` have been stored from byte `d` on, and nothing else. -/
structure Stored (buf buf' : TxBuf) (d : Nat) (bytes : List Byte) : Prop where
  new : ∀ j, j < bytes.length → buf'.cells (d + j) = bytes.getD j 0
  old : ∀ i, i < d ∨ d + bytes.length ≤ i → buf'.cells i = buf.cells i
  inside : ∀ i ∈ buf'.written, i ∈ buf.written ∨ (d ≤ i ∧ i < d + bytes.length)

/-- The nine bytes of a block: two swapped 32-bit words, and a byte. -/
def blockBytes (lo hi : Word) (last : Byte) : List Byte :=
  [byteOf lo 3, byteOf lo 2, byteOf lo 1, byteOf lo 0,
    byteOf hi 3, byteOf hi 2, byteOf hi 1, byteOf hi 0, last]

theorem bitsOf_blockBytes (lo hi : Word) (last : Byte) :
    bitsOf (blockBytes lo hi last) = bits lo ++ bits hi ++ bits last := by
  rw [bits_eq_bytes lo, bits_eq_bytes hi, ← bitsOf_singleton last, ← bitsOf_append,
    ← bitsOf_append]
  rfl

theorem TxBuf.putU32_written (buf : TxBuf) (i : Nat) (v : Word) :
    (buf.putU32 i v).written = buf.written ++ [i, i + 1, i + 2, i + 3] := by
  simp [TxBuf.putU32, TxBuf.put]

/-- Two words stored, both swapped, and the last byte. -/
theorem stored_swapped (buf : TxBuf) (d : Nat) (lo hi : Word) (last : Byte) :
    Stored buf (((((buf.putU32 d lo).putU32 (d + 4) hi).swapU32 d).swapU32 (d + 4)).put (d + 8)
      last) d (blockBytes lo hi last) := by
  constructor
  · intro j hj
    -- byte by byte: the swaps undo the order in which a word is stored
    have hj : j < 9 := hj
    simp only [TxBuf.put_cells, TxBuf.swapU32_cells, TxBuf.putU32_cells]
    interval_cases j <;> simp [blockBytes]
  · intro i hi
    simp only [blockBytes, List.length_cons, List.length_nil] at hi
    simp only [TxBuf.put_cells, TxBuf.swapU32_cells, TxBuf.putU32_cells]
    rw [if_neg (by omega), if_neg (by omega), if_neg (by omega), if_neg (by omega),
      if_neg (by omega)]
  · intro i hi
    simp only [TxBuf.put, TxBuf.swapU32, TxBuf.putU32_written, List.mem_append, List.mem_cons,
      List.not_mem_nil, or_false] at hi
    simp only [blockBytes, List.length_cons, List.length_nil]
    by_cases hold : i ∈ buf.written
    · exact Or.inl hold
    · simp only [hold, false_or] at hi
      right
      omega

/-- The second half of the header: only the first word has to be swapped. -/
theorem stored_zero (buf : TxBuf) (d : Nat) (lo : Word) (last : Byte) :
    Stored buf ((((buf.putU32 d lo).swapU32 d).putU32 (d + 4) 0x00000000#32).put (d + 8) last) d
      (blockBytes lo 0 last) := by
  constructor
  · intro j hj
    have hj : j < 9 := hj
    simp only [TxBuf.put_cells, TxBuf.swapU32_cells, TxBuf.putU32_cells]
    interval_cases j <;> simp [blockBytes, byteOf]
  · intro i hi
    simp only [blockBytes, List.length_cons, List.length_nil] at hi
    simp only [TxBuf.put_cells, TxBuf.swapU32_cells, TxBuf.putU32_cells]
    rw [if_neg (by omega), if_neg (by omega), if_neg (by omega), if_neg (by omega)]
  · intro i hi
    simp only [TxBuf.put, TxBuf.swapU32, TxBuf.putU32_written, List.mem_append, List.mem_cons,
      List.not_mem_nil, or_false] at hi
    simp only [blockBytes, List.length_cons, List.length_nil]
    by_cases hold : i ∈ buf.written
    · exact Or.inl hold
    · simp only [hold, false_or] at hi
      right
      omega

/-! ## Nine bytes are eight words -/

variable {n : Nat} {us : List (BitVec 9)} {buf buf' : TxBuf}

/-- A block behind whole bytes of words writes the words that its bits are. -/
theorem Filled.store {d : Nat} {bytes : List Byte} {ws : List (BitVec 9)}
    (h : Filled n us (buf, 9 * us.length)) (hstore : Stored buf buf' d bytes)
    (hd : 9 * us.length = 8 * d) (hroom : d + bytes.length ≤ n)
    (hbits : bitsOf bytes = bitsOf ws) : Filled n (us ++ ws) (buf', 9 * (us ++ ws).length) := by
  constructor
  · rw [bitsOf_append, ← hbits]
    -- the words end with a byte, so the block starts a fresh one
    apply h.spells.append_cells
    · rw [bitsOf_length, hd]
    · exact hroom
    · exact hstore.new
    · exact hstore.old
  · rfl
  · intro i hi
    rcases hstore.inside i hi with hold | hnew
    · exact h.inside i hold
    · omega

/-- The header of the fast transfer: the words of the plain one, with five no-operations
before the memory write. -/
def headerWords3 (x y : Word) : List (BitVec 9) :=
  commandWord 0x2A :: coordinateWords x ++ commandWord 0x2B :: coordinateWords y ++
    List.replicate 5 (commandWord 0x00) ++ [commandWord 0x2C]

/-- The fast transfer: header, pixels, and eight no-operations. -/
def displayWords3 (pBuf : Nat → Word) (len : Nat) (x y : Word) : List (BitVec 9) :=
  headerWords3 x y ++ pixelsWords pBuf len ++ List.replicate 8 (commandWord 0x00)

theorem bits_commandWord (b : Byte) : bits (commandWord b) = false :: bits b := bits_cons _ _

theorem bits_dataWord (b : Byte) : bits (dataWord b) = true :: bits b := bits_cons _ _

/-- The words of eight bytes of pixels. -/
def pixelBlock (s : Nat → Byte) : List (BitVec 9) :=
  [dataWord (s 1), dataWord (s 0), dataWord (s 3), dataWord (s 2),
    dataWord (s 5), dataWord (s 4), dataWord (s 7), dataWord (s 6)]

/-- The magic masks of `packEight` are the data bits, and the shifts put every byte between
two of them. -/
theorem bitsOf_pixelBlock (s : Nat → Byte) :
    bitsOf (blockBytes (packedLo s) (packedHi s) (s 6)) = bitsOf (pixelBlock s) := by
  rw [bitsOf_blockBytes]
  simp only [pixelBlock, bitsOf_cons, bitsOf_nil, bits_dataWord]
  simp [bits, packedLo, packedHi, ul32, List.range_succ, BitVec.getMsbD_ushiftRight, -BitVec.getLsbD_eq_getElem]

theorem bitsOf_headerBlock (px py : Nat → Byte) :
    bitsOf (blockBytes
      (ul32 (px 3) <<< 14 ||| ul32 (px 2) <<< 5 ||| ul32 (px 1) >>> 4 ||| 0x15402010#32)
      (ul32 (px 1) <<< 28 ||| ul32 (px 0) <<< 19 ||| ul32 (py 3) <<< 1 ||| 0x0800ae01#32)
      (py 2)) =
    bitsOf [commandWord 0x2A, dataWord (px 3), dataWord (px 2), dataWord (px 1), dataWord (px 0),
      commandWord 0x2B, dataWord (py 3), dataWord (py 2)] := by
  rw [bitsOf_blockBytes]
  simp only [bitsOf_cons, bitsOf_nil, bits_dataWord, bits_commandWord]
  simp [bits, ul32, List.range_succ, BitVec.getMsbD_ushiftRight, -BitVec.getLsbD_eq_getElem]

theorem bitsOf_headerBlock' (py : Nat → Byte) :
    bitsOf (blockBytes (ul32 (py 1) <<< 23 ||| ul32 (py 0) <<< 14 ||| 0x80400000#32) 0 0x2c) =
    bitsOf [dataWord (py 1), dataWord (py 0), commandWord 0x00, commandWord 0x00,
      commandWord 0x00, commandWord 0x00, commandWord 0x00, commandWord 0x2C] := by
  rw [bitsOf_blockBytes]
  simp only [bitsOf_cons, bitsOf_nil, bits_dataWord, bits_commandWord]
  simp [bits, ul32, List.range_succ, -BitVec.getLsbD_eq_getElem]

/-! ## The transfer -/

theorem filled_fillHeaderWithnop1 (x y : Word) (h : Filled n [] (buf, 0)) (hroom : 18 ≤ n) :
    Filled n (headerWords3 x y) (fillHeaderWithnop1 x y 0 buf, 9 * 16) := by
  have hfirst := h.store (stored_swapped buf 0 _ _ _) rfl (by
    simp only [blockBytes, List.length_cons, List.length_nil]
    omega) (bitsOf_headerBlock (byteOf x) (byteOf y))
  have hsecond := hfirst.store (stored_zero _ 9 _ _) rfl (by
    simp only [blockBytes, List.length_cons, List.length_nil]
    omega) (bitsOf_headerBlock' (byteOf y))
  exact hsecond

theorem pixelBlock_eq (pBuf : Nat → Word) (i : Nat) :
    pixelBlock (fun k => pixelByte pBuf (8 * i + k))
      = pixelWords (pBuf (2 * i)) ++ pixelWords (pBuf (2 * i + 1)) := by
  -- eight bytes of the array are two pixel words
  have hfirst : ∀ k, k < 4 → pixelByte pBuf (8 * i + k) = byteOf (pBuf (2 * i)) k := by
    intro k hk
    unfold pixelByte
    congr 2 <;> omega
  have hsecond : ∀ k, k < 4 →
      pixelByte pBuf (8 * i + (k + 4)) = byteOf (pBuf (2 * i + 1)) k := by
    intro k hk
    unfold pixelByte
    congr 2 <;> omega
  have hzero : pixelByte pBuf (8 * i) = byteOf (pBuf (2 * i)) 0 := hfirst 0 (by omega)
  simp [pixelBlock, pixelWords, hzero, hfirst, ← hsecond]

/-- One round of the loop writes two pixel words. -/
theorem Filled.packEight {pBuf : Nat → Word} {i : Nat} (h : Filled n us (buf, 9 * us.length))
    (hlen : us.length = 16 + 8 * i) (hroom : 27 + 9 * i ≤ n) :
    Filled n (us ++ (pixelWords (pBuf (2 * i)) ++ pixelWords (pBuf (2 * i + 1))))
      (packEight (fun k => pixelByte pBuf (8 * i + k)) (18 + 9 * i) buf,
        9 * (us ++ (pixelWords (pBuf (2 * i)) ++ pixelWords (pBuf (2 * i + 1)))).length) := by
  rw [← pixelBlock_eq]
  apply h.store
  · exact stored_swapped buf (18 + 9 * i) _ _ _
  · omega
  · simp only [blockBytes, List.length_cons, List.length_nil]
    omega
  · exact bitsOf_pixelBlock fun k => pixelByte pBuf (8 * i + k)

theorem pixelsWords_two_mul (pBuf : Nat → Word) (m : Nat) :
    pixelsWords pBuf (2 * (m + 1)) = pixelsWords pBuf (2 * m) ++
      (pixelWords (pBuf (2 * m)) ++ pixelWords (pBuf (2 * m + 1))) := by
  simp [pixelsWords, Nat.mul_add, List.range_succ]

/-- The loop over the pixels. -/
theorem Filled.packPixels (pBuf : Nat → Word) (m : Nat) (h : Filled n us (buf, 9 * us.length))
    (hlen : us.length = 16) (hroom : 18 + 9 * m ≤ n) :
    Filled n (us ++ pixelsWords pBuf (2 * m))
      ((List.range m).foldl
        (fun buf i => SpeechStack.packEight (fun k => pixelByte pBuf (8 * i + k)) (18 + 9 * i) buf)
        buf, 9 * (us ++ pixelsWords pBuf (2 * m)).length) := by
  induction m with
  -- on the rounds: each writes eight words
  | zero => simpa [pixelsWords] using h
  | succ m ih =>
      have hm := ih (by omega)
      rw [List.range_succ, List.foldl_append, pixelsWords_two_mul, ← List.append_assoc]
      apply hm.packEight
      · rw [List.length_append, pixelsWords_length, hlen]
        omega
      · omega

@[simp] theorem headerWords3_length (x y : Word) : (headerWords3 x y).length = 16 := by
  simp [headerWords3, coordinateWords]

@[simp] theorem displayWords3_length (pBuf : Nat → Word) (len : Nat) (x y : Word) :
    (displayWords3 pBuf len x y).length = 24 + 4 * len := by
  simp [displayWords3]
  omega

/-- The run of stores, from the cleared buffer on. An odd last pixel word is not stored. -/
theorem fillingSpiSendDisplayData3_filled (cells : Nat → Byte) (pBuf : Nat → Word) (len : Nat)
    (x y : Word) (hwrap : (24 + 4 * len) * 9 < 2 ^ 32)
    (hcheck : ((24 + 4 * len) * 9 + 7) / 8 ≤ TX_BUF_MAX_LEN) :
    ∃ s, fillingSpiSendDisplayData3 cells pBuf len x y
        = ⟨true, ((24 + 4 * len) * 9 + 7) / 8, s.1⟩ ∧
      Filled (((24 + 4 * len) * 9 + 7) / 8)
        (headerWords3 x y ++ pixelsWords pBuf (2 * (len / 2))) s := by
  obtain ⟨n, hn⟩ : ∃ n, ((24 + 4 * len) * 9 + 7) / 8 = n := ⟨_, rfl⟩
  rw [hn] at hcheck ⊢
  have hsize : (16 + len * 4 + 8) * 9 % 2 ^ 32 = (24 + 4 * len) * 9 := by
    rw [show (16 + len * 4 + 8) * 9 = (24 + 4 * len) * 9 by ring, Nat.mod_eq_of_lt hwrap]
  have hstart : Filled n [] (TxBuf.clear ⟨cells, []⟩ n, 0) := by
    constructor
    · exact spells_memset cells _
    · simp
    · simp [TxBuf.clear]
  have hheader := filled_fillHeaderWithnop1 x y hstart (by omega)
  rw [← headerWords3_length x y] at hheader
  have hpixels := hheader.packPixels pBuf (len / 2) (headerWords3_length x y) (by omega)
  refine ⟨_, ?_, hpixels⟩
  unfold fillingSpiSendDisplayData3
  dsimp only
  rw [hsize, spiSendLen_eq, hn, if_neg (by omega)]

/-! ## Refinement -/

/-- What is on the line: the bytes that are sent, split into nine-bit words. -/
def SpiSend.words (r : SpiSend) : List (BitVec 9) :=
  wordsOf 9 (bitsOf (load r.buf.cells 0 r.sendLen))

/-- The words of a transfer, once the rest of the last byte is too short for another. -/
theorem Filled.words {s : TxBuf × Nat} {ok : Bool} (h : Filled n us s)
    (hrest : 8 * n < 9 * us.length + 9) : SpiSend.words ⟨ok, n, s.1⟩ = us := by
  unfold SpiSend.words
  rw [h.spells.bitsOf_load]
  apply wordsOf_bitsOf
  rw [List.length_replicate, bitsOf_length]
  omega

/-- Zeros behind the last word are no-operations. -/
theorem bitsOf_nop (k : Nat) :
    bitsOf (List.replicate k (commandWord 0x00)) = List.replicate (9 * k) false := by
  induction k with
  | zero => simp
  | succ k ih =>
      rw [List.replicate_succ, bitsOf_cons, ih, Nat.mul_succ, Nat.add_comm, List.replicate_add]
      rfl

theorem dataWord_ne_nop (b : Byte) : dataWord b ≠ commandWord 0x00#8 := by
  intro h
  have hflag := congrArg BitVec.msb h
  simp [dataWord, commandWord] at hflag

/-- Without the no-operations the fast transfer is the plain one, but for its last word. -/
theorem displayWords_eq (pBuf : Nat → Word) (len : Nat) (x y : Word) :
    displayWords pBuf len x y
      = (displayWords3 pBuf len x y).filter (· ≠ commandWord 0x00) ++ [commandWord 0x00] := by
  have hpixels : (pixelsWords pBuf len).filter (· ≠ commandWord 0x00) = pixelsWords pBuf len := by
    apply List.filter_eq_self.mpr
    intro w hw
    simp only [pixelsWords, pixelWords, List.mem_flatMap, List.mem_cons, List.not_mem_nil,
      or_false] at hw
    obtain ⟨i, -, rfl | rfl | rfl | rfl⟩ := hw <;> simp [dataWord_ne_nop]
  have hheader : (headerWords3 x y).filter (· ≠ commandWord 0x00)
      = commandWord 0x2A :: coordinateWords x ++ commandWord 0x2B :: coordinateWords y ++
        [commandWord 0x2C] := by
    have hcommands : commandWord 0x2A#8 ≠ commandWord 0x00#8 ∧
        commandWord 0x2B#8 ≠ commandWord 0x00#8 ∧ commandWord 0x2C#8 ≠ commandWord 0x00#8 := by
      decide
    simp [headerWords3, coordinateWords, dataWord_ne_nop, hcommands]
  have hnops : (List.replicate 8 (commandWord 0x00)).filter (· ≠ commandWord 0x00) = [] := by
    simp
  unfold displayWords displayWords3
  rw [List.filter_append, List.filter_append, hheader, hpixels, hnops]
  simp

/-- What the fast encoder sends: the pixel words in pairs, then no-operations, four more of
them when a pixel word is left over. -/
theorem fillingSpiSendDisplayData3_sends (cells : Nat → Byte) (pBuf : Nat → Word) (len : Nat)
    (x y : Word) (hwrap : (24 + 4 * len) * 9 < 2 ^ 32)
    (hcheck : ((24 + 4 * len) * 9 + 7) / 8 ≤ TX_BUF_MAX_LEN) :
    (fillingSpiSendDisplayData3 cells pBuf len x y).ok = true ∧
      (fillingSpiSendDisplayData3 cells pBuf len x y).sendLen = ((24 + 4 * len) * 9 + 7) / 8 ∧
      (fillingSpiSendDisplayData3 cells pBuf len x y).words =
        headerWords3 x y ++ pixelsWords pBuf (2 * (len / 2)) ++
          List.replicate (8 + 4 * (len % 2)) (commandWord 0x00) := by
  obtain ⟨s, hr, hs⟩ := fillingSpiSendDisplayData3_filled cells pBuf len x y hwrap hcheck
  rw [hr]
  refine ⟨rfl, rfl, ?_⟩
  unfold SpiSend.words
  -- the cells behind the pixels are as `memset` has left them
  have hpad : bitsOf (load s.1.cells 0 (((24 + 4 * len) * 9 + 7) / 8))
      = bitsOf (headerWords3 x y ++ pixelsWords pBuf (2 * (len / 2)) ++
          List.replicate (8 + 4 * (len % 2)) (commandWord 0x00)) ++
        List.replicate (4 * (len % 2)) false := by
    rw [hs.spells.bitsOf_load, bitsOf_append _ (List.replicate (8 + _) _), bitsOf_nop,
      List.append_assoc, ← List.replicate_add, bitsOf_length, List.length_append,
      headerWords3_length, pixelsWords_length]
    congr 2
    omega
  rw [hpad]
  apply wordsOf_bitsOf
  rw [List.length_replicate]
  omega

theorem fillingSpiSendDisplayData3_words (cells : Nat → Byte) (pBuf : Nat → Word) {len : Nat}
    (x y : Word) (heven : 2 ∣ len) (hwrap : (24 + 4 * len) * 9 < 2 ^ 32)
    (hcheck : (24 + 4 * len) * 9 / 8 ≤ TX_BUF_MAX_LEN) :
    (fillingSpiSendDisplayData3 cells pBuf len x y).ok = true ∧
      8 * (fillingSpiSendDisplayData3 cells pBuf len x y).sendLen = 9 * (24 + 4 * len) ∧
      (fillingSpiSendDisplayData3 cells pBuf len x y).words = displayWords3 pBuf len x y := by
  obtain ⟨hok, hlen, hwords⟩ :=
    fillingSpiSendDisplayData3_sends cells pBuf len x y hwrap (by omega)
  have hrem : len % 2 = 0 := Nat.mod_eq_zero_of_dvd heven
  have hall : 2 * (len / 2) = len := by omega
  rw [hall, hrem] at hwords
  exact ⟨hok, by omega, hwords⟩

theorem fillingSpiSendDisplayData_words (cells : Nat → Byte) (pBuf : Nat → Word) {len : Nat}
    (x y : Word) (hwrap : (12 + 4 * len) * 9 < 2 ^ 32)
    (hcheck : ((12 + 4 * len) * 9 + 7) / 8 ≤ TX_BUF_MAX_LEN) :
    (fillingSpiSendDisplayData cells pBuf len x y).ok = true ∧
      (fillingSpiSendDisplayData cells pBuf len x y).words = displayWords pBuf len x y := by
  obtain ⟨s, hr, hs⟩ := fillingSpiSendDisplayData_filled cells pBuf len x y hwrap hcheck
  rw [hr]
  refine ⟨rfl, hs.words ?_⟩
  rw [displayWords_length]
  omega

/-- **The fast encoder refines the plain one.** For an even number of pixel words whose size
does not wrap and passes the check, the bytes of the fast transfer are whole words; without
the no-operations they are the plain transfer without the one at its end. -/
theorem fillingSpiSendDisplayData3_refines (cells cells' : Nat → Byte) (pBuf : Nat → Word)
    (len : Nat) (x y : Word) (heven : 2 ∣ len) (hwrap : (24 + 4 * len) * 9 < 2 ^ 32)
    (hcheck : (24 + 4 * len) * 9 / 8 ≤ TX_BUF_MAX_LEN) :
    let fast := fillingSpiSendDisplayData3 cells pBuf len x y
    let plain := fillingSpiSendDisplayData cells' pBuf len x y
    fast.ok = true ∧ plain.ok = true ∧ 8 * fast.sendLen = 9 * (24 + 4 * len) ∧
      fast.words = displayWords3 pBuf len x y ∧
      plain.words = fast.words.filter (· ≠ commandWord 0x00) ++ [commandWord 0x00] := by
  intro fast plain
  have hfast := fillingSpiSendDisplayData3_words cells pBuf x y heven hwrap hcheck
  have hplain := fillingSpiSendDisplayData_words cells' pBuf x y
    (show (12 + 4 * len) * 9 < 2 ^ 32 by omega) (by omega)
  refine ⟨hfast.1, hplain.1, hfast.2.1, hfast.2.2, ?_⟩
  calc plain.words = displayWords pBuf len x y := hplain.2
    _ = (displayWords3 pBuf len x y).filter (· ≠ commandWord 0x00) ++ [commandWord 0x00] :=
        displayWords_eq pBuf len x y
    _ = fast.words.filter (· ≠ commandWord 0x00) ++ [commandWord 0x00] := by rw [← hfast.2.2]

/-- Two pixel words between the header and the trailing no-operations. -/
theorem fillingSpiSendDisplayData3_refines_twoPixels :
    let pBuf : Nat → Word := fun i => if i = 0 then 0x12345678 else 0x9abcdef0
    let fast := fillingSpiSendDisplayData3 (fun _ => 0xff) pBuf 2 239 319
    let plain := fillingSpiSendDisplayData (fun _ => 0xff) pBuf 2 239 319
    fast.ok = true ∧ plain.ok = true ∧ 8 * fast.sendLen = 9 * (24 + 4 * 2) ∧
      fast.words = displayWords3 pBuf 2 239 319 ∧
      plain.words = fast.words.filter (· ≠ commandWord 0x00) ++ [commandWord 0x00] :=
  fillingSpiSendDisplayData3_refines _ _ _ 2 239 319 (by decide) (by decide) (by decide)

/-- The plain transfer has a no-operation of its own, so that taking them out of the fast one
alone does not make the two equal. -/
theorem fillingSpiSendDisplayData3_drops_nop :
    let fast := fillingSpiSendDisplayData3 (fun _ => 0) (fun _ => 0) 0 0 0
    let plain := fillingSpiSendDisplayData (fun _ => 0) (fun _ => 0) 0 0 0
    fast.ok = true ∧ plain.ok = true ∧
      fast.words.filter (· ≠ commandWord 0x00) ≠ plain.words := by
  intro fast plain
  have hfast := fillingSpiSendDisplayData3_words (fun _ => 0) (fun _ => 0) 0 0 (Nat.dvd_zero 2)
    (by decide) (by decide)
  have hplain := fillingSpiSendDisplayData_words (fun _ => 0) (fun _ => 0) 0 0
    (show (12 + 4 * 0) * 9 < 2 ^ 32 by decide) (by decide)
  refine ⟨hfast.1, hplain.1, ?_⟩
  show fast.words.filter (· ≠ commandWord 0x00) ≠ plain.words
  have hf : fast.words = displayWords3 (fun _ => 0) 0 0 0 := hfast.2.2
  have hp : plain.words = displayWords (fun _ => 0) 0 0 0 := hplain.2
  rw [hf, hp]
  decide

end SpeechStack
