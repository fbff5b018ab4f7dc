import SpeechStack.Lib.Bits
import SpeechStack.Speech.Frame

set_option autoImplicit false

/-! # The nine-bit display interface

A display transfer is a sequence of nine-bit words on a serial line: a bit that tells commands
from data, then a byte. `write_lcm_command` and `write_lcm_data` append one word at any bit
position of a cleared buffer; `filling_spi_send_display_data` is a run of them. The buffer
keeps a log of the cells that are stored into.
-/

namespace SpeechStack

open Memory Bits

/-- `unsigned char`. -/
abbrev Byte := BitVec 8

/-- `TX_BUF_MAX_LEN`: the size of the two transfer buffers. -/
def TX_BUF_MAX_LEN : Nat := 240 * 320 * 4 + 240 * 320 * 4 / 8 + 128

/-- `p_spi_send_buf`, and the cells that have been stored into. -/
structure TxBuf where
  cells : Nat → Byte
  written : List Nat

/-- `buf[i] = v`. -/
def TxBuf.put (buf : TxBuf) (i : Nat) (v : Byte) : TxBuf where
  cells := Function.update buf.cells i v
  written := buf.written ++ [i]

/-- `memset(buf, 0, n)`. -/
def TxBuf.clear (buf : TxBuf) (n : Nat) : TxBuf where
  cells := memset buf.cells 0 n 0
  written := buf.written ++ List.range n

/-- `get_u8_from_u32(buf, in_data)`: the four bytes, the most significant first. -/
def getU8FromU32 (inData : Word) : Nat → Byte
  | 0 => (inData >>> 24).setWidth 8
  | 1 => (inData >>> 16).setWidth 8
  | 2 => (inData >>> 8).setWidth 8
  | _ => inData.setWidth 8

/-- The part that the two write functions have in common: the byte, one bit behind `bitPos`,
across two cells or as a whole cell. -/
def writeLcmByte (b : Byte) (bitPos : Nat) (buf : TxBuf) : TxBuf :=
  let i := bitPos / 8
  let j := (bitPos % 8 + 1) % 8
  if j = 0 then buf.put (i + 1) b
  else
    let buf := buf.put i (buf.cells i ||| (b >>> j))
    buf.put (i + 1) (buf.cells (i + 1) ||| (b <<< (8 - j)))

/-- `write_lcm_command(lcm_cmd, buf, bit_pos)`; the state is the buffer and `*bit_pos`. -/
def writeLcmCommand (lcmCmd : Byte) (s : TxBuf × Nat) : TxBuf × Nat :=
  (writeLcmByte lcmCmd s.2 s.1, (s.2 + 9) % 2 ^ 32)

/-- `write_lcm_data(lcm_data, buf, bit_pos)`: the data bit first. -/
def writeLcmData (lcmData : Byte) (s : TxBuf × Nat) : TxBuf × Nat :=
  let i := s.2 / 8
  let buf := s.1.put i (s.1.cells i ||| (0x80#8 >>> (s.2 % 8)))
  (writeLcmByte lcmData s.2 buf, (s.2 + 9) % 2 ^ 32)

/-- What a filling function leaves behind: whether the length check has passed (otherwise it
returns -1), `spi_send_len`, and the buffer. -/
structure SpiSend where
  ok : Bool
  sendLen : Nat
  buf : TxBuf

/-- `spi_send_len` for a transfer of `i` bits. -/
def spiSendLen (i : Nat) : Nat := if i % 8 ≠ 0 then i / 8 + 1 else i / 8

/-- The four data words of `x` or `y`, in the order of `get_u8_from_u32`. -/
def writeCoordinate (x : Word) (s : TxBuf × Nat) : TxBuf × Nat :=
  (List.range 4).foldl (fun s i => writeLcmData (getU8FromU32 x i) s) s

/-- The body of the loop over the pixels. -/
def writePixel (pixel : Word) (s : TxBuf × Nat) : TxBuf × Nat :=
  let tempBuf := getU8FromU32 pixel
  let s := writeLcmData (tempBuf 2) s
  let s := writeLcmData (tempBuf 3) s
  let s := writeLcmData (tempBuf 0) s
  writeLcmData (tempBuf 1) s

/-- The writes of `filling_spi_send_display_data`, in order. -/
def writeDisplay (pBuf : Nat → Word) (len : Nat) (x y : Word) (s : TxBuf × Nat) : TxBuf × Nat :=
  let s := writeLcmCommand 0x2A s
  let s := writeCoordinate x s
  let s := writeLcmCommand 0x2B s
  let s := writeCoordinate y s
  let s := writeLcmCommand 0x2C s
  let s := (List.range len).foldl (fun s i => writePixel (pBuf i) s) s
  writeLcmCommand 0x00 s

/-- `filling_spi_send_display_data(data_buf, len, x, y)` on a buffer whose cells hold
`cells`. -/
def fillingSpiSendDisplayData (cells : Nat → Byte) (pBuf : Nat → Word) (len : Nat) (x y : Word) :
    SpiSend :=
  let i := (12 + len * 4) * 9 % 2 ^ 32
  let sendLen := spiSendLen i
  let buf : TxBuf := ⟨cells, []⟩
  if sendLen = 0 ∨ sendLen > TX_BUF_MAX_LEN then ⟨false, sendLen, buf⟩
  else ⟨true, sendLen, (writeDisplay pBuf len x y (buf.clear sendLen, 0)).1⟩

/-! ## Nine-bit words -/

/-- A command word. -/
def commandWord (b : Byte) : BitVec 9 := BitVec.cons false b

/-- A data word. -/
def dataWord (b : Byte) : BitVec 9 := BitVec.cons true b

/-- Byte `k` of a 32-bit word, counted from the least significant one. -/
def byteOf (x : Word) (k : Nat) : Byte := x.extractLsb' (8 * k) 8

/-- A coordinate, the most significant byte first. -/
def coordinateWords (x : Word) : List (BitVec 9) :=
  [dataWord (byteOf x 3), dataWord (byteOf x 2), dataWord (byteOf x 1), dataWord (byteOf x 0)]

/-- A pixel word holds two pixels of 16 bits, the first in its lower half. -/
def pixelWords (pixel : Word) : List (BitVec 9) :=
  [dataWord (byteOf pixel 1), dataWord (byteOf pixel 0), dataWord (byteOf pixel 3),
    dataWord (byteOf pixel 2)]

/-- The words of the first `len` pixel words. -/
def pixelsWords (pBuf : Nat → Word) (len : Nat) : List (BitVec 9) :=
  (List.range len).flatMap fun i => pixelWords (pBuf i)

/-- A transfer: column and row address, then the pixels, and a no-operation. -/
def displayWords (pBuf : Nat → Word) (len : Nat) (x y : Word) : List (BitVec 9) :=
  commandWord 0x2A :: coordinateWords x ++ commandWord 0x2B :: coordinateWords y ++
    commandWord 0x2C :: pixelsWords pBuf len ++ [commandWord 0x00]

theorem byteOf_eq (x : Word) (k : Nat) : byteOf x k = (x >>> (8 * k)).setWidth 8 := by
  apply BitVec.eq_of_getLsbD_eq
  intro i hi
  simp [byteOf, hi]

theorem getU8FromU32_eq (x : Word) {i : Nat} (hi : i < 4) :
    getU8FromU32 x i = byteOf x (3 - i) := by
  rw [byteOf_eq]
  interval_cases i <;> simp [getU8FromU32]

@[simp] theorem pixelsWords_length (pBuf : Nat → Word) (len : Nat) :
    (pixelsWords pBuf len).length = 4 * len := by
  induction len with
  | zero => rfl
  | succ len ih => simp_all [pixelsWords, List.range_succ, pixelWords]; omega

@[simp] theorem displayWords_length (pBuf : Nat → Word) (len : Nat) (x y : Word) :
    (displayWords pBuf len x y).length = 12 + 4 * len := by
  simp [displayWords, coordinateWords]
  omega

/-! ## One word -/

/-- Bit `k` of the data flag `0x80 >> q`. -/
theorem flag_getMsbD (q k : Nat) (hk : k < 8) :
    (0x80#8 >>> q).getMsbD k = decide (k = q) := by
  have hbit : ∀ i, i < 8 → (0x80#8).getMsbD i = decide (i = 0) := by decide
  rw [BitVec.getMsbD_ushiftRight]
  by_cases hq : k < q
  · simp [hq, Nat.ne_of_lt hq]
  · rw [hbit (k - q) (by omega)]
    simp [hk, hq]
    omega

/-- A store into one cell changes the bits of that cell only. -/
theorem TxBuf.bitAt_put (buf : TxBuf) (i k : Nat) (v : Byte) :
    bitAt (buf.put i v).cells k = if k / 8 = i then v.getMsbD (k % 8) else bitAt buf.cells k := by
  unfold bitAt TxBuf.put
  by_cases h : k / 8 = i
  · simp [h]
  · simp [h]

/-- The byte stands one bit behind `p`, where the bits were cleared, and nothing else has
changed. The cases are the byte-aligned store and the two halves of a straddling one. -/
theorem writeLcmByte_bit (b : Byte) (p : Nat) (buf : TxBuf) (k : Nat)
    (hclear : p + 1 ≤ k → k < p + 9 → bitAt buf.cells k = false) :
    bitAt (writeLcmByte b p buf).cells k =
      if p + 1 ≤ k ∧ k < p + 9 then b.getMsbD (k - (p + 1)) else bitAt buf.cells k := by
  unfold writeLcmByte
  by_cases hq : p % 8 = 7
  · -- byte-aligned: the next cell as a whole
    simp only [hq, Nat.reduceAdd, Nat.mod_self, if_true, TxBuf.bitAt_put]
    by_cases hk : k / 8 = p / 8 + 1
    · rw [if_pos hk, if_pos (by omega)]
      congr 1
      omega
    · rw [if_neg hk, if_neg (by omega)]
  · have hj : (p % 8 + 1) % 8 = p % 8 + 1 := Nat.mod_eq_of_lt (by omega)
    simp only [hj, Nat.add_one_ne_zero, if_false, TxBuf.bitAt_put]
    by_cases hk₁ : k / 8 = p / 8 + 1
    · -- the second cell takes the low bits
      have hcell : (buf.put (p / 8) (buf.cells (p / 8) ||| b >>> (p % 8 + 1))).cells (p / 8 + 1)
          = buf.cells (k / 8) := by simp [TxBuf.put, hk₁]
      rw [if_pos hk₁, hcell, BitVec.getMsbD_or, BitVec.getMsbD_shiftLeft]
      by_cases hin : p + 1 ≤ k ∧ k < p + 9
      · rw [if_pos hin, show (buf.cells (k / 8)).getMsbD (k % 8) = false from hclear hin.1 hin.2,
          Bool.false_or]
        congr 1
        omega
      · rw [if_neg hin, BitVec.getMsbD_of_ge b _ (by omega), Bool.or_false]
        rfl
    · rw [if_neg hk₁]
      by_cases hk₀ : k / 8 = p / 8
      · -- the first cell takes the high bits
        rw [if_pos hk₀, ← hk₀, BitVec.getMsbD_or, BitVec.getMsbD_ushiftRight]
        by_cases hin : p + 1 ≤ k ∧ k < p + 9
        · rw [if_pos hin, show (buf.cells (k / 8)).getMsbD (k % 8) = false from
            hclear hin.1 hin.2, Bool.false_or]
          have hshift : k % 8 - (p % 8 + 1) = k - (p + 1) := by omega
          simp [hshift, show k % 8 < 8 by omega, show ¬ k % 8 < p % 8 + 1 by omega]
        · rw [if_neg hin]
          simp [show k % 8 < p % 8 + 1 by omega]
          rfl
      · rw [if_neg hk₀, if_neg (by omega)]

theorem writeLcmCommand_bit (b : Byte) (s : TxBuf × Nat) (k : Nat)
    (hclear : s.2 ≤ k → k < s.2 + 9 → bitAt s.1.cells k = false) :
    bitAt (writeLcmCommand b s).1.cells k =
      if s.2 ≤ k ∧ k < s.2 + 9 then (commandWord b).getMsbD (k - s.2) else bitAt s.1.cells k := by
  unfold writeLcmCommand commandWord
  rw [writeLcmByte_bit b s.2 s.1 k fun h => hclear (by omega)]
  by_cases hin : s.2 + 1 ≤ k ∧ k < s.2 + 9
  · obtain ⟨j, rfl⟩ : ∃ j, k = s.2 + 1 + j := ⟨k - (s.2 + 1), by omega⟩
    rw [if_pos hin, if_pos (by omega), show s.2 + 1 + j - s.2 = j + 1 by omega,
      BitVec.getMsbD_cons_succ, Nat.add_sub_cancel_left]
  · rw [if_neg hin]
    -- the data bit is left as it was cleared
    by_cases hflag : k = s.2
    · rw [if_pos (by omega), hclear (by omega) (by omega), hflag, Nat.sub_self,
        BitVec.getMsbD_cons_zero]
    · rw [if_neg (by omega)]

theorem writeLcmData_bit (b : Byte) (s : TxBuf × Nat) (k : Nat)
    (hclear : s.2 ≤ k → k < s.2 + 9 → bitAt s.1.cells k = false) :
    bitAt (writeLcmData b s).1.cells k =
      if s.2 ≤ k ∧ k < s.2 + 9 then (dataWord b).getMsbD (k - s.2) else bitAt s.1.cells k := by
  -- the data bit is set first, and is the only bit that this changes
  have hflag : bitAt (s.1.put (s.2 / 8) (s.1.cells (s.2 / 8) ||| (0x80#8 >>> (s.2 % 8)))).cells k
      = if k = s.2 then true else bitAt s.1.cells k := by
    rw [TxBuf.bitAt_put]
    by_cases hk : k / 8 = s.2 / 8
    · rw [if_pos hk, BitVec.getMsbD_or, flag_getMsbD _ _ (by omega), ← hk]
      -- the data bit, or a bit outside the nine
      by_cases heq : k = s.2
      · simp [heq]
      · have hne : ¬ k % 8 = s.2 % 8 := by omega
        simp [heq, hne, bitAt]
    · rw [if_neg hk, if_neg (by omega)]
  unfold writeLcmData dataWord
  dsimp only
  rw [writeLcmByte_bit b s.2 _ k fun h₁ h₂ => by
    rw [hflag, if_neg (by omega)]
    exact hclear (by omega) h₂]
  by_cases hin : s.2 + 1 ≤ k ∧ k < s.2 + 9
  · obtain ⟨j, rfl⟩ : ∃ j, k = s.2 + 1 + j := ⟨k - (s.2 + 1), by omega⟩
    rw [if_pos hin, if_pos (by omega), show s.2 + 1 + j - s.2 = j + 1 by omega,
      BitVec.getMsbD_cons_succ, Nat.add_sub_cancel_left]
  · rw [if_neg hin, hflag]
    by_cases heq : k = s.2
    · rw [if_pos heq, if_pos (by omega), heq, Nat.sub_self, BitVec.getMsbD_cons_zero]
    · rw [if_neg heq, if_neg (by omega)]

/-! ## Runs of writes -/

/-- The words `us` have been written into a cleared buffer of `n` cells, from its start on, and
nothing has been stored outside. -/
structure Filled (n : Nat) (us : List (BitVec 9)) (s : TxBuf × Nat) : Prop where
  spells : Spells s.1.cells n (bitsOf us)
  pos : s.2 = 9 * us.length
  inside : ∀ i ∈ s.1.written, i < n

/-- `f` writes the words `ws` behind what has been written, where there is room. -/
def Emits (n : Nat) (f : TxBuf × Nat → TxBuf × Nat) (ws : List (BitVec 9)) : Prop :=
  ∀ us s, Filled n us s → 9 * (us.length + ws.length) ≤ 8 * n → Filled n (us ++ ws) (f s)

section Emits

variable {n : Nat} {f g : TxBuf × Nat → TxBuf × Nat} {vs ws : List (BitVec 9)}

theorem emits_nil : Emits n id [] := by
  intro us s hs _
  simpa using hs

theorem Emits.comp (hf : Emits n f vs) (hg : Emits n g ws) :
    Emits n (fun s => g (f s)) (vs ++ ws) := by
  intro us s hs hroom
  rw [List.length_append] at hroom
  rw [← List.append_assoc]
  apply hg
  · exact hf us s hs (by omega)
  · rw [List.length_append]
    omega

theorem Emits.foldl {h : Nat → TxBuf × Nat → TxBuf × Nat} {words : Nat → List (BitVec 9)}
    (hh : ∀ i, Emits n (h i) (words i)) (l : Nat) :
    Emits n (fun s => (List.range l).foldl (fun s i => h i s) s)
      ((List.range l).flatMap words) := by
  induction l with
  | zero => exact emits_nil
  | succ l ih =>
      simp only [List.range_succ, List.foldl_append, List.flatMap_append, List.foldl_cons,
        List.foldl_nil, List.flatMap_singleton]
      exact ih.comp (hh l)

/-- A function that fills the next nine bits emits a word. -/
theorem emits_of_bit {w : BitVec 9} (hn : 8 * n < 2 ^ 32)
    (hbit : ∀ s k, (s.2 ≤ k → k < s.2 + 9 → bitAt s.1.cells k = false) →
      bitAt (f s).1.cells k =
        if s.2 ≤ k ∧ k < s.2 + 9 then w.getMsbD (k - s.2) else bitAt s.1.cells k)
    (hpos : ∀ s, (f s).2 = (s.2 + 9) % 2 ^ 32)
    (hwritten : ∀ s, ∀ i ∈ (f s).1.written, i ∈ s.1.written ∨ i = s.2 / 8 ∨ i = s.2 / 8 + 1) :
    Emits n f [w] := by
  intro us s hs hroom
  have hp := hs.pos
  have hlen : (bitsOf us).length = 9 * us.length := bitsOf_length us
  rw [List.length_singleton] at hroom
  -- behind what has been written the buffer is still cleared
  have hclear : ∀ k, s.2 ≤ k → k < s.2 + 9 → bitAt s.1.cells k = false := by
    intro k h₁ h₂
    rw [hs.spells.bit k (by omega), List.getD_eq_default _ _ (by omega)]
  constructor
  · rw [bitsOf_append, bitsOf_singleton]
    apply hs.spells.append
    · rw [hlen, bits_length]
      omega
    · intro k hk
      rw [bits_length] at hk
      rw [hlen, ← hp, hbit s _ (hclear _), if_pos (by omega), bits_getD, Nat.add_sub_cancel_left]
    · intro k hk hout
      rw [hlen, bits_length, ← hp] at hout
      rw [hbit s k (hclear k), if_neg (by omega)]
  · rw [hpos, List.length_append, List.length_singleton, Nat.mod_eq_of_lt (by omega)]
    omega
  · intro i hi
    rcases hwritten s i hi with h | h | h
    · exact hs.inside i h
    · omega
    · omega

theorem writeLcmByte_written (b : Byte) (p : Nat) (buf : TxBuf) :
    ∀ i ∈ (writeLcmByte b p buf).written, i ∈ buf.written ∨ i = p / 8 ∨ i = p / 8 + 1 := by
  intro i hi
  unfold writeLcmByte at hi
  dsimp only at hi
  split at hi
  · simp only [TxBuf.put, List.mem_append, List.mem_singleton] at hi
    tauto
  · simp only [TxBuf.put, List.mem_append, List.mem_singleton] at hi
    tauto

theorem emits_writeLcmCommand (hn : 8 * n < 2 ^ 32) (b : Byte) :
    Emits n (writeLcmCommand b) [commandWord b] :=
  emits_of_bit hn (writeLcmCommand_bit b) (fun _ => rfl) fun s => writeLcmByte_written b s.2 s.1

theorem emits_writeLcmData (hn : 8 * n < 2 ^ 32) (b : Byte) :
    Emits n (writeLcmData b) [dataWord b] := by
  apply emits_of_bit hn (writeLcmData_bit b) (fun _ => rfl)
  intro s i hi
  rcases writeLcmByte_written b s.2 _ i hi with h | h
  · simp only [TxBuf.put, List.mem_append, List.mem_singleton] at h
    tauto
  · exact Or.inr h

theorem emits_writeCoordinate (hn : 8 * n < 2 ^ 32) (x : Word) :
    Emits n (writeCoordinate x) (coordinateWords x) := by
  have hfold := Emits.foldl (n := n) (fun i => emits_writeLcmData hn (getU8FromU32 x i)) 4
  have hwords : (List.range 4).flatMap (fun i => [dataWord (getU8FromU32 x i)])
      = coordinateWords x := by
    simp [List.range_succ, coordinateWords, getU8FromU32_eq]
  rwa [hwords] at hfold

theorem emits_writePixel (hn : 8 * n < 2 ^ 32) (pixel : Word) :
    Emits n (writePixel pixel) (pixelWords pixel) := by
  -- the source sends the bytes 2, 3, 0, 1, each counted from the top
  have hcomp := (((emits_writeLcmData hn (getU8FromU32 pixel 2)).comp
    (emits_writeLcmData hn (getU8FromU32 pixel 3))).comp
    (emits_writeLcmData hn (getU8FromU32 pixel 0))).comp
    (emits_writeLcmData hn (getU8FromU32 pixel 1))
  have hwords : [dataWord (getU8FromU32 pixel 2)] ++ [dataWord (getU8FromU32 pixel 3)] ++
      [dataWord (getU8FromU32 pixel 0)] ++ [dataWord (getU8FromU32 pixel 1)]
      = pixelWords pixel := by
    simp [getU8FromU32_eq, pixelWords]
  rwa [hwords] at hcomp

theorem emits_writeDisplay (hn : 8 * n < 2 ^ 32) (pBuf : Nat → Word) (len : Nat) (x y : Word) :
    Emits n (writeDisplay pBuf len x y) (displayWords pBuf len x y) := by
  have hrun := ((((((emits_writeLcmCommand hn 0x2A).comp (emits_writeCoordinate hn x)).comp
    (emits_writeLcmCommand hn 0x2B)).comp (emits_writeCoordinate hn y)).comp
    (emits_writeLcmCommand hn 0x2C)).comp
    (Emits.foldl (fun i => emits_writePixel hn (pBuf i)) len)).comp (emits_writeLcmCommand hn 0x00)
  have hwords : ((((([commandWord 0x2A] ++ coordinateWords x) ++ [commandWord 0x2B]) ++
      coordinateWords y) ++ [commandWord 0x2C]) ++
      (List.range len).flatMap (fun i => pixelWords (pBuf i))) ++ [commandWord 0x00]
      = displayWords pBuf len x y := by
    simp [displayWords, pixelsWords]
  rwa [hwords] at hrun

end Emits

/-! ## The plain encoder -/

theorem spiSendLen_eq (i : Nat) : spiSendLen i = (i + 7) / 8 := by
  unfold spiSendLen
  split <;> omega

/-- The run of writes, from the cleared buffer on. -/
theorem fillingSpiSendDisplayData_filled (cells : Nat → Byte) (pBuf : Nat → Word) (len : Nat)
    (x y : Word) (hwrap : (12 + 4 * len) * 9 < 2 ^ 32)
    (hcheck : ((12 + 4 * len) * 9 + 7) / 8 ≤ TX_BUF_MAX_LEN) :
    ∃ s, fillingSpiSendDisplayData cells pBuf len x y
        = ⟨true, ((12 + 4 * len) * 9 + 7) / 8, s.1⟩ ∧
      Filled (((12 + 4 * len) * 9 + 7) / 8) (displayWords pBuf len x y) s := by
  have hmax : 8 * TX_BUF_MAX_LEN < 2 ^ 32 := by decide
  obtain ⟨n, hn⟩ : ∃ n, ((12 + 4 * len) * 9 + 7) / 8 = n := ⟨_, rfl⟩
  rw [hn] at hcheck ⊢
  refine ⟨writeDisplay pBuf len x y (TxBuf.clear ⟨cells, []⟩ n, 0), ?_, ?_⟩
  · unfold fillingSpiSendDisplayData
    dsimp only
    rw [Nat.mul_comm len 4, Nat.mod_eq_of_lt hwrap, spiSendLen_eq, hn, if_neg (by omega)]
  · have hstart : Filled n [] (TxBuf.clear ⟨cells, []⟩ n, 0) := by
      constructor
      · exact spells_memset cells n
      · simp
      · simp [TxBuf.clear]
    have hend := emits_writeDisplay (by omega) pBuf len x y [] _ hstart (by
      rw [displayWords_length, List.length_nil]
      omega)
    rwa [List.nil_append] at hend

/-- **Nine-bit framing.** When the size does not wrap and passes the check, `spi_send_len` is
the number of bytes that the words fill, nothing is stored outside these bytes, and their bits
are the words of the transfer, one after the other, followed by zeros. -/
theorem fillingSpiSendDisplayData_frames (cells : Nat → Byte) (pBuf : Nat → Word) (len : Nat)
    (x y : Word) (hwrap : (12 + 4 * len) * 9 < 2 ^ 32)
    (hcheck : ((12 + 4 * len) * 9 + 7) / 8 ≤ TX_BUF_MAX_LEN) :
    let r := fillingSpiSendDisplayData cells pBuf len x y
    let n := ((12 + 4 * len) * 9 + 7) / 8
    r.ok = true ∧ r.sendLen = n ∧ (∀ i ∈ r.buf.written, i < n) ∧
      bitsOf (load r.buf.cells 0 n) = bitsOf (displayWords pBuf len x y) ++
        List.replicate (8 * n - 9 * (12 + 4 * len)) false := by
  intro r n
  obtain ⟨s, hr, hs⟩ := fillingSpiSendDisplayData_filled cells pBuf len x y hwrap hcheck
  have hr : r = ⟨true, n, s.1⟩ := hr
  rw [hr]
  refine ⟨rfl, rfl, hs.inside, ?_⟩
  rw [hs.spells.bitsOf_load, bitsOf_length, displayWords_length]

/-- Two pixel words: 180 bits, so that half a byte of zeros is left. -/
theorem fillingSpiSendDisplayData_frames_twoPixels :
    let pBuf : Nat → Word := fun i => if i = 0 then 0x12345678 else 0x9abcdef0
    let r := fillingSpiSendDisplayData (fun _ => 0xff) pBuf 2 239 319
    let n := ((12 + 4 * 2) * 9 + 7) / 8
    r.ok = true ∧ r.sendLen = n ∧ (∀ i ∈ r.buf.written, i < n) ∧
      bitsOf (load r.buf.cells 0 n) = bitsOf (displayWords pBuf 2 239 319) ++
        List.replicate (8 * n - 9 * (12 + 4 * 2)) false :=
  fillingSpiSendDisplayData_frames _ _ 2 239 319 (by decide) (by decide)

end SpeechStack
