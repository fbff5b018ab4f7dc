import SpeechStack.Display.Fast

set_option autoImplicit false

/-! # The other encoders

`filling_spi_send_display_data1`, `_data2` and `_data4` are variants of
`filling_spi_send_display_data3`: the same sizes, an eighteen-byte header, and nine bytes for
every eight bytes of pixels. They differ in how a block of nine bytes is computed, and the first
two write the header with 64-bit words. What they have in common is `fillSpiSend`; the blocks of
a payload are independent of each other (`rounds_cells`).
-/

namespace SpeechStack

open Memory

/-! ## 64-bit words -/

/-- `swap_endian_64(x)`. -/
def swapEndian64 (x : BitVec 64) : BitVec 64 :=
  ((x &&& 0x00000000000000ff#64) <<< 56) ||| ((x &&& 0x000000000000ff00#64) <<< 40) |||
    ((x &&& 0x0000000000ff0000#64) <<< 24) ||| ((x &&& 0x00000000ff000000#64) <<< 8) |||
    ((x &&& 0x000000ff00000000#64) >>> 8) ||| ((x &&& 0x0000ff0000000000#64) >>> 24) |||
    ((x &&& 0x00ff000000000000#64) >>> 40) ||| ((x &&& 0xff00000000000000#64) >>> 56)

/-- A byte of a 64-bit expression: `(ull64)((ull64)p[k])`. -/
def ull64 (b : Byte) : BitVec 64 := b.setWidth 64

/-- `*(ull64 *)(buf + i) = v`. -/
def TxBuf.putU64 (buf : TxBuf) (i : Nat) (v : BitVec 64) : TxBuf :=
  (List.range 8).foldl (fun buf k => buf.put (i + k) (v.extractLsb' (8 * k) 8)) buf

/-- `*(ull64 *)(buf + i)`. -/
def TxBuf.getU64 (buf : TxBuf) (i : Nat) : BitVec 64 :=
  buf.cells (i + 7) ++ buf.cells (i + 6) ++ buf.cells (i + 5) ++ buf.cells (i + 4) ++
    buf.cells (i + 3) ++ buf.cells (i + 2) ++ buf.cells (i + 1) ++ buf.cells i

/-- `pbits[0] |= v` for the 64-bit word at byte `i`. -/
def TxBuf.orU64 (buf : TxBuf) (i : Nat) (v : BitVec 64) : TxBuf :=
  buf.putU64 i (buf.getU64 i ||| v)

def BIG_HEADER0_MASK : BitVec 64 := 0x0AA0100804005701#64
def BIG_HEADER_NOP_MASK : BitVec 64 := 0x4020000000000000#64
def BIG_DATA_MASK : BitVec 64 := 0x4020100804020101#64

/-- `fill_header_withnop(x, y, dst)`. -/
def fillHeaderWithnop (x _y : Word) (dst : Nat) (buf : TxBuf) : TxBuf :=
  let px := byteOf x
  -- the source takes the address of `x` for `py` as well
  let py := byteOf x
  let buf := buf.orU64 dst BIG_HEADER0_MASK
  let buf := buf.orU64 dst
    (ull64 (px 3) <<< 46 ||| ull64 (px 2) <<< 37 ||| ull64 (px 1) <<< 28 ||| ull64 (px 0) <<< 19 |||
      ull64 (py 3) <<< 1)
  let buf := buf.putU64 dst (swapEndian64 (buf.getU64 dst))
  let buf := buf.put (dst + 8) (py 2)
  let pbits := dst + 9
  let buf := buf.orU64 pbits BIG_HEADER_NOP_MASK
  let buf := buf.orU64 pbits (ull64 (py 1) <<< 55 ||| ull64 (py 0) <<< 46)
  let buf := buf.putU64 pbits (swapEndian64 (buf.getU64 pbits))
  buf.put (dst + 17) 0x2c

/-! ## The encoders -/

/-- What the four encoders share: the size and its check, then the header and one round of the
loop for every two pixel words. -/
def fillSpiSend (header : TxBuf → TxBuf) (round : Nat → TxBuf → TxBuf) (cells : Nat → Byte)
    (len : Nat) : SpiSend :=
  let i := (16 + len * 4 + 8) * 9 % 2 ^ 32
  let sendLen := spiSendLen i
  let buf : TxBuf := ⟨cells, []⟩
  if sendLen = 0 ∨ sendLen > TX_BUF_MAX_LEN then ⟨false, sendLen, buf⟩
  else ⟨true, sendLen, (List.range (len / 2)).foldl (fun buf i => round i buf)
    (header (buf.clear sendLen))⟩

/-- The body of the loop of `filling_spi_send_display_data1`, in round `i`: the word that is
swapped is `pbits[i]`. -/
def packEight1 (psrc : Nat → Byte) (i pbits pdst : Nat) (buf : TxBuf) : TxBuf :=
  let buf := buf.orU64 pbits BIG_DATA_MASK
  let buf := buf.orU64 pbits
    (ull64 (psrc 1) <<< 55 ||| ull64 (psrc 0) <<< 46 ||| ull64 (psrc 3) <<< 37 |||
      ull64 (psrc 2) <<< 28 ||| ull64 (psrc 5) <<< 19 ||| ull64 (psrc 4) <<< 10 |||
      ull64 (psrc 7) <<< 1)
  let buf := buf.putU64 pbits (swapEndian64 (buf.getU64 (pbits + 8 * i)))
  buf.put (pdst + 8) (psrc 6)

/-- `filling_spi_send_display_data1(data_buf, len, x, y)`. In the first round `pbits` is still
at the start of the buffer. -/
def fillingSpiSendDisplayData1 (cells : Nat → Byte) (pBuf : Nat → Word) (len : Nat) (x y : Word) :
    SpiSend :=
  fillSpiSend (fillHeaderWithnop x y 0)
    (fun i => packEight1 (fun k => pixelByte pBuf (8 * i + k)) i
      (if i = 0 then 0 else 18 + 9 * i) (18 + 9 * i)) cells len

/-- An expression of C's `int` on a byte, cut down by `(unsigned char)`. -/
def uchar (e : Word) : Byte := e.setWidth 8

/-- The nine byte expressions of `filling_spi_send_display_data2`. -/
def packedBytes (psrc : Nat → Byte) : List Byte :=
  [uchar (0x80#32 ||| ul32 (psrc 1) >>> 1),
   uchar (0x40#32 ||| ul32 (psrc 0) >>> 2 ||| ul32 (psrc 1) <<< 7),
   uchar (0x20#32 ||| ul32 (psrc 3) >>> 3 ||| ul32 (psrc 0) <<< 6),
   uchar (0x10#32 ||| ul32 (psrc 2) >>> 4 ||| ul32 (psrc 3) <<< 5),
   uchar (0x08#32 ||| ul32 (psrc 5) >>> 5 ||| ul32 (psrc 2) <<< 4),
   uchar (0x04#32 ||| ul32 (psrc 4) >>> 6 ||| ul32 (psrc 5) <<< 3),
   uchar (0x02#32 ||| ul32 (psrc 7) >>> 7 ||| ul32 (psrc 4) <<< 2),
   uchar (0x01#32 ||| ul32 (psrc 7) <<< 1),
   uchar (ul32 (psrc 6))]

/-- The body of the loop of `filling_spi_send_display_data2`: `pdst[0]` to `pdst[8]`. -/
def packEight2 (psrc : Nat → Byte) (pdst : Nat) (buf : TxBuf) : TxBuf :=
  (List.range 9).foldl (fun buf k => buf.put (pdst + k) ((packedBytes psrc).getD k 0)) buf

/-- `filling_spi_send_display_data2(data_buf, len, x, y)`. -/
def fillingSpiSendDisplayData2 (cells : Nat → Byte) (pBuf : Nat → Word) (len : Nat) (x y : Word) :
    SpiSend :=
  fillSpiSend (fillHeaderWithnop x y 0)
    (fun i => packEight2 (fun k => pixelByte pBuf (8 * i + k)) (18 + 9 * i)) cells len

/-- `pbits[0]` of `filling_spi_send_display_data4`. -/
def memoryLo (psrc : Nat → Byte) : Word :=
  ul32 (psrc 1) >>> 1 ||| ul32 (psrc 1 &&& 0x01) <<< 15 ||| ul32 (psrc 0 &&& 0xfc) <<< 6 |||
    ul32 (psrc 0 &&& 0x03) <<< 24 ||| ul32 (psrc 3 &&& 0xf8) <<< 13 |||
    ul32 (psrc 3 &&& 0x07) <<< 29 ||| ul32 (psrc 2 &&& 0xf0) <<< 20 ||| 0x10204080#32

/-- `pbits[1]` of `filling_spi_send_display_data4`. -/
def memoryHi (psrc : Nat → Byte) : Word :=
  ul32 (psrc 2 &&& 0x0f) <<< 4 ||| ul32 (psrc 5 &&& 0xe0) >>> 5 |||
    ul32 (psrc 5 &&& 0x1f) <<< 11 ||| ul32 (psrc 4 &&& 0xc0) <<< 2 |||
    ul32 (psrc 4 &&& 0x3f) <<< 18 ||| ul32 (psrc 7 &&& 0x80) <<< 9 |||
    ul32 (psrc 7 &&& 0xfe) <<< 25 ||| 0x01020408#32

/-- The body of the loop of `filling_spi_send_display_data4`: the two words in memory order. -/
def packEight4 (psrc : Nat → Byte) (pdst : Nat) (buf : TxBuf) : TxBuf :=
  let buf := buf.putU32 pdst (memoryLo psrc)
  let buf := buf.putU32 (pdst + 4) (memoryHi psrc)
  buf.put (pdst + 8) (psrc 6)

/-- `filling_spi_send_display_data4(data_buf, len, x, y)`. -/
def fillingSpiSendDisplayData4 (cells : Nat → Byte) (pBuf : Nat → Word) (len : Nat) (x y : Word) :
    SpiSend :=
  fillSpiSend (fillHeaderWithnop1 x y 0)
    (fun i => packEight4 (fun k => pixelByte pBuf (8 * i + k)) (18 + 9 * i)) cells len

/-- `filling_spi_send_display_data3` is of the same shape. -/
theorem fillingSpiSendDisplayData3_eq (cells : Nat → Byte) (pBuf : Nat → Word) (len : Nat)
    (x y : Word) : fillingSpiSendDisplayData3 cells pBuf len x y =
      fillSpiSend (fillHeaderWithnop1 x y 0)
        (fun i => packEight (fun k => pixelByte pBuf (8 * i + k)) (18 + 9 * i)) cells len := rfl

/-! ## What is stored -/

/-- Some of the `n` cells from `d` on have been stored into, and nothing else. -/
structure Touches (buf buf' : TxBuf) (d n : Nat) : Prop where
  old : ∀ i, i < d ∨ d + n ≤ i → buf'.cells i = buf.cells i
  inside : ∀ i ∈ buf'.written, i ∈ buf.written ∨ (d ≤ i ∧ i < d + n)
  log : ∀ i ∈ buf.written, i ∈ buf'.written

section Touches

variable {buf buf' buf'' : TxBuf} {d n i : Nat}

theorem Touches.refl (buf : TxBuf) (d n : Nat) : Touches buf buf d n :=
  ⟨fun _ _ => rfl, fun _ hi => Or.inl hi, fun _ hi => hi⟩

theorem Touches.trans (h₁ : Touches buf buf' d n) (h₂ : Touches buf' buf'' d n) :
    Touches buf buf'' d n where
  old := fun i hi => (h₂.old i hi).trans (h₁.old i hi)
  inside := by
    intro i hi
    rcases h₂.inside i hi with h | h
    · exact h₁.inside i h
    · exact Or.inr h
  log := fun i hi => h₂.log i (h₁.log i hi)

/-- One more store. -/
theorem Touches.put {v : Byte} (h : Touches buf buf' d n) (h₁ : d ≤ i) (h₂ : i < d + n) :
    Touches buf (buf'.put i v) d n := by
  apply h.trans
  constructor
  · intro k hk
    rw [TxBuf.put_cells, if_neg (by omega)]
  · intro k hk
    rcases List.mem_append.mp hk with hold | hnew
    · exact Or.inl hold
    · rw [List.mem_singleton.mp hnew]
      exact Or.inr ⟨h₁, h₂⟩
  · exact fun _ hk => List.mem_append_left _ hk

theorem Touches.putU32 {v : Word} (h : Touches buf buf' d n) (h₁ : d ≤ i) (h₂ : i + 4 ≤ d + n) :
    Touches buf (buf'.putU32 i v) d n := by
  unfold TxBuf.putU32
  exact (((h.put h₁ (by omega)).put (by omega) (by omega)).put (by omega) (by omega)).put
    (by omega) (by omega)

theorem Touches.foldl {f : Nat → TxBuf → TxBuf} {m : Nat}
    (hf : ∀ k, k < m → ∀ b, Touches b (f k b) d n) (buf : TxBuf) :
    Touches buf ((List.range m).foldl (fun b k => f k b) buf) d n := by
  induction m with
  | zero => exact Touches.refl buf d n
  | succ m ih =>
      rw [List.range_succ, List.foldl_append]
      exact (ih fun k hk => hf k (by omega)).trans (hf m (by omega) _)

theorem Touches.putU64 {v : BitVec 64} (h : Touches buf buf' d n) (h₁ : d ≤ i)
    (h₂ : i + 8 ≤ d + n) : Touches buf (buf'.putU64 i v) d n :=
  h.trans (Touches.foldl (fun k hk b => (Touches.refl b d n).put (by omega) (by omega)) buf')

theorem touches_fillHeaderWithnop (x y : Word) (buf : TxBuf) :
    Touches buf (fillHeaderWithnop x y 0 buf) 0 18 :=
  ((((((((Touches.refl buf 0 18).putU64 (by omega) (by omega)).putU64 (by omega) (by omega)).putU64
    (by omega) (by omega)).put (by omega) (by omega)).putU64 (by omega) (by omega)).putU64
    (by omega) (by omega)).putU64 (by omega) (by omega)).put (by omega) (by omega)

theorem touches_fillHeaderWithnop1 (x y : Word) (buf : TxBuf) :
    Touches buf (fillHeaderWithnop1 x y 0 buf) 0 18 :=
  (((((((((Touches.refl buf 0 18).putU32 (by omega) (by omega)).putU32 (by omega) (by omega)).putU32
    (by omega) (by omega)).putU32 (by omega) (by omega)).put (by omega) (by omega)).putU32
    (by omega) (by omega)).putU32 (by omega) (by omega)).putU32 (by omega) (by omega)).put
    (by omega) (by omega)

end Touches

end SpeechStack
