import SpeechStack.Display.Fast

set_option autoImplicit false

/-! # The pixels of the fast encoder

The loop of `filling_spi_send_display_data3` takes two pixel words a round, and `spi_send_len`
is computed from all of them. An odd last one is not stored: where its four data words should be
the line carries no-operations.
-/

namespace SpeechStack

/-- The words behind the memory write command. -/
def payload (ws : List (BitVec 9)) : List (BitVec 9) :=
  (ws.dropWhile (· ≠ commandWord 0x2C)).tail

/-- The transfer sends `len` pixel words, in order, and then only no-operations. -/
def SpiSend.SendsPixels (r : SpiSend) (pBuf : Nat → Word) (len : Nat) : Prop :=
  r.ok = true ∧
    ∃ nops, payload r.words = pixelsWords pBuf len ++ List.replicate nops (commandWord 0x00)

/-- The header ends with the first memory write command. -/
theorem payload_headerWords3 (x y : Word) (ws : List (BitVec 9)) :
    payload (headerWords3 x y ++ ws) = ws := by
  have hdata : ∀ b, dataWord b ≠ commandWord 0x2C#8 := by
    intro b h
    have hflag := congrArg BitVec.msb h
    simp [dataWord, commandWord] at hflag
  have hcommands : commandWord 0x2A#8 ≠ commandWord 0x2C#8 ∧
      commandWord 0x2B#8 ≠ commandWord 0x2C#8 ∧ commandWord 0x00#8 ≠ commandWord 0x2C#8 := by
    decide
  -- no word before it is that command
  simp [payload, headerWords3, coordinateWords, List.replicate_succ, hdata, hcommands]

/-- **No pixel is dropped** when the number of pixel words is even, and the last one is when it
is odd. -/
theorem fillingSpiSendDisplayData3_sendsPixels_iff (cells : Nat → Byte) (pBuf : Nat → Word)
    (len : Nat) (x y : Word) (hwrap : (24 + 4 * len) * 9 < 2 ^ 32)
    (hcheck : ((24 + 4 * len) * 9 + 7) / 8 ≤ TX_BUF_MAX_LEN) :
    (fillingSpiSendDisplayData3 cells pBuf len x y).SendsPixels pBuf len ↔ 2 ∣ len := by
  obtain ⟨hok, -, hwords⟩ := fillingSpiSendDisplayData3_sends cells pBuf len x y hwrap hcheck
  rw [SpiSend.SendsPixels, hwords, List.append_assoc, payload_headerWords3]
  constructor
  · rintro ⟨-, nops, hsent⟩
    by_contra hodd
    -- where the last pixel word should begin stands a no-operation
    obtain ⟨m, hm⟩ : ∃ m, len = 2 * m + 1 := ⟨len / 2, by omega⟩
    have hhalf : 2 * (len / 2) = 2 * m := by omega
    have hlast : pixelsWords pBuf len = pixelsWords pBuf (2 * m) ++ pixelWords (pBuf (2 * m)) := by
      rw [hm]
      simp [pixelsWords, List.range_succ]
    have hrem : 8 + 4 * (len % 2) = 11 + 1 := by omega
    rw [hhalf, hlast, List.append_assoc, hrem, List.replicate_succ] at hsent
    have htail := List.append_cancel_left hsent
    rw [pixelWords, List.cons_append, List.cons.injEq] at htail
    exact dataWord_ne_nop _ htail.1.symm
  · intro heven
    have hall : 2 * (len / 2) = len := by omega
    exact ⟨hok, _, by rw [hall]⟩

/-- One pixel word: none of it is sent. -/
theorem fillingSpiSendDisplayData3_drops_pixel :
    (24 + 4 * 1) * 9 < 2 ^ 32 ∧ ((24 + 4 * 1) * 9 + 7) / 8 ≤ TX_BUF_MAX_LEN ∧
    payload (fillingSpiSendDisplayData3 (fun _ => 0) (fun _ => 0xffffffff) 1 0 0).words
      = List.replicate 12 (commandWord 0x00) ∧
    ¬ (fillingSpiSendDisplayData3 (fun _ => 0) (fun _ => 0xffffffff) 1 0 0).SendsPixels
      (fun _ => 0xffffffff) 1 := by
  obtain ⟨-, -, hwords⟩ := fillingSpiSendDisplayData3_sends (fun _ => 0) (fun _ => 0xffffffff) 1 0 0
    (by decide) (by decide)
  have hsent : payload (fillingSpiSendDisplayData3 (fun _ => 0) (fun _ => 0xffffffff) 1 0 0).words
      = List.replicate 12 (commandWord 0x00) := by
    rw [hwords, List.append_assoc, payload_headerWords3]
    rfl
  refine ⟨by decide, by decide, hsent, ?_⟩
  rintro ⟨-, nops, hpixels⟩
  rw [hsent] at hpixels
  exact dataWord_ne_nop _ (List.cons.inj hpixels).1.symm

/-- Two pixel words are sent. -/
theorem fillingSpiSendDisplayData3_sendsPixels_iff_two :
    (fillingSpiSendDisplayData3 (fun _ => 0xff) (fun _ => 0x12345678) 2 239 319).SendsPixels
      (fun _ => 0x12345678) 2 ↔ 2 ∣ 2 :=
  fillingSpiSendDisplayData3_sendsPixels_iff _ _ 2 239 319 (by decide) (by decide)

end SpeechStack
