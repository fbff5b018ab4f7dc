import SpeechStack.Lib.LittleEndian
import SpeechStack.Lib.Loop
import SpeechStack.Tinyalsa.State

set_option autoImplicit false

/-! # `tinycap` and `tinyplay`

The two programs that come with the library record to a file and play one. `tinycap` writes the
samples first and then, at the start of the file, a header of 44 bytes; `tinyplay` looks through the
chunks of the file for the format and the samples. It has no test for the end of the file: without
a data chunk it looks for one for ever.

A variable that C has not set is memory of any content.
-/

namespace SpeechStack.Tools

open LittleEndian Wrap

def ID_RIFF : Nat := 0x46464952
def ID_WAVE : Nat := 0x45564157
def ID_FMT : Nat := 0x20746d66
def ID_DATA : Nat := 0x61746164

def FORMAT_PCM : Nat := 1

/-! ## Recording -/

/-- `struct wav_header`. -/
structure WavHeader where
  riffId : Nat
  riffSz : Nat
  riffFmt : Nat
  fmtId : Nat
  fmtSz : Nat
  audioFormat : Nat
  numChannels : Nat
  sampleRate : Nat
  byteRate : Nat
  blockAlign : Nat
  bitsPerSample : Nat
  dataId : Nat
  dataSz : Nat

/-- The header in memory. -/
def WavHeader.bytes (h : WavHeader) : List UInt8 :=
  encode 4 h.riffId ++ encode 4 h.riffSz ++ encode 4 h.riffFmt ++
    encode 4 h.fmtId ++ encode 4 h.fmtSz ++
    (encode 2 h.audioFormat ++ encode 2 h.numChannels ++ encode 4 h.sampleRate ++
      encode 4 h.byteRate ++ encode 2 h.blockAlign ++ encode 2 h.bitsPerSample) ++
    encode 4 h.dataId ++ encode 4 h.dataSz

/-- A round of the loop of `capture_sample`. -/
inductive CaptureRound where
  /-- `capturing` has been reset, or `pcm_read` fails -/
  | ended
  /-- `pcm_read` fills the buffer, and `fwrite` writes so many of its bytes -/
  | read (buffer : List UInt8) (written : Nat)

/-- What `capture_sample` meets. -/
structure Capture where
  /-- the device is ready and there is memory for a buffer -/
  opened : Bool
  /-- the bytes of the buffer -/
  size : Nat
  rounds : List CaptureRound
  /-- `pcm_bytes_to_frames(pcm, bytes_read)`, which reads the handle after `pcm_close` has freed
  it -/
  frames : Nat → Nat

/-- The loop of `capture_sample`, from the samples in the file and `bytes_read`. -/
def captureLoop (size : Nat) : List CaptureRound → List UInt8 → Nat → List UInt8 × Nat
  | [], file, bytesRead => (file, bytesRead)
  | .ended :: _, file, bytesRead => (file, bytesRead)
  | .read buffer written :: rounds, file, bytesRead =>
      if written ≠ size then (file ++ buffer.take written, bytesRead)
      else captureLoop size rounds (file ++ buffer.take written) (uint (bytesRead + size : Nat))

/-- `capture_sample`: the samples in the file and the number of frames that it returns. -/
def captureSample (c : Capture) : List UInt8 × Nat :=
  if !c.opened then ([], 0)
  else
    let (file, bytesRead) := captureLoop c.size c.rounds [] 0
    (file, c.frames bytesRead)

/-- The format that `tinycap` asks for, if it supports the number of bits. -/
def captureFormat (bits : Nat) : Option Nat :=
  if bits = 32 then some PCM_FORMAT_S32_LE
  else if bits = 24 then some PCM_FORMAT_S24_LE
  else if bits = 16 then some PCM_FORMAT_S16_LE
  else none

/-- The header that `main` of `tinycap` writes. -/
def captureHeader (channels rate format frames : Nat) : WavHeader :=
  let bitsPerSample := pcmFormatToBits format
  let blockAlign := channels * (bitsPerSample / 8) % 2 ^ 16
  let dataSz := uint (frames * blockAlign : Nat)
  { riffId := ID_RIFF
    riffSz := uint (dataSz + 44 - 8 : Nat)
    riffFmt := ID_WAVE
    fmtId := ID_FMT
    fmtSz := 16
    audioFormat := FORMAT_PCM
    numChannels := channels
    sampleRate := rate
    byteRate := uint (bitsPerSample / 8 * channels * rate : Nat)
    blockAlign := blockAlign
    bitsPerSample := bitsPerSample
    dataId := ID_DATA
    dataSz := dataSz }

/-- `main` of `tinycap`, behind the arguments: the file, unless the number of bits is refused. -/
def tinycap (channels rate bits : Nat) (c : Capture) : Option (List UInt8) :=
  match captureFormat bits with
  | none => none
  | some format =>
      let (samples, frames) := captureSample c
      some ((captureHeader channels rate format frames).bytes ++ samples)

/-! ## Playing -/

/-- `fread` of one item of `size` bytes, over what is in memory: a short read sets the bytes that
there are. -/
def fread (size : Nat) (old file : List UInt8) : List UInt8 × List UInt8 :=
  (file.take size ++ old.drop (file.take size).length, file.drop size)

/-- The variables of the loop over the chunks: the file from here on, `chunk_header` and
`chunk_fmt`. -/
structure Chunks where
  file : List UInt8
  header : List UInt8
  fmt : List UInt8

def Chunks.id (s : Chunks) : Nat := decode (s.header.take 4)

def Chunks.sz (s : Chunks) : Nat := decode (s.header.drop 4)

/-- A round of the loop over the chunks, which returns at the data. -/
def chunkRound (s : Chunks) : Chunks ⊕ Chunks :=
  let (header, file) := fread 8 s.header s.file
  let s := { s with header := header, file := file }
  if s.id = ID_FMT then
    let (fmt, file) := fread 16 s.fmt s.file
    .inl { s with fmt := fmt, file := if s.sz > 16 then file.drop (s.sz - 16) else file }
  else if s.id = ID_DATA then .inr s
  else .inl { s with file := s.file.drop s.sz }

/-- What is in the three structures of `main` before they are read. -/
structure Locals where
  riff : List UInt8
  header : List UInt8
  fmt : List UInt8
  riff_length : riff.length = 12
  header_length : header.length = 8
  fmt_length : fmt.length = 16

/-- `main` of `tinyplay` up to the samples: `none` for a file of another kind. -/
def findSamples (fuel : Nat) (m : Locals) (file : List UInt8) : Option (Option Chunks) :=
  let (riff, file) := fread 12 m.riff file
  if decode (riff.take 4) ≠ ID_RIFF ∨ decode (riff.drop 8) ≠ ID_WAVE then some none
  else (forever chunkRound fuel ⟨file, m.header, m.fmt⟩).map some

def Chunks.numChannels (s : Chunks) : Nat := decode ((s.fmt.drop 2).take 2)

def Chunks.sampleRate (s : Chunks) : Nat := decode ((s.fmt.drop 4).take 4)

def Chunks.bitsPerSample (s : Chunks) : Nat := decode (s.fmt.drop 14)

/-- The format that `play_sample` asks for: none of its own for other numbers of bits, which leaves
the zero of `memset`. -/
def playFormat (bits : Nat) : Nat :=
  if bits = 32 then PCM_FORMAT_S32_LE
  else if bits = 16 then PCM_FORMAT_S16_LE
  else 0

/-- A round of the loop of `play_sample`, from the file and the buffers written so far. `fails` and
`closed` say, of what has been written, whether the last `pcm_write` has failed and whether `close`
is set. -/
def playRound (size : Nat) (fails closed : List (List UInt8) → Bool)
    (s : List UInt8 × List (List UInt8)) :
    (List UInt8 × List (List UInt8)) ⊕ List (List UInt8) :=
  let (file, written) := s
  let buffer := file.take size
  if buffer.length > 0 then
    let written := written ++ [buffer]
    if fails written then .inr written
    else if !closed written then .inl (file.drop size, written) else .inr written
  else .inr written

/-- The parameters that `sample_is_playable` checks. -/
inductive PcmParam where
  | rate
  | channels
  | sampleBits
  | periodSize
  | periods
deriving DecidableEq

/-- What `play_sample` meets. -/
structure Player where
  /-- the answers of `pcm_params_get_min` and `pcm_params_get_max`, unless `pcm_params_get` gives
  `NULL` -/
  params : Option (PcmParam → Nat × Nat)
  /-- `pcm_is_ready`, of what `pcm_open` gives -/
  ready : Bool
  /-- there is memory for a buffer -/
  memory : Bool
  /-- the bytes of the buffer -/
  size : Nat
  fails : List (List UInt8) → Bool
  closed : List (List UInt8) → Bool

/-- `check_param(params, param, value, …)`. -/
def checkParam (params : PcmParam → Nat × Nat) (param : PcmParam) (value : Nat) : Bool :=
  decide ((params param).1 ≤ value) && decide (value ≤ (params param).2)

/-- `sample_is_playable`. -/
def sampleIsPlayable (p : Player) (channels rate bits periodSize periodCount : Nat) : Bool :=
  match p.params with
  | none => false
  | some params =>
      checkParam params .rate rate && checkParam params .channels channels &&
        checkParam params .sampleBits bits && checkParam params .periodSize periodSize &&
        checkParam params .periods periodCount

/-- The buffers that `play_sample` writes of a file. -/
def playSample (fuel : Nat) (p : Player) (channels rate bits periodSize periodCount : Nat)
    (file : List UInt8) : Option (List (List UInt8)) :=
  if !sampleIsPlayable p channels rate bits periodSize periodCount then some []
  else if !p.ready then some []
  else if !p.memory then some []
  else forever (playRound p.size p.fails p.closed) fuel (file, [])

/-! ## Whole chunks -/

section Parsing

variable {file rest data : List UInt8} {m : Locals} {fuel : Nat}

/-- A chunk of a file: the two numbers of its header, and the bytes behind it. -/
structure Chunk where
  id : Nat
  sz : Nat
  body : List UInt8

/-- So many bytes `tinyplay` takes for the chunk: a format has 16 of them at least. -/
def Chunk.extent (c : Chunk) : Nat := if c.id = ID_FMT then max 16 c.sz else c.sz

/-- The chunk is not the data, and it is whole; its numbers fit. -/
structure Chunk.Skipped (c : Chunk) : Prop where
  id_lt : c.id < 2 ^ 32
  sz_lt : c.sz < 2 ^ 32
  not_data : c.id ≠ ID_DATA
  whole : c.body.length = c.extent

theorem Chunk.Skipped.fmt {c : Chunk} (h : c.Skipped) (hid : c.id = ID_FMT) :
    c.body.length = max 16 c.sz := by
  rw [h.whole, Chunk.extent, if_pos hid]

def Chunk.header (c : Chunk) : List UInt8 := encode 4 c.id ++ encode 4 c.sz

def Chunk.bytes (c : Chunk) : List UInt8 := c.header ++ c.body

/-- `chunk_header` behind some chunks. -/
def lastHeader (header : List UInt8) (cs : List Chunk) : List UInt8 :=
  cs.foldl (fun _ c => c.header) header

/-- `chunk_fmt` behind some chunks. -/
def lastFmt (fmt : List UInt8) (cs : List Chunk) : List UInt8 :=
  cs.foldl (fun fmt c => if c.id = ID_FMT then c.body.take 16 else fmt) fmt

theorem fread_append {size : Nat} {old bytes : List UInt8} (hold : old.length = size)
    (hbytes : bytes.length = size) : fread size old (bytes ++ rest) = (bytes, rest) := by
  unfold fread
  rw [List.take_left' hbytes, List.drop_left' hbytes, hbytes, ← hold, List.drop_length,
    List.append_nil]

@[simp] theorem Chunk.header_length (c : Chunk) : c.header.length = 8 := by
  simp [Chunk.header]

theorem Chunk.Skipped.id_eq {c : Chunk} (h : c.Skipped) {file fmt : List UInt8} :
    Chunks.id ⟨file, c.header, fmt⟩ = c.id := by
  rw [Chunks.id, Chunk.header, List.take_left' (length_encode 4 c.id)]
  exact decode_encode_of_lt h.id_lt

theorem Chunk.Skipped.sz_eq {c : Chunk} (h : c.Skipped) {file fmt : List UInt8} :
    Chunks.sz ⟨file, c.header, fmt⟩ = c.sz := by
  rw [Chunks.sz, Chunk.header, List.drop_left' (length_encode 4 c.id)]
  exact decode_encode_of_lt h.sz_lt

/-- The format is read and what is behind it skipped. -/
theorem fread_fmt {fmt body : List UInt8} (hfmt : fmt.length = 16) (hbody : 16 ≤ body.length) :
    fread 16 fmt (body ++ rest) = (body.take 16, body.drop 16 ++ rest) := by
  have hsplit : body ++ rest = body.take 16 ++ (body.drop 16 ++ rest) := by
    rw [← List.append_assoc, List.take_append_drop]
  rw [hsplit, fread_append hfmt (List.length_take_of_le hbody)]

/-- A round over a chunk that is not the data. -/
theorem chunkRound_skipped {c : Chunk} (h : c.Skipped) {header fmt : List UInt8}
    (hheader : header.length = 8) (hfmt : fmt.length = 16) :
    chunkRound ⟨c.bytes ++ rest, header, fmt⟩ =
      .inl ⟨rest, c.header, if c.id = ID_FMT then c.body.take 16 else fmt⟩ := by
  unfold chunkRound Chunk.bytes
  dsimp only
  rw [List.append_assoc, fread_append hheader c.header_length]
  dsimp only
  by_cases hid : c.id = ID_FMT
  · have hlen := h.fmt hid
    rw [if_pos (h.id_eq.trans hid), if_pos hid, fread_fmt hfmt (by omega)]
    dsimp only
    have hskip : (if c.sz > 16 then (c.body.drop 16 ++ rest).drop (c.sz - 16)
        else c.body.drop 16 ++ rest) = rest := by
      split
      · refine List.drop_left' ?_
        rw [List.length_drop]
        omega
      · rw [List.drop_of_length_le (by omega), List.nil_append]
    simp only [h.sz_eq, hskip]
  · have hlen : c.body.length = c.sz := by rw [h.whole, Chunk.extent, if_neg hid]
    rw [if_neg (fun h' => hid (h.id_eq.symm.trans h')),
      if_neg (fun h' => h.not_data (h.id_eq.symm.trans h')), if_neg hid]
    simp only [h.sz_eq, List.drop_left' hlen]

/-- The loop goes over whole chunks, one in each round. -/
theorem forever_chunks (cs : List Chunk) (hcs : ∀ c ∈ cs, c.Skipped) {header fmt : List UInt8}
    (hheader : header.length = 8) (hfmt : fmt.length = 16) :
    forever chunkRound (cs.length + fuel) ⟨cs.flatMap Chunk.bytes ++ rest, header, fmt⟩ =
      forever chunkRound fuel ⟨rest, lastHeader header cs, lastFmt fmt cs⟩ := by
  induction cs generalizing header fmt with
  | nil => simp [lastHeader, lastFmt]
  | cons c cs ih =>
      have hc := hcs c List.mem_cons_self
      have hfuel : (c :: cs).length + fuel = cs.length + fuel + 1 := by
        rw [List.length_cons]
        omega
      rw [List.flatMap_cons, List.append_assoc, hfuel,
        forever_of_inl (chunkRound_skipped hc hheader hfmt)]
      refine ih (fun c' hc' => hcs c' (List.mem_cons_of_mem _ hc')) c.header_length ?_
      split
      · next hid =>
          have := hc.fmt hid
          simp
          omega
      · exact hfmt

/-! ## Looking for the samples -/

/-- The first 12 bytes of a file. -/
def riffHeader (sz : Nat) : List UInt8 := encode 4 ID_RIFF ++ encode 4 sz ++ encode 4 ID_WAVE

def dataHeader (sz : Nat) : List UInt8 := encode 4 ID_DATA ++ encode 4 sz

@[simp] theorem dataHeader_length (sz : Nat) : (dataHeader sz).length = 8 := by
  simp [dataHeader]

theorem findSamples_riff (m : Locals) (fuel sz : Nat) :
    findSamples fuel m (riffHeader sz ++ rest) =
      (forever chunkRound fuel ⟨rest, m.header, m.fmt⟩).map some := by
  have hlen : (riffHeader sz).length = 12 := by simp [riffHeader]
  have hriff : decode ((riffHeader sz).take 4) = ID_RIFF := by
    rw [riffHeader, List.append_assoc, List.take_left' (length_encode 4 ID_RIFF)]
    exact decode_encode_of_lt (by decide)
  have hwave : decode ((riffHeader sz).drop 8) = ID_WAVE := by
    rw [riffHeader, List.drop_left' (by simp)]
    exact decode_encode_of_lt (by decide)
  unfold findSamples
  rw [fread_append m.riff_length hlen]
  dsimp only
  rw [if_neg (fun h => h.elim (· hriff) (· hwave))]

theorem chunkRound_data (sz : Nat) {header fmt : List UInt8} (hheader : header.length = 8) :
    chunkRound ⟨dataHeader sz ++ rest, header, fmt⟩ = .inr ⟨rest, dataHeader sz, fmt⟩ := by
  have hid : Chunks.id ⟨rest, dataHeader sz, fmt⟩ = ID_DATA := by
    rw [Chunks.id, dataHeader, List.take_left' (length_encode 4 ID_DATA)]
    exact decode_encode_of_lt (by decide)
  unfold chunkRound
  rw [fread_append hheader (dataHeader_length sz)]
  dsimp only
  rw [if_neg (show ¬ Chunks.id _ = ID_FMT by rw [hid]; decide), if_pos hid]

theorem lastHeader_length {header : List UInt8} (hheader : header.length = 8) (cs : List Chunk) :
    (lastHeader header cs).length = 8 := by
  unfold lastHeader
  induction cs generalizing header with
  | nil => exact hheader
  | cons c cs ih => exact ih c.header_length

/-- Behind whole chunks the samples are found, whatever the size in the header of the data. -/
theorem findSamples_data (m : Locals) (sz dataSz : Nat) (data : List UInt8) {cs : List Chunk}
    (hcs : ∀ c ∈ cs, c.Skipped) {fuel : Nat} (hfuel : cs.length < fuel) :
    findSamples fuel m (riffHeader sz ++ (cs.flatMap Chunk.bytes ++ (dataHeader dataSz ++ data))) =
      some (some ⟨data, dataHeader dataSz, lastFmt m.fmt cs⟩) := by
  obtain ⟨k, rfl⟩ : ∃ k, fuel = cs.length + (k + 1) := ⟨fuel - cs.length - 1, by omega⟩
  rw [findSamples_riff, forever_chunks cs hcs m.header_length m.fmt_length,
    forever_of_inr (chunkRound_data dataSz (lastHeader_length m.header_length cs))]
  rfl

def zeroLocals : Locals where
  riff := List.replicate 12 0
  header := List.replicate 8 0
  fmt := List.replicate 16 0
  riff_length := rfl
  header_length := rfl
  fmt_length := rfl

end Parsing

/-! ## What is played -/

section Playing

variable {channels rate bits : Nat} {c : Capture} {file samples : List UInt8}

/-- The buffers that `pcm_read` fills before the end. -/
def delivered : List CaptureRound → List (List UInt8)
  | [] => []
  | .ended :: _ => []
  | .read buffer _ :: rounds => buffer :: delivered rounds

/-- Every buffer is written whole. -/
def Capture.Undisturbed (c : Capture) : Prop :=
  c.opened = true ∧
    ∀ buffer written, .read buffer written ∈ c.rounds →
      buffer.length = c.size ∧ written = c.size

theorem captureLoop_file {size : Nat} {rounds : List CaptureRound} (file : List UInt8)
    (bytesRead : Nat)
    (h : ∀ buffer written, .read buffer written ∈ rounds →
      buffer.length = size ∧ written = size) :
    (captureLoop size rounds file bytesRead).1 = file ++ (delivered rounds).flatten := by
  induction rounds generalizing file bytesRead with
  | nil => simp [captureLoop, delivered]
  | cons r rounds ih =>
      cases r with
      | ended => simp [captureLoop, delivered]
      | read buffer written =>
          obtain ⟨hbuffer, hwritten⟩ := h buffer written List.mem_cons_self
          have hrest := fun b n hb => h b n (List.mem_cons_of_mem _ hb)
          rw [captureLoop, if_neg (not_not_intro hwritten), ih _ _ hrest, hwritten,
            List.take_of_length_le hbuffer.le, delivered, List.flatten_cons, List.append_assoc]

theorem captureSample_file (h : c.Undisturbed) :
    (captureSample c).1 = (delivered c.rounds).flatten := by
  rw [captureSample, h.1]
  exact captureLoop_file [] 0 h.2

/-- The loop of `play_sample` writes the samples from their start on, and all of them unless it is
closed or the device fails. -/
theorem playRound_plays (size : Nat) (fails closed : List (List UInt8) → Bool) {fuel : Nat}
    (hfuel : samples.length < fuel) :
    ∃ written, forever (playRound size fails closed) fuel (samples, []) = some written ∧
      written.flatten <+: samples ∧
        (0 < size → (∀ w, fails w = false ∧ closed w = false) → written.flatten = samples) := by
  refine forever_of_variant (fun s => s.2.flatten ++ s.1 = samples) (fun s => s.1.length) ?_ rfl
    hfuel
  rintro ⟨file, written⟩ hinv
  dsimp only at hinv
  unfold playRound
  dsimp only
  by_cases hlen : (file.take size).length > 0
  · have hsplit : (written ++ [file.take size]).flatten ++ file.drop size = samples := by
      rw [List.flatten_append, List.flatten_singleton, List.append_assoc, List.take_append_drop,
        hinv]
    rw [if_pos hlen]
    cases hfails : fails (written ++ [file.take size]) with
    | true =>
        refine ⟨⟨_, hsplit⟩, fun _ h => ?_⟩
        rw [(h _).1] at hfails
        cases hfails
    | false =>
        cases hclosed : closed (written ++ [file.take size]) with
        | true =>
            refine ⟨⟨_, hsplit⟩, fun _ h => ?_⟩
            rw [(h _).2] at hclosed
            cases hclosed
        | false =>
            refine ⟨hsplit, ?_⟩
            rw [List.length_take] at hlen
            dsimp only
            rw [List.length_drop]
            omega
  · rw [if_neg hlen]
    refine ⟨⟨file, hinv⟩, fun hsize _ => ?_⟩
    -- the end of the file
    have hfile : file = [] := by
      rw [List.length_take] at hlen
      exact List.eq_nil_of_length_eq_zero (by omega)
    rwa [hfile, List.append_nil] at hinv

/-- Nothing keeps `play_sample` from playing. -/
structure Player.Plays (p : Player) (channels rate bits periodSize periodCount : Nat) : Prop where
  playable : sampleIsPlayable p channels rate bits periodSize periodCount = true
  ready : p.ready = true
  memory : p.memory = true

/-- `play_sample` comes back, and plays the samples from their start on: none of them if the
device refuses the parameters or does not open, or without memory; otherwise all of them, unless it
is closed or a write fails. -/
theorem playSample_plays {fuel : Nat} (p : Player) (channels rate bits periodSize periodCount : Nat)
    (hfuel : samples.length < fuel) :
    ∃ written, playSample fuel p channels rate bits periodSize periodCount samples = some written ∧
      written.flatten <+: samples ∧
      (¬ p.Plays channels rate bits periodSize periodCount → written = []) ∧
      (p.Plays channels rate bits periodSize periodCount → 0 < p.size →
        (∀ w, p.fails w = false ∧ p.closed w = false) → written.flatten = samples) := by
  by_cases hplays : p.Plays channels rate bits periodSize periodCount
  · obtain ⟨written, hrun, hprefix, hall⟩ :=
      playRound_plays p.size p.fails p.closed hfuel
    refine ⟨written, ?_, hprefix, fun hno => absurd hplays hno, fun _ => hall⟩
    rw [playSample, hplays.playable, hplays.ready, hplays.memory]
    exact hrun
  · refine ⟨[], ?_, List.nil_prefix, fun _ => rfl, fun h => absurd h hplays⟩
    unfold playSample
    cases hplayable : sampleIsPlayable p channels rate bits periodSize periodCount with
    | false => rfl
    | true =>
        cases hready : p.ready with
        | false => rfl
        | true =>
            cases hmemory : p.memory with
            | false => rfl
            | true => exact absurd ⟨hplayable, hready, hmemory⟩ hplays

/-- The format in the header of a file of `tinycap`. -/
def WavHeader.fmt (h : WavHeader) : List UInt8 :=
  encode 2 h.audioFormat ++ encode 2 h.numChannels ++ encode 4 h.sampleRate ++
    encode 4 h.byteRate ++ encode 2 h.blockAlign ++ encode 2 h.bitsPerSample

@[simp] theorem WavHeader.fmt_length (h : WavHeader) : h.fmt.length = 16 := by
  simp [WavHeader.fmt]

theorem WavHeader.fmt_skipped (h : WavHeader) : (Chunk.mk ID_FMT 16 h.fmt).Skipped where
  id_lt := show ID_FMT < 2 ^ 32 by decide
  sz_lt := show 16 < 2 ^ 32 by decide
  not_data := show ID_FMT ≠ ID_DATA by decide
  whole := h.fmt_length

theorem tinycap_eq {format : Nat} (h : captureFormat bits = some format) :
    tinycap channels rate bits c =
      some ((captureHeader channels rate format (captureSample c).2).bytes ++
        (captureSample c).1) := by
  rw [tinycap, h]

/-- The header is the beginning of a file with one chunk in front of the data. -/
theorem captureHeader_bytes (channels rate format frames : Nat) (samples : List UInt8) :
    let h := captureHeader channels rate format frames
    h.bytes ++ samples =
      riffHeader h.riffSz ++
        ([Chunk.mk ID_FMT 16 h.fmt].flatMap Chunk.bytes ++ (dataHeader h.dataSz ++ samples)) := by
  intro h
  have hsz : encode 4 h.fmtSz = encode 4 16 := rfl
  have hid : encode 4 h.riffId = encode 4 ID_RIFF ∧ encode 4 h.riffFmt = encode 4 ID_WAVE ∧
      encode 4 h.fmtId = encode 4 ID_FMT ∧ encode 4 h.dataId = encode 4 ID_DATA :=
    ⟨rfl, rfl, rfl, rfl⟩
  rw [WavHeader.bytes, hsz, hid.1, hid.2.1, hid.2.2.1, hid.2.2.2]
  simp only [riffHeader, dataHeader, Chunk.bytes, Chunk.header, WavHeader.fmt, List.flatMap_cons,
    List.flatMap_nil, List.append_assoc, List.append_nil]

/-- What `tinyplay` reads of the format. -/
theorem WavHeader.fmt_reads (h : WavHeader) (file header : List UInt8) :
    Chunks.numChannels ⟨file, header, h.fmt⟩ = h.numChannels % 2 ^ 16 ∧
      Chunks.sampleRate ⟨file, header, h.fmt⟩ = h.sampleRate % 2 ^ 32 ∧
      Chunks.bitsPerSample ⟨file, header, h.fmt⟩ = h.bitsPerSample % 2 ^ 16 := by
  refine ⟨?_, ?_, ?_⟩
  · have hfmt : h.fmt = encode 2 h.audioFormat ++ (encode 2 h.numChannels ++
        (encode 4 h.sampleRate ++ encode 4 h.byteRate ++ encode 2 h.blockAlign ++
          encode 2 h.bitsPerSample)) := by
      simp only [WavHeader.fmt, List.append_assoc]
    rw [Chunks.numChannels, hfmt, List.drop_left' (length_encode 2 _),
      List.take_left' (length_encode 2 _)]
    exact decode_encode 2 _
  · have hfmt : h.fmt = (encode 2 h.audioFormat ++ encode 2 h.numChannels) ++
        (encode 4 h.sampleRate ++
          (encode 4 h.byteRate ++ encode 2 h.blockAlign ++ encode 2 h.bitsPerSample)) := by
      simp only [WavHeader.fmt, List.append_assoc]
    rw [Chunks.sampleRate, hfmt, List.drop_left' (by simp), List.take_left' (length_encode 4 _)]
    exact decode_encode 4 _
  · rw [Chunks.bitsPerSample, WavHeader.fmt, List.drop_left' (by simp)]
    exact decode_encode 2 _

theorem captureFormat_cases {format : Nat} (h : captureFormat bits = some format) :
    bits = 32 ∧ format = PCM_FORMAT_S32_LE ∨ bits = 24 ∧ format = PCM_FORMAT_S24_LE ∨
      bits = 16 ∧ format = PCM_FORMAT_S16_LE := by
  unfold captureFormat at h
  split_ifs at h with h32 h24 h16
  · exact .inl ⟨h32, (Option.some.inj h).symm⟩
  · exact .inr (.inl ⟨h24, (Option.some.inj h).symm⟩)
  · exact .inr (.inr ⟨h16, (Option.some.inj h).symm⟩)

/-- A format comes back from the number of bits in the header, except that of 24 bits, which are
recorded as 32. -/
theorem playFormat_captureFormat {format : Nat} (h : captureFormat bits = some format) :
    playFormat (pcmFormatToBits format % 2 ^ 16) = format ↔ bits ≠ 24 := by
  rcases captureFormat_cases h with ⟨rfl, rfl⟩ | ⟨rfl, rfl⟩ | ⟨rfl, rfl⟩ <;> decide

/-- **What is recorded is played.** `tinyplay` finds in a file of `tinycap` the samples, the number
of channels and the rate, whatever the frames that were counted and whatever was in memory. It
plays the samples in their order and in the format of the recording, except one of 24 bits: none of
them if the device refuses the parameters or does not open, or without memory, and otherwise all of
them unless it is closed or a write fails. -/
theorem tinyplay_tinycap (m : Locals) (h : tinycap channels rate bits c = some file) :
    ∃ s format, (∀ fuel, 1 < fuel → findSamples fuel m file = some (some s)) ∧
      s.numChannels = channels % 2 ^ 16 ∧ s.sampleRate = rate % 2 ^ 32 ∧
      captureFormat bits = some format ∧ (playFormat s.bitsPerSample = format ↔ bits ≠ 24) ∧
      (c.Undisturbed → s.file = (delivered c.rounds).flatten) ∧
      ∀ (p : Player) (periodSize periodCount fuel : Nat), s.file.length < fuel →
        ∃ written, playSample fuel p s.numChannels s.sampleRate s.bitsPerSample periodSize
            periodCount s.file = some written ∧
          written.flatten <+: s.file ∧
          (¬ p.Plays s.numChannels s.sampleRate s.bitsPerSample periodSize periodCount →
            written = []) ∧
          (p.Plays s.numChannels s.sampleRate s.bitsPerSample periodSize periodCount → 0 < p.size →
            (∀ w, p.fails w = false ∧ p.closed w = false) → written.flatten = s.file) := by
  cases hformat : captureFormat bits with
  | none =>
      rw [tinycap, hformat] at h
      cases h
  | some format =>
      rw [tinycap_eq hformat] at h
      obtain rfl := Option.some.inj h
      generalize hheader :
        captureHeader channels rate format (captureSample c).2 = header
      have hbytes := captureHeader_bytes channels rate format (captureSample c).2
        (captureSample c).1
      dsimp only at hbytes
      rw [hheader] at hbytes
      have hfmt : ∀ c' ∈ [Chunk.mk ID_FMT 16 header.fmt], c'.Skipped := by
        intro c' hc'
        obtain rfl := List.mem_singleton.mp hc'
        exact header.fmt_skipped
      have htake : header.fmt.take 16 = header.fmt := List.take_of_length_le (by simp)
      have hlast : lastFmt m.fmt [Chunk.mk ID_FMT 16 header.fmt] = header.fmt := htake
      obtain ⟨hchannels, hrate, hbits⟩ :=
        header.fmt_reads (captureSample c).1 (dataHeader header.dataSz)
      refine ⟨⟨(captureSample c).1, dataHeader header.dataSz, header.fmt⟩, format, ?_, ?_, ?_, rfl,
        ?_, captureSample_file, fun p periodSize periodCount fuel =>
          playSample_plays p _ _ _ periodSize periodCount⟩
      · intro fuel hfuel
        rw [hbytes, findSamples_data m _ _ _ hfmt hfuel, hlast]
      · rw [hchannels, ← hheader]
        rfl
      · rw [hrate, ← hheader]
        rfl
      · rw [hbits, ← hheader]
        exact playFormat_captureFormat hformat

/-- Two buffers of 24-bit stereo, and the end. -/
def shortCapture : Capture where
  opened := true
  size := 8
  rounds := [.read [1, 2, 3, 0, 4, 5, 6, 0] 8, .read [7, 8, 9, 0, 1, 3, 5, 0] 8, .ended]
  frames := fun bytes => bytes / 8

theorem shortCapture_undisturbed : shortCapture.Undisturbed := by
  refine ⟨rfl, fun buffer written h => ?_⟩
  simp only [shortCapture, List.mem_cons, CaptureRound.read.injEq, reduceCtorEq, List.not_mem_nil,
    or_false] at h
  rcases h with ⟨rfl, rfl⟩ | ⟨rfl, rfl⟩ <;> exact ⟨rfl, rfl⟩

theorem tinyplay_tinycap_shortCapture :
    ∃ file s, tinycap 2 16000 24 shortCapture = some file ∧
      findSamples 2 zeroLocals file = some (some s) ∧ s.numChannels = 2 ∧ s.sampleRate = 16000 ∧
      playFormat s.bitsPerSample ≠ PCM_FORMAT_S24_LE ∧
      s.file = [1, 2, 3, 0, 4, 5, 6, 0, 7, 8, 9, 0, 1, 3, 5, 0] := by
  have hcap : tinycap 2 16000 24 shortCapture = some _ := tinycap_eq rfl
  obtain ⟨s, format, hfind, hchannels, hrate, hformat, hplay, hfile, -⟩ :=
    tinyplay_tinycap zeroLocals hcap
  obtain rfl : PCM_FORMAT_S24_LE = format := Option.some.inj hformat
  exact ⟨_, s, hcap, hfind 2 (by decide), hchannels, hrate, fun h => hplay.mp h rfl,
    hfile shortCapture_undisturbed⟩

end Playing

end SpeechStack.Tools
