import CompactDisc.Pcm.Word
import CompactDisc.Text.Ascii

/-!
# CompactDisc.Pcm.Header

**The 44-byte header of a WAVE file** and the whole file that `Pcm.file?` writes: the header and,
behind it, samples of sixteen bits, interleaved by channel.

Design points:

* `Header.bytes` and `Header.parse` lay out the same fields in the same order. Fixed texts stand at
  positions 0, 8 and 36; the first one that differs decides the error, and a text that is cut off by
  the end of the input counts as an early end.
* The two size fields have 32 bits, which bounds the number of samples: `Header.dataSize?`.
-/

namespace CompactDisc.Pcm

/-- The fields of the header. -/
structure Header where
  /-- Bytes after this field. -/
  riffSize : Nat
  formatSize : Nat
  formatTag : Nat
  channels : Nat
  sampleRate : Nat
  byteRate : Nat
  blockAlign : Nat
  bitsPerSample : Nat
  /-- Bytes of samples. -/
  dataSize : Nat
  deriving DecidableEq, Repr

namespace Header

/-- The number of bytes a header takes. -/
def size : Nat := 44

/-- The header as bytes. -/
def bytes (h : Header) : List UInt8 :=
  Text.ascii "RIFF" ++ Word.bytes 4 h.riffSize ++ Text.ascii "WAVEfmt " ++ Word.bytes 4 h.formatSize ++
    Word.bytes 2 h.formatTag ++ Word.bytes 2 h.channels ++ Word.bytes 4 h.sampleRate ++
    Word.bytes 4 h.byteRate ++ Word.bytes 2 h.blockAlign ++ Word.bytes 2 h.bitsPerSample ++
    Text.ascii "data" ++ Word.bytes 4 h.dataSize

/-- Why bytes are not a header. -/
inductive Error where
  /-- A fixed text differs at this position. -/
  | badMark (position : Nat)
  /-- The input ends inside the header. -/
  | early
  deriving DecidableEq, Repr

/-- Checks a fixed text. -/
def expect (input : List UInt8) (position : Nat) (text : String) : Except Error Unit :=
  let found := (input.drop position).take (Text.ascii text).length
  if found.length < (Text.ascii text).length then .error .early
  else if found = Text.ascii text then .ok () else .error (.badMark position)

/-- Reads a number. -/
def field (input : List UInt8) (position width : Nat) : Except Error Nat :=
  (Word.at? input position width).elim (.error .early) .ok

/-- Reads a header from the first bytes of the input. -/
def parse (input : List UInt8) : Except Error Header := do
  expect input 0 "RIFF"
  let riffSize ← field input 4 4
  expect input 8 "WAVEfmt "
  let formatSize ← field input 16 4
  let formatTag ← field input 20 2
  let channels ← field input 22 2
  let sampleRate ← field input 24 4
  let byteRate ← field input 28 4
  let blockAlign ← field input 32 2
  let bitsPerSample ← field input 34 2
  expect input 36 "data"
  let dataSize ← field input 40 4
  return { riffSize, formatSize, formatTag, channels, sampleRate, byteRate, blockAlign,
           bitsPerSample, dataSize }

/-- The bytes that `samples` samples take, if the size fields can express the file. -/
def dataSize? (samples : Nat) : Option Nat :=
  if 2 * samples + (size - 8) ≤ 0xFFFFFFFF then some (2 * samples) else none

/-- The header of a file of interleaved samples. -/
def pcm16 (channels sampleRate dataSize : Nat) : Header :=
  { riffSize := size - 8 + dataSize
    formatSize := 16
    formatTag := 1
    channels
    sampleRate
    byteRate := sampleRate * (channels * 2)
    blockAlign := channels * 2
    bitsPerSample := 16
    dataSize }

@[simp] theorem length_bytes (h : Header) : h.bytes.length = size := by
  simp only [bytes, List.length_append, Word.length_bytes]
  rfl

theorem dataSize?_eq_some_iff (samples n : Nat) :
    dataSize? samples = some n ↔ 2 * samples + 36 ≤ 0xFFFFFFFF ∧ n = 2 * samples := by
  have header : size - 8 = 36 := rfl
  by_cases h : 2 * samples + 36 ≤ 0xFFFFFFFF
  · rw [dataSize?, header, if_pos h, Option.some.injEq]
    exact ⟨fun e => ⟨h, e.symm⟩, fun e => e.2.symm⟩
  · rw [dataSize?, header, if_neg h]
    exact ⟨nofun, fun e => absurd e.1 h⟩

end Header

/-- The bytes of a file of interleaved samples, unless there are too many for it. -/
def file? (channels sampleRate : Nat) (samples : List Int16) : Option (List UInt8) :=
  (Header.dataSize? samples.length).map fun dataSize =>
    (Header.pcm16 channels sampleRate dataSize).bytes ++ Sample.write samples

end CompactDisc.Pcm
