import CompactDisc.Pcm.Form
import CompactDisc.Pcm.Header
import CompactDisc.Proofs.Layout.Entry
import CompactDisc.Proofs.Sheet.Lines
import Mathlib.Tactic.Ring

/-!
# CompactDisc.Proofs.Pcm.Written

**Files that are written can be read.** A file of interleaved samples is a header and the samples behind
it. Opening it finds just these: the channels and the rate that it was written with, and every sample
(`Stream.find_written`).

Proof shape: each field of the header stands at a fixed place (`Holds.field`), so the walk over the chunks
is followed step by step: the format, then the samples.
-/

namespace CompactDisc

theorem Sample.length_write (samples : List Int16) :
    (Sample.write samples).length = 2 * samples.length := by
  induction samples with
  | nil => rfl
  | cons s rest ih =>
      rw [Sample.write, List.flatMap_cons, List.length_append, List.length_cons]
      change (Sample.toBytes s).length + (Sample.write rest).length = _
      rw [ih, Sample.toBytes, Word.length_bytes]
      omega

namespace Pcm

/-- A file holds a header and some bytes behind it. -/
def Holds (c : Contents) (h : Header) (data : List UInt8) : Prop := c.toList = h.bytes ++ data

namespace Holds

variable {c : Contents} {h : Header} {data : List UInt8}

/-- The bytes of a file that holds a header, with the names of its chunks spelt out. -/
def spelt (h : Header) (data : List UInt8) : List UInt8 :=
  0x52 :: 0x49 :: 0x46 :: 0x46 :: Word.bytes 4 h.riffSize ++
    0x57 :: 0x41 :: 0x56 :: 0x45 :: 0x66 :: 0x6D :: 0x74 :: 0x20 :: Word.bytes 4 h.formatSize ++
    Word.bytes 2 h.formatTag ++ Word.bytes 2 h.channels ++ Word.bytes 4 h.sampleRate ++
    Word.bytes 4 h.byteRate ++ Word.bytes 2 h.blockAlign ++ Word.bytes 2 h.bitsPerSample ++
    0x64 :: 0x61 :: 0x74 :: 0x61 :: Word.bytes 4 h.dataSize ++ data

theorem spelt_eq (h : Header) (data : List UInt8) : h.bytes ++ data = spelt h data := by
  simp [Header.bytes, spelt, Text.ascii]

theorem read_eq (hc : Holds c h data) (position width : Nat) :
    c.read position width = ((spelt h data).drop position).take width := by
  rw [Contents.read_eq_take_drop, hc, spelt_eq]

theorem size_eq (hc : Holds c h data) : c.size = Header.size + data.length := by
  rw [← Contents.length_toList, hc, List.length_append, Header.length_bytes]

/-- A number that stands in a file is read. -/
theorem number_eq {position width n : Nat} (hread : c.read position width = Word.bytes width n)
    (hn : n < Nat.pow 256 width) : number c position width = .ok n := by
  unfold number Word.at?
  rw [hread, List.drop_zero, List.take_of_length_le (by simp)]
  dsimp only
  rw [Word.length_bytes, if_pos rfl, Word.value_bytes, Nat.mod_eq_of_lt hn]
  rfl

theorem take_eq (hc : Holds c h data) {position count : Nat} (hle : position + count ≤ Header.size) :
    take c position count = .ok (position + count) := by
  rw [take, if_pos]
  rw [hc.size_eq]
  omega

end Holds

/-- The samples that are found in a file that was written. -/
def Stream.written (channels rate samples : Nat) (rate_pos : 0 < rate) : Stream where
  format := {
    encoding := .linear, channels, rate, block := channels * 2, bits := 16, coded := some 16,
    rate_pos }
  start := Header.size
  size := 2 * samples
  counted := none

/-- Whole frames are counted as they were written. -/
theorem Stream.frames?_written {channels rate : Nat} (hchannels : 0 < channels) (hrate : 0 < rate)
    (frames : Nat) : (Stream.written channels rate (channels * frames) hrate).frames? = some frames := by
  have hblock : channels * 2 ≠ 0 := by omega
  have hsize : 2 * (channels * frames) = frames * (channels * 2) := by ring
  change (if channels * 2 = 0 then none else some (2 * (channels * frames) / (channels * 2))) = _
  rw [if_neg hblock, hsize, Nat.mul_div_cancel _ (by omega)]

section

variable {c : Contents} {channels rate samples : Nat} {data : List UInt8}

/-- The description in the header is in order. -/
theorem Format.read_written (hc : Holds c (Header.pcm16 channels rate (2 * samples)) data)
    (hchannels : 0 < channels) (hplaces : channels ≤ Format.maxChannels) (hpos : 0 < rate)
    (hrate : rate < 2 ^ 32) :
    Format.read c 20 16 = .ok ((Stream.written channels rate samples hpos).format, 36) := by
  have hfew : channels ≤ 26 := hplaces
  have htag : number c 20 2 = .ok 1 := Holds.number_eq (hc.read_eq 20 2) (by decide)
  have hcount : number c 22 2 = .ok channels :=
    Holds.number_eq (hc.read_eq 22 2) (Nat.lt_of_le_of_lt hfew (by decide))
  have hspeed : number c 24 4 = .ok rate := Holds.number_eq (hc.read_eq 24 4) hrate
  have hblock : number c 32 2 = .ok (channels * 2) :=
    Holds.number_eq (hc.read_eq 32 2)
      (Nat.lt_of_le_of_lt (Nat.mul_le_mul_right 2 hfew) (by decide))
  have hbits : number c 34 2 = .ok 16 := Holds.number_eq (hc.read_eq 34 2) (by decide)
  have hstop : take c 20 16 = .ok 36 := hc.take_eq (by decide)
  have hnone : take c 36 0 = .ok 36 := hc.take_eq (by decide)
  have hcheck : ¬(channels = 0 ∨ Format.maxChannels < channels) := by omega
  simp [Format.read, Format.fieldsSize, hstop, htag, hcount, hspeed, hblock, hbits, Encoding.ofTag?,
    hpos, Format.linear, hnone, Format.checkBits, Encoding.takesBits, Format.checkChannels, hcheck,
    Stream.written, bind, Except.bind, pure, Except.pure]

/-- The next chunk of a list is the one whose head comes next, where there is room for all of it. -/
theorem Walk.next_eq {w : Walk} {size : Nat} (heven : w.consumed % 2 = 0)
    (hsize : number c (w.position + 4) 4 = .ok size)
    (hroom : w.consumed + Walk.headSize + size ≤ w.length) :
    w.next c = .ok (some { name := c.read w.position 4, size },
      { w with
        position := w.position + Walk.headSize
        consumed := w.consumed + Walk.headSize + size }) := by
  have halign : w.align c = .ok w := if_pos heven
  have hhead : ¬ w.length < w.consumed + Walk.headSize := by omega
  have hfits : ¬(w.length - (w.consumed + Walk.headSize) < size ∧
      ¬(w.length = Walk.unknownLength ∧ size = Walk.unknownLength)) := by omega
  unfold Walk.next
  rw [halign]
  dsimp only
  rw [if_neg hhead, hsize]
  dsimp only
  rw [if_neg hfits]

/-- What a chunk in front of the samples says is kept. -/
theorem Form.scan_of_prelude {p p' : Prelude} {w w' : Walk} {chunk : Chunk} {position : Nat}
    (hnext : w.next c = .ok (some chunk, w')) (hname : chunk.name ≠ Text.ascii "data")
    (hread : p.read c chunk w'.position = .ok (p', position)) :
    Form.scan c p w = Form.scan c p' { w' with position } := by
  rw [Form.scan]
  split
  · simp_all
  · simp_all
  · rename_i chunk' w'' hnext'
    rw [hnext] at hnext'
    cases hnext'
    rw [if_neg hname, hread]

/-- The samples end the search. -/
theorem Form.scan_of_samples {p : Prelude} {format : Format} {w w' : Walk} {chunk : Chunk}
    (hnext : w.next c = .ok (some chunk, w')) (hname : chunk.name = Text.ascii "data")
    (hformat : p.format = some format) (hdecoded : format.decoded = .ok format) :
    Form.scan c p w = .ok (some {
      format, start := w'.position, size := chunk.size, counted := p.counted }) := by
  rw [Form.scan]
  split
  · simp_all
  · simp_all
  · rename_i chunk' w'' hnext'
    rw [hnext] at hnext'
    cases hnext'
    rw [if_pos hname, hformat]
    dsimp only
    rw [hdecoded]
    rfl

/-- **A written file** is opened with the samples it was made of. -/
theorem Stream.find_written (hc : Holds c (Header.pcm16 channels rate (2 * samples)) data)
    (hsize : 2 * samples + 36 < 2 ^ 32) (hchannels : 0 < channels)
    (hplaces : channels ≤ Format.maxChannels) (hpos : 0 < rate) (hrate : rate < 2 ^ 32) :
    Stream.find c = .ok (some (Stream.written channels rate samples hpos)) := by
  have hlength : 36 + 2 * samples < 2 ^ 32 := by omega
  have hwindow : Signature.window ≤ c.size := by
    rw [hc.size_eq]
    exact Nat.le_add_right_of_le (by decide)
  have hform : c.read 0 Signature.form.length = Signature.form := hc.read_eq 0 4
  have hriff : number c 4 4 = .ok (36 + 2 * samples) := Holds.number_eq (hc.read_eq 4 4) hlength
  have hwave : c.read 8 4 = Text.ascii "WAVE" := hc.read_eq 8 4
  have hstart : take c 8 4 = .ok 12 := hc.take_eq (by decide)
  -- the two chunks, as the walk over the form finds them
  have hformat : number c 16 4 = .ok 16 := Holds.number_eq (hc.read_eq 16 4) (by decide)
  have hdescription : c.read 12 4 = Text.ascii "fmt " := hc.read_eq 12 4
  have hsamples : number c 40 4 = .ok (2 * samples) :=
    Holds.number_eq (hc.read_eq 40 4) (by change 2 * samples < 2 ^ 32; omega)
  have hname : c.read 36 4 = Text.ascii "data" := hc.read_eq 36 4
  have hfirst : Walk.next c ⟨12, 0, 36 + 2 * samples⟩ =
      .ok (some ⟨c.read 12 4, 16⟩, ⟨20, 24, 36 + 2 * samples⟩) :=
    Walk.next_eq (by simp) hformat (by dsimp only [Walk.headSize]; omega)
  have hsecond : Walk.next c ⟨36, 24, 36 + 2 * samples⟩ =
      .ok (some ⟨c.read 36 4, 2 * samples⟩, ⟨44, 32 + 2 * samples, 36 + 2 * samples⟩) :=
    Walk.next_eq (by simp) hsamples (by dsimp only [Walk.headSize]; omega)
  have hprelude : Prelude.read c {} { name := c.read 12 4, size := 16 } 20 =
      .ok ({ format := some (Stream.written channels rate samples hpos).format }, 36) := by
    unfold Prelude.read
    rw [if_pos hdescription, Format.read_written hc hchannels hplaces hpos hrate]
    rfl
  have hdecoded : (Stream.written channels rate samples hpos).format.decoded =
      .ok (Stream.written channels rate samples hpos).format := by
    have hsome : (Stream.written channels rate samples hpos).format.channels ≠ 0 :=
      Nat.ne_of_gt hchannels
    unfold Format.decoded
    rw [if_neg hsome]
    rfl
  have hscan : Form.scan c {} ⟨12, 0, 36 + 2 * samples⟩ =
      .ok (some (Stream.written channels rate samples hpos)) := by
    rw [Form.scan_of_prelude hfirst (by rw [hdescription]; decide) hprelude,
      Form.scan_of_samples hsecond hname rfl hdecoded]
    rfl
  have hread : Form.read c 0 = .ok (some (Stream.written channels rate samples hpos)) := by
    simp [Form.read, hriff, hstart, hwave, hscan, bind, Except.bind]
  unfold Stream.find
  rw [Signature.search_form hwindow hform]
  exact hread

/-- A file of samples is one that was written. -/
theorem Stream.find_file? {samples : List Int16} (hbytes : file? channels rate samples = some c.toList)
    (hchannels : 0 < channels) (hplaces : channels ≤ Format.maxChannels) (hpos : 0 < rate)
    (hrate : rate < 2 ^ 32) :
    Stream.find c = .ok (some (Stream.written channels rate samples.length hpos)) ∧
      2 * samples.length + 36 < 2 ^ 32 := by
  obtain ⟨dataSize, hsize, hc⟩ := Option.map_eq_some_iff.mp hbytes
  obtain ⟨hle, rfl⟩ := (Header.dataSize?_eq_some_iff _ _).mp hsize
  have hlt : 2 * samples.length + 36 < 2 ^ 32 := Nat.lt_of_le_of_lt hle (by decide)
  exact ⟨find_written hc.symm hlt hchannels hplaces hpos hrate, hlt⟩

end

end Pcm

end CompactDisc
