import CompactDisc.Pcm.Format
import CompactDisc.RedBook
import CompactDisc.Rounding

/-!
# CompactDisc.Pcm.Stream

**Samples inside a file**: how long they last, which sample frame belongs to a byte of the audio disc,
and where each sample stands.

Design points:

* Disc positions are bytes at 176.4 to the millisecond; a file of another rate is reached through its
  time in milliseconds. Each conversion rounds where a binary fraction of 53 significant bits rounds,
  see `CompactDisc.Rounding`.
* Lengths and positions go by the blocks that the file declares, one to a sample frame. Samples are
  decoded in packets of so many blocks, each from its own first byte on, and no packet gives more
  frames than it has blocks. Where a block is one sample frame, as it should be, the samples stand one
  behind the other (`samplesAt_plain`).
* A file may break off before the end it declares. What is heard are the frames that are wholly there
  (`Stream.playable`).
-/

namespace CompactDisc.Pcm

/-- Samples of sixteen bits inside a file. -/
structure Stream where
  format : Format
  /-- The position of the first sample in the file. -/
  start : Nat
  /-- Bytes of samples, as declared. -/
  size : Nat
  /-- Sample frames, if their number is declared apart from the bytes. -/
  counted : Option Nat
  deriving DecidableEq, Repr

namespace Stream

/-- Samples in one frame. -/
abbrev channels (s : Stream) : Nat := s.format.channels

/-- Sample frames per second. -/
abbrev rate (s : Stream) : Nat := s.format.rate

/-- Bytes of one block. -/
abbrev block (s : Stream) : Nat := s.format.block

/-- The declared number of sample frames: the whole blocks, or where a block has no size the number
that is declared apart. -/
def frames? (s : Stream) : Option Nat :=
  if s.block = 0 then s.counted else some (s.size / s.block)

/-! ### Time -/

/-- Significant bits of the fractions that times are kept in. -/
def precision : Nat := 53

/-- Disc bytes in one millisecond, 176.4 as a binary fraction. -/
def bytesPerMillisecond : Fraction :=
  Fraction.nearest precision ⟨RedBook.sampleRate * RedBook.bytesPerSampleFrame, 1000⟩

/-- How long `frames` sample frames last, in milliseconds. -/
def duration (rate frames : Nat) : Nat :=
  let seconds := Fraction.nearest precision ⟨frames, rate⟩
  seconds.floor * 1000 + (Fraction.nearest precision (seconds.fract.mul (.ofNat 1000))).round

/-- The length of the stream in disc bytes, if the number of its frames is declared. -/
def length? (s : Stream) : Option Nat :=
  s.frames?.map fun frames =>
    let ms := Fraction.ofNat (duration s.rate frames)
    (Fraction.nearest precision (ms.mul bytesPerMillisecond)).floor

/-- The millisecond nearest to a disc byte. -/
def millisecond (offset : Nat) : Nat :=
  let bytes := Fraction.nearest precision (.ofNat offset)
  (Fraction.nearest precision (bytes.div bytesPerMillisecond)).round

/-- The numbers of sample frames, which start again at zero. -/
def frameNumbers : Nat := 0x10000000000000000

/-- The sample frame at a time in milliseconds. -/
def frameAt (s : Stream) (ms : Nat) : Nat :=
  let fraction := Fraction.nearest precision ⟨ms % 1000, 1000⟩
  let part := (Fraction.nearest precision ((Fraction.ofNat s.rate).mul fraction)).floor
  (ms / 1000 * s.rate + part) % frameNumbers

/-! ### Packets -/

/-- Bytes of one sample. -/
def sampleSize : Nat := 2

/-- Bytes of one sample frame. -/
def frameSize (s : Stream) : Nat := sampleSize * s.channels

/-- Blocks of a whole packet. -/
def packetBlocks : Nat := 1152

/-- Bytes of a whole packet. -/
def packetSize (s : Stream) : Nat := packetBlocks * s.block

/-- Sample frames decoded from a packet of `size` bytes. -/
def framesIn (s : Stream) (size : Nat) : Nat := min packetBlocks (size / s.frameSize)

/-- Samples of a whole packet. -/
def packetSamples (s : Stream) : Nat := s.framesIn s.packetSize * s.channels

/-- The sample that is reached by going to a frame: the one so far into the packet of its block. -/
def sampleAt (s : Stream) (frame : Nat) : Nat :=
  frame / packetBlocks * s.packetSamples + frame % packetBlocks * s.channels

/-- The place of a sample in the file. -/
def position (s : Stream) (sample : Nat) : Nat :=
  s.start + sample / s.packetSamples * s.packetSize + sampleSize * (sample % s.packetSamples)

/-- The bytes of `count` samples from `sample` on. -/
def samplesAt (s : Stream) (c : Contents) (sample count : Nat) : List UInt8 :=
  (List.range' sample count).flatMap fun i => c.read (s.position i) sampleSize

/-- The bytes that packets are made from: whole declared blocks, as far as the file goes. -/
def present (s : Stream) (c : Contents) : Nat :=
  min (s.size / s.block * s.block) (c.size - s.start)

/-- The sample frames that can be heard. -/
def playable (s : Stream) (c : Contents) : Nat :=
  let present := s.present c
  present / s.packetSize * s.framesIn s.packetSize + s.framesIn (present % s.packetSize)

/-! ### Blocks of one sample frame -/

/-- A block is one sample frame, and there are channels. -/
structure Plain (s : Stream) : Prop where
  channels_pos : 0 < s.channels
  block_eq : s.block = s.frameSize

namespace Plain

variable {s : Stream} (h : s.Plain)
include h

theorem frameSize_pos : 0 < s.frameSize := Nat.mul_pos (by decide) h.channels_pos

theorem framesIn_packetSize : s.framesIn s.packetSize = packetBlocks := by
  rw [framesIn, packetSize, h.block_eq, Nat.mul_div_cancel _ h.frameSize_pos, Nat.min_self]

theorem packetSamples_eq : s.packetSamples = packetBlocks * s.channels := by
  rw [packetSamples, h.framesIn_packetSize]

/-- A packet takes the bytes of its samples. -/
theorem packetSize_eq : s.packetSize = sampleSize * s.packetSamples := by
  rw [h.packetSamples_eq, packetSize, h.block_eq, frameSize, Nat.mul_left_comm]

/-- Samples stand one behind the other. -/
theorem position_eq (sample : Nat) : s.position sample = s.start + sampleSize * sample := by
  rw [position, h.packetSize_eq, Nat.mul_left_comm, Nat.add_assoc, ← Nat.mul_add,
    Nat.mul_comm _ s.packetSamples, Nat.div_add_mod]

theorem sampleAt_eq (frame : Nat) : s.sampleAt frame = frame * s.channels := by
  rw [sampleAt, h.packetSamples_eq, ← Nat.mul_assoc, ← Nat.add_mul, Nat.div_add_mod']

/-- Samples are read as they stand. -/
theorem samplesAt_eq (c : Contents) (sample count : Nat) :
    s.samplesAt c sample count = c.read (s.start + sampleSize * sample) (sampleSize * count) := by
  induction count generalizing sample with
  | zero => simp [samplesAt]
  | succ count ih =>
    have rest := ih (sample + 1)
    rw [samplesAt] at rest ⊢
    have split : sampleSize * (count + 1) = sampleSize + sampleSize * count := by
      rw [Nat.mul_succ, Nat.add_comm]
    rw [List.range'_succ, List.flatMap_cons, rest, h.position_eq, split, Contents.read_add,
      Nat.mul_succ, Nat.add_assoc]

/-- The frames that can be heard are those that are wholly in the file. -/
theorem playable_eq (c : Contents) :
    s.playable c = min (s.size / s.block) ((c.size - s.start) / s.block) := by
  have pos : 0 < s.block := h.block_eq ▸ h.frameSize_pos
  have packets (n : Nat) :
      n / (packetBlocks * s.block) * packetBlocks
        + min packetBlocks (n % (packetBlocks * s.block) / s.block) = n / s.block := by
    rw [Nat.mul_comm packetBlocks, Nat.mod_mul_right_div_self, ← Nat.div_div_eq_div_mul,
      Nat.min_eq_right (Nat.le_of_lt (Nat.mod_lt _ (by decide))), Nat.div_add_mod']
  simp only [playable, h.framesIn_packetSize]
  rw [packetSize, framesIn, ← h.block_eq, packets, present]
  rcases Nat.le_total (s.size / s.block * s.block) (c.size - s.start) with le | le
  · rw [Nat.min_eq_left le, Nat.mul_div_cancel _ pos, Nat.min_eq_left]
    rwa [Nat.le_div_iff_mul_le pos]
  · rw [Nat.min_eq_right le, Nat.min_eq_right]
    exact Nat.div_le_of_le_mul (by rwa [Nat.mul_comm])

/-- Every frame of a file that holds all it declares can be heard. -/
theorem playable_of_le {c : Contents} (le : s.start + s.size ≤ c.size) :
    s.playable c = s.size / s.block := by
  rw [h.playable_eq]
  exact Nat.min_eq_left (Nat.div_le_div_right (by omega))

end Plain

end Stream

end CompactDisc.Pcm
