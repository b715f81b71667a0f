import CompactDisc.Pcm.Word
import CompactDisc.Rounding

/-!
# CompactDisc.Sound.Channel

**One output of a mixer**, which keeps what it is given to play.

Design points:

* Samples are collected as interleaved stereo. Sound with one channel is put on both sides.
* The volume of a side is a byte; the factor that a sample is to be multiplied with is this byte over
  255, in single precision (`Channel.scaleBits`).
* A channel that is disabled is not pulled, but keeps what it has.
-/

namespace CompactDisc

/-- Two values, one for each side. -/
structure Sides (α : Type) where
  left : α
  right : α
  deriving DecidableEq, Repr

/-- An output of a mixer. -/
structure Channel where
  name : String
  enabled : Bool := false
  /-- Sample frames per second. -/
  rate : Nat
  volume : Sides UInt8 := ⟨255, 255⟩
  /-- The output that each side goes to. -/
  map : Sides UInt8 := ⟨0, 1⟩
  /-- What has been collected: left and right in turn. -/
  samples : Array Int16 := #[]
  deriving DecidableEq, Repr

namespace Channel

/-- Stereo frames collected so far. -/
def frames (c : Channel) : Nat := c.samples.size / 2

/-- The single-precision number nearest to `volume / 255`, as its 32 bits. -/
def scaleBits (volume : UInt8) : Nat :=
  if volume = 0 then 0
  else
    let (significand, exponent) := Fraction.scaled 24 ⟨volume.toNat, 255⟩
    (exponent + 127 + 23).toNat * 0x800000 + significand - 0x800000

/-- Collects interleaved stereo, at most `frames` frames of it. -/
def addStereo (c : Channel) (frames : Nat) (samples : List Int16) : Channel :=
  { c with samples := c.samples ++ samples.take (frames * 2) }

/-- Collects sound with one channel on both sides, at most `frames` frames of it. -/
def addMono (c : Channel) (frames : Nat) (samples : List Int16) : Channel :=
  { c with samples := c.samples ++ (samples.take frames).flatMap fun s => [s, s] }

/-- Hands on `frames` frames of a source with the given number of channels. Two channels are stereo;
any other number is taken for one channel. -/
def forward (c : Channel) (channels : Nat) (order : ByteOrder) (frames : Nat)
    (bytes : List UInt8) : Channel :=
  if channels = 2 then c.addStereo frames (Sample.read order bytes)
  else c.addMono frames (Sample.read order bytes)

/-- Takes out everything that was collected. -/
def drain (c : Channel) : List Int16 × Channel := (c.samples.toList, { c with samples := #[] })

@[simp] theorem toList_samples_addStereo (c : Channel) (frames : Nat) (samples : List Int16) :
    (c.addStereo frames samples).samples.toList
      = c.samples.toList ++ samples.take (frames * 2) := by
  simp [addStereo]

@[simp] theorem toList_samples_addMono (c : Channel) (frames : Nat) (samples : List Int16) :
    (c.addMono frames samples).samples.toList
      = c.samples.toList ++ (samples.take frames).flatMap fun s => [s, s] := by
  simp [addMono]

@[simp] theorem frames_drain (c : Channel) : c.drain.2.frames = 0 := by
  simp [drain, frames]

example : scaleBits 255 = 0x3F800000 := by decide

end Channel

end CompactDisc
