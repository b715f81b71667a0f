import CompactDisc.Pcm.Chunk

/-!
# CompactDisc.Pcm.Format

**The description of samples** in the format chunk of a form.

Design points:

* All descriptions begin with the same fields. Whether what follows them is in order depends on the
  encoding, whose own rules are in `linear`, `adaptive`, `floating`, `logarithmic` and `extensible`.
  Each gives the place behind what it has read, which need not be the end of the chunk.
* A description in order says nothing about whether its samples are decoded; that is asked where the
  samples begin (`Format.decoded`). What is asked there may go back to a description before the last one
  (`Format.after`).
* A rate is never zero: without it no place in the sound has a time, and nothing is opened.
* The size of a block is taken as it is written. It need not be the size of one sample frame, and a
  block of no bytes leaves the length of the sound open.
-/

namespace CompactDisc.Pcm

/-- What is known about samples. -/
structure Format where
  encoding : Encoding
  channels : Nat
  /-- Sample frames per second. -/
  rate : Nat
  /-- Bytes of one block. -/
  block : Nat
  /-- Bits of one sample. -/
  bits : Nat
  /-- Bits of one coded sample, where the encoding leaves them to its description. -/
  coded : Option Nat
  rate_pos : 0 < rate
  deriving DecidableEq, Repr

namespace Format

/-- The size of the fields that all descriptions have. -/
def fieldsSize : Nat := 16

/-- The size of the samples that are decoded, in bits. -/
def sampleBits : Nat := 16

/-- The most channels that have a place. -/
def maxChannels : Nat := 26

/-- Checks that one sample has a size of its encoding. -/
def checkBits (f : Format) : Except StreamError Unit :=
  if f.encoding.takesBits f.bits then .ok () else .error (.sampleSize f.encoding)

/-- Checks that there are channels, and a place for each. -/
def checkChannels (f : Format) : Except StreamError Unit :=
  if f.channels = 0 ∨ maxChannels < f.channels then .error .channelCount else .ok ()

/-- A description that follows another one takes over the size of a coded sample that it does not
give itself. -/
def after (f : Format) (previous : Option Format) : Format :=
  { f with coded := f.coded.or (previous.bind (·.coded)) }

/-- Whether a coded sample has more bits than the sample it stands for. -/
def isTooWide (f : Format) : Bool :=
  match f.encoding.width? f.bits, f.coded with
  | some width, some coded => width < coded
  | _, _ => false

/-- Checks that the samples are such as are decoded here, which is to say whole numbers of sixteen bits. -/
def decoded (f : Format) : Except StreamError Format :=
  if f.channels = 0 then .error .noChannel
  else if f.isTooWide then .error .codedWidth
  else if f.encoding = .linear ∧ f.bits = sampleBits then .ok f
  else .error .unknownEncoding

/-! ### What follows the fields

Here `position` is the place behind the fields, and `size` the size of the whole description. -/

/-- Whole numbers: what an extension says does not matter. -/
def linear (c : Contents) (f : Format) (position size : Nat) :
    Except StreamError (Format × Nat) := do
  if ¬(size = 16 ∨ size = 18 ∨ size = 40) then throw (.badEncoding f.encoding)
  let stop ← take c position (size - fieldsSize)
  f.checkBits
  f.checkChannels
  return ({ f with coded := some f.bits }, stop)

/-- Differences: an extension holds the size of a packet, and the factors if they are listed. -/
def adaptive (c : Contents) (f : Format) (listed : Bool) (position size : Nat) :
    Except StreamError (Format × Nat) := do
  f.checkBits
  if size < 20 then throw (.badEncoding f.encoding)
  let extension ← number c position 2
  if (if listed then extension < 32 else extension ≠ 2) then throw (.badEncoding f.encoding)
  let stop ← take c (position + 2) extension
  f.checkChannels
  return (f, stop)

/-- Fractions: there may be an extension, and a short one is of no bytes. -/
def floating (c : Contents) (f : Format) (position size : Nat) :
    Except StreamError (Format × Nat) := do
  if ¬(size = 16 ∨ size = 18 ∨ size = 40) then throw (.badEncoding f.encoding)
  if size = 18 then
    if (← number c position 2) ≠ 0 then throw (.extended f.encoding)
  let stop ← take c position (size - fieldsSize)
  f.checkBits
  f.checkChannels
  return (f, stop)

/-- Logarithmic scales: there is an extension, which is skipped even where the chunk ends before. -/
def logarithmic (c : Contents) (f : Format) (position size : Nat) :
    Except StreamError (Format × Nat) := do
  if size ≠ 18 then throw (.badEncoding f.encoding)
  let extension ← number c position 2
  let stop ← take c (position + 2) extension
  f.checkChannels
  return (f, stop)

/-- The places that are marked in a mask of 32 bits, the lowest first. -/
def marked (mask : Nat) : List Nat := (List.range 32).filter mask.testBit

/-- The places of channels. The lowest of the marked ones are taken; where too few are marked, the
missing ones follow the highest. -/
def places (mask channels : Nat) : List Nat :=
  let marked := marked mask
  let next := marked.getLast?.elim 0 (· + 1)
  if channels ≤ marked.length then marked.take channels
  else marked ++ List.range' next (channels - marked.length)

/-- An extension with the bits that are used of each sample, the places of the channels and the long
name of the encoding. There are as many channels as places. -/
def extensible (c : Contents) (f : Format) (position size : Nat) :
    Except StreamError (Format × Nat) := do
  if size < 40 then throw (.badEncoding f.encoding)
  if (← number c position 2) ≠ 22 then throw .extensionSize
  let used ← number c (position + 2) 2
  if f.bits % 8 ≠ 0 then throw .brokenSample
  if f.bits < used then throw .usedBits
  let places := places (← number c (position + 4) 4) f.channels
  if places.any (maxChannels ≤ ·) then throw .channelPlace
  let stop ← take c (position + 8) 16
  let tag ← number c (position + 8) 2
  match Encoding.ofLongName? tag (c.read (position + 10) 14) with
  | none => throw .unknownExtensible
  | some encoding =>
    if encoding = .linear ∧ 32 < f.bits then throw .wideNumber
    if encoding = .floating ∧ f.bits ≠ used then throw .unusedBits
    if encoding = .floating ∧ ¬encoding.takesBits f.bits then throw .fractionSize
    return ({ f with encoding, channels := places.length, coded := some f.bits }, stop)

/-! ### The whole description -/

/-- Reads the description of `size` bytes that starts at `position`, and the place behind it. -/
def read (c : Contents) (position size : Nat) : Except StreamError (Format × Nat) := do
  if size < fieldsSize then throw .badFormat
  let stop ← take c position fieldsSize
  let tag ← number c position 2
  let channels ← number c (position + 2) 2
  let rate ← number c (position + 4) 4
  let block ← number c (position + 12) 2
  let bits ← number c (position + 14) 2
  match Encoding.ofTag? tag with
  | none => throw .unknownEncoding
  | some encoding =>
    if rate_pos : 0 < rate then
      let f := { encoding, channels, rate, block, bits, coded := none, rate_pos : Format }
      match encoding with
      | .linear => linear c f stop size
      | .adaptive listed => adaptive c f listed stop size
      | .floating => floating c f stop size
      | .aLaw | .muLaw => logarithmic c f stop size
      | .extensible => extensible c f stop size
    else throw .noRate

end Format

end CompactDisc.Pcm
