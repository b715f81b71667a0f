import CompactDisc.Pcm.Encoding

/-!
# CompactDisc.Pcm.StreamError

**Why the sound in a file cannot be decoded.**

Design points:

* A cause belongs to one of three families: the file ends too early, it breaks the rules of its own
  format, or it follows rules that are not decoded here. The wording begins with the family.
* The description of samples depends on how they are encoded, and so do the complaints about it.
-/

namespace CompactDisc.Pcm

/-- A reason not to decode a file. -/
inductive StreamError where
  /-- No part of the file looks like sound. -/
  | unrecognized
  /-- The file ends before what it announces has been read. -/
  | endOfStream
  /-- The form holds something else than sound. -/
  | otherForm
  /-- The form ends without samples. -/
  | noData
  /-- A chunk goes on behind the end of what holds it. -/
  | chunkTooLong
  /-- The description of the samples has no room for its fields. -/
  | badFormat
  /-- The description has a size that its encoding does not have. -/
  | badEncoding (encoding : Encoding)
  /-- One sample has a size that its encoding does not have. -/
  | sampleSize (encoding : Encoding)
  /-- The description has an extension where its encoding has none. -/
  | extended (encoding : Encoding)
  /-- The encoding is not known, or its samples are not decoded. -/
  | unknownEncoding
  /-- There are no sample frames in a second. -/
  | noRate
  /-- There are no channels, or more than have a place. -/
  | channelCount
  /-- The extension of an extensible description has the wrong size. -/
  | extensionSize
  /-- The samples of an extensible description are not made of whole bytes. -/
  | brokenSample
  /-- More bits of a sample are used than it has. -/
  | usedBits
  /-- A channel is put to a place that does not exist. -/
  | channelPlace
  /-- The encoding named by an extensible description is not known. -/
  | unknownExtensible
  /-- Whole numbers in an extensible description are too wide. -/
  | wideNumber
  /-- Not all bits of a fraction in an extensible description are used. -/
  | unusedBits
  /-- Fractions in an extensible description have a size that fractions do not have. -/
  | fractionSize
  /-- The samples belong to no channel. -/
  | noChannel
  /-- A coded sample has more bits than the sample it stands for. -/
  | codedWidth
  /-- A list has no room for its own name. -/
  | badList
  /-- A count of sample frames is not a number of four bytes. -/
  | badCount
  deriving DecidableEq, Repr

/-- The wording of a reason. -/
def StreamError.message : StreamError → String
  | .unrecognized => "unsupported feature: core (probe): no suitable format reader found"
  | .endOfStream => "end of stream"
  | .otherForm => "unsupported feature: wav: riff form is not wave"
  | .noData => "unsupported feature: wav: missing data chunk"
  | .chunkTooLong => "malformed stream: riff: chunk length exceeds parent (list) chunk length"
  | .badFormat => "malformed stream: wav: malformed fmt chunk"
  | .badEncoding encoding => "malformed stream: wav: malformed " ++ encoding.name ++ " chunk"
  | .sampleSize encoding =>
    "malformed stream: wav: bits per sample for " ++ encoding.name ++ " must be " ++ encoding.sizes ++
      " bits"
  | .extended encoding =>
    "malformed stream: wav: extra data not expected for " ++ encoding.name ++ " chunk"
  | .unknownEncoding => "unsupported feature: wav: unsupported wave format"
  | .noRate => "malformed stream: wav: sample rate is zero"
  | .channelCount => "malformed stream: riff: invalid channel count"
  | .extensionSize => "malformed stream: wav: extra data size not 22 bytes for fmt_ext chunk"
  | .brokenSample =>
    "malformed stream: wav: bits per coded sample for fmt_ext must be a multiple of 8"
  | .usedBits =>
    "malformed stream: wav: bits per sample must be <= bits per coded sample for fmt_ext"
  | .channelPlace => "unsupported feature: wav: too many channels in mask for fmt_ext"
  | .unknownExtensible => "unsupported feature: wav: unsupported fmt_ext sub-type"
  | .wideNumber =>
    "malformed stream: bits per sample for fmt_ext PCM sub-type must be <= 32 bits"
  | .unusedBits =>
    "malformed stream: wav: bits per sample for fmt_ext IEEE sub-type must equal bits per coded sample"
  | .fractionSize =>
    "malformed stream: wav: bits per sample for fmt_ext IEEE sub-type must be 32 or 64 bits"
  | .noChannel => "unsupported feature: pcm: number of channels cannot be 0"
  | .codedWidth => "malformed stream: pcm: coded bits per sample is greater than the sample format"
  | .badList => "malformed stream: wav: malformed list chunk"
  | .badCount => "malformed stream: wav: malformed fact chunk"

end CompactDisc.Pcm
