/-!
# CompactDisc.Pcm.Encoding

**How samples are encoded**: the encodings that a file may name, and what each asks of the size of one
sample.

Design points:

* A file names an encoding by a number, or leaves the number to a longer name that stands further on.
* Only whole numbers of sixteen bits are decoded here; samples of any other kind are left out, although
  there are decoders for them. The other encodings are told apart because the description of samples is
  checked by the rules of its own encoding even where it is not used.
-/

namespace CompactDisc.Pcm

/-- How samples are encoded. -/
inductive Encoding where
  /-- Whole numbers. -/
  | linear
  /-- Differences of varying width, with or without a list of the factors they are predicted by. -/
  | adaptive (listed : Bool)
  /-- Fractions. -/
  | floating
  /-- Eight bits on the first logarithmic scale of telephony. -/
  | aLaw
  /-- Eight bits on the second. -/
  | muLaw
  /-- An encoding that is named further on in its description. -/
  | extensible
  deriving DecidableEq, Repr

namespace Encoding

/-- The encoding with a number. -/
def ofTag? : Nat → Option Encoding
  | 0x0001 => some .linear
  | 0x0002 => some (.adaptive true)
  | 0x0003 => some .floating
  | 0x0006 => some .aLaw
  | 0x0007 => some .muLaw
  | 0x0011 => some (.adaptive false)
  | 0xFFFE => some .extensible
  | _ => none

/-- The end of the long names of encodings. -/
def commonFamily : List UInt8 :=
  [0x00, 0x00, 0x00, 0x00, 0x10, 0x00, 0x80, 0x00, 0x00, 0xAA, 0x00, 0x38, 0x9B, 0x71]

/-- The end of the long names of encodings whose channels are directions of a sound field. -/
def fieldFamily : List UInt8 :=
  [0x00, 0x00, 0x21, 0x07, 0xD3, 0x11, 0x86, 0x44, 0xC8, 0xC1, 0xCA, 0x00, 0x00, 0x00]

/-- The encoding with a long name, which is a number and the end that its family has. The numbers are
not all the same as those of `ofTag?`. -/
def ofLongName? (tag : Nat) (family : List UInt8) : Option Encoding :=
  if family = commonFamily then
    match tag with
    | 0x0001 => some .linear
    | 0x0003 => some .floating
    | 0x0004 => some .muLaw
    | 0x0006 => some .aLaw
    | _ => none
  else if family = fieldFamily then
    match tag with
    | 0x0001 => some .linear
    | 0x0003 => some .floating
    | _ => none
  else none

/-- The name under which the description of such samples is reported. -/
def name : Encoding → String
  | .linear => "fmt_pcm"
  | .adaptive _ => "fmt_adpcm"
  | .floating => "fmt_ieee"
  | .aLaw => "fmt_alaw"
  | .muLaw => "fmt_mulaw"
  | .extensible => "fmt_ext"

/-- Whether one sample may have so many bits. -/
def takesBits (bits : Nat) : Encoding → Bool
  | .linear => bits = 8 || bits = 16 || bits = 24 || bits = 32
  | .adaptive _ => bits = 4
  | .floating => bits = 32 || bits = 64
  | .aLaw | .muLaw | .extensible => true

/-- The bits of a sample once it is decoded, where they are known before: samples on a logarithmic
scale are unfolded, others keep their `bits`. -/
def width? (bits : Nat) : Encoding → Option Nat
  | .linear | .floating => some bits
  | .aLaw | .muLaw => some 16
  | .adaptive _ | .extensible => none

/-- The sizes of one sample, in words; none where every size is taken. -/
def sizes : Encoding → String
  | .linear => "8, 16, 24 or 32"
  | .adaptive _ => "4"
  | .floating => "32 or 64"
  | .aLaw | .muLaw | .extensible => ""

end Encoding

end CompactDisc.Pcm
