import CompactDisc.Text.Numeral

/-!
# CompactDisc.Command.Grammar

**The words that each command knows**: its operands and its options.

A command has one `Grammar`. Its words are read by it and its page of the manual is printed from it, so
that what is described is what is read.
-/

namespace CompactDisc.Command

/-- What an option takes. -/
inductive Value where
  /-- Nothing: the option is given or not. -/
  | none
  /-- A number up to `max`. Zero may have a minus sign. -/
  | number (max : Nat)
  /-- A number up to `max`, without a minus sign. -/
  | plain (max : Nat)
  deriving DecidableEq, Repr

/-- Reads what an option takes. -/
def Value.read : Value → List Char → Except Text.Numeral.Error Nat
  | .none, _ => .ok 0
  | .number max, text => Text.Numeral.parseSigned max text
  | .plain max, text => Text.Numeral.parse max text

/-- An option, by its long name and its letter. -/
structure Choice where
  name : String
  letter : Option Char
  value : Value
  /-- What its value is called. -/
  label : String := ""
  about : String
  /-- The value where the option is not given. -/
  usual : Option Nat := none
  deriving DecidableEq, Repr

/-- Whether the option takes a value. -/
def Choice.takesValue (choice : Choice) : Bool := choice.value != .none

/-- An operand. -/
structure Operand where
  label : String
  about : String
  deriving DecidableEq, Repr

/-- The words that a command knows. -/
structure Grammar where
  about : String
  operands : List Operand
  choices : List Choice := []
  deriving DecidableEq, Repr

namespace Grammar

open Text.Numeral (max8 max32 max64)

/-- The sample frames of one pull if no number is given. -/
def usualFrames : Nat := 4096

/-- The option to write over the output. -/
def force : Choice where
  name := "force"
  letter := some 'f'
  value := .none
  about := "Force overwrite of the output file if it already exists"

/-- The words of `image info`. -/
def info : Grammar where
  about := "Loads a .cue or .iso file and prints its track layout"
  operands := [⟨"PATH", "Path to the .cue sheet or ISO image"⟩]

/-- The words of `image read`. -/
def read : Grammar where
  about := "Dumps sectors of an image to a file"
  operands := [⟨"PATH", "Path to the .cue sheet or ISO image"⟩, ⟨"OUTPUT", "Output file path"⟩]
  choices := [
    { name := "start", letter := some 's', value := .number max32, label := "SECTOR",
      about := "First sector to read", usual := some 0 },
    { name := "count", letter := some 'n', value := .number max32, label := "COUNT",
      about := "Number of sectors to read, defaults to everything up to the lead-out" },
    force,
    { name := "raw", letter := some 'r', value := .none,
      about := "Read whole 2352-byte sectors instead of 2048 bytes of user data" }]

/-- The words of `audio rip`. -/
def rip : Grammar where
  about := "Plays a track or sector range through the audio player and saves what it produced as a " ++
    "16-bit WAV file"
  operands := [⟨"PATH", "Path to the .cue sheet"⟩, ⟨"OUTPUT", "Output WAV file path"⟩]
  choices := [
    { name := "track", letter := some 't', value := .number max8, label := "TRACK",
      about := "Track number to rip" },
    { name := "start", letter := some 's', value := .number max32, label := "SECTOR",
      about := "Absolute start sector" },
    { name := "length", letter := some 'l', value := .number max32, label := "SECTORS",
      about := "Number of sectors to play" },
    force,
    { name := "frames", letter := none, value := .plain max64, label := "FRAMES",
      about := "PCM frames requested per mixer pull", usual := some usualFrames }]

example : (read.choices.map (·.name)).Nodup ∧ (rip.choices.map (·.name)).Nodup := by decide

end Grammar

end CompactDisc.Command
