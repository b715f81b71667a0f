import CompactDisc.Program.LayoutError
import CompactDisc.Source.Error
import CompactDisc.Text.Numeral

/-!
# CompactDisc.Sheet.Error

**Why a cue sheet cannot be read.**
-/

namespace CompactDisc

/-- A failure to read a cue sheet. -/
inductive SheetError where
  /-- The sheet itself cannot be opened or read. -/
  | storage (fault : Fault)
  /-- A field is not a number. -/
  | number (error : Text.Numeral.Error)
  | trackType (word : String)
  /-- A field is not a position of minute, second and frame. -/
  | position (word : String)
  /-- A quoted field has no closing quote. -/
  | quoted (text : String)
  /-- A command lacks a field. -/
  | missingArgument (command : String)
  | unknownCommand (word : String)
  | lineTooLong (line limit : Nat)
  | fileNotFound (name : String)
  | trackWithoutFile (number : Nat)
  | noTracks
  /-- A file of the sheet cannot be opened. -/
  | source (error : SourceError)
  /-- The tracks do not fit together. -/
  | layout (error : LayoutError)
  deriving DecidableEq, Repr

/-- The wording of a failure. -/
def SheetError.message : SheetError → String
  | .storage fault => fault.message
  | .number error => error.message
  | .trackType word => "Unknown track type: " ++ word
  | .position word => "Invalid MSF format: " ++ word
  | .quoted text => "Invalid quoted string: " ++ text
  | .missingArgument command => "Missing argument for " ++ command
  | .unknownCommand word => "Unknown cue command: " ++ word
  | .lineTooLong line limit =>
    s!"Line {line} is longer than {limit} bytes, probably not a cue sheet"
  | .fileNotFound name => "Cannot find file '" ++ name ++ "' referenced by the cue sheet"
  | .trackWithoutFile n => s!"TRACK {n} appears before any FILE"
  | .noTracks => "The cue sheet does not define any track"
  | .source error => error.message
  | .layout error => error.message

end CompactDisc
