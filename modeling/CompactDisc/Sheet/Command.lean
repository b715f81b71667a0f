import CompactDisc.Program.Sector
import CompactDisc.Sheet.Line
import CompactDisc.Source.Basic

/-!
# CompactDisc.Sheet.Command

**The commands of a cue sheet**: the word that opens a line (`Verb`) and the line with its fields read
(`Command`).
-/

namespace CompactDisc.Sheet

/-- What the first word of a line asks for. -/
inductive Verb where
  | track
  | index
  | file
  | pregap
  | catalog
  /-- A line that says nothing about the layout. -/
  | remark
  deriving DecidableEq, Repr

/-- The words of lines that say nothing about the layout; an empty line is one of them. -/
def remarks : List String :=
  ["CDTEXTFILE", "FLAGS", "ISRC", "PERFORMER", "POSTGAP", "REM", "SONGWRITER", "TITLE", ""]

/-- What a word in upper case asks for. -/
def Verb.ofWord? (word : String) : Option Verb :=
  if word = "TRACK" then some .track
  else if word = "INDEX" then some .index
  else if word = "FILE" then some .file
  else if word = "PREGAP" then some .pregap
  else if word = "CATALOG" then some .catalog
  else if word ∈ remarks then some .remark
  else none

/-- Whether the command ends the description of the track before it. -/
def Verb.endsTrack : Verb → Bool
  | .track | .file => true
  | _ => false

/-- A line of a cue sheet. -/
inductive Command where
  | track (number : Nat) (mode : TrackMode)
  | index (number frame : Nat)
  | file (name : String) (kind : Source.Kind)
  | pregap (frames : Nat)
  | catalog (text : String)
  | remark
  deriving DecidableEq, Repr

/-- Reads the fields that follow the first word. -/
def Verb.command (verb : Verb) (line : Line) : Except SheetError Command :=
  match verb with
  | .track => do
    let (number, line) := line.number Text.Numeral.max8 "TRACK"
    let number ← number
    let word := line.keyword.1
    match TrackMode.ofName? word with
    | some mode => return .track number mode
    | none => throw (.trackType word)
  | .index => do
    let (number, line) := line.number Text.Numeral.max32 "INDEX"
    let number ← number
    let frame ← (line.frames "INDEX").1
    return .index number frame
  | .file => do
    let (name, line) := line.string "FILE"
    let name ← name
    return .file name (.ofName line.keyword.1)
  | .pregap => return .pregap (← (line.frames "PREGAP").1)
  | .catalog => return .catalog (← (line.string "CATALOG").1)
  | .remark => return .remark

end CompactDisc.Sheet
