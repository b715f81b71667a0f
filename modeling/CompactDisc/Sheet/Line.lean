import CompactDisc.Msf
import CompactDisc.Sheet.Error
import CompactDisc.Text.Blank

/-!
# CompactDisc.Sheet.Line

**The fields of one line of a cue sheet**, taken from the left.

Design points:

* A `Line` is what has not been taken yet. Each operation gives the field and the line after it, also
  where the field is refused: a word that is not what was expected has still been taken, while an
  unterminated quoted text has not.
* Fields are words between white space; only `Line.string` accepts a text in double quotes, which may
  hold blanks and ends at the next quote.
-/

namespace CompactDisc.Sheet

/-- The rest of a line. -/
structure Line where
  rest : List Char
  deriving DecidableEq, Repr

namespace Line

/-- A line as it stands in the sheet, without carriage returns at its end. -/
def ofChars (text : List Char) : Line := ⟨(text.reverse.dropWhile (· == '\r')).reverse⟩

/-- Takes the next word; `none` if only white space is left, which is then taken. -/
def word? (line : Line) : Option (List Char) × Line :=
  match Text.skipBlanks line.rest with
  | [] => (none, ⟨[]⟩)
  | text => (some (Text.word text), ⟨Text.afterWord text⟩)

/-- Takes the next word in upper case; empty at the end of the line. -/
def keyword (line : Line) : String × Line :=
  let (word, line) := line.word?
  (String.ofList ((word.getD []).map Char.toUpper), line)

/-- Takes a word and reads it. -/
def reading {α : Type} (line : Line) (command : String)
    (read : List Char → Except SheetError α) : Except SheetError α × Line :=
  match line.word? with
  | (none, line) => (.error (.missingArgument command), line)
  | (some word, line) => (read word, line)

/-- Takes a text in double quotes, or a word. -/
def string (line : Line) (command : String) : Except SheetError String × Line :=
  match Text.skipBlanks line.rest with
  | '"' :: quoted =>
    match quoted.dropWhile (· != '"') with
    | [] => (.error (.quoted (String.ofList ('"' :: quoted))), line)
    | _ :: rest => (.ok (String.ofList (quoted.takeWhile (· != '"'))), ⟨rest⟩)
  | _ => line.reading command fun word => .ok (String.ofList word)

/-- Takes a number from 0 to `max`. -/
def number (line : Line) (max : Nat) (command : String) : Except SheetError Nat × Line :=
  line.reading command fun word => (Text.Numeral.parse max word).mapError .number

/-- Reads a position. -/
def position (word : List Char) : Except SheetError Msf :=
  match Msf.parse? word with
  | some p => .ok p
  | none => .error (.position (String.ofList word))

/-- Takes a position and counts its frames. -/
def frames (line : Line) (command : String) : Except SheetError Nat × Line :=
  line.reading command fun word => (position word).map Msf.toFrames

@[simp] theorem word?_nil : word? ⟨[]⟩ = (none, ⟨[]⟩) := rfl

@[simp] theorem keyword_nil : keyword ⟨[]⟩ = ("", ⟨[]⟩) := rfl

end Line

end CompactDisc.Sheet
