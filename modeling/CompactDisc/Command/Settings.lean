import CompactDisc.Storage.Tree
import CompactDisc.Text.Blank

/-!
# CompactDisc.Command.Settings

**Settings**: variables that are given to the program or kept in the file `.env` of the working
directory.

Design points:

* The first value of a variable counts. What is given to the program stands before what the file
  holds.
* A line of the file sets one variable, `name=value`. A line that cannot be read ends the reading, and
  what stands before it counts.
* A value may refer to variables that stand before it. `Quoting` is where a reader of values is: a
  step takes one character, and says what it adds to the value (`Quoting.step`).
-/

namespace CompactDisc.Command

/-- Variables and their values, the ones that count first. -/
abbrev Settings := List (String × String)

namespace Settings

/-- The value of a variable, which is empty if nothing sets it. -/
def value (s : Settings) (name : String) : String := (s.lookup name).getD ""

/-- The variable that turns emphasis off if it is not empty. -/
def plainName : String := "NO_COLOR"

/-- The variable that turns emphasis on if it is not empty. -/
def forceName : String := "CLICOLOR_FORCE"

/-- The variables that matter. -/
def names : List String := [plainName, forceName]

/-- Whether the manual is shown with emphasis wherever it goes. -/
def emphasis (s : Settings) : Bool := s.value plainName = "" ∧ s.value forceName ≠ ""

end Settings

/-! ### Values -/

/-- Where the reader of a value is. `weak` says whether this is between double quotes. -/
inductive Quoting where
  /-- In a text, where a quote, a backslash and a dollar sign have a meaning. -/
  | text (weak : Bool)
  /-- Between single quotes, where nothing else has a meaning. -/
  | strong
  /-- Behind a backslash. -/
  | escaped (weak : Bool)
  /-- In the name of a variable that is referred to. -/
  | reference (weak : Bool) (name : String)
  /-- In the name of a variable that is referred to in braces. -/
  | braced (weak : Bool) (name : String)
  /-- Behind the value. -/
  | behind
  /-- In a comment behind the value. -/
  | comment
  deriving DecidableEq, Repr

namespace Quoting

/-- The quote that takes everything as it stands. -/
def strongQuote : Char := Char.ofNat 39

/-- The quote that leaves references in force. -/
def weakQuote : Char := '"'

/-- What opens the name of a variable in braces. -/
def openBrace : Char := '{'

/-- What closes the name of a variable in braces. -/
def closeBrace : Char := '}'

/-- The character that an escaped one stands for. -/
def unescape? (c : Char) : Option Char :=
  if c = 'n' then some '\n'
  else if c ∈ [strongQuote, weakQuote, '\\', '$', ' '] then some c
  else none

/-- Whether the character can be part of a name that is referred to. Beyond ASCII all are taken for
letters. -/
def isNamed (c : Char) : Bool := c.isAlphanum || 0x80 ≤ c.toNat

/-- Reads one character: what it adds to the value, and where the reader is then. -/
def step (s : Settings) (c : Char) : Quoting → Option (String × Quoting)
  | .text weak =>
    if c = '$' then some ("", .reference weak "")
    else if c = '\\' then some ("", .escaped weak)
    else if c = weakQuote then some ("", .text (!weak))
    else if c = strongQuote ∧ weak = false then some ("", .strong)
    else if (c = ' ' ∨ c = '\t') ∧ weak = false then some ("", .behind)
    else some (String.singleton c, .text weak)
  | .strong =>
    if c = strongQuote then some ("", .text false) else some (String.singleton c, .strong)
  | .escaped weak => (unescape? c).map fun c => (String.singleton c, .text weak)
  | .reference weak name =>
    if isNamed c then some ("", .reference weak (name.push c))
    else if c = openBrace ∧ name = "" then some ("", .braced weak "")
    else if c = '$' then some (s.value name, .reference weak "")
    else some ((s.value name).push c, .text weak)
  | .braced weak name =>
    if c = closeBrace then some (s.value name, .text weak)
    else some ("", .braced weak (name.push c))
  | .behind =>
    if c = ' ' ∨ c = '\t' then some ("", .behind)
    else if c = '#' then some ("", .comment)
    else none
  | .comment => some ("", .comment)

/-- What the end of the line adds to the value, if it may stand here. -/
def finish (s : Settings) : Quoting → Option String
  | .reference false name => some (s.value name)
  | .text false | .escaped false | .behind | .comment => some ""
  | _ => none

/-- Reads the rest of a value behind `done`. -/
def read (s : Settings) (done : String) (place : Quoting) : List Char → Option String
  | [] => (place.finish s).map (done ++ ·)
  | c :: rest =>
    match place.step s c with
    | none => none
    | some (more, place) => read s (done ++ more) place rest

end Quoting

namespace Settings

/-! ### Lines -/

/-- What introduces a comment. -/
def opensComment (text : List Char) : Bool := text.head? = some '#'

/-- Whether nothing stands in a text but a comment. -/
def isVoid (text : List Char) : Bool := text.isEmpty || opensComment text

/-- Whether the character can be part of the name of a variable. -/
def isNamed (c : Char) : Bool := c.isAlphanum || c == '_' || c == '.'

/-- Takes the name at the beginning of a text, and the white space behind it. -/
def name? (text : List Char) : Option (String × List Char) :=
  match text with
  | [] => none
  | c :: _ =>
    if c.isAlpha || c == '_' then
      some (String.ofList (text.takeWhile isNamed), Text.skipBlanks (text.dropWhile isNamed))
    else none

/-- The name and the text of the value in a line, in which a word `export` may stand before the
name. -/
def assignment? (text : List Char) : Option (String × List Char) :=
  match name? text with
  | none => none
  | some (name, '=' :: rest) => some (name, Text.skipBlanks rest)
  | some (name, rest) =>
    if name = "export" then
      match name? rest with
      | some (name, '=' :: rest) => some (name, Text.skipBlanks rest)
      | _ => none
    else none

/-- Reads a line; nothing comes of one that cannot be read. -/
def line? (s : Settings) (line : List Char) : Option Settings :=
  let text := Text.skipBlanks (line.reverse.dropWhile Text.isBlank).reverse
  if isVoid text then some s
  else
    match assignment? text with
    | none => none
    | some (name, text) =>
      if isVoid text then some (s ++ [(name, "")])
      else (Quoting.read s "" (.text false) text).map fun value => s ++ [(name, value)]

example : line? [] "CLICOLOR_FORCE=1".toList = some [("CLICOLOR_FORCE", "1")] := by cbv
example : line? [("A", "b")] "export C = \"$A c\" # d".toList = some [("A", "b"), ("C", "b c")] := by
  cbv
example : line? [] "not a variable".toList = none := by cbv

/-! ### Files -/

/-- The byte that ends a line. -/
def lineFeed : UInt8 := 10

/-- Reads a line of bytes, which have to be characters. -/
def bytes? (s : Settings) (line : List UInt8) : Option Settings :=
  (String.fromUTF8? ⟨line.toArray⟩).bind fun text => s.line? text.toList

/-- Reads lines up to one that cannot be read. `line` is the one that has been begun, in reverse. -/
def lines (s : Settings) (line : List UInt8) : List UInt8 → Settings
  | [] => (s.bytes? line.reverse).getD s
  | b :: rest =>
    if b = lineFeed then
      match s.bytes? line.reverse with
      | none => s
      | some s => lines s [] rest
    else lines s (b :: line) rest

/-- The path of the file that holds settings. -/
def path : String := ".env"

/-- Settings that are given, and those that are kept in a file. -/
def load (s : Settings) (storage : Storage) : Settings :=
  match storage.get path with
  | .ok (.file contents) => s.lines [] contents.toList
  | _ => s

end Settings

end CompactDisc.Command
