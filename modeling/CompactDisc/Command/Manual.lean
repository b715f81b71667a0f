import CompactDisc.Command.Grammar
import CompactDisc.Text.Styled

/-!
# CompactDisc.Command.Manual

**The pages of the manual**: one for the program, one for each group of commands and each command.

Design points:

* A page says what its topic is for and how it is called, and lists the commands, the operands and the
  options there are. A list without entries is left out with its title.
* The entries of a list stand in two columns, the first of them as wide as its longest entry.
* Titles are headings, and what is typed as it is shown is bold; what stands for something else, like
  the operands, is plain.
* The pages of commands are made from their grammars; the option that asks for the page is added to
  each.
-/

namespace CompactDisc.Command

open Text (Styled)

/-- The name of the program. -/
def program : String := "cdrom-image"

/-- The name and the version of the program. -/
def version : String := program ++ " 0.4.0"

/-- A term, and what it stands for. -/
abbrev Entry := Styled × String

/-- A page of the manual. -/
structure Page where
  about : String
  /-- The words that call what the page is about, behind the name of the program. -/
  words : List String
  /-- What follows them in a call. -/
  rest : String := ""
  commands : List Entry := []
  operands : List Entry := []
  options : List Entry := []
  deriving DecidableEq, Repr

namespace Page

/-- Entries in two columns. -/
def table (entries : List Entry) : List Styled :=
  let width := entries.foldl (fun width entry => max width entry.1.width) 0
  entries.map fun (term, text) =>
    .plain "  " ++ Styled.left width term ++ .plain ("  " ++ text)

/-- A list of entries under its title. -/
def titled (title : String) (entries : List Entry) : List Styled :=
  if entries.isEmpty then [] else [.plain "", .heading (title ++ ":")] ++ table entries

/-- How the topic of the page is called. -/
def usage (page : Page) : Styled :=
  .heading "Usage:" ++ .plain " " ++ .bold (" ".intercalate (program :: page.words)) ++
    .plain page.rest

/-- The lines of a page. -/
def lines (page : Page) : List Styled :=
  [.plain page.about, .plain "", page.usage] ++
    titled "Commands" page.commands ++
    titled "Arguments" page.operands ++
    titled "Options" page.options

/-- The text of a page. -/
def text (emphasis : Bool) (page : Page) : String :=
  Text.lines (page.lines.map (Styled.text emphasis))

@[simp] theorem length_table (entries : List Entry) :
    (table entries).length = entries.length := by
  simp [table]

end Page

/-! ### Pages of commands -/

/-- How an operand or a value is shown. -/
def bracketed (label : String) : String := "<" ++ label ++ ">"

/-- The entry of an option. -/
def Choice.entry (choice : Choice) : Entry :=
  (choice.letter.elim (.plain "    ") (fun c => .bold ("-" ++ String.singleton c) ++ .plain ", ") ++
      .bold ("--" ++ choice.name) ++
      .plain (if choice.takesValue then " " ++ bracketed choice.label else ""),
    choice.about ++ choice.usual.elim "" fun value => s!" [default: {value}]")

/-- The entry of an operand. -/
def Operand.entry (operand : Operand) : Entry := (.plain (bracketed operand.label), operand.about)

/-- The entry of an option that is given by a letter and a name and asks for a text. -/
def asking (letter name about : String) : Entry :=
  (.bold ("-" ++ letter) ++ .plain ", " ++ .bold ("--" ++ name), "Print " ++ about)

/-- The entry of the option that asks for a page. -/
def helpOption : Entry := asking "h" "help" "help"

/-- The page of the command that is called by `words`. -/
def Grammar.page (words : List String) (grammar : Grammar) : Page where
  about := grammar.about
  words
  rest := (if grammar.choices.isEmpty then "" else " [OPTIONS]") ++
    String.join (grammar.operands.map fun operand => " " ++ bracketed operand.label)
  operands := grammar.operands.map Operand.entry
  options := grammar.choices.map Choice.entry ++ [helpOption]

/-! ### Pages of groups -/

/-- What the command that shows pages is for. -/
def aboutHelp : String := "Print this message or the help of the given subcommand(s)"

/-- What the group of commands on images is for. -/
def aboutImage : String := "Commands working on the data side of an image"

/-- What the group of commands on sound is for. -/
def aboutAudio : String := "Commands driving the CD audio player"

/-- The page of a group of commands; `more` are options of the group alone. -/
def groupPage (about : String) (words : List String) (commands : List (String × String))
    (more : List Entry) : Page where
  about
  words
  rest := " <COMMAND>"
  commands := (commands ++ [("help", aboutHelp)]).map fun (name, about) => (.bold name, about)
  options := helpOption :: more

/-- The page about showing pages. -/
def helpPage (words : List String) : Page where
  about := aboutHelp
  words
  rest := " [COMMAND]..."
  operands := [(.plain "[COMMAND]...", "Print help for the subcommand(s)")]

/-- The page of the program. -/
def mainPage : Page :=
  groupPage ("CD-ROM image drive emulation: CUE/ISO track layout, sector reads and Redbook audio " ++
      "playback.") [] [("image", aboutImage), ("audio", aboutAudio)]
    [asking "V" "version" "version"]

/-- The page about a topic, which is given by the words that call it. -/
def page (topic : List String) : Page :=
  match topic with
  | ["image"] =>
    groupPage aboutImage topic [("info", Grammar.info.about), ("read", Grammar.read.about)] []
  | ["image", "info"] => Grammar.info.page topic
  | ["image", "read"] => Grammar.read.page topic
  | ["audio"] => groupPage aboutAudio topic [("rip", Grammar.rip.about)] []
  | ["audio", "rip"] => Grammar.rip.page topic
  | ["image", "help"] | ["audio", "help"] | ["help"] => helpPage topic
  | _ => mainPage

example : (page ["image", "info"]).lines.map (Styled.text false) = [
    "Loads a .cue or .iso file and prints its track layout",
    "",
    "Usage: cdrom-image image info <PATH>",
    "",
    "Arguments:",
    "  <PATH>  Path to the .cue sheet or ISO image",
    "",
    "Options:",
    "  -h, --help  Print help"] := by cbv

end CompactDisc.Command
