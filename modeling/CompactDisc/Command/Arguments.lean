import CompactDisc.Command.Grammar

/-!
# CompactDisc.Command.Arguments

**The arguments of the command line.**

Design points:

* `Arguments.scan` sorts words into options and operands by a `Grammar`, and `Request.parse` makes a
  request of them. Everything that is wrong with the words is one `Usage.wrong`.
* An option that takes a value has it attached (`--start=5`, `-s5`, `-s=5`) or in the next word, which
  may not look like an option. Options without a value can be run together (`-fr`). No option is
  given twice, and `--` makes all that follows operands.
* Words are judged from the left. A call for help is answered where it stands, whatever follows it and
  whatever is still missing.
-/

namespace CompactDisc.Command

/-- Why words are not a request. -/
inductive Usage where
  | wrong
  /-- The user asks for help about a command or a group of commands. -/
  | help (topic : List String)
  /-- The user asks for the version. -/
  | version
  deriving DecidableEq, Repr

/-- The words of a command, sorted. -/
structure Sorted where
  operands : List String := []
  /-- Options by long name; zero for one without a value. -/
  options : List (String × Nat) := []
  deriving DecidableEq, Repr

namespace Sorted

/-- Adds an option, which must be new. -/
def option (s : Sorted) (choice : Choice) (text : List Char) : Except Usage Sorted :=
  match choice.value.read text with
  | .error _ => .error .wrong
  | .ok value =>
    if (s.options.lookup choice.name).isSome then .error .wrong
    else .ok { s with options := s.options ++ [(choice.name, value)] }

/-- Adds an operand, for which there must be a place. -/
def operand (s : Sorted) (grammar : Grammar) (word : String) : Except Usage Sorted :=
  if word = "" ∨ grammar.operands.length ≤ s.operands.length then .error .wrong
  else .ok { s with operands := s.operands ++ [word] }

/-- The value of an option if it was given. -/
def value? (s : Sorted) (name : String) : Option Nat := s.options.lookup name

/-- Whether an option was given. -/
def given (s : Sorted) (name : String) : Bool := (s.value? name).isSome

end Sorted

namespace Arguments

/-- Whether a word is taken for options. A lone dash is an operand. -/
def isOption (word : String) : Bool := word.startsWith "-" && word != "-"

/-- What a word of options leaves to be done. -/
inductive Letters where
  /-- All of it is read. -/
  | done (sorted : Sorted)
  /-- The last option takes its value from the next word. -/
  | awaits (sorted : Sorted) (choice : Choice)

/-- Reads options given by letter. -/
def letters (topic : List String) (grammar : Grammar) (s : Sorted) :
    List Char → Except Usage Letters
  | [] => .ok (.done s)
  | c :: rest =>
    match grammar.choices.find? (·.letter = some c) with
    | none => .error (if c = 'h' then .help topic else .wrong)
    | some choice =>
      if choice.takesValue then
        match rest with
        | [] => .ok (.awaits s choice)
        | '=' :: value => (s.option choice value).map .done
        | value => (s.option choice value).map .done
      else
        match s.option choice [] with
        | .error e => .error e
        | .ok s => letters topic grammar s rest

/-- Reads an option given by its long name, without the two dashes. -/
def long (topic : List String) (grammar : Grammar) (s : Sorted) (word : List Char) :
    Except Usage Letters :=
  let name := String.ofList (word.takeWhile (· != '='))
  match grammar.choices.find? (·.name = name), word.dropWhile (· != '=') with
  | none, [] => .error (if name = "help" then .help topic else .wrong)
  | none, _ => .error .wrong
  | some choice, '=' :: value =>
    if choice.takesValue then (s.option choice value).map .done else .error .wrong
  | some choice, _ =>
    if choice.takesValue then .ok (.awaits s choice) else (s.option choice []).map .done

/-- Adds operands. -/
def operands (grammar : Grammar) (s : Sorted) : List String → Except Usage Sorted
  | [] => .ok s
  | word :: rest =>
    match s.operand grammar word with
    | .error e => .error e
    | .ok s => operands grammar s rest

/-- Sorts words; `pending` is an option that waits for its value, and `topic` is what help is given
about. -/
def scan (topic : List String) (grammar : Grammar) (s : Sorted) (pending : Option Choice) :
    List String → Except Usage Sorted
  | [] => if pending.isSome then .error .wrong else .ok s
  | word :: rest =>
    match pending with
    | some choice =>
      if isOption word then .error .wrong
      else
        match s.option choice word.toList with
        | .error e => .error e
        | .ok s => scan topic grammar s none rest
    | none =>
      if word = "--" then operands grammar s rest
      else if isOption word then
        let read := match word.toList with
          | '-' :: '-' :: name => long topic grammar s name
          | _ :: cluster => letters topic grammar s cluster
          | [] => .ok (.done s)
        match read with
        | .error e => .error e
        | .ok (.done s) => scan topic grammar s none rest
        | .ok (.awaits s choice) => scan topic grammar s (some choice) rest
      else
        match s.operand grammar word with
        | .error e => .error e
        | .ok s => scan topic grammar s none rest

end Arguments

/-! ### Requests -/

/-- What part of a disc to play. -/
inductive Span where
  | track (number : Nat)
  | sectors (start length : Nat)
  deriving DecidableEq, Repr

/-- What the program is asked to do. -/
inductive Request where
  /-- List the tracks of an image. -/
  | info (input : String)
  /-- Copy sectors of an image to a file. -/
  | read (input output : String) (start : Nat) (count : Option Nat) (force raw : Bool)
  /-- Play a span and keep the sound in a file; `frames` is the size of one pull. -/
  | rip (input output : String) (span : Span) (force : Bool) (frames : Nat)
  deriving DecidableEq, Repr

namespace Request

/-- The path of the image. -/
def input : Request → String
  | .info input | .read input .. | .rip input .. => input

/-- The path of the file to write. -/
def output? : Request → Option String
  | .info _ => none
  | .read _ output .. | .rip _ output .. => some output

/-- Reads the words after `image info`. -/
def infoCommand (words : List String) : Except Usage Request := do
  let s ← Arguments.scan ["image", "info"] .info {} none words
  match s.operands with
  | [input] => return .info input
  | _ => throw .wrong

/-- Reads the words after `image read`. -/
def readCommand (words : List String) : Except Usage Request := do
  let s ← Arguments.scan ["image", "read"] .read {} none words
  match s.operands with
  | [input, output] =>
    return .read input output ((s.value? "start").getD 0) (s.value? "count") (s.given "force")
      (s.given "raw")
  | _ => throw .wrong

/-- The span that options name: a track, or a start and a length. -/
def span? (s : Sorted) : Option Span :=
  match s.value? "track", s.value? "start", s.value? "length" with
  | some number, none, none => some (.track number)
  | none, some start, some length => some (.sectors start length)
  | _, _, _ => none

/-- Reads the words after `audio rip`. -/
def ripCommand (words : List String) : Except Usage Request := do
  let s ← Arguments.scan ["audio", "rip"] .rip {} none words
  match s.operands, span? s with
  | [input, output], some span =>
    return .rip input output span (s.given "force") ((s.value? "frames").getD Grammar.usualFrames)
  | _, _ => throw .wrong

/-- What help is given about. -/
def topics : List (List String) :=
  [[], ["image"], ["image", "info"], ["image", "read"], ["image", "help"], ["audio"],
    ["audio", "rip"], ["audio", "help"], ["help"]]

/-- What words ask for that follow the name of a group and name none of its commands. -/
def aside (group : List String) : List String → Usage
  | [] => .wrong
  | word :: topic =>
    if word = "help" then (if group ++ topic ∈ topics then .help (group ++ topic) else .wrong)
    else if word = "--help" then .help group
    else if word = "--version" ∧ group = [] then .version
    else
      match word.toList with
      | '-' :: 'h' :: _ => .help group
      | '-' :: 'V' :: _ => if group = [] then .version else .wrong
      | _ => .wrong

/-- Reads all the words after the program's name. -/
def parse : List String → Except Usage Request
  | "image" :: "info" :: words => infoCommand words
  | "image" :: "read" :: words => readCommand words
  | "audio" :: "rip" :: words => ripCommand words
  | "image" :: words => .error (aside ["image"] words)
  | "audio" :: words => .error (aside ["audio"] words)
  | words => .error (aside [] words)

example : parse ["image", "read", "-fn=3", "a.cue", "b"]
    = .ok (.read "a.cue" "b" 0 (some 3) true false) := by cbv
example : parse ["audio", "rip", "a.cue", "b", "-t", "1", "-l", "4"] = .error .wrong := by cbv
example : parse ["help", "audio", "rip"] = .error (.help ["audio", "rip"]) := by cbv
example : parse ["audio", "rip", "--frames", "-1", "--help"] = .error .wrong := by cbv

end Request

end CompactDisc.Command
