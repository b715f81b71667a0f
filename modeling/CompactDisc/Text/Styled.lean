import CompactDisc.Text.Columns

/-!
# CompactDisc.Text.Styled

**Text with emphasis**, as a terminal shows it.

Design points:

* A text is a row of parts, and each part has one `Style`. Laying out a text counts its characters
  alone (`Styled.width`).
* Emphasis is written with control sequences around a part (`Styled.text true`). Where it is not
  wanted the same text is written without them, and is then as long as it is wide
  (`Styled.length_text_false`).
-/

namespace CompactDisc.Text

/-- How characters are shown. -/
inductive Style where
  | plain
  | bold
  /-- Bold and underlined. -/
  | heading
  deriving DecidableEq, Repr

namespace Style

/-- What turns a style on. -/
def on : Style → String
  | .plain => ""
  | .bold => "\x1b[1m"
  | .heading => "\x1b[1m\x1b[4m"

/-- What turns a style off. -/
def off : Style → String
  | .plain => ""
  | .bold | .heading => "\x1b[0m"

end Style

/-- Characters that are shown in one style. -/
structure Part where
  style : Style
  characters : String
  deriving DecidableEq, Repr

/-- The text of a part, with or without its style. -/
def Part.text (emphasis : Bool) (part : Part) : String :=
  if emphasis then part.style.on ++ part.characters ++ part.style.off else part.characters

/-- A text with emphasis. -/
abbrev Styled := List Part

namespace Styled

/-- Characters without emphasis. -/
def plain (characters : String) : Styled := [⟨.plain, characters⟩]

/-- Characters in bold. -/
def bold (characters : String) : Styled := [⟨.bold, characters⟩]

/-- A heading. -/
def heading (characters : String) : Styled := [⟨.heading, characters⟩]

/-- The columns that a text takes. -/
def width : Styled → Nat
  | [] => 0
  | part :: rest => part.characters.length + width rest

/-- A text as it is written. -/
def text (emphasis : Bool) (s : Styled) : String := String.join (s.map (Part.text emphasis))

/-- The text at the left end of a column. -/
def left (width : Nat) (s : Styled) : Styled := s ++ plain (blanks (width - s.width))

@[simp] theorem width_append (s t : Styled) : width (s ++ t) = s.width + t.width := by
  induction s with
  | nil => simp [width]
  | cons part rest ih => simp [width, ih, Nat.add_assoc]

@[simp] theorem width_left (width : Nat) (s : Styled) :
    (left width s).width = max width s.width := by
  have blank : (plain (blanks (width - s.width))).width = width - s.width := by
    simp [plain, Styled.width]
  rw [left, width_append, blank]
  omega

/-- Without emphasis nothing but the characters is written. -/
@[simp] theorem length_text_false (s : Styled) : (s.text false).length = s.width := by
  induction s with
  | nil => rfl
  | cons part rest ih =>
    rw [text, width, List.map_cons, String.join_cons, String.length_append]
    exact congrArg (part.characters.length + ·) ih

example : text true (bold "-h" ++ plain " help") = "\x1b[1m-h\x1b[0m help" := by cbv
example : text false (bold "-h" ++ plain " help") = "-h help" := by cbv

end Styled

end CompactDisc.Text
