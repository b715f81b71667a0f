/-!
# CompactDisc.Text.Columns

**Text in columns**: filled up with blanks to a width. What is too long for its column is not cut.
-/

namespace CompactDisc.Text

/-- `n` blanks. -/
def blanks (n : Nat) : String := String.ofList (List.replicate n ' ')

/-- The text at the right end of a column. -/
def right (width : Nat) (text : String) : String := blanks (width - text.length) ++ text

/-- The text at the left end of a column. -/
def left (width : Nat) (text : String) : String := text ++ blanks (width - text.length)

/-- Lines with their ends. -/
def lines (texts : List String) : String := String.join (texts.map (· ++ "\n"))

@[simp] theorem length_blanks (n : Nat) : (blanks n).length = n := by
  simp [blanks]

@[simp] theorem length_right (width : Nat) (text : String) :
    (right width text).length = max width text.length := by
  simp only [right, String.length_append, length_blanks]
  omega

@[simp] theorem length_left (width : Nat) (text : String) :
    (left width text).length = max width text.length := by
  simp only [left, String.length_append, length_blanks]
  omega

@[simp] theorem lines_nil : lines [] = "" := rfl

@[simp] theorem lines_append (texts more : List String) :
    lines (texts ++ more) = lines texts ++ lines more := by
  simp [lines]

example : right 4 "12" = "  12" ∧ left 4 "12" = "12  " := by cbv
example : right 1 "12" = "12" := by cbv

end CompactDisc.Text
