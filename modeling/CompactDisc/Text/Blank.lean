/-!
# CompactDisc.Text.Blank

**The white space that separates the fields of a line**: the characters with the Unicode property
`White_Space`, and the operations on text that need them. A text is its leading white space
(`skipBlanks` leaves it out), then a `word`, then what follows it (`afterWord`).
-/

namespace CompactDisc.Text

/-- The ranges of the Unicode property `White_Space`, both ends included. -/
def blankRanges : List (Nat × Nat) :=
  [(0x09, 0x0D), (0x20, 0x20), (0x85, 0x85), (0xA0, 0xA0), (0x1680, 0x1680), (0x2000, 0x200A),
    (0x2028, 0x2029), (0x202F, 0x202F), (0x205F, 0x205F), (0x3000, 0x3000)]

/-- Whether the character separates words. -/
def isBlank (c : Char) : Bool :=
  blankRanges.any fun range => range.1 ≤ c.toNat && c.toNat ≤ range.2

/-- The text without its leading white space. -/
def skipBlanks (text : List Char) : List Char := text.dropWhile isBlank

/-- The characters up to the next white space. -/
def word (text : List Char) : List Char := text.takeWhile (!isBlank ·)

/-- The text from the next white space on. -/
def afterWord (text : List Char) : List Char := text.dropWhile (!isBlank ·)

/-- Nothing is lost between a word and what follows it. -/
@[simp] theorem word_append_afterWord (text : List Char) : word text ++ afterWord text = text :=
  List.takeWhile_append_dropWhile

/-- A word holds no white space. -/
theorem not_isBlank_of_mem_word {c : Char} {text : List Char} (h : c ∈ word text) :
    isBlank c = false := by
  induction text with
  | nil => simp [word] at h
  | cons d rest ih =>
    by_cases hd : isBlank d
    · simp [word, hd] at h
    · simp only [word, hd, List.takeWhile_cons] at h ih
      simp only [Bool.not_false, if_true, List.mem_cons] at h
      rcases h with rfl | h
      · simpa using hd
      · exact ih h

/-- What follows a word begins with white space. -/
theorem isBlank_of_afterWord {c : Char} {text rest : List Char} (h : afterWord text = c :: rest) :
    isBlank c = true := by
  induction text with
  | nil => simp [afterWord] at h
  | cons d text ih =>
    by_cases hd : isBlank d
    · simp only [afterWord, hd, List.dropWhile_cons, Bool.not_true, Bool.false_eq_true, if_false,
        List.cons.injEq] at h
      exact h.1 ▸ hd
    · simp only [afterWord, hd, List.dropWhile_cons, Bool.not_false, if_true] at h
      exact ih h

example : isBlank ' ' = true ∧ isBlank '\t' = true ∧ isBlank '\r' = true := by decide

example : isBlank '\u200b' = false ∧ isBlank '\u3000' = true := by decide

end CompactDisc.Text
