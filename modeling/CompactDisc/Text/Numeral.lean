/-!
# CompactDisc.Text.Numeral

**Decimal numbers in text.** A numeral is one or more ASCII digits after an optional `+`; its value
may not exceed a bound. Digits are read from the left, and the first character that is no digit or
that takes the value over the bound decides the error.
-/

namespace CompactDisc.Text.Numeral

/-- Why a text is not a number. -/
inductive Error where
  /-- There is nothing to read. -/
  | empty
  /-- A character is not a digit. -/
  | invalidDigit
  /-- The value exceeds the bound. -/
  | tooLarge
  /-- The value lies below the least one allowed. -/
  | tooSmall
  deriving DecidableEq, Repr

/-- The wording of an error. -/
def Error.message : Error → String
  | .empty => "cannot parse integer from empty string"
  | .invalidDigit => "invalid digit found in string"
  | .tooLarge => "number too large to fit in target type"
  | .tooSmall => "number too small to fit in target type"

/-- The value of a decimal digit. -/
def digit? (c : Char) : Option Nat :=
  if c.isDigit then some (c.toNat - '0'.toNat) else none

/-- Reads digits after a number that has come to `value` so far. -/
def digits (max : Nat) (value : Nat) : List Char → Except Error Nat
  | [] => .ok value
  | c :: rest =>
    match digit? c with
    | none => .error .invalidDigit
    | some d =>
      if value * 10 + d ≤ max then digits max (value * 10 + d) rest else .error .tooLarge

/-- Reads a number from 0 to `max`. A sign alone has no digits, and a minus sign is none. -/
def parse (max : Nat) : List Char → Except Error Nat
  | [] => .error .empty
  | ['+'] => .error .invalidDigit
  | '+' :: rest => digits max 0 rest
  | text => digits max 0 text

/-- Reads a number from 0 to `max` where a minus sign is known: it is accepted before zero. -/
def parseSigned (max : Nat) : List Char → Except Error Nat
  | ['-'] => .error .invalidDigit
  | '-' :: rest => (digits max 0 rest).bind fun n => if n = 0 then .ok 0 else .error .tooSmall
  | text => parse max text

/-- The greatest number of 8 bits. -/
def max8 : Nat := 0xFF

/-- The greatest number of 32 bits. -/
def max32 : Nat := 0xFFFFFFFF

/-- The greatest number of 64 bits. -/
def max64 : Nat := 0xFFFFFFFFFFFFFFFF

theorem digits_le {max value : Nat} {text : List Char} {n : Nat} (hv : value ≤ max)
    (h : digits max value text = .ok n) : n ≤ max := by
  induction text generalizing value with
  | nil => simp only [digits, Except.ok.injEq] at h; omega
  | cons c rest ih =>
    simp only [digits] at h
    split at h
    · cases h
    · split at h
      · exact ih (by assumption) h
      · cases h

/-- What is read never exceeds the bound. -/
theorem parse_le {max : Nat} {text : List Char} {n : Nat} (h : parse max text = .ok n) :
    n ≤ max := by
  unfold parse at h
  split at h
  · cases h
  · cases h
  · exact digits_le (Nat.zero_le _) h
  · exact digits_le (Nat.zero_le _) h

example : parse max8 "007".toList = .ok 7 := by cbv
example : parse max8 "+255".toList = .ok 255 := by cbv
example : parse max8 "256".toList = .error .tooLarge := by cbv
example : parse max8 "-1".toList = .error .invalidDigit := by cbv

end CompactDisc.Text.Numeral
