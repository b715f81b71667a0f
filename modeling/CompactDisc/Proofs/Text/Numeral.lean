import CompactDisc.Text.Numeral

/-!
# CompactDisc.Proofs.Text.Numeral

**Which texts are numbers.** A text is read as a number exactly if it denotes one within the bound
(`Numeral.parse_ok_iff`): decimal digits, at least one and any number of leading zeros, after an
optional plus sign. A number is read back from its decimal text (`Numeral.denotes_zeros`).
-/

namespace CompactDisc.Text.Numeral

/-- A text that stands for a number: one or more decimal digits after an optional plus sign. -/
inductive Denotes : List Char → Nat → Prop
  | plain {text : List Char} (nonempty : text ≠ []) (decimal : ∀ c ∈ text, c.isDigit = true) :
      Denotes text (Nat.ofDigitChars 10 text 0)
  | plus {text : List Char} (nonempty : text ≠ []) (decimal : ∀ c ∈ text, c.isDigit = true) :
      Denotes ('+' :: text) (Nat.ofDigitChars 10 text 0)

/-! ### Reading -/

/-- More digits never make a number smaller. -/
theorem le_ofDigitChars (text : List Char) (value : Nat) :
    value ≤ Nat.ofDigitChars 10 text value := by
  induction text generalizing value with
  | nil => simp
  | cons c rest ih =>
    rw [Nat.ofDigitChars_cons]
    exact Nat.le_trans (by omega) (ih _)

/-- **Digits are read** to their number, unless one is no digit or the number exceeds the bound. By
induction on the digits, for any number that they go on from. -/
theorem digits_ok_iff {max value n : Nat} {text : List Char} (hvalue : value ≤ max) :
    digits max value text = .ok n ↔
      (∀ c ∈ text, c.isDigit = true) ∧ Nat.ofDigitChars 10 text value = n ∧ n ≤ max := by
  induction text generalizing value with
  | nil =>
    rw [digits, Nat.ofDigitChars_nil, Except.ok.injEq]
    constructor
    · rintro rfl
      exact ⟨fun _ hc => absurd hc List.not_mem_nil, rfl, hvalue⟩
    · exact fun h => h.2.1
  | cons c rest ih =>
    rw [List.forall_mem_cons, Nat.ofDigitChars_cons, Nat.mul_comm 10, digits, digit?]
    by_cases hdigit : c.isDigit = true
    · rw [if_pos hdigit]
      dsimp only
      by_cases hsmall : value * 10 + (c.toNat - '0'.toNat) ≤ max
      · rw [if_pos hsmall, ih hsmall]
        simp [hdigit]
      · -- what comes to more than the bound stays above it
        have hlarge := le_ofDigitChars rest (value * 10 + (c.toNat - '0'.toNat))
        rw [if_neg hsmall]
        constructor
        · intro h
          cases h
        · rintro ⟨-, rfl, hle⟩
          omega
    · rw [if_neg hdigit]
      simp [hdigit]

theorem parse_of_digits {text : List Char} (hne : text ≠ []) (h : ∀ c ∈ text, c.isDigit = true)
    (max : Nat) : parse max text = digits max 0 text := by
  unfold parse
  split
  · exact absurd rfl hne
  · exact absurd (h '+' (by simp)) (by decide)
  · exact absurd (h '+' (by simp)) (by decide)
  · rfl

/-- **A text is read as a number** exactly if it denotes one within the bound. -/
theorem parse_ok_iff {max n : Nat} {text : List Char} :
    parse max text = .ok n ↔ Denotes text n ∧ n ≤ max := by
  constructor
  · intro h
    refine ⟨?_, parse_le h⟩
    unfold parse at h
    split at h
    · cases h
    · cases h
    · rename_i rest hne
      obtain ⟨hdigits, rfl, -⟩ := (digits_ok_iff (Nat.zero_le _)).mp h
      exact .plus hne hdigits
    · rename_i hne _ _
      obtain ⟨hdigits, rfl, -⟩ := (digits_ok_iff (Nat.zero_le _)).mp h
      exact .plain hne hdigits
  · rintro ⟨hdenotes, hle⟩
    cases hdenotes with
    | plain hne hdigits =>
      rw [parse_of_digits hne hdigits, digits_ok_iff (Nat.zero_le _)]
      exact ⟨hdigits, rfl, hle⟩
    | plus hne hdigits =>
      obtain ⟨c, rest, rfl⟩ := List.exists_cons_of_ne_nil hne
      rw [parse, digits_ok_iff (Nat.zero_le _)]
      · exact ⟨hdigits, rfl, hle⟩
      · simp

/-! ### Writing -/

/-- The decimal text of a number denotes it, also behind zeros. -/
theorem denotes_zeros (zeros n : Nat) :
    Denotes (List.replicate zeros '0' ++ (toString n).toList) n := by
  have hdigits : (toString n).toList = Nat.toDigits 10 n := by
    rw [Nat.toString_eq_ofList_toDigits, String.toList_ofList]
  have hvalue : Nat.ofDigitChars 10 (List.replicate zeros '0' ++ Nat.toDigits 10 n) 0 = n := by
    rw [Nat.ofDigitChars_append, Nat.ofDigitChars_replicate_zero, Nat.mul_zero,
      Nat.ofDigitChars_ten_toDigits]
  have hall : ∀ c ∈ List.replicate zeros '0' ++ Nat.toDigits 10 n, c.isDigit = true := by
    intro c hc
    rcases List.mem_append.mp hc with hzero | hdigit
    · rw [(List.mem_replicate.mp hzero).2]
      rfl
    · exact Nat.isDigit_of_mem_toDigits (by decide) (by decide) hdigit
  have hdenotes := Denotes.plain (by simp [Nat.toDigits_ne_nil]) hall
  rwa [hvalue, ← hdigits] at hdenotes

end CompactDisc.Text.Numeral
