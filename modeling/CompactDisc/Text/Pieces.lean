/-!
# CompactDisc.Text.Pieces

**Splitting at a separator**: `pieces sep l` are the runs between the separators of `l`, the empty
ones included. Positions are split at colons, paths at slashes and files at line feeds. The pieces are the
only lists without the separator that come to `l` when they are put together with separators between them
(`pieces.intercalate_eq`, `pieces.of_intercalate`).
-/

namespace CompactDisc

/-- The pieces of a list between occurrences of `sep`. There is always at least one. -/
def pieces {α : Type} [DecidableEq α] (sep : α) : List α → List (List α)
  | [] => [[]]
  | c :: rest =>
    if c = sep then [] :: pieces sep rest
    else
      match pieces sep rest with
      | [] => [[c]]
      | piece :: more => (c :: piece) :: more

namespace pieces

variable {α : Type} [DecidableEq α] (sep : α)

@[simp] theorem nil : pieces sep [] = [[]] := rfl

@[simp] theorem cons_sep (rest : List α) : pieces sep (sep :: rest) = [] :: pieces sep rest := by
  simp [pieces]

theorem ne_nil (l : List α) : pieces sep l ≠ [] := by
  cases l with
  | nil => simp
  | cons c rest =>
    by_cases h : c = sep
    · simp [pieces, h]
    · cases hp : pieces sep rest <;> simp [pieces, h, hp]

/-- A list without the separator is one piece. -/
theorem of_not_mem {l : List α} (h : sep ∉ l) : pieces sep l = [l] := by
  induction l with
  | nil => rfl
  | cons c rest ih =>
    have hc : c ≠ sep := fun e => h (by simp [e])
    simp [pieces, hc, ih (fun e => h (by simp [e]))]

/-- The first separator ends the first piece. -/
theorem append_sep {l : List α} (h : sep ∉ l) (rest : List α) :
    pieces sep (l ++ sep :: rest) = l :: pieces sep rest := by
  induction l with
  | nil => exact cons_sep sep rest
  | cons c l ih =>
    have hc : c ≠ sep := fun e => h (by simp [e])
    simp [pieces, hc, ih (fun e => h (by simp [e]))]

/-- No separator is in a piece. -/
theorem not_mem_of_mem {l piece : List α} (h : piece ∈ pieces sep l) : sep ∉ piece := by
  induction l generalizing piece with
  | nil => simp_all
  | cons c rest ih =>
    by_cases hc : c = sep
    · rw [hc, cons_sep, List.mem_cons] at h
      rcases h with rfl | h
      · simp
      · exact ih h
    · obtain ⟨first, more, hrest⟩ := List.exists_cons_of_ne_nil (ne_nil sep rest)
      simp only [pieces, hc, if_false, hrest, List.mem_cons] at h ih
      rcases h with rfl | h
      · simpa [Ne.symm hc] using ih (Or.inl rfl)
      · exact ih (Or.inr h)

/-- The pieces, put together again with separators between them. -/
theorem intercalate_eq (l : List α) : List.intercalate [sep] (pieces sep l) = l := by
  induction l with
  | nil => simp
  | cons c rest ih =>
    obtain ⟨first, more, hrest⟩ := List.exists_cons_of_ne_nil (ne_nil sep rest)
    rw [hrest] at ih
    by_cases hc : c = sep
    · rw [hc, cons_sep, hrest]
      simpa [List.intercalate, List.intersperse] using ih
    · simp only [pieces, hc, if_false, hrest]
      cases more <;> simpa [List.intercalate, List.intersperse] using ih

/-- Lists without the separator are the pieces of what they are put together to. -/
theorem of_intercalate {ps : List (List α)} (hne : ps ≠ []) (h : ∀ piece ∈ ps, sep ∉ piece) :
    pieces sep (List.intercalate [sep] ps) = ps := by
  induction ps with
  | nil => exact absurd rfl hne
  | cons piece more ih =>
    rw [List.forall_mem_cons] at h
    cases more with
    | nil => simpa [List.intercalate] using of_not_mem sep h.1
    | cons next more =>
      have hrest := ih (by simp) h.2
      have hsplit : List.intercalate [sep] (piece :: next :: more) =
          piece ++ sep :: List.intercalate [sep] (next :: more) := by
        simp [List.intercalate, List.intersperse]
      rw [hsplit, append_sep sep h.1, hrest]

end pieces

end CompactDisc
