import CompactDisc.Sheet.Lines
import CompactDisc.Text.Pieces
import Mathlib.Data.List.TakeWhile

/-!
# CompactDisc.Proofs.Sheet.Lines

**The lines that are read are those between line feeds.** The reader never looks at more than one
line's worth of bytes, and stops at the first line that is too long. Cut at every line feed at once, a
file falls into the same lines (`Lines.read_eq`): none is split, joined or passed over, also where the
last one has no line feed behind it.

Proof shape: the first line of the bytes that are left and what is behind it (`Lines.split_eq`) are what
the reader takes in one step, so both go through a file in the same steps.
-/

namespace CompactDisc

namespace Contents

/-- What is read is a part of all the bytes. -/
theorem read_eq_take_drop (c : Contents) (offset length : Nat) :
    c.read offset length = (c.toList.drop offset).take length := by
  apply List.ext_getElem
  · simp [toList]
  · intro i h _
    simp [toList, read]

theorem read_ofArray (bytes : List UInt8) (offset length : Nat) :
    (ofArray bytes.toArray).read offset length = (bytes.drop offset).take length := by
  rw [read_eq_take_drop, toList_ofArray]

@[simp] theorem length_toList (c : Contents) : c.toList.length = c.size := by
  simp [toList]

end Contents

namespace Sheet.Lines

/-- The bytes between line feeds; nothing is behind the last line feed of a file that ends in one. -/
def split (bytes : List UInt8) : List (List UInt8) :=
  let runs := pieces lineFeed bytes
  if runs.getLast? = some [] then runs.dropLast else runs

/-- The lines up to the first that is too long. -/
def bounded : List (List UInt8) → List RawLine
  | [] => []
  | line :: rest => if maxLine < line.length then [.overlong] else .line line :: bounded rest

/-! ### One line -/

@[simp] theorem split_nil : split [] = [] := rfl

/-- A line feed ends a line. -/
theorem split_append {line : List UInt8} (h : lineFeed ∉ line) (rest : List UInt8) :
    split (line ++ lineFeed :: rest) = line :: split rest := by
  obtain ⟨run, runs, hruns⟩ := List.exists_cons_of_ne_nil (pieces.ne_nil lineFeed rest)
  unfold split
  rw [pieces.append_sep lineFeed h, hruns]
  simp only [List.getLast?_cons_cons, List.dropLast_cons_cons]
  split <;> rfl

/-- Bytes without a line feed are one line. -/
theorem split_of_not_mem {line : List UInt8} (hne : line ≠ []) (h : lineFeed ∉ line) :
    split line = [line] := by
  simp [split, pieces.of_not_mem lineFeed h, hne]

/-- The bytes before the first line feed: all of them, or the line feed and the rest are behind. -/
theorem takeWhile_cases (bytes : List UInt8) :
    ∃ line, bytes.takeWhile (· ≠ lineFeed) = line ∧ lineFeed ∉ line ∧
      (bytes = line ∨ ∃ rest, bytes = line ++ lineFeed :: rest) := by
  have hline : lineFeed ∉ bytes.takeWhile (· ≠ lineFeed) := fun h => by
    simpa using List.mem_takeWhile_imp h
  have hbytes := List.takeWhile_append_dropWhile (p := (· ≠ lineFeed)) (l := bytes)
  have hhead := List.head?_dropWhile_not (· ≠ lineFeed) bytes
  refine ⟨_, rfl, hline, ?_⟩
  cases hrest : bytes.dropWhile (· ≠ lineFeed) with
  | nil =>
    rw [hrest, List.append_nil] at hbytes
    exact .inl hbytes.symm
  | cons byte rest =>
    rw [hrest] at hbytes hhead
    obtain rfl : byte = lineFeed := by simpa using hhead
    exact .inr ⟨rest, hbytes.symm⟩

/-- **The first line** goes up to the first line feed, and the others begin behind it. -/
theorem split_eq {bytes : List UInt8} (hne : bytes ≠ []) :
    split bytes = bytes.takeWhile (· ≠ lineFeed) ::
      split (bytes.drop ((bytes.takeWhile (· ≠ lineFeed)).length + 1)) := by
  obtain ⟨line, hline, hfeed, hbytes⟩ := takeWhile_cases bytes
  rw [hline]
  obtain rfl | ⟨rest, rfl⟩ := hbytes
  · rw [split_of_not_mem hne hfeed, List.drop_of_length_le (Nat.le_succ _), split_nil]
  · rw [split_append hfeed]
    simp

/-! ### All lines -/

/-- A line that is too long ends the file. -/
theorem bounded_of_lt {line : List UInt8} (h : maxLine < line.length) (rest : List (List UInt8)) :
    bounded (line :: rest) = [.overlong] := by
  rw [bounded, if_pos h]

/-- A line that is not too long is taken, and its successors are those of the rest. -/
theorem bounded_of_le {line : List UInt8} (h : line.length ≤ maxLine) (rest : List (List UInt8)) :
    bounded (line :: rest) = .line line :: bounded rest := by
  rw [bounded, if_neg (Nat.not_lt.mpr h)]

/-! ### Bytes that are taken -/

/-- The first of the bytes that are left stands at the position. -/
theorem byteAt_of_drop {c : Contents} {position : Nat} {byte : UInt8} {rest : List UInt8}
    (h : c.toList.drop position = byte :: rest) :
    position < c.size ∧ c.byteAt position = byte ∧ c.toList.drop (position + 1) = rest := by
  have hinside : position < c.toList.length := by
    by_contra hout
    rw [List.drop_of_length_le (by omega)] at h
    cases h
  rw [List.drop_eq_getElem_cons hinside, List.cons.injEq] at h
  rw [Contents.length_toList] at hinside
  exact ⟨hinside, by simpa [Contents.toList, Contents.read] using h.1, h.2⟩

theorem taken_of_end {c : Contents} {position : Nat} (h : c.toList.drop position = []) (limit : Nat) :
    taken c position limit = [] := by
  have hout : ¬ position < c.size := by simpa using h
  cases limit with
  | zero => rfl
  | succ limit => rw [taken, if_neg hout]

theorem taken_of_feed {c : Contents} {position : Nat} {rest : List UInt8}
    (h : c.toList.drop position = lineFeed :: rest) (limit : Nat) :
    taken c position (limit + 1) = [lineFeed] := by
  obtain ⟨hinside, hbyte, -⟩ := byteAt_of_drop h
  rw [taken, if_pos hinside, hbyte]
  exact if_pos rfl

/-- Bytes of a line are taken as far as the limit goes. -/
theorem taken_append {c : Contents} {position limit : Nat} {run rest : List UInt8}
    (h : c.toList.drop position = run ++ rest) (hrun : lineFeed ∉ run) (hlimit : run.length ≤ limit) :
    taken c position limit = run ++ taken c (position + run.length) (limit - run.length) := by
  induction run generalizing position limit with
  | nil => rfl
  | cons byte run ih =>
    obtain ⟨hinside, hbyte, hrest⟩ := byteAt_of_drop h
    obtain ⟨hne, hrun⟩ := not_or.mp (List.mem_cons.not.mp hrun)
    cases limit with
    | zero => cases hlimit
    | succ limit =>
      have hnext := ih hrest hrun (Nat.le_of_succ_le_succ hlimit)
      rw [taken, if_pos hinside, hbyte]
      dsimp only
      rw [if_neg (Ne.symm hne), hnext, List.length_cons, Nat.add_sub_add_right, Nat.add_assoc,
        Nat.add_comm 1, List.cons_append]

theorem withoutFeed_of_not_mem {line : List UInt8} (h : lineFeed ∉ line) : withoutFeed line = line :=
  if_neg fun hlast => h (List.mem_of_getLast? hlast)

theorem withoutFeed_append (line : List UInt8) : withoutFeed (line ++ [lineFeed]) = line := by
  simp [withoutFeed]

/-! ### One round -/

/-- A line that fits is told from its line feed, or from the end of the file. -/
theorem next?_of_le {c : Contents} {position : Nat} (hinside : position < c.size)
    (hshort : ((c.toList.drop position).takeWhile (· ≠ lineFeed)).length ≤ maxLine) :
    ∃ after, next? c position =
        some (.line ((c.toList.drop position).takeWhile (· ≠ lineFeed)), after) ∧
      c.toList.drop after = (c.toList.drop position).drop
        (((c.toList.drop position).takeWhile (· ≠ lineFeed)).length + 1) := by
  obtain ⟨line, hline, hfeed, hbytes⟩ := takeWhile_cases (c.toList.drop position)
  rw [hline] at hshort ⊢
  obtain hbytes | ⟨rest, hbytes⟩ := hbytes
  · -- the file ends here, without a line feed
    have hend : c.toList.drop (position + line.length) = [] := by
      rw [← List.drop_drop, hbytes, List.drop_length]
    have htaken : taken c position (maxLine + 1) = line := by
      rw [taken_append (hbytes.trans (List.append_nil line).symm) hfeed (Nat.le_succ_of_le hshort),
        taken_of_end hend, List.append_nil]
    have hne : line ≠ [] := by
      rintro rfl
      have hnone : c.size ≤ position := by simpa using hend
      omega
    refine ⟨position + line.length, ?_, ?_⟩
    · simp [next?, htaken, withoutFeed_of_not_mem hfeed, hne, Nat.not_lt.mpr hshort]
    · rw [hend, hbytes, List.drop_of_length_le (Nat.le_succ _)]
  · have hrest : c.toList.drop (position + line.length) = lineFeed :: rest := by
      rw [← List.drop_drop, hbytes, List.drop_left]
    have hlimit : maxLine + 1 - line.length = (maxLine - line.length) + 1 := by omega
    have htaken : taken c position (maxLine + 1) = line ++ [lineFeed] := by
      rw [taken_append hbytes hfeed (Nat.le_succ_of_le hshort), hlimit, taken_of_feed hrest]
    refine ⟨position + (line.length + 1), ?_, ?_⟩
    · simp [next?, htaken, withoutFeed_append, Nat.not_lt.mpr hshort]
    · rw [List.drop_drop]

/-- A line that does not fit is reported from its first bytes. -/
theorem next?_of_lt {c : Contents} {position : Nat}
    (hlong : maxLine < ((c.toList.drop position).takeWhile (· ≠ lineFeed)).length) :
    next? c position = some (.overlong, c.size) := by
  obtain ⟨line, hline, hfeed, hbytes⟩ := takeWhile_cases (c.toList.drop position)
  rw [hline] at hlong
  obtain ⟨rest, hbytes⟩ : ∃ rest, c.toList.drop position = line ++ rest := by
    obtain hbytes | ⟨rest, hbytes⟩ := hbytes
    · exact ⟨[], hbytes.trans (List.append_nil line).symm⟩
    · exact ⟨_, hbytes⟩
  have hfront : (line.take (maxLine + 1)).length = maxLine + 1 := by
    rw [List.length_take]
    omega
  have hfrontFeed : lineFeed ∉ line.take (maxLine + 1) := fun h => hfeed (List.mem_of_mem_take h)
  rw [← List.take_append_drop (maxLine + 1) line, List.append_assoc] at hbytes
  have htaken := taken_append hbytes hfrontFeed (Nat.le_of_eq hfront)
  rw [hfront, Nat.sub_self, taken, List.append_nil] at htaken
  have hne : line.take (maxLine + 1) ≠ [] := List.ne_nil_of_length_eq_add_one hfront
  unfold next?
  rw [htaken]
  dsimp only
  rw [withoutFeed_of_not_mem hfrontFeed, hfront, if_neg (by simpa using hne),
    if_pos (Nat.lt_succ_self _)]

/-- From every position on, the reader finds the lines of the bytes that are left. -/
theorem readFrom_nil_eq (c : Contents) (position : Nat) :
    readFrom c [] position = bounded (split (c.toList.drop position)) := by
  by_cases hinside : position < c.size
  · have hne : c.toList.drop position ≠ [] := by simpa using hinside
    rw [split_eq hne]
    rcases Nat.lt_or_ge maxLine ((c.toList.drop position).takeWhile (· ≠ lineFeed)).length with
      hlong | hshort
    · have hend : next? c c.size = none := by
        simp [next?, taken_of_end (List.drop_of_length_le (Nat.le_of_eq c.length_toList))]
      rw [readFrom_of_some _ (next?_of_lt hlong), readFrom_of_none _ hend, bounded_of_lt hlong]
      rfl
    · obtain ⟨after, hnext, hafter⟩ := next?_of_le hinside hshort
      have hless := lt_next hnext
      rw [readFrom_of_some _ hnext, readFrom_eq, readFrom_nil_eq c after, bounded_of_le hshort,
        hafter]
      rfl
  · have hnil : c.toList.drop position = [] := List.drop_of_length_le (by simpa using hinside)
    have hnext : next? c position = none := by simp [next?, taken_of_end hnil]
    rw [readFrom_of_none _ hnext, hnil, split_nil]
    rfl
  termination_by c.size - position

/-- **The lines of a file** are what is between its line feeds, up to the first that is too long. -/
theorem read_eq (c : Contents) : read c = bounded (split c.toList) := readFrom_nil_eq c 0

end Sheet.Lines

end CompactDisc
