import CompactDisc.Storage.Contents

/-!
# CompactDisc.Sheet.Lines

**The lines of a file, none longer than a limit.**

Design points:

* A file that is not a sheet may have no line break for a long way, so never more than one line's
  worth of bytes is looked at. `Lines.next?` takes one line with its line feed, which it leaves out
  again; a line over the limit is reported in its place and ends the file.
* `Lines.read` gives all the lines in order. What works through them and may stop at one goes by
  `Lines.foldM`, which takes no line behind that one and gives the same (`Lines.foldM_eq`).
-/

namespace CompactDisc.Sheet

/-- The longest line that is accepted, in bytes. -/
def maxLine : Nat := 512

/-- The byte that ends a line. -/
def lineFeed : UInt8 := 10

/-- A line of a file. -/
inductive RawLine where
  | line (bytes : List UInt8)
  /-- The line exceeds the limit. -/
  | overlong
  deriving DecidableEq, Repr

namespace Lines

/-- The bytes from a position to the end of the line, its line feed included, at most so many. -/
def taken (c : Contents) (position : Nat) : Nat → List UInt8
  | 0 => []
  | limit + 1 =>
    if position < c.size then
      let byte := c.byteAt position
      if byte = lineFeed then [byte] else byte :: taken c (position + 1) limit
    else []

/-- What was taken, without the line feed if it goes up to one. -/
def withoutFeed (bytes : List UInt8) : List UInt8 :=
  if bytes.getLast? = some lineFeed then bytes.dropLast else bytes

/-- Takes the line at a position, and gives the position of the one after it. One byte more than the
longest line is looked at: a line that fills it has to end in its line feed. -/
def next? (c : Contents) (position : Nat) : Option (RawLine × Nat) :=
  let bytes := taken c position (maxLine + 1)
  if bytes.isEmpty then none
  else if maxLine < (withoutFeed bytes).length then some (.overlong, c.size)
  else some (.line (withoutFeed bytes), position + bytes.length)

/-- Bytes are taken from inside the file only. -/
theorem lt_size_of_taken {c : Contents} {position limit : Nat}
    (h : (taken c position limit).isEmpty = false) : position < c.size := by
  cases limit with
  | zero => cases h
  | succ limit =>
    rw [taken] at h
    split at h
    · assumption
    · cases h

/-- The next line begins further on. -/
theorem lt_next {c : Contents} {position after : Nat} {line : RawLine}
    (h : next? c position = some (line, after)) : c.size - after < c.size - position := by
  unfold next? at h
  dsimp only at h
  split at h
  · cases h
  · rename_i hsome
    have hinside := lt_size_of_taken (Bool.eq_false_iff.mpr hsome)
    have hpos : 0 < (taken c position (maxLine + 1)).length :=
      List.length_pos_iff.mpr fun hnil => hsome (List.isEmpty_iff.mpr hnil)
    split at h
    · simp only [Option.some.injEq, Prod.mk.injEq] at h
      omega
    · simp only [Option.some.injEq, Prod.mk.injEq] at h
      omega

/-- Reads lines from a position on, behind those in `done`, which are in reverse. -/
def readFrom (c : Contents) (done : List RawLine) (position : Nat) : List RawLine :=
  match _taken : next? c position with
  | none => done.reverse
  | some (line, after) => readFrom c (line :: done) after
  termination_by c.size - position
  decreasing_by exact lt_next _taken

/-- The lines of a file. -/
def read (c : Contents) : List RawLine := readFrom c [] 0

/-- Works through the lines from a position on, up to the first failure. -/
def foldFrom {σ ε : Type} (c : Contents) (f : σ → RawLine → Except ε σ) (s : σ)
    (position : Nat) : Except ε σ :=
  match _taken : next? c position with
  | none => .ok s
  | some (line, after) =>
    match f s line with
    | .error e => .error e
    | .ok s => foldFrom c f s after
  termination_by c.size - position
  decreasing_by exact lt_next _taken

/-- Works through the lines of a file, up to the first failure. -/
def foldM {σ ε : Type} (c : Contents) (f : σ → RawLine → Except ε σ) (s : σ) : Except ε σ :=
  foldFrom c f s 0

theorem readFrom_of_none {c : Contents} {position : Nat} (done : List RawLine)
    (h : next? c position = none) : readFrom c done position = done.reverse := by
  rw [readFrom]
  split <;> simp_all

theorem readFrom_of_some {c : Contents} {position after : Nat} {line : RawLine}
    (done : List RawLine) (h : next? c position = some (line, after)) :
    readFrom c done position = readFrom c (line :: done) after := by
  rw [readFrom]
  split <;> simp_all

/-- The lines that are read stand behind those that have been read. -/
theorem readFrom_eq (c : Contents) (done : List RawLine) (position : Nat) :
    readFrom c done position = done.reverse ++ readFrom c [] position := by
  match h : next? c position with
  | none => simp [readFrom_of_none _ h]
  | some (line, after) =>
    rw [readFrom_of_some done h, readFrom_of_some [] h, readFrom_eq c (line :: done) after,
      readFrom_eq c [line] after]
    simp
  termination_by c.size - position
  decreasing_by all_goals exact lt_next h

theorem foldFrom_eq {σ ε : Type} (c : Contents) (f : σ → RawLine → Except ε σ) (s : σ)
    (position : Nat) : foldFrom c f s position = (readFrom c [] position).foldlM f s := by
  fun_induction foldFrom c f s position with
  | case1 s position h => rw [readFrom_of_none _ h]; rfl
  | case2 s position line after h e failed =>
    rw [readFrom_of_some _ h, readFrom_eq, List.reverse_singleton, List.singleton_append,
      List.foldlM_cons, failed]
    rfl
  | case3 s position line after h s' passed ih =>
    rw [readFrom_of_some _ h, readFrom_eq, List.reverse_singleton, List.singleton_append,
      List.foldlM_cons, passed, ih]
    rfl

/-- Working through the lines one by one is working through all of them. -/
theorem foldM_eq {σ ε : Type} (c : Contents) (f : σ → RawLine → Except ε σ) (s : σ) :
    foldM c f s = (read c).foldlM f s := foldFrom_eq c f s 0

end Lines

end CompactDisc.Sheet
