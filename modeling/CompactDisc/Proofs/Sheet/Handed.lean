import CompactDisc.Proofs.Layout.Entry
import CompactDisc.Proofs.Sheet.Lines
import CompactDisc.Sheet.Load

/-!
# CompactDisc.Proofs.Sheet.Handed

**Every line of a sheet is handed over, whole and in its place.** Loading a sheet hands over one line
after another, up to the first that fails. Those are the pieces of the file between its line feeds, from
the first one on, as far as none is too long; a line that is too long is reported under its number,
unless a line before it fails (`load_hands_over`). So no line is split, joined to the next one or passed
over, whatever its length and whether or not a line feed stands behind the last one.

Proof shape: a step that keeps a record of the lines it is given (`logged`) answers as the step itself
does. What the record holds is decided by where the lines first fail (`foldlM_error_iff`), and the lines
are known beforehand (`Lines.read_eq`).
-/

namespace CompactDisc

/-- Steps fail where one of them is the first to fail. -/
theorem foldlM_error_iff {σ ε α : Type} {f : σ → α → Except ε σ} {s : σ} {e : ε} {l : List α} :
    l.foldlM f s = .error e ↔
      ∃ done a rest s', l = done ++ a :: rest ∧ done.foldlM f s = .ok s' ∧ f s' a = .error e := by
  induction l generalizing s with
  | nil =>
    constructor
    · nofun
    · rintro ⟨done, a, rest, s', hl, -⟩
      simp at hl
  | cons a l ih =>
    rw [List.foldlM_cons]
    cases hstep : f s a with
    | error e' =>
      constructor
      · intro h
        cases h
        exact ⟨[], a, l, s, rfl, rfl, hstep⟩
      · rintro ⟨done, b, rest, s', hl, hdone, hfails⟩
        cases done with
        | nil =>
          cases hl
          cases hdone
          exact hstep.symm.trans hfails
        | cons c done =>
          cases hl
          rw [List.foldlM_cons, hstep] at hdone
          cases hdone
    | ok t =>
      change l.foldlM f t = .error e ↔ _
      rw [ih]
      constructor
      · rintro ⟨done, b, rest, s', rfl, hdone, hfails⟩
        refine ⟨a :: done, b, rest, s', rfl, ?_, hfails⟩
        rw [List.foldlM_cons, hstep]
        exact hdone
      · rintro ⟨done, b, rest, s', hl, hdone, hfails⟩
        cases done with
        | nil =>
          cases hl
          cases hdone
          cases hstep.symm.trans hfails
        | cons c done =>
          cases hl
          rw [List.foldlM_cons, hstep] at hdone
          exact ⟨done, b, rest, s', rfl, hdone, hfails⟩

namespace Sheet

/-! ### Keeping a record -/

/-- A step that writes down the lines it is given. -/
def logged {σ ε : Type} (f : σ → RawLine → Except ε σ) (s : σ × List RawLine) (line : RawLine) :
    Except (ε × List RawLine) (σ × List RawLine) :=
  match f s.1 line with
  | .error e => .error (e, s.2 ++ [line])
  | .ok t => .ok (t, s.2 ++ [line])

/-- The bytes of a line that was not too long. -/
def RawLine.bytes? : RawLine → Option (List UInt8)
  | .line bytes => some bytes
  | .overlong => none

/-- The lines that have been handed over, at the end of a run with a record. -/
def handed {σ ε : Type} : Except (ε × List RawLine) (σ × List RawLine) → List (List UInt8)
  | .error (_, record) => record.filterMap RawLine.bytes?
  | .ok (_, record) => record.filterMap RawLine.bytes?

section

variable {σ ε : Type} {f : σ → RawLine → Except ε σ} {s t : σ} {lines : List RawLine}

/-- Steps that pass have been given every line. -/
theorem logged_ok (h : lines.foldlM f s = .ok t) (record : List RawLine) :
    lines.foldlM (logged f) (s, record) = .ok (t, record ++ lines) := by
  induction lines generalizing s record with
  | nil =>
    cases h
    rw [List.append_nil]
    rfl
  | cons line lines ih =>
    rw [List.foldlM_cons] at h
    obtain ⟨u, hstep, hrest⟩ := bind_eq_ok_iff.mp h
    have hlogged : logged f (s, record) line = .ok (u, record ++ [line]) := by
      simp only [logged, hstep]
    rw [List.foldlM_cons, hlogged]
    change lines.foldlM (logged f) (u, record ++ [line]) = _
    rw [ih hrest, List.append_assoc, List.singleton_append]

/-- Steps that fail have been given the lines up to the first that fails. -/
theorem logged_error {e : ε} {line : RawLine} {rest : List RawLine} (h : lines.foldlM f s = .ok t)
    (hfails : f t line = .error e) :
    (lines ++ line :: rest).foldlM (logged f) (s, []) = .error (e, lines ++ [line]) := by
  have hlogged : logged f (t, lines) line = .error (e, lines ++ [line]) := by
    simp only [logged, hfails]
  rw [List.foldlM_append, logged_ok h, List.nil_append]
  change (line :: rest).foldlM (logged f) (t, lines) = _
  rw [List.foldlM_cons, hlogged]
  rfl

/-- Without its record a run is what it would have been. -/
theorem forget_logged (f : σ → RawLine → Except ε σ) (s : σ) (lines : List RawLine) :
    ((lines.foldlM (logged f) (s, [])).mapError Prod.fst).map Prod.fst = lines.foldlM f s := by
  cases hrun : lines.foldlM f s with
  | ok t =>
    rw [logged_ok hrun]
    rfl
  | error e =>
    obtain ⟨done, line, rest, t, rfl, hdone, hfails⟩ := foldlM_error_iff.mp hrun
    rw [logged_error hdone hfails]
    rfl

end

/-! ### The lines of a file -/

namespace Lines

/-- The first lines, as far as none is too long. -/
def short (lines : List (List UInt8)) : List (List UInt8) :=
  lines.takeWhile fun line => line.length ≤ maxLine

/-- A line that is too long is the last that is read. -/
theorem bounded_eq (lines : List (List UInt8)) :
    bounded lines = (short lines).map .line ++
      if (short lines).length < lines.length then [.overlong] else [] := by
  induction lines with
  | nil => rfl
  | cons line lines ih =>
    rcases Nat.lt_or_ge maxLine line.length with hlong | hshort
    · simp [bounded_of_lt hlong, short, Nat.not_le.mpr hlong]
    · have hfirst : short (line :: lines) = line :: short lines :=
        List.takeWhile_cons_of_pos (decide_eq_true hshort)
      rw [bounded_of_le hshort, ih, hfirst, List.map_cons, List.cons_append]
      refine congrArg (_ :: _ ++ ·) (if_congr ?_ rfl rfl)
      exact Nat.add_lt_add_iff_right.symm

/-- No line feed is in a line, and the lines with a line feed behind each are the file, whose last line
may lack it. -/
theorem split_covers (bytes : List UInt8) :
    (∀ line ∈ split bytes, lineFeed ∉ line) ∧
      (split bytes).flatMap (· ++ [lineFeed]) =
        bytes ++ if bytes = [] ∨ bytes.getLast? = some lineFeed then [] else [lineFeed] := by
  rcases eq_or_ne bytes [] with rfl | hne
  · exact ⟨nofun, rfl⟩
  · have hfewer : (bytes.drop ((bytes.takeWhile (· ≠ lineFeed)).length + 1)).length <
        bytes.length := by
      have hpos := List.length_pos_iff.mpr hne
      rw [List.length_drop]
      omega
    obtain ⟨hrest, hcover⟩ :=
      split_covers (bytes.drop ((bytes.takeWhile (· ≠ lineFeed)).length + 1))
    obtain ⟨line, hline, hfeed, hbytes⟩ := takeWhile_cases bytes
    rw [split_eq hne, List.forall_mem_cons, List.flatMap_cons, hcover, hline]
    rw [hline] at hrest
    refine ⟨⟨hfeed, hrest⟩, ?_⟩
    obtain rfl | ⟨rest, rfl⟩ := hbytes
    · -- the last line, without a line feed
      have hlast : bytes.getLast? ≠ some lineFeed := fun h => hfeed (List.mem_of_getLast? h)
      simp [hne, hlast]
    · cases rest <;> simp
  termination_by bytes.length

end Lines

/-! ### Loading -/

namespace Progress

/-- What a line says is read from its bytes. -/
def lineOf (env : Surroundings) (p : Progress) (bytes : List UInt8) : Except SheetError Progress :=
  p.line env (Text.Utf8.decode bytes)

/-- Lines that are handed over are counted. -/
theorem numberedLine_lines {env : Surroundings} {p q : Progress} {lines : List (List UInt8)}
    (h : lines.foldlM (lineOf env) p = .ok q) (number : Nat) :
    (lines.map RawLine.line).foldlM (numberedLine env) (p, number) =
      .ok (q, number + lines.length) := by
  induction lines generalizing p number with
  | nil =>
    cases h
    rfl
  | cons line lines ih =>
    rw [List.foldlM_cons] at h
    obtain ⟨next, hline, hrest⟩ := bind_eq_ok_iff.mp h
    have hnumbered : numberedLine env (p, number) (.line line) = .ok (next, number + 1) := by
      rw [numberedLine]
      change (p.lineOf env line).map _ = _
      rw [hline]
      rfl
    have hcount : number + (lines.length + 1) = number + 1 + lines.length := by omega
    rw [List.map_cons, List.foldlM_cons, hnumbered, List.length_cons, hcount]
    exact ih hrest (number + 1)

/-- A line that fails, fails under every number. -/
theorem numberedLine_error {env : Surroundings} {p : Progress} {line : List UInt8} {e : SheetError}
    (h : p.lineOf env line = .error e) (number : Nat) :
    numberedLine env (p, number) (.line line) = .error e := by
  rw [numberedLine]
  change (p.lineOf env line).map _ = _
  rw [h]
  rfl

end Progress

section

variable {storage : Storage} {path : String} {contents : Contents}

/-- **The lines of a sheet** are handed over as they stand between its line feeds, none of which is
missed. A sheet is loaded by a run through its file; a record of the lines that the run hands over does
not change it. If all lines pass that come before the first one that is too long, the record holds all of
them, and this line is reported under its number; if none is too long, the record holds every line, and
the sheet is finished. If one of them fails, the record ends with it, and its failure is that of the
load. -/
theorem load_hands_over (hget : storage.get path = .ok (.file contents)) (resolver : Resolver)
    (cursors : Cursors) :
    let env : Surroundings := ⟨storage, resolver, Path.parent path⟩
    let run := Lines.foldM contents (logged (Progress.numberedLine env)) (({ cursors }, 1), [])
    let lines := Lines.split contents.toList
    let short := Lines.short lines
    ((∀ line ∈ lines, lineFeed ∉ line) ∧
      lines.flatMap (· ++ [lineFeed]) = contents.toList ++
        if contents.toList = [] ∨ contents.toList.getLast? = some lineFeed then [] else [lineFeed]) ∧
    (run.mapError Prod.fst).map Prod.fst =
      Lines.foldM contents (Progress.numberedLine env) ({ cursors }, 1) ∧
    (∀ p, short.foldlM (Progress.lineOf env) { cursors } = .ok p → handed run = short ∧
      load storage resolver path cursors =
        if short.length < lines.length then .error (.lineTooLong (short.length + 1) 512)
        else p.finish.map fun disc => (disc, p.cursors)) ∧
    ∀ e, short.foldlM (Progress.lineOf env) { cursors } = .error e →
      load storage resolver path cursors = .error e ∧
      ∃ done line rest p, short = done ++ line :: rest ∧
        done.foldlM (Progress.lineOf env) { cursors } = .ok p ∧ p.lineOf env line = .error e ∧
        handed run = done ++ [line] := by
  intro env run lines short
  have hload : load storage resolver path cursors =
      (Lines.foldM contents (Progress.numberedLine env) ({ cursors }, 1)).bind fun r =>
        r.1.finish.map fun disc => (disc, r.1.cursors) := by
    unfold load
    rw [hget]
    rfl
  have hrun : run = (Lines.read contents).foldlM (logged (Progress.numberedLine env))
      (({ cursors }, 1), []) := Lines.foldM_eq ..
  have hread : Lines.read contents = short.map .line ++
      if short.length < lines.length then [.overlong] else [] := by
    rw [Lines.read_eq, Lines.bounded_eq]
  have hkept : ∀ ls : List (List UInt8), (ls.map RawLine.line).filterMap RawLine.bytes? = ls := by
    intro ls
    rw [List.filterMap_map]
    exact List.filterMap_some
  rw [hload, hrun, Lines.foldM_eq, hread]
  refine ⟨Lines.split_covers _, forget_logged _ _ _, fun p hp => ?_, fun e he => ?_⟩
  · have hlines := Progress.numberedLine_lines hp 1
    split
    · have hlong : Progress.numberedLine env (p, 1 + short.length) .overlong =
          .error (.lineTooLong (1 + short.length) 512) := rfl
      have hfails := foldlM_error_iff.mpr ⟨_, _, [], _, rfl, hlines, hlong⟩
      rw [logged_error hlines hlong, hfails, Nat.add_comm]
      refine ⟨?_, rfl⟩
      simp only [handed, List.filterMap_append, hkept]
      exact List.append_nil _
    · rw [List.append_nil, logged_ok hlines, hlines]
      exact ⟨hkept short, rfl⟩
  · obtain ⟨done, line, rest, p, hshort, hdone, hfails⟩ := foldlM_error_iff.mp he
    have hlines := Progress.numberedLine_lines hdone 1
    have hline := Progress.numberedLine_error hfails (1 + done.length)
    rw [hshort, List.map_append, List.map_cons, List.append_assoc, List.cons_append,
      logged_error hlines hline, foldlM_error_iff.mpr ⟨_, _, _, _, rfl, hlines, hline⟩]
    refine ⟨rfl, done, line, rest, p, rfl, hdone, hfails, ?_⟩
    simp only [handed, List.filterMap_append, hkept]
    rfl

end

/-! ### Lines at the limit -/

/-- A remark of the greatest length that a line may have. -/
def widest : List UInt8 := Text.ascii "REM" ++ List.replicate 509 0x20

/-- Such a line, and one that is a byte longer and ends the file. -/
def atLimit : Contents := .ofArray (widest ++ lineFeed :: List.replicate 513 0x20).toArray

def atLimitStorage : Storage where
  entries := [(⟨false, ["s"]⟩, .file atLimit)]

/-- The first line is handed over, and the second is reported. -/
theorem load_hands_over_atLimit :
    atLimitStorage.get "s" = .ok (.file atLimit) ∧
    handed (Lines.foldM atLimit (logged (Progress.numberedLine
      ⟨atLimitStorage, .search atLimitStorage, Path.parent "s"⟩)) (({ cursors := .none }, 1), [])) =
        [widest] ∧
    load atLimitStorage (.search atLimitStorage) "s" .none = .error (.lineTooLong 2 512) := by
  have hget : atLimitStorage.get "s" = .ok (.file atLimit) := rfl
  have hlines : Lines.split atLimit.toList = [widest, List.replicate 513 0x20] := by
    rw [atLimit, Contents.toList_ofArray]
    decide +kernel
  have hshort : Lines.short [widest, List.replicate 513 0x20] = [widest] := by
    decide +kernel
  have hremark : Progress.lineOf ⟨atLimitStorage, .search atLimitStorage, Path.parent "s"⟩
      { cursors := .none } widest = .ok { cursors := .none } := by
    have hverb : Verb.ofWord? (Line.ofChars (Text.Utf8.decode widest)).keyword.1 = some .remark := by
      decide +kernel
    unfold Progress.lineOf Progress.line
    dsimp only
    rw [hverb]
    rfl
  obtain ⟨-, -, hpass, -⟩ := load_hands_over hget (.search atLimitStorage) .none
  rw [hlines, hshort] at hpass
  obtain ⟨hhanded, hload⟩ := hpass { cursors := .none } (by
    rw [List.foldlM_cons, hremark]
    rfl)
  exact ⟨hget, hhanded, hload⟩

end Sheet

end CompactDisc
