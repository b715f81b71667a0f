import CompactDisc.Program.Layout
import Mathlib.Algebra.Group.Nat.Defs

/-!
# CompactDisc.Proofs.Layout.Entry

**Runs of a layout**, and what one addition can do.

An `Entry` is what a sheet says about one track. A layout is built by placing one entry after
another (`Layout.extend`), stopping at the first failure, or by trying each and going on
(`Layout.attempt`); `Layout.ofEntries` is a whole disc, the lead-out included.

Design points:

* What follows about accepted entries is read off the inversion lemmas here and never off the body of
  `Layout.add`: `place_first_ok_iff`, `place_same_ok_iff` and `place_new_ok_iff` say exactly when an
  entry is accepted and what comes out.
* The last two differ in what decides the length of the track before: the next INDEX 00 within the
  same source, or the end of the source.
-/

namespace CompactDisc

/-- What a sheet says about one track. Its `start` is still INDEX 01 within its file. -/
structure Entry where
  track : Track
  /-- INDEX 00. -/
  prestart : Option Nat
  pregap : Nat

/-- A track of which nothing is said. -/
instance : Inhabited Entry := ⟨{}, none, 0⟩

namespace Entry

/-- Where what is stored of the track begins: INDEX 00, or else INDEX 01. -/
def gapStart (e : Entry) : Nat := e.prestart.getD e.track.start

/-- Stored sectors before the track. -/
def gap (e : Entry) : Nat := e.track.start - e.gapStart

end Entry

/-- The sectors that bytes fill, a last one that is not whole included. -/
def Track.sectorsOf (t : Track) (bytes : Nat) : Nat := (bytes + t.sectorSize - 1) / t.sectorSize

/-- What is needed for two steps to succeed. -/
theorem bind_eq_ok_iff {ε α β : Type} {x : Except ε α} {f : α → Except ε β} {b : β} :
    x >>= f = .ok b ↔ ∃ a, x = .ok a ∧ f a = .ok b := by
  cases x with
  | error e => exact ⟨nofun, fun ⟨_, h, _⟩ => nomatch h⟩
  | ok a => exact ⟨fun h => ⟨a, rfl, h⟩, fun ⟨_, h, h'⟩ => by cases h; exact h'⟩

theorem toOption_eq_some_iff {ε α : Type} {x : Except ε α} {a : α} :
    x.toOption = some a ↔ x = .ok a := by
  cases x <;> simp [Except.toOption]

namespace Layout

/-- Adds an entry. -/
def place (l : Layout) (e : Entry) : Except LayoutError Layout :=
  match l.add e.track e.prestart e.pregap with
  | (.ok (), l) => .ok l
  | (.error error, _) => .error error

/-- Adds an entry and goes on with what is left, also where this fails. -/
def attempt (l : Layout) (e : Entry) : Layout := (l.add e.track e.prestart e.pregap).2

/-- Adds entries up to the first failure. -/
def extend (l : Layout) (es : List Entry) : Except LayoutError Layout := es.foldlM place l

/-- The tracks with the lead-out behind them. -/
def finish (l : Layout) : Except LayoutError (List Track) :=
  match l.close with
  | (.ok (), l) => .ok l.tracks
  | (.error error, _) => .error error

/-- The disc that entries describe. -/
def ofEntries (es : List Entry) : Except LayoutError (List Track) := do
  let l ← extend .empty es
  l.finish

/-- The lead-out as an entry. -/
def closing (last : Track) : Entry := ⟨leadOut last, none, 0⟩

/-! ### Runs -/

theorem extend_cons_ok_iff {l l' : Layout} {e : Entry} {es : List Entry} :
    l.extend (e :: es) = .ok l' ↔ ∃ m, l.place e = .ok m ∧ m.extend es = .ok l' := by
  unfold extend
  rw [List.foldlM_cons, bind_eq_ok_iff]

@[simp] theorem extend_singleton (l : Layout) (e : Entry) : l.extend [e] = l.place e := by
  unfold extend
  rw [List.foldlM_cons]
  cases l.place e <;> rfl

theorem extend_append_ok_iff {l l' : Layout} {es es' : List Entry} :
    l.extend (es ++ es') = .ok l' ↔ ∃ m, l.extend es = .ok m ∧ m.extend es' = .ok l' := by
  unfold extend
  rw [List.foldlM_append, bind_eq_ok_iff]

/-- A property that every accepted entry keeps holds after a run. -/
theorem extend_induction {motive : Layout → Prop} {es : List Entry} {l l' : Layout}
    (h : l.extend es = .ok l') (start : motive l)
    (step : ∀ l e l', e ∈ es → motive l → l.place e = .ok l' → motive l') : motive l' := by
  induction es generalizing l with
  | nil =>
      cases h
      exact start
  | cons e es ih =>
      obtain ⟨m, hm, h⟩ := extend_cons_ok_iff.mp h
      exact ih h (step l e m (by simp) start hm)
        fun l e l' he => step l e l' (List.mem_cons_of_mem _ he)

theorem ofEntries_ok_iff {es : List Entry} {tracks : List Track} :
    ofEntries es = .ok tracks ↔ ∃ l, extend .empty es = .ok l ∧ l.finish = .ok tracks := by
  unfold ofEntries
  rw [bind_eq_ok_iff]

theorem place_eq_of_add {l l' : Layout} {e : Entry}
    (h : l.add e.track e.prestart e.pregap = (.ok (), l')) : l.place e = .ok l' := by
  rw [place, h]

theorem place_ok_iff {l l' : Layout} {e : Entry} :
    l.place e = .ok l' ↔ l.add e.track e.prestart e.pregap = (.ok (), l') := by
  unfold place
  rcases l.add e.track e.prestart e.pregap with ⟨error | ⟨⟩, m⟩
  · exact ⟨nofun, nofun⟩
  · exact ⟨fun h => by cases h; rfl, fun h => by cases h; rfl⟩

/-! ### The parts of an addition -/

theorem sector_eq_ok_iff {track value n : Nat} :
    sector track value = .ok n ↔ value < 2 ^ 32 ∧ n = value := by
  have hlimit : value ≤ RedBook.maxSector ↔ value < 2 ^ 32 := Nat.lt_succ_iff.symm
  by_cases h : value ≤ RedBook.maxSector
  · rw [sector, if_pos h, Except.ok.injEq]
    exact ⟨fun e => ⟨hlimit.mp h, e.symm⟩, fun e => e.2.symm⟩
  · rw [sector, if_neg h]
    exact ⟨nofun, fun e => absurd (hlimit.mpr e.1) h⟩

theorem lengthOf_ok_iff {track n : Nat} {value : Int} :
    lengthOf track value = .ok n ↔ value = n ∧ n < 2 ^ 32 := by
  unfold lengthOf
  split
  · exact ⟨nofun, fun h => by omega⟩
  · rw [sector_eq_ok_iff]
    omega

/-- What is in the way of a placed track behind another. -/
theorem check_ok_iff {prev t : Track} {p : Placement} {start : Nat} :
    check prev t p = .ok start ↔ 2 ≤ t.number ∧ t.number = prev.number + 1 ∧
      p.previousEnd ≤ p.start ∧ p.start < 2 ^ 32 ∧ start = p.start := by
  unfold check
  split
  · exact ⟨nofun, fun h => by omega⟩
  · rw [sector_eq_ok_iff]
    omega

/-- Within one source, a track is placed behind what it leaves to the track before it. -/
theorem placeInSource_ok_iff {l : Layout} {prev t : Track} {gap pregap : Nat} {p : Placement} :
    l.placeInSource prev t gap pregap = .ok p ↔
      ∃ length : Nat, (prev.length = 0 →
          ((t.start + l.shift + l.inserted : Nat) : Int) - prev.start - gap = length ∧
            length < 2 ^ 32) ∧
        (prev.length ≠ 0 → length = prev.length) ∧
        p = { layout := { l.setLast { prev with length } with inserted := l.inserted + pregap }
              start := t.start + l.shift + (l.inserted + pregap)
              skip := prev.skip + length * prev.sectorSize + gap * t.sectorSize
              previousEnd := prev.start + length } := by
  unfold placeInSource
  by_cases h0 : prev.length = 0
  · rw [if_pos h0]
    cases hn : lengthOf prev.number
        (((t.start + l.shift + l.inserted : Nat) : Int) - prev.start - gap) with
    | error error =>
        refine ⟨nofun, fun ⟨length, h, _⟩ => ?_⟩
        rw [lengthOf_ok_iff.mpr (h h0)] at hn
        cases hn
    | ok n =>
        have hok := lengthOf_ok_iff.mp hn
        constructor
        · intro h
          cases h
          exact ⟨n, fun _ => hok, fun h => absurd h0 h, rfl⟩
        · rintro ⟨m, hm, -, rfl⟩
          have hm := hm h0
          obtain rfl : n = m := by omega
          rfl
  · rw [if_neg h0]
    constructor
    · intro h
      cases h
      exact ⟨prev.length, fun h => absurd h h0, fun _ => rfl, rfl⟩
    · rintro ⟨n, -, hn, rfl⟩
      obtain rfl := hn h0
      rfl

/-- At the beginning of another source, a track is placed behind all that is left of the last. -/
theorem placeInNewSource_ok_iff {l : Layout} {prev t : Track} {gap pregap : Nat} {p : Placement} :
    l.placeInNewSource prev t gap pregap = .ok p ↔
      ∃ total, prev.source.bind Source.length = some total ∧ prev.skip ≤ total ∧
        prev.sectorsOf (total - prev.skip) < 2 ^ 32 ∧
        p = { layout := { l.setLast { prev with length := prev.sectorsOf (total - prev.skip) } with
                shift := l.shift + (prev.start + prev.sectorsOf (total - prev.skip))
                inserted := pregap }
              start := t.start + (prev.start + prev.sectorsOf (total - prev.skip)) + pregap
              skip := gap * t.sectorSize
              previousEnd := prev.start + prev.sectorsOf (total - prev.skip) } := by
  unfold placeInNewSource
  cases hs : prev.source.bind Source.length with
  | none => exact ⟨nofun, fun ⟨_, h, _⟩ => nomatch h⟩
  | some total =>
      simp only [Option.some.injEq, exists_eq_left']
      by_cases hskip : total < prev.skip
      · rw [if_pos hskip]
        exact ⟨nofun, fun h => by omega⟩
      · rw [if_neg hskip]
        change (sector prev.number (prev.sectorsOf (total - prev.skip)) >>= _) = _ ↔ _
        cases hn : sector prev.number (prev.sectorsOf (total - prev.skip)) with
        | error error =>
            refine ⟨nofun, fun ⟨_, h, _⟩ => ?_⟩
            rw [sector_eq_ok_iff.mpr ⟨h, rfl⟩] at hn
            cases hn
        | ok n =>
            obtain ⟨hlt, rfl⟩ := sector_eq_ok_iff.mp hn
            constructor
            · intro h
              cases h
              exact ⟨Nat.le_of_not_lt hskip, hlt, rfl⟩
            · rintro ⟨-, -, rfl⟩
              rfl

/-! ### What is accepted -/

/-- The first track starts where its file says, behind its pregap. -/
theorem place_first_ok_iff {l l' : Layout} {e : Entry} (hl : l.tracks = []) :
    l.place e = .ok l' ↔ e.gapStart ≤ e.track.start ∧ e.track.start + e.pregap < 2 ^ 32 ∧
      l' = { l with
        tracks := [{ e.track with
          start := e.track.start + e.pregap, skip := e.gap * e.track.sectorSize }]
        inserted := e.pregap } := by
  rw [place_ok_iff, add, hl]
  change (if e.track.start < e.gapStart then _ else _) = _ ↔ _
  split
  · exact ⟨nofun, fun h => by omega⟩
  · rename_i hgap
    dsimp only [List.getLast?_nil]
    cases hn : sector e.track.number (e.track.start + e.pregap) with
    | error error =>
        refine ⟨nofun, fun h => ?_⟩
        rw [sector_eq_ok_iff.mpr ⟨h.2.1, rfl⟩] at hn
        cases hn
    | ok start =>
        obtain ⟨hlt, rfl⟩ := sector_eq_ok_iff.mp hn
        constructor
        · intro h
          cases h
          exact ⟨Nat.le_of_not_lt hgap, hlt, rfl⟩
        · rintro ⟨-, -, rfl⟩
          rfl

/-- Behind a track, an entry is accepted if it can be placed and passes the check. -/
theorem place_next_ok_iff {l l' : Layout} {e : Entry} {init : List Track} {prev : Track}
    (hl : l.tracks = init ++ [prev]) :
    l.place e = .ok l' ↔ e.gapStart ≤ e.track.start ∧
      ∃ p, l.placeAfter prev e.track e.gap e.pregap = .ok p ∧
        2 ≤ e.track.number ∧ e.track.number = prev.number + 1 ∧
        p.previousEnd ≤ p.start ∧ p.start < 2 ^ 32 ∧
        l' = { p.layout with
          tracks := p.layout.tracks ++ [{ e.track with start := p.start, skip := p.skip }] } := by
  rw [place_ok_iff, add, hl, List.getLast?_concat]
  change (if e.track.start < e.gapStart then _ else _) = _ ↔ _
  split
  · exact ⟨nofun, fun h => by omega⟩
  · rename_i hgap
    dsimp only
    rw [show l.placeAfter prev e.track e.gap e.pregap =
      l.placeAfter prev e.track (e.track.start - e.prestart.getD e.track.start) e.pregap from rfl]
    cases l.placeAfter prev e.track (e.track.start - e.prestart.getD e.track.start) e.pregap with
    | error error => exact ⟨nofun, fun ⟨_, _, h, _⟩ => nomatch h⟩
    | ok p =>
        simp only [Except.ok.injEq, exists_eq_left']
        cases hc : check prev e.track p with
        | error error =>
            refine ⟨nofun, fun ⟨_, h1, h2, h3, h4, _⟩ => ?_⟩
            rw [check_ok_iff.mpr ⟨h1, h2, h3, h4, rfl⟩] at hc
            cases hc
        | ok start =>
            obtain ⟨h1, h2, h3, h4, rfl⟩ := check_ok_iff.mp hc
            constructor
            · intro h
              cases h
              exact ⟨Nat.le_of_not_lt hgap, h1, h2, h3, h4, rfl⟩
            · rintro ⟨-, -, -, -, -, rfl⟩
              rfl

/-- Behind a track of its own source whose length is still open, an entry gives that track the
sectors up to its own INDEX 00. -/
theorem place_same_ok_iff {l l' : Layout} {e : Entry} {init : List Track} {prev : Track}
    (hl : l.tracks = init ++ [prev]) (same : prev.sharesSource e.track = true)
    (fresh : prev.length = 0) :
    l.place e = .ok l' ↔ e.gapStart ≤ e.track.start ∧
      ∃ length, e.gapStart + l.shift + l.inserted = prev.start + length ∧ length < 2 ^ 32 ∧
        2 ≤ e.track.number ∧ e.track.number = prev.number + 1 ∧
        e.track.start + l.shift + (l.inserted + e.pregap) < 2 ^ 32 ∧
        l' = { l with
          tracks := init ++ [{ prev with length },
            { e.track with
              start := e.track.start + l.shift + (l.inserted + e.pregap)
              skip := prev.skip + length * prev.sectorSize + e.gap * e.track.sectorSize }]
          inserted := l.inserted + e.pregap } := by
  rw [place_next_ok_iff hl, placeAfter, if_pos same]
  constructor
  · rintro ⟨hgap, p, hp, h1, h2, -, h4, rfl⟩
    obtain ⟨length, hlen, -, rfl⟩ := placeInSource_ok_iff.mp hp
    obtain ⟨hlen, hlt⟩ := hlen fresh
    refine ⟨hgap, length, ?_, hlt, h1, h2, h4, ?_⟩
    · unfold Entry.gap at hlen
      omega
    · simp [setLast, hl]
  · rintro ⟨hgap, length, hlen, hlt, h1, h2, h4, rfl⟩
    refine ⟨hgap, _, placeInSource_ok_iff.mpr ⟨length, fun _ => ⟨?_, hlt⟩, fun h => absurd fresh h,
      rfl⟩, h1, h2, ?_, h4, ?_⟩
    · unfold Entry.gap
      omega
    · dsimp only
      omega
    · simp [setLast, hl]

/-- Behind a track of another source, an entry gives that track all that is left of its source. -/
theorem place_new_ok_iff {l l' : Layout} {e : Entry} {init : List Track} {prev : Track}
    (hl : l.tracks = init ++ [prev]) (other : prev.sharesSource e.track = false) :
    l.place e = .ok l' ↔ e.gapStart ≤ e.track.start ∧
      ∃ total, prev.source.bind Source.length = some total ∧ prev.skip ≤ total ∧
        ∃ length, length = prev.sectorsOf (total - prev.skip) ∧ length < 2 ^ 32 ∧
          2 ≤ e.track.number ∧ e.track.number = prev.number + 1 ∧
          e.track.start + (prev.start + length) + e.pregap < 2 ^ 32 ∧
          l' = { tracks := init ++ [{ prev with length },
                  { e.track with
                    start := e.track.start + (prev.start + length) + e.pregap
                    skip := e.gap * e.track.sectorSize }]
                 shift := l.shift + (prev.start + length)
                 inserted := e.pregap } := by
  rw [place_next_ok_iff hl, placeAfter, if_neg (by simp [other])]
  constructor
  · rintro ⟨hgap, p, hp, h1, h2, -, h4, rfl⟩
    obtain ⟨total, htotal, hskip, hlt, rfl⟩ := placeInNewSource_ok_iff.mp hp
    exact ⟨hgap, total, htotal, hskip, _, rfl, hlt, h1, h2, h4, by simp [setLast, hl]⟩
  · rintro ⟨hgap, total, htotal, hskip, _, rfl, hlt, h1, h2, h4, rfl⟩
    refine ⟨hgap, _, placeInNewSource_ok_iff.mpr ⟨total, htotal, hskip, hlt, rfl⟩, h1, h2, ?_, h4,
      by simp [setLast, hl]⟩
    change prev.start + _ ≤ e.track.start + (prev.start + _) + e.pregap
    omega

/-- Closing a layout is placing the lead-out, where its number is left. -/
theorem finish_ok_iff {l : Layout} {init : List Track} {last : Track} {tracks : List Track}
    (hl : l.tracks = init ++ [last]) :
    l.finish = .ok tracks ↔
      last.number ≠ 255 ∧ ∃ l', l.place (closing last) = .ok l' ∧ tracks = l'.tracks := by
  unfold finish close
  rw [hl, List.getLast?_concat]
  dsimp only
  by_cases hn : last.number = 255
  · rw [if_pos hn]
    exact ⟨nofun, fun h => absurd hn h.1⟩
  · rw [if_neg hn]
    unfold place closing
    rcases l.add (leadOut last) none 0 with ⟨error | ⟨⟩, l'⟩
    · exact ⟨nofun, fun ⟨_, _, h, _⟩ => nomatch h⟩
    · constructor
      · intro h
        cases h
        exact ⟨hn, l', rfl, rfl⟩
      · rintro ⟨-, _, h, rfl⟩
        cases h
        rfl

@[simp] theorem finish_of_empty {l : Layout} (hl : l.tracks = []) :
    l.finish = .error .empty := by
  simp [finish, close, hl]

end Layout

end CompactDisc
