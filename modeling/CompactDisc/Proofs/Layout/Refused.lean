import CompactDisc.Proofs.Layout.Order

/-!
# CompactDisc.Proofs.Layout.Refused

**What an entry that is refused leaves behind.** Most failures are found before anything has been
written. The last check, of the number, the order and the range of the start, comes after the track ahead
has been closed for the entry: its length, the sectors of earlier files and the pregaps of the current file
are then those of the layout that the entry would have been part of (`Layout.closedFor`), and stay so.

Design points:

* `Layout.Reaches` says which entries get as far as the last check, and `Layout.Passes` is the check. They
  look at the layout before the addition only.
* What has been learnt is looked at again by the next entry if this one is of the same source, and is
  worked out anew if it is not; but the sectors of a file that was closed twice are counted twice.
-/

namespace CompactDisc.Layout

/-- The sectors that the last track is given when an entry is placed behind it: those up to where the
entry is stored in the same source, unless they are known already, and else all that is left. -/
def lengthFor (l : Layout) (prev : Track) (e : Entry) : Nat :=
  if prev.sharesSource e.track then
    if prev.length = 0 then e.gapStart + l.shift + l.inserted - prev.start else prev.length
  else prev.sectorsOf ((prev.source.bind Source.length).getD 0 - prev.skip)

/-- The sector at which an entry would start behind the last track. -/
def startFor (l : Layout) (prev : Track) (e : Entry) : Nat :=
  if prev.sharesSource e.track then e.track.start + l.shift + (l.inserted + e.pregap)
  else e.track.start + (prev.start + l.lengthFor prev e) + e.pregap

/-- The byte at which an entry would be stored behind the last track. -/
def skipFor (l : Layout) (prev : Track) (e : Entry) : Nat :=
  if prev.sharesSource e.track then
    prev.skip + l.lengthFor prev e * prev.sectorSize + e.gap * e.track.sectorSize
  else e.gap * e.track.sectorSize

/-- The layout with its last track closed for an entry. -/
def closedFor (l : Layout) (prev : Track) (e : Entry) : Layout where
  tracks := l.tracks.dropLast ++ [{ prev with length := l.lengthFor prev e }]
  shift := if prev.sharesSource e.track then l.shift
    else l.shift + (prev.start + l.lengthFor prev e)
  inserted := if prev.sharesSource e.track then l.inserted + e.pregap else e.pregap

/-- An entry for which the last track can be closed. -/
structure Reaches (l : Layout) (prev : Track) (e : Entry) : Prop where
  gap : e.gapStart ≤ e.track.start
  /-- In the same source, a length that is still open is not negative and can be counted. -/
  same : prev.sharesSource e.track = true → prev.length = 0 →
    prev.start ≤ e.gapStart + l.shift + l.inserted ∧ l.lengthFor prev e < 2 ^ 32
  /-- Behind another source, its length is known, is not exceeded and can be counted. -/
  other : prev.sharesSource e.track = false → ∃ total, prev.source.bind Source.length = some total ∧
    prev.skip ≤ total ∧ l.lengthFor prev e < 2 ^ 32

/-- An entry that follows the last track in number and place, and starts at a sector that can be
counted. -/
structure Passes (l : Layout) (prev : Track) (e : Entry) : Prop where
  second : 2 ≤ e.track.number
  number : e.track.number = prev.number + 1
  order : prev.start + l.lengthFor prev e ≤ l.startFor prev e
  range : l.startFor prev e < 2 ^ 32

/-- Closing the last track for an entry tells nothing new. -/
structure Unmoved (l : Layout) (prev : Track) (e : Entry) : Prop where
  length : l.lengthFor prev e = prev.length
  same : prev.sharesSource e.track = true → e.pregap = 0
  other : prev.sharesSource e.track = false → prev.endSector = 0 ∧ e.pregap = l.inserted

variable {l : Layout} {prev : Track} {e : Entry}

/-! ### Up to the last check -/

/-- Where an entry goes, if it goes anywhere. -/
theorem placeAfter_ok_iff (hgap : e.gapStart ≤ e.track.start) {p : Placement} :
    l.placeAfter prev e.track e.gap e.pregap = .ok p ↔ l.Reaches prev e ∧
      p = ⟨l.closedFor prev e, l.startFor prev e, l.skipFor prev e, prev.start + l.lengthFor prev e⟩ := by
  unfold placeAfter
  by_cases same : prev.sharesSource e.track = true
  · have hsame : l.Reaches prev e ↔ (prev.length = 0 →
        prev.start ≤ e.gapStart + l.shift + l.inserted ∧ l.lengthFor prev e < 2 ^ 32) :=
      ⟨fun h => h.same same, fun h => ⟨hgap, fun _ => h, fun other => by simp [same] at other⟩⟩
    rw [if_pos same, placeInSource_ok_iff, hsame]
    simp only [closedFor, startFor, skipFor, lengthFor, if_pos same]
    have hstored : e.track.start = e.gapStart + e.gap := by
      unfold Entry.gap
      omega
    by_cases fresh : prev.length = 0
    · simp only [if_pos fresh]
      constructor
      · rintro ⟨length, hlength, -, rfl⟩
        obtain ⟨hsectors, hrange⟩ := hlength fresh
        obtain rfl : length = e.gapStart + l.shift + l.inserted - prev.start := by omega
        exact ⟨fun _ => ⟨by omega, hrange⟩, rfl⟩
      · rintro ⟨h, rfl⟩
        obtain ⟨hsectors, hrange⟩ := h fresh
        exact ⟨_, fun _ => ⟨by omega, hrange⟩, fun hknown => absurd fresh hknown, rfl⟩
    · simp only [if_neg fresh]
      constructor
      · rintro ⟨length, -, hlength, rfl⟩
        obtain rfl := hlength fresh
        exact ⟨fun h => absurd h fresh, rfl⟩
      · rintro ⟨-, rfl⟩
        exact ⟨_, fun h => absurd h fresh, fun _ => rfl, rfl⟩
  · have other : prev.sharesSource e.track = false := Bool.eq_false_iff.mpr same
    have hother : l.Reaches prev e ↔ ∃ total, prev.source.bind Source.length = some total ∧
        prev.skip ≤ total ∧ l.lengthFor prev e < 2 ^ 32 :=
      ⟨fun h => h.other other, fun h => ⟨hgap, fun h => absurd h same, fun _ => h⟩⟩
    rw [if_neg same, placeInNewSource_ok_iff, hother]
    simp only [closedFor, startFor, skipFor, lengthFor, if_neg same]
    constructor
    · rintro ⟨total, htotal, hskip, hrange, rfl⟩
      rw [htotal]
      exact ⟨⟨total, rfl, hskip, hrange⟩, rfl⟩
    · rintro ⟨⟨total, htotal, hskip, hrange⟩, rfl⟩
      rw [htotal] at hrange ⊢
      exact ⟨total, rfl, hskip, hrange, rfl⟩

/-- The last check tells numbers and order apart from the range. -/
theorem check_cases (l : Layout) (prev : Track) (e : Entry) :
    let p : Placement :=
      ⟨l.closedFor prev e, l.startFor prev e, l.skipFor prev e, prev.start + l.lengthFor prev e⟩
    l.Passes prev e ∧ check prev e.track p = .ok p.start ∨
    ¬ l.Passes prev e ∧
      (check prev e.track p =
          .error (.inconsistent e.track.number prev.number p.start p.previousEnd) ∨
        check prev e.track p = .error (.outOfRange e.track.number p.start)) := by
  intro p
  by_cases hpasses : l.Passes prev e
  · exact Or.inl ⟨hpasses, check_ok_iff.mpr
      ⟨hpasses.second, hpasses.number, hpasses.order, hpasses.range, rfl⟩⟩
  · refine Or.inr ⟨hpasses, ?_⟩
    cases hcheck : check prev e.track p with
    | ok start =>
        obtain ⟨hsecond, hnumber, horder, hrange, -⟩ := check_ok_iff.mp hcheck
        exact absurd ⟨hsecond, hnumber, horder, hrange⟩ hpasses
    | error error =>
        unfold check sector at hcheck
        split at hcheck
        · cases hcheck
          exact Or.inl rfl
        · split at hcheck
          · cases hcheck
          · cases hcheck
            exact Or.inr rfl

/-- An entry behind a track is added exactly if it gets to the last check and passes it. -/
theorem place_behind_ok_iff (hl : l.tracks.getLast? = some prev) {m : Layout} :
    l.place e = .ok m ↔ l.Reaches prev e ∧ l.Passes prev e ∧
      m = { l.closedFor prev e with tracks := (l.closedFor prev e).tracks ++
        [{ e.track with start := l.startFor prev e, skip := l.skipFor prev e }] } := by
  obtain ⟨init, htracks⟩ := List.getLast?_eq_some_iff.mp hl
  rw [place_next_ok_iff htracks]
  constructor
  · rintro ⟨hgap, p, hp, hsecond, hnumber, horder, hrange, rfl⟩
    obtain ⟨hreaches, rfl⟩ := (placeAfter_ok_iff hgap).mp hp
    exact ⟨hreaches, ⟨hsecond, hnumber, horder, hrange⟩, rfl⟩
  · rintro ⟨hreaches, hpasses, rfl⟩
    exact ⟨hreaches.gap, _, (placeAfter_ok_iff hreaches.gap).mpr ⟨hreaches, rfl⟩, hpasses.second,
      hpasses.number, hpasses.order, hpasses.range, rfl⟩

/-- **A refused entry.** If it does not get to the last check, nothing has changed, and this is so where
there is no track yet. Otherwise the last track has been closed for it. -/
theorem attempt_of_error {error : LayoutError}
    (h : (l.add e.track e.prestart e.pregap).1 = .error error) :
    l.attempt e = l ∧ (∀ prev ∈ l.tracks.getLast?, ¬ l.Reaches prev e) ∨
    ∃ prev, l.tracks.getLast? = some prev ∧ l.Reaches prev e ∧ ¬ l.Passes prev e ∧
      l.attempt e = l.closedFor prev e ∧
      (error = .inconsistent e.track.number prev.number (l.startFor prev e)
          (prev.start + l.lengthFor prev e) ∨
        error = .outOfRange e.track.number (l.startFor prev e)) := by
  obtain ⟨l', hadd⟩ : ∃ l', l.add e.track e.prestart e.pregap = (.error error, l') := ⟨_, Prod.ext h rfl⟩
  rw [attempt, hadd]
  unfold add at hadd
  dsimp only at hadd
  split at hadd
  · rename_i hgap
    cases hadd
    exact Or.inl ⟨rfl, fun prev _ hreaches => absurd hreaches.gap (Nat.not_le.mpr hgap)⟩
  rename_i hgap
  replace hgap : e.gapStart ≤ e.track.start := Nat.le_of_not_lt hgap
  split at hadd
  · rename_i hl
    split at hadd
    · cases hadd
      refine Or.inl ⟨rfl, fun prev hprev => ?_⟩
      cases hl.symm.trans hprev
    · cases hadd
  · rename_i prev hl
    split at hadd
    · rename_i hplace
      cases hadd
      refine Or.inl ⟨rfl, fun prev' hprev' hreaches => ?_⟩
      cases hl.symm.trans hprev'
      cases hplace.symm.trans ((placeAfter_ok_iff hgap).mpr ⟨hreaches, rfl⟩)
    · rename_i p hplace
      obtain ⟨hreaches, rfl⟩ := (placeAfter_ok_iff hgap).mp hplace
      rcases check_cases l prev e with ⟨-, hcheck⟩ | ⟨hpasses, hcheck⟩
      · rw [hcheck] at hadd
        cases hadd
      · rcases hcheck with hcheck | hcheck
        · rw [hcheck] at hadd
          cases hadd
          exact Or.inr ⟨prev, hl, hreaches, hpasses, rfl, Or.inl rfl⟩
        · rw [hcheck] at hadd
          cases hadd
          exact Or.inr ⟨prev, hl, hreaches, hpasses, rfl, Or.inr rfl⟩

/-- A refused lead-out: either nothing has changed, or the last track has been closed for it. -/
theorem close_of_error {error : LayoutError} (h : l.close.1 = .error error) :
    l.close.2 = l ∧ (∀ last ∈ l.tracks.getLast?, last.number = 255 ∨ ¬ l.Reaches last (closing last)) ∨
    ∃ last, l.tracks.getLast? = some last ∧ last.number ≠ 255 ∧ l.Reaches last (closing last) ∧
      ¬ l.Passes last (closing last) ∧ l.close.2 = l.closedFor last (closing last) := by
  unfold close at h ⊢
  cases hl : l.tracks.getLast? with
  | none => exact Or.inl ⟨rfl, nofun⟩
  | some last =>
      rw [hl] at h
      dsimp only at h ⊢
      by_cases hnumber : last.number = 255
      · rw [if_pos hnumber]
        exact Or.inl ⟨rfl, fun last' hlast' => Or.inl (by cases hlast'; exact hnumber)⟩
      · rw [if_neg hnumber] at h ⊢
        rcases attempt_of_error (e := closing last) h with ⟨hsame, hreaches⟩ |
          ⟨last', hlast', hreaches, hpasses, hclosed, -⟩
        · refine Or.inl ⟨hsame, fun last' hlast' => Or.inr ?_⟩
          cases hlast'
          exact hreaches last hl
        · cases hl.symm.trans hlast'
          exact Or.inr ⟨last, rfl, hnumber, hreaches, hpasses, hclosed⟩

/-- Behind a track with a source, the lead-out is refused for its number or for where it is. -/
theorem passes_closing_iff (hsource : prev.source.isSome = true) :
    l.Passes prev (closing prev) ↔
      1 ≤ prev.number ∧ prev.start + l.lengthFor prev (closing prev) < 2 ^ 32 := by
  obtain ⟨source, hsource⟩ := Option.isSome_iff_exists.mp hsource
  have hother : ¬ prev.sharesSource (closing prev).track = true := by
    simp [Track.sharesSource, closing, leadOut, hsource]
  have hstart : l.startFor prev (closing prev) = prev.start + l.lengthFor prev (closing prev) := by
    rw [startFor, if_neg hother]
    simp [closing, leadOut]
  have hnumber : (closing prev).track.number = prev.number + 1 := rfl
  constructor
  · intro h
    have hsecond := h.second
    have hrange := h.range
    omega
  · rintro ⟨hfirst, hrange⟩
    exact ⟨by omega, hnumber, Nat.le_of_eq hstart.symm, by omega⟩

/-! ### What has changed -/

/-- A layout is what it was only where closing the last track told nothing new. -/
theorem closedFor_eq_iff (hl : l.tracks.getLast? = some prev) :
    l.closedFor prev e = l ↔ l.Unmoved prev e := by
  obtain ⟨init, htracks⟩ := List.getLast?_eq_some_iff.mp hl
  obtain ⟨tracks, shift, inserted⟩ := l
  subst htracks
  have htrack : ∀ n, ({ prev with length := n } : Track) = prev ↔ n = prev.length := fun n =>
    ⟨fun h => congrArg Track.length h, fun h => by rw [h]⟩
  simp only [closedFor, mk.injEq, List.dropLast_concat, List.append_cancel_left_eq, List.cons.injEq,
    and_true, htrack]
  constructor
  · rintro ⟨hlength, hshift, hinserted⟩
    refine ⟨hlength, fun same => ?_, fun other => ?_⟩
    · rw [if_pos same] at hinserted
      omega
    · rw [if_neg (by simp [other])] at hshift hinserted
      unfold Track.endSector
      exact ⟨by omega, hinserted⟩
  · rintro ⟨hlength, hsame, hother⟩
    refine ⟨hlength, ?_, ?_⟩
    · split
      · rfl
      · rename_i other
        have hend := (hother (Bool.eq_false_iff.mpr other)).1
        unfold Track.endSector at hend
        omega
    · split
      · rename_i same
        rw [hsame same, Nat.add_zero]
      · rename_i other
        exact (hother (Bool.eq_false_iff.mpr other)).2

/-! ### Going on -/

variable {next : Entry} {m m' : Layout}

/-- An entry of another source than the last track is accepted or refused as before, since the length of
that track is worked out anew; but sectors that were counted for the refused entry are counted again. -/
theorem place_closedFor_other (hl : l.tracks.getLast? = some prev)
    (other : prev.sharesSource next.track = false) :
    (l.closedFor prev e).place next = .ok m' ↔ ∃ m, l.place next = .ok m ∧
      m' = { m with shift := m.shift + ((l.closedFor prev e).shift - l.shift) } := by
  obtain ⟨init, htracks⟩ := List.getLast?_eq_some_iff.mp hl
  have hclosed : (l.closedFor prev e).tracks = init ++ [{ prev with length := l.lengthFor prev e }] := by
    rw [closedFor, htracks, List.dropLast_concat]
  have hshift : l.shift ≤ (l.closedFor prev e).shift := by
    unfold closedFor
    dsimp only
    split <;> omega
  have hcounted : ∀ n, (l.closedFor prev e).shift + n =
      l.shift + n + ((l.closedFor prev e).shift - l.shift) := by omega
  rw [place_new_ok_iff hclosed other]
  simp only [place_new_ok_iff htracks other]
  constructor
  · rintro ⟨hgap, total, htotal, hskip, length, hlength, hlt, hsecond, hnumber, hrange, rfl⟩
    refine ⟨_, ⟨hgap, total, htotal, hskip, length, hlength, hlt, hsecond, hnumber, hrange, rfl⟩, ?_⟩
    rw [hcounted]
  · rintro ⟨m, ⟨hgap, total, htotal, hskip, length, hlength, hlt, hsecond, hnumber, hrange, rfl⟩, rfl⟩
    refine ⟨hgap, total, htotal, hskip, length, hlength, hlt, hsecond, hnumber, hrange, ?_⟩
    rw [hcounted]

/-- Within the source of the last track, whose length was open, the length that the refused entry gave it
stays. So the next entry ends up where it would have been only if it is stored where the refused one was,
and that one had no pregap. -/
theorem place_closedFor_same (hl : l.tracks.getLast? = some prev) (fresh : prev.length = 0)
    (hsame : prev.sharesSource e.track = true) (hlength : l.lengthFor prev e ≠ 0)
    (hnext : prev.sharesSource next.track = true) (hm : l.place next = .ok m)
    (hm' : (l.closedFor prev e).place next = .ok m') :
    m' = m ↔ next.gapStart = e.gapStart ∧ e.pregap = 0 := by
  obtain ⟨init, htracks⟩ := List.getLast?_eq_some_iff.mp hl
  have hclosed : (l.closedFor prev e).tracks = init ++ [{ prev with length := l.lengthFor prev e }] := by
    rw [closedFor, htracks, List.dropLast_concat]
  have hlast : (l.closedFor prev e).tracks.getLast? =
      some { prev with length := l.lengthFor prev e } := by rw [hclosed, List.getLast?_concat]
  have hnext' : ({ prev with length := l.lengthFor prev e } : Track).sharesSource next.track = true :=
    hnext
  obtain ⟨hreaches, -, rfl⟩ := (place_behind_ok_iff hl).mp hm
  obtain ⟨-, -, rfl⟩ := (place_behind_ok_iff hlast).mp hm'
  obtain ⟨hstored, -⟩ := hreaches.same hnext fresh
  -- the length that was learnt, and the one that would have been
  have hopen : ∀ f : Entry, prev.sharesSource f.track = true →
      l.lengthFor prev f = f.gapStart + l.shift + l.inserted - prev.start := fun f hf => by
    rw [lengthFor, if_pos hf, if_pos fresh]
  have hkept : (l.closedFor prev e).lengthFor { prev with length := l.lengthFor prev e } next =
      l.lengthFor prev e := by
    rw [lengthFor, if_pos hnext', if_neg hlength]
  have hlearnt : l.lengthFor prev e = l.lengthFor prev next ↔ next.gapStart = e.gapStart := by
    rw [hopen e hsame] at hlength ⊢
    rw [hopen next hnext]
    omega
  have hstart : (l.closedFor prev e).startFor { prev with length := l.lengthFor prev e } next =
      l.startFor prev next + e.pregap := by
    simp only [startFor, closedFor, if_pos hnext', if_pos hnext, if_pos hsame]
    omega
  have hbefore : ((l.closedFor prev e).closedFor { prev with length := l.lengthFor prev e } next).tracks =
      init ++ [{ prev with length := l.lengthFor prev e }] := by
    rw [closedFor, hclosed, List.dropLast_concat, hkept]
  have hwithout : (l.closedFor prev next).tracks =
      init ++ [{ prev with length := l.lengthFor prev next }] := by
    rw [closedFor, htracks, List.dropLast_concat]
  rw [mk.injEq, hbefore, hwithout, ← hlearnt, List.append_assoc, List.append_assoc,
    List.append_cancel_left_eq, List.singleton_append, List.singleton_append, List.cons.injEq,
    List.cons.injEq, hstart]
  constructor
  · rintro ⟨⟨hprev, htrack, -⟩, -, -⟩
    have hstarts := congrArg Track.start htrack
    exact ⟨congrArg Track.length hprev, by dsimp only at hstarts; omega⟩
  · rintro ⟨hsectors, hpregap⟩
    have hskip : (l.closedFor prev e).skipFor { prev with length := l.lengthFor prev e } next =
        l.skipFor prev next := by
      rw [skipFor, if_pos hnext', skipFor, if_pos hnext, hkept, hsectors]
    refine ⟨⟨?_, ?_, rfl⟩, ?_, ?_⟩
    · rw [hsectors]
    · rw [hskip, hpregap, Nat.add_zero]
    · simp only [closedFor, if_pos hnext', if_pos hnext, if_pos hsame]
    · simp only [closedFor, if_pos hnext', if_pos hnext, if_pos hsame, hpregap, Nat.add_zero]

/-! ### Refusals -/

/-- **What a refusal leaves behind.** An entry that is refused before the last check leaves everything as
it was. One that fails the last check, of number, order and range, leaves the last track closed for it; then
nothing has changed only if that told nothing new. The same holds of the lead-out, whose number or
place can be refused. What follows within the source of the last track is then where it would have been
without the refused entry only if it is stored where that was; what follows in another source is, but the
sectors of the file that was closed for the refused entry are counted again. -/
theorem refused_leaves (l : Layout) (e : Entry) :
    (∀ error, (l.add e.track e.prestart e.pregap).1 = .error error →
      l.attempt e = l ∧ (∀ prev ∈ l.tracks.getLast?, ¬ l.Reaches prev e) ∨
      ∃ prev, l.tracks.getLast? = some prev ∧ l.Reaches prev e ∧ ¬ l.Passes prev e ∧
        l.attempt e = l.closedFor prev e ∧ (l.attempt e = l ↔ l.Unmoved prev e) ∧
        (error = .inconsistent e.track.number prev.number (l.startFor prev e)
            (prev.start + l.lengthFor prev e) ∨
          error = .outOfRange e.track.number (l.startFor prev e))) ∧
    (∀ error, l.close.1 = .error error →
      l.close.2 = l ∨ ∃ last, l.tracks.getLast? = some last ∧ l.Reaches last (closing last) ∧
        l.close.2 = l.closedFor last (closing last) ∧
        (l.close.2 = l ↔ l.Unmoved last (closing last)) ∧
        (last.source.isSome = true →
          last.number = 0 ∨ 2 ^ 32 ≤ last.start + l.lengthFor last (closing last))) ∧
    (∀ (prev : Track) (next : Entry), l.tracks.getLast? = some prev →
      (prev.length = 0 → prev.sharesSource e.track = true → l.lengthFor prev e ≠ 0 →
        prev.sharesSource next.track = true → ∀ m m', l.place next = .ok m →
          (l.closedFor prev e).place next = .ok m' →
          (m' = m ↔ next.gapStart = e.gapStart ∧ e.pregap = 0)) ∧
      (prev.sharesSource next.track = false → ∀ m', (l.closedFor prev e).place next = .ok m' ↔
        ∃ m, l.place next = .ok m ∧ m' = { m with
          shift := m.shift + (if prev.sharesSource e.track = true then 0
            else prev.start + l.lengthFor prev e) })) := by
  refine ⟨fun error h => ?_, fun error h => ?_, fun prev next hl => ⟨?_, ?_⟩⟩
  · rcases attempt_of_error h with hsame | ⟨prev, hl, hreaches, hpasses, hclosed, herror⟩
    · exact Or.inl hsame
    · refine Or.inr ⟨prev, hl, hreaches, hpasses, hclosed, ?_, herror⟩
      rw [hclosed, closedFor_eq_iff hl]
  · rcases close_of_error h with ⟨hsame, -⟩ | ⟨last, hl, -, hreaches, hpasses, hclosed⟩
    · exact Or.inl hsame
    · refine Or.inr ⟨last, hl, hreaches, hclosed, ?_, fun hsource => ?_⟩
      · rw [hclosed, closedFor_eq_iff hl]
      · rw [passes_closing_iff hsource] at hpasses
        omega
  · intro fresh hsame hlength hnext m m' hm hm'
    exact place_closedFor_same hl fresh hsame hlength hnext hm hm'
  · intro other m'
    rw [place_closedFor_other hl other]
    have hcounted : (l.closedFor prev e).shift - l.shift =
        if prev.sharesSource e.track = true then 0 else prev.start + l.lengthFor prev e := by
      unfold closedFor
      dsimp only
      split <;> omega
    rw [hcounted]

/-- A file of ten sectors. -/
def tenSectors : Source := ⟨0, "a", some (.filled 23520 0), .binary 23520⟩

/-- A track of sound at a sector of that file. -/
def soundAt (number start : Nat) : Entry where
  track := { number, start, sectorSize := 2352, source := some tenSectors }
  prestart := none
  pregap := 0

/-- The first track of that file. -/
def oneTrack : Layout where
  tracks := [(soundAt 1 0).track]

/-- A third track behind the first is refused, but the first one ends at it from then on, and also when a
second track is added that starts later. -/
theorem refused_leaves_oneTrack :
    (oneTrack.add (soundAt 3 1).track none 0).1 = .error (.inconsistent 3 1 1 1) ∧
    oneTrack.attempt (soundAt 3 1) ≠ oneTrack ∧
    (oneTrack.attempt (soundAt 3 1)).tracks.map Track.length = [1] ∧
    ((oneTrack.attempt (soundAt 3 1)).attempt (soundAt 2 4)).tracks.map Track.length = [1, 0] ∧
    (oneTrack.attempt (soundAt 2 4)).tracks.map Track.length = [4, 0] := by
  have herror : (oneTrack.add (soundAt 3 1).track none 0).1 = .error (.inconsistent 3 1 1 1) := by
    decide +kernel
  have hchanged : oneTrack.attempt (soundAt 3 1) ≠ oneTrack := by
    rcases (refused_leaves oneTrack (soundAt 3 1)).1 _ herror with ⟨-, hreaches⟩ |
      ⟨prev, hl, -, -, -, hunmoved, -⟩
    · refine absurd ⟨by decide, ?_, ?_⟩ (hreaches _ rfl)
      · decide +kernel
      · decide +kernel
    · cases hl
      rw [Ne, hunmoved]
      exact fun h => absurd h.length (by decide +kernel)
  exact ⟨herror, hchanged, by decide +kernel, by decide +kernel, by decide +kernel⟩

end CompactDisc.Layout
