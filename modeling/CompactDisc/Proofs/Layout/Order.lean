import CompactDisc.Proofs.Layout.Entry
import Mathlib.Data.List.Chain

/-!
# CompactDisc.Proofs.Layout.Order

**The order of tracks in a layout.** Numbers count up, no track starts before the one ahead of it
ends, and the bytes of neighbours in one source do not overlap, whatever entries were tried and
however many of them failed.

Proof shape: an addition, also one that fails, changes the length of the last track and at most
appends one track behind it (`attempt_cases`). `Track.Before` looks at the length of its first track
only, so the pairs ahead of the last track stay in order for free, and the new pair was checked with
the new length in place.
-/

namespace CompactDisc

/-- One track comes right after another on the disc. -/
structure Track.Precedes (t u : Track) : Prop where
  number : u.number = t.number + 1
  start : t.endSector ≤ u.start

/-- One track comes right after another on the disc and where they are stored. -/
structure Track.Before (t u : Track) : Prop extends t.Precedes u where
  /-- Within a source, the bytes of the first track end before those of the second begin. -/
  within : t.sharesSource u = true → t.skip + t.length * t.sectorSize ≤ u.skip
  /-- The last track of a source has all that is left of it. -/
  whole : t.sharesSource u = false → ∃ total, t.source.bind Source.length = some total ∧
    t.skip ≤ total ∧ t.length = t.sectorsOf (total - t.skip)

/-- Of sources that are numbered in the order of their tracks, one that is shared is the same. -/
theorem Track.source_of_shares {t u : Track} {s : Source}
    (hids : ∀ s ∈ t.source, ∀ s' ∈ u.source, s = s' ∨ s.id < s'.id) (ht : t.source = some s)
    (hshare : t.sharesSource u = true) : u.source = some s := by
  rw [sharesSource, ht, Option.map_some, beq_iff_eq, eq_comm, Option.map_eq_some_iff] at hshare
  obtain ⟨s', hs', hid⟩ := hshare
  rcases hids s ht s' hs' with rfl | hlt
  · exact hs'
  · omega

/-- What a track is, apart from where it is. -/
def Track.unplaced (t : Track) : Track := { t with start := 0, length := 0, skip := 0 }

namespace Layout

/-! ### One addition -/

/-- A placed track is stored behind the previous one, whose length may have been learnt. -/
theorem placeAfter_ok {l : Layout} {init : List Track} {prev t : Track} {gap pregap : Nat}
    {p : Placement} (hl : l.tracks = init ++ [prev])
    (h : l.placeAfter prev t gap pregap = .ok p) :
    ∃ length, p.layout.tracks = init ++ [{ prev with length }] ∧
      p.previousEnd = prev.start + length ∧
      (prev.sharesSource t = true → prev.skip + length * prev.sectorSize ≤ p.skip) ∧
      (prev.sharesSource t = false → ∃ total, prev.source.bind Source.length = some total ∧
        prev.skip ≤ total ∧ length = prev.sectorsOf (total - prev.skip)) := by
  unfold placeAfter at h
  by_cases same : prev.sharesSource t = true
  · rw [if_pos same] at h
    obtain ⟨length, -, -, rfl⟩ := placeInSource_ok_iff.mp h
    exact ⟨length, by simp [setLast, hl], rfl, fun _ => Nat.le_add_right _ _,
      fun other => by simp [same] at other⟩
  · rw [if_neg same] at h
    obtain ⟨total, htotal, hskip, -, rfl⟩ := placeInNewSource_ok_iff.mp h
    exact ⟨_, by simp [setLast, hl], rfl, fun h => absurd h same,
      fun _ => ⟨total, htotal, hskip, rfl⟩⟩

/-- An accepted entry closes the last track, if there is one, and comes right behind it. -/
theorem place_cases {l l' : Layout} {e : Entry} (h : l.place e = .ok l') :
    ∃ start skip,
      (l.tracks = [] ∧ l'.tracks = [{ e.track with start, skip }]) ∨
      ∃ init prev length, l.tracks = init ++ [prev] ∧
        l'.tracks = init ++ [{ prev with length }, { e.track with start, skip }] ∧
        Track.Before { prev with length } { e.track with start, skip } := by
  rcases List.eq_nil_or_concat l.tracks with hl | ⟨init, prev, hl⟩
  · obtain ⟨-, -, rfl⟩ := (place_first_ok_iff hl).mp h
    exact ⟨_, _, Or.inl ⟨hl, rfl⟩⟩
  · rw [List.concat_eq_append] at hl
    obtain ⟨-, p, hp, -, hnumber, hstart, -, rfl⟩ := (place_next_ok_iff hl).mp h
    obtain ⟨length, htracks, hend, hwithin, hwhole⟩ := placeAfter_ok hl hp
    rw [hend] at hstart
    exact ⟨p.start, p.skip, Or.inr ⟨init, prev, length, hl, by simp [htracks],
      ⟨hnumber, hstart⟩, hwithin, hwhole⟩⟩

/-- What trying an entry can leave behind: the layout with the entry, the layout with the length of
its last track changed, or the tracks as they were. -/
theorem attempt_cases (l : Layout) (e : Entry) :
    l.place e = .ok (l.attempt e) ∨ (l.attempt e).tracks = l.tracks ∨
      ∃ init prev length, l.tracks = init ++ [prev] ∧
        (l.attempt e).tracks = init ++ [{ prev with length }] := by
  rcases hadd : l.add e.track e.prestart e.pregap with ⟨error | ⟨⟩, l'⟩
  · right
    rw [attempt, hadd]
    unfold add at hadd
    dsimp only at hadd
    split at hadd
    · cases hadd
      exact Or.inl rfl
    · rcases List.eq_nil_or_concat l.tracks with hl | ⟨init, prev, hl⟩
      · rw [hl, List.getLast?_nil] at hadd
        dsimp only at hadd
        split at hadd <;> cases hadd
        exact Or.inl rfl
      · rw [List.concat_eq_append] at hl
        rw [hl, List.getLast?_concat] at hadd
        dsimp only at hadd
        split at hadd
        · cases hadd
          exact Or.inl rfl
        · rename_i p hp
          obtain ⟨length, htracks, -⟩ := placeAfter_ok hl hp
          -- only here has the last track been changed before the failure was found
          split at hadd <;> cases hadd
          exact Or.inr ⟨init, prev, length, hl, htracks⟩
  · left
    rw [attempt, hadd]
    exact place_eq_of_add hadd

/-! ### All additions -/

/-- The length of a last track is not looked at from ahead. -/
theorem isChain_before_last {init : List Track} {prev : Track} (length : Nat)
    (h : (init ++ [prev]).IsChain Track.Before) :
    (init ++ [{ prev with length }]).IsChain Track.Before := by
  rw [List.isChain_append] at h ⊢
  obtain ⟨hinit, -, hlast⟩ := h
  refine ⟨hinit, List.isChain_singleton _, fun t ht u hu => ?_⟩
  obtain ⟨⟨hnumber, hstart⟩, hwithin, hwhole⟩ := hlast t ht prev rfl
  cases hu
  exact ⟨⟨hnumber, hstart⟩, hwithin, hwhole⟩

theorem isChain_place {l l' : Layout} {e : Entry} (h : l.place e = .ok l')
    (hl : l.tracks.IsChain Track.Before) : l'.tracks.IsChain Track.Before := by
  obtain ⟨start, skip, ⟨-, h⟩ | ⟨init, prev, length, hprev, h, hbefore⟩⟩ := place_cases h
  · rw [h]
    exact List.isChain_singleton _
  · rw [h, List.isChain_append_cons_cons]
    exact ⟨isChain_before_last length (hprev ▸ hl), hbefore, List.isChain_singleton _⟩

/-- Trying an entry keeps the tracks in order. -/
theorem isChain_attempt {l : Layout} (e : Entry) (hl : l.tracks.IsChain Track.Before) :
    (l.attempt e).tracks.IsChain Track.Before := by
  rcases attempt_cases l e with h | h | ⟨init, prev, length, hprev, h⟩
  · exact isChain_place h hl
  · rw [h]
    exact hl
  · rw [h]
    exact isChain_before_last length (hprev ▸ hl)

/-- **Order after any attempts.** Whatever entries are tried, and whichever of them fail, the tracks
laid out are in order. -/
theorem isChain_attempts (es : List Entry) {l : Layout} (hl : l.tracks.IsChain Track.Before) :
    (es.foldl attempt l).tracks.IsChain Track.Before := by
  induction es generalizing l with
  | nil => exact hl
  | cons e es ih => exact ih (isChain_attempt e hl)

theorem isChain_extend {l l' : Layout} {es : List Entry} (h : l.extend es = .ok l')
    (hl : l.tracks.IsChain Track.Before) : l'.tracks.IsChain Track.Before :=
  extend_induction h hl fun _ _ _ _ hl h => isChain_place h hl

/-! ### What stays as it is -/

/-- A placed track is the track of its entry. -/
theorem unplaced_place {l l' : Layout} {e : Entry} (h : l.place e = .ok l') :
    l'.tracks.map Track.unplaced = l.tracks.map Track.unplaced ++ [e.track.unplaced] := by
  obtain ⟨start, skip, ⟨hl, h⟩ | ⟨init, prev, length, hl, h, -⟩⟩ := place_cases h
  · simp [hl, h, Track.unplaced]
  · simp [hl, h, Track.unplaced]

/-- The tracks of a layout are those of its entries, in order. -/
theorem unplaced_extend {l l' : Layout} {es : List Entry} (h : l.extend es = .ok l') :
    l'.tracks.map Track.unplaced =
      l.tracks.map Track.unplaced ++ es.map fun e => e.track.unplaced := by
  induction es generalizing l with
  | nil =>
      cases h
      simp
  | cons e es ih =>
      obtain ⟨m, hm, h⟩ := extend_cons_ok_iff.mp h
      rw [ih h, unplaced_place hm]
      simp

/-- There is a track for each entry. -/
theorem length_extend {l l' : Layout} {es : List Entry} (h : l.extend es = .ok l') :
    l'.tracks.length = l.tracks.length + es.length := by
  simpa using congrArg List.length (unplaced_extend h)

/-! ### The lead-out -/

/-- Closing a layout puts the lead-out behind the last track: right behind it, if that track has a
source. -/
theorem finish_cases {l : Layout} {tracks : List Track} (h : l.finish = .ok tracks) :
    ∃ init last length start skip, l.tracks = init ++ [last] ∧
      tracks = init ++ [{ last with length }, { leadOut last with start, skip }] ∧
      Track.Before { last with length } { leadOut last with start, skip } ∧
      (last.source.isSome → start = last.start + length) := by
  rcases List.eq_nil_or_concat l.tracks with hl | ⟨init, last, hl⟩
  · rw [finish_of_empty hl] at h
    cases h
  · rw [List.concat_eq_append] at hl
    obtain ⟨-, l', hl', rfl⟩ := (finish_ok_iff hl).mp h
    obtain ⟨start, skip, ⟨hnil, -⟩ | ⟨init', last', length, hl'', htracks, hbefore⟩⟩ :=
      place_cases hl'
    · simp [hl] at hnil
    · obtain ⟨rfl, hlast⟩ := List.append_inj' (hl.symm.trans hl'') rfl
      cases hlast
      refine ⟨init, last, length, start, skip, hl, htracks, hbefore, fun hsome => ?_⟩
      obtain ⟨source, hsource⟩ := Option.isSome_iff_exists.mp hsome
      have other : last.sharesSource (closing last).track = false := by
        simp [Track.sharesSource, closing, leadOut, hsource]
      obtain ⟨-, -, -, -, length', -, -, -, -, -, rfl⟩ := (place_new_ok_iff hl other).mp hl'
      simp only [List.append_cancel_left_eq, List.cons.injEq, Track.mk.injEq] at htracks
      simp only [closing, leadOut] at htracks
      omega

/-- **A disc from entries** is in order. It has the tracks of its entries, and a lead-out that
starts where the last of them ends. -/
theorem ofEntries_cases {es : List Entry} {tracks : List Track} (h : ofEntries es = .ok tracks) :
    ∃ init last out, tracks = init ++ [last, out] ∧ tracks.IsChain Track.Before ∧
      (init ++ [last]).map Track.unplaced = es.map (fun e => e.track.unplaced) ∧
      out.length = 0 ∧ out.source = none ∧ out.attr = audioAttr ∧
      (last.source.isSome → out.start = last.endSector) := by
  obtain ⟨l, hl, hf⟩ := ofEntries_ok_iff.mp h
  obtain ⟨init, last, length, start, skip, htracks, rfl, hbefore, hstart⟩ := finish_cases hf
  have hchain := isChain_extend hl List.isChain_nil
  rw [htracks] at hchain
  refine ⟨init, _, _, rfl, ?_, ?_, rfl, rfl, rfl, hstart⟩
  · rw [List.isChain_append_cons_cons]
    exact ⟨isChain_before_last length hchain, hbefore, List.isChain_singleton _⟩
  · have hunplaced := unplaced_extend hl
    rw [htracks] at hunplaced
    simpa [Track.unplaced, empty] using hunplaced

/-- There is a track for each entry, and the lead-out. -/
theorem length_ofEntries {es : List Entry} {tracks : List Track} (h : ofEntries es = .ok tracks) :
    tracks.length = es.length + 1 := by
  obtain ⟨init, last, out, rfl, -, hunplaced, -⟩ := ofEntries_cases h
  have hlength := congrArg List.length hunplaced
  simp only [List.length_map, List.length_append, List.length_cons, List.length_nil] at hlength ⊢
  omega

end Layout

end CompactDisc
