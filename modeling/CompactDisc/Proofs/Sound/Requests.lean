import CompactDisc.Proofs.Sound.Effect

/-!
# CompactDisc.Proofs.Sound.Requests

**Which requests for sound are granted, and what becomes of the others.** A request has to pass seven
checks, the last of which is made by the source itself when it is moved to the first byte that is to be
heard. `Deck.Grants` says what all of them ask for, and `Deck.Refuses` which failure is reported: that of
the first check that is not passed. Whatever the state of the player, exactly one of the two applies
(`Deck.grants_or_refuses`).

Design points:

* The byte that the source is moved to is where the first sector is stored, and the start of the track
  for a sector before it. No bound has to be put on it, since the owner of a sector ends after it.
* A request that is refused has the effect of stopping and no other.
-/

namespace CompactDisc

/-- The byte at which a sector of a track is stored; for a sector before the track, its first byte. -/
def Track.byteAt (t : Track) (sector : Nat) : Nat := t.skip + (sector - t.start) * t.sectorSize

namespace Deck

/-- What a request needs: sectors, an owner of the first one that has sound and a source, an output, and a
sector of that track; and the source has to go where the first sector is stored. -/
structure Grants (d : Deck) (medium : Medium) (start length : Nat) (t : Track) (s : Source) : Prop where
  sectors : 0 < length
  owner : medium.disc.track? start = some t
  sound : t.isData = false
  source : t.source = some s
  output : d.player.channel.isSome = true
  reached : t.start < start + length
  seek : (d.cursors.seek s (t.byteAt start)).1 = .ok ()

/-- How a request fails: at the first check that it does not pass. -/
inductive Refuses (d : Deck) (medium : Medium) (start length : Nat) : PlayerError → Prop
  | sectors : length = 0 → Refuses d medium start length .emptyRequest
  | owner : 0 < length → medium.disc.track? start = none →
      Refuses d medium start length (.sectorNotFound start)
  | sound {t : Track} : 0 < length → medium.disc.track? start = some t → t.isData = true →
      Refuses d medium start length (.dataTrack t.number)
  | source {t : Track} : 0 < length → medium.disc.track? start = some t → t.isData = false →
      t.source = none → Refuses d medium start length (.noSource t.number)
  | output {t : Track} : 0 < length → medium.disc.track? start = some t → t.isData = false →
      t.source.isSome = true → d.player.channel = none → Refuses d medium start length .noChannel
  | reached {t : Track} : 0 < length → medium.disc.track? start = some t → t.isData = false →
      t.source.isSome = true → d.player.channel.isSome = true → start + length ≤ t.start →
      Refuses d medium start length (.pregapOnly t.number start (start + length))
  | seek {t : Track} {s : Source} {e : SourceError} : 0 < length →
      medium.disc.track? start = some t → t.isData = false → t.source = some s →
      d.player.channel.isSome = true → t.start < start + length →
      (d.cursors.seek s (t.byteAt start)).1 = .error e →
      Refuses d medium start length (.seek t.number (t.byteAt start) e)

end Deck

/-- The owner of a sector ends after it. -/
theorem Disc.lt_endSector_of_search {sector lower : Nat} {ts : List Track} {t : Track}
    (h : search sector lower ts = some t) : sector < t.endSector := by
  induction ts generalizing lower with
  | nil => cases h
  | cons u rest ih =>
      rw [search] at h
      split at h
      · rename_i hinside
        cases h
        exact hinside.2
      · exact ih h

theorem Disc.lt_endSector_of_track? {d : Disc} {sector : Nat} {t : Track}
    (h : d.track? sector = some t) : sector < t.endSector := by
  unfold track? at h
  split at h
  · split at h
    · cases h
    · exact lt_endSector_of_search h
  · cases h

namespace Track

variable {t : Track} {sector : Nat}

/-- A sector that the track ends after is at most its last one. -/
theorem byteAt_eq (h : sector < t.endSector) :
    t.byteAt sector = t.skip + min (sector - t.start) (t.length - 1) * t.sectorSize := by
  unfold endSector at h
  rw [byteAt, Nat.min_eq_left (by omega)]

/-- Where a sector is stored, all of it is of the track. -/
theorem byteAt_le (h : sector < t.endSector) (hlength : t.length ≠ 0) :
    t.byteAt sector + t.sectorSize ≤ t.skip + t.length * t.sectorSize := by
  unfold endSector at h
  have hsectors : sector - t.start + 1 ≤ t.length := by omega
  calc t.byteAt sector + t.sectorSize = t.skip + (sector - t.start + 1) * t.sectorSize := by
        rw [byteAt, Nat.add_mul, Nat.one_mul, Nat.add_assoc]
    _ ≤ t.skip + t.length * t.sectorSize :=
        Nat.add_le_add_left (Nat.mul_le_mul_right _ hsectors) _

end Track

namespace Deck

variable {d : Deck} {medium : Medium} {start length : Nat} {t : Track} {s : Source}

/-- The plan of a request that is granted. -/
def granted (start length : Nat) (t : Track) (s : Source) : Plan where
  track := t
  source := s
  start := max start t.start
  length := length - (t.start - start)
  offset := t.byteAt start

/-- A request that gets as far as its source has this plan. -/
theorem find_granted (hsectors : 0 < length) (howner : medium.disc.track? start = some t)
    (hsound : t.isData = false) (hsource : t.source = some s)
    (houtput : d.player.channel.isSome = true) (hreached : t.start < start + length) :
    Plan.find medium.disc d.player.channel.isSome start length = .ok (granted start length t s) := by
  refine Plan.find_ok_iff.mpr
    ⟨hsectors, houtput, t, s, howner, hsound, hsource, hreached, ?_⟩
  rw [← Track.byteAt_eq (Disc.lt_endSector_of_track? howner)]
  rfl

/-- A request that is granted is planned and played so. -/
theorem Grants.play (h : d.Grants medium start length t s) :
    d.play medium start length = (.ok (), d.began medium (granted start length t s)) :=
  play_of_plan (find_granted h.sectors h.owner h.sound h.source h.output h.reached) h.seek

/-- Without a plan a request fails for the reason that there is none. -/
theorem play_of_find_error {e : PlayerError}
    (h : Plan.find medium.disc d.player.channel.isSome start length = .error e) :
    (d.play medium start length).1 = .error e := by
  rw [play, beginSegment, h]

/-- A request that is refused fails so. -/
theorem Refuses.play {e : PlayerError} (h : d.Refuses medium start length e) :
    (d.play medium start length).1 = .error e := by
  cases h with
  | sectors hlength =>
      refine play_of_find_error ?_
      rw [Plan.find, if_pos hlength]
      rfl
  | owner hlength howner =>
      refine play_of_find_error ?_
      rw [Plan.find, if_neg (Nat.ne_of_gt hlength), howner]
      rfl
  | sound hlength howner hdata =>
      refine play_of_find_error ?_
      rw [Plan.find, if_neg (Nat.ne_of_gt hlength), howner]
      simp only [hdata]
      rfl
  | source hlength howner hsound hsource =>
      refine play_of_find_error ?_
      rw [Plan.find, if_neg (Nat.ne_of_gt hlength), howner]
      simp only [hsound, hsource]
      rfl
  | output hlength howner hsound hsource hchannel =>
      obtain ⟨s, hs⟩ := Option.isSome_iff_exists.mp hsource
      refine play_of_find_error ?_
      rw [Plan.find, if_neg (Nat.ne_of_gt hlength), howner]
      simp only [hsound, hs, hchannel]
      rfl
  | reached hlength howner hsound hsource hchannel hgap =>
      rename_i t
      obtain ⟨s, hs⟩ := Option.isSome_iff_exists.mp hsource
      have hshort : 0 < t.start - start ∧ length ≤ t.start - start := by omega
      refine play_of_find_error ?_
      rw [Plan.find, if_neg (Nat.ne_of_gt hlength), howner]
      simp only [hsound, hs, hchannel, if_pos hshort]
      rfl
  | seek hlength howner hsound hsource hchannel hreached hseek =>
      rename_i t s e
      have hfind := find_granted hlength howner hsound hsource hchannel hreached
      unfold Deck.play beginSegment
      rw [hfind]
      dsimp only [granted]
      rcases hresult : d.cursors.seek s (t.byteAt start) with ⟨e' | ⟨⟩, cursors⟩
      · rw [hresult] at hseek
        cases hseek
        rfl
      · rw [hresult] at hseek
        cases hseek

/-- Every request is granted or refused. -/
theorem grants_or_refuses (d : Deck) (medium : Medium) (start length : Nat) :
    (∃ t s, d.Grants medium start length t s) ∨ ∃ e, d.Refuses medium start length e := by
  rcases Nat.eq_zero_or_pos length with hlength | hlength
  · exact Or.inr ⟨_, .sectors hlength⟩
  cases howner : medium.disc.track? start with
  | none => exact Or.inr ⟨_, .owner hlength howner⟩
  | some t =>
      cases hdata : t.isData with
      | true => exact Or.inr ⟨_, .sound hlength howner hdata⟩
      | false =>
          cases hsource : t.source with
          | none => exact Or.inr ⟨_, .source hlength howner hdata hsource⟩
          | some s =>
              have hsome : t.source.isSome = true := Option.isSome_of_eq_some hsource
              cases hchannel : d.player.channel with
              | none => exact Or.inr ⟨_, .output hlength howner hdata hsome hchannel⟩
              | some id =>
                  have houtput : d.player.channel.isSome = true := Option.isSome_of_eq_some hchannel
                  rcases Nat.lt_or_ge t.start (start + length) with hreached | hgap
                  · cases hseek : (d.cursors.seek s (t.byteAt start)).1 with
                    | ok =>
                        exact Or.inl ⟨t, s, hlength, howner, hdata, hsource, houtput, hreached, hseek⟩
                    | error e =>
                        exact Or.inr ⟨_, .seek hlength howner hdata hsource houtput hreached hseek⟩
                  · exact Or.inr ⟨_, .reached hlength howner hdata hsome houtput hgap⟩

/-- **A request for sound**, in any state of the player. It is accepted exactly if it is granted, and it
fails exactly as it is refused. When it is accepted, the source is at the byte where the first sector is
stored, which is within the track unless that is empty; the segment goes from there, or from the start of
the track if that comes later, to the end of the request, and nothing of it has been played; the player
plays, and its output is on, at the rate of the source. When it fails, the player is stopped and its
output is off, and the segment and the cursors of all sources are what they were. -/
theorem play_request (d : Deck) (medium : Medium) (start length : Nat) :
    let played := d.play medium start length
    (played.1 = .ok () ↔ ∃ t s, d.Grants medium start length t s) ∧
    (∀ e, played.1 = .error e ↔ d.Refuses medium start length e) ∧
    (∀ t s, d.Grants medium start length t s →
      (t.length ≠ 0 → t.skip ≤ t.byteAt start ∧
        t.byteAt start + t.sectorSize ≤ t.skip + t.length * t.sectorSize) ∧
      (∃ segment : Segment,
        played.2.player =
          { d.player with segment := some segment, playing := true, paused := false } ∧
        segment.medium = medium ∧ segment.source = s ∧ segment.start = max start t.start ∧
        segment.start + segment.length = start + length ∧ 0 < segment.length ∧
        segment.total = divUp (s.rate * segment.length) 75 ∧ segment.played = 0) ∧
      played.2.channel? = d.channel?.map (fun c => { c with rate := s.rate, enabled := true }) ∧
      played.2.cursors = (d.cursors.seek s (t.byteAt start)).2) ∧
    (∀ e, played.1 = .error e →
      played.2.player = { d.player with playing := false, paused := false } ∧
      played.2.channel? = d.channel?.map (fun c => { c with enabled := false }) ∧
      played.2.cursors = d.cursors) := by
  intro played
  have hrefused : ∀ {e}, played.1 = .error e → played.2 = d.stop := play_of_error
  refine ⟨⟨fun hok => ?_, fun ⟨t, s, h⟩ => congrArg Prod.fst h.play⟩, fun e => ⟨fun he => ?_, Refuses.play⟩,
    fun t s h => ?_, fun e he => ?_⟩
  · rcases grants_or_refuses d medium start length with hgrants | ⟨e, hrefuses⟩
    · exact hgrants
    · exact nomatch hok.symm.trans hrefuses.play
  · rcases grants_or_refuses d medium start length with ⟨t, s, hgrants⟩ | ⟨e', hrefuses⟩
    · exact nomatch he.symm.trans (congrArg Prod.fst hgrants.play)
    · cases he.symm.trans hrefuses.play
      exact hrefuses
  · have hbegan : played.2 = d.began medium (granted start length t s) := congrArg Prod.snd h.play
    have hreached := h.reached
    refine ⟨fun hlength => ⟨Nat.le_add_right _ _, ?_⟩, ⟨(granted start length t s).segment medium, ?_,
      rfl, rfl, rfl, ?_, ?_, rfl, rfl⟩, ?_, ?_⟩
    · exact Track.byteAt_le (Disc.lt_endSector_of_track? h.owner) hlength
    · rw [hbegan, player_began]
    · show max start t.start + (length - (t.start - start)) = start + length
      omega
    · show 0 < length - (t.start - start)
      have hsectors := h.sectors
      omega
    · rw [hbegan, channel?_began]
      rfl
    · rw [hbegan, cursors_began]
      rfl
  · rw [hrefused he]
    exact ⟨player_stop d, channel?_stop d, cursors_stop d⟩

end Deck

/-- A file of five sectors. -/
def Source.fiveSectors : Source := ⟨0, "a", some (.filled 11760 1), .binary 11760⟩

/-- A track of three sectors behind a gap of two, one of which is stored. -/
def Track.behindGap : Track where
  number := 2
  start := 3
  length := 3
  skip := 4704
  sectorSize := 2352
  source := some .fiveSectors

/-- The disc with this track, and one of one sector before the gap. -/
def Disc.behindGap : Disc where
  tracks := [
    { number := 1, length := 1, sectorSize := 2352, source := some .fiveSectors },
    .behindGap,
    { number := 3, start := 6, sectorSize := 2352 }]

namespace Deck

/-- A new player, and one source that it knows. -/
def ofOneSource : Deck := { attached with cursors := ⟨[0]⟩ }

/-- The player when the track has been asked for from a sector of the gap on. -/
def intoGap : Deck := (ofOneSource.play ⟨0, .behindGap⟩ 1 4).2

/-- The request is granted and begins with the track. The next one, which ends where the track begins, is
refused and stops the player, but the segment and the cursor are still those of the first. -/
theorem play_request_behindGap :
    ofOneSource.Grants ⟨0, .behindGap⟩ 1 4 .behindGap .fiveSectors ∧
    (ofOneSource.play ⟨0, .behindGap⟩ 1 4).1 = .ok () ∧ intoGap.cursors.get 0 = 4704 ∧
    (intoGap.play ⟨0, .behindGap⟩ 1 2).1 = .error (.pregapOnly 2 1 3) ∧
    (intoGap.play ⟨0, .behindGap⟩ 1 2).2.player =
      { intoGap.player with playing := false, paused := false } ∧
    (intoGap.play ⟨0, .behindGap⟩ 1 2).2.cursors = intoGap.cursors := by
  have hgrants : ofOneSource.Grants ⟨0, .behindGap⟩ 1 4 .behindGap .fiveSectors := by
    refine ⟨by decide, rfl, by decide, rfl, by decide, by decide, rfl⟩
  obtain ⟨hok, -, hgranted, -⟩ := play_request ofOneSource ⟨0, .behindGap⟩ 1 4
  obtain ⟨-, -, -, hcursors⟩ := hgranted _ _ hgrants
  obtain ⟨-, hrefused, -, hstopped⟩ := play_request intoGap ⟨0, .behindGap⟩ 1 2
  have hrefuses : intoGap.Refuses ⟨0, .behindGap⟩ 1 2 (.pregapOnly 2 1 3) :=
    .reached (t := .behindGap) (by decide) rfl (by decide) rfl (by decide +kernel) (by decide)
  have herror := (hrefused _).mpr hrefuses
  obtain ⟨hplayer, -, hkept⟩ := hstopped _ herror
  refine ⟨hgrants, hok.mpr ⟨_, _, hgrants⟩, ?_, herror, hplayer, hkept⟩
  rw [intoGap, hcursors]
  decide +kernel

end Deck

end CompactDisc
