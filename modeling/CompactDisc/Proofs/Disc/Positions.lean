import CompactDisc.Proofs.Disc.Owner

/-!
# CompactDisc.Proofs.Disc.Positions

**The positions that a disc reports.** A position has a byte for its minute, so it tells a sector only
up to `Msf.period`, the 256 minutes after which it begins again. Below that positions and sectors
correspond to each other; a disc may be longer, since a sheet may leave any gap before a track and a
bare image may be as large as its file. Where the lead-out is so far that its place behind the lead-in has
no number, a position may even be off by another amount than whole periods.

Proof shape: every query reports `Msf.absolute` of some sector (`Disc.Reports`), and no such sector is
behind the start of the lead-out (`Disc.Closed.sector_le`), so the lead-out decides for all of them.
-/

namespace CompactDisc

namespace Msf

/-- The number of frames after which positions begin again. -/
def period : Nat := 256 * RedBook.framesPerMinute

/-- What is left of a number of frames in its position. -/
theorem toFrames_ofFrames (n : Nat) : (ofFrames n).toFrames = n % period := by
  simp only [toFrames, ofFrames, period, RedBook.framesPerMinute, RedBook.framesPerSecond,
    UInt8.toNat_ofNat']
  omega

/-- Positions of frame counts are the same if they are a whole number of periods apart. -/
theorem ofFrames_eq_iff {m n : Nat} : ofFrames m = ofFrames n ↔ m % period = n % period := by
  constructor
  · intro h
    rw [← toFrames_ofFrames, h, toFrames_ofFrames]
  · intro h
    have hminute : m / RedBook.framesPerMinute % 256 = n / RedBook.framesPerMinute % 256 := by
      simp only [period, RedBook.framesPerMinute] at h ⊢
      omega
    have hsecond : m % RedBook.framesPerMinute = n % RedBook.framesPerMinute := by
      simp only [period, RedBook.framesPerMinute] at h ⊢
      omega
    have hframe : m % RedBook.framesPerSecond = n % RedBook.framesPerSecond := by
      simp only [period, RedBook.framesPerMinute, RedBook.framesPerSecond] at h ⊢
      omega
    simp only [ofFrames, hsecond, hframe, mk.injEq, and_true]
    rw [← UInt8.toNat_inj, UInt8.toNat_ofNat', UInt8.toNat_ofNat']
    exact hminute

/-- A well-formed position of a sector, as far as positions go. -/
structure Marks (p : Msf) (sector : Nat) : Prop where
  frames : p.toFrames = (sector + RedBook.leadIn) % period
  second : p.second.toNat < 60
  frame : p.frame.toNat < 75

/-- As far as there are numbers, the lead-in is added. -/
theorem absolute_of_lt {sector : Nat} (h : sector + RedBook.leadIn < RedBook.sectorNumbers) :
    absolute sector = ofFrames (sector + RedBook.leadIn) := by
  rw [absolute, Nat.mod_eq_of_lt h]

theorem marks_absolute {sector : Nat} (h : sector + RedBook.leadIn < RedBook.sectorNumbers) :
    (absolute sector).Marks sector where
  frames := by rw [absolute_of_lt h, toFrames_ofFrames]
  second := second_ofFrames_lt _
  frame := frame_ofFrames_lt _

/-- A sector comes back from its position exactly if it lies in the first period. -/
theorem toFrames_absolute_iff {sector : Nat} :
    (absolute sector).toFrames = sector + RedBook.leadIn ↔ sector + RedBook.leadIn < period := by
  constructor
  · intro h
    rw [← h, absolute, toFrames_ofFrames]
    exact Nat.mod_lt _ (by decide)
  · intro h
    rw [absolute_of_lt (Nat.lt_trans h (by decide)), toFrames_ofFrames, Nat.mod_eq_of_lt h]

theorem absolute_eq_iff {sector sector' : Nat}
    (h : sector + RedBook.leadIn < RedBook.sectorNumbers)
    (h' : sector' + RedBook.leadIn < RedBook.sectorNumbers) :
    absolute sector = absolute sector' ↔ sector % period = sector' % period := by
  rw [absolute_of_lt h, absolute_of_lt h', ofFrames_eq_iff]
  simp only [period, RedBook.framesPerMinute, RedBook.leadIn]
  omega

end Msf

/-! ### What a disc reports -/

namespace Disc

/-- A position that a disc reports, and the sector that it stands for. -/
inductive Reports (d : Disc) : Msf → Nat → Prop
  | leadOut {range : TrackRange} {out : Track} (h : d.trackRange? = some range)
    (hout : d.leadOut? = some out) : Reports d range.leadOut out.start
  | track {n : Nat} {info : TrackInfo} {t : Track} (h : d.trackInfo? n = some info)
    (ht : d.tracks[n - 1]? = some t) : Reports d info.start t.start
  | player {first : Track} (position : Option Nat) (h : d.tracks.head? = some first) :
    Reports d (d.subchannel position).absolute (d.reported first position).2.1

variable {d : Disc}

/-- Whatever is reported is the position of its sector. -/
theorem Reports.eq_absolute {p : Msf} {sector : Nat} (h : d.Reports p sector) :
    p = Msf.absolute sector := by
  cases h with
  | leadOut h hout =>
      unfold trackRange? at h
      split at h
      · cases h
      · rw [hout] at h
        cases h
        rfl
  | track h ht =>
      unfold trackInfo? at h
      split at h
      · cases h
      · rw [ht] at h
        cases h
        rfl
  | player position h =>
      unfold subchannel
      rw [h]

/-- The sector that is reported for an owned position is that position. -/
theorem reported_of_owned {first t : Track} {sector : Nat} (h : d.track? sector = some t) :
    d.reported first (some sector) = (t, sector, sector - t.start) := by
  rw [reported, h]

/-- No track starts behind the lead-out. -/
theorem Closed.start_le {out : Track} (h : d.Closed) (hout : d.leadOut? = some out) {t : Track}
    (ht : t ∈ d.tracks) : t.start ≤ out.start := by
  have : IsTrans Track fun t u => t.start ≤ u.start := ⟨fun _ _ _ => Nat.le_trans⟩
  have hchain : d.tracks.IsChain fun t u => t.start ≤ u.start :=
    h.ordered.imp fun t u h => Nat.le_trans (Nat.le_add_right _ _) h.start
  obtain ⟨init, heq⟩ := List.getLast?_eq_some_iff.mp hout
  rw [heq] at hchain ht
  rcases List.mem_append.mp ht with ht | ht
  · exact (List.pairwise_append.mp hchain.pairwise).2.2 t ht out (by simp)
  · rw [List.mem_singleton.mp ht]

/-- No sector behind the start of the lead-out is reported. -/
theorem Closed.sector_le {out : Track} (h : d.Closed) (hout : d.leadOut? = some out) {p : Msf}
    {sector : Nat} (hreports : d.Reports p sector) : sector ≤ out.start := by
  cases hreports with
  | leadOut hrange hout' =>
      cases hout.symm.trans hout'
      exact Nat.le_refl _
  | track hinfo ht => exact h.start_le hout (List.mem_of_getElem? ht)
  | @player first position hfirst =>
      have hmem : first ∈ d.tracks := List.mem_of_head? hfirst
      cases position with
      | none =>
          cases hfind : d.tracks.find? Track.isAudio with
          | none => simpa [reported, hfind] using h.start_le hout hmem
          | some t => simpa [reported, hfind] using h.start_le hout (List.mem_of_find?_eq_some hfind)
      | some sector =>
          cases hown : d.track? sector with
          | none => simpa [reported, hown] using h.start_le hout hmem
          | some t =>
              rw [reported_of_owned hown]
              exact Nat.le_of_lt (h.lt_leadOut hown hout)

/-- An owned sector always comes back from what is reported for it. -/
theorem Closed.toFrames_subchannel {t : Track} {sector : Nat} (h : d.Closed)
    (hown : d.track? sector = some t) :
    (d.subchannel (some sector)).absolute.toFrames = sector + RedBook.leadIn := by
  have hinside := inside_of_track? h.sequential hown
  obtain ⟨first, hfirst⟩ : ∃ first, d.tracks.head? = some first := by
    cases hd : d.tracks with
    | nil => simp [track?, hd] at hown
    | cons first rest => exact ⟨first, rfl⟩
  have hreports := Reports.player (some sector) hfirst
  rw [reported_of_owned hown] at hreports
  rw [hreports.eq_absolute, Msf.toFrames_absolute_iff]
  have haddress : sector ≤ RedBook.lastSector := Nat.le_of_not_lt fun hlt => hinside (Or.inl hlt)
  exact Nat.lt_of_le_of_lt (Nat.add_le_add_right haddress _) (by decide)

/-- Every query is answered: for the lead-out, for the tracks that can be asked for, and for the
player wherever it is. -/
theorem Closed.answers (h : d.Closed) :
    (∃ range out, d.trackRange? = some range ∧ d.leadOut? = some out) ∧
    (∀ n, (∃ info t, d.trackInfo? n = some info ∧ d.tracks[n - 1]? = some t) ↔
      1 ≤ n ∧ n ≤ RedBook.maxTracks ∧ n < d.tracks.length) ∧
    ∃ first, d.tracks.head? = some first := by
  obtain ⟨init, last, out, heq, -⟩ := h.eq_append
  have hout : d.leadOut? = some out := by
    rw [leadOut?, heq, List.append_cons, List.getLast?_concat]
  have hguard : ¬ d.tracks.length < RedBook.minEntries := Nat.not_lt.mpr h.enough
  refine ⟨⟨_, out, by rw [trackRange?, if_neg hguard, hout, Option.map_some], hout⟩, fun n => ?_,
    ?_⟩
  · constructor
    · rintro ⟨info, t, hinfo, -⟩
      unfold trackInfo? at hinfo
      split at hinfo
      · cases hinfo
      · omega
    · intro hn
      have ht : d.tracks[n - 1]? = some d.tracks[n - 1] := List.getElem?_eq_getElem (by omega)
      exact ⟨_, _, by rw [trackInfo?, if_neg (by omega), ht, Option.map_some], ht⟩
  · cases hd : d.tracks with
    | nil => simp [hd] at heq
    | cons first rest => exact ⟨first, rfl⟩

end Disc

namespace Drive

variable {drive : Drive} {lib : Library} {path : String} {d : Deck}

/-- **Reported positions.** Every query of a loaded disc is answered. All positions give their sector back
exactly if that of the lead-out does. As long as the place of the lead-out behind the lead-in fits into 32
bits, what is reported is a well-formed position of its sector, as far as the minute goes, and two of them
are the same exactly if their sectors are a whole number of periods apart. A sector that has an owner always
comes back. -/
theorem reports_of_insert (h : (drive.insert lib path d).1 = .ok ()) :
    ∃ disc out, (drive.insert lib path d).2.1.disc = disc ∧ disc.leadOut? = some out ∧
      (∃ range, disc.trackRange? = some range ∧ disc.Reports range.leadOut out.start) ∧
      (∀ n, 1 ≤ n → n ≤ RedBook.maxTracks → n < disc.tracks.length → ∃ info t,
        disc.trackInfo? n = some info ∧ disc.tracks[n - 1]? = some t ∧
          disc.Reports info.start t.start) ∧
      (∀ position, ∃ sector, disc.Reports (disc.subchannel position).absolute sector) ∧
      ((∀ p sector, disc.Reports p sector → p.toFrames = sector + RedBook.leadIn) ↔
        out.start + RedBook.leadIn < Msf.period) ∧
      (out.start + RedBook.leadIn < 2 ^ 32 →
        (∀ p sector, disc.Reports p sector → p.Marks sector) ∧
        ∀ p sector p' sector', disc.Reports p sector → disc.Reports p' sector' →
          (p = p' ↔ sector % Msf.period = sector' % Msf.period)) ∧
      ∀ sector t, disc.track? sector = some t →
        (disc.subchannel (some sector)).absolute.toFrames = sector + RedBook.leadIn := by
  have hclosed := (loaded_of_insert h).closed
  generalize (drive.insert lib path d).2.1.disc = disc at hclosed ⊢
  obtain ⟨⟨range, out, hrange, hout⟩, hinfo, first, hfirst⟩ := hclosed.answers
  have hleadOut := Disc.Reports.leadOut hrange hout
  refine ⟨disc, out, rfl, hout, ⟨range, hrange, hleadOut⟩, fun n hpos hmax hlast => ?_,
    fun position => ⟨_, .player position hfirst⟩, ?_, fun hfits => ?_,
    fun sector t ht => hclosed.toFrames_subchannel ht⟩
  · obtain ⟨info, t, hn, ht⟩ := (hinfo n).mpr ⟨hpos, hmax, hlast⟩
    exact ⟨info, t, hn, ht, .track hn ht⟩
  · constructor
    · intro hall
      have hframes := hall _ _ hleadOut
      rw [hleadOut.eq_absolute] at hframes
      exact Msf.toFrames_absolute_iff.mp hframes
    · intro hlt p sector hp
      have hle := hclosed.sector_le hout hp
      rw [hp.eq_absolute]
      exact Msf.toFrames_absolute_iff.mpr (by omega)
  · have hlt (p : Msf) (sector : Nat) (hp : disc.Reports p sector) :
        sector + RedBook.leadIn < RedBook.sectorNumbers :=
      Nat.lt_of_le_of_lt (Nat.add_le_add_right (hclosed.sector_le hout hp) _) hfits
    refine ⟨fun p sector hp => ?_, fun p sector p' sector' hp hp' => ?_⟩
    · rw [hp.eq_absolute]
      exact Msf.marks_absolute (hlt p sector hp)
    · rw [hp.eq_absolute, hp'.eq_absolute]
      exact Msf.absolute_eq_iff (hlt p sector hp) (hlt p' sector' hp')

end Drive

/-! ### A disc that is too long -/

namespace Sheet

/-- A sheet with a track behind the longest pregap. -/
def longSheet : Contents :=
  .ofArray (Text.ascii
    "FILE a BINARY\nTRACK 1 AUDIO\nPREGAP 255:59:74\nINDEX 1 1:0:0").toArray

/-- The sheet and its file of one sector. -/
def longStorage : Storage where
  entries := [(⟨false, ["s"]⟩, .file longSheet), (⟨false, ["a"]⟩, .file (.filled 2352 0))]

theorem load_long : ∃ disc cursors,
    load longStorage (.search longStorage) "s" .none = .ok (disc, cursors) ∧
      disc.leadOut?.map Track.start = some 1156500 := by
  have h : (load longStorage (.search longStorage) "s" .none).toOption.map
      (fun r => r.1.leadOut?.map Track.start) = some (some 1156500) := by
    decide +kernel
  obtain ⟨⟨disc, cursors⟩, hload, hstart⟩ := Option.map_eq_some_iff.mp h
  exact ⟨disc, cursors, toOption_eq_some_iff.mp hload, hstart⟩

end Sheet

/-- The lead-out of such a disc is reported as if it were at sector 4500. -/
theorem Drive.reports_of_insert_long :
    ((blank .detached).1.insert (.ofStorage Sheet.longStorage) "s" .detached).1 = .ok () ∧
    ∃ disc p, ((blank .detached).1.insert (.ofStorage Sheet.longStorage) "s"
        .detached).2.1.disc = disc ∧ disc.Reports p 1156500 ∧ p = Msf.absolute 4500 ∧
      ¬ ∀ p sector, disc.Reports p sector → p.toFrames = sector + RedBook.leadIn := by
  obtain ⟨loaded, cursors, hload, hstart⟩ := Sheet.load_long
  have hok : ((blank .detached).1.insert (.ofStorage Sheet.longStorage) "s" .detached).1 =
      .ok () := insert_of_load (Disc.load_ok_iff.mpr (Or.inl hload))
  obtain ⟨disc, out, hdisc, hout, ⟨range, -, hreports⟩, -, -, hall, -⟩ := reports_of_insert hok
  obtain ⟨cursors', hload'⟩ := insert_cases hok
  have hsame := hload'.symm.trans (Disc.load_ok_iff.mpr (Or.inl hload))
  rw [hdisc, Except.ok.injEq, Prod.mk.injEq] at hsame
  rw [← hsame.1, hout, Option.map_some, Option.some.injEq] at hstart
  rw [hstart] at hreports hall
  refine ⟨hok, disc, _, hdisc, hreports, ?_, fun h => absurd (hall.mp h) (by decide)⟩
  rw [hreports.eq_absolute, Msf.absolute_eq_iff (by decide) (by decide)]
  rfl

end CompactDisc
