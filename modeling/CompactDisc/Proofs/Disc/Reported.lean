import CompactDisc.Proofs.Disc.Positions

/-!
# CompactDisc.Proofs.Disc.Reported

**The track that a position report names.** Before anything was played, the report is of the first
entry of the track list with the control byte of sound. The lead-out is an entry like the others and
has this control byte, so on a disc without a track of sound it is the one that is found, and the first
track is never fallen back to (`subchannel_of_silent`). In every other case the report names a playable
track (`namesPlayable_subchannel`): the lead-out owns no sector, and behind a track of sound it is not
reached.

Proof shape: one lemma for each way that a report comes about. The lead-out is told from the playable
tracks by its number, which is above all of theirs (`Closed.number_lt`).
-/

namespace CompactDisc

/-- A report that is made of a track, at a sector. -/
structure Subchannel.Names (report : Subchannel) (t : Track) (sector : Nat) : Prop where
  track : report.track = t.number
  attr : report.attr = t.attr
  absolute : report.absolute = Msf.absolute sector

namespace Disc

/-- A disc with a track of sound, the lead-out not counted. -/
def HasSound (d : Disc) : Prop := ∃ t ∈ d.tracks.dropLast, t.isAudio = true

/-- A report that names a track before the lead-out, at a sector before the lead-out unless the track
is empty. -/
def NamesPlayable (d : Disc) (report : Subchannel) : Prop :=
  ∃ t ∈ d.tracks.dropLast, ∃ sector, report.Names t sector ∧
    (0 < t.length → ∀ out ∈ d.leadOut?, sector < out.start)

variable {d : Disc} {t out : Track}

/-- The lead-out has a number above those of all tracks. -/
theorem Closed.number_lt (h : d.Closed) (hout : d.leadOut? = some out)
    (ht : t ∈ d.tracks.dropLast) : t.number < out.number := by
  have : IsTrans Track fun t u => t.number < u.number := ⟨fun _ _ _ => Nat.lt_trans⟩
  have hchain : d.tracks.IsChain fun t u => t.number < u.number :=
    h.ordered.imp fun t u hnext => by
      rw [hnext.number]
      exact Nat.lt_succ_self _
  obtain ⟨init, heq⟩ := List.getLast?_eq_some_iff.mp hout
  rw [heq, List.dropLast_concat] at ht
  rw [heq] at hchain
  exact (List.pairwise_append.mp hchain.pairwise).2.2 t ht out (by simp)

/-- A track with sectors starts before the lead-out. -/
theorem Closed.start_lt (h : d.Closed) (hout : d.leadOut? = some out)
    (ht : t ∈ d.tracks.dropLast) (hlength : 0 < t.length) : t.start < out.start := by
  have hend : t.endSector ≤ out.start := h.endSector_le hout ht
  unfold Track.endSector at hend
  omega

/-- What a report names is the track and the sector that are looked up for it. -/
theorem names_subchannel {first : Track} (hfirst : d.tracks.head? = some first)
    (position : Option Nat) :
    (d.subchannel position).Names (d.reported first position).1 (d.reported first position).2.1 := by
  unfold subchannel
  rw [hfirst]
  exact ⟨rfl, rfl, rfl⟩

/-! ### The ways to a report -/

/-- The first entry is a track. -/
theorem Closed.mem_dropLast_of_head? {first : Track} (h : d.Closed)
    (hfirst : d.tracks.head? = some first) : first ∈ d.tracks.dropLast := by
  obtain ⟨init, last, out, heq, -⟩ := h.eq_append
  rw [heq] at hfirst
  rw [heq, List.append_cons, List.dropLast_concat]
  cases init <;> simp_all

/-- A track that is reported at its start is reported well. -/
theorem Closed.namesPlayable_start (h : d.Closed) {report : Subchannel}
    (ht : t ∈ d.tracks.dropLast) (hnames : report.Names t t.start) : d.NamesPlayable report :=
  ⟨t, ht, t.start, hnames, fun hlength _ hout => h.start_lt hout ht hlength⟩

/-- Once there is a position, or if there is a track of sound, the report names a playable track. -/
theorem Closed.namesPlayable_subchannel (h : d.Closed) {position : Option Nat}
    (hknown : position.isSome = true ∨ d.HasSound) : d.NamesPlayable (d.subchannel position) := by
  obtain ⟨-, -, first, hfirst⟩ := h.answers
  have hnames := names_subchannel hfirst position
  cases position with
  | some sector =>
      cases howner : d.track? sector with
      | none =>
          -- outside the disc the first track is named
          simp only [reported, howner] at hnames
          exact h.namesPlayable_start (h.mem_dropLast_of_head? hfirst) hnames
      | some t =>
          rw [reported_of_owned howner] at hnames
          exact ⟨t, h.mem_dropLast_of_track? howner, sector, hnames,
            fun _ _ hout => h.lt_leadOut howner hout⟩
  | none =>
      obtain ⟨t, ht, haudio⟩ := hknown.resolve_left (by simp)
      -- the first track of sound stands before the lead-out
      obtain ⟨u, hu⟩ : ∃ u, d.tracks.dropLast.find? Track.isAudio = some u :=
        Option.isSome_iff_exists.mp (List.find?_isSome.mpr ⟨t, ht, haudio⟩)
      have hfind : d.tracks.find? Track.isAudio = some u := by
        obtain ⟨init, last, out, heq, -⟩ := h.eq_append
        rw [heq, List.append_cons] at hu ⊢
        rw [List.dropLast_concat] at hu
        rw [List.find?_append, hu, Option.some_or]
      simp only [reported, hfind, Option.getD_some] at hnames
      exact h.namesPlayable_start (List.mem_of_find?_eq_some hu) hnames

/-- Without a position and without a track of sound, the lead-out is reported. -/
theorem Closed.subchannel_of_silent (h : d.Closed) (hout : d.leadOut? = some out)
    (hsilent : ¬ d.HasSound) : (d.subchannel none).Names out out.start := by
  obtain ⟨-, -, first, hfirst⟩ := h.answers
  have hnames := names_subchannel hfirst none
  have hattr : out.isAudio = true := by
    simp [Track.isAudio, (h.leadOut out hout).2.2.1]
  have hnone : d.tracks.dropLast.find? Track.isAudio = none := by
    rw [List.find?_eq_none]
    exact fun t ht haudio => hsilent ⟨t, ht, haudio⟩
  have hfind : d.tracks.find? Track.isAudio = some out := by
    obtain ⟨init, heq⟩ := List.getLast?_eq_some_iff.mp hout
    rw [heq, List.dropLast_concat] at hnone
    rw [heq, List.find?_append, hnone, Option.none_or, List.find?_cons, hattr]
  simpa only [reported, hfind, Option.getD_some] using hnames

end Disc

namespace Drive

/-- **Which track is reported.** The report of a loaded disc names a playable track, and a sector before
the lead-out unless the track is empty, exactly if a position is given or the disc has a track of sound.
Otherwise it names the lead-out, whose number no track has. -/
theorem subchannel_of_insert {drive : Drive} {lib : Library} {path : String} {d : Deck}
    (h : (drive.insert lib path d).1 = .ok ()) :
    ∃ disc out, (drive.insert lib path d).2.1.disc = disc ∧ disc.leadOut? = some out ∧
      (∀ position, disc.NamesPlayable (disc.subchannel position) ↔
        position.isSome = true ∨ disc.HasSound) ∧
      (¬ disc.HasSound → (disc.subchannel none).Names out out.start) ∧
      ∀ t ∈ disc.tracks.dropLast, t.number < out.number := by
  have hclosed := (loaded_of_insert h).closed
  generalize (drive.insert lib path d).2.1.disc = disc at hclosed ⊢
  obtain ⟨⟨-, out, -, hout⟩, -⟩ := hclosed.answers
  refine ⟨disc, out, rfl, hout, fun position => ⟨fun hnames => ?_, hclosed.namesPlayable_subchannel⟩,
    hclosed.subchannel_of_silent hout, fun t ht => hclosed.number_lt hout ht⟩
  by_contra hunknown
  simp only [not_or, Bool.not_eq_true, Option.isSome_eq_false_iff, Option.isNone_iff_eq_none]
    at hunknown
  obtain ⟨rfl, hsilent⟩ := hunknown
  obtain ⟨t, ht, sector, hnames, -⟩ := hnames
  have hnumber := hnames.track.symm.trans (hclosed.subchannel_of_silent hout hsilent).track
  exact Nat.ne_of_lt (hclosed.number_lt hout ht) hnumber

end Drive

/-! ### A disc without sound -/

namespace Volume

/-- A bare image of 17 sectors, the last of which holds the descriptor. -/
def shortImage : Contents :=
  (Contents.filled 34816 0).overwrite 32768 (primaryMark "CD001").toArray

/-- The image alone. -/
def imageStorage : Storage where
  entries := [(⟨false, ["i"]⟩, .file shortImage)]

theorem load_image : ∃ disc cursors,
    Disc.load (.ofStorage imageStorage) "i" .none = .ok (disc, cursors) ∧
      disc.tracks.map (fun t => (t.number, t.attr, t.start)) =
        [(1, dataAttr, 0), (2, audioAttr, 17)] := by
  have h : (Disc.load (.ofStorage imageStorage) "i" .none).toOption.map
      (fun r => r.1.tracks.map fun t => (t.number, t.attr, t.start)) =
      some [(1, dataAttr, 0), (2, audioAttr, 17)] := by
    decide +kernel
  obtain ⟨⟨disc, cursors⟩, hload, htracks⟩ := Option.map_eq_some_iff.mp h
  exact ⟨disc, cursors, toOption_eq_some_iff.mp hload, htracks⟩

end Volume

/-- On such an image the lead-out, track 2, is reported until something is played. -/
theorem Drive.subchannel_of_insert_image :
    ((blank .detached).1.insert (.ofStorage Volume.imageStorage) "i" .detached).1 = .ok () ∧
    ∃ disc, ((blank .detached).1.insert (.ofStorage Volume.imageStorage) "i"
        .detached).2.1.disc = disc ∧
      (disc.subchannel none).track = 2 ∧ ¬ disc.NamesPlayable (disc.subchannel none) ∧
      disc.NamesPlayable (disc.subchannel (some 0)) := by
  obtain ⟨loaded, cursors, hload, htracks⟩ := Volume.load_image
  have hok : ((blank .detached).1.insert (.ofStorage Volume.imageStorage) "i" .detached).1 =
      .ok () := insert_of_load hload
  obtain ⟨disc, out, hdisc, hout, hnames, hsilent, -⟩ := subchannel_of_insert hok
  obtain ⟨cursors', hload'⟩ := insert_cases hok
  have hsame := hload'.symm.trans hload
  rw [hdisc, Except.ok.injEq, Prod.mk.injEq] at hsame
  rw [← hsame.1] at htracks
  simp only [List.map_eq_cons_iff, List.map_eq_nil_iff, Prod.mk.injEq] at htracks
  obtain ⟨t, _, htracks, ⟨-, hattr, -⟩, u, _, rfl, ⟨hnumber, -⟩, rfl⟩ := htracks
  have hnosound : ¬ disc.HasSound := by
    rintro ⟨w, hw, haudio⟩
    rw [htracks] at hw
    obtain rfl := List.mem_singleton.mp hw
    rw [Track.isAudio, hattr] at haudio
    cases haudio
  obtain rfl : u = out := by
    rw [Disc.leadOut?, htracks] at hout
    exact Option.some.inj hout
  refine ⟨hok, disc, hdisc, (hsilent hnosound).track.trans hnumber, fun h => ?_,
    (hnames (some 0)).mpr (Or.inl rfl)⟩
  rcases (hnames none).mp h with hsome | hsound
  · cases hsome
  · exact hnosound hsound

end CompactDisc
