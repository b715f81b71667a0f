import CompactDisc.Drive.Basic
import CompactDisc.Proofs.Sheet.Described

/-!
# CompactDisc.Proofs.Disc.Loaded

**What can be relied on in a loaded disc**, whichever way it was loaded (`Disc.Closed`): numbers and
sectors are in order, the tracks of a source stand together, and a lead-out without length starts
exactly where the last track ends.

A sheet may repeat, omit and reorder its lines, and the length of a track is only known when the
next one comes; but the builder checks each pair with the length in place (`Layout.isChain_extend`),
and a sheet that a pair fails for is not loaded. A bare image is one track and a lead-out by
construction.
-/

namespace CompactDisc

/-- A disc with at least one track, and all of them in order up to the lead-out. -/
structure Disc.Closed (d : Disc) : Prop where
  enough : 2 ≤ d.tracks.length
  ordered : d.tracks.IsChain Track.Precedes
  leadOut : ∀ out ∈ d.tracks.getLast?, out.length = 0 ∧ out.source = none ∧ out.attr = audioAttr ∧
    out.start = endOf d.tracks.dropLast
  sourced : ∀ t ∈ d.tracks.dropLast, ∃ source, t.source = some source
  /-- What lies between two tracks of a source is of that source. -/
  together : ∀ i j k (_ : i ≤ j) (_ : j ≤ k) (_ : k < d.tracks.length),
    d.tracks[i].sharesSource d.tracks[k] = true → d.tracks[i].sharesSource d.tracks[j] = true

/-- A track is stored as its track type says. -/
def Track.HasMode (t : Track) (mode : TrackMode) : Prop :=
  t.sectorSize = mode.sectorSize ∧ t.attr = mode.attr ∧ t.mode2 = mode.isMode2

/-- A track with sound is stored in whole sectors. -/
theorem Track.HasMode.sectorSize_of_sound {t : Track} {mode : TrackMode} (h : t.HasMode mode)
    (hsound : t.isData = false) : t.sectorSize = 2352 := by
  obtain ⟨hsize, hattr, -⟩ := h
  unfold Track.isData at hsound
  rw [hattr] at hsound
  rw [hsize]
  cases mode with
  | audio => rfl
  | mode1Cooked | mode1Raw | mode2Stripped | mode2Raw => cases hsound

/-- A data track is stored in a form of sectors. -/
def Track.HasForm (t : Track) (form : Volume.Form) : Prop :=
  t.sectorSize = form.sectorSize ∧ t.attr = dataAttr ∧ t.mode2 = form.mode2

/-- Sources that are numbered in the order of their tracks stand together. -/
theorem together_of_ids {ts : List Track}
    (hids : ts.Pairwise fun t u => ∀ s ∈ t.source, ∀ s' ∈ u.source, s = s' ∨ s.id < s'.id)
    (hsourced : ∀ t ∈ ts.dropLast, ∃ source, t.source = some source) (i j k : Nat) (hij : i ≤ j)
    (hjk : j ≤ k) (hk : k < ts.length) (h : ts[i].sharesSource ts[k] = true) :
    ts[i].sharesSource ts[j] = true := by
  rcases Nat.eq_or_lt_of_le hij with rfl | hij
  · exact Track.sharesSource_self _
  rcases Nat.eq_or_lt_of_le hjk with rfl | hjk
  · exact h
  have hat : ∀ n (_ : n < k), ∃ source, ts[n].source = some source := by
    intro n hn
    refine hsourced _ ?_
    rw [List.mem_iff_getElem]
    exact ⟨n, by rw [List.length_dropLast]; omega, by rw [List.getElem_dropLast]⟩
  obtain ⟨s, hs⟩ := hat i (by omega)
  obtain ⟨s', hs'⟩ := hat j hjk
  rw [Track.sharesSource, hs, Option.map_some, beq_iff_eq, eq_comm, Option.map_eq_some_iff] at h
  obtain ⟨s'', hs'', hid⟩ := h
  rw [List.pairwise_iff_getElem] at hids
  rcases hids i j (by omega) (by omega) hij s hs s' hs' with rfl | h1
  · simp [Track.sharesSource, hs, hs']
  · -- identities only grow, so a source that was left cannot come back
    rcases hids j k (by omega) hk hjk s' hs' s'' hs'' with rfl | h2 <;> omega

namespace Sheet

variable {storage : Storage} {resolver : Resolver} {path : String} {cursors cursors' : Cursors}
  {disc : Disc}

/-- The tracks of a sheet. -/
theorem load_cases (h : load storage resolver path cursors = .ok (disc, cursors')) :
    ∃ init last out, disc.tracks = init ++ [last, out] ∧ disc.tracks.IsChain Track.Before ∧
      out.length = 0 ∧ out.source = none ∧ out.attr = audioAttr ∧ out.start = last.endSector ∧
      (disc.tracks.Pairwise fun t u =>
        ∀ s ∈ t.source, ∀ s' ∈ u.source, s = s' ∨ s.id < s'.id) ∧
      ∀ t ∈ init ++ [last], ∃ source mode cs, t.source = some source ∧ t.HasMode mode ∧
        sheetCommands? storage path = some cs ∧
        OpenedFor ⟨storage, resolver, Path.parent path⟩ cs cursors.positions.length source := by
  obtain ⟨es, hes, htracks⟩ := entries_of_load h
  obtain ⟨init, last, out, heq, hchain, hunplaced, hlength, hsource, hattr, hstart⟩ :=
    Layout.ofEntries_cases htracks
  have hplayable : ∀ t ∈ init ++ [last], ∃ source mode cs, t.source = some source ∧
      t.HasMode mode ∧ sheetCommands? storage path = some cs ∧
      OpenedFor ⟨storage, resolver, Path.parent path⟩ cs cursors.positions.length source := by
    intro t ht
    have hmem : t.unplaced ∈ (init ++ [last]).map Track.unplaced := List.mem_map_of_mem ht
    rw [hunplaced, List.mem_map] at hmem
    obtain ⟨e, he, hte⟩ := hmem
    obtain ⟨cs, number, mode, s, w, hcs, -, rfl, hopened⟩ := mem_sheetEntries? hes he
    have hs : some s = t.source := congrArg Track.source hte
    have hmode : t.HasMode mode := ⟨(congrArg Track.sectorSize hte).symm,
      (congrArg Track.attr hte).symm, (congrArg Track.mode2 hte).symm⟩
    exact ⟨s, mode, cs, hs.symm, hmode, hcs, hopened⟩
  refine ⟨init, last, out, heq, hchain, hlength, hsource, hattr, hstart ?_, ?_, hplayable⟩
  · obtain ⟨source, mode, cs, hs, -⟩ := hplayable last (by simp)
    simp [hs]
  · have hids : (es.map fun e => e.track.unplaced).Pairwise
        fun t u => ∀ s ∈ t.source, ∀ s' ∈ u.source, s = s' ∨ s.id < s'.id :=
      List.pairwise_map.mpr (described_of_sheetEntries? hes).ids
    rw [← hunplaced, List.pairwise_map] at hids
    rw [heq, List.append_cons, List.pairwise_append]
    refine ⟨hids, List.pairwise_singleton _ _, fun t _ u hu s _ s' hs' => ?_⟩
    -- the lead-out has no source
    rw [List.mem_singleton.mp hu, hsource] at hs'
    cases hs'

/-- A track of a sheet that has a source is of a track type. -/
theorem hasMode_of_load (h : load storage resolver path cursors = .ok (disc, cursors')) {t : Track}
    {s : Source} (ht : t ∈ disc.tracks) (hs : t.source = some s) : ∃ mode, t.HasMode mode := by
  obtain ⟨init, last, out, heq, -, -, hsource, -, -, -, hplayable⟩ := load_cases h
  rw [heq, List.append_cons, List.mem_append, List.mem_singleton] at ht
  rcases ht with ht | rfl
  · obtain ⟨-, mode, -, -, hmode, -⟩ := hplayable t ht
    exact ⟨mode, hmode⟩
  · rw [hsource] at hs
    cases hs

/-- The disc of a sheet can be relied on. -/
theorem closed_of_load (h : load storage resolver path cursors = .ok (disc, cursors')) :
    disc.Closed := by
  obtain ⟨init, last, out, heq, hchain, hlength, hsource, hattr, hstart, hids, hplayable⟩ :=
    load_cases h
  have hdropLast : disc.tracks.dropLast = init ++ [last] := by
    rw [heq, List.append_cons, List.dropLast_concat]
  have hsourced : ∀ t ∈ disc.tracks.dropLast, ∃ source, t.source = some source := by
    intro t ht
    rw [hdropLast] at ht
    obtain ⟨source, mode, cs, hs, -⟩ := hplayable t ht
    exact ⟨source, hs⟩
  refine ⟨?_, hchain.imp fun _ _ h => h.toPrecedes, ?_, hsourced, together_of_ids hids hsourced⟩
  · rw [heq, List.length_append]
    exact Nat.le_add_left _ _
  · intro u hu
    rw [heq, List.append_cons, List.getLast?_concat, Option.mem_some_iff] at hu
    subst hu
    rw [hdropLast, endOf_concat]
    exact ⟨hlength, hsource, hattr, hstart⟩

end Sheet

namespace Volume

/-- A form that is found is one of those tried. -/
theorem mem_of_detect {cursors cursors' : Cursors} {source : Source} {forms : List Form}
    {form : Form} (h : detect cursors source forms = (some form, cursors')) : form ∈ forms := by
  induction forms generalizing cursors with
  | nil => cases h
  | cons f rest ih =>
      unfold detect at h
      split at h
      · cases h
        exact List.mem_cons_self
      · exact List.mem_cons_of_mem _ (ih h)

/-- The disc of a bare image. -/
theorem load_cases {storage : Storage} {path : String} {cursors cursors' : Cursors} {loaded : Disc}
    (h : load storage path cursors = .ok (loaded, cursors')) :
    ∃ source form length opened, cursors.openSource storage path .binary = .ok (source, opened) ∧
      detect opened source forms = (some form, cursors') ∧ loaded = disc source form length := by
  unfold load at h
  split at h
  · cases h
  · rename_i source opened hopened
    split at h
    · cases h
    · rename_i form detected hdetect
      dsimp only at h
      split at h
      · cases h
        exact ⟨source, form, _, opened, hopened, hdetect, rfl⟩
      · cases h

theorem closed_disc (source : Source) (form : Form) (length : Nat) :
    (disc source form length).Closed := by
  have hsourced : ∀ t ∈ (disc source form length).tracks.dropLast,
      ∃ source, t.source = some source := by
    intro t ht
    cases List.mem_singleton.mp ht
    exact ⟨source, rfl⟩
  refine ⟨Nat.le_refl _, ?_, ?_, hsourced, together_of_ids ?_ hsourced⟩
  · refine List.isChain_pair.mpr ⟨rfl, ?_⟩
    show 0 + length ≤ length
    omega
  · intro out hout
    cases hout
    exact ⟨rfl, rfl, rfl, (Nat.zero_add _).symm⟩
  · refine List.pairwise_pair.mpr ?_
    rintro s - s' ⟨⟩

end Volume

/-- A disc is loaded from a sheet, or else from a bare image. -/
theorem Disc.load_ok_iff {lib : Library} {path : String} {cursors : Cursors}
    {loaded : Disc × Cursors} :
    Disc.load lib path cursors = .ok loaded ↔
      Sheet.load lib.storage lib.resolver path cursors = .ok loaded ∨
      (∃ e, Sheet.load lib.storage lib.resolver path cursors = .error e) ∧
        Volume.load lib.storage path cursors = .ok loaded := by
  unfold Disc.load
  cases Sheet.load lib.storage lib.resolver path cursors with
  | ok sheet => simp
  | error e =>
      cases Volume.load lib.storage path cursors with
      | ok volume => simp
      | error e' => simp

/-- A disc that can be loaded from some library. -/
def Disc.Loaded (disc : Disc) : Prop :=
  ∃ lib path cursors opened, Disc.load lib path cursors = .ok (disc, opened)

/-- Whatever can be loaded can be relied on. -/
theorem Disc.Loaded.closed {disc : Disc} (h : disc.Loaded) : disc.Closed := by
  obtain ⟨lib, path, cursors, opened, hload⟩ := h
  rcases Disc.load_ok_iff.mp hload with hsheet | ⟨-, hvolume⟩
  · exact Sheet.closed_of_load hsheet
  · obtain ⟨source, form, length, opened, -, -, rfl⟩ := Volume.load_cases hvolume
    exact Volume.closed_disc source form length

namespace Drive

variable {drive : Drive} {lib : Library} {path : String} {d : Deck}

/-- The new disc of a drive is the one that was loaded. -/
theorem insert_cases (h : (drive.insert lib path d).1 = .ok ()) :
    ∃ cursors, Disc.load lib path d.cursors =
      .ok ((drive.insert lib path d).2.1.disc, cursors) := by
  unfold insert at h ⊢
  cases hload : Disc.load lib path d.cursors with
  | error e =>
      rw [hload] at h
      cases h
  | ok loaded => exact ⟨loaded.2, rfl⟩

theorem loaded_of_insert (h : (drive.insert lib path d).1 = .ok ()) :
    (drive.insert lib path d).2.1.disc.Loaded := by
  obtain ⟨cursors, hload⟩ := insert_cases h
  exact ⟨lib, path, d.cursors, cursors, hload⟩

theorem insert_of_load {loaded : Disc × Cursors}
    (h : Disc.load lib path d.cursors = .ok loaded) : (drive.insert lib path d).1 = .ok () := by
  rw [insert, h]

/-- **A loaded disc.** Whatever is loaded can be relied on. The tracks of a sheet are of its track
types; the track of a bare image is a data track in the form that a descriptor was found in. The
builder alone keeps the order of tracks, whatever is added to it and whether or not that fails. -/
theorem insert_closed :
    (∀ (drive : Drive) (lib : Library) (path : String) (d : Deck),
      (drive.insert lib path d).1 = .ok () →
        (drive.insert lib path d).2.1.disc.Closed ∧
        ((∃ cursors, Sheet.load lib.storage lib.resolver path d.cursors =
            .ok ((drive.insert lib path d).2.1.disc, cursors) ∧
          ∀ t ∈ (drive.insert lib path d).2.1.disc.tracks.dropLast, ∃ mode, t.HasMode mode) ∨
        ∃ cursors, Volume.load lib.storage path d.cursors =
            .ok ((drive.insert lib path d).2.1.disc, cursors) ∧
          ∀ t ∈ (drive.insert lib path d).2.1.disc.tracks.dropLast, ∃ source opened form,
            t.source = some source ∧
            Volume.detect opened source Volume.forms = (some form, cursors) ∧
            form ∈ Volume.forms ∧ t.HasForm form)) ∧
    ∀ es : List Entry, (es.foldl Layout.attempt .empty).tracks.IsChain Track.Precedes := by
  refine ⟨?_, fun es => ?_⟩
  · intro drive lib path d h
    obtain ⟨cursors, hload⟩ := insert_cases h
    generalize (drive.insert lib path d).2.1.disc = disc at hload ⊢
    rcases Disc.load_ok_iff.mp hload with hsheet | ⟨-, hvolume⟩
    · refine ⟨Sheet.closed_of_load hsheet, Or.inl ⟨cursors, hsheet, fun t ht => ?_⟩⟩
      obtain ⟨init, last, out, heq, -, -, -, -, -, -, hplayable⟩ := Sheet.load_cases hsheet
      rw [heq, List.append_cons, List.dropLast_concat] at ht
      obtain ⟨source, mode, cs, -, hmode, -⟩ := hplayable t ht
      exact ⟨mode, hmode⟩
    · obtain ⟨source, form, length, opened, -, hdetect, rfl⟩ := Volume.load_cases hvolume
      refine ⟨Volume.closed_disc source form length,
        Or.inr ⟨cursors, hvolume, fun t ht => ?_⟩⟩
      cases List.mem_singleton.mp ht
      exact ⟨source, opened, form, rfl, hdetect, Volume.mem_of_detect hdetect, rfl, rfl, rfl⟩
  · exact (Layout.isChain_attempts es List.isChain_nil).imp fun _ _ h => h.toPrecedes

/-- The sheet of three files gives such a disc. -/
theorem insert_closed_threeFiles :
    ((blank .detached).1.insert (.ofStorage Sheet.threeFilesStorage) "s" .detached).1 = .ok () ∧
    ((blank .detached).1.insert (.ofStorage Sheet.threeFilesStorage) "s"
      .detached).2.1.disc.Closed := by
  obtain ⟨es, disc, cursors, -, hload, -⟩ := Sheet.load_threeFiles
  have hok : ((blank .detached).1.insert (.ofStorage Sheet.threeFilesStorage) "s" .detached).1 =
      .ok () := insert_of_load (Disc.load_ok_iff.mpr (Or.inl hload))
  exact ⟨hok, (insert_closed.1 _ _ _ _ hok).1⟩

end Drive

end CompactDisc
