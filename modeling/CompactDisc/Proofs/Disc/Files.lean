import CompactDisc.Proofs.Disc.Words
import CompactDisc.Proofs.Layout.Packed
import CompactDisc.Proofs.Sound.Along

/-!
# CompactDisc.Proofs.Disc.Files

**Discs of sheets whose files hold sectors.** Every track with a source is stored in a file from a
place inside it (`Sheet.stored_track`), and the sources of a disc are among those that were opened for
it (`Sheet.id_lt_of_load`). So whatever can be asked of such a disc is found in a file that is known
(`Sheet.stored_of_load`). No file has more behind a track than fits into the sectors before the lead-out
(`Sheet.rest_le_of_load`), so these can be numbered however far the file is played.
-/

namespace CompactDisc

namespace Sheet

/-! ### Openings -/

/-- Opening files leaves the cursors of those that were open before. -/
theorem openings_entries? {env : Surroundings} {cursors cursors' : Cursors}
    {source : Option Source} {es : List Entry} {cs : List Command}
    (h : entries? env cursors source cs = some (es, cursors')) :
    cursors.positions <+: cursors'.positions := by
  induction cs generalizing cursors source es with
  | nil =>
      cases h
      exact List.prefix_rfl
  | cons c cs ih =>
      cases hc : c.endsTrack with
      | false =>
          rw [entries?_within hc] at h
          exact ih h
      | true =>
          cases c with
          | index | pregap | catalog | remark => cases hc
          | track number mode =>
              obtain ⟨s, -, rest, hrest, -⟩ := entries?_track_iff.mp h
              exact ih hrest
          | file name kind =>
              obtain ⟨path, -, opened, hopened, h⟩ := entries?_file_iff.mp h
              have hcursors := (Cursors.openSource_ok_iff.mp hopened).2
              refine List.IsPrefix.trans ?_ (ih h)
              rw [hcursors]
              exact List.prefix_append _ _

/-- The sources of entries are among those that are open in the end. -/
theorem id_lt_of_entries? {env : Surroundings} {cursors cursors' : Cursors}
    {source : Option Source} {es : List Entry} {cs : List Command}
    (h : entries? env cursors source cs = some (es, cursors'))
    (known : ∀ s ∈ source, s.id < cursors.positions.length) :
    ∀ e ∈ es, ∀ s ∈ e.track.source, s.id < cursors'.positions.length := by
  induction cs generalizing cursors source es with
  | nil =>
      cases h
      exact nofun
  | cons c cs ih =>
      cases hc : c.endsTrack with
      | false =>
          rw [entries?_within hc] at h
          exact ih h known
      | true =>
          cases c with
          | index | pregap | catalog | remark => cases hc
          | track number mode =>
              obtain ⟨s, rfl, rest, hrest, rfl⟩ := entries?_track_iff.mp h
              intro e he
              rcases List.mem_cons.mp he with rfl | he
              · intro s' hs'
                cases hs'
                exact Nat.lt_of_lt_of_le (known s rfl) (openings_entries? hrest).length_le
              · exact ih hrest known e he
          | file name kind =>
              obtain ⟨path, -, opened, hopened, h⟩ := entries?_file_iff.mp h
              obtain ⟨hopen, hcursors⟩ := Cursors.openSource_ok_iff.mp hopened
              refine ih h fun s hs => ?_
              cases hs
              rw [Source.id_openAs hopen, hcursors, List.length_append]
              exact Nat.lt_succ_self _

variable {storage : Storage} {resolver : Resolver} {path : String} {cursors opened : Cursors}
  {disc : Disc}

/-- The sources of a disc are among those that are open once it is loaded. -/
theorem id_lt_of_load (h : load storage resolver path cursors = .ok (disc, opened)) :
    ∀ t ∈ disc.tracks, ∀ s ∈ t.source, s.id < opened.positions.length := by
  obtain ⟨es, hes, htracks⟩ := entries_of_load h
  obtain ⟨cs, -, hentries⟩ := Option.bind_eq_some_iff.mp hes
  obtain ⟨init, last, out, heq, -, hunplaced, -, hsource, -⟩ := Layout.ofEntries_cases htracks
  intro t ht s hs
  rw [heq, List.append_cons, List.mem_append, List.mem_singleton] at ht
  rcases ht with ht | rfl
  · have hmem : t.unplaced ∈ (init ++ [last]).map Track.unplaced := List.mem_map_of_mem ht
    rw [hunplaced, List.mem_map] at hmem
    obtain ⟨e, he, hte⟩ := hmem
    have hsame : e.track.unplaced.source = t.unplaced.source := congrArg Track.source hte
    exact id_lt_of_entries? hentries nofun e he s (hsame ▸ hs)
  · rw [hsource] at hs
    cases hs

/-! ### Tracks in files -/

/-- **Where a track of a sheet is stored**: from a place inside its file, up to the next track of the
file or to its end. -/
theorem stored_track (h : load storage resolver path cursors = .ok (disc, opened))
    (hfiles : disc.InFiles) {before after : List Track} {t : Track} {s : Source}
    (heq : disc.tracks = before ++ t :: after) (hs : t.source = some s) :
    ∃ contents mode u rest, s.contents = some contents ∧ s.format = .binary contents.size ∧
      t.HasMode mode ∧ after = u :: rest ∧ t.skip ≤ contents.size ∧
      (t.sharesSource u = true → t.skip + t.length * t.sectorSize ≤ contents.size) ∧
      (t.sharesSource u = false → t.length = t.sectorsOf (contents.size - t.skip)) := by
  obtain ⟨init, last, out, hsplit, hchain, -, hsource, -, -, hids, hplayable⟩ := load_cases h
  have ht : t ∈ disc.tracks := by
    rw [heq]
    simp
  have hmem : t ∈ init ++ [last] := by
    rw [hsplit, List.append_cons, List.mem_append, List.mem_singleton] at ht
    refine ht.resolve_right fun hout => ?_
    rw [hout, hsource] at hs
    cases hs
  obtain ⟨s', mode, cs, hs', hmode, -, name, kind, file, id, -, -, -, hopened⟩ := hplayable t hmem
  obtain rfl : s = s' := Option.some.inj (hs.symm.trans hs')
  obtain ⟨⟨length, hformat⟩, hsome⟩ := hfiles t ht s hs
  obtain ⟨-, -, ⟨contents, -, hcontents, hsize⟩ | ⟨-, hnone⟩⟩ := Source.openAs_ok hopened
  · rw [hsize length hformat] at hformat
    have hlast : disc.tracks.getLast? = some out := by
      rw [hsplit, List.append_cons, List.getLast?_concat]
    rw [heq] at hchain hids hlast
    have hclosed : ∀ out' ∈ (t :: after).getLast?, out'.source = none := by
      intro out' hout'
      rw [List.getLast?_append, Option.mem_def.mp hout'] at hlast
      cases hlast
      exact hsource
    obtain ⟨u, rest, total, rfl, htotal, hskip, hwithin, hwhole⟩ := stored_of_chain
      (List.isChain_append.mp hchain).2.1 (List.pairwise_append.mp hids).2.1 hclosed hs
    obtain rfl : contents.size = total := by
      rw [Source.length, hformat] at htotal
      exact Option.some.inj htotal
    exact ⟨contents, mode, u, rest, hcontents, hformat, hmode, rfl, hskip, hwithin, hwhole⟩
  · rw [hnone] at hsome
    cases hsome

/-- Every sector of a track begins inside its file. -/
theorem stored_sectors (h : load storage resolver path cursors = .ok (disc, opened))
    (hfiles : disc.InFiles) {t : Track} {s : Source} (ht : t ∈ disc.tracks)
    (hs : t.source = some s) :
    ∃ contents, s.contents = some contents ∧ s.format = .binary contents.size ∧
      t.skip ≤ contents.size ∧ ∀ k < t.length, t.skip + k * t.sectorSize < contents.size := by
  obtain ⟨before, after, heq⟩ := List.append_of_mem ht
  obtain ⟨contents, mode, u, rest, hcontents, hformat, hmode, -, hskip, hwithin, hwhole⟩ :=
    stored_track h hfiles heq hs
  refine ⟨contents, hcontents, hformat, hskip, fun k hk => ?_⟩
  have hpos : 0 < t.sectorSize := by
    rw [hmode.1]
    exact mode.sectorSize_pos
  cases hshare : t.sharesSource u with
  | true =>
      have hend := hwithin hshare
      have hmul := Nat.mul_lt_mul_of_pos_right hk hpos
      omega
  | false =>
      rw [hwhole hshare] at hk
      have hmul := Track.mul_lt_of_lt_sectorsOf hpos hk
      omega

/-- What is left of a file behind the beginning of a track fits into sectors that can be numbered. -/
theorem rest_le_of_load (h : load storage resolver path cursors = .ok (disc, opened)) {t : Track}
    {s : Source} (ht : t ∈ disc.tracks) (hs : t.source = some s) {size : Nat}
    (hsize : s.length = some size) :
    size + t.start * 2352 ≤ t.skip + RedBook.maxSector * 2352 := by
  obtain ⟨es, hes, htracks⟩ := entries_of_load h
  have hpacked : disc.tracks.IsChain Track.Packed := by
    refine Layout.packed_ofEntries (fun e he => ?_) htracks
    obtain ⟨cs, number, mode, s, w, -, -, rfl, -⟩ := mem_sheetEntries? hes he
    exact ⟨mode.sectorSize_le, rfl⟩
  obtain ⟨init, last, out, hsplit, hchain, -, hsource, -, -, hids, -⟩ := load_cases h
  have hsized : ∀ w ∈ disc.tracks, w.source.isSome = true →
      0 < w.sectorSize ∧ w.sectorSize ≤ 2352 := by
    intro w hw hsome
    obtain ⟨source, hws⟩ := Option.isSome_iff_exists.mp hsome
    obtain ⟨mode, hmode⟩ := hasMode_of_load h hw hws
    rw [hmode.1]
    exact ⟨mode.sectorSize_pos, mode.sectorSize_le⟩
  have hlast : disc.tracks.getLast? = some out := by
    rw [hsplit, List.append_cons, List.getLast?_concat]
  obtain ⟨before, after, heq⟩ := List.append_of_mem ht
  have hends : ∀ w ∈ disc.tracks, w.endSector ≤ RedBook.maxSector := fun w hw =>
    Nat.lt_succ_iff.mp (Disc.Loaded.inRange ⟨⟨storage, resolver⟩, path, cursors, opened,
      Disc.load_ok_iff.mpr (Or.inl h)⟩ hw).2
  rw [heq] at hpacked hchain hids hsized hlast hends
  obtain ⟨w, hw, hle⟩ := Track.rest_le_of_chain (List.isChain_append.mp hchain).2.1
    (List.isChain_append.mp hpacked).2.1 (List.pairwise_append.mp hids).2.1
    (fun out' hout' => by
      rw [List.getLast?_append, Option.mem_def.mp hout'] at hlast
      cases hlast
      exact hsource)
    (fun w hw => hsized w (List.mem_append_right _ hw)) hs hsize
  have hend := Nat.mul_le_mul_right 2352 (hends w (List.mem_append_right _ hw))
  exact Nat.le_trans hle (Nat.add_le_add_left hend _)

/-- Whatever is asked of the disc begins inside a file that is known, and can be numbered from there to
the end of the file. -/
theorem stored_of_load (h : load storage resolver path cursors = .ok (disc, opened))
    (hfiles : disc.InFiles) : disc.Stored opened.positions.length := by
  intro hasOutput start length plan hfind
  obtain ⟨-, -, t, s, ht, hsound, hs, -, rfl⟩ := Plan.find_ok_iff.mp hfind
  have hmem := Disc.mem_of_track? ht
  have hreach := (closed_of_load h).lt_endSector ht
  obtain ⟨contents, hcontents, hformat, hskip, hsectors⟩ := stored_sectors h hfiles hmem hs
  -- the owner has the first sector, so the offset is not cut to its last one
  have hwithin : min (start - t.start) (t.length - 1) = start - t.start := by
    unfold Track.endSector at hreach
    omega
  have hsize : t.sectorSize = 2352 := by
    obtain ⟨mode, hmode⟩ := hasMode_of_load h hmem hs
    exact hmode.sectorSize_of_sound hsound
  have hinside : t.skip + (start - t.start) * 2352 ≤ contents.size := by
    rcases Nat.eq_zero_or_pos (start - t.start) with hfirst | hlater
    · rw [hfirst, Nat.zero_mul]
      exact hskip
    · have hsector := hsectors (start - t.start) (by unfold Track.endSector at hreach; omega)
      rw [hsize] at hsector
      exact Nat.le_of_lt hsector
  refine ⟨⟨_, hformat⟩, ?_, ?_, id_lt_of_load h t hmem s hs, ?_⟩
  · show s.contents.isSome = true
    rw [hcontents]
    rfl
  · show t.skip + min (start - t.start) (t.length - 1) * t.sectorSize ≤
      (s.contents.getD .empty).size
    rw [hcontents, hwithin, hsize]
    exact hinside
  · rw [Plan.done_of_contents hcontents]
    show max start t.start + divUp (contents.size -
      (t.skip + min (start - t.start) (t.length - 1) * t.sectorSize)) 2352 < _
    have hlength : s.length = some contents.size := by
      rw [Source.length, hformat]
    have hrest := rest_le_of_load h hmem hs hlength
    rw [hwithin, hsize]
    unfold divUp RedBook.sectorNumbers RedBook.maxSector at *
    omega

/-! ### Sheets beside their files -/

/-- The tracks of some commands whose files are searched for, and the cursors once these are open. -/
def searched? (storage : Storage) (path : String) (cs : List Command) :
    Option (List Track × Cursors) :=
  (entries? ⟨storage, .search storage, Path.parent path⟩ .none none cs).bind fun r =>
    (Layout.ofEntries r.1).toOption.map fun tracks => (tracks, r.2)

/-- A sheet without a catalog number whose `FILE` lines all say `BINARY` gives a disc from files. -/
theorem load_of_searched? {cs : List Command} {tracks : List Track}
    (hcs : sheetCommands? storage path = some cs) (hcatalog : last? Command.catalog? cs = none)
    (hbinary : ∀ name kind, .file name kind ∈ cs → kind = .binary)
    (h : searched? storage path cs = some (tracks, opened)) :
    load storage (.search storage) path .none = .ok ({ tracks }, opened) ∧
      Disc.InFiles { tracks } := by
  obtain ⟨contents, hget, hcommands⟩ := sheetCommands?_eq_some_iff.mp hcs
  obtain ⟨⟨es, opened⟩, hes, hlaid⟩ := Option.bind_eq_some_iff.mp h
  obtain ⟨tracks, htracks, hsame⟩ := Option.map_eq_some_iff.mp hlaid
  obtain ⟨rfl, rfl⟩ := Prod.mk.inj hsame
  have hload : load storage (.search storage) path .none = .ok ({ tracks }, opened) := by
    refine load_ok_iff.mpr
      ⟨contents, hget, cs, hcommands, es, hes, tracks, toOption_eq_some_iff.mp htracks, ?_⟩
    rw [hcatalog]
    rfl
  exact ⟨hload, inFiles_of_binary hload hcs hbinary fun name file => Resolver.isFile_of_search⟩

end Sheet

end CompactDisc
