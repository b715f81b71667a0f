import CompactDisc.Proofs.Sheet.Described

/-!
# CompactDisc.Proofs.Sheet.Blocks

**How the files of a sheet follow each other.** The sectors ahead of a file are meant to move all of
its tracks alike, and they do move the first one. The others are moved by `Layout.shift`, and this
is the sum of the first sectors of *all* files up to this one. With two files both are the same
number; a third file with two tracks or more is pulled apart, unless nothing lies before the file
ahead of it.
-/

namespace CompactDisc.Sheet

variable {storage : Storage} {resolver : Resolver} {path : String} {cursors cursors' : Cursors}
  {disc : Disc}

/-- **The files of a loaded sheet.** For each file with tracks, in order: whenever one of its tracks
has been placed, the shift is the sum of the first sectors of the files so far; the tracks are those
that the file would have alone, with its first entry moved by the sectors ahead of the file and the
others by the shift; and this is the plain translation exactly if the file has one track, or if all
files ahead of it begin at sector 0. -/
theorem load_blocks (h : load storage resolver path cursors = .ok (disc, cursors')) :
    ∃ es, sheetEntries? storage resolver path cursors = some (es, cursors') ∧
      ∀ k (hk : k < (Layout.blocks es).length),
        (∀ part l, part ≠ [] → part <+: (Layout.blocks es)[k] →
          Layout.extend .empty (((Layout.blocks es).take k).flatten ++ part) = .ok l →
          l.shift = ∑ c ∈ Finset.range (k + 1),
            Layout.firstSector disc.tracks (Layout.blocks es) c) ∧
        (∃ out, Layout.ofEntries (Layout.drifted
            (Layout.firstSector disc.tracks (Layout.blocks es) k)
            (∑ c ∈ Finset.range (k + 1), Layout.firstSector disc.tracks (Layout.blocks es) c)
            (Layout.blocks es)[k]) =
          .ok (Layout.tracksOf disc.tracks (Layout.blocks es) k ++ [out])) ∧
        (Layout.Translated disc.tracks (Layout.blocks es) k ↔
          (Layout.blocks es)[k].length = 1 ∨
            ∀ c < k, Layout.firstSector disc.tracks (Layout.blocks es) c = 0) := by
  obtain ⟨es, hes, htracks⟩ := entries_of_load h
  have hdescribed := described_of_sheetEntries? hes
  refine ⟨es, hes, fun k hk => ⟨?_, ?_, ?_⟩⟩
  · intro part l hne hpart hl
    exact Layout.shift_eq_sum hdescribed htracks hk hne hpart hl
  · exact Layout.block_laidOut hdescribed htracks hk
  · exact Layout.block_translated_iff hdescribed htracks hk

/-- In a sheet of three files, the second file is moved as a whole and the third is pulled apart. -/
theorem load_blocks_threeFiles : ∃ es disc cursors,
    load threeFilesStorage (.search threeFilesStorage) "s" .none = .ok (disc, cursors) ∧
      sheetEntries? threeFilesStorage (.search threeFilesStorage) "s" .none = some (es, cursors) ∧
      (Layout.blocks es).map List.length = [1, 1, 2] ∧
      Layout.Translated disc.tracks (Layout.blocks es) 1 ∧
      ¬ Layout.Translated disc.tracks (Layout.blocks es) 2 := by
  obtain ⟨es, disc, cursors, hes, hload, hlengths, hplaces⟩ := load_threeFiles
  refine ⟨es, disc, cursors, hload, hes, hlengths, ?_⟩
  obtain ⟨es', hes', hblocks⟩ := load_blocks hload
  obtain rfl : es = es' := by
    rw [hes] at hes'
    cases hes'
    rfl
  have hcount : (Layout.blocks es).length = 3 := by simpa using congrArg List.length hlengths
  have hlength : ∀ k (hk : k < (Layout.blocks es).length),
      (Layout.blocks es)[k].length = [1, 1, 2].getD k 0 := by
    intro k hk
    rw [← hlengths, List.getD_eq_getElem?_getD, List.getElem?_map, List.getElem?_eq_getElem hk]
    rfl
  have hfirst : Layout.firstSector disc.tracks (Layout.blocks es) 1 = 1 := by
    have hplace : (disc.tracks.take 1).map (fun t => (t.start, t.length)) = [(0, 1)] := by
      rw [List.map_take, hplaces]
      rfl
    rw [Layout.firstSector, List.length_flatten, List.map_take, hlengths]
    exact endOf_eq_of_map hplace
  have h1 := (hblocks 1 (by omega)).2.2
  have h2 := (hblocks 2 (by omega)).2.2
  rw [hlength] at h1 h2
  refine ⟨h1.mpr (Or.inl rfl), fun h => ?_⟩
  rcases h2.mp h with h | h
  · cases h
  · rw [h 1 (by omega)] at hfirst
    cases hfirst

end CompactDisc.Sheet
