import CompactDisc.Proofs.Disc.Owner
import CompactDisc.Proofs.Drive.Sectors
import CompactDisc.Proofs.Layout.Words
import CompactDisc.Proofs.Sound.Effect

/-!
# CompactDisc.Proofs.Disc.Words

**No sum of a disc overflows.** The numbers that a sheet can hold are within bounds (`Command.InRange`), so
what has been learnt from its lines stays within bounds, line by line (`Sheet.bounded_of_lines`). At every
point of every sheet the addition that comes next can therefore be done in 64-bit words, be it the one that
fails; and of what is loaded every sector fits into 32 bits and every byte position into 64.

Proof shape: the layout of a sheet has bounds by the number of its last track, and these become bounds for
all discs because the lead-out is the last one to be added and its number is still a byte. A bare image has
one track at the beginning of its file.
-/

namespace CompactDisc

/-- The numbers of a track on a disc. -/
structure Track.InRange (t : Track) : Prop where
  start : t.start < 2 ^ 32
  skip : t.skip ≤ 2 ^ 53
  size : t.sectorSize ≤ 2352

theorem TrackMode.sectorSize_le (mode : TrackMode) : mode.sectorSize ≤ 2352 := by
  cases mode <;> decide

namespace Sheet

/-! ### Line by line -/

/-- What has been learnt from a sheet is within bounds. -/
structure Progress.Bounded (p : Progress) : Prop where
  layout : p.layout.Bounded
  track : ∀ t ∈ p.track, t.Bounded
  pregap : p.pregap < 2 ^ 32

variable {env : Surroundings} {p q : Progress}

/-- Either no track is open, or the open one is placed. -/
theorem Progress.closeTrack_cases (hclose : p.closeTrack = .ok q) :
    p.track = none ∧ q = p ∨ ∃ t layout, p.track = some t ∧
      p.layout.place ⟨t, p.prestart, p.pregap⟩ = .ok layout ∧
      q = { p with layout, track := none } := by
  unfold closeTrack at hclose
  cases ht : p.track with
  | none =>
      rw [ht] at hclose
      cases hclose
      exact Or.inl ⟨rfl, rfl⟩
  | some t =>
      rw [ht] at hclose
      dsimp only at hclose
      split at hclose
      · cases hclose
      · rename_i layout hadd
        cases hclose
        exact Or.inr ⟨t, layout, rfl, Layout.place_ok_iff.mpr hadd, rfl⟩

theorem bounded_start (cursors : Cursors) : ({ cursors } : Progress).Bounded where
  layout := ⟨fun _ => rfl, nofun, nofun⟩
  track := nofun
  pregap := Nat.two_pow_pos 32

theorem lt_of_le_maxFrames {n : Nat} (h : n ≤ Msf.maxFrames) : n < 2 ^ 32 :=
  Nat.lt_of_le_of_lt h (by decide)

namespace Progress.Bounded

/-- The open track as an entry. -/
theorem entry (h : p.Bounded) {t : Track} (ht : p.track = some t) :
    Entry.Bounded ⟨t, p.prestart, p.pregap⟩ := ⟨h.track t ht, h.pregap⟩

theorem closeTrack (h : p.Bounded) (hclose : p.closeTrack = .ok q) : q.Bounded := by
  rcases closeTrack_cases hclose with ⟨-, rfl⟩ | ⟨t, layout, ht, hplace, rfl⟩
  · exact h
  · exact ⟨h.layout.place (h.entry ht) hplace, nofun, h.pregap⟩

theorem apply {c : Command} (h : p.Bounded) (hc : c.InRange) (happly : p.apply env c = .ok q) :
    q.Bounded := by
  cases c with
  | track number mode =>
      simp only [Progress.apply] at happly
      split at happly
      · cases happly
      · cases happly
        refine ⟨h.layout, ?_, Nat.two_pow_pos 32⟩
        rintro t ⟨⟩
        exact ⟨hc, Nat.two_pow_pos 32, Nat.two_pow_pos 32, mode.sectorSize_pos, mode.sectorSize_le⟩
  | index number frame =>
      simp only [Progress.apply] at happly
      split at happly
      · cases happly
        refine ⟨h.layout, fun t ht => ?_, h.pregap⟩
        obtain ⟨u, hu, rfl⟩ := Option.map_eq_some_iff.mp ht
        exact { h.track u hu with start := lt_of_le_maxFrames hc }
      · split at happly
        · cases happly
          exact ⟨h.layout, h.track, h.pregap⟩
        · cases happly
          exact h
  | file name kind =>
      simp only [Progress.apply] at happly
      split at happly
      · cases happly
      · split at happly
        · cases happly
        · cases happly
          exact ⟨h.layout, h.track, h.pregap⟩
  | pregap frames =>
      cases happly
      exact ⟨h.layout, h.track, lt_of_le_maxFrames hc⟩
  | catalog text =>
      cases happly
      exact ⟨h.layout, h.track, h.pregap⟩
  | remark =>
      cases happly
      exact h

theorem step {c : Command} (h : p.Bounded) (hc : c.InRange) (hstep : p.step env c = .ok q) :
    q.Bounded := by
  obtain ⟨p', hclose, happly⟩ := bind_eq_ok_iff.mp hstep
  refine apply ?_ hc happly
  unfold closeIf at hclose
  split at hclose
  · exact h.closeTrack hclose
  · cases hclose
    exact h

end Progress.Bounded

/-- **Reading lines keeps the bounds.** -/
theorem bounded_of_lines {raws : List RawLine} {n m : Nat} (h : p.Bounded)
    (hlines : raws.foldlM (Progress.numberedLine env) (p, n) = .ok (q, m)) : q.Bounded := by
  induction raws generalizing p n with
  | nil =>
      cases hlines
      exact h
  | cons raw raws ih =>
      rw [List.foldlM_cons, bind_eq_ok_iff] at hlines
      obtain ⟨next, hline, hlines⟩ := hlines
      obtain ⟨c, p', hc, hstep, rfl⟩ := Progress.numberedLine_ok_iff.mp hline
      exact ih (h.step (inRange_of_command? hc) hstep) hlines

/-- The last track of a layout, once the open track has been laid out, is of a source that was there
before. -/
theorem Progress.measured_closeTrack (hclose : p.closeTrack = .ok q)
    (hlength : ∀ t ∈ p.layout.tracks ++ p.track.toList, t.Measured) :
    ∀ last ∈ q.layout.tracks.getLast?, last.Measured := by
  intro last hlast
  rcases closeTrack_cases hclose with ⟨-, rfl⟩ | ⟨t, layout, ht, hplace, rfl⟩
  · exact hlength last (List.mem_append_left _ (List.mem_of_getLast? hlast))
  · obtain ⟨start, skip, hplaced⟩ := Layout.getLast?_place hplace
    cases hplaced.symm.trans hlast
    exact hlength t (by simp [ht])

/-- At every point of a sheet, what is added next and what would close it can be done in words. -/
theorem Progress.Bounded.inWords (h : p.Bounded)
    (hlength : ∀ t ∈ p.layout.tracks ++ p.track.toList, t.Measured) :
    (∀ t ∈ p.track, p.layout.addWords t p.prestart p.pregap =
      some (p.layout.add t p.prestart p.pregap)) ∧
    ∀ q, p.closeTrack = .ok q → q.layout.closeWords = some q.layout.close := by
  refine ⟨fun t ht => ?_, fun q hclose => ?_⟩
  · refine h.layout.addWords (h.entry ht) fun last hlast => ?_
    exact hlength last (List.mem_append_left _ (List.mem_of_getLast? hlast))
  · exact (h.closeTrack hclose).layout.closeWords (measured_closeTrack hclose hlength)

/-! ### What is loaded -/

variable {storage : Storage} {resolver : Resolver} {path : String} {cursors opened : Cursors}
  {disc : Disc}

/-- The tracks of a sheet are within bounds, the lead-out included. -/
theorem inRange_of_load (hload : load storage resolver path cursors = .ok (disc, opened)) {t : Track}
    (ht : t ∈ disc.tracks) : t.InRange := by
  unfold load at hload
  split at hload
  · cases hload
  · cases hload
  · obtain ⟨⟨p, n⟩, hlines, hload⟩ := bind_eq_ok_iff.mp hload
    obtain ⟨_, hfinish, ⟨⟩⟩ := bind_eq_ok_iff.mp hload
    rw [Lines.foldM_eq] at hlines
    have hp : p.Bounded := bounded_of_lines (bounded_start cursors) hlines
    obtain ⟨q, hclose, tracks, htracks, rfl⟩ := Progress.finish_ok_iff.mp hfinish
    have hq : q.layout.Bounded := (hp.closeTrack hclose).layout
    obtain ⟨init, last, length, start, skip, hlast, -⟩ := Layout.finish_cases htracks
    -- the lead-out is one more addition, and its number is a byte like all others
    obtain ⟨hnumber, m, hplace, rfl⟩ := (Layout.finish_ok_iff hlast).mp htracks
    have hbound : last.Bounded := (hq.tracks last (by simp [hlast])).1
    obtain ⟨htrack, hskip⟩ := (hq.place (Layout.bounded_closing hbound hnumber) hplace).tracks t ht
    have hbyte := htrack.number
    exact ⟨htrack.start, by omega, htrack.size_le⟩

end Sheet

/-- The tracks of a bare image are within bounds. -/
theorem Volume.inRange_of_load {storage : Storage} {path : String} {cursors opened : Cursors}
    {loaded : Disc} (hload : Volume.load storage path cursors = .ok (loaded, opened)) {t : Track}
    (ht : t ∈ loaded.tracks) : t.InRange := by
  unfold Volume.load at hload
  split at hload
  · cases hload
  · split at hload
    · cases hload
    · rename_i form detected hdetect
      dsimp only at hload
      split at hload
      · rename_i hlength
        cases hload
        have hform : form.sectorSize ≤ 2352 := by
          have hforms : ∀ form ∈ Volume.forms, form.sectorSize ≤ 2352 := by decide
          exact hforms form (Volume.mem_of_detect hdetect)
        rcases List.mem_pair.mp ht with rfl | rfl
        · exact ⟨Nat.two_pow_pos 32, Nat.zero_le _, hform⟩
        · exact ⟨Nat.lt_succ_iff.mpr hlength, Nat.zero_le _, Nat.zero_le _⟩
      · cases hload

/-- Every track of a disc is within bounds, and ends at a sector that can be counted. -/
theorem Disc.Loaded.inRange {disc : Disc} (h : disc.Loaded) {t : Track} (ht : t ∈ disc.tracks) :
    t.InRange ∧ t.endSector < 2 ^ 32 := by
  have hrange : ∀ u ∈ disc.tracks, u.InRange := by
    obtain ⟨lib, path, cursors, opened, hload⟩ := h
    intro u hu
    rcases Disc.load_ok_iff.mp hload with hsheet | ⟨-, hvolume⟩
    · exact Sheet.inRange_of_load hsheet hu
    · exact Volume.inRange_of_load hvolume hu
  refine ⟨hrange t ht, ?_⟩
  obtain ⟨init, last, out, heq, hlength, -⟩ := h.closed.eq_append
  rw [List.append_cons] at heq
  have hout : out.start < 2 ^ 32 := (hrange out (by simp [heq])).start
  rw [heq, List.mem_append, List.mem_singleton] at ht
  rcases ht with ht | rfl
  · -- no track ends behind the lead-out, whose start was checked when it was added
    have hend : t.endSector ≤ out.start :=
      h.closed.endSector_le (by rw [heq, List.getLast?_concat]) (by rwa [heq, List.dropLast_concat])
    exact Nat.lt_of_le_of_lt hend hout
  · rwa [Track.endSector_of_length_zero hlength]

/-- Up to 32-bit numbers of sectors, the bytes of a track can be counted. -/
theorem Track.InRange.offset_lt {t : Track} (h : t.InRange) {n : Nat} (hn : n < 2 ^ 32) :
    t.skip + n * t.sectorSize + 24 < 2 ^ 64 := by
  have hskip := h.skip
  have hbytes : n * t.sectorSize ≤ 0x93000000000 := Nat.mul_le_mul (Nat.le_of_lt hn) h.size
  omega

/-- **Words suffice.** A sheet is read line by line, and the open track is added when a line or the end of
the sheet shows that its description is complete. However many lines have been read, of whatever sheet, with
sources whose lengths fit into a signed word: adding the open track, and closing the layout behind it, come
to the same in 64-bit words as without limit, be it a success or a failure; so no sum, difference, product
or conversion exceeds them. On every disc that is loaded, the end of each track fits into 32 bits, and into
64 the byte of every sector in either form and the byte at which each request begins to play. -/
theorem Disc.words_suffice :
    (∀ (env : Sheet.Surroundings) (cursors : Cursors) (lines : List Sheet.RawLine) p n,
      lines.foldlM (Sheet.Progress.numberedLine env) ({ cursors }, 1) = .ok (p, n) →
      (∀ t ∈ p.layout.tracks ++ p.track.toList, t.Measured) →
        (∀ t ∈ p.track, p.layout.addWords t p.prestart p.pregap =
          some (p.layout.add t p.prestart p.pregap)) ∧
        ∀ q, p.closeTrack = .ok q → q.layout.closeWords = some q.layout.close) ∧
    ∀ disc : Disc, disc.Loaded →
      (∀ t ∈ disc.tracks, t.start + t.length < 2 ^ 32 ∧
        ∀ raw sector, sector < 2 ^ 32 → t.byteOf raw sector < 2 ^ 64) ∧
      ∀ hasOutput start length plan, Plan.find disc hasOutput start length = .ok plan →
        plan.offset < 2 ^ 64 := by
  refine ⟨?_, fun disc hdisc => ⟨fun t ht => ?_, ?_⟩⟩
  · intro env cursors lines p n hlines hlength
    exact (Sheet.bounded_of_lines (Sheet.bounded_start cursors) hlines).inWords hlength
  · obtain ⟨hrange, hend⟩ := hdisc.inRange ht
    refine ⟨hend, fun raw sector hsector => ?_⟩
    have hoffset := hrange.offset_lt (Nat.lt_of_le_of_lt (Nat.sub_le sector t.start) hsector)
    unfold Track.byteOf
    split
    · omega
    · split
      · omega
      · split <;> omega
  · intro hasOutput start length plan hplan
    obtain ⟨-, -, t, s, ht, -, -, -, rfl⟩ := Plan.find_ok_iff.mp hplan
    obtain ⟨hrange, hend⟩ := hdisc.inRange (mem_of_track? ht)
    unfold Track.endSector at hend
    have hoffset := hrange.offset_lt (n := min (start - t.start) (t.length - 1)) (by omega)
    dsimp only
    omega

/-- A sheet of two files with a track each. -/
def Sheet.twoTracks : Contents :=
  .ofArray (Text.ascii "FILE a BINARY\nTRACK 1 AUDIO\nFILE b BINARY\nTRACK 2 AUDIO").toArray

/-- The sheet and its files, the first of them as long as a signed word can say. -/
def Sheet.hugeStorage : Storage where
  entries := [(⟨false, ["s"]⟩, .file twoTracks), (⟨false, ["a"]⟩, .file (.filled (2 ^ 63 - 1) 0)),
    (⟨false, ["b"]⟩, .file (.filled 2352 0))]

open Sheet in
/-- Behind the long file the second track cannot be added, and in words it cannot either; the disc of three
files has its sectors within bounds. -/
theorem Disc.words_suffice_hugeStorage :
    (∃ p n, (Lines.read twoTracks).foldlM
        (Progress.numberedLine ⟨hugeStorage, .search hugeStorage, Path.parent "s"⟩)
        ({ cursors := .none }, 1) = .ok (p, n) ∧
      (∀ t ∈ p.layout.tracks ++ p.track.toList, t.Measured) ∧
      ∃ t, p.track = some t ∧ (p.layout.addWords t p.prestart p.pregap).map Prod.fst =
        some (.error (.outOfRange 1 3921501716349820))) ∧
    ∃ disc : Disc, disc.Loaded ∧ ∀ t ∈ disc.tracks, t.start + t.length < 2 ^ 32 := by
  constructor
  · have hlines : ((Lines.read twoTracks).foldlM
        (Progress.numberedLine ⟨hugeStorage, .search hugeStorage, Path.parent "s"⟩)
        ({ cursors := .none }, 1)).toOption.any (fun read =>
          (read.1.layout.tracks ++ read.1.track.toList).all (fun t =>
            (t.source.bind Source.length).all fun n => decide (n < 2 ^ 63)) &&
          read.1.track.any fun t => decide ((read.1.layout.add t read.1.prestart read.1.pregap).1 =
            .error (.outOfRange 1 3921501716349820))) = true := by
      decide +kernel
    obtain ⟨⟨p, n⟩, hok, hfacts⟩ := (Option.any_eq_true _ _).mp hlines
    obtain ⟨hlengths, hrefused⟩ := Bool.and_eq_true_iff.mp hfacts
    have hrun := toOption_eq_some_iff.mp hok
    have hmeasured : ∀ t ∈ p.layout.tracks ++ p.track.toList, t.Measured := by
      intro t ht m hm
      have hlength := List.all_eq_true.mp hlengths t ht
      rw [hm] at hlength
      exact of_decide_eq_true hlength
    obtain ⟨t, ht, herror⟩ := (Option.any_eq_true _ _).mp hrefused
    obtain ⟨hadd, -⟩ := words_suffice.1 _ .none (Lines.read twoTracks) p n hrun hmeasured
    refine ⟨p, n, hrun, hmeasured, t, ht, ?_⟩
    rw [hadd t ht, Option.map_some, of_decide_eq_true herror]
  · obtain ⟨es, disc, cursors, -, hload, -⟩ := load_threeFiles
    have hdisc : disc.Loaded :=
      ⟨.ofStorage threeFilesStorage, "s", .none, cursors, load_ok_iff.mpr (Or.inl hload)⟩
    exact ⟨disc, hdisc, fun t ht => ((words_suffice.2 disc hdisc).1 t ht).1⟩

end CompactDisc
