import CompactDisc.Proofs.Disc.Partition

/-!
# CompactDisc.Proofs.Disc.Owner

**Which track owns a sector** of a loaded disc, told by what stands before and behind it in the track list.
The owner is the first track that ends after the sector. On a disc with a lead-out there is such a track
for every sector before the lead-out, and it is never the lead-out itself (`track?_of_inside`).
-/

namespace CompactDisc.Disc

/-- A sector that no track can own: past the last address, before the first track, or from the
lead-out on. -/
def Outside (d : Disc) (sector : Nat) : Prop :=
  RedBook.lastSector < sector ∨ (∀ first ∈ d.tracks.head?, sector < first.start) ∨
    ∀ out ∈ d.tracks.getLast?, out.start ≤ sector

/-- A sector with an owner is none of those that no track can own. -/
theorem inside_of_track? {d : Disc} {sector : Nat} {t : Track} (h : d.Sequential)
    (howner : d.track? sector = some t) : ¬ d.Outside sector := by
  obtain ⟨first, out, hfirst, hout⟩ := h.ends
  obtain ⟨hlower, hupper, haddress⟩ := h.bounds_of_track? howner hfirst hout
  intro houtside
  rcases houtside with hlate | hearly | hbehind
  · exact absurd haddress (Nat.not_le.mpr hlate)
  · exact absurd hlower (Nat.not_le.mpr (hearly first hfirst))
  · exact absurd hupper (Nat.not_lt.mpr (hbehind out hout))

theorem track?_of_outside {d : Disc} (h : d.Sequential) {sector : Nat} (ho : d.Outside sector) :
    d.track? sector = none := by
  by_contra hsome
  obtain ⟨t, ht⟩ := Option.ne_none_iff_exists'.mp hsome
  exact inside_of_track? h ht ho

/-- The last two entries of a disc are a track and the lead-out right behind it. -/
theorem Closed.eq_append {d : Disc} (h : d.Closed) :
    ∃ init last out, d.tracks = init ++ [last, out] ∧ out.length = 0 ∧ out.source = none ∧
      out.start = last.endSector := by
  obtain ⟨playable, out, htracks⟩ := (List.eq_nil_or_concat d.tracks).resolve_left fun hnil => by
    have := h.enough
    simp [hnil] at this
  rw [List.concat_eq_append] at htracks
  have hlength := h.enough
  rw [htracks, List.length_append, List.length_singleton] at hlength
  obtain ⟨init, last, hplayable⟩ := (List.eq_nil_or_concat playable).resolve_left fun hnil => by
    simp [hnil] at hlength
  rw [List.concat_eq_append] at hplayable
  have hout := h.leadOut out (by rw [htracks, List.getLast?_concat]; rfl)
  rw [htracks, List.dropLast_concat, hplayable, endOf_concat] at hout
  refine ⟨init, last, out, ?_, hout.1, hout.2.1, hout.2.2.2⟩
  rw [htracks, hplayable, List.append_assoc]
  rfl

/-- No track that comes later on the disc starts before a track ends. -/
theorem endSector_le_start {t : Track} {after : List Track}
    (h : (t :: after).IsChain Track.Precedes) : ∀ u ∈ after, t.endSector ≤ u.start := by
  induction after generalizing t with
  | nil => exact nofun
  | cons u rest ih =>
      obtain ⟨hfirst, hrest⟩ := List.isChain_cons_cons.mp h
      intro w hw
      rcases List.mem_cons.mp hw with rfl | hw
      · exact hfirst.start
      · have hlater := ih hrest w hw
        have hstart := hfirst.start
        unfold Track.endSector at hlater hstart ⊢
        omega

/-- Every track ends before the lead-out. -/
theorem Closed.endSector_le {d : Disc} {t out : Track} (h : d.Closed)
    (hout : d.tracks.getLast? = some out) (ht : t ∈ d.tracks.dropLast) :
    t.endSector ≤ out.start := by
  obtain ⟨init, last, out', htracks, -⟩ := h.eq_append
  rw [htracks, List.append_cons, List.getLast?_concat, Option.some.injEq] at hout
  subst hout
  have hordered := h.ordered
  rw [htracks, List.append_cons] at hordered ht
  rw [List.dropLast_concat] at ht
  obtain ⟨front, back, heq⟩ := List.append_of_mem ht
  rw [heq, List.append_assoc] at hordered
  exact endSector_le_start (List.isChain_append.mp hordered).2.1 out' (by simp)

/-- **The owner** of a sector is the first track that ends after it. -/
theorem track?_of_inside {d : Disc} (h : d.Closed) {sector : Nat} (hi : ¬ d.Outside sector) :
    ∃ before t after, d.tracks = before ++ t :: after ∧ after ≠ [] ∧
      (∀ u ∈ before, u.endSector ≤ sector) ∧ sector < t.endSector ∧ d.track? sector = some t := by
  have hs := h.sequential
  obtain ⟨first, out, hfirst, hout⟩ := hs.ends
  simp only [Outside, hfirst, show d.tracks.getLast? = some out from hout, Option.mem_some_iff,
    forall_eq', not_or, Nat.not_lt, Nat.not_le] at hi
  obtain ⟨haddress, hlower, hupper⟩ := hi
  rw [← border_zero hfirst] at hlower
  rw [← hs.border_leadOut hout] at hupper
  have henough := hs.enough
  obtain ⟨k, hk⟩ := exists_ownsAt (by omega) hlower hupper
  have hlength : k < d.tracks.length := Nat.lt_of_succ_lt hk.playable
  refine ⟨d.tracks.take k, d.tracks[k], d.tracks.drop (k + 1), ?_, ?_, fun u hu => ?_, ?_, ?_⟩
  · rw [List.getElem_cons_drop, List.take_append_drop]
  · simpa using hk.playable
  · obtain ⟨j, hj, rfl⟩ := List.getElem_of_mem hu
    rw [List.length_take] at hj
    rw [List.getElem_take, ← border_succ (by omega)]
    exact Nat.le_trans (hs.border_mono (by omega) (Nat.le_of_lt hlength)) hk.lower
  · rw [← border_succ hlength]
    exact hk.upper
  · rw [hs.track?_of_ownsAt hk haddress, List.getElem?_eq_getElem hlength]

/-- Where an owner stands: not last, and behind all tracks that end before the sector. -/
theorem Closed.split_of_track? {d : Disc} {sector : Nat} {t : Track} (h : d.Closed)
    (howner : d.track? sector = some t) :
    ∃ before after, d.tracks = before ++ t :: after ∧ after ≠ [] ∧
      (∀ u ∈ before, u.endSector ≤ sector) ∧ sector < t.endSector := by
  obtain ⟨before, u, after, heq, hafter, hbefore, hend, hu⟩ :=
    track?_of_inside h (inside_of_track? h.sequential howner)
  cases howner.symm.trans hu
  exact ⟨before, after, heq, hafter, hbefore, hend⟩

/-- A sector lies before the end of its owner. -/
theorem Closed.lt_endSector {d : Disc} {sector : Nat} {t : Track} (h : d.Closed)
    (howner : d.track? sector = some t) : sector < t.endSector := by
  obtain ⟨-, -, -, -, -, hend⟩ := h.split_of_track? howner
  exact hend

/-- The lead-out owns nothing. -/
theorem Closed.mem_dropLast_of_track? {d : Disc} {sector : Nat} {t : Track} (h : d.Closed)
    (howner : d.track? sector = some t) : t ∈ d.tracks.dropLast := by
  obtain ⟨before, after, heq, hafter, -⟩ := h.split_of_track? howner
  rw [heq, List.dropLast_append_of_ne_nil (List.cons_ne_nil _ _),
    List.dropLast_cons_of_ne_nil hafter]
  simp

/-- A sector with an owner lies before the lead-out. -/
theorem Closed.lt_leadOut {d : Disc} {sector : Nat} {t out : Track} (h : d.Closed)
    (howner : d.track? sector = some t) (hout : d.leadOut? = some out) : sector < out.start := by
  have hinside := inside_of_track? h.sequential howner
  simp only [Outside, not_or, not_forall, Nat.not_le] at hinside
  obtain ⟨-, -, out', hout', hlt⟩ := hinside
  cases hout.symm.trans hout'
  exact hlt

end CompactDisc.Disc
