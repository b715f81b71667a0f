import CompactDisc.Proofs.Disc.Loaded
import Mathlib.Logic.ExistsUnique

/-!
# CompactDisc.Proofs.Disc.Partition

**The sectors of a disc are divided among its tracks.** Each place in the track list has the sectors
from where the track before it ends up to where its own track ends (`Disc.OwnsAt`), so a gap goes to the
track behind it, and an empty track without a gap has nothing. Between the start of the first track and
the lead-out every sector belongs to exactly one place, and never to the last (`track?_partition`).

Proof shape: the ends of the tracks, with the start of the first before them, are a row of borders that
never goes back (`Sequential.border_mono`). Between two neighbours of such a row lies every number
between its ends, and the first track that ends after a sector is the one at that place.
-/

namespace CompactDisc

namespace Disc

/-- Tracks that come one after another, up to a lead-out without length right behind the last. -/
structure Sequential (d : Disc) : Prop where
  enough : 2 ≤ d.tracks.length
  ordered : d.tracks.IsChain fun t u => t.endSector ≤ u.start
  leadOut : ∀ out ∈ d.leadOut?, out.length = 0 ∧ out.start = endOf d.tracks.dropLast

/-- Where the sectors of a place begin: where the track before it ends, and for the first place where its
own track starts. -/
def border (d : Disc) : Nat → Nat
  | 0 => d.tracks.head?.elim 0 Track.start
  | k + 1 => d.tracks[k]?.elim 0 Track.endSector

/-- A sector between the borders of a place that is not the last. -/
structure OwnsAt (d : Disc) (k sector : Nat) : Prop where
  playable : k + 1 < d.tracks.length
  lower : d.border k ≤ sector
  upper : sector < d.border (k + 1)

variable {d : Disc} {k sector : Nat}

/-- A disc that can be relied on has its tracks one after another. -/
theorem Closed.sequential (h : d.Closed) : d.Sequential where
  enough := h.enough
  ordered := h.ordered.imp fun _ _ hnext => hnext.start
  leadOut out hout := ⟨(h.leadOut out hout).1, (h.leadOut out hout).2.2.2⟩

/-! ### The scan -/

/-- Once a sector is not before the bound that is carried along, the scan finds the first track that ends
after it. -/
theorem search_eq_find? {lower : Nat} {ts : List Track} (h : lower ≤ sector) :
    search sector lower ts = ts.find? fun t => sector < t.endSector := by
  induction ts generalizing lower with
  | nil => rfl
  | cons t rest ih =>
      rw [search, List.find?_cons]
      by_cases ht : sector < t.endSector
      · rw [if_pos ⟨h, ht⟩, decide_eq_true ht]
      · rw [if_neg fun hboth => ht hboth.2, decide_eq_false ht]
        exact ih (Nat.le_of_not_lt ht)

/-- Nothing is found for a sector before all tracks. -/
theorem search_of_before {lower : Nat} {ts : List Track} (h : sector < lower)
    (hts : ∀ t ∈ ts, sector < t.start) : search sector lower ts = none := by
  induction ts generalizing lower with
  | nil => rfl
  | cons t rest ih =>
      have ht : sector < t.endSector := Nat.lt_of_lt_of_le (hts t (by simp)) (Nat.le_add_right _ _)
      rw [search, if_neg (by omega)]
      exact ih ht fun u hu => hts u (List.mem_cons_of_mem _ hu)

/-! ### Borders -/

theorem border_succ (hk : k < d.tracks.length) :
    d.border (k + 1) = (d.tracks[k]).endSector := by
  simp [border, hk]

theorem border_zero {first : Track} (hfirst : d.tracks.head? = some first) :
    d.border 0 = first.start := by
  simp [border, hfirst]

/-- Every sector up to a border belongs to a place before it. -/
theorem exists_ownsAt {m : Nat} (hm : m < d.tracks.length) (hlower : d.border 0 ≤ sector)
    (hupper : sector < d.border m) : ∃ k, d.OwnsAt k sector := by
  induction m with
  | zero => exact absurd hlower (Nat.not_le.mpr hupper)
  | succ m ih =>
      by_cases hbefore : sector < d.border m
      · exact ih (Nat.lt_of_succ_lt hm) hbefore
      · exact ⟨m, hm, Nat.le_of_not_lt hbefore, hupper⟩

namespace Sequential

/-- There is a first track and a lead-out. -/
theorem ends (h : d.Sequential) :
    ∃ first out, d.tracks.head? = some first ∧ d.leadOut? = some out := by
  have henough := h.enough
  have hnonempty : d.tracks ≠ [] := List.ne_nil_of_length_pos (by omega)
  exact ⟨_, _, List.head?_eq_some_head hnonempty, List.getLast?_eq_some_getLast hnonempty⟩

/-- A track starts at the border of its place, or behind a gap. -/
theorem border_le_start (h : d.Sequential) (hk : k < d.tracks.length) :
    d.border k ≤ (d.tracks[k]).start := by
  cases k with
  | zero => simp [border, List.head?_eq_getElem?, hk]
  | succ k =>
      rw [border_succ (Nat.lt_of_succ_lt hk)]
      exact List.isChain_iff_getElem.mp h.ordered k hk

theorem border_le_succ (h : d.Sequential) (hk : k < d.tracks.length) :
    d.border k ≤ d.border (k + 1) := by
  rw [border_succ hk]
  exact Nat.le_trans (h.border_le_start hk) (Nat.le_add_right _ _)

/-- Borders never go back. -/
theorem border_mono (h : d.Sequential) {j : Nat} (hjk : j ≤ k) (hk : k ≤ d.tracks.length) :
    d.border j ≤ d.border k := by
  induction hjk with
  | refl => exact Nat.le_refl _
  | step _ ih => exact Nat.le_trans (ih (Nat.le_of_succ_le hk)) (h.border_le_succ hk)

/-- The border before the lead-out is its start. -/
theorem border_leadOut (h : d.Sequential) {out : Track} (hout : d.leadOut? = some out) :
    d.border (d.tracks.length - 1) = out.start := by
  obtain ⟨n, hn⟩ : ∃ n, d.tracks.length = n + 2 := Nat.exists_eq_add_of_le' h.enough
  have hlast : d.tracks.dropLast.getLast? = some d.tracks[n] := by
    rw [List.getLast?_eq_getElem?, List.length_dropLast, List.getElem?_dropLast]
    simp [hn]
  have hplace : d.tracks.length - 1 = n + 1 := by omega
  rw [(h.leadOut out hout).2, endOf, hlast, hplace]
  exact border_succ (by omega)

/-! ### Places -/

/-- Later sectors belong to the same place or a later one. -/
theorem le_of_ownsAt (h : d.Sequential) {k' sector' : Nat} (hk : d.OwnsAt k sector)
    (hk' : d.OwnsAt k' sector') (hle : sector ≤ sector') : k ≤ k' := by
  by_contra hlater
  have hborder : d.border (k' + 1) ≤ d.border k :=
    h.border_mono (Nat.lt_of_not_le hlater) (Nat.le_of_succ_le (Nat.le_of_lt hk.playable))
  have hlower := hk.lower
  have hupper := hk'.upper
  omega

/-- The place of a sector is where the scan finds its track. -/
theorem track?_of_ownsAt (h : d.Sequential) (hk : d.OwnsAt k sector)
    (haddress : sector ≤ RedBook.lastSector) : d.track? sector = d.tracks[k]? := by
  have hlength : k < d.tracks.length := Nat.lt_of_succ_lt hk.playable
  have henough := h.enough
  obtain ⟨first, out, hhead, hout⟩ := h.ends
  obtain ⟨rest, htracks⟩ := List.head?_eq_some_iff.mp hhead
  have hfirst : first.start ≤ sector := by
    rw [← border_zero hhead]
    exact Nat.le_trans (h.border_mono (Nat.zero_le k) (Nat.le_of_lt hlength)) hk.lower
  have hbefore : sector < out.start := by
    rw [← h.border_leadOut hout]
    exact Nat.lt_of_lt_of_le hk.upper (h.border_mono (Nat.le_sub_one_of_lt hk.playable) (by omega))
  have hfind : d.tracks.find? (fun t => sector < t.endSector) = d.tracks[k]? := by
    rw [List.getElem?_eq_getElem hlength, List.find?_eq_some_iff_getElem]
    refine ⟨?_, k, hlength, rfl, fun j hj => ?_⟩
    · rw [← border_succ hlength]
      exact decide_eq_true hk.upper
    · -- the tracks before the place have ended
      have hended : (d.tracks[j]).endSector ≤ sector := by
        rw [← border_succ (Nat.lt_trans hj hlength)]
        exact Nat.le_trans (h.border_mono hj (Nat.le_of_lt hlength)) hk.lower
      simpa using hended
  rw [← hfind, ← search_eq_find? hfirst]
  unfold track?
  rw [hout, htracks]
  rw [htracks] at henough
  dsimp only
  rw [if_neg]
  rintro (hlate | hfew | hbehind)
  · exact absurd haddress (Nat.not_le.mpr hlate)
  · exact absurd henough (Nat.not_le.mpr hfew)
  · exact absurd hbehind (Nat.not_le.mpr hbefore)

/-- The sectors of a track are those of its place. Only the lead-out has no place, and no sectors. -/
theorem ownsAt_of_within (h : d.Sequential) (hk : k < d.tracks.length)
    (hfrom : (d.tracks[k]).start ≤ sector) (hto : sector < (d.tracks[k]).endSector) :
    d.OwnsAt k sector := by
  refine ⟨?_, Nat.le_trans (h.border_le_start hk) hfrom, ?_⟩
  · by_contra hlast
    have hout : d.leadOut? = some d.tracks[k] := by
      have hplace : d.tracks.length - 1 = k := by omega
      simp [leadOut?, List.getLast?_eq_getElem?, hplace, hk]
    rw [Track.endSector_of_length_zero (h.leadOut _ hout).1] at hto
    omega
  · rwa [border_succ hk]

/-- A sector with an owner has an address, and lies between the first track and the lead-out. -/
theorem bounds_of_track? (h : d.Sequential) {t first out : Track} (ht : d.track? sector = some t)
    (hfirst : d.tracks.head? = some first) (hout : d.leadOut? = some out) :
    first.start ≤ sector ∧ sector < out.start ∧ sector ≤ RedBook.lastSector := by
  obtain ⟨rest, htracks⟩ : ∃ rest, d.tracks = first :: rest := List.head?_eq_some_iff.mp hfirst
  unfold track? at ht
  rw [hout, htracks] at ht
  dsimp only at ht
  split at ht
  · cases ht
  · rename_i hguard
    refine ⟨?_, by omega, by omega⟩
    -- before the first track nothing starts
    by_contra hearly
    have hnone : search sector first.start (first :: rest) = none := by
      refine search_of_before (Nat.lt_of_not_le hearly) fun u hu => ?_
      rw [← htracks] at hu
      obtain ⟨j, hj, rfl⟩ := List.getElem_of_mem hu
      have hstart := h.border_le_start hj
      have hborder := h.border_mono (Nat.zero_le j) (Nat.le_of_lt hj)
      rw [border_zero hfirst] at hborder
      omega
    rw [hnone] at ht
    cases ht

end Sequential

/-- **The sectors of a disc are divided among its tracks**, if these come one after another. Exactly the
sectors from the first track to the lead-out that have an address are owned. Each sector from the first
track to the lead-out belongs to one place, which is not the last: it lies between the end of the track
before and the end of the track there, and this track is the owner. So the sectors of a gap have the track
behind it, and the places of later sectors are not earlier. -/
theorem track?_partition (h : d.Sequential) : ∃ first out,
    d.tracks.head? = some first ∧ d.leadOut? = some out ∧
    (∀ sector, (d.track? sector).isSome = true ↔
      first.start ≤ sector ∧ sector < out.start ∧ sector ≤ 399999) ∧
    (∀ sector, first.start ≤ sector → sector < out.start → ∃! k, d.OwnsAt k sector) ∧
    (∀ sector t, d.track? sector = some t ↔
      sector ≤ 399999 ∧ ∃ k, d.OwnsAt k sector ∧ d.tracks[k]? = some t) ∧
    (∀ k t sector, k + 1 < d.tracks.length → d.tracks[k]? = some t → d.border k ≤ sector →
      sector < t.start → sector ≤ 399999 → d.track? sector = some t) ∧
    ∀ k k' sector sector', d.OwnsAt k sector → d.OwnsAt k' sector' → sector ≤ sector' →
      k ≤ k' := by
  have henough := h.enough
  obtain ⟨first, out, hfirst, hout⟩ := h.ends
  have hplace : ∀ sector, first.start ≤ sector → sector < out.start → ∃ k, d.OwnsAt k sector := by
    intro sector hlower hupper
    rw [← border_zero hfirst] at hlower
    rw [← h.border_leadOut hout] at hupper
    exact exists_ownsAt (by omega) hlower hupper
  have howner : ∀ sector t, d.track? sector = some t ↔
      sector ≤ 399999 ∧ ∃ k, d.OwnsAt k sector ∧ d.tracks[k]? = some t := by
    intro sector t
    constructor
    · intro ht
      obtain ⟨hlower, hupper, haddress⟩ := h.bounds_of_track? ht hfirst hout
      obtain ⟨k, hk⟩ := hplace sector hlower hupper
      exact ⟨haddress, k, hk, (h.track?_of_ownsAt hk haddress).symm.trans ht⟩
    · intro ⟨haddress, k, hk, ht⟩
      exact (h.track?_of_ownsAt hk haddress).trans ht
  refine ⟨first, out, hfirst, hout, fun sector => ⟨fun hsome => ?_, fun hinside => ?_⟩,
    fun sector hlower hupper => ?_, howner, fun k t sector hk ht hlower hgap haddress => ?_,
    fun _ _ _ _ hk hk' hle => h.le_of_ownsAt hk hk' hle⟩
  · obtain ⟨t, ht⟩ := Option.isSome_iff_exists.mp hsome
    exact h.bounds_of_track? ht hfirst hout
  · obtain ⟨hlower, hupper, haddress⟩ := hinside
    obtain ⟨k, hk⟩ := hplace sector hlower hupper
    rw [h.track?_of_ownsAt hk haddress]
    simp [Nat.lt_of_succ_lt hk.playable]
  · obtain ⟨k, hk⟩ := hplace sector hlower hupper
    refine ⟨k, hk, fun j hj => ?_⟩
    exact Nat.le_antisymm (h.le_of_ownsAt hj hk (Nat.le_refl _))
      (h.le_of_ownsAt hk hj (Nat.le_refl _))
  · obtain ⟨hlength, rfl⟩ := List.getElem?_eq_some_iff.mp ht
    refine (howner sector _).mpr ⟨haddress, k, ⟨hk, hlower, ?_⟩, ht⟩
    rw [border_succ hlength]
    exact Nat.lt_of_lt_of_le hgap (Nat.le_add_right _ _)

/-- Three tracks from sector 2 on: the second is empty and comes behind a gap. -/
def gapped : Disc where
  tracks := [{ number := 1, start := 2, length := 3 }, { number := 2, start := 7 },
    { number := 3, start := 7, length := 2 }, { number := 4, start := 9 }]

/-- The gap is owned by the empty track, and the sectors from where it stands on by the third. -/
theorem track?_partition_gapped :
    gapped.Sequential ∧ (gapped.track? 6).map Track.number = some 2 ∧
      (gapped.track? 7).map Track.number = some 3 ∧ gapped.track? 9 = none := by
  have h : gapped.Sequential := by
    refine ⟨by decide, ?_, ?_⟩
    · simp [gapped, Track.endSector]
    · intro out hout
      obtain rfl := Option.some.inj hout
      decide
  obtain ⟨first, out, hfirst, hout, hsome, -, howner, hgap, -⟩ := track?_partition h
  obtain rfl := Option.some.inj hout
  refine ⟨h, ?_, ?_, ?_⟩
  · rw [hgap 1 _ 6 (by decide) rfl (by decide) (by decide) (by decide)]
    rfl
  · rw [(howner 7 _).mpr ⟨by decide, 2, ⟨by decide, by decide, by decide⟩, rfl⟩]
    rfl
  · rw [← Option.not_isSome_iff_eq_none, hsome]
    intro hinside
    exact absurd hinside.2.1 (by decide)

end Disc

end CompactDisc
