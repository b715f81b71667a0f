import CompactDisc.Proofs.Layout.Order

/-!
# CompactDisc.Proofs.Layout.Packed

**A source takes no more sectors than it was given.** No sector is larger than 2352 bytes, so the bytes
between two tracks of a source fit into the sectors between them (`Track.Packed`), gaps and pregaps
included; and so does what is left of the source behind a track (`Track.rest_le_of_chain`).

Proof shape: an entry is placed by the length that the last track had before, so the step lemma
(`Layout.Packed.place`) is about layouts whose last track has no length yet. These are the ones to which
every entry could be added; one that is refused may leave its length behind.
-/

namespace CompactDisc

namespace Track

/-- Within a source, the bytes from one track to another fit into the sectors from one to the other. -/
def Packed (t u : Track) : Prop :=
  t.sharesSource u = true → u.skip + t.start * 2352 ≤ t.skip + u.start * 2352

variable {t u : Track} {s : Source}

/-- Sectors of a track hold the bytes that they are counted for. -/
theorem le_sectorsOf_mul (hpos : 0 < t.sectorSize) (hsize : t.sectorSize ≤ 2352) (bytes : Nat) :
    bytes ≤ t.sectorsOf bytes * 2352 := by
  have hlast : bytes + t.sectorSize - 1 < (t.sectorsOf bytes + 1) * t.sectorSize :=
    (Nat.div_lt_iff_lt_mul hpos).mp (Nat.lt_succ_self _)
  have hall : t.sectorsOf bytes * t.sectorSize ≤ t.sectorsOf bytes * 2352 :=
    Nat.mul_le_mul_left _ hsize
  rw [Nat.add_mul, Nat.one_mul] at hlast
  omega

/-- **What is left of a source** behind the beginning of a track fits into the sectors up to the end of
the last track of the source. -/
theorem rest_le_of_chain {after : List Track} (hbefore : (t :: after).IsChain Before)
    (hpacked : (t :: after).IsChain Packed)
    (hids : (t :: after).Pairwise fun t u => ∀ s ∈ t.source, ∀ s' ∈ u.source, s = s' ∨ s.id < s'.id)
    (hclosed : ∀ out ∈ (t :: after).getLast?, out.source = none)
    (hsized : ∀ w ∈ t :: after, w.source.isSome = true → 0 < w.sectorSize ∧ w.sectorSize ≤ 2352)
    (hs : t.source = some s) {size : Nat} (hsize : s.length = some size) :
    ∃ w ∈ t :: after, size + t.start * 2352 ≤ t.skip + w.endSector * 2352 := by
  induction after generalizing t with
  | nil =>
      have hnone := hclosed t rfl
      rw [hs] at hnone
      cases hnone
  | cons u rest ih =>
      obtain ⟨hfirst, hrest⟩ := List.isChain_cons_cons.mp hbefore
      obtain ⟨hroom, hpacked⟩ := List.isChain_cons_cons.mp hpacked
      cases hshare : t.sharesSource u with
      | false =>
          -- the last track of the source has all of its rest
          obtain ⟨total, htotal, -, hlength⟩ := hfirst.whole hshare
          rw [hs, Option.bind_some, hsize, Option.some.injEq] at htotal
          obtain ⟨hpos, hle⟩ := hsized t List.mem_cons_self (by rw [hs]; rfl)
          have hall := le_sectorsOf_mul hpos hle (total - t.skip)
          rw [← hlength] at hall
          refine ⟨t, List.mem_cons_self, ?_⟩
          unfold endSector
          omega
      | true =>
          have hu := source_of_shares (List.rel_of_pairwise_cons hids List.mem_cons_self) hs hshare
          obtain ⟨w, hw, hle⟩ := ih hrest hpacked (List.pairwise_cons.mp hids).2
            (fun out hout => hclosed out (by rwa [List.getLast?_cons_cons]))
            (fun w hw => hsized w (List.mem_cons_of_mem _ hw)) hu
          have hbytes : u.skip + t.start * 2352 ≤ t.skip + u.start * 2352 := hroom hshare
          exact ⟨w, List.mem_cons_of_mem _ hw, by grind only⟩

end Track

namespace Layout

/-- A layout to which every entry could be added, none of them with sectors of more than 2352 bytes. -/
structure Packed (l : Layout) : Prop where
  packed : l.tracks.IsChain Track.Packed
  size_le : ∀ t ∈ l.tracks, t.sectorSize ≤ 2352
  /-- The length of the last track is learnt when the next one comes. -/
  fresh : ∀ last ∈ l.tracks.getLast?, last.length = 0

variable {l m : Layout} {e : Entry} {es : List Entry} {tracks : List Track}

/-- The length of a track is not looked at. -/
theorem isChain_packed_last {init : List Track} {prev : Track} (length : Nat)
    (h : (init ++ [prev]).IsChain Track.Packed) :
    (init ++ [{ prev with length }]).IsChain Track.Packed := by
  rw [List.isChain_append] at h ⊢
  obtain ⟨hinit, -, hlast⟩ := h
  refine ⟨hinit, List.isChain_singleton _, fun t ht u hu => ?_⟩
  cases hu
  exact hlast t ht prev rfl

/-- The first track of a layout or the next one. -/
theorem Packed.of_tracks {init : List Track} {start skip : Nat} (hinit : init.IsChain Track.Packed)
    (hsizes : ∀ u ∈ init, u.sectorSize ≤ 2352) (hsize : e.track.sectorSize ≤ 2352)
    (hfresh : e.track.length = 0)
    (hlast : ∀ last ∈ init.getLast?, last.Packed { e.track with start, skip })
    (hm : m.tracks = init ++ [{ e.track with start, skip }]) : m.Packed where
  packed := by
    rw [hm]
    refine List.isChain_append.mpr ⟨hinit, List.isChain_singleton _, fun last hmem u hu => ?_⟩
    cases hu
    exact hlast last hmem
  size_le := by
    rw [hm]
    intro u hu
    rcases List.mem_append.mp hu with hu | hu
    · exact hsizes u hu
    · cases List.mem_singleton.mp hu
      exact hsize
  fresh := by
    rw [hm, List.getLast?_concat]
    rintro last ⟨⟩
    exact hfresh

/-- Adding an entry keeps the bytes of each source within its sectors. -/
theorem Packed.place (h : l.Packed) (hsize : e.track.sectorSize ≤ 2352) (hfresh : e.track.length = 0)
    (hplace : l.place e = .ok m) : m.Packed := by
  rcases List.eq_nil_or_concat l.tracks with hl | ⟨init, prev, hl⟩
  · obtain ⟨-, -, rfl⟩ := (place_first_ok_iff hl).mp hplace
    exact .of_tracks List.isChain_nil nofun hsize hfresh nofun rfl
  rw [List.concat_eq_append] at hl
  have hpacked := h.packed
  have hsizes := h.size_le
  rw [hl] at hpacked hsizes
  have hprev : prev.sectorSize ≤ 2352 := hsizes prev (by simp)
  have hclosed : ∀ length, ∀ u ∈ init ++ [{ prev with length }], u.sectorSize ≤ 2352 := by
    intro length u hu
    rcases List.mem_append.mp hu with hu | hu
    · exact hsizes u (List.mem_append_left _ hu)
    · cases List.mem_singleton.mp hu
      exact hprev
  cases hshare : prev.sharesSource e.track with
  | true =>
      have hopen : prev.length = 0 := h.fresh prev (by rw [hl, List.getLast?_concat]; rfl)
      obtain ⟨hgap, length, hlength, -, -, -, -, rfl⟩ :=
        (place_same_ok_iff hl hshare hopen).mp hplace
      refine .of_tracks (isChain_packed_last length hpacked) (hclosed length) hsize hfresh ?_
        (List.append_cons ..)
      rw [List.getLast?_concat]
      rintro _ ⟨⟩ -
      -- what is stored of both is no more than the sectors that are counted
      have hown : length * prev.sectorSize ≤ length * 2352 := Nat.mul_le_mul_left _ hprev
      have hstored : e.gap * e.track.sectorSize ≤ e.gap * 2352 := Nat.mul_le_mul_left _ hsize
      unfold Entry.gap at hstored ⊢
      dsimp only
      omega
  | false =>
      obtain ⟨-, total, -, -, length, -, -, -, -, -, rfl⟩ := (place_new_ok_iff hl hshare).mp hplace
      refine .of_tracks (isChain_packed_last length hpacked) (hclosed length) hsize hfresh ?_
        (List.append_cons ..)
      rw [List.getLast?_concat]
      rintro _ ⟨⟩ hsame
      exact absurd (hshare.symm.trans hsame) Bool.false_ne_true

/-- **A disc from entries** keeps the bytes of each source within its sectors. -/
theorem packed_ofEntries (hes : ∀ e ∈ es, e.track.sectorSize ≤ 2352 ∧ e.track.length = 0)
    (h : ofEntries es = .ok tracks) : tracks.IsChain Track.Packed := by
  obtain ⟨l, hl, hfinish⟩ := ofEntries_ok_iff.mp h
  have hpacked : l.Packed := extend_induction hl ⟨List.isChain_nil, nofun, nofun⟩
    fun _ e _ he hl hplace => hl.place (hes e he).1 (hes e he).2 hplace
  rcases List.eq_nil_or_concat l.tracks with hnil | ⟨init, last, hlast⟩
  · rw [finish_of_empty hnil] at hfinish
    cases hfinish
  · rw [List.concat_eq_append] at hlast
    -- the lead-out is one more entry, with sectors like those of the last track
    obtain ⟨-, m, hplace, rfl⟩ := (finish_ok_iff hlast).mp hfinish
    exact (hpacked.place (hpacked.size_le last (by simp [hlast])) rfl hplace).packed

end Layout

end CompactDisc
