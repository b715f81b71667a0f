import CompactDisc.Proofs.Layout.Block

/-!
# CompactDisc.Proofs.Layout.Blocks

**A disc with any number of sources.** The entries of a disc fall into blocks, one for each source
in turn (`blocks`). Every block is laid out as it would be alone, moved behind the blocks before it;
what differs is how far the entries after its first are moved. This is the sum of the first sectors
of *all* blocks so far (`shift_eq_sum`), where the first sector of the block itself would keep its
shape. So a block of two or more entries keeps its shape exactly if all blocks before it begin at
sector 0 (`block_translated_iff`).
-/

namespace CompactDisc.Layout

/-- Entries as a sheet gives them: of numbered sources that never come back, without lengths, and
with numbers that are bytes. -/
structure Described (es : List Entry) : Prop where
  sourced : ∀ e ∈ es, ∃ source, e.track.source = some source
  fresh : ∀ e ∈ es, e.track.length = 0
  byte : ∀ e ∈ es, e.track.number ≤ 255
  /-- Sources are numbered in the order in which they come. -/
  ids : es.Pairwise fun e f => ∀ s ∈ e.track.source, ∀ s' ∈ f.track.source, s = s' ∨ s.id < s'.id

/-- The entries of each source. -/
def blocks (es : List Entry) : List (List Entry) :=
  es.splitBy fun e f => e.track.sharesSource f.track

/-- The sectors ahead of a block: where the last track before it ends. -/
def firstSector (tracks : List Track) (bs : List (List Entry)) (k : Nat) : Nat :=
  endOf (tracks.take (bs.take k).flatten.length)

/-- The tracks of a block. -/
def tracksOf (tracks : List Track) (bs : List (List Entry)) (k : Nat) : List Track :=
  (tracks.drop (bs.take k).flatten.length).take (bs.getD k []).length

/-- A block has the shape that it has alone on a disc: every track is just further on, by the
sectors ahead of the block. -/
def Translated (tracks : List Track) (bs : List (List Entry)) (k : Nat) : Prop :=
  ∃ solo out, ofEntries (bs.getD k []) = .ok (solo ++ [out]) ∧
    tracksOf tracks bs k = solo.map (·.later (firstSector tracks bs k))

/-! ### Sources and blocks -/

/-- The number of a source tells which it is. -/
theorem Described.source_eq {es : List Entry} (h : Described es) {e f : Entry} (he : e ∈ es)
    (hf : f ∈ es) {s s' : Source} (hs : e.track.source = some s) (hs' : f.track.source = some s')
    (hid : s.id = s'.id) : s = s' := by
  let R : Entry → Entry → Prop := fun e f =>
    ∀ s ∈ e.track.source, ∀ s' ∈ f.track.source, s.id = s'.id → s = s'
  have : Std.Symm R := ⟨fun _ _ h s hs s' hs' hid => (h s' hs' s hs hid.symm).symm⟩
  have hall : es.Pairwise R := h.ids.imp fun h s hs s' hs' hid =>
    (h s hs s' hs').resolve_right (by omega)
  have hself : ∀ e ∈ es, R e e := fun e _ s hs s' hs' _ => by
    rw [Option.mem_def] at hs hs'
    exact Option.some.inj (hs.symm.trans hs')
  exact hall.forall_of_forall hself he hf s hs s' hs' hid

theorem flatten_blocks (es : List Entry) : (blocks es).flatten = es := List.flatten_splitBy _ _

theorem block_ne_nil {es b : List Entry} (hb : b ∈ blocks es) : b ≠ [] :=
  List.ne_nil_of_mem_splitBy hb

theorem mem_of_mem_block {es b : List Entry} (hb : b ∈ blocks es) {e : Entry} (he : e ∈ b) :
    e ∈ es := by
  rw [← flatten_blocks es]
  exact List.mem_flatten_of_mem hb he

/-- A block has one source. -/
theorem Described.sameSource {es b : List Entry} (h : Described es) (hb : b ∈ blocks es) :
    ∃ source, SameSource source b := by
  obtain ⟨e, rest, rfl⟩ := List.exists_cons_of_ne_nil (block_ne_nil hb)
  obtain ⟨source, hsource⟩ := h.sourced e (mem_of_mem_block hb (by simp))
  refine ⟨source, fun f hf => ?_⟩
  have hmem := mem_of_mem_block hb hf
  refine ⟨?_, h.fresh f hmem, h.byte f hmem⟩
  -- neighbours share their source, so all share that of the first
  have hchain := List.isChain_of_mem_splitBy hb
  have hall : (e :: rest).Pairwise fun e f =>
      e.track.source.map (·.id) = f.track.source.map (·.id) := by
    have : IsTrans Entry fun e f => e.track.source.map (·.id) = f.track.source.map (·.id) :=
      ⟨fun _ _ _ => Eq.trans⟩
    exact (hchain.imp fun _ _ h => by simpa [Track.sharesSource] using h).pairwise
  obtain ⟨source', hsource'⟩ := h.sourced f hmem
  rcases List.mem_cons.mp hf with rfl | hf
  · exact hsource
  · have hid := List.rel_of_pairwise_cons hall hf
    rw [hsource, hsource', Option.map_some, Option.map_some, Option.some.injEq] at hid
    rw [hsource', h.source_eq (mem_of_mem_block hb (by simp)) hmem hsource hsource' hid]

/-- The entries before a block, the block, and those after it. -/
theorem flatten_eq_around (bs : List (List Entry)) {k : Nat} (hk : k < bs.length) :
    bs.flatten = (bs.take k).flatten ++ bs[k] ++ (bs.drop (k + 1)).flatten := by
  have h := congrArg List.flatten (List.take_append_drop k bs)
  rw [List.drop_eq_getElem_cons hk, List.flatten_append, List.flatten_cons] at h
  rw [List.append_assoc]
  exact h.symm

/-- The source changes from one block to the next. -/
theorem blocks_differ {es : List Entry} {k : Nat} (hk : k + 1 < (blocks es).length) :
    ∃ e f, (blocks es)[k].getLast? = some e ∧ (blocks es)[k + 1].head? = some f ∧
      e.track.sharesSource f.track = false := by
  obtain ⟨ha, hb, h⟩ := (List.isChain_getLast_head_splitBy _ es).getElem k hk
  exact ⟨_, _, List.getLast?_eq_some_getLast ha, List.head?_eq_some_head hb, h⟩

/-- What comes right before a block is of another source. -/
theorem before_block {es : List Entry} {k : Nat} (hk : k < (blocks es).length) {source : Source}
    (same : SameSource source (blocks es)[k]) :
    ∀ e ∈ ((blocks es).take k).flatten.getLast?,
      e.track.source.map (·.id) ≠ some source.id := by
  intro e he
  cases k with
  | zero => simp at he
  | succ k =>
      obtain ⟨b, f, hb, hf, hdiffer⟩ := blocks_differ hk
      rw [List.take_succ_eq_append_getElem (by omega), List.flatten_append, List.flatten_singleton,
        List.getLast?_append, hb] at he
      cases he
      have hsource := (same f (List.mem_of_head? hf)).1
      simpa [Track.sharesSource, hsource] using hdiffer

/-- What comes right after a block is of another source. -/
theorem after_block {es : List Entry} {k : Nat} (hk : k < (blocks es).length) {source : Source}
    (same : SameSource source (blocks es)[k]) :
    ∀ e ∈ ((blocks es).drop (k + 1)).flatten.head?,
      e.track.source.map (·.id) ≠ some source.id := by
  intro e he
  by_cases hk' : k + 1 < (blocks es).length
  · obtain ⟨b, f, hb, hf, hdiffer⟩ := blocks_differ hk'
    rw [List.drop_eq_getElem_cons hk', List.flatten_cons, List.head?_append, hf] at he
    cases he
    have hsource := (same b (List.mem_of_getLast? hb)).1
    rw [Track.sharesSource_comm] at hdiffer
    simpa [Track.sharesSource, hsource] using hdiffer
  · rw [List.drop_eq_nil_of_le (by omega)] at he
    simp at he

/-- A source that a disc ends with has a length. -/
theorem known_of_ofEntries {es : List Entry} {tracks : List Track} {source : Source}
    (h : ofEntries es = .ok tracks) (hsource : ∀ e ∈ es, e.track.source = some source) :
    ∃ total, source.length = some total := by
  obtain ⟨l, hl, hf⟩ := ofEntries_ok_iff.mp h
  obtain ⟨init, last, length, start, skip, htracks, -, hbefore, -⟩ := finish_cases hf
  have hlast := unplaced_getLast hl
  rw [htracks, List.getLast?_concat, Option.map_some, eq_comm, Option.map_eq_some_iff] at hlast
  obtain ⟨e, he, hlast⟩ := hlast
  have hsrc : e.track.unplaced.source = last.unplaced.source := congrArg Track.source hlast
  change e.track.source = last.source at hsrc
  rw [hsource e (List.mem_of_getLast? he)] at hsrc
  obtain ⟨total, htotal, -⟩ := hbefore.whole (by simp [Track.sharesSource, leadOut, ← hsrc])
  exact ⟨total, by simpa [← hsrc] using htotal⟩

/-! ### The shift -/

variable {es : List Entry} {tracks : List Track}

/-- Where a block is on the disc, for the place it has among the blocks. -/
theorem ofEntries_block_at (hes : Described es) (h : ofEntries es = .ok tracks) {k : Nat}
    (hk : k < (blocks es).length) :
    ∃ l, extend .empty ((blocks es).take k).flatten = .ok l ∧
      (∀ part l', part ≠ [] → part <+: (blocks es)[k] →
        extend .empty (((blocks es).take k).flatten ++ part) = .ok l' →
        l'.shift = l.shift + firstSector tracks (blocks es) k) ∧
      ∃ out, ofEntries (drifted (firstSector tracks (blocks es) k)
          (l.shift + firstSector tracks (blocks es) k) (blocks es)[k]) =
        .ok (tracksOf tracks (blocks es) k ++ [out]) := by
  have hmem : (blocks es)[k] ∈ blocks es := List.getElem_mem hk
  obtain ⟨source, same⟩ := hes.sameSource hmem
  have hsplit := flatten_eq_around (blocks es) hk
  rw [flatten_blocks] at hsplit
  have hafter : ∀ e ∈ ((blocks es).drop (k + 1)).flatten.head?,
      e.track.source.map (·.id) ≠ some source.id ∧ e.track.number ≤ 255 := by
    intro e he
    refine ⟨after_block hk same e he, hes.byte e ?_⟩
    rw [hsplit]
    exact List.mem_append_right _ (List.mem_of_head? he)
  have hlength : (blocks es)[k].length = ((blocks es).getD k []).length := by
    rw [List.getD_eq_getElem?_getD, List.getElem?_eq_getElem hk, Option.getD_some]
  rw [hsplit] at h
  have hblock := ofEntries_block (block_ne_nil hmem) same (before_block hk same) hafter h
  rw [hlength] at hblock
  exact hblock

/-- **The shift** that is in force within a block is the sum of the first sectors of all blocks up
to it. -/
theorem shift_eq_sum (hes : Described es) (h : ofEntries es = .ok tracks) {k : Nat}
    (hk : k < (blocks es).length) {part : List Entry} {l : Layout} (hne : part ≠ [])
    (hpart : part <+: (blocks es)[k])
    (hl : extend .empty (((blocks es).take k).flatten ++ part) = .ok l) :
    l.shift = ∑ c ∈ Finset.range (k + 1), firstSector tracks (blocks es) c := by
  induction k generalizing part l with
  | zero =>
      obtain ⟨l₀, hl₀, hshift, -⟩ := ofEntries_block_at hes h hk
      cases hl₀
      rw [hshift part l hne hpart hl, Finset.sum_range_one]
      exact Nat.zero_add _
  | succ k ih =>
      obtain ⟨l₀, hl₀, hshift, -⟩ := ofEntries_block_at hes h hk
      have hsofar := hl₀
      rw [List.take_succ_eq_append_getElem (by omega), List.flatten_append,
        List.flatten_singleton] at hsofar
      rw [hshift part l hne hpart hl, Finset.sum_range_succ,
        ih (by omega) (block_ne_nil (List.getElem_mem _)) (List.prefix_refl _) hsofar]

/-- Before a block, the shift is the sum of the first sectors of the blocks before it. -/
theorem shift_before (hes : Described es) (h : ofEntries es = .ok tracks) {k : Nat}
    (hk : k < (blocks es).length) {l : Layout}
    (hl : extend .empty ((blocks es).take k).flatten = .ok l) :
    l.shift = ∑ c ∈ Finset.range k, firstSector tracks (blocks es) c := by
  cases k with
  | zero =>
      cases hl
      rfl
  | succ k =>
      rw [List.take_succ_eq_append_getElem (by omega), List.flatten_append,
        List.flatten_singleton] at hl
      exact shift_eq_sum hes h (by omega) (block_ne_nil (List.getElem_mem _))
        (List.prefix_refl _) hl

/-! ### The shape of a block -/

/-- **A block on a disc of many sources** is laid out as alone, its first entry moved by the sectors
ahead of the block and the others by the shift. -/
theorem block_laidOut (hes : Described es) (h : ofEntries es = .ok tracks) {k : Nat}
    (hk : k < (blocks es).length) :
    ∃ out, ofEntries (drifted (firstSector tracks (blocks es) k)
        (∑ c ∈ Finset.range (k + 1), firstSector tracks (blocks es) c) (blocks es)[k]) =
      .ok (tracksOf tracks (blocks es) k ++ [out]) := by
  obtain ⟨l, hl, -, hblock⟩ := ofEntries_block_at hes h hk
  rwa [shift_before hes h hk hl, ← Finset.sum_range_succ] at hblock

/-- A block keeps the shape that it has alone exactly if it has one track, or if all blocks before
it begin at sector 0. -/
theorem block_translated_iff (hes : Described es) (h : ofEntries es = .ok tracks) {k : Nat}
    (hk : k < (blocks es).length) :
    Translated tracks (blocks es) k ↔
      (blocks es)[k].length = 1 ∨ ∀ c < k, firstSector tracks (blocks es) c = 0 := by
  have hmem : (blocks es)[k] ∈ blocks es := List.getElem_mem hk
  obtain ⟨source, same⟩ := hes.sameSource hmem
  obtain ⟨out, hblock⟩ := block_laidOut hes h hk
  obtain ⟨n, hn⟩ : ∃ n, (blocks es)[k].length = n + 1 :=
    Nat.exists_eq_succ_of_ne_zero (mt List.length_eq_zero_iff.mp (block_ne_nil hmem))
  obtain ⟨total, known⟩ := known_of_ofEntries hblock fun e he => (same.drifted _ _ e he).1
  have hget : (blocks es).getD k [] = (blocks es)[k] := by
    rw [List.getD_eq_getElem?_getD, List.getElem?_eq_getElem hk, Option.getD_some]
  rw [Translated, hget, translated_iff hn same known hblock, hn, Finset.sum_range_succ]
  have hsum : ∑ c ∈ Finset.range k, firstSector tracks (blocks es) c = 0 ↔
      ∀ c < k, firstSector tracks (blocks es) c = 0 := by
    simp [Finset.sum_eq_zero_iff]
  rw [← hsum]
  omega

end CompactDisc.Layout
