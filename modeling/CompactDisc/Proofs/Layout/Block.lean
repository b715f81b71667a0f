import CompactDisc.Proofs.Layout.OneSource
import Mathlib.Data.List.SplitBy

/-!
# CompactDisc.Proofs.Layout.Block

**The tracks of one source in the middle of a disc.** Entries of one source that stand between those
of other sources form a *block*. This module says where the block ends up (`ofEntries_block`): just
where it would be if it were alone on the disc, with all positions of its first entry moved by the
sectors before the block (`base`), and those of the other entries moved by `Layout.shift`.

The two are not the same number. `shift` is meant to be the sectors of the earlier sources, but each
new source adds its own base to it, so from the third source on it can be too great. Then the block
is laid out as if there were more between its first two entries than the sheet says
(`translated_iff`).

Proof shape: a simulation. `Behind` relates a layout in the middle of a block to the layout of the
moved block alone; each entry of the same source keeps it (`Behind.place`), the first entry of
another source and the lead-out end both runs at once (`Behind.ended`). What is alone on a disc is
known exactly from `ofEntries_range_ok_iff`.
-/

namespace CompactDisc

/-- The entry with its positions in the file moved. -/
def Entry.moved (e : Entry) (n : Nat) : Entry :=
  { e with
    track := { e.track with start := e.track.start + n }
    prestart := e.prestart.map (· + n) }

/-- The track, further on on the disc. -/
def Track.later (t : Track) (n : Nat) : Track := { t with start := t.start + n }

/-- Where the last of some tracks ends. -/
def endOf (ts : List Track) : Nat := ts.getLast?.elim 0 Track.endSector

namespace Entry

@[simp] theorem gapStart_moved (e : Entry) (n : Nat) : (e.moved n).gapStart = e.gapStart + n := by
  cases h : e.prestart <;> simp [moved, gapStart, h]

@[simp] theorem gap_moved (e : Entry) (n : Nat) : (e.moved n).gap = e.gap := by
  rw [gap, gapStart_moved, gap]
  change e.track.start + n - (e.gapStart + n) = _
  omega

end Entry

@[simp] theorem endOf_concat (ts : List Track) (t : Track) : endOf (ts ++ [t]) = t.endSector := by
  simp [endOf]

theorem endOf_eq_of_map {ts : List Track} {places : List (Nat × Nat)}
    (h : ts.map (fun t => (t.start, t.length)) = places) :
    endOf ts = places.getLast?.elim 0 fun p => p.1 + p.2 := by
  subst h
  rw [List.getLast?_map, Option.elim_map]
  rfl

namespace Layout

variable {source : Source}

/-! ### In the middle of a block -/

/-- The layout `l` is the layout `m` of a block alone, behind the tracks in `pre`. The last track of
the block is open. -/
structure Behind (source : Source) (pre : List Track) (l m : Layout) : Prop where
  tracks : l.tracks = pre ++ m.tracks
  opened : ∃ init prev, m.tracks = init ++ [prev] ∧ prev.length = 0 ∧ prev.source = some source
  shift : m.shift = 0
  inserted : m.inserted = l.inserted

/-- Another entry of the source is placed alike, if it is moved by the shift. -/
theorem Behind.place {pre : List Track} {l l' m : Layout} {e : Entry}
    (h : Behind source pre l m) (hsource : e.track.source = some source)
    (fresh : e.track.length = 0) (hp : l.place e = .ok l') :
    l'.shift = l.shift ∧ ∃ m', m.place (e.moved l.shift) = .ok m' ∧ Behind source pre l' m' := by
  obtain ⟨htracks, ⟨init, prev, hm, hopen, hprev⟩, hshift, hinserted⟩ := h
  have same : prev.sharesSource e.track = true := by simp [Track.sharesSource, hprev, hsource]
  have same' : prev.sharesSource (e.moved l.shift).track = true := same
  have hl : l.tracks = (pre ++ init) ++ [prev] := by rw [htracks, hm, List.append_assoc]
  obtain ⟨hgap, length, hlength, hlt, h2, hnumber, hstart, rfl⟩ :=
    (place_same_ok_iff hl same hopen).mp hp
  -- the start was moved by the shift of `l`, and `m` has none, so the entry brings it along
  have hplaced := (place_same_ok_iff hm same' hopen).mpr ⟨?_, length, ?_, hlt, h2, hnumber, ?_, rfl⟩
  · refine ⟨rfl, _, hplaced, ?_, ⟨_, _, List.append_cons _ _ _, fresh, hsource⟩, hshift, ?_⟩
    · rw [hshift, hinserted, Entry.gap_moved, List.append_assoc]
      rfl
    · rw [hinserted]
      rfl
  · rw [Entry.gapStart_moved]
    exact Nat.add_le_add_right hgap _
  · rw [Entry.gapStart_moved, hshift, hinserted]
    omega
  · change e.track.start + l.shift + m.shift + (m.inserted + e.pregap) < 2 ^ 32
    omega

/-- All further entries of the source are placed alike. -/
theorem Behind.extend {pre : List Track} {es : List Entry} {l l' m : Layout}
    (h : Behind source pre l m) (same : SameSource source es) (hp : l.extend es = .ok l') :
    l'.shift = l.shift ∧
      ∃ m', m.extend (es.map (·.moved l.shift)) = .ok m' ∧ Behind source pre l' m' := by
  induction es generalizing l m with
  | nil =>
      cases hp
      exact ⟨rfl, m, rfl, h⟩
  | cons e es ih =>
      obtain ⟨l₁, hl₁, hp⟩ := extend_cons_ok_iff.mp hp
      obtain ⟨hsource, fresh, -⟩ := same e (by simp)
      obtain ⟨hshift, m₁, hm₁, h₁⟩ := h.place hsource fresh hl₁
      obtain ⟨hshift', m', hm', h'⟩ := ih h₁ (fun e he => same e (List.mem_cons_of_mem _ he)) hp
      rw [hshift] at hshift' hm'
      exact ⟨hshift', m', extend_cons_ok_iff.mpr ⟨m₁, hm₁, hm'⟩, h'⟩

/-- What closes the last track of a block closes it alike: an entry of another source, as the
lead-out that the block has alone. -/
theorem Behind.ended {pre : List Track} {l l' m : Layout} {e : Entry}
    (h : Behind source pre l m)
    (other : e.track.source.map (·.id) ≠ some source.id) (byte : e.track.number ≠ 256)
    (hp : l.place e = .ok l') :
    ∃ mine out next, m.finish = .ok (mine ++ [out]) ∧ l'.tracks = pre ++ mine ++ [next] := by
  obtain ⟨htracks, ⟨init, prev, hm, hopen, hprev⟩, hshift, hinserted⟩ := h
  have hl : l.tracks = (pre ++ init) ++ [prev] := by rw [htracks, hm, List.append_assoc]
  have hother : prev.sharesSource e.track = false := by
    simpa [Track.sharesSource, hprev] using other.symm
  obtain ⟨-, total, htotal, hskip, length, hlength, hlt, h2, hnumber, hstart, rfl⟩ :=
    (place_new_ok_iff hl hother).mp hp
  have hout : prev.sharesSource (closing prev).track = false := by
    simp [Track.sharesSource, hprev, closing, leadOut]
  have hplaced := (place_new_ok_iff hm hout).mpr
    ⟨Nat.zero_le _, total, htotal, hskip, length, hlength, hlt, ?_, rfl, ?_, rfl⟩
  · have hfinish := (finish_ok_iff hm).mpr ⟨by omega, _, hplaced, rfl⟩
    dsimp only at hfinish
    rw [List.append_cons] at hfinish
    exact ⟨_, _, _, hfinish, by simp only [List.append_assoc]; rfl⟩
  · change 2 ≤ prev.number + 1
    omega
  · change 0 + (prev.start + length) + 0 < 2 ^ 32
    omega

/-! ### The beginning of a block -/

/-- The first entry of a block closes what is before it. Its own start is moved by where that ends,
and so is the shift. -/
theorem behind_first {l l' : Layout} {e : Entry}
    (other : ∀ t ∈ l.tracks.getLast?, t.sharesSource e.track = false)
    (hsource : e.track.source = some source) (fresh : e.track.length = 0)
    (hp : l.place e = .ok l') :
    ∃ pre m, pre.length = l.tracks.length ∧ l'.shift = l.shift + endOf pre ∧
      Layout.place .empty (e.moved (endOf pre)) = .ok m ∧ Behind source pre l' m := by
  rcases List.eq_nil_or_concat l.tracks with hl | ⟨init, prev, hl⟩
  · obtain ⟨hgap, hstart, rfl⟩ := (place_first_ok_iff hl).mp hp
    refine ⟨[], _, by rw [hl], rfl, (place_first_ok_iff rfl).mpr ⟨?_, hstart, rfl⟩, ?_,
      ⟨[], _, rfl, fresh, hsource⟩, rfl, rfl⟩
    · rw [Entry.gapStart_moved]
      exact Nat.add_le_add_right hgap _
    · rw [Entry.gap_moved]
      rfl
  · rw [List.concat_eq_append] at hl
    have hother := other prev (by rw [hl, List.getLast?_concat]; rfl)
    obtain ⟨hgap, total, -, -, length, -, -, -, -, hstart, rfl⟩ :=
      (place_new_ok_iff hl hother).mp hp
    refine ⟨init ++ [{ prev with length }], _, by simp [hl], by rw [endOf_concat]; rfl,
      (place_first_ok_iff rfl).mpr ⟨?_, ?_, rfl⟩, ?_, ⟨[], _, rfl, fresh, hsource⟩, rfl, rfl⟩
    · rw [Entry.gapStart_moved]
      exact Nat.add_le_add_right hgap _
    · rw [endOf_concat]
      exact hstart
    · rw [Entry.gap_moved, endOf_concat, List.append_assoc]
      rfl

/-! ### A whole block -/

/-- The entries of a block, the first moved by `base` and the others by `shift`. -/
def drifted (base shift : Nat) : List Entry → List Entry
  | [] => []
  | e :: es => e.moved base :: es.map (·.moved shift)

@[simp] theorem length_drifted (base shift : Nat) (es : List Entry) :
    (drifted base shift es).length = es.length := by
  cases es <;> simp [drifted]

theorem SameSource.drifted {es : List Entry} (h : SameSource source es) (base shift : Nat) :
    SameSource source (drifted base shift es) := by
  cases es with
  | nil => exact h
  | cons e es =>
      intro f hf
      rcases List.mem_cons.mp hf with rfl | hf
      · exact h e (by simp)
      · obtain ⟨g, hg, rfl⟩ := List.mem_map.mp hf
        exact h g (List.mem_cons_of_mem _ hg)

/-- What is ahead of the last track never changes. -/
theorem dropLast_prefix_place {l l' : Layout} {e : Entry} (h : l.place e = .ok l') :
    l.tracks.dropLast <+: l'.tracks.dropLast := by
  obtain ⟨start, skip, ⟨hl, h⟩ | ⟨init, prev, length, hl, h, -⟩⟩ := place_cases h
  · simp [hl, h]
  · rw [hl, h, List.dropLast_concat, List.append_cons, List.dropLast_concat]
    exact List.prefix_append _ _

theorem dropLast_prefix_finish {l : Layout} {tracks : List Track} (h : l.finish = .ok tracks) :
    l.tracks.dropLast <+: tracks := by
  rcases List.eq_nil_or_concat l.tracks with hl | ⟨init, last, hl⟩
  · simp [hl]
  · rw [List.concat_eq_append] at hl
    obtain ⟨-, l', hl', rfl⟩ := (finish_ok_iff hl).mp h
    exact (dropLast_prefix_place hl').trans (List.dropLast_prefix _)

/-- A disc begins with what was ahead of the last track at any time. -/
theorem dropLast_prefix_extend {l l' : Layout} {es : List Entry} {tracks : List Track}
    (h : l.extend es = .ok l') (hf : l'.finish = .ok tracks) : l.tracks.dropLast <+: tracks :=
  (extend_induction (motive := fun m => l.tracks.dropLast <+: m.tracks.dropLast) h
    (List.prefix_refl _) fun _ _ _ _ hm hp => hm.trans (dropLast_prefix_place hp)).trans
      (dropLast_prefix_finish hf)

/-- The last track of a layout is that of the last entry. -/
theorem unplaced_getLast {l : Layout} {es : List Entry} (h : extend .empty es = .ok l) :
    l.tracks.getLast?.map Track.unplaced = es.getLast?.map fun e => e.track.unplaced := by
  rw [← List.getLast?_map, ← List.getLast?_map, unplaced_extend h]
  rfl

/-- What ends a block ends it in the middle of a disc as it does alone. -/
theorem Behind.rest {pre : List Track} {after : List Entry} {l l' m : Layout}
    {tracks : List Track} (h : Behind source pre l m)
    (hafter : ∀ e ∈ after.head?, e.track.source.map (·.id) ≠ some source.id ∧
      e.track.number ≤ 255)
    (hl : l.extend after = .ok l') (hf : l'.finish = .ok tracks) :
    ∃ mine out, m.finish = .ok (mine ++ [out]) ∧ pre ++ mine <+: tracks := by
  cases after with
  | nil =>
      cases hl
      obtain ⟨htracks, ⟨init, prev, hm, -⟩, -, -⟩ := id h
      have hpre : l.tracks = (pre ++ init) ++ [prev] := by rw [htracks, hm, List.append_assoc]
      obtain ⟨h255, l', hl', rfl⟩ := (finish_ok_iff hpre).mp hf
      obtain ⟨mine, out, next, hm, hl'⟩ := h.ended (by simp [closing, leadOut])
        (by simpa [closing, leadOut] using h255) hl'
      exact ⟨mine, out, hm, by rw [hl']; exact List.prefix_append _ _⟩
  | cons e after =>
      obtain ⟨l₁, hl₁, hl⟩ := extend_cons_ok_iff.mp hl
      obtain ⟨hother, hbyte⟩ := hafter e rfl
      obtain ⟨mine, out, next, hm, hl₁⟩ := h.ended hother (by omega) hl₁
      refine ⟨mine, out, hm, ?_⟩
      have := dropLast_prefix_extend hl hf
      rwa [hl₁, List.dropLast_concat] at this

/-- The last track of a layout is of another source if the last entry is. -/
theorem other_of_last {before : List Entry} {l : Layout} {e : Entry}
    (hl : extend .empty before = .ok l) (hsource : e.track.source = some source)
    (hbefore : ∀ b ∈ before.getLast?, b.track.source.map (·.id) ≠ some source.id) :
    ∀ t ∈ l.tracks.getLast?, t.sharesSource e.track = false := by
  intro t ht
  have hlast := unplaced_getLast hl
  rw [ht, Option.map_some, eq_comm, Option.map_eq_some_iff] at hlast
  obtain ⟨b, hb, hlast⟩ := hlast
  have hb := hbefore b hb
  have hsrc : b.track.unplaced.source = t.unplaced.source := congrArg Track.source hlast
  change b.track.source = t.source at hsrc
  rw [hsrc] at hb
  simpa [Track.sharesSource, hsource] using hb

/-- **A block on a disc.** Behind `before` and ahead of `after`, entries of one source are laid out
as they would be alone, with the positions of the first moved by the sectors before the block and
those of the others by the shift that is then in force: the sectors before the block and, besides,
the shift of the block before. -/
theorem ofEntries_block {before block after : List Entry} {tracks : List Track}
    (nonempty : block ≠ []) (same : SameSource source block)
    (hbefore : ∀ e ∈ before.getLast?, e.track.source.map (·.id) ≠ some source.id)
    (hafter : ∀ e ∈ after.head?, e.track.source.map (·.id) ≠ some source.id ∧
      e.track.number ≤ 255)
    (h : ofEntries (before ++ block ++ after) = .ok tracks) :
    ∃ l, extend .empty before = .ok l ∧
      (∀ part l', part ≠ [] → part <+: block → extend .empty (before ++ part) = .ok l' →
        l'.shift = l.shift + endOf (tracks.take before.length)) ∧
      ∃ out, ofEntries (drifted (endOf (tracks.take before.length))
          (l.shift + endOf (tracks.take before.length)) block) =
        .ok ((tracks.drop before.length).take block.length ++ [out]) := by
  obtain ⟨l₂, hrun, hf⟩ := ofEntries_ok_iff.mp h
  obtain ⟨l₁, hrun, hrest⟩ := extend_append_ok_iff.mp hrun
  obtain ⟨l, hl, hblock⟩ := extend_append_ok_iff.mp hrun
  obtain ⟨e, es, rfl⟩ := List.exists_cons_of_ne_nil nonempty
  obtain ⟨lₑ, hₑ, hes⟩ := extend_cons_ok_iff.mp hblock
  obtain ⟨hsource, fresh, -⟩ := same e (by simp)
  have sameₑ : SameSource source es := fun f hf => same f (List.mem_cons_of_mem _ hf)
  -- the two runs are the same from the first entry of the block to what ends it
  obtain ⟨pre, mₑ, hpre, hshift, hmₑ, behindₑ⟩ :=
    behind_first (other_of_last hl hsource hbefore) hsource fresh hₑ
  obtain ⟨-, m, hm, behind⟩ := behindₑ.extend sameₑ hes
  obtain ⟨mine, out, hfinish, hprefix⟩ := behind.rest hafter hrest hf
  -- the tracks of the block are where they are on the disc
  have hbefore_length : before.length = pre.length := by
    rw [hpre, length_extend hl]
    exact (Nat.zero_add _).symm
  have htake : tracks.take before.length = pre := by
    obtain ⟨suffix, rfl⟩ := hprefix
    simp [hbefore_length]
  rw [hshift] at hm
  have hall : ofEntries (drifted (endOf pre) (l.shift + endOf pre) (e :: es)) =
      .ok (mine ++ [out]) := by
    rw [ofEntries_ok_iff]
    exact ⟨m, extend_cons_ok_iff.mpr ⟨mₑ, hmₑ, hm⟩, hfinish⟩
  have hmine_length : (e :: es).length = mine.length := by
    have := length_ofEntries hall
    rw [length_drifted, List.length_append] at this
    exact (Nat.succ.inj this).symm
  have hmine : (tracks.drop before.length).take (e :: es).length = mine := by
    obtain ⟨suffix, rfl⟩ := hprefix
    rw [hmine_length, hbefore_length]
    simp
  rw [htake, hmine]
  refine ⟨l, hl, ?_, out, hall⟩
  -- after the first entry of the block the shift stays
  intro part l' hne hpart hl'
  obtain ⟨f, fs, rfl⟩ := List.exists_cons_of_ne_nil hne
  obtain ⟨rfl, hfs⟩ := List.cons_prefix_cons.mp hpart
  obtain ⟨l₀, hl₀, hl'⟩ := extend_append_ok_iff.mp hl'
  obtain ⟨l₀', hl₀', hl'⟩ := extend_cons_ok_iff.mp hl'
  cases hl.symm.trans hl₀
  cases hₑ.symm.trans hl₀'
  rw [(behindₑ.extend (fun f hf => sameₑ f (hfs.subset hf)) hl').1, hshift]

/-! ### When a block is only translated -/

/-- The entries of a block with their drift, by place. -/
def driftedAt (base shift : Nat) (e : Nat → Entry) (i : Nat) : Entry :=
  (e i).moved (if i = 0 then base else shift)

theorem drifted_range (base shift n : Nat) (e : Nat → Entry) :
    drifted base shift ((List.range (n + 1)).map e) =
      (List.range (n + 1)).map (driftedAt base shift e) := by
  simp [List.range_succ_eq_map, drifted, driftedAt, Function.comp_def]

/-! Moving all entries alike moves the starts and nothing else. -/

theorem startAt_moved (e : Nat → Entry) (base i : Nat) :
    startAt (fun i => (e i).moved base) i = startAt e i + base :=
  Nat.add_right_comm _ _ _

theorem span_moved (e : Nat → Entry) (base i : Nat) :
    span (fun i => (e i).moved base) i = span e i := by
  rw [span, Entry.gapStart_moved]
  exact Nat.add_sub_add_right _ _ _

theorem skipAt_moved (e : Nat → Entry) (base i : Nat) :
    skipAt (fun i => (e i).moved base) i = skipAt e i := by
  simp only [skipAt, span_moved, Entry.gap_moved]
  rfl

theorem lengthAt_moved (e : Nat → Entry) (base total n i : Nat) :
    lengthAt (fun i => (e i).moved base) total n i = lengthAt e total n i := by
  simp only [lengthAt, span_moved, skipAt_moved]
  rfl

theorem placedAt_moved (e : Nat → Entry) (base total n i : Nat) :
    placedAt (fun i => (e i).moved base) total n i = (placedAt e total n i).later base := by
  rw [placedAt, startAt_moved, lengthAt_moved, skipAt_moved]
  rfl

theorem laidOut_moved (e : Nat → Entry) (base total n : Nat) :
    laidOut (fun i => (e i).moved base) total n = (laidOut e total n).map (·.later base) := by
  rw [laidOut, laidOut, startAt_moved, lengthAt_moved, Nat.add_right_comm, List.map_append,
    List.map_map, funext (placedAt_moved e base total n)]
  rfl

theorem acceptable_of_moved {e : Nat → Entry} {base total n : Nat}
    (h : Acceptable (fun i => (e i).moved base) total n) : Acceptable e total n := by
  obtain ⟨first, next, last, gaps, order, stored, fits⟩ := h
  rw [skipAt_moved] at stored
  rw [laidOut_moved] at fits
  refine ⟨first, next, last, fun i hi => ?_, fun i hi => ?_, stored, fun t ht => ?_⟩
  · have := gaps i hi
    rw [Entry.gapStart_moved] at this
    exact Nat.le_of_add_le_add_right this
  · have := order i hi
    rw [Entry.gapStart_moved] at this
    exact Nat.le_of_add_le_add_right this
  · obtain ⟨hstart, hlength⟩ := fits _ (List.mem_map_of_mem ht)
    exact ⟨Nat.lt_of_le_of_lt (Nat.le_add_right _ _) hstart, hlength⟩

theorem driftedAt_one (base shift : Nat) (e : Nat → Entry) :
    startAt (driftedAt base shift e) 1 = startAt e 1 + shift :=
  Nat.add_right_comm _ _ _

/-- **A block is translated** as a whole exactly if it has one track only, or if the shift is what
it is meant to be: the sectors before the block. -/
theorem translated_iff {base shift total n : Nat} {block : List Entry} {mine : List Track}
    {out : Track} (hn : block.length = n + 1) (same : SameSource source block)
    (known : source.length = some total)
    (h : ofEntries (drifted base shift block) = .ok (mine ++ [out])) :
    (∃ solo end', ofEntries block = .ok (solo ++ [end']) ∧ mine = solo.map (·.later base)) ↔
      n = 0 ∨ shift = base := by
  let e := (block.getD · default)
  have hblock : (List.range (n + 1)).map e = block := map_getD_range block hn
  have hmem : ∀ i < n + 1, e i ∈ block := fun i hi => getD_mem (by omega)
  have hsource : ∀ i < n + 1, (e i).track.source = some source := fun i hi => (same _ (hmem i hi)).1
  have fresh : ∀ i < n, (e i).track.length = 0 := fun i hi => (same _ (hmem i (by omega))).2.1
  have byte : (e n).track.number ≤ 255 := (same _ (hmem n (by omega))).2.2
  rw [← hblock, drifted_range] at h
  rw [← hblock]
  simp only [ofEntries_range_ok_iff (e := e) known hsource fresh byte]
  constructor
  · rintro ⟨solo, end', hsolo, rfl⟩
    rcases Nat.eq_zero_or_pos n with rfl | hpos
    · exact Or.inl rfl
    · -- the second track tells the two starts apart
      right
      obtain ⟨-, hsolo⟩ := hsolo
      obtain ⟨-, hmine⟩ :=
        (ofEntries_range_ok_iff (e := driftedAt base shift e) known hsource fresh byte).mp h
      have hlength : 1 < solo.length := by
        have := congrArg List.length hsolo
        simp only [laidOut, List.length_append, List.length_map, List.length_range,
          List.length_singleton] at this
        omega
      have hin := congrArg (·[1]?) hmine
      have hon := congrArg (·[1]?) hsolo
      simp only [getElem?_laidOut hpos, List.getElem?_append_left hlength] at hon
      rw [List.getElem?_append_left (by simpa using hlength), List.getElem?_map, hon,
        getElem?_laidOut hpos, Option.map_some, Option.some.injEq] at hin
      have hstart : startAt e 1 + base = startAt (driftedAt base shift e) 1 :=
        congrArg Track.start hin
      rw [driftedAt_one] at hstart
      omega
  · intro hcond
    have hsame : (List.range (n + 1)).map (driftedAt base shift e) =
        (List.range (n + 1)).map fun i => (e i).moved base := by
      refine List.map_congr_left fun i hi => ?_
      rw [List.mem_range] at hi
      unfold driftedAt
      split
      · rfl
      · rw [hcond.resolve_left (by omega)]
    rw [hsame] at h
    obtain ⟨hacceptable, hmine⟩ := (ofEntries_range_ok_iff (e := fun i => (e i).moved base)
      known hsource fresh byte).mp h
    rw [laidOut_moved, laidOut, List.map_append] at hmine
    exact ⟨_, _, ⟨acceptable_of_moved hacceptable, rfl⟩, (List.append_inj' hmine rfl).1⟩

end Layout

end CompactDisc
