import CompactDisc.Proofs.Layout.Order
import Mathlib.Algebra.BigOperators.Group.Finset.Basic
import Mathlib.Algebra.Order.Floor.Div

/-!
# CompactDisc.Proofs.Layout.OneSource

**The exact layout of one source.** For entries `e 0, …, e n` that share a source, the builder gives
the disc that the sums below describe, and accepts exactly the entries for which those numbers make
sense (`ofEntries_range_ok_iff`, and for a list `ofEntries_list_ok_iff`).

Three kinds of gap are kept apart. What lies between INDEX 00 and INDEX 01 is stored and belongs to
no track: it moves the byte offset. What lies before the first INDEX 00 of the file is neither
stored nor skipped. A pregap is silence that is not stored: it moves every later start and no
offset.

Proof shape: induction on the number of entries. `upTo e n` is the layout when the last of them has
been placed and its length is still open; one more entry closes it (`place_same_ok_iff`), and the
lead-out, which has no source, closes the last one with what is left (`place_new_ok_iff`).
-/

namespace CompactDisc.Layout

/-! ### The numbers -/

/-- The first sector of a track: INDEX 01, moved by all pregaps up to it. -/
def startAt (e : Nat → Entry) (i : Nat) : Nat :=
  (e i).track.start + ∑ j ∈ Finset.range (i + 1), (e j).pregap

/-- Sectors from INDEX 01 of a track to what is stored of the next. -/
def span (e : Nat → Entry) (i : Nat) : Nat := (e (i + 1)).gapStart - (e i).track.start

/-- The byte that a track begins with: behind the spans of all tracks before it and all gaps up to
it. -/
def skipAt (e : Nat → Entry) (i : Nat) : Nat :=
  ∑ j ∈ Finset.range i, span e j * (e j).track.sectorSize +
    ∑ j ∈ Finset.range (i + 1), (e j).gap * (e j).track.sectorSize

/-- The length of a track where the source has `total` bytes and `n` is the last: its span, or all
that is left. -/
def lengthAt (e : Nat → Entry) (total n i : Nat) : Nat :=
  if i = n then (e n).track.sectorsOf (total - skipAt e n) else span e i

/-- A track in its place. -/
def placedAt (e : Nat → Entry) (total n i : Nat) : Track :=
  { (e i).track with start := startAt e i, length := lengthAt e total n i, skip := skipAt e i }

/-- The tracks of `e 0, …, e n` and the lead-out. -/
def laidOut (e : Nat → Entry) (total n : Nat) : List Track :=
  (List.range (n + 1)).map (placedAt e total n) ++
    [{ leadOut (e n).track with start := startAt e n + lengthAt e total n n }]

/-- What is asked of the entries of one source with `total` bytes. -/
structure Acceptable (e : Nat → Entry) (total n : Nat) : Prop where
  /-- Numbers count up, from 1 at least to 254 at most. -/
  first : 1 ≤ (e 0).track.number
  next : ∀ i < n, (e (i + 1)).track.number = (e i).track.number + 1
  last : (e n).track.number ≤ 254
  /-- No gap begins after its track. -/
  gaps : ∀ i < n + 1, (e i).gapStart ≤ (e i).track.start
  /-- No track begins after what is stored of the next. -/
  order : ∀ i < n, (e i).track.start ≤ (e (i + 1)).gapStart
  /-- The last track begins inside the source. -/
  stored : skipAt e n ≤ total
  fits : ∀ t ∈ laidOut e total n, t.start < 2 ^ 32 ∧ t.length < 2 ^ 32

/-! ### Before the lead-out -/

/-- The layout of `e 0, …, e n` when the length of the last one is not known. -/
def upTo (e : Nat → Entry) (n : Nat) : Layout where
  tracks := (List.range n).map (fun i => { (e i).track with
      start := startAt e i, length := span e i, skip := skipAt e i }) ++
    [{ (e n).track with start := startAt e n, skip := skipAt e n }]
  inserted := ∑ j ∈ Finset.range (n + 1), (e j).pregap

/-- What is asked of entries before the lead-out. -/
structure Placeable (e : Nat → Entry) (n : Nat) : Prop where
  number : ∀ i < n, 2 ≤ (e (i + 1)).track.number ∧
    (e (i + 1)).track.number = (e i).track.number + 1
  gaps : ∀ i < n + 1, (e i).gapStart ≤ (e i).track.start
  order : ∀ i < n, (e i).track.start ≤ (e (i + 1)).gapStart
  start : ∀ i < n + 1, startAt e i < 2 ^ 32
  length : ∀ i < n, span e i < 2 ^ 32

theorem startAt_succ (e : Nat → Entry) (i : Nat) :
    startAt e (i + 1) = (e (i + 1)).track.start +
      (∑ j ∈ Finset.range (i + 1), (e j).pregap + (e (i + 1)).pregap) := by
  rw [startAt, Finset.sum_range_succ]

theorem skipAt_succ (e : Nat → Entry) (i : Nat) :
    skipAt e (i + 1) = skipAt e i + span e i * (e i).track.sectorSize +
      (e (i + 1)).gap * (e (i + 1)).track.sectorSize := by
  simp only [skipAt, Finset.sum_range_succ]
  omega

theorem placeable_succ_iff {e : Nat → Entry} {n : Nat} :
    Placeable e (n + 1) ↔ Placeable e n ∧ (e (n + 1)).gapStart ≤ (e (n + 1)).track.start ∧
      (e n).track.start ≤ (e (n + 1)).gapStart ∧ span e n < 2 ^ 32 ∧
      2 ≤ (e (n + 1)).track.number ∧ (e (n + 1)).track.number = (e n).track.number + 1 ∧
      startAt e (n + 1) < 2 ^ 32 := by
  constructor
  · rintro ⟨hnumber, hgaps, horder, hstart, hlength⟩
    rw [Nat.forall_lt_succ_right] at hnumber hgaps horder hstart hlength
    exact ⟨⟨hnumber.1, hgaps.1, horder.1, hstart.1, hlength.1⟩, hgaps.2, horder.2, hlength.2,
      hnumber.2.1, hnumber.2.2, hstart.2⟩
  · rintro ⟨⟨hnumber, hgaps, horder, hstart, hlength⟩, h1, h2, h3, h4, h5, h6⟩
    refine ⟨?_, ?_, ?_, ?_, ?_⟩ <;> rw [Nat.forall_lt_succ_right]
    exacts [⟨hnumber, h4, h5⟩, ⟨hgaps, h1⟩, ⟨horder, h2⟩, ⟨hstart, h6⟩, ⟨hlength, h3⟩]

/-- Another entry of the source closes the track before it. -/
theorem place_upTo_ok_iff {e : Nat → Entry} {n : Nat} {l : Layout}
    (same : (e n).track.sharesSource (e (n + 1)).track = true) (fresh : (e n).track.length = 0) :
    (upTo e n).place (e (n + 1)) = .ok l ↔
      ((e (n + 1)).gapStart ≤ (e (n + 1)).track.start ∧
        (e n).track.start ≤ (e (n + 1)).gapStart ∧ span e n < 2 ^ 32 ∧
        2 ≤ (e (n + 1)).track.number ∧ (e (n + 1)).track.number = (e n).track.number + 1 ∧
        startAt e (n + 1) < 2 ^ 32) ∧ l = upTo e (n + 1) := by
  rw [place_same_ok_iff (l := upTo e n) rfl same fresh]
  -- the pregaps on both sides of the length cancel out
  have hlength : ∀ length,
      ((e (n + 1)).gapStart + (upTo e n).shift + (upTo e n).inserted = startAt e n + length ↔
        (e n).track.start ≤ (e (n + 1)).gapStart ∧ length = span e n) := by
    intro length
    simp only [upTo, startAt, span]
    omega
  simp only [hlength]
  -- what comes out, in the words of the builder
  have hplaced : upTo e (n + 1) = { upTo e n with
      tracks := (List.range n).map (fun i => { (e i).track with
          start := startAt e i, length := span e i, skip := skipAt e i }) ++
        [{ (e n).track with start := startAt e n, length := span e n, skip := skipAt e n },
          { (e (n + 1)).track with
            start := startAt e (n + 1)
            skip := skipAt e n + span e n * (e n).track.sectorSize +
              (e (n + 1)).gap * (e (n + 1)).track.sectorSize }]
      inserted := (upTo e n).inserted + (e (n + 1)).pregap } := by
    simp only [upTo, List.range_succ, List.map_append, List.map_singleton, List.append_assoc,
      List.singleton_append, skipAt_succ, Finset.sum_range_succ]
  have hstart : (e (n + 1)).track.start + (upTo e n).shift +
      ((upTo e n).inserted + (e (n + 1)).pregap) = startAt e (n + 1) := by
    rw [startAt_succ]
    rfl
  simp only [hstart]
  rw [hplaced]
  constructor
  · rintro ⟨hgap, length, ⟨horder, rfl⟩, hlt, h1, h2, h3, rfl⟩
    exact ⟨⟨hgap, horder, hlt, h1, h2, h3⟩, rfl⟩
  · rintro ⟨⟨hgap, horder, hlt, h1, h2, h3⟩, rfl⟩
    exact ⟨hgap, _, ⟨horder, rfl⟩, hlt, h1, h2, h3, rfl⟩

/-- The run over the entries of one source, without the lead-out. -/
theorem extend_range_ok_iff {e : Nat → Entry} {n : Nat} {l : Layout}
    (same : ∀ i < n, (e i).track.sharesSource (e (i + 1)).track = true)
    (fresh : ∀ i < n, (e i).track.length = 0) :
    extend .empty ((List.range (n + 1)).map e) = .ok l ↔ Placeable e n ∧ l = upTo e n := by
  induction n generalizing l with
  | zero =>
      change extend .empty [e 0] = .ok l ↔ _
      rw [extend_singleton, place_first_ok_iff rfl]
      constructor
      · rintro ⟨hgap, hstart, rfl⟩
        refine ⟨⟨nofun, ?_, nofun, ?_, nofun⟩, ?_⟩
        · rintro i hi
          obtain rfl : i = 0 := by omega
          exact hgap
        · rintro i hi
          obtain rfl : i = 0 := by omega
          simpa [startAt] using hstart
        · simp [upTo, startAt, skipAt, empty]
      · rintro ⟨⟨-, hgap, -, hstart, -⟩, rfl⟩
        refine ⟨hgap 0 (by omega), ?_, ?_⟩
        · simpa [startAt] using hstart 0 (by omega)
        · simp [upTo, startAt, skipAt, empty]
  | succ n ih =>
      rw [Nat.forall_lt_succ_right] at same fresh
      rw [List.range_succ, List.map_append, extend_append_ok_iff, placeable_succ_iff]
      simp only [List.map_singleton, extend_singleton]
      constructor
      · rintro ⟨m, hm, hl⟩
        obtain ⟨hp, rfl⟩ := (ih same.1 fresh.1).mp hm
        obtain ⟨hn, rfl⟩ := (place_upTo_ok_iff same.2 fresh.2).mp hl
        exact ⟨⟨hp, hn⟩, rfl⟩
      · rintro ⟨⟨hp, hn⟩, rfl⟩
        exact ⟨_, (ih same.1 fresh.1).mpr ⟨hp, rfl⟩,
          (place_upTo_ok_iff same.2 fresh.2).mpr ⟨hn, rfl⟩⟩

/-! ### The lead-out -/

theorem lengthAt_of_lt {e : Nat → Entry} {total n i : Nat} (h : i < n) :
    lengthAt e total n i = span e i :=
  if_neg (Nat.ne_of_lt h)

theorem lengthAt_last {e : Nat → Entry} {total n : Nat} :
    lengthAt e total n n = (e n).track.sectorsOf (total - skipAt e n) :=
  if_pos rfl

theorem laidOut_eq (e : Nat → Entry) (total n : Nat) :
    laidOut e total n = (List.range n).map (fun i => { (e i).track with
        start := startAt e i, length := span e i, skip := skipAt e i }) ++
      [placedAt e total n n,
        { leadOut (e n).track with start := startAt e n + lengthAt e total n n }] := by
  have hmap : (List.range n).map (placedAt e total n) = (List.range n).map fun i =>
      { (e i).track with start := startAt e i, length := span e i, skip := skipAt e i } := by
    refine List.map_congr_left fun i hi => ?_
    rw [placedAt, lengthAt_of_lt (List.mem_range.mp hi)]
  rw [laidOut, List.range_succ, List.map_append, hmap, List.append_assoc]
  rfl

/-- The lead-out closes the last track with what is left of the source. -/
theorem finish_upTo_ok_iff {e : Nat → Entry} {total n : Nat} {tracks : List Track}
    {source : Source} (hsource : (e n).track.source = some source)
    (known : source.length = some total) :
    (upTo e n).finish = .ok tracks ↔
      ((e n).track.number ≠ 255 ∧ 1 ≤ (e n).track.number ∧ skipAt e n ≤ total ∧
        lengthAt e total n n < 2 ^ 32 ∧ startAt e n + lengthAt e total n n < 2 ^ 32) ∧
      tracks = laidOut e total n := by
  rw [finish_ok_iff (l := upTo e n) rfl]
  set last : Track := { (e n).track with start := startAt e n, skip := skipAt e n } with hlast
  have other : last.sharesSource (closing last).track = false := by
    simp [Track.sharesSource, closing, leadOut, hlast, hsource]
  have hknown : last.source.bind Source.length = some total := by
    simp [hlast, hsource, known]
  have hplaced : ∀ length, { (closing last).track with
      start := (closing last).track.start + (last.start + length) + (closing last).pregap
      skip := (closing last).gap * (closing last).track.sectorSize } =
      ({ leadOut (e n).track with start := startAt e n + length } : Track) := by
    intro length
    simp [closing, leadOut, hlast, Entry.gap, Entry.gapStart]
  rw [laidOut_eq]
  constructor
  · rintro ⟨h255, l, hl, rfl⟩
    obtain ⟨-, total', htotal, hskip, length, hlength, hlt, h2, -, hstart, rfl⟩ :=
      (place_new_ok_iff (l := upTo e n) rfl other).mp hl
    rw [hknown, Option.some.injEq] at htotal
    subst htotal
    have hlen : length = lengthAt e total n n := hlength.trans lengthAt_last.symm
    subst hlen
    refine ⟨⟨h255, ?_, hskip, hlt, ?_⟩, ?_⟩
    · change 2 ≤ (e n).track.number + 1 at h2
      omega
    · change 0 + (startAt e n + lengthAt e total n n) + 0 < 2 ^ 32 at hstart
      omega
    · rw [hplaced]
      rfl
  · rintro ⟨⟨h255, h1, hskip, hlt, hstart⟩, rfl⟩
    refine ⟨h255, _, (place_new_ok_iff (l := upTo e n) rfl other).mpr ⟨Nat.zero_le _, total, hknown,
      hskip, lengthAt e total n n, lengthAt_last, hlt, ?_, rfl, ?_, rfl⟩, ?_⟩
    · change 2 ≤ (e n).track.number + 1
      omega
    · change 0 + (startAt e n + lengthAt e total n n) + 0 < 2 ^ 32
      omega
    · rw [hplaced]
      rfl

theorem number_eq_add {e : Nat → Entry} {n : Nat}
    (next : ∀ i < n, (e (i + 1)).track.number = (e i).track.number + 1) {i : Nat} (hi : i ≤ n) :
    (e i).track.number = (e 0).track.number + i := by
  induction i with
  | zero => rfl
  | succ i ih =>
      rw [next i (by omega), ih (by omega)]
      omega

/-- The entries that pass every check are the acceptable ones. -/
theorem acceptable_iff {e : Nat → Entry} {total n : Nat} (byte : (e n).track.number ≤ 255) :
    Acceptable e total n ↔ Placeable e n ∧ (e n).track.number ≠ 255 ∧ 1 ≤ (e n).track.number ∧
      skipAt e n ≤ total ∧ lengthAt e total n n < 2 ^ 32 ∧
      startAt e n + lengthAt e total n n < 2 ^ 32 := by
  constructor
  · rintro ⟨first, next, last, gaps, order, stored, fits⟩
    have hplaced : ∀ i < n + 1, startAt e i < 2 ^ 32 ∧ lengthAt e total n i < 2 ^ 32 := fun i hi =>
      fits (placedAt e total n i)
        (List.mem_append_left _ (List.mem_map_of_mem (List.mem_range.mpr hi)))
    have hout := fits { leadOut (e n).track with start := startAt e n + lengthAt e total n n }
      (List.mem_append_right _ (List.mem_singleton_self _))
    -- the builder asks for 2 and more of all but the first track
    have hn := number_eq_add next le_rfl
    refine ⟨⟨fun i hi => ⟨?_, next i hi⟩, gaps, order, fun i hi => (hplaced i hi).1,
      fun i hi => ?_⟩, by omega, by omega, stored, (hplaced n (by omega)).2, hout.1⟩
    · have := number_eq_add next (i := i + 1) hi
      omega
    · have := (hplaced i (by omega)).2
      rwa [lengthAt_of_lt hi] at this
  · rintro ⟨⟨number, gaps, order, start, length⟩, h255, h1, stored, hlt, hout⟩
    refine ⟨?_, fun i hi => (number i hi).2, by omega, gaps, order, stored, ?_⟩
    · -- with one track alone it is the lead-out that asks for a number above 0
      rcases Nat.eq_zero_or_pos n with rfl | hpos
      · exact h1
      · have := number 0 hpos
        omega
    · intro t ht
      rcases List.mem_append.mp ht with ht | ht
      · obtain ⟨i, hi, rfl⟩ := List.mem_map.mp ht
        rw [List.mem_range] at hi
        refine ⟨start i hi, ?_⟩
        change lengthAt e total n i < 2 ^ 32
        rcases Nat.lt_succ_iff_lt_or_eq.mp hi with hi | rfl
        · rw [lengthAt_of_lt hi]
          exact length i hi
        · exact hlt
      · rw [List.mem_singleton.mp ht]
        exact ⟨hout, by simp [leadOut]⟩

/-- **The layout of one source.** Entries of one source are accepted exactly if they are acceptable,
and are then laid out as their numbers say. -/
theorem ofEntries_range_ok_iff {e : Nat → Entry} {total n : Nat} {tracks : List Track}
    {source : Source} (known : source.length = some total)
    (hsource : ∀ i < n + 1, (e i).track.source = some source)
    (fresh : ∀ i < n, (e i).track.length = 0) (byte : (e n).track.number ≤ 255) :
    ofEntries ((List.range (n + 1)).map e) = .ok tracks ↔
      Acceptable e total n ∧ tracks = laidOut e total n := by
  have same : ∀ i < n, (e i).track.sharesSource (e (i + 1)).track = true := fun i hi => by
    simp [Track.sharesSource, hsource i (by omega), hsource (i + 1) (by omega)]
  rw [ofEntries_ok_iff, acceptable_iff byte]
  constructor
  · rintro ⟨l, hl, hfinish⟩
    obtain ⟨hp, rfl⟩ := (extend_range_ok_iff same fresh).mp hl
    obtain ⟨hc, rfl⟩ := (finish_upTo_ok_iff (hsource n (by omega)) known).mp hfinish
    exact ⟨⟨hp, hc⟩, rfl⟩
  · rintro ⟨⟨hp, hc⟩, rfl⟩
    exact ⟨_, (extend_range_ok_iff same fresh).mpr ⟨hp, rfl⟩,
      (finish_upTo_ok_iff (hsource n (by omega)) known).mpr ⟨hc, rfl⟩⟩

/-! ### Lists of entries -/

/-- A list is what its places hold. -/
theorem map_getD_range (es : List Entry) {n : Nat} (h : es.length = n + 1) :
    (List.range (n + 1)).map (es.getD · default) = es := by
  apply List.ext_getElem
  · simp [h]
  · intro i hi hi'
    simp [hi']

theorem getD_mem {es : List Entry} {i : Nat} (h : i < es.length) : es.getD i default ∈ es := by
  rw [List.getD_eq_getElem?_getD, List.getElem?_eq_getElem h]
  exact List.getElem_mem _

/-- What is asked of the entries of one source: the source, no length yet, and a number that is a
byte. -/
def SameSource (source : Source) (es : List Entry) : Prop :=
  ∀ e ∈ es, e.track.source = some source ∧ e.track.length = 0 ∧ e.track.number ≤ 255

/-- The layout of one source, for a list. -/
theorem ofEntries_list_ok_iff {es : List Entry} {source : Source} {total n : Nat}
    {tracks : List Track} (hn : es.length = n + 1) (known : source.length = some total)
    (same : SameSource source es) :
    ofEntries es = .ok tracks ↔
      Acceptable (es.getD · default) total n ∧ tracks = laidOut (es.getD · default) total n := by
  have hmem : ∀ i < n + 1, es.getD i default ∈ es := fun i hi => getD_mem (by omega)
  have h : ofEntries ((List.range (n + 1)).map (es.getD · default)) = .ok tracks ↔ _ :=
    ofEntries_range_ok_iff known (fun i hi => (same _ (hmem i hi)).1)
      (fun i hi => (same _ (hmem i (by omega))).2.1) (same _ (hmem n (by omega))).2.2
  rwa [map_getD_range es hn] at h

theorem getElem?_laidOut {e : Nat → Entry} {total n i : Nat} (hi : i ≤ n) :
    (laidOut e total n)[i]? = some (placedAt e total n i) := by
  rw [laidOut, List.getElem?_append_left (by simpa using Nat.lt_succ_of_le hi)]
  simp [Nat.lt_succ_of_le hi]

/-- **The exact layout of one source.** Let fresh tracks share a source of `total` bytes. All
additions and the lead-out succeed exactly if the entries are acceptable. Then every track starts at
its INDEX 01 plus the pregaps so far, ends where the next one's INDEX 00 is, and is stored behind
the tracks and gaps before it; the last one takes what is left of the source and the lead-out
follows it. -/
theorem singleSource_layout {es : List Entry} {source : Source} {total n : Nat}
    (hn : es.length = n + 1) (known : source.length = some total) (same : SameSource source es) :
    let e := (es.getD · default)
    ((∃ tracks, ofEntries es = .ok tracks) ↔ Acceptable e total n) ∧
    ∀ tracks, ofEntries es = .ok tracks →
      (∀ i ≤ n, ∃ t, tracks[i]? = some t ∧ t.unplaced = (e i).track.unplaced ∧
        t.start = (e i).track.start + ∑ j ∈ Finset.range (i + 1), (e j).pregap ∧
        t.skip =
          ∑ j ∈ Finset.range i, ((e (j + 1)).gapStart - (e j).track.start) *
            (e j).track.sectorSize +
          ∑ j ∈ Finset.range (i + 1), ((e j).track.start - (e j).gapStart) *
            (e j).track.sectorSize ∧
        (i < n → t.length = (e (i + 1)).gapStart - (e i).track.start) ∧
        (i = n → t.length = (total - t.skip) ⌈/⌉ t.sectorSize)) ∧
      ∃ last out, tracks[n]? = some last ∧ tracks.drop (n + 1) = [out] ∧
        out.start = last.endSector ∧ out.length = 0 := by
  intro e
  have hiff : ∀ tracks, ofEntries es = .ok tracks ↔
      Acceptable e total n ∧ tracks = laidOut e total n :=
    fun _ => ofEntries_list_ok_iff hn known same
  refine ⟨⟨fun ⟨tracks, h⟩ => ((hiff tracks).mp h).1, fun h => ⟨_, (hiff _).mpr ⟨h, rfl⟩⟩⟩, ?_⟩
  intro tracks h
  obtain ⟨-, rfl⟩ := (hiff tracks).mp h
  refine ⟨fun i hi => ⟨_, getElem?_laidOut hi, rfl, rfl, rfl, fun hlt => lengthAt_of_lt hlt, ?_⟩,
    _, { leadOut (e n).track with start := startAt e n + lengthAt e total n n },
    getElem?_laidOut le_rfl, ?_, rfl, rfl⟩
  · rintro rfl
    rw [Nat.ceilDiv_eq_add_pred_div]
    exact lengthAt_last
  · rw [laidOut, List.drop_append_of_le_length (by simp), List.drop_eq_nil_of_le (by simp)]
    rfl

/-- A data track and a track of sound behind two seconds of silence, in a file of 2000 sectors. -/
def mixedSource : Source :=
  { id := 0, path := "game.bin", contents := some (.filled (2000 * 2352) 0)
    format := .binary (2000 * 2352) }

/-- The entries of the two tracks. -/
def mixedEntries : List Entry :=
  [⟨{ number := 1, source := some mixedSource : Track }.withMode .mode1Raw, none, 0⟩,
    ⟨{ number := 2, start := 750, source := some mixedSource : Track }.withMode .audio, none, 150⟩]

theorem singleSource_layout_mixed :
    SameSource mixedSource mixedEntries ∧ mixedSource.length = some (2000 * 2352) ∧
      ∃ tracks, ofEntries mixedEntries = .ok tracks ∧ ∃ t, tracks[1]? = some t ∧
        t.start = 900 ∧ t.skip = 750 * 2352 ∧ t.length = 1250 := by
  have same : SameSource mixedSource mixedEntries := by
    simp [SameSource, mixedEntries, Track.withMode]
  have known : mixedSource.length = some (2000 * 2352) := rfl
  obtain ⟨hiff, htracks⟩ := singleSource_layout (n := 1) rfl known same
  obtain ⟨tracks, h⟩ := hiff.mpr
    { first := by decide, next := by decide, last := by decide, gaps := by decide
      order := by decide, stored := by decide, fits := by decide }
  obtain ⟨t, ht, hkind, hstart, hskip, -, hlength⟩ := (htracks tracks h).1 1 le_rfl
  have hsize : t.sectorSize = 2352 := congrArg Track.sectorSize hkind
  refine ⟨same, known, tracks, h, t, ht, ?_, ?_, ?_⟩
  · exact hstart.trans (by decide)
  · exact hskip.trans (by decide)
  · rw [hlength rfl, hskip, hsize]
    decide

end CompactDisc.Layout
