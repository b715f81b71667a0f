import CompactDisc.Proofs.Layout.Block

/-!
# CompactDisc.Proofs.Layout.Stack

**One track for each file.** Where every track has a file for itself, the layout is a stack: each track
begins behind the end of the one before it, its INDEX 01 and its pregap further on, and takes what is left
of its file behind the gap before it. `ofEntries_singles_iff` says when such entries are accepted and what
comes out.

Proof shape: an entry closes the track before it and opens its own (`Layout.place_new_ok_iff`), and the
lead-out does the same to the last, so the run goes by induction on the entries behind an open track
(`run_ok_iff`).
-/

namespace CompactDisc.Layout

/-- A track that has a file for itself. -/
structure Single where
  entry : Entry
  /-- The bytes of its file. -/
  total : Nat

namespace Single

/-- The byte of the file at which the track begins. -/
def skip (p : Single) : Nat := p.entry.gap * p.entry.track.sectorSize

/-- The sectors that what is left of the file takes. -/
def sectors (p : Single) : Nat := p.entry.track.sectorsOf (p.total - p.skip)

/-- The track behind `base` sectors. -/
def track (p : Single) (base : Nat) : Track := { p.entry.track with
  start := p.entry.track.start + base + p.entry.pregap, length := p.sectors, skip := p.skip }

/-- The track while nothing is known of what follows it. -/
def opened (p : Single) (base : Nat) : Track := { p.entry.track with
  start := p.entry.track.start + base + p.entry.pregap, skip := p.skip }

/-- INDEX 00 is not behind INDEX 01, and the gap between them is in the file. -/
def Fits (p : Single) : Prop := p.entry.gapStart ≤ p.entry.track.start ∧ p.skip ≤ p.total

/-- The file is the one that the sheet names. -/
def Sourced (p : Single) : Prop := ∃ s, p.entry.track.source = some s ∧ s.length = some p.total

end Single

/-- The tracks behind `base` sectors, one on the other. -/
def stack (base : Nat) : List Single → List Track
  | [] => []
  | p :: ps => p.track base :: stack (p.track base).endSector ps

/-- The lead-out behind some tracks. -/
def outOf (ts : List Track) : Track :=
  { leadOut (ts.getLast?.getD {}) with start := endOf ts }

/-- The layout when the open track is closed and the next one is open on top of it. -/
def piled (l : Layout) (init : List Track) (p q : Single) (base : Nat) : Layout where
  tracks := init ++ [p.track base, q.opened (p.track base).endSector]
  shift := l.shift + (p.track base).endSector
  inserted := q.entry.pregap

/-- Track numbers that follow each other, with a place for the lead-out behind them. -/
def Numbered (ns : List Nat) : Prop :=
  ns.IsChain (fun a b => 2 ≤ b ∧ b = a + 1) ∧ ∀ last ∈ ns.getLast?, 1 ≤ last ∧ last ≠ 255

/-- No two neighbours have the same file. -/
def Apart (ts : List Track) : Prop := ts.IsChain fun t u => t.sharesSource u = false

theorem numbered_singleton_iff {n : Nat} : Numbered [n] ↔ 1 ≤ n ∧ n ≠ 255 := by
  simp [Numbered]

theorem numbered_cons_cons_iff {a b : Nat} {ns : List Nat} :
    Numbered (a :: b :: ns) ↔ (2 ≤ b ∧ b = a + 1) ∧ Numbered (b :: ns) := by
  simp [Numbered, and_assoc]

/-- The lead-out is behind the last track. -/
theorem outOf_cons_cons (t u : Track) (ts : List Track) : outOf (t :: u :: ts) = outOf (u :: ts) := by
  simp [outOf, endOf]

variable {p q : Single} {ps : List Single} {base : Nat} {l l' : Layout} {init tracks : List Track}

theorem Single.Sourced.length_opened (hp : p.Sourced) (base : Nat) :
    (p.opened base).source.bind Source.length = some p.total := by
  obtain ⟨s, hs, hlength⟩ := hp
  exact Option.bind_eq_some_iff.mpr ⟨s, hs, hlength⟩

/-- The next entry closes the open track and opens its own. -/
theorem place_opened_ok_iff (hl : l.tracks = init ++ [p.opened base]) (hp : p.Sourced)
    (hapart : p.entry.track.sharesSource q.entry.track = false) :
    l.place q.entry = .ok l' ↔ p.skip ≤ p.total ∧ q.entry.gapStart ≤ q.entry.track.start ∧
      p.sectors < 2 ^ 32 ∧
      (2 ≤ q.entry.track.number ∧ q.entry.track.number = p.entry.track.number + 1) ∧
      (q.opened (p.track base).endSector).start < 2 ^ 32 ∧ l' = l.piled init p q base := by
  rw [place_new_ok_iff hl hapart, hp.length_opened base]
  constructor
  · rintro ⟨hgap, total, ⟨⟩, hskip, _, rfl, hlength, h1, h2, hstart, rfl⟩
    exact ⟨hskip, hgap, hlength, ⟨h1, h2⟩, hstart, rfl⟩
  · rintro ⟨hskip, hgap, hlength, ⟨h1, h2⟩, hstart, rfl⟩
    exact ⟨hgap, _, rfl, hskip, _, rfl, hlength, h1, h2, hstart, rfl⟩

/-- The lead-out closes the open track. -/
theorem finish_opened_ok_iff (hl : l.tracks = init ++ [p.opened base]) (hp : p.Sourced) :
    l.finish = .ok tracks ↔ p.skip ≤ p.total ∧ Numbered [p.entry.track.number] ∧
      (p.track base).endSector < 2 ^ 32 ∧
      tracks = init ++ [p.track base] ++ [outOf [p.track base]] := by
  have hapart : (p.opened base).sharesSource (closing (p.opened base)).track = false := by
    obtain ⟨s, hs, -⟩ := hp
    have hsome : (p.opened base).source = some s := hs
    simp [Track.sharesSource, hsome, closing, leadOut]
  have hout : ({ (closing (p.opened base)).track with
      start := (closing (p.opened base)).track.start + (p.track base).endSector +
        (closing (p.opened base)).pregap
      skip := (closing (p.opened base)).gap * (closing (p.opened base)).track.sectorSize } : Track) =
      outOf [p.track base] := by
    simp [closing, Entry.gap, Entry.gapStart, leadOut, outOf, endOf, Single.opened, Single.track]
  have hstart : (closing (p.opened base)).track.start + (p.track base).endSector +
      (closing (p.opened base)).pregap = (p.track base).endSector := congrArg Track.start hout
  rw [finish_ok_iff hl, numbered_singleton_iff]
  simp only [place_new_ok_iff hl hapart, hp.length_opened base]
  constructor
  · rintro ⟨hnumber, _, ⟨-, total, ⟨⟩, hskip, _, rfl, hlength, h1, -, hend, rfl⟩, rfl⟩
    refine ⟨hskip, ⟨Nat.le_of_succ_le_succ h1, hnumber⟩, lt_of_eq_of_lt hstart.symm hend, ?_⟩
    rw [← hout, List.append_assoc]
    rfl
  · rintro ⟨hskip, ⟨h1, hnumber⟩, hend, rfl⟩
    have hlength : p.sectors < 2 ^ 32 := Nat.lt_of_le_of_lt (Nat.le_add_left _ _) hend
    refine ⟨hnumber, _, ⟨Nat.le_refl _, _, rfl, hskip, _, rfl, hlength, Nat.succ_le_succ h1, rfl,
      lt_of_eq_of_lt hstart hend, rfl⟩, ?_⟩
    rw [← hout, List.append_assoc]
    rfl

/-- **Entries behind an open track**, to the end of the disc. By induction on the entries, each of which
leaves its own track open. -/
theorem run_ok_iff (hl : l.tracks = init ++ [p.opened base]) (hps : ∀ q ∈ p :: ps, q.Sourced)
    (hapart : Apart ((p :: ps).map (·.entry.track))) :
    (∃ m, l.extend (ps.map Single.entry) = .ok m ∧ m.finish = .ok tracks) ↔
      p.skip ≤ p.total ∧ (∀ q ∈ ps, q.Fits) ∧ Numbered ((p :: ps).map (·.entry.track.number)) ∧
        (∀ t ∈ stack base (p :: ps), t.endSector < 2 ^ 32) ∧
        tracks = init ++ stack base (p :: ps) ++ [outOf (stack base (p :: ps))] := by
  induction ps generalizing l init p base with
  | nil =>
      have hextend : ∀ m, l.extend [] = .ok m ↔ l = m := fun m => by
        rw [extend, List.foldlM_nil]
        exact Iff.of_eq (Except.ok.injEq l m)
      simp only [List.map_nil, hextend, exists_eq_left', finish_opened_ok_iff hl (hps p (by simp))]
      simp [stack]
  | cons q ps ih =>
      rw [List.map_cons, List.map_cons, Apart, List.isChain_cons_cons] at hapart
      obtain ⟨hother, hapart⟩ := hapart
      have hfirst := hps p List.mem_cons_self
      have hrest := fun q' h => hps q' (List.mem_cons_of_mem _ h)
      have hopened : (l.piled init p q base).tracks =
          (init ++ [p.track base]) ++ [q.opened (p.track base).endSector] := by simp [piled]
      have hstack : init ++ p.track base :: stack (p.track base).endSector (q :: ps) ++
          [outOf (p.track base :: stack (p.track base).endSector (q :: ps))] =
          (init ++ [p.track base]) ++ stack (p.track base).endSector (q :: ps) ++
            [outOf (stack (p.track base).endSector (q :: ps))] := by
        simp [stack, outOf_cons_cons]
      -- the track that is closed ends before the next one starts
      have hend : (p.track base).endSector ≤ (q.opened (p.track base).endSector).start := by
        change _ ≤ q.entry.track.start + (p.track base).endSector + q.entry.pregap
        omega
      rw [List.map_cons, List.map_cons, List.map_cons, numbered_cons_cons_iff, List.forall_mem_cons,
        stack, List.forall_mem_cons]
      simp only [extend_cons_ok_iff, place_opened_ok_iff hl hfirst hother]
      constructor
      · rintro ⟨m, ⟨_, ⟨hskip, hgap, -, hnumber, hstart, rfl⟩, hm⟩, hfinish⟩
        obtain ⟨hq, hfits, hnumbers, hends, rfl⟩ := (ih hopened hrest hapart).mp ⟨m, hm, hfinish⟩
        refine ⟨hskip, ⟨⟨hgap, hq⟩, hfits⟩, ⟨hnumber, hnumbers⟩,
          ⟨Nat.lt_of_le_of_lt hend hstart, hends⟩, ?_⟩
        rw [hstack]
      · rintro ⟨hskip, ⟨⟨hgap, hq⟩, hfits⟩, ⟨hnumber, hnumbers⟩, ⟨hends', hends⟩, htracks⟩
        have hsectors : p.sectors < 2 ^ 32 := Nat.lt_of_le_of_lt (Nat.le_add_left _ _) hends'
        have hstart : (q.opened (p.track base).endSector).start < 2 ^ 32 :=
          Nat.lt_of_le_of_lt (Nat.le_add_right _ q.sectors)
            (hends (q.track (p.track base).endSector) (by simp [stack]))
        rw [hstack] at htracks
        obtain ⟨m, hm, hfinish⟩ := (ih hopened hrest hapart).mpr ⟨hq, hfits, hnumbers, hends, htracks⟩
        exact ⟨m, ⟨_, ⟨hskip, hgap, hsectors, hnumber, hstart, rfl⟩, hm⟩, hfinish⟩

/-- **A stack of tracks.** Entries with a file each are accepted exactly if each fits into its file, their
numbers follow each other and the sectors can be counted; the disc is then the stack and its lead-out. -/
theorem ofEntries_singles_iff (hps : ∀ p ∈ ps, p.Sourced)
    (hapart : Apart (ps.map (·.entry.track))) :
    ofEntries (ps.map Single.entry) = .ok tracks ↔
      ps ≠ [] ∧ (∀ p ∈ ps, p.Fits) ∧ Numbered (ps.map (·.entry.track.number)) ∧
        (∀ t ∈ stack 0 ps, t.endSector < 2 ^ 32) ∧ tracks = stack 0 ps ++ [outOf (stack 0 ps)] := by
  rw [ofEntries_ok_iff]
  cases ps with
  | nil =>
      constructor
      · rintro ⟨_, ⟨⟩, h⟩
        cases h
      · rintro ⟨h, -⟩
        exact absurd rfl h
  | cons p ps =>
      have hplace : ∀ l, place .empty p.entry = .ok l ↔ p.entry.gapStart ≤ p.entry.track.start ∧
          (p.opened 0).start < 2 ^ 32 ∧
          l = { Layout.empty with tracks := [p.opened 0], inserted := p.entry.pregap } := fun l =>
        place_first_ok_iff rfl
      have hfirst : ({ Layout.empty with
          tracks := [p.opened 0], inserted := p.entry.pregap } : Layout).tracks = [] ++ [p.opened 0] := rfl
      rw [List.map_cons, List.forall_mem_cons]
      simp only [extend_cons_ok_iff, hplace]
      constructor
      · rintro ⟨m, ⟨_, ⟨hgap, -, rfl⟩, hm⟩, hfinish⟩
        obtain ⟨hskip, hfits, hnumbers, hends, htracks⟩ := (run_ok_iff hfirst hps hapart).mp ⟨m, hm, hfinish⟩
        exact ⟨nofun, ⟨⟨hgap, hskip⟩, hfits⟩, hnumbers, hends, htracks⟩
      · rintro ⟨-, ⟨⟨hgap, hskip⟩, hfits⟩, hnumbers, hends, htracks⟩
        have hstart : (p.opened 0).start < 2 ^ 32 :=
          Nat.lt_of_le_of_lt (Nat.le_add_right _ p.sectors) (hends (p.track 0) (by simp [stack]))
        obtain ⟨m, hm, hfinish⟩ :=
          (run_ok_iff hfirst hps hapart).mpr ⟨hskip, hfits, hnumbers, hends, htracks⟩
        exact ⟨m, ⟨_, ⟨hgap, hstart, rfl⟩, hm⟩, hfinish⟩

/-! ### How many, and how far -/

/-- Numbers that are bytes and follow each other are few. -/
theorem add_length_le_of_numbered {n : Nat} {ns : List Nat} (h : Numbered (n :: ns))
    (hbyte : ∀ m ∈ n :: ns, m ≤ 255) : n + ns.length ≤ 255 := by
  induction ns generalizing n with
  | nil => exact hbyte n List.mem_cons_self
  | cons m ns ih =>
      obtain ⟨⟨-, rfl⟩, hrest⟩ := numbered_cons_cons_iff.mp h
      have hle := ih hrest fun k hk => hbyte k (List.mem_cons_of_mem _ hk)
      rw [List.length_cons]
      omega

/-- A stack is not higher than its tracks together. -/
theorem endSector_le_of_stack {height : Nat}
    (hps : ∀ p ∈ ps, p.entry.track.start + p.entry.pregap + p.sectors ≤ height) {t : Track}
    (ht : t ∈ stack base ps) : t.endSector ≤ base + ps.length * height := by
  induction ps generalizing base with
  | nil => cases ht
  | cons p ps ih =>
      have hfirst := hps p List.mem_cons_self
      have hend : (p.track base).endSector ≤ base + height := by
        change p.entry.track.start + base + p.entry.pregap + p.sectors ≤ _
        omega
      rw [List.length_cons, Nat.add_mul]
      rcases List.mem_cons.mp ht with rfl | ht
      · omega
      · have hle := ih (fun q hq => hps q (List.mem_cons_of_mem _ hq)) ht
        omega

end CompactDisc.Layout
