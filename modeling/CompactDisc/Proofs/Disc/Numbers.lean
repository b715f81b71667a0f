import CompactDisc.Proofs.Disc.Loaded

/-!
# CompactDisc.Proofs.Disc.Numbers

**The number of a track against its place on the disc.** Behind another track a number is checked: it
follows that of the track before, and it is at least 2. The number of the first track is not checked
at all, so a sheet may begin anywhere; whatever it says first decides all numbers (`numbers_of_load`).

The queries of a disc go by places. They answer for the number one less than the place behind the
first number, and so for the place itself exactly if the sheet begins with track 1.
-/

namespace CompactDisc

/-- What is told about a track. -/
def Track.info (t : Track) : TrackInfo := { start := Msf.absolute t.start, attr := t.attr }

/-- The track with a number, of those that are not the lead-out. -/
def Disc.numbered? (d : Disc) (number : Nat) : Option Track :=
  d.tracks.dropLast.find? fun t => t.number == number

/-! ### Numbers in order -/

/-- The numbers of tracks in order are those from the first on. -/
theorem map_number_eq_range' {t : Track} {ts : List Track} (h : (t :: ts).IsChain Track.Precedes) :
    (t :: ts).map Track.number = List.range' t.number (t :: ts).length := by
  induction ts generalizing t with
  | nil => simp
  | cons u rest ih =>
      rw [List.isChain_cons_cons] at h
      rw [List.map_cons, ih h.2, h.1.number]
      rfl

/-- Where the numbers count up, a track is found at the place that its number says. -/
theorem find?_number {first : Nat} {ts : List Track}
    (h : ts.map Track.number = List.range' first ts.length) (n : Nat) :
    (ts.find? fun t => t.number == first + n) = ts[n]? := by
  induction ts generalizing first n with
  | nil => rfl
  | cons t rest ih =>
      rw [List.map_cons, List.length_cons, List.range'_succ, List.cons.injEq] at h
      obtain ⟨ht, hrest⟩ := h
      cases n with
      | zero => simp [ht]
      | succ n =>
          rw [List.find?_cons_of_neg (by simp [ht]), List.getElem?_cons_succ, ← ih hrest n,
            Nat.add_right_comm, Nat.add_assoc]

/-- No track has a number below the first. -/
theorem find?_number_of_lt {first number : Nat} {ts : List Track}
    (h : ts.map Track.number = List.range' first ts.length) (hlt : number < first) :
    (ts.find? fun t => t.number == number) = none := by
  rw [List.find?_eq_none]
  intro t ht
  have hmem : t.number ∈ List.range' first ts.length := h ▸ List.mem_map_of_mem ht
  have hle := (List.mem_range'_1.mp hmem).1
  simp
  omega

/-- The number of a track at its place. -/
theorem number_getElem {first : Nat} {ts : List Track}
    (h : ts.map Track.number = List.range' first ts.length) {i : Nat} (hi : i < ts.length) :
    ts[i].number = first + i := by
  have hat : (ts.map Track.number)[i]? = (List.range' first ts.length)[i]? := by rw [h]
  rw [List.getElem?_map, List.getElem?_eq_getElem hi, List.getElem?_range' hi] at hat
  simpa using hat

/-- Without the last track, the numbers still count up. -/
theorem map_number_dropLast {first : Nat} {ts : List Track}
    (h : ts.map Track.number = List.range' first ts.length) :
    ts.dropLast.map Track.number = List.range' first ts.dropLast.length := by
  rw [List.map_dropLast, h, List.length_dropLast]
  cases ts.length with
  | zero => rfl
  | succ n => rw [List.range'_concat, List.dropLast_concat, Nat.add_sub_cancel]

namespace Layout

/-- The check of a number keeps it above 1 behind another track. -/
theorem number_place {l l' : Layout} {e : Entry} (h : l.place e = .ok l')
    (hl : ∀ t ∈ l.tracks.tail, 2 ≤ t.number) : ∀ t ∈ l'.tracks.tail, 2 ≤ t.number := by
  rcases List.eq_nil_or_concat l.tracks with hnil | ⟨init, prev, hprev⟩
  · obtain ⟨-, -, rfl⟩ := (place_first_ok_iff hnil).mp h
    simp
  · rw [List.concat_eq_append] at hprev
    obtain ⟨-, p, hp, htwo, -, -, -, rfl⟩ := (place_next_ok_iff hprev).mp h
    obtain ⟨length, htracks, -⟩ := placeAfter_ok hprev hp
    rw [hprev] at hl
    rw [htracks]
    -- the previous track has got a length, and a new one stands behind it
    cases init with
    | nil => simpa using htwo
    | cons first init =>
        intro t ht
        simp only [List.cons_append, List.tail_cons, List.mem_append, List.mem_singleton] at ht hl
        rcases ht with (ht | rfl) | rfl
        · exact hl t (Or.inl ht)
        · exact hl prev (Or.inr rfl)
        · exact htwo

/-- On a disc, every number behind the first is above 1, and that of the lead-out fits a byte. -/
theorem number_of_ofEntries {es : List Entry} {tracks : List Track}
    (h : ofEntries es = .ok tracks) (bytes : ∀ e ∈ es, e.track.number ≤ 255) :
    (∀ t ∈ tracks.tail, 2 ≤ t.number) ∧ ∀ out ∈ tracks.getLast?, out.number ≤ 255 := by
  obtain ⟨l, hl, hf⟩ := ofEntries_ok_iff.mp h
  rcases List.eq_nil_or_concat l.tracks with hnil | ⟨init, last, hlast⟩
  · rw [finish_of_empty hnil] at hf
    cases hf
  · rw [List.concat_eq_append] at hlast
    obtain ⟨hroom, l', hl', rfl⟩ := (finish_ok_iff hlast).mp hf
    refine ⟨number_place hl' (extend_induction hl nofun fun _ _ _ _ hl h => number_place h hl), ?_⟩
    -- the number of the last track is that of an entry
    have hmem : last.unplaced ∈ l.tracks.map Track.unplaced := List.mem_map_of_mem (by simp [hlast])
    rw [unplaced_extend hl] at hmem
    obtain ⟨e, he, heq⟩ := List.mem_map.mp hmem
    have hnumber : e.track.number = last.number := by
      simpa [Track.unplaced] using congrArg Track.number heq
    have hbyte := bytes e he
    obtain ⟨-, p, -, -, -, -, -, rfl⟩ := (place_next_ok_iff hlast).mp hl'
    intro out hout
    rw [List.getLast?_concat, Option.mem_some_iff] at hout
    subst hout
    change last.number + 1 ≤ 255
    omega

end Layout

/-! ### The queries -/

namespace Disc

variable {d : Disc} {first : Nat}

theorem numbered?_add (h : d.tracks.map Track.number = List.range' first d.tracks.length)
    (n : Nat) : d.numbered? (first + n) = d.tracks.dropLast[n]? :=
  find?_number (map_number_dropLast h) n

/-- The track at a place is the one with the number that is as far behind the first. -/
theorem trackInfo?_succ (h : d.tracks.map Track.number = List.range' first d.tracks.length)
    (n : Nat) : d.trackInfo? (n + 1) =
      if n < RedBook.maxTracks then (d.numbered? (first + n)).map Track.info else none := by
  rw [numbered?_add h, List.getElem?_dropLast, trackInfo?, Nat.add_sub_cancel]
  by_cases hmax : n < RedBook.maxTracks
  · by_cases hplayable : n < d.tracks.length - 1
    · rw [if_neg (by omega), if_pos hmax, if_pos hplayable]
      rfl
    · rw [if_pos (by omega), if_pos hmax, if_neg hplayable]
      rfl
  · rw [if_pos (by omega), if_neg hmax]

@[simp] theorem trackInfo?_zero (d : Disc) : d.trackInfo? 0 = none := by
  simp [trackInfo?]

/-- The places of the playable tracks. -/
theorem trackRange?_of_closed (h : d.Closed) :
    ∃ out ∈ d.leadOut?, d.trackRange? = some {
      first := 1
      last := min (d.tracks.length - 1) RedBook.maxTracks
      leadOut := Msf.absolute out.start } := by
  have henough := h.enough
  have hne : d.tracks ≠ [] := by
    intro hnil
    simp [hnil] at henough
  refine ⟨d.tracks.getLast hne, List.getLast?_eq_some_getLast hne, ?_⟩
  have hguard : ¬ d.tracks.length < RedBook.minEntries := Nat.not_lt.mpr henough
  rw [trackRange?, if_neg hguard, leadOut?, List.getLast?_eq_some_getLast hne, Option.map_some]

/-- A place is in the range exactly if there is a track with the number that is as far behind the
first. -/
theorem mem_trackRange?_iff (h : d.Closed)
    (hnumbers : d.tracks.map Track.number = List.range' first d.tracks.length)
    {range : TrackRange} (hrange : d.trackRange? = some range) (n : Nat) :
    (range.first ≤ n + 1 ∧ n + 1 ≤ range.last) ↔
      n < RedBook.maxTracks ∧ (d.numbered? (first + n)).isSome = true := by
  obtain ⟨out, -, hsome⟩ := trackRange?_of_closed h
  rw [hsome] at hrange
  cases hrange
  rw [numbered?_add hnumbers, List.getElem?_dropLast]
  by_cases hplayable : n < d.tracks.length - 1
  · rw [if_pos hplayable, List.getElem?_eq_getElem (by omega)]
    simp
    omega
  · rw [if_neg hplayable]
    simp
    omega

end Disc

/-! ### Sheets -/

namespace Sheet

variable {env : Surroundings} {storage : Storage} {resolver : Resolver} {path : String}
  {cursors cursors' : Cursors} {disc : Disc}

/-- The number that a `TRACK` line gives. -/
def Command.number? : Command → Option Nat
  | .track number _ => some number
  | _ => none

/-- The entries have the numbers of the `TRACK` lines. -/
theorem numbers_entries? {source : Option Source} {es : List Entry} {cs : List Command}
    (h : entries? env cursors source cs = some (es, cursors')) :
    (es.map fun e => e.track.number) = cs.filterMap Command.number? := by
  induction cs generalizing cursors source es with
  | nil =>
      cases h
      rfl
  | cons c cs ih =>
      cases c with
      | track number mode =>
          obtain ⟨s, -, rest, hrest, rfl⟩ := entries?_track_iff.mp h
          rw [List.map_cons, ih hrest]
          rfl
      | file name kind =>
          obtain ⟨_, -, opened, -, hrest⟩ := entries?_file_iff.mp h
          rw [ih hrest]
          rfl
      | index | pregap | catalog | remark =>
          rw [entries?_within rfl] at h
          rw [ih h]
          rfl

/-- The numbers of a disc are those of the `TRACK` lines of its sheet, which count up, and one more
for the lead-out. -/
theorem map_number_of_load (h : load storage resolver path cursors = .ok (disc, cursors')) :
    ∃ cs first, sheetCommands? storage path = some cs ∧
      cs.filterMap Command.number? = List.range' first (disc.tracks.length - 1) ∧
      1 ≤ first ∧ first + disc.tracks.length ≤ 256 ∧
      disc.tracks.map Track.number = List.range' first disc.tracks.length := by
  obtain ⟨es, hes, htracks⟩ := entries_of_load h
  obtain ⟨cs, hcs, hentries⟩ := Option.bind_eq_some_iff.mp hes
  obtain ⟨init, last, out, heq, -, hunplaced, -⟩ := Layout.ofEntries_cases htracks
  obtain ⟨htwo, hout⟩ := Layout.number_of_ofEntries htracks (described_of_sheetEntries? hes).byte
  have hclosed := closed_of_load h
  have henough := hclosed.enough
  obtain ⟨t, rest, hcons⟩ : ∃ t rest, disc.tracks = t :: rest :=
    List.exists_cons_of_ne_nil (by simp [heq])
  have hnumbers : disc.tracks.map Track.number = List.range' t.number disc.tracks.length := by
    have hordered := hclosed.ordered
    rw [hcons] at hordered ⊢
    exact map_number_eq_range' hordered
  refine ⟨cs, t.number, hcs, ?_, ?_, ?_, hnumbers⟩
  · have hplayable := map_number_dropLast hnumbers
    rw [List.length_dropLast] at hplayable
    rw [← hplayable, ← numbers_entries? hentries, heq, List.append_cons, List.dropLast_concat]
    have hsame := congrArg (List.map Track.number) hunplaced
    simp only [List.map_map] at hsame
    exact hsame.symm
  · -- behind 0 would come 1, which no track behind another may have
    have hsecond := number_getElem hnumbers (i := 1) henough
    have hmem : disc.tracks[1] ∈ disc.tracks.tail := by
      rw [List.mem_iff_getElem]
      exact ⟨0, by rw [List.length_tail]; omega, by rw [List.getElem_tail]⟩
    have habove := htwo _ hmem
    omega
  · have hlast := number_getElem hnumbers (i := disc.tracks.length - 1) (by omega)
    rw [← List.getLast_eq_getElem (by simp [heq])] at hlast
    have hbyte := hout _ (List.getLast?_eq_some_getLast (by simp [heq]))
    omega

/-- **Numbers and places.** The numbers of a loaded sheet count up from the first one that it gives,
which is at least 1. The queries answer for the track that is as far behind that number as the place
that is asked for is behind 1. So numbers are places, a query for a number finds the track with it,
and the range that is told is that of the numbers, each exactly if the sheet begins with track 1. -/
theorem numbers_of_load (h : load storage resolver path cursors = .ok (disc, cursors')) :
    ∃ cs first, sheetCommands? storage path = some cs ∧
      cs.filterMap Command.number? = List.range' first (disc.tracks.length - 1) ∧
      1 ≤ first ∧ first + disc.tracks.length ≤ 256 ∧
      disc.tracks.map Track.number = List.range' first disc.tracks.length ∧
      disc.trackInfo? 0 = none ∧
      (∀ n, disc.trackInfo? (n + 1) =
        if n < RedBook.maxTracks then (disc.numbered? (first + n)).map Track.info else none) ∧
      (∃ range, disc.trackRange? = some range ∧ range.first = 1 ∧ ∀ n,
        (range.first ≤ n + 1 ∧ n + 1 ≤ range.last) ↔
          n < RedBook.maxTracks ∧ (disc.numbered? (first + n)).isSome = true) ∧
      ((∀ i (_ : i < disc.tracks.length), disc.tracks[i].number = i + 1) ↔ first = 1) ∧
      ((∀ n < disc.tracks.length - 1, disc.numbered? (n + 1) = disc.tracks[n]?) ↔ first = 1) ∧
      ((∀ range ∈ disc.trackRange?, ∀ n, (range.first ≤ n ∧ n ≤ range.last) ↔
        n ≤ RedBook.maxTracks ∧ (disc.numbered? n).isSome = true) ↔ first = 1) := by
  obtain ⟨cs, first, hcs, hlines, hpos, hroom, hnumbers⟩ := map_number_of_load h
  have hclosed := closed_of_load h
  have henough := hclosed.enough
  obtain ⟨out, -, hrange⟩ := Disc.trackRange?_of_closed hclosed
  have hmem := fun n => Disc.mem_trackRange?_iff hclosed hnumbers hrange n
  -- no track has a number below the first
  have hbelow : ∀ n < first, disc.numbered? n = none := fun n hn =>
    find?_number_of_lt (map_number_dropLast hnumbers) hn
  refine ⟨cs, first, hcs, hlines, hpos, hroom, hnumbers, Disc.trackInfo?_zero disc,
    Disc.trackInfo?_succ hnumbers, ⟨_, hrange, rfl, hmem⟩, ?_, ?_, ?_⟩
  · constructor
    · intro hplaces
      have hfirst := hplaces 0 (by omega)
      rw [number_getElem hnumbers (by omega)] at hfirst
      exact hfirst
    · rintro rfl i hi
      rw [number_getElem hnumbers hi, Nat.add_comm]
  · constructor
    · intro hlookups
      have hfirst := hlookups 0 (by omega)
      by_contra hne
      rw [hbelow 1 (by omega), List.getElem?_eq_getElem (by omega)] at hfirst
      cases hfirst
    · rintro rfl n hn
      rw [Nat.add_comm, Disc.numbered?_add hnumbers, List.getElem?_dropLast, if_pos hn]
  · constructor
    · intro hranges
      by_contra hne
      have hone := (hranges _ hrange 1).mp ⟨Nat.le_refl _, by simp [RedBook.maxTracks]; omega⟩
      rw [hbelow 1 (by omega)] at hone
      exact absurd hone.2 (by simp)
    · rintro rfl range hsome n
      rw [hrange] at hsome
      cases hsome
      cases n with
      | zero => simp [hbelow 0 Nat.one_pos]
      | succ n => rw [hmem n, Nat.succ_le_iff, Nat.add_comm 1 n]

/-! ### A sheet that begins late -/

/-- A sheet whose only track has the number 5. -/
def lateSheet : Contents :=
  .ofArray (Text.ascii "FILE a BINARY\nTRACK 5 AUDIO\nINDEX 1 0:0:0").toArray

/-- The sheet and its file of two sectors. -/
def lateStorage : Storage where
  entries := [(⟨false, ["s"]⟩, .file lateSheet), (⟨false, ["a"]⟩, .file (.filled 4704 0))]

/-- The track has the number 5, but is asked for as track 1. -/
theorem numbers_of_load_late : ∃ disc cursors,
    load lateStorage (.search lateStorage) "s" .none = .ok (disc, cursors) ∧
      disc.tracks.map Track.number = [5, 6] ∧ (disc.numbered? 1).isSome = false ∧
      disc.trackInfo? 1 = (disc.numbered? 5).map Track.info ∧
      ¬ ∀ i (_ : i < disc.tracks.length), disc.tracks[i].number = i + 1 := by
  have hnumbers : (load lateStorage (.search lateStorage) "s" .none).toOption.map
      (fun r => r.1.tracks.map Track.number) = some [5, 6] := by
    decide +kernel
  obtain ⟨⟨disc, cursors⟩, hload, hnumbers⟩ := Option.map_eq_some_iff.mp hnumbers
  rw [toOption_eq_some_iff] at hload
  obtain ⟨cs, first, -, -, -, -, hrange, -, hinfo, -, hplaces, -⟩ := numbers_of_load hload
  have hlength : disc.tracks.length = 2 := by
    simpa using congrArg List.length hnumbers
  have hfirst : first = 5 := by
    have heq := hrange.symm.trans hnumbers
    rw [hlength] at heq
    exact (List.cons.inj heq).1
  subst hfirst
  refine ⟨disc, cursors, hload, hnumbers, ?_, hinfo 0, fun h => by simpa using hplaces.mp h⟩
  rw [Disc.numbered?, find?_number_of_lt (map_number_dropLast hrange) (by decide)]
  rfl

end Sheet

end CompactDisc
