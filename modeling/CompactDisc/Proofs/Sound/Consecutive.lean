import CompactDisc.Proofs.Pcm.Written
import CompactDisc.Proofs.Sound.Recorded

/-!
# CompactDisc.Proofs.Sound.Consecutive

**Playing across files of sound.** The sheet gives one file of sound to each track, and a request
crosses their boundaries. Each file that is begun at its start is heard to its last frame, and where
playing goes on behind it is told by the sectors that are counted for it (`Sheet.collects_recorded`).
-/

namespace CompactDisc

/-- **How playing goes on behind a track** with another one behind it, in a request that reaches that one
and ends at `stop`. The passage is what is heard of the track, and the passages are those that follow. -/
structure Disc.Continues (disc : Disc) (t u : Track) (stop : Nat) (p : Passage)
    (rest : List Passage) : Prop where
  /-- All frames of the file are heard. -/
  whole : ∀ s ∈ t.source, p.frames = s.frames
  /-- They end before the request does. -/
  dry : p.frames.length < p.total
  /-- It goes on behind the sectors that are counted as played. -/
  rest_eq : rest = disc.passages (t.start + p.done) (stop - (t.start + p.done))
  /-- The next track is heard from its first frame on, if as many are counted as the track has. -/
  next_iff : (∃ s ∈ u.source, ∃ more, rest = u.passage s (stop - u.start) :: more) ↔
    p.done = t.length ∧ 0 < u.length
  /-- At the rate of the disc, one sector less is counted where the time of the frames is rounded up into
  a further one, and one more where it is rounded down out of their last one. -/
  counted : p.plan.source.rate = RedBook.sampleRate → p.done =
    if Pcm.Stream.RoundedUp p.frames.length then t.length - 1
    else if Pcm.Stream.RoundedDown p.frames.length then t.length + 1
    else t.length
  /-- Nothing is heard behind a track that is rounded up. -/
  stops : p.plan.source.rate = RedBook.sampleRate → Pcm.Stream.RoundedUp p.frames.length → rest = []

/-- **What is heard of a request** up to a track, and how it goes on behind it, where `x` frames of its last
passage are heard. -/
structure Disc.PlaysAcross (disc : Disc) (start length x : Nat) : Prop where
  /-- A track that is played from its start on, in a request that reaches the next one, is heard whole
  behind all that is heard before it. -/
  onward : ∀ before t u after, disc.tracks = before ++ t :: u :: after → after ≠ [] →
    u.start < start + length → ∀ front p rest, disc.passages start length = front ++ p :: rest →
    p.plan.track = t → p.plan.start = t.start →
      disc.Continues t u (start + length) p rest ∧
      Passage.cut (disc.passages start length) x = front.flatMap (fun q => q.decoded q.frames) ++
        (p.decoded p.frames ++ Passage.cut rest x)
  /-- From the first track of the request on, tracks that are counted as long as they are are heard one
  behind the other, and the track behind them from its first frame on. -/
  run : ∀ before run v after, disc.tracks = before ++ run ++ v :: after → after ≠ [] →
    (∀ first ∈ (run ++ [v]).head?, start = first.start) → v.start < start + length →
    0 < v.length → (∀ u ∈ run, 0 < u.length ∧ u.Agrees (start + length)) →
      ∃ s ∈ v.source, ∃ rest,
        disc.passages start length = run.filterMap (Track.passage? (start + length)) ++
          v.passage s (start + length - v.start) :: rest ∧
        Passage.cut (disc.passages start length) x = run.flatMap Track.decoded ++
          Passage.cut (v.passage s (start + length - v.start) :: rest) x

theorem Disc.Recordings.continues {disc : Disc} (h : disc.Recordings) {before after : List Track}
    {t u : Track} (heq : disc.tracks = before ++ t :: u :: after) (hafter : after ≠ [])
    {start length : Nat} (hreach : u.start < start + length) {front rest : List Passage} {p : Passage}
    (hp : disc.passages start length = front ++ p :: rest) (htrack : p.plan.track = t)
    (hstart : p.plan.start = t.start) : disc.Continues t u (start + length) p rest := by
  obtain ⟨v, more, rfl⟩ := List.exists_cons_of_ne_nil hafter
  have hmem : t ∈ disc.tracks.dropLast := Disc.Pieces.mem_dropLast heq
  have hmem' : u ∈ disc.tracks.dropLast := by
    rw [List.append_cons] at heq
    exact Disc.Pieces.mem_dropLast heq
  have hnext := h.endSector_eq heq
  unfold Track.endSector at hnext
  obtain ⟨s, stream, ht⟩ := h.records t hmem
  obtain ⟨s', stream', hu⟩ := h.records u hmem'
  obtain ⟨hrest, start', length', hstop, hfirst⟩ := Disc.passages_split hp
  obtain ⟨-, -, t', _, howner, -, -, -, hplan⟩ :=
    Plan.find_ok_iff.mp (Disc.passage?_eq_some_iff.mp hfirst).1
  obtain rfl : t' = t := by
    rw [hplan] at htrack
    exact htrack
  -- the track has sectors, since it has been found
  have hfilled : 0 < t'.length := by
    have hend := h.closed.lt_endSector howner
    have hfrom := h.start_le howner
    unfold Track.endSector at hend
    rw [hplan] at hstart
    change max start' t'.start = t'.start at hstart
    omega
  obtain rfl := Disc.Recordings.passage_eq hfirst ht htrack hstart
  rw [hstop] at hrest ⊢
  have hlength : t'.length < start + length - t'.start := by omega
  have hrate : (t'.passage s (start + length - t'.start)).plan.source.rate = stream.rate :=
    ht.recording.rate_eq
  refine ⟨?_, ht.lt_total hlength, ?_, ?_, ?_, ?_⟩
  · intro w hw
    cases ht.source.symm.trans hw
    rfl
  · rw [hrest, Disc.Recordings.behind_passage ht hlength, Nat.sub_sub]
  · have hleft : start + length - t'.start - t'.length = start + length - u.start := by omega
    rw [hrest, ← h.behind_eq_cons_iff heq (List.cons_ne_nil _ _) ht hu hfilled hlength, hu.source,
      hleft]
    simp
  · intro hdisc
    rw [hrate] at hdisc
    exact ht.done_eq hdisc (by omega)
  · intro hdisc hup
    rw [hrate] at hdisc
    rw [hrest]
    exact h.behind_roundedUp hmem ht hlength hdisc hup

/-- The last passage is heard as far as the request goes, so a track in front of another one is not it. -/
theorem Disc.Recordings.playsAcross {disc : Disc} (h : disc.Recordings) {start length x : Nat}
    (hlast : ∀ last ∈ (disc.passages start length).getLast?, last.total ≤ x) :
    disc.PlaysAcross start length x where
  onward before t u after heq hafter hreach front p rest hp htrack hstart := by
    have hcontinues := h.continues heq hafter hreach hp htrack hstart
    refine ⟨hcontinues, ?_⟩
    rw [hp, Passage.cut_append, Passage.cut_cons p rest fun hnone => ?_]
    have hall := hlast p (by rw [hp, hnone]; simp)
    have hdry := hcontinues.dry
    omega
  run before run v after heq hafter hfirst hreach hfilled hrun := by
    obtain ⟨w, more, rfl⟩ := List.exists_cons_of_ne_nil hafter
    have hmem : v ∈ disc.tracks.dropLast := Disc.Pieces.mem_dropLast heq
    obtain ⟨s, stream, hv⟩ := h.records v hmem
    have hpassages : disc.passages start length =
        run.filterMap (Track.passage? (start + length)) ++
          v.passage s (start + length - v.start) ::
            disc.behind (v.passage s (start + length - v.start)) := by
      have hpassages := h.passages_run heq hreach hrun
      rw [Disc.passages_of_some (h.passage?_start hmem hv hfilled (by omega))] at hpassages
      obtain ⟨first, hhead⟩ : ∃ first, (run ++ [v]).head? = some first :=
        Option.isSome_iff_exists.mp (by simp)
      have hsame := hpassages first hhead
      rwa [← hfirst first hhead, Nat.add_sub_cancel_left] at hsame
    refine ⟨s, hv.source, _, hpassages, ?_⟩
    rw [hpassages, Passage.cut_append, Track.decoded_run]

namespace Sheet

variable {storage : Storage} {resolver : Resolver} {path : String} {cursors opened : Cursors}
  {disc : Disc}

theorem recordings_of_load (h : load storage resolver path cursors = .ok (disc, opened))
    (hdisc : disc.Recorded) : disc.Recordings := by
  have hclosed := closed_of_load h
  refine ⟨hclosed, fun t ht => ?_, hdisc.gapless, hdisc.short⟩
  obtain ⟨hsound, hskip, s, stream, hs, hrecording⟩ := hdisc.sound t ht
  obtain ⟨init, last, out, hsplit, hchain, -, hnone, -, -, -, hplayable⟩ := load_cases h
  have hlast : disc.tracks.getLast? = some out := by
    rw [hsplit, List.append_cons, List.getLast?_concat]
  have hend := Nat.le_trans (hclosed.endSector_le hlast ht) (hdisc.short out hlast)
  have hdrop : disc.tracks.dropLast = init ++ [last] := by
    rw [hsplit, List.append_cons, List.dropLast_concat]
  obtain ⟨source, mode, cs, -, hmode, -⟩ := hplayable t (hdrop ▸ ht)
  have hsize := hmode.sectorSize_of_sound hsound
  obtain ⟨before, after, heq⟩ := List.append_of_mem ht
  -- the next track, or the lead-out, is of another source
  obtain ⟨u, rest, htracks, hother⟩ : ∃ u rest, disc.tracks = before ++ t :: u :: rest ∧
      t.sharesSource u = false := by
    have htracks : disc.tracks = before ++ t :: (after ++ [out]) := by
      rw [hsplit, List.append_cons, ← hdrop, heq, List.append_assoc]
      rfl
    cases after with
    | nil =>
        refine ⟨out, [], htracks, ?_⟩
        rw [Track.sharesSource, hs, hnone]
        rfl
    | cons u rest =>
        have hown := hdisc.own
        rw [heq, List.pairwise_append] at hown
        exact ⟨u, rest ++ [out], htracks, List.rel_of_pairwise_cons hown.2.1 List.mem_cons_self⟩
  rw [htracks, List.isChain_append, List.isChain_cons_cons] at hchain
  obtain ⟨total, htotal, -, hlength⟩ := hchain.2.1.1.whole hother
  rw [hs, Option.bind_some, Source.length, hrecording.format] at htotal
  have hsectors : t.length = divUp total RedBook.rawSectorSize := by
    rw [hlength, hskip, Track.sectorsOf, hsize]
    rfl
  refine ⟨s, stream, hs, hrecording, hsound, hskip, hsize, total, htotal, ?_, hsectors⟩
  have hfit := (divUp_le_iff (k := t.length) (by decide)).mp (Nat.le_of_eq hsectors.symm)
  unfold Track.endSector at hend
  unfold RedBook.rawSectorSize at hfit
  omega

/-- **Playing across files of sound.** On a disc of a sheet whose tracks are all of a file of sound each,
let a request be accepted, and let the channel be pumped until it is off, which it will be. What it has
collected are the passages of the request from the front.

A track that is played from its start on, in a request that reaches the next one, is heard to the last
frame of its file; and how it goes on then is decided by the sectors that are counted for it
(`Disc.Continues`). So, from the first track of a request on, the files are heard one behind the other
for as long as they are counted as they are long (`Disc.PlaysAcross`). -/
theorem collects_recorded (h : load storage resolver path cursors = .ok (disc, opened))
    (hdisc : disc.Recorded) {d : Deck} (houtput : d.channel?.isSome = true)
    (hopened : opened.positions.length ≤ d.cursors.positions.length) {id start length : Nat}
    (hok : (d.play ⟨id, disc⟩ start length).1 = .ok ()) {ns : List Nat} (hns : ∀ n ∈ ns, 0 < n) :
    let begun := (d.play ⟨id, disc⟩ start length).2
    let passages := disc.passages start length
    ((passages.map (·.frames.length)).sum + length ≤ ns.length → (begun.pumps ns).isOn = false) ∧
    ((begun.pumps ns).isOn = false → ∃ (chunks : List Chunk) (x : Nat),
      (begun.pumps ns).samples = d.samples ++ chunks.flatMap Chunk.samples ∧
      (∀ last ∈ passages.getLast?, last.Reach ns x) ∧
      chunks.flatMap Chunk.decoded = Passage.cut passages x ∧
      disc.PlaysAcross start length x) := by
  intro begun passages
  have hrecordings := recordings_of_load h hdisc
  have hsources : (⟨id, disc⟩ : Medium).disc.OpenIn d.cursors := fun t ht s hs =>
    Nat.lt_of_lt_of_le (id_lt_of_load h t ht s hs) hopened
  obtain ⟨hcollects, hends⟩ := Deck.heard_of_play houtput hsources
    (hrecordings.numbered start length) hok hns
  refine ⟨hends, fun hoff => ?_⟩
  obtain ⟨chunks, x, hsamples, hlast, hframes⟩ := hcollects hoff
  exact ⟨chunks, x, hsamples, fun last hmem => (hlast last hmem).1, hframes,
    hrecordings.playsAcross fun last hmem => (Nat.max_le.mp (hlast last hmem).1.enough).1⟩

/-! ### A sheet of two files of sound -/

/-- A file of silence at the rate of the disc. -/
def silentFile (frames : Nat) : Contents :=
  let header := (Pcm.Header.pcm16 2 RedBook.sampleRate (4 * frames)).bytes.toArray
  ⟨header.size + 4 * frames, fun i => header.getD i 0⟩

/-- The samples in such a file. -/
def silentStream (frames : Nat) : Pcm.Stream :=
  .written 2 RedBook.sampleRate (2 * frames) RedBook.sampleRate_pos

/-- A sheet of two tracks, with the frames of two sectors and of one. -/
def silentFilesStorage : Storage where
  entries := [(⟨false, ["s"]⟩, .file (.ofArray (Text.ascii
      "FILE a WAVE\nTRACK 1 AUDIO\nFILE b WAVE\nTRACK 2 AUDIO").toArray)),
    (⟨false, ["a"]⟩, .file (silentFile 1176)), (⟨false, ["b"]⟩, .file (silentFile 588))]

/-- Such a file holds all it declares. -/
theorem recording_silentFile {s : Source} {frames : Nat} (hfilled : 0 < frames)
    (hformat : s.format = .stream (silentStream frames))
    (hsize : s.contents.map (·.size) = some (44 + 4 * frames)) :
    s.Recording (silentStream frames) := by
  obtain ⟨c, hc, hsize⟩ := Option.map_eq_some_iff.mp hsize
  refine ⟨hformat, ⟨Nat.two_pos, rfl⟩, Nat.succ_pos _, ⟨c, hc, ?_⟩, ?_⟩
  · show 44 + 2 * (2 * frames) ≤ c.size
    omega
  · show 0 < 2 * (2 * frames) / 4
    omega

/-- The sheet has a track of three sectors, since the time of its frames is rounded up, and one of
one. -/
theorem load_silentFiles : ∃ disc opened t u out s,
    load silentFilesStorage (.search silentFilesStorage) "s" .none = .ok (disc, opened) ∧
    disc.tracks = [t, u, out] ∧ disc.Recorded ∧ (t.start = 0 ∧ t.length = 3) ∧
    (u.start = 3 ∧ u.length = 1) ∧ t.source = some s ∧ s.rate = RedBook.sampleRate ∧
    s.frames.length = 1176 := by
  have hplaces : (load silentFilesStorage (.search silentFilesStorage) "s" .none).toOption.map (fun r =>
      r.1.tracks.map fun t => (t.start, t.length, t.skip, t.isData)) =
      some [(0, 3, 0, false), (3, 1, 0, false), (4, 0, 0, false)] := by
    decide +kernel
  have hsources : (load silentFilesStorage (.search silentFilesStorage) "s" .none).toOption.map (fun r =>
      r.1.tracks.map fun t => t.source.map fun s => (s.id, s.format, s.contents.map (·.size))) =
      some [some (0, .stream (silentStream 1176), some 4748),
        some (1, .stream (silentStream 588), some 2396), none] := by
    decide +kernel
  obtain ⟨⟨disc, opened⟩, hload, hplaces⟩ := Option.map_eq_some_iff.mp hplaces
  rw [hload, Option.map_some, Option.some.injEq] at hsources
  rw [toOption_eq_some_iff] at hload
  simp only [List.map_eq_cons_iff, List.map_eq_nil_iff, Prod.mk.injEq] at hplaces
  obtain ⟨t, _, htracks, ⟨ht, htl, hts, htd⟩, u, _, rfl, ⟨hu, hul, hus, hud⟩, out, _, rfl,
    ⟨hout, -⟩, rfl⟩ := hplaces
  simp only [htracks, List.map_cons, List.map_nil, List.cons.injEq, and_true,
    Option.map_eq_some_iff, Prod.mk.injEq] at hsources
  obtain ⟨⟨s, hs, hid, hformat, hcontents⟩, ⟨s', hs', hid', hformat', hcontents'⟩, -⟩ := hsources
  have hrecording := recording_silentFile (by decide) hformat (by simpa using hcontents)
  have hrecording' := recording_silentFile (by decide) hformat' (by simpa using hcontents')
  refine ⟨disc, opened, t, u, out, s, hload, htracks, ⟨?_, ?_, ?_, ?_⟩, ⟨ht, htl⟩, ⟨hu, hul⟩, hs,
    hrecording.rate_eq, hrecording.length_frames⟩
  · intro w hw
    rw [htracks] at hw
    have hw : w = t ∨ w = u := by simpa using hw
    rcases hw with rfl | rfl
    · exact ⟨htd, hts, s, _, hs, hrecording⟩
    · exact ⟨hud, hus, s', _, hs', hrecording'⟩
  · rw [htracks]
    refine List.pairwise_pair.mpr ?_
    rw [Track.sharesSource, hs, hs', Option.map_some, Option.map_some, hid, hid']
    rfl
  · rw [htracks]
    refine List.isChain_cons_cons.mpr ⟨?_, List.isChain_cons_cons.mpr ⟨?_, List.isChain_singleton _⟩⟩
    · unfold Track.endSector
      omega
    · unfold Track.endSector
      omega
  · intro last hlast
    rw [htracks] at hlast
    obtain rfl := Option.some.inj hlast
    show out.start ≤ 400000
    omega

/-- The request is for both tracks. The first one is heard to its last frame, and there playing stops:
three sectors are the track, two are counted, and the third of them begins behind the sound. -/
theorem collects_recorded_silentFiles : ∃ disc opened t u s,
    load silentFilesStorage (.search silentFilesStorage) "s" .none = .ok (disc, opened) ∧
    disc.Recorded ∧ (t ∈ disc.tracks ∧ t.start = 0 ∧ t.length = 3) ∧
    (u ∈ disc.tracks ∧ u.start = 3 ∧ u.length = 1) ∧
    t.source = some s ∧ s.frames.length = 1176 ∧
    let begun := ({ Deck.attached with cursors := opened } : Deck).play ⟨0, disc⟩ 0 4
    begun.1 = .ok () ∧ (begun.2.pumps [588, 588, 588]).isOn = false ∧ ∃ chunks : List Chunk,
      (begun.2.pumps [588, 588, 588]).samples = chunks.flatMap Chunk.samples ∧
      chunks.flatMap Chunk.decoded = t.decoded := by
  obtain ⟨disc, opened, t, u, out, s, hload, htracks, hrecorded, ⟨ht, htl⟩, ⟨hu, hul⟩, hs, hrate,
    hframes⟩ := load_silentFiles
  have hplayed : (load silentFilesStorage (.search silentFilesStorage) "s" .none).toOption.map (fun r =>
      let begun := ({ Deck.attached with cursors := r.2 } : Deck).play ⟨0, r.1⟩ 0 4
      (begun.1.toOption, (begun.2.pumps [588, 588, 588]).isOn)) = some (some (), false) := by
    decide +kernel
  rw [toOption_eq_some_iff.mpr hload, Option.map_some, Option.some.injEq, Prod.mk.injEq,
    toOption_eq_some_iff] at hplayed
  obtain ⟨hok, hoff⟩ := hplayed
  have hattached : ({ Deck.attached with cursors := opened } : Deck).channel?.isSome = true := rfl
  obtain ⟨-, hcollects⟩ := collects_recorded hload hrecorded hattached (Nat.le_refl _) hok
    (by decide : ∀ n ∈ [588, 588, 588], 0 < n)
  obtain ⟨chunks, x, hsamples, -, hdecoded, hacross⟩ := hcollects hoff
  -- the first passage is that of the first track, and no other follows it
  obtain ⟨s', hs', rest, hpassages, -⟩ := hacross.run [] [] t [u, out] htracks (List.cons_ne_nil _ _)
    (fun first hfirst => by cases hfirst; exact ht.symm) (by omega) (by omega)
    (List.forall_mem_nil _)
  obtain rfl := Option.some.inj (hs.symm.trans hs')
  obtain ⟨hcontinues, hcut⟩ := hacross.onward [] t u [out] htracks (List.cons_ne_nil _ _) (by omega) [] _
    rest hpassages rfl rfl
  obtain rfl := hcontinues.stops hrate (by
    show Pcm.Stream.RoundedUp s.frames.length
    rw [hframes]
    decide)
  refine ⟨disc, opened, t, u, s, hload, hrecorded, ⟨by simp [htracks], ht, htl⟩,
    ⟨by simp [htracks], hu, hul⟩, hs, hframes, hok, hoff, chunks, ?_, ?_⟩
  · rw [hsamples]
    rfl
  · rw [hdecoded, hcut, Track.decoded, hs]
    exact List.append_nil _

end Sheet

end CompactDisc
