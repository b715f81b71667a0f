import CompactDisc.Proofs.Sheet.Songs

/-!
# CompactDisc.Proofs.Sheet.Kinds

**Bare samples and samples behind a header.** Two sheets that say the same about the same sound, one
with files of bare samples and the other with files that have a header, do not describe quite the same
disc. `load_audio_iff_binary` says exactly how they differ: a sound of two sectors more than a multiple of
three takes one sector more, so that whatever follows it is late by one; and a sound of one sector more
than a multiple of three is refused where INDEX 01 is at its very end.
-/

namespace CompactDisc.Sheet

variable {song : Song} {songs : List Song}

/-- By how many sectors the track with a number is late: one for each song before it whose sectors are two
more than a multiple of three. -/
def late (songs : List Song) (i : Nat) : Nat := (songs.take i).countP fun song => song.sectors % 3 = 2

theorem late_cons_succ (song : Song) (songs : List Song) (i : Nat) :
    late (song :: songs) (i + 1) = late songs i + if song.sectors % 3 = 2 then 1 else 0 := by
  simp [late, List.countP_cons]

/-- A file with a header is too short for a gap only where the gap is all of it. -/
theorem Song.fits_audio_iff : song.Fits .audio ↔
    song.Fits .binary ∧ (song.sectors % 3 = 1 → song.gap ≠ song.sectors) := by
  have hfile : song.gap * RedBook.rawSectorSize ≤ song.total .audio ↔
      song.gap * RedBook.rawSectorSize ≤ song.total .binary ∧
        (song.sectors % 3 = 1 → song.gap ≠ song.sectors) := by
    rw [Song.total, Song.total, Pcm.Stream.bytesOfTime_sectorsTime]
    unfold RedBook.rawSectorSize
    split
    · omega
    · split
      · omega
      · omega
  rw [Song.Fits, hfile, Song.Fits, and_assoc]

/-- What a file with a header is counted to have too much takes another sector. -/
theorem Song.length_audio (h : song.Fits .audio) :
    song.length .audio = song.length .binary + if song.sectors % 3 = 2 then 1 else 0 := by
  have hgap := h.2
  unfold Song.length
  rw [Song.total, Pcm.Stream.bytesOfTime_sectorsTime] at hgap ⊢
  rw [Song.total]
  unfold RedBook.rawSectorSize at hgap ⊢
  split at hgap
  · rw [if_pos ‹_›, if_neg (by omega)]
    rfl
  · split at hgap
    · rw [if_neg ‹_›, if_pos ‹_›, if_neg (by omega)]
      omega
    · rw [if_neg ‹_›, if_neg ‹_›, if_pos (by omega)]
      omega

theorem length_spans (kind : Source.Kind) (base : Nat) (songs : List Song) :
    (spans kind base songs).length = songs.length + 1 := by
  induction songs generalizing base with
  | nil => rfl
  | cons song songs ih => rw [spans, List.length_cons, ih, List.length_cons]

/-- Each track of the one disc is behind that of the other by what the songs before it take too much. -/
theorem spans_audio (hsongs : ∀ song ∈ songs, song.Fits .audio) {base delay i : Nat}
    {b a : Nat × Nat} (hb : (spans .binary base songs)[i]? = some b)
    (ha : (spans .audio (base + delay) songs)[i]? = some a) :
    a.1 = b.1 + delay + late songs i ∧ a.2 + late songs i = b.2 + late songs (i + 1) := by
  induction songs generalizing base delay i with
  | nil =>
      cases i with
      | zero =>
          cases hb
          cases ha
          exact ⟨rfl, rfl⟩
      | succ i => cases hb
  | cons song songs ih =>
      rw [List.forall_mem_cons] at hsongs
      have hlength := song.length_audio hsongs.1
      cases i with
      | zero =>
          cases hb
          cases ha
          rw [late_cons_succ, hlength]
          dsimp only [late, List.take_zero, List.countP_nil]
          omega
      | succ i =>
          have hnext : song.start + (base + delay) + song.pregap + song.length .audio =
              song.start + base + song.pregap + song.length .binary +
                (delay + if song.sectors % 3 = 2 then 1 else 0) := by omega
          rw [spans, List.getElem?_cons_succ] at hb
          rw [spans, List.getElem?_cons_succ, hnext] at ha
          obtain ⟨hstart, hend⟩ := ih hsongs.2 hb ha
          rw [late_cons_succ, late_cons_succ]
          omega

/-! ### One song of silence -/

instance {song : Song} {kind : Source.Kind} : Decidable (song.Fits kind) :=
  inferInstanceAs (Decidable (_ ∧ _))

/-- Silence of whole sectors. -/
def silence (sectors : Nat) : List Int16 :=
  List.replicate (RedBook.channels * (Pcm.Stream.sectorFrames * sectors)) 0

/-- The silence as the only song of a sheet. -/
def solo (sectors : Nat) (body : List Command) (within : ∀ c ∈ body, c.endsTrack = false) : Song where
  sectors
  samples := silence sectors
  whole := List.length_replicate
  name
    | .binary => "x"
    | .audio => "y"
  number := 1
  mode := .audio
  raw := rfl
  between := []
  body
  within

/-- The file of the silence. -/
def soloFile (sectors : Nat) : Source.Kind → Contents
  | .binary => .ofArray (Sample.write (silence sectors)).toArray
  | .audio => .ofArray ((Pcm.Header.pcm16 RedBook.channels RedBook.sampleRate
      (2 * (silence sectors).length)).bytes ++ Sample.write (silence sectors)).toArray

/-- The sheets of the silence with some lines about its track, and its files. -/
def soloStorage (sectors : Nat) (lines : String) : Storage where
  entries := [
    (⟨false, ["b"]⟩, .file (.ofArray
      (Text.ascii ("FILE x BINARY\nTRACK 1 AUDIO\n" ++ lines)).toArray)),
    (⟨false, ["w"]⟩, .file (.ofArray
      (Text.ascii ("FILE y WAVE\nTRACK 1 AUDIO\n" ++ lines)).toArray)),
    (⟨false, ["x"]⟩, .file (soloFile sectors .binary)),
    (⟨false, ["y"]⟩, .file (soloFile sectors .audio))]

/-- Where the sheet with files of one kind is. -/
def soloPath : Source.Kind → String
  | .binary => "b"
  | .audio => "w"

section

variable {sectors : Nat} {lines : String} {body : List Command}
  {within : ∀ c ∈ body, c.endsTrack = false}

/-- A name that is a file is found as it is written. -/
theorem search_of_file {storage : Storage} {name dir : String} {contents : Contents}
    (h : storage.get name = .ok (.file contents)) :
    (Resolver.search storage).resolve name dir = some name := by
  have hfile : storage.isFile name = true := (storage.isFile_iff name).mpr ⟨contents, h⟩
  simp [Resolver.search, Resolver.candidates, hfile]

theorem stored_solo (hsectors : sectors < 2 ^ 20) (kind : Source.Kind) :
    ∀ song ∈ [solo sectors body within], song.Stored ⟨soloStorage sectors lines,
      .search (soloStorage sectors lines), Path.parent (soloPath kind)⟩ kind := by
  intro song hsong
  obtain rfl := List.mem_singleton.mp hsong
  cases kind with
  | binary =>
      have hget : (soloStorage sectors lines).get "x" = .ok (.file (soloFile sectors .binary)) := rfl
      refine ⟨"x", soloFile sectors .binary, search_of_file hget, hget, ?_⟩
      rw [soloFile, Contents.toList_ofArray]
      rfl
  | audio =>
      have hsize : Pcm.Header.dataSize? (silence sectors).length =
          some (2 * (silence sectors).length) := by
        rw [Pcm.Header.dataSize?_eq_some_iff, silence, List.length_replicate]
        unfold RedBook.channels Pcm.Stream.sectorFrames
        omega
      have hget : (soloStorage sectors lines).get "y" = .ok (.file (soloFile sectors .audio)) := rfl
      refine ⟨"y", soloFile sectors .audio, search_of_file hget, hget, ?_⟩
      rw [soloFile, Contents.toList_ofArray]
      change (Pcm.Header.dataSize? (silence sectors).length).map _ = _
      rw [hsize]
      rfl

/-- The sheet of the silence is accepted exactly if the silence fits, and its disc is where its length puts
it. -/
theorem load_solo (hsectors : sectors < 2 ^ 20)
    (hsheet : ∀ kind, sheetCommands? (soloStorage sectors lines) (soloPath kind) =
      some ([] ++ [solo sectors body within].flatMap (Song.commands kind)))
    (kind : Source.Kind) (cursors : Cursors) :
    ((∃ r, load (soloStorage sectors lines) (.search (soloStorage sectors lines)) (soloPath kind) cursors =
        .ok r) ↔ (solo sectors body within).Fits kind) ∧
      ∀ disc cursors', load (soloStorage sectors lines) (.search (soloStorage sectors lines))
          (soloPath kind) cursors = .ok (disc, cursors') →
        disc.tracks.map (fun t => (t.start, t.length)) = spans kind 0 [solo sectors body within] := by
  have hsmall : ∀ song ∈ [solo sectors body within], song.sectors < 2 ^ 21 := by
    intro song hsong
    obtain rfl := List.mem_singleton.mp hsong
    exact Nat.lt_trans hsectors (by decide)
  obtain ⟨hiff, hspans⟩ := load_songs (hsheet kind) nofun (stored_solo hsectors kind) hsmall cursors
  have hnumber : Layout.Numbered ([solo sectors body within].map Song.number) :=
    Layout.numbered_singleton_iff.mpr (show 1 ≤ 1 ∧ 1 ≠ 255 by decide)
  refine ⟨hiff.trans ?_, hspans⟩
  rw [List.forall_mem_singleton, and_iff_right (List.cons_ne_nil _ _), and_iff_left hnumber]

end

theorem sheetCommands?_twoSectors (kind : Source.Kind) :
    sheetCommands? (soloStorage 2 "INDEX 1 0:0:0") (soloPath kind) =
      some ([] ++ [solo 2 [.index 1 0] (by decide)].flatMap (Song.commands kind)) := by
  cases kind with
  | binary => exact sheetCommands?_eq_some_iff.mpr ⟨_, rfl, by decide +kernel⟩
  | audio => exact sheetCommands?_eq_some_iff.mpr ⟨_, rfl, by decide +kernel⟩

theorem sheetCommands?_allGap (kind : Source.Kind) :
    sheetCommands? (soloStorage 1 "INDEX 0 0:0:0\nINDEX 1 0:0:1") (soloPath kind) =
      some ([] ++ [solo 1 [.index 0 0, .index 1 1] (by decide)].flatMap (Song.commands kind)) := by
  cases kind with
  | binary => exact sheetCommands?_eq_some_iff.mpr ⟨_, rfl, by decide +kernel⟩
  | audio => exact sheetCommands?_eq_some_iff.mpr ⟨_, rfl, by decide +kernel⟩

/-- Two sectors of silence are three sectors behind a header, and a sector of silence that is all gap is
refused there. -/
theorem audio_ne_binary :
    (∃ binary audio cursors₁ cursors₂,
      load (soloStorage 2 "INDEX 1 0:0:0") (.search (soloStorage 2 "INDEX 1 0:0:0"))
        (soloPath .binary) .none = .ok (binary, cursors₁) ∧
      load (soloStorage 2 "INDEX 1 0:0:0") (.search (soloStorage 2 "INDEX 1 0:0:0"))
        (soloPath .audio) .none = .ok (audio, cursors₂) ∧
      binary.tracks.map (fun t => (t.start, t.length)) = [(0, 2), (2, 0)] ∧
      audio.tracks.map (fun t => (t.start, t.length)) = [(0, 3), (3, 0)]) ∧
    (∃ r, load (soloStorage 1 "INDEX 0 0:0:0\nINDEX 1 0:0:1")
      (.search (soloStorage 1 "INDEX 0 0:0:0\nINDEX 1 0:0:1")) (soloPath .binary) .none = .ok r) ∧
    ¬ ∃ r, load (soloStorage 1 "INDEX 0 0:0:0\nINDEX 1 0:0:1")
      (.search (soloStorage 1 "INDEX 0 0:0:0\nINDEX 1 0:0:1")) (soloPath .audio) .none = .ok r := by
  have htwo := fun kind => load_solo (by decide) sheetCommands?_twoSectors kind .none
  have hgap := fun kind => load_solo (by decide) sheetCommands?_allGap kind .none
  refine ⟨?_, (hgap .binary).1.mpr (by decide +kernel), fun h => ?_⟩
  · obtain ⟨⟨binary, cursors₁⟩, hb⟩ := (htwo .binary).1.mpr (by decide +kernel)
    obtain ⟨⟨audio, cursors₂⟩, ha⟩ := (htwo .audio).1.mpr (by decide +kernel)
    exact ⟨binary, audio, cursors₁, cursors₂, hb, ha, (htwo .binary).2 _ _ hb, (htwo .audio).2 _ _ ha⟩
  · exact absurd ((hgap .audio).1.mp h) (by decide +kernel)

/-! ### The two discs -/

section

variable {storage : Storage} {resolver : Resolver} {path : Source.Kind → String}
  {lead : List Command}

/-- **The two discs of the same sound.** The sheet with headers is accepted exactly if the one without is,
and no song of one sector more than a multiple of three is all gap. Each track of its disc, and its
lead-out, is late by one sector for each song before it of two sectors more than a multiple of three, and
the tracks of these songs are one sector longer. -/
theorem load_audio_iff_binary (hsheet : ∀ kind, sheetCommands? storage (path kind) =
      some (lead ++ songs.flatMap (Song.commands kind)))
    (hlead : ∀ c ∈ lead, c.endsTrack = false)
    (hstored : ∀ kind, ∀ song ∈ songs,
      song.Stored ⟨storage, resolver, Path.parent (path kind)⟩ kind) (cursors : Cursors) :
    ((∃ r, load storage resolver (path .audio) cursors = .ok r) ↔
      (∃ r, load storage resolver (path .binary) cursors = .ok r) ∧
        ∀ song ∈ songs, song.sectors % 3 = 1 → song.gap ≠ song.sectors) ∧
    ∀ binary audio cursors₁ cursors₂,
      load storage resolver (path .binary) cursors = .ok (binary, cursors₁) →
      load storage resolver (path .audio) cursors = .ok (audio, cursors₂) →
      binary.tracks.length = songs.length + 1 ∧ audio.tracks.length = songs.length + 1 ∧
        ∀ i b a, binary.tracks[i]? = some b → audio.tracks[i]? = some a →
          a.start = b.start + late songs i ∧
            a.length + late songs i = b.length + late songs (i + 1) := by
  have hsmall : ∀ song ∈ songs, song.sectors < 2 ^ 21 := by
    intro song hsong
    obtain ⟨_, contents, -, -, hbytes⟩ := hstored .audio song hsong
    exact (Song.find_of_bytes? hbytes).2
  have hload := fun kind => load_songs (hsheet kind) hlead (hstored kind) hsmall cursors
  constructor
  · rw [(hload .audio).1, (hload .binary).1]
    simp only [Song.fits_audio_iff, forall_and]
    constructor
    · rintro ⟨hne, ⟨hfits, hgaps⟩, hnumbers⟩
      exact ⟨⟨hne, hfits, hnumbers⟩, hgaps⟩
    · rintro ⟨⟨hne, hfits, hnumbers⟩, hgaps⟩
      exact ⟨hne, ⟨hfits, hgaps⟩, hnumbers⟩
  · intro binary audio cursors₁ cursors₂ hbinary haudio
    have hb := (hload .binary).2 binary cursors₁ hbinary
    have ha := (hload .audio).2 audio cursors₂ haudio
    obtain ⟨-, hfits, -⟩ := (hload .audio).1.mp ⟨_, haudio⟩
    refine ⟨?_, ?_, fun i b a hib hia => ?_⟩
    · rw [← length_spans .binary 0 songs, ← hb, List.length_map]
    · rw [← length_spans .audio 0 songs, ← ha, List.length_map]
    · have hb' : (spans .binary 0 songs)[i]? = some (b.start, b.length) := by
        rw [← hb, List.getElem?_map, hib]
        rfl
      have ha' : (spans .audio (0 + 0) songs)[i]? = some (a.start, a.length) := by
        rw [← ha, List.getElem?_map, hia]
        rfl
      exact spans_audio hfits hb' ha'

end

/-- Both sheets of two sectors of silence are accepted, and the lead-out of the one is late by a sector. -/
theorem load_audio_iff_binary_twoSectors :
    ∃ binary audio cursors₁ cursors₂,
      load (soloStorage 2 "INDEX 1 0:0:0") (.search (soloStorage 2 "INDEX 1 0:0:0"))
        (soloPath .binary) .none = .ok (binary, cursors₁) ∧
      load (soloStorage 2 "INDEX 1 0:0:0") (.search (soloStorage 2 "INDEX 1 0:0:0"))
        (soloPath .audio) .none = .ok (audio, cursors₂) ∧
      binary.tracks.length = 2 ∧ audio.tracks.length = 2 ∧
      ∀ b a, binary.tracks[1]? = some b → audio.tracks[1]? = some a → a.start = b.start + 1 := by
  obtain ⟨haccepted, htracks⟩ := load_audio_iff_binary sheetCommands?_twoSectors nofun
    (stored_solo (by decide)) .none
  have hbinary := (load_solo (by decide) sheetCommands?_twoSectors .binary .none).1.mpr (by decide +kernel)
  obtain ⟨⟨audio, cursors₂⟩, ha⟩ := haccepted.mpr ⟨hbinary, by decide⟩
  obtain ⟨⟨binary, cursors₁⟩, hb⟩ := hbinary
  obtain ⟨hlengthB, hlengthA, hlate⟩ := htracks binary audio cursors₁ cursors₂ hb ha
  exact ⟨binary, audio, cursors₁, cursors₂, hb, ha, hlengthB, hlengthA,
    fun b a hib hia => (hlate 1 b a hib hia).1⟩

end CompactDisc.Sheet
