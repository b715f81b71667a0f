import CompactDisc.Proofs.Layout.Stack
import CompactDisc.Proofs.Pcm.Duration
import CompactDisc.Proofs.Pcm.Written
import CompactDisc.Proofs.Sheet.Described

/-!
# CompactDisc.Proofs.Sheet.Songs

**The same sound in two kinds of file.** A sheet with one track for each file can name files of bare
samples or files with a header in front of the same samples. Bare samples are counted in bytes, the others
through their duration in milliseconds, and this is where the two discs come apart: sound of one or two
sectors more than a multiple of three is measured 59 bytes too short or 58 too long. `load_songs` says
which sheets are accepted, and where the tracks are.

Proof shape: in both sheets the entries are the same but for their sources (`entries?_songs`), so both
discs are stacks (`Layout.ofEntries_singles_iff`) and differ in the bytes that their files are counted to
have.
-/

namespace CompactDisc.Sheet

/-- Sound of whole sectors that has a track and a file for itself. -/
structure Song where
  sectors : Nat
  samples : List Int16
  whole : samples.length = RedBook.channels * (Pcm.Stream.sectorFrames * sectors)
  /-- The name of its file in a sheet with files of one kind. -/
  name : Source.Kind → String
  number : Nat
  mode : TrackMode
  raw : mode.sectorSize = RedBook.rawSectorSize
  /-- What stands between the `FILE` and the `TRACK` line. -/
  between : List Command
  /-- What describes the track. -/
  body : List Command
  within : ∀ c ∈ between ++ body, c.endsTrack = false

namespace Song

/-- The bytes of the file. -/
def bytes? (song : Song) : Source.Kind → Option (List UInt8)
  | .binary => some (Sample.write song.samples)
  | .audio => Pcm.file? RedBook.channels RedBook.sampleRate song.samples

/-- The lines of the song in a sheet with files of one kind. -/
def commands (kind : Source.Kind) (song : Song) : List Command :=
  .file (song.name kind) kind :: (song.between ++ .track song.number song.mode :: song.body)

/-- The name in the sheet leads to the file of the song. -/
def Stored (env : Surroundings) (kind : Source.Kind) (song : Song) : Prop :=
  ∃ path contents, env.resolver.resolve (song.name kind) env.dir = some path ∧
    env.storage.get path = .ok (.file contents) ∧ song.bytes? kind = some contents.toList

/-- The disc bytes that the file is counted to have. -/
def total (song : Song) : Source.Kind → Nat
  | .binary => RedBook.rawSectorSize * song.sectors
  | .audio => Pcm.Stream.bytesOfTime (Pcm.Stream.sectorsTime song.sectors)

/-- INDEX 01. -/
def start (song : Song) : Nat := (last? (Command.index? 1) song.body).getD 0

/-- The sectors from INDEX 00 to INDEX 01. -/
def gap (song : Song) : Nat := song.start - (last? (Command.index? 0) song.body).getD song.start

/-- PREGAP. -/
def pregap (song : Song) : Nat := (last? Command.pregap? song.body).getD 0

/-- INDEX 00 is not behind INDEX 01, and the gap between them is in the file. -/
def Fits (song : Song) (kind : Source.Kind) : Prop :=
  (last? (Command.index? 0) song.body).getD song.start ≤ song.start ∧
    song.gap * RedBook.rawSectorSize ≤ song.total kind

/-- The sectors that the file fills behind the gap. -/
def length (song : Song) (kind : Source.Kind) : Nat :=
  (song.total kind - song.gap * RedBook.rawSectorSize + RedBook.rawSectorSize - 1) /
    RedBook.rawSectorSize

/-- What the sheet says about the song, with the source that its file is. -/
def single (song : Song) (kind : Source.Kind) (source : Source) : Layout.Single :=
  ⟨describe song.number song.mode source song.body, song.total kind⟩

end Song

variable {env : Surroundings} {kind : Source.Kind} {song : Song} {songs : List Song}

/-! ### Opening the files -/

/-- The samples in the file of a song. -/
theorem Song.find_of_bytes? {contents : Contents} (h : song.bytes? .audio = some contents.toList) :
    Pcm.Stream.find contents = .ok (some (Pcm.Stream.written RedBook.channels RedBook.sampleRate
      song.samples.length RedBook.sampleRate_pos)) ∧ song.sectors < 2 ^ 21 := by
  obtain ⟨hfind, hsize⟩ := Pcm.Stream.find_file? h (by decide) (by decide) (by decide) (by decide)
  have hwhole := song.whole
  unfold RedBook.channels Pcm.Stream.sectorFrames at hwhole
  exact ⟨hfind, by omega⟩

/-- The file of a song is opened, and its length is counted. -/
theorem Song.Stored.opens (h : song.Stored env kind) (id : Nat) :
    ∃ path s, env.resolver.resolve (song.name kind) env.dir = some path ∧
      Source.openAs env.storage path kind id = .ok s ∧ s.length = some (song.total kind) := by
  obtain ⟨path, contents, hpath, hget, hbytes⟩ := h
  have hwhole := song.whole
  unfold RedBook.channels Pcm.Stream.sectorFrames at hwhole
  cases kind with
  | binary =>
      refine ⟨path, _, hpath, Source.openAs_sectors hget id, ?_⟩
      have hsize : contents.size = RedBook.rawSectorSize * song.sectors := by
        rw [← Contents.length_toList, ← Option.some.inj hbytes, Sample.length_write]
        unfold RedBook.rawSectorSize
        omega
      exact congrArg some hsize
  | audio =>
      obtain ⟨hfind, hsmall⟩ := Song.find_of_bytes? hbytes
      refine ⟨path, _, hpath, Source.openAs_sound hget hfind id, ?_⟩
      have hframes : (Pcm.Stream.written RedBook.channels RedBook.sampleRate
          song.samples.length RedBook.sampleRate_pos).frames? = some (Pcm.Stream.sectorFrames * song.sectors) := by
        rw [song.whole]
        exact Pcm.Stream.frames?_written (by decide) _ _
      exact Pcm.Stream.length?_sectors rfl hframes (Nat.lt_trans hsmall (by decide))

/-! ### Reading the sheets -/

/-- Nothing is opened and no entry begins within a window. -/
theorem entries?_append {cs : List Command} (hcs : ∀ c ∈ cs, c.endsTrack = false)
    (cursors : Cursors) (source : Option Source) (rest : List Command) :
    entries? env cursors source (cs ++ rest) = entries? env cursors source rest := by
  induction cs with
  | nil => rfl
  | cons c cs ih =>
      rw [List.cons_append, entries?_within (hcs c List.mem_cons_self),
        ih fun c hc => hcs c (List.mem_cons_of_mem _ hc)]

/-- The window of a song ends where the next one begins. -/
theorem window_body (kind : Source.Kind) (song : Song) (songs : List Song) :
    window (song.body ++ songs.flatMap (Song.commands kind)) = song.body := by
  have hnext : window (songs.flatMap (Song.commands kind)) = [] := by
    cases songs with
    | nil => rfl
    | cons song songs => exact window_ending rfl
  have hbody : ∀ c ∈ song.body, (!c.endsTrack) = true := fun c hc => by
    simp [song.within c (List.mem_append_right _ hc)]
  unfold window at hnext ⊢
  rw [List.takeWhile_append_of_pos hbody, hnext, List.append_nil]

/-- **The entries of songs** are what is said about each, in order, and each has a source of its own.
By induction on the songs, the numbers of their sources growing. -/
theorem entries?_songs (hstored : ∀ song ∈ songs, song.Stored env kind) (cursors : Cursors)
    (source : Option Source) :
    ∃ ps cursors', entries? env cursors source (songs.flatMap (Song.commands kind)) =
        some (ps.map Layout.Single.entry, cursors') ∧
      List.Forall₂ (fun song p => ∃ s : Source, cursors.positions.length ≤ s.id ∧
        s.length = some (song.total kind) ∧ p = song.single kind s) songs ps ∧
      Layout.Apart (ps.map (·.entry.track)) := by
  induction songs generalizing cursors source with
  | nil => exact ⟨[], cursors, rfl, .nil, .nil⟩
  | cons song songs ih =>
      obtain ⟨path, s, hpath, hopen, hlength⟩ :=
        (hstored song List.mem_cons_self).opens cursors.positions.length
      obtain ⟨ps, cursors', hrest, hps, hapart⟩ :=
        ih (fun song h => hstored song (List.mem_cons_of_mem _ h)) ⟨cursors.positions ++ [0]⟩ (some s)
      have hid : s.id = cursors.positions.length := Source.id_openAs hopen
      refine ⟨song.single kind s :: ps, cursors', ?_, .cons ⟨s, Nat.le_of_eq hid.symm, hlength, rfl⟩ ?_,
        ?_⟩
      · rw [List.flatMap_cons, Song.commands, List.cons_append, List.append_assoc, List.cons_append]
        refine entries?_file_iff.mpr ⟨path, hpath, (s, _), Cursors.openSource_ok_iff.mpr ⟨hopen, rfl⟩, ?_⟩
        rw [entries?_append fun c hc => song.within c (List.mem_append_left _ hc)]
        refine entries?_track_iff.mpr ⟨s, rfl, ps.map Layout.Single.entry, ?_, ?_⟩
        · rw [entries?_append fun c hc => song.within c (List.mem_append_right _ hc)]
          exact hrest
        · rw [window_body]
          rfl
      · refine hps.imp fun song p ⟨s', hs', h⟩ => ⟨s', ?_, h⟩
        rw [List.length_append] at hs'
        exact Nat.le_of_succ_le hs'
      · cases ps with
        | nil => exact .singleton _
        | cons p ps =>
            refine List.isChain_cons_cons.mpr ⟨?_, hapart⟩
            cases hps with
            | cons h _ =>
                obtain ⟨s', hs', -, rfl⟩ := h
                have hother : s.id ≠ s'.id := by
                  rw [List.length_append, ← hid] at hs'
                  exact Nat.ne_of_lt hs'
                exact beq_false_of_ne fun h => hother (Option.some.inj h)

/-! ### The discs -/

/-- The start and the length of every track and of the lead-out, behind `base` sectors. -/
def spans (kind : Source.Kind) (base : Nat) : List Song → List (Nat × Nat)
  | [] => [(base, 0)]
  | song :: songs =>
    (song.start + base + song.pregap, song.length kind) ::
      spans kind (song.start + base + song.pregap + song.length kind) songs

/-- The entries are those of the songs, with sources of the lengths that are counted. -/
abbrev Sung (kind : Source.Kind) : List Song → List Layout.Single → Prop :=
  List.Forall₂ fun song p => ∃ s : Source, s.length = some (song.total kind) ∧ p = song.single kind s

section

variable {source : Source} {p : Layout.Single} {ps : List Layout.Single} {base : Nat}

theorem Song.skip_single (song : Song) (kind : Source.Kind) (source : Source) :
    (song.single kind source).skip = song.gap * RedBook.rawSectorSize := by
  rw [← song.raw]
  rfl

theorem Song.fits_single_iff : (song.single kind source).Fits ↔ song.Fits kind := by
  unfold Layout.Single.Fits
  rw [song.skip_single]
  exact Iff.rfl

theorem Song.sectors_single (song : Song) (kind : Source.Kind) (source : Source) :
    (song.single kind source).sectors = song.length kind := by
  unfold Layout.Single.sectors Song.length
  rw [song.skip_single, ← song.raw]
  rfl

/-- Where the track of a song is, behind `base` sectors. -/
theorem Song.span_single (song : Song) (kind : Source.Kind) (source : Source) (base : Nat) :
    ((song.single kind source).track base).start = song.start + base + song.pregap ∧
      ((song.single kind source).track base).length = song.length kind :=
  ⟨rfl, song.sectors_single kind source⟩

/-- What holds of the entries is what holds of the songs. -/
theorem Sung.forall_iff (hps : Sung kind songs ps) {P : Layout.Single → Prop} {Q : Song → Prop}
    (h : ∀ song s, s.length = some (song.total kind) → (P (song.single kind s) ↔ Q song)) :
    (∀ p ∈ ps, P p) ↔ ∀ song ∈ songs, Q song := by
  induction hps with
  | nil => simp
  | cons hsong _ ih =>
      obtain ⟨s, hlength, rfl⟩ := hsong
      rw [List.forall_mem_cons, List.forall_mem_cons, h _ s hlength, ih]

theorem Sung.map_number (hps : Sung kind songs ps) :
    ps.map (·.entry.track.number) = songs.map Song.number := by
  induction hps with
  | nil => rfl
  | cons hsong _ ih =>
      obtain ⟨s, -, rfl⟩ := hsong
      rw [List.map_cons, List.map_cons, ih]
      rfl

/-- The stack of the entries has the spans of the songs. -/
theorem map_stack (hps : Sung kind songs ps) (hne : ps ≠ []) :
    (Layout.stack base ps ++ [Layout.outOf (Layout.stack base ps)]).map
      (fun t => (t.start, t.length)) = spans kind base songs := by
  induction hps generalizing base with
  | nil => exact absurd rfl hne
  | @cons song p songs ps h hrest ih =>
      obtain ⟨s, -, rfl⟩ := h
      obtain ⟨hstart, hlength⟩ := song.span_single kind s base
      have hend : ((song.single kind s).track base).endSector =
          song.start + base + song.pregap + song.length kind := by
        rw [Track.endSector, hstart, hlength]
      rw [spans, ← hend, ← hstart, ← hlength]
      cases hrest with
      | nil => rfl
      | cons h hrest =>
          rw [← ih (List.cons_ne_nil _ _), Layout.stack, Layout.stack, Layout.outOf_cons_cons]
          rfl

/-- Nothing is counted to be more than a sector longer than it is. -/
theorem Song.length_le (song : Song) (kind : Source.Kind) : song.length kind ≤ song.sectors + 1 := by
  have htotal : song.total kind ≤ RedBook.rawSectorSize * song.sectors + 58 := by
    cases kind with
    | binary => exact Nat.le_add_right _ _
    | audio =>
        rw [Song.total, Pcm.Stream.bytesOfTime_sectorsTime]
        split
        · omega
        · split
          · omega
          · omega
  unfold Song.length RedBook.rawSectorSize at *
  omega

/-- What a sheet says last is something that it says. -/
theorem last?_getD_le {f : Command → Option Nat} {cs : List Command} {limit : Nat}
    (h : ∀ c ∈ cs, ∀ n, f c = some n → n ≤ limit) : (last? f cs).getD 0 ≤ limit := by
  cases hlast : last? f cs with
  | none => exact Nat.zero_le _
  | some n =>
      obtain ⟨c, hc, hn⟩ := List.mem_filterMap.mp (List.mem_of_getLast? hlast)
      exact h c hc n hn

/-- A track is not longer than its positions and its file allow. -/
theorem Song.height_le (kind : Source.Kind) (hrange : ∀ c ∈ song.body, c.InRange)
    (hsmall : song.sectors < 2 ^ 21) :
    song.start + song.pregap + song.length kind ≤ 2 ^ 23 := by
  have hstart : song.start ≤ Msf.maxFrames := last?_getD_le fun c hc n hn => by
    cases c with
    | index number frame =>
        obtain ⟨-, ⟨⟩⟩ := Option.ite_none_right_eq_some.mp hn
        exact hrange _ hc
    | track | file | pregap | catalog | remark => cases hn
  have hpregap : song.pregap ≤ Msf.maxFrames := last?_getD_le fun c hc n hn => by
    cases c with
    | pregap frames =>
        cases hn
        exact hrange _ hc
    | track | file | index | catalog | remark => cases hn
  have hlength := song.length_le kind
  unfold Msf.maxFrames at hstart hpregap
  omega

/-- Few tracks that are short are counted without overflow. -/
theorem Sung.endSector_lt (hps : Sung kind songs ps)
    (hrange : ∀ song ∈ songs, ∀ c ∈ song.commands kind, c.InRange)
    (hsmall : ∀ song ∈ songs, song.sectors < 2 ^ 21)
    (hnumbers : Layout.Numbered (songs.map Song.number)) :
    ∀ t ∈ Layout.stack 0 ps, t.endSector < 2 ^ 32 := by
  have hheight : ∀ p ∈ ps, p.entry.track.start + p.entry.pregap + p.sectors ≤ 2 ^ 23 := by
    refine (hps.forall_iff fun song s _ => ?_).mpr fun song hsong =>
      song.height_le kind (fun c hc => hrange song hsong c ?_) (hsmall song hsong)
    · rw [song.sectors_single]
      exact Iff.rfl
    · simp [Song.commands, hc]
  have hcount : ps.length ≤ 256 := by
    rw [← hps.length_eq]
    cases songs with
    | nil => exact Nat.zero_le _
    | cons song songs =>
        have hbyte : ∀ n ∈ (song :: songs).map Song.number, n ≤ 255 := by
          intro n hn
          obtain ⟨song', hsong', rfl⟩ := List.mem_map.mp hn
          exact hrange song' hsong' (.track song'.number song'.mode) (by simp [Song.commands])
        have hle := Layout.add_length_le_of_numbered hnumbers hbyte
        rw [List.length_map] at hle
        rw [List.length_cons]
        omega
  intro t ht
  have hle := Layout.endSector_le_of_stack hheight ht
  omega

end

/-! ### Loading the sheets -/

section

variable {storage : Storage} {resolver : Resolver} {path : String} {lead : List Command}

/-- A sheet whose entries are known is loaded by laying them out. -/
theorem load_of_entries? {cs : List Command} {es : List Entry} {cursors cursors' cursors'' : Cursors}
    {disc : Disc} (hsheet : sheetCommands? storage path = some cs)
    (hes : entries? ⟨storage, resolver, Path.parent path⟩ cursors none cs = some (es, cursors')) :
    load storage resolver path cursors = .ok (disc, cursors'') ↔
      ∃ tracks, Layout.ofEntries es = .ok tracks ∧
        disc = { tracks, catalog := (last? Command.catalog? cs).getD "" } ∧ cursors'' = cursors' := by
  obtain ⟨contents, hget, hcs⟩ := sheetCommands?_eq_some_iff.mp hsheet
  rw [load_ok_iff]
  simp only [hget, Except.ok.injEq, Node.file.injEq, exists_eq_left', hcs, Option.some.injEq, hes,
    Prod.mk.injEq]
  constructor
  · rintro ⟨_, ⟨rfl, rfl⟩, tracks, htracks, rfl⟩
    exact ⟨tracks, htracks, rfl, rfl⟩
  · rintro ⟨tracks, htracks, rfl, rfl⟩
    exact ⟨es, ⟨rfl, rfl⟩, tracks, htracks, rfl⟩

/-- **A sheet of songs** is accepted exactly if each fits into its file and the numbers follow each other.
The tracks of its disc are where the lengths of the files put them. -/
theorem load_songs (hsheet : sheetCommands? storage path =
      some (lead ++ songs.flatMap (Song.commands kind)))
    (hlead : ∀ c ∈ lead, c.endsTrack = false)
    (hstored : ∀ song ∈ songs, song.Stored ⟨storage, resolver, Path.parent path⟩ kind)
    (hsmall : ∀ song ∈ songs, song.sectors < 2 ^ 21) (cursors : Cursors) :
    ((∃ r, load storage resolver path cursors = .ok r) ↔
      songs ≠ [] ∧ (∀ song ∈ songs, song.Fits kind) ∧ Layout.Numbered (songs.map Song.number)) ∧
    ∀ disc cursors', load storage resolver path cursors = .ok (disc, cursors') →
      disc.tracks.map (fun t => (t.start, t.length)) = spans kind 0 songs := by
  obtain ⟨contents, -, hcommands⟩ := sheetCommands?_eq_some_iff.mp hsheet
  obtain ⟨ps, cursors', hentries, hps, hapart⟩ := entries?_songs hstored cursors none
  rw [← entries?_append hlead] at hentries
  have hsung : Sung kind songs ps := hps.imp fun _ _ ⟨s, _, h⟩ => ⟨s, h⟩
  have hrange : ∀ song ∈ songs, ∀ c ∈ song.commands kind, c.InRange := fun song hsong c hc =>
    inRange_of_commands? hcommands
      (List.mem_append_right _ (List.mem_flatMap.mpr ⟨song, hsong, hc⟩))
  have hsourced : ∀ p ∈ ps, p.Sourced :=
    (hsung.forall_iff fun song s hlength => iff_true_intro ⟨s, rfl, hlength⟩).mpr fun _ _ => trivial
  have hfits : (∀ p ∈ ps, p.Fits) ↔ ∀ song ∈ songs, song.Fits kind :=
    hsung.forall_iff fun song s _ => Song.fits_single_iff
  have hnone : ps ≠ [] ↔ songs ≠ [] := by
    rw [← List.length_pos_iff, ← List.length_pos_iff, hsung.length_eq]
  have htracks : ∀ tracks, Layout.ofEntries (ps.map Layout.Single.entry) = .ok tracks ↔
      songs ≠ [] ∧ (∀ song ∈ songs, song.Fits kind) ∧ Layout.Numbered (songs.map Song.number) ∧
        tracks = Layout.stack 0 ps ++ [Layout.outOf (Layout.stack 0 ps)] := by
    intro tracks
    rw [Layout.ofEntries_singles_iff hsourced hapart, hsung.map_number, hnone, hfits]
    constructor
    · rintro ⟨hne, hall, hnumbers, -, h⟩
      exact ⟨hne, hall, hnumbers, h⟩
    · rintro ⟨hne, hall, hnumbers, h⟩
      exact ⟨hne, hall, hnumbers, hsung.endSector_lt hrange hsmall hnumbers, h⟩
  have hload : ∀ disc cursors'', load storage resolver path cursors = .ok (disc, cursors'') ↔
      ∃ tracks, Layout.ofEntries (ps.map Layout.Single.entry) = .ok tracks ∧
        disc = { tracks, catalog := (last? Command.catalog?
          (lead ++ songs.flatMap (Song.commands kind))).getD "" } ∧ cursors'' = cursors' :=
    fun _ _ => load_of_entries? hsheet hentries
  constructor
  · constructor
    · rintro ⟨⟨disc, cursors''⟩, h⟩
      obtain ⟨tracks, h, -, -⟩ := (hload disc cursors'').mp h
      obtain ⟨hne, hall, hnumbers, -⟩ := (htracks tracks).mp h
      exact ⟨hne, hall, hnumbers⟩
    · rintro ⟨hne, hall, hnumbers⟩
      exact ⟨_, (hload _ _).mpr ⟨_, (htracks _).mpr ⟨hne, hall, hnumbers, rfl⟩, rfl, rfl⟩⟩
  · intro disc cursors'' hdisc
    obtain ⟨tracks, h, rfl, -⟩ := (hload disc cursors'').mp hdisc
    obtain ⟨hne, -, -, rfl⟩ := (htracks tracks).mp h
    exact map_stack hsung (hnone.mpr hne)

end

end CompactDisc.Sheet
