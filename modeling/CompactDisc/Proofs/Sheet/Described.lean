import CompactDisc.Proofs.Sheet.Entries
import CompactDisc.Proofs.Source.File

/-!
# CompactDisc.Proofs.Sheet.Described

**What the entries of a sheet are like.** Each is what `describe` makes of one `TRACK` line: it has
the properties of a track type, no length yet, and a number that is a byte. Its source was opened by
a `FILE` line before it. Every opening takes the next identity, so the entries of one source stand
together and a source never comes back (`described_of_sheetEntries?`).
-/

namespace CompactDisc.Sheet

variable {env : Surroundings} {cursors cursors' : Cursors} {source : Option Source}
  {es : List Entry} {cs : List Command}

/-! ### Numbers -/

theorem number_le_of_number {line : Line} {max n : Nat} {command : String}
    (h : (line.number max command).1 = .ok n) : n ≤ max := by
  unfold Line.number Line.reading at h
  split at h
  · cases h
  · rename_i word _ _
    dsimp only at h
    cases hword : Text.Numeral.parse max word with
    | error e =>
        rw [hword] at h
        cases h
    | ok m =>
        rw [hword] at h
        cases h
        exact Text.Numeral.parse_le hword

theorem frames_le_of_frames {line : Line} {n : Nat} {command : String}
    (h : (line.frames command).1 = .ok n) : n ≤ Msf.maxFrames := by
  unfold Line.frames Line.reading at h
  split at h
  · cases h
  · rename_i word _ _
    dsimp only at h
    cases hword : Line.position word with
    | error e =>
        rw [hword] at h
        cases h
    | ok p =>
        rw [hword] at h
        cases h
        exact p.toFrames_le

/-- The numbers of a command are such as a sheet can hold: track numbers are bytes, and positions have
bytes for their parts. -/
def Command.InRange : Command → Prop
  | .track number _ => number ≤ 255
  | .index _ frames => frames ≤ Msf.maxFrames
  | .pregap frames => frames ≤ Msf.maxFrames
  | _ => True

theorem inRange_of_command {verb : Verb} {line : Line} {c : Command}
    (h : verb.command line = .ok c) : c.InRange := by
  cases verb with
  | track =>
      obtain ⟨n, hn, h⟩ := bind_eq_ok_iff.mp h
      dsimp only at h
      split at h <;> cases h
      exact number_le_of_number hn
  | index =>
      obtain ⟨n, -, h⟩ := bind_eq_ok_iff.mp h
      obtain ⟨frame, hframe, h⟩ := bind_eq_ok_iff.mp h
      cases h
      exact frames_le_of_frames hframe
  | file =>
      obtain ⟨name, -, h⟩ := bind_eq_ok_iff.mp h
      cases h
      trivial
  | pregap =>
      obtain ⟨frames, hframes, h⟩ := bind_eq_ok_iff.mp h
      cases h
      exact frames_le_of_frames hframes
  | catalog =>
      obtain ⟨text, -, h⟩ := bind_eq_ok_iff.mp h
      cases h
      trivial
  | remark =>
      cases h
      trivial

theorem inRange_of_command? {raw : RawLine} {c : Command} (h : raw.command? = some c) : c.InRange := by
  cases raw with
  | overlong => cases h
  | line bytes =>
      obtain ⟨verb, -, hcommand⟩ := command?_eq_some_iff.mp h
      exact inRange_of_command hcommand

/-- What a sheet says is in range. -/
theorem inRange_of_commands? {contents : Contents} (h : commands? contents = some cs) {c : Command}
    (hc : c ∈ cs) : c.InRange := by
  unfold commands? at h
  generalize Lines.read contents = raws at h
  induction raws generalizing cs with
  | nil =>
      cases h
      cases hc
  | cons raw raws ih =>
      rw [List.mapM_cons, Option.bind_eq_bind, Option.bind_eq_some_iff] at h
      obtain ⟨d, hraw, h⟩ := h
      obtain ⟨rest, hrest, ⟨⟩⟩ := Option.bind_eq_some_iff.mp h
      rcases List.mem_cons.mp hc with rfl | hc
      · exact inRange_of_command? hraw
      · exact ih hc hrest

/-! ### Sources -/

/-- A source was opened for one of the `FILE` lines, after so many others. -/
def OpenedFor (env : Surroundings) (cs : List Command) (others : Nat) (s : Source) : Prop :=
  ∃ name kind path id, .file name kind ∈ cs ∧ env.resolver.resolve name env.dir = some path ∧
    others ≤ id ∧ Source.openAs env.storage path kind id = .ok s

theorem OpenedFor.cons {others others' : Nat} {s : Source} (c : Command)
    (h : OpenedFor env cs others' s) (hle : others ≤ others') :
    OpenedFor env (c :: cs) others s := by
  obtain ⟨name, kind, path, id, hmem, hpath, hid, hopened⟩ := h
  exact ⟨name, kind, path, id, List.mem_cons_of_mem _ hmem, hpath, Nat.le_trans hle hid, hopened⟩

theorem OpenedFor.le_id {others : Nat} {s : Source} (h : OpenedFor env cs others s) :
    others ≤ s.id := by
  obtain ⟨name, kind, path, id, -, -, hid, hopened⟩ := h
  rw [Source.id_openAs hopened]
  exact hid

/-- Every entry comes from a `TRACK` line, and its source from a `FILE` line. -/
theorem mem_entries? (h : entries? env cursors source cs = some (es, cursors')) {e : Entry}
    (he : e ∈ es) :
    ∃ number mode s w, .track number mode ∈ cs ∧ e = describe number mode s w ∧
      (source = some s ∨ OpenedFor env cs cursors.positions.length s) := by
  induction cs generalizing cursors source es with
  | nil =>
      cases h
      cases he
  | cons c cs ih =>
      cases hc : c.endsTrack with
      | false =>
          rw [entries?_within hc] at h
          obtain ⟨number, mode, s, w, hmem, hdescribe, hs⟩ := ih h he
          exact ⟨number, mode, s, w, List.mem_cons_of_mem _ hmem, hdescribe,
            hs.imp_right (·.cons c (Nat.le_refl _))⟩
      | true =>
          cases c with
          | index | pregap | catalog | remark => cases hc
          | track number mode =>
              obtain ⟨s, hs, rest, hrest, rfl⟩ := entries?_track_iff.mp h
              rcases List.mem_cons.mp he with rfl | he
              · exact ⟨number, mode, s, _, List.mem_cons_self, rfl, Or.inl hs⟩
              · obtain ⟨number', mode', s', w, hmem, hdescribe, hs'⟩ := ih hrest he
                exact ⟨number', mode', s', w, List.mem_cons_of_mem _ hmem, hdescribe,
                  hs'.imp_right (·.cons _ (Nat.le_refl _))⟩
          | file name kind =>
              obtain ⟨path, hpath, opened, hopened, h⟩ := entries?_file_iff.mp h
              obtain ⟨hopen, hcursors⟩ := Cursors.openSource_ok_iff.mp hopened
              obtain ⟨number, mode, s, w, hmem, hdescribe, hs⟩ := ih h he
              refine ⟨number, mode, s, w, List.mem_cons_of_mem _ hmem, hdescribe, Or.inr ?_⟩
              rcases hs with hs | hs
              · cases hs
                exact ⟨name, kind, path, _, List.mem_cons_self, hpath, Nat.le_refl _, hopen⟩
              · refine hs.cons _ ?_
                rw [hcursors, List.length_append]
                exact Nat.le_add_right _ _

/-- Sources are numbered in the order in which they come. -/
theorem ids_entries? (h : entries? env cursors source cs = some (es, cursors'))
    (known : ∀ s ∈ source, s.id < cursors.positions.length) :
    es.Pairwise fun e f => ∀ s ∈ e.track.source, ∀ s' ∈ f.track.source, s = s' ∨ s.id < s'.id := by
  induction cs generalizing cursors source es with
  | nil =>
      cases h
      exact List.Pairwise.nil
  | cons c cs ih =>
      cases hc : c.endsTrack with
      | false =>
          rw [entries?_within hc] at h
          exact ih h known
      | true =>
          cases c with
          | index | pregap | catalog | remark => cases hc
          | track number mode =>
              obtain ⟨s, rfl, rest, hrest, rfl⟩ := entries?_track_iff.mp h
              refine List.pairwise_cons.mpr ⟨fun f hf => ?_, ih hrest known⟩
              rintro _ ⟨⟩ s' hs'
              obtain ⟨number', mode', t, w, -, rfl, ht⟩ := mem_entries? hrest hf
              cases hs'
              rcases ht with ht | ht
              · exact Or.inl (Option.some.inj ht)
              · -- the source is still the one that was open, and every later one is newer
                exact Or.inr (Nat.lt_of_lt_of_le (known s rfl) ht.le_id)
          | file name kind =>
              obtain ⟨path, -, opened, hopened, h⟩ := entries?_file_iff.mp h
              obtain ⟨hopen, hcursors⟩ := Cursors.openSource_ok_iff.mp hopened
              refine ih h fun s hs => ?_
              cases hs
              rw [Source.id_openAs hopen, hcursors, List.length_append]
              exact Nat.lt_succ_self _

/-! ### A sheet -/

/-- The commands of the sheet at a path. -/
def sheetCommands? (storage : Storage) (path : String) : Option (List Command) :=
  match storage.get path with
  | .ok (.file contents) => commands? contents
  | _ => none

/-- The entries of the sheet at a path, with the cursors once its files are open. -/
def sheetEntries? (storage : Storage) (resolver : Resolver) (path : String) (cursors : Cursors) :
    Option (List Entry × Cursors) :=
  (sheetCommands? storage path).bind (entries? ⟨storage, resolver, Path.parent path⟩ cursors none)

variable {storage : Storage} {resolver : Resolver} {path : String}

theorem sheetCommands?_eq_some_iff :
    sheetCommands? storage path = some cs ↔
      ∃ contents, storage.get path = .ok (.file contents) ∧ commands? contents = some cs := by
  unfold sheetCommands?
  split
  · rename_i contents hget
    simp only [hget, Except.ok.injEq, Node.file.injEq, exists_eq_left']
  · rename_i hget
    exact ⟨nofun, fun ⟨contents, h, _⟩ => absurd h (hget contents)⟩

/-- The tracks of a sheet are those that its entries describe. -/
theorem entries_of_load {disc : Disc}
    (h : load storage resolver path cursors = .ok (disc, cursors')) :
    ∃ es, sheetEntries? storage resolver path cursors = some (es, cursors') ∧
      Layout.ofEntries es = .ok disc.tracks := by
  obtain ⟨contents, hget, cs, hcs, es, hes, tracks, htracks, rfl⟩ := load_ok_iff.mp h
  exact ⟨es, Option.bind_eq_some_iff.mpr
    ⟨cs, sheetCommands?_eq_some_iff.mpr ⟨contents, hget, hcs⟩, hes⟩, htracks⟩

theorem mem_sheetEntries? (h : sheetEntries? storage resolver path cursors = some (es, cursors'))
    {e : Entry} (he : e ∈ es) :
    ∃ cs number mode s w, sheetCommands? storage path = some cs ∧ number ≤ 255 ∧
      e = describe number mode s w ∧
      OpenedFor ⟨storage, resolver, Path.parent path⟩ cs cursors.positions.length s := by
  obtain ⟨cs, hcs, hes⟩ := Option.bind_eq_some_iff.mp h
  obtain ⟨contents, -, hcommands⟩ := sheetCommands?_eq_some_iff.mp hcs
  obtain ⟨number, mode, s, w, hmem, he, hs⟩ := mem_entries? hes he
  exact ⟨cs, number, mode, s, w, hcs, inRange_of_commands? hcommands hmem, he,
    hs.resolve_left nofun⟩

/-- **The entries of a sheet** fall into one run for each of its files. -/
theorem described_of_sheetEntries?
    (h : sheetEntries? storage resolver path cursors = some (es, cursors')) :
    Layout.Described es where
  sourced e he := by
    obtain ⟨cs, number, mode, s, w, -, -, rfl, -⟩ := mem_sheetEntries? h he
    exact ⟨s, rfl⟩
  fresh e he := by
    obtain ⟨cs, number, mode, s, w, -, -, rfl, -⟩ := mem_sheetEntries? h he
    rfl
  byte e he := by
    obtain ⟨cs, number, mode, s, w, -, hnumber, rfl, -⟩ := mem_sheetEntries? h he
    exact hnumber
  ids := by
    obtain ⟨cs, -, hes⟩ := Option.bind_eq_some_iff.mp h
    exact ids_entries? hes nofun

/-! ### A sheet of three files -/

/-- A sheet of three files, the last of which holds two tracks. -/
def threeFiles : Contents :=
  .ofArray (Text.ascii ("FILE a BINARY\nTRACK 1 MODE1/2352\nFILE b BINARY\nTRACK 2 AUDIO\n" ++
    "FILE c BINARY\nTRACK 3 AUDIO\nTRACK 4 AUDIO\nINDEX 1 0:0:1")).toArray

/-- The sheet and its files. The first two hold a sector each and the last holds three. -/
def threeFilesStorage : Storage where
  entries := [(⟨false, ["s"]⟩, .file threeFiles), (⟨false, ["a"]⟩, .file (.filled 2352 0)),
    (⟨false, ["b"]⟩, .file (.filled 2352 0)), (⟨false, ["c"]⟩, .file (.filled 7056 0))]

/-- What the sheet says. -/
def threeFilesCommands : List Command :=
  [.file "a" .binary, .track 1 .mode1Raw, .file "b" .binary, .track 2 .audio,
    .file "c" .binary, .track 3 .audio, .track 4 .audio, .index 1 1]

theorem commands?_threeFiles : commands? threeFiles = some threeFilesCommands := by
  decide +kernel

theorem get_threeFiles : threeFilesStorage.get "s" = .ok (.file threeFiles) := by
  rfl

theorem sheetCommands?_threeFiles :
    sheetCommands? threeFilesStorage "s" = some threeFilesCommands :=
  sheetCommands?_eq_some_iff.mpr ⟨threeFiles, get_threeFiles, commands?_threeFiles⟩

/-- The fourth track starts at sector 4, where the sheet says 3. -/
theorem load_threeFiles : ∃ es disc cursors,
    sheetEntries? threeFilesStorage (.search threeFilesStorage) "s" .none = some (es, cursors) ∧
      load threeFilesStorage (.search threeFilesStorage) "s" .none = .ok (disc, cursors) ∧
      (Layout.blocks es).map List.length = [1, 1, 2] ∧
      disc.tracks.map (fun t => (t.start, t.length)) =
        [(0, 1), (1, 1), (2, 2), (4, 1), (5, 0)] := by
  have h : (entries? ⟨threeFilesStorage, .search threeFilesStorage, Path.parent "s"⟩ .none none
      threeFilesCommands).map (fun r => ((Layout.blocks r.1).map List.length,
        (Layout.ofEntries r.1).toOption.map fun ts => ts.map fun t => (t.start, t.length))) =
      some ([1, 1, 2], some [(0, 1), (1, 1), (2, 2), (4, 1), (5, 0)]) := by
    decide +kernel
  obtain ⟨⟨es, cursors⟩, hes, h⟩ := Option.map_eq_some_iff.mp h
  simp only [Prod.mk.injEq, Option.map_eq_some_iff, toOption_eq_some_iff] at h
  obtain ⟨hblocks, tracks, htracks, hplaces⟩ := h
  refine ⟨es, { tracks }, cursors, ?_, ?_, hblocks, hplaces⟩
  · exact Option.bind_eq_some_iff.mpr ⟨_, sheetCommands?_threeFiles, hes⟩
  · exact load_ok_iff.mpr
      ⟨_, get_threeFiles, _, commands?_threeFiles, es, hes, tracks, htracks, rfl⟩

end CompactDisc.Sheet
