import CompactDisc.Proofs.Disc.Owner

/-!
# CompactDisc.Proofs.Drive.Sectors

**Reading sectors of a disc from a sheet**, byte for byte. Nothing checks that the sectors of a
track lie inside its file. It follows from how the tracks of a file are chained: each ends, in
bytes, where the next begins at the latest, and the last one begins inside the file and has what is
left of it (`stored_of_chain`). So only the very last sector of a file can run past its end, where
the file is no whole number of sectors long (`last_of_past`).
-/

namespace CompactDisc

/-! ### Bytes of a track -/

/-- Every sector but the last is filled. -/
theorem Track.mul_lt_of_lt_sectorsOf {t : Track} {k bytes : Nat} (hpos : 0 < t.sectorSize)
    (h : k < t.sectorsOf bytes) : k * t.sectorSize < bytes := by
  unfold Track.sectorsOf at h
  have hle : (k + 1) * t.sectorSize ≤ bytes + t.sectorSize - 1 :=
    (Nat.le_div_iff_mul_le hpos).mp h
  rw [Nat.succ_mul] at hle
  omega

/-- **Where a track is stored.** A track that has a source begins inside it. It ends inside it if
the next track is of the same source; otherwise it has all that is left. -/
theorem stored_of_chain {t : Track} {after : List Track} {s : Source}
    (h : (t :: after).IsChain Track.Before)
    (hids : (t :: after).Pairwise fun t u =>
      ∀ s ∈ t.source, ∀ s' ∈ u.source, s = s' ∨ s.id < s'.id)
    (hclosed : ∀ out ∈ (t :: after).getLast?, out.source = none) (hs : t.source = some s) :
    ∃ u rest total, after = u :: rest ∧ s.length = some total ∧ t.skip ≤ total ∧
      (t.sharesSource u = true → t.skip + t.length * t.sectorSize ≤ total) ∧
      (t.sharesSource u = false → t.length = t.sectorsOf (total - t.skip)) := by
  induction after generalizing t with
  | nil =>
      have hnone := hclosed t rfl
      rw [hs] at hnone
      cases hnone
  | cons u rest ih =>
      obtain ⟨hbefore, hrest⟩ := List.isChain_cons_cons.mp h
      cases hshare : t.sharesSource u with
      | false =>
          obtain ⟨total, htotal, hskip, hlength⟩ := hbefore.whole hshare
          rw [hs] at htotal
          exact ⟨u, rest, total, rfl, htotal, hskip,
            fun h => absurd (hshare.symm.trans h) Bool.false_ne_true, fun _ => hlength⟩
      | true =>
          have hu : u.source = some s :=
            Track.source_of_shares (List.rel_of_pairwise_cons hids List.mem_cons_self) hs hshare
          -- the next track begins inside the source, behind the bytes of this one
          obtain ⟨-, -, total, -, htotal, hskip, -⟩ :=
            ih hrest (List.pairwise_cons.mp hids).2
              (fun out hout => hclosed out (by rwa [List.getLast?_cons_cons])) hu
          have hwithin := hbefore.within hshare
          exact ⟨u, rest, total, rfl, htotal, by omega, fun _ => by omega,
            fun h => absurd (h.symm.trans hshare) Bool.false_ne_true⟩

/-- What is read of a sector lies within the sector as it is stored. -/
theorem Track.HasMode.fits {t : Track} {mode : TrackMode} (h : t.HasMode mode) {raw : Bool}
    (hraw : ¬ (raw = true ∧ t.sectorSize ≠ RedBook.rawSectorSize)) :
    (if raw then 0 else Sector.userDataOffset t.sectorSize t.mode2) + Sector.readSize raw ≤
      t.sectorSize := by
  obtain ⟨hsize, -, hmode2⟩ := h
  cases raw with
  | true =>
      simp only [true_and, not_not] at hraw
      rw [hraw, if_pos rfl]
      exact Nat.le_refl _
  | false =>
      rw [hsize, hmode2]
      cases mode <;> decide

/-- **Past the end of a file** lies nothing but a part of its very last sector. -/
theorem last_of_past {t u : Track} {total k inner : Nat} (hpos : 0 < t.sectorSize)
    (hinner : inner ≤ t.sectorSize) (hk : k < t.length) (hskip : t.skip ≤ total)
    (hwithin : t.sharesSource u = true → t.skip + t.length * t.sectorSize ≤ total)
    (hwhole : t.sharesSource u = false → t.length = t.sectorsOf (total - t.skip))
    (hpast : total < t.skip + k * t.sectorSize + inner) :
    k + 1 = t.length ∧ t.sharesSource u = false := by
  cases hshare : t.sharesSource u with
  | true =>
      have hend := hwithin hshare
      have hmul := Nat.mul_le_mul_right t.sectorSize hk
      rw [Nat.succ_mul] at hmul
      omega
  | false =>
      refine ⟨?_, rfl⟩
      by_contra hne
      have hlt : k + 1 < t.sectorsOf (total - t.skip) := by
        rw [← hwhole hshare]
        omega
      have hmul := Track.mul_lt_of_lt_sectorsOf hpos hlt
      rw [Nat.succ_mul] at hmul
      omega

/-- A disc whose sources are files of sectors. -/
def Disc.InFiles (d : Disc) : Prop :=
  ∀ t ∈ d.tracks, ∀ s ∈ t.source, (∃ length, s.format = .binary length) ∧ s.contents.isSome = true

namespace Sheet

variable {storage : Storage} {resolver : Resolver} {path : String} {cursors cursors' : Cursors}
  {disc : Disc}

/-- Looking again does not change a disc whose files are as they were. -/
theorem refresh_of_load (now : Storage)
    (h : load storage resolver path cursors = .ok (disc, cursors'))
    (hnow : ∀ t ∈ disc.tracks, ∀ s ∈ t.source, now.get s.path = storage.get s.path) :
    disc.refresh now = disc := by
  obtain ⟨init, last, out, heq, -, -, hsource, -, -, -, hplayable⟩ := load_cases h
  have hkept : ∀ t ∈ disc.tracks, { t with source := t.source.map (·.refresh now) } = t := by
    intro t ht
    have hunchanged := hnow t ht
    rw [heq, List.append_cons, List.mem_append, List.mem_singleton] at ht
    rcases ht with ht | rfl
    · obtain ⟨s, mode, cs, hs, -, -, name, kind, file, id, -, -, -, hopened⟩ := hplayable t ht
      have hpath := (Source.openAs_ok hopened).2.1
      have hfile := hunchanged s hs
      rw [hpath] at hfile
      cases t
      cases hs
      rw [Option.map_some, Source.refresh_eq hopened hfile]
    · cases t
      cases hsource
      rfl
  have htracks : disc.tracks.map (fun t => { t with source := t.source.map (·.refresh now) }) =
      disc.tracks := (List.map_congr_left hkept).trans (List.map_id' _)
  unfold Disc.refresh
  rw [htracks]

/-- A sheet whose `FILE` lines all say `BINARY` gives a disc from files, if none of them names a
directory. -/
theorem inFiles_of_binary {cs : List Command}
    (h : load storage resolver path cursors = .ok (disc, cursors'))
    (hcs : sheetCommands? storage path = some cs)
    (hbinary : ∀ name kind, .file name kind ∈ cs → kind = .binary)
    (hresolver : ∀ name file, resolver.resolve name (Path.parent path) = some file →
      storage.isFile file = true) :
    disc.InFiles := by
  obtain ⟨init, last, out, heq, -, -, hsource, -, -, -, hplayable⟩ := load_cases h
  intro t ht s hs
  rw [heq, List.append_cons, List.mem_append, List.mem_singleton] at ht
  rcases ht with ht | rfl
  · obtain ⟨s', mode, cs', hs', -, hcs', name, kind, file, id, hmem, hfile, -, hopened⟩ :=
      hplayable t ht
    obtain rfl : s' = s := Option.some.inj (hs'.symm.trans hs)
    obtain rfl : cs = cs' := Option.some.inj (hcs.symm.trans hcs')
    obtain rfl := hbinary name kind hmem
    obtain ⟨contents, hget⟩ := (Storage.isFile_iff storage file).mp (hresolver name file hfile)
    exact Source.openAs_binary hopened hget
  · rw [hsource] at hs
    cases hs

/-- **The owner of a sector** on a disc from files. What is read of it can lie past the end of the
file only if the sector is the last of the last track of that file. -/
theorem owner_of_load (h : load storage resolver path cursors = .ok (disc, cursors'))
    (hfiles : disc.InFiles) {sector : Nat} (hi : ¬ disc.Outside sector) :
    ∃ before t after s contents mode, disc.tracks = before ++ t :: after ∧ after ≠ [] ∧
      (∀ u ∈ before, u.endSector ≤ sector) ∧ sector < t.endSector ∧ disc.track? sector = some t ∧
      t.source = some s ∧ storage.get s.path = .ok (.file contents) ∧ s.contents = some contents ∧
      s.format = .binary contents.size ∧ t.HasMode mode ∧
      ∀ inner ≤ t.sectorSize, t.start ≤ sector →
        contents.size < t.skip + (sector - t.start) * t.sectorSize + inner →
        sector + 1 = t.endSector ∧ ∀ u ∈ after.head?, t.sharesSource u = false := by
  obtain ⟨before, t, after, heq, hafter, hbefore, hend, howner⟩ :=
    Disc.track?_of_inside (closed_of_load h) hi
  obtain ⟨init, last, out, hsplit, hchain, -, hsource, -, -, hids, hplayable⟩ := load_cases h
  -- something comes after the owner, so it is not the lead-out
  have hmem : t ∈ init ++ [last] := by
    have hdropLast : init ++ [last] = before ++ t :: after.dropLast := by
      have hout : disc.tracks.dropLast = init ++ [last] := by
        rw [hsplit, List.append_cons, List.dropLast_concat]
      rw [← hout, heq, List.dropLast_append_of_ne_nil (List.cons_ne_nil _ _),
        List.dropLast_cons_of_ne_nil hafter]
    rw [hdropLast]
    simp
  obtain ⟨s, mode, cs, hs, hmode, -, name, kind, file, id, -, -, -, hopened⟩ := hplayable t hmem
  obtain ⟨⟨length, hformat⟩, hsome⟩ := hfiles t (by simp [heq]) s hs
  obtain ⟨-, hpath, ⟨contents, hget, hcontents, hsize⟩ | ⟨-, hnone⟩⟩ := Source.openAs_ok hopened
  · rw [hsize length hformat] at hformat
    refine ⟨before, t, after, s, contents, mode, heq, hafter, hbefore, hend, howner, hs, ?_,
      hcontents, hformat, hmode, ?_⟩
    · rw [hpath, hget]
    · intro inner hinner hstart hpast
      have hlast : disc.tracks.getLast? = some out := by
        rw [hsplit, List.append_cons, List.getLast?_concat]
      rw [heq] at hchain hids hlast
      have hclosed : ∀ out' ∈ (t :: after).getLast?, out'.source = none := by
        intro out' hout'
        rw [List.getLast?_append, Option.mem_def.mp hout'] at hlast
        cases hlast
        exact hsource
      obtain ⟨u, rest, total, rfl, htotal, hskip, hwithin, hwhole⟩ := stored_of_chain
        (List.isChain_append.mp hchain).2.1 (List.pairwise_append.mp hids).2.1 hclosed hs
      obtain rfl : contents.size = total := by
        rw [Source.length, hformat] at htotal
        exact Option.some.inj htotal
      have hpos : 0 < t.sectorSize := by
        rw [hmode.1]
        exact mode.sectorSize_pos
      unfold Track.endSector at hend
      obtain ⟨hfinal, hother⟩ := last_of_past hpos hinner (k := sector - t.start) (by omega) hskip
        hwithin hwhole hpast
      refine ⟨?_, fun u' hu' => ?_⟩
      · unfold Track.endSector
        omega
      · cases hu'
        exact hother
  · -- a directory can be opened as sectors, but has no bytes
    rw [hnone] at hsome
    cases hsome

end Sheet

/-- The byte at which what is read of a sector begins. User data comes behind a header of 24 bytes
in mode 2, and of 16 in other whole sectors. -/
def Track.byteOf (t : Track) (raw : Bool) (sector : Nat) : Nat :=
  t.skip + (sector - t.start) * t.sectorSize +
    if raw then 0 else if t.mode2 then 24 else if t.sectorSize = 2352 then 16 else 0

namespace Drive

variable {drive : Drive} {sector : Nat}

/-! ### One sector -/

theorem sector_of_none (raw : Bool) (cursors : Cursors)
    (h : drive.disc.track? sector = none) :
    (drive.sector raw sector cursors).1 = .error (.sectorNotFound sector) := by
  unfold Drive.sector
  rw [h]

theorem sector_of_owner (raw : Bool) (cursors : Cursors) {t : Track} {s : Source}
    (h : drive.disc.track? sector = some t) (hs : t.source = some s) :
    (drive.sector raw sector cursors).1 =
      if raw = true ∧ t.sectorSize ≠ 2352 then
        .error (.rawUnsupported t.number t.sectorSize)
      else if sector < t.start then .ok (List.replicate (Sector.readSize raw) 0)
      else (s.read (t.byteOf raw sector) (Sector.readSize raw) (cursors.get s.id)).1.mapError
        .source := by
  unfold Drive.sector
  rw [h]
  dsimp only
  rw [hs, show RedBook.rawSectorSize = 2352 from rfl]
  dsimp only
  split
  · rfl
  · split
    · rfl
    · rfl

/-- What is read of a sector is as long as it should be. -/
theorem length_of_sector {raw : Bool} {cursors : Cursors} {bytes : List UInt8}
    (h : (drive.sector raw sector cursors).1 = .ok bytes) :
    bytes.length = Sector.readSize raw := by
  cases howner : drive.disc.track? sector with
  | none =>
      rw [sector_of_none raw cursors howner] at h
      cases h
  | some t =>
      cases hs : t.source with
      | none =>
          simp only [Drive.sector, howner, hs] at h
          cases h
      | some s =>
          rw [sector_of_owner raw cursors howner hs] at h
          split at h
          · cases h
          · split at h
            · cases h
              exact List.length_replicate
            · cases hread : (s.read (t.byteOf raw sector) (Sector.readSize raw)
                  (cursors.get s.id)).1 with
              | error e =>
                  rw [hread] at h
                  cases h
              | ok found =>
                  rw [hread] at h
                  cases h
                  exact Source.length_of_read hread

theorem readSector_of_short {buffer : List UInt8} {raw : Bool} {cursors : Cursors}
    (h : buffer.length < Sector.readSize raw) :
    drive.readSector buffer raw sector cursors =
      (.error (.bufferTooSmall (Sector.readSize raw) buffer.length), buffer, cursors) := by
  unfold readSector
  exact if_pos h

theorem readSector_of_error {buffer : List UInt8} {raw : Bool} {cursors : Cursors}
    {e : DriveError} (h : Sector.readSize raw ≤ buffer.length)
    (he : (drive.sector raw sector cursors).1 = .error e) :
    (drive.readSector buffer raw sector cursors).1 = .error e ∧
      (drive.readSector buffer raw sector cursors).2.1 = buffer := by
  unfold readSector
  rw [if_neg (Nat.not_lt.mpr h)]
  rcases hsector : drive.sector raw sector cursors with ⟨result, cursors'⟩
  rw [hsector] at he
  cases he
  exact ⟨rfl, rfl⟩

theorem readSector_of_ok {buffer bytes : List UInt8} {raw : Bool} {cursors : Cursors}
    (h : Sector.readSize raw ≤ buffer.length)
    (hok : (drive.sector raw sector cursors).1 = .ok bytes) :
    (drive.readSector buffer raw sector cursors).1 = .ok () ∧
      (drive.readSector buffer raw sector cursors).2.1 =
        bytes ++ buffer.drop (Sector.readSize raw) := by
  unfold readSector
  rw [if_neg (Nat.not_lt.mpr h)]
  rcases hsector : drive.sector raw sector cursors with ⟨result, cursors'⟩
  rw [hsector] at hok
  cases hok
  exact ⟨rfl, rfl⟩

/-- Whatever comes of reading a sector, nothing behind its place in the buffer is touched. -/
theorem readSector_behind (drive : Drive) (buffer : List UInt8) (raw : Bool) (sector : Nat)
    (cursors : Cursors) :
    (drive.readSector buffer raw sector cursors).2.1.length = buffer.length ∧
      (drive.readSector buffer raw sector cursors).2.1.drop (Sector.readSize raw) =
        buffer.drop (Sector.readSize raw) := by
  rcases Nat.lt_or_ge buffer.length (Sector.readSize raw) with hshort | hn
  · rw [readSector_of_short hshort]
    exact ⟨rfl, rfl⟩
  · cases hsector : (drive.sector raw sector cursors).1 with
    | error e =>
        rw [(readSector_of_error hn hsector).2]
        exact ⟨rfl, rfl⟩
    | ok bytes =>
        have hlength := length_of_sector hsector
        rw [(readSector_of_ok hn hsector).2, List.drop_left' hlength, List.length_append, hlength,
          List.length_drop]
        exact ⟨Nat.add_sub_of_le hn, rfl⟩

/-- A sector that is owned is read by four rules. -/
theorem readSector_of_owner (buffer : List UInt8) (raw : Bool) (cursors : Cursors)
    {t : Track} {s : Source} {contents : Contents}
    (h : drive.disc.track? sector = some t) (hs : t.source = some s)
    (hcontents : s.contents = some contents) (hformat : s.format = .binary contents.size)
    (hn : Sector.readSize raw ≤ buffer.length) :
    let n := Sector.readSize raw
    let read := drive.readSector buffer raw sector cursors
    (raw = true ∧ t.sectorSize ≠ 2352 →
      read.1 = .error (.rawUnsupported t.number t.sectorSize) ∧ read.2.1 = buffer) ∧
    (¬ (raw = true ∧ t.sectorSize ≠ 2352) → sector < t.start →
      read.1 = .ok () ∧ read.2.1 = List.replicate n 0 ++ buffer.drop n) ∧
    (¬ (raw = true ∧ t.sectorSize ≠ 2352) → t.start ≤ sector →
      t.byteOf raw sector + n ≤ contents.size →
      read.1 = .ok () ∧ read.2.1 = contents.read (t.byteOf raw sector) n ++ buffer.drop n) ∧
    (¬ (raw = true ∧ t.sectorSize ≠ 2352) → t.start ≤ sector →
      contents.size < t.byteOf raw sector + n →
      (∃ fault, read.1 = .error (.source (.storage fault))) ∧ read.2.1 = buffer) := by
  intro n read
  have hsector := sector_of_owner raw cursors h hs
  refine ⟨fun hraw => ?_, fun hraw hgap => ?_, fun hraw hstart hin => ?_,
    fun hraw hstart hpast => ?_⟩
  · rw [if_pos hraw] at hsector
    exact readSector_of_error hn hsector
  · rw [if_neg hraw, if_pos hgap] at hsector
    exact readSector_of_ok hn hsector
  · rw [if_neg hraw, if_neg (Nat.not_lt.mpr hstart),
      Source.read_inside hformat hcontents hin] at hsector
    exact readSector_of_ok hn hsector
  · have hpos : 0 < n := by
      cases raw <;> decide
    obtain ⟨fault, hfault⟩ := Source.read_past hformat hcontents hpos hpast (cursors.get s.id)
    rw [if_neg hraw, if_neg (Nat.not_lt.mpr hstart), hfault] at hsector
    obtain ⟨herror, hbuffer⟩ := readSector_of_error hn hsector
    exact ⟨⟨fault, herror⟩, hbuffer⟩

/-- What can come of reading a sector that is owned. -/
theorem readSector_outcomes (buffer : List UInt8) (raw : Bool) (cursors : Cursors)
    {t : Track} {s : Source} {contents : Contents}
    (h : drive.disc.track? sector = some t) (hs : t.source = some s)
    (hcontents : s.contents = some contents) (hformat : s.format = .binary contents.size)
    (hn : Sector.readSize raw ≤ buffer.length) :
    let read := drive.readSector buffer raw sector cursors
    read.1 = .ok () ∨
      (read.1 = .error (.rawUnsupported t.number t.sectorSize) ∧ raw = true ∧ t.sectorSize ≠ 2352) ∨
      ∃ fault, read.1 = .error (.source (.storage fault)) := by
  intro read
  obtain ⟨hunsupported, hgap, hinside, hpast⟩ :=
    readSector_of_owner buffer raw cursors h hs hcontents hformat hn
  by_cases hraw : raw = true ∧ t.sectorSize ≠ 2352
  · exact Or.inr (Or.inl ⟨(hunsupported hraw).1, hraw⟩)
  rcases Nat.lt_or_ge sector t.start with hlt | hge
  · exact Or.inl (hgap hraw hlt).1
  rcases Nat.lt_or_ge contents.size (t.byteOf raw sector + Sector.readSize raw) with hlate | hin
  · exact Or.inr (Or.inr (hpast hraw hge hlate).1)
  · exact Or.inl (hinside hraw hge hin).1

/-! ### The disc of a sheet -/

/-- **Sectors of a disc from files.** While the files of a loaded sheet stay as they are, the
outcome of reading a sector into a buffer is the first of these that applies: the buffer is too
small; the sector is outside the disc; its owner is not stored in whole sectors and such are asked
for; the sector is in the gap before its owner and reads as zeros; the bytes read are those of the
file, or lie past its end. The last can only be for the final sector of the last track of a file.
Nothing behind the sector's place in the buffer is touched. -/
theorem readSector_exact (drive : Drive) {storage now : Storage} {resolver : Sheet.Resolver}
    {path : String} {opened opened' : Cursors} {disc : Disc}
    (h : Sheet.load storage resolver path opened = .ok (disc, opened')) (hfiles : disc.InFiles)
    (hnow : ∀ t ∈ disc.tracks, ∀ s ∈ t.source, now.get s.path = storage.get s.path)
    (hdrive : drive.disc = disc.refresh now) (buffer : List UInt8) (raw : Bool) (sector : Nat)
    (cursors : Cursors) :
    let n := Sector.readSize raw
    let read := drive.readSector buffer raw sector cursors
    (read.1 = .error (.bufferTooSmall n buffer.length) ↔ buffer.length < n) ∧
    (n ≤ buffer.length →
      (read.1 = .error (.sectorNotFound sector) ↔ disc.Outside sector) ∧
      (¬ disc.Outside sector → ∃ before t after s contents,
        disc.tracks = before ++ t :: after ∧ after ≠ [] ∧
        (∀ u ∈ before, u.endSector ≤ sector) ∧ sector < t.endSector ∧
        t.source = some s ∧ storage.get s.path = .ok (.file contents) ∧
        (read.1 = .error (.rawUnsupported t.number t.sectorSize) ↔
          raw = true ∧ t.sectorSize ≠ 2352) ∧
        (¬ (raw = true ∧ t.sectorSize ≠ 2352) →
          (sector < t.start →
            read.1 = .ok () ∧ read.2.1 = List.replicate n 0 ++ buffer.drop n) ∧
          (t.start ≤ sector →
            (t.byteOf raw sector + n ≤ contents.size →
              read.1 = .ok () ∧
              read.2.1 = contents.read (t.byteOf raw sector) n ++ buffer.drop n) ∧
            ((∃ fault, read.1 = .error (.source (.storage fault))) ↔
              contents.size < t.byteOf raw sector + n) ∧
            (contents.size < t.byteOf raw sector + n →
              sector + 1 = t.endSector ∧ ∀ u ∈ after.head?, t.sharesSource u = false))))) ∧
    (∀ number, read.1 ≠ .error (.noSource number)) ∧
    read.2.1.length = buffer.length ∧ read.2.1.drop n = buffer.drop n := by
  intro n read
  rw [Sheet.refresh_of_load now h hnow] at hdrive
  obtain ⟨hlength, hbehind⟩ := drive.readSector_behind buffer raw sector cursors
  by_cases hshort : buffer.length < n
  · have herror : read.1 = .error (.bufferTooSmall n buffer.length) :=
      congrArg Prod.fst (readSector_of_short hshort)
    rw [herror]
    exact ⟨⟨fun _ => hshort, fun _ => rfl⟩, fun hn => absurd hshort (Nat.not_lt.mpr hn), nofun,
      hlength, hbehind⟩
  have hn : n ≤ buffer.length := Nat.le_of_not_lt hshort
  by_cases hi : disc.Outside sector
  · have howner := Disc.track?_of_outside (Sheet.closed_of_load h).sequential hi
    rw [← hdrive] at howner
    have herror : read.1 = .error (.sectorNotFound sector) :=
      (readSector_of_error hn (sector_of_none raw cursors howner)).1
    rw [herror]
    exact ⟨⟨nofun, fun hshort' => absurd hshort' hshort⟩,
      fun _ => ⟨⟨fun _ => hi, fun _ => rfl⟩, fun hinside => absurd hi hinside⟩, nofun, hlength,
      hbehind⟩
  · obtain ⟨before, t, after, s, contents, mode, heq, hafter, hbefore, hend, howner, hs, hget,
      hcontents, hformat, hmode, hfinal⟩ := Sheet.owner_of_load h hfiles hi
    rw [← hdrive] at howner
    obtain ⟨hunsupported, hgap, hinside, hpast⟩ :=
      readSector_of_owner buffer raw cursors howner hs hcontents hformat hn
    have houtcomes := readSector_outcomes buffer raw cursors howner hs hcontents hformat hn
    -- the rules give one direction of each equivalence; the other is that outcomes exclude each other
    refine ⟨⟨fun he => ?_, fun hshort' => absurd hshort' hshort⟩,
      fun _ => ⟨⟨fun he => ?_, fun hout => absurd hout hi⟩, fun _ =>
        ⟨before, t, after, s, contents, heq, hafter, hbefore, hend, hs, hget,
          ⟨fun he => ?_, fun hraw => (hunsupported hraw).1⟩,
          fun hraw => ⟨hgap hraw, fun hstart =>
            ⟨hinside hraw hstart, ⟨fun he => ?_, fun hlate => (hpast hraw hstart hlate).1⟩,
              fun hlate => ?_⟩⟩⟩⟩, fun number he => ?_, hlength, hbehind⟩
    · rcases houtcomes with hk | ⟨hk, -⟩ | ⟨fault, hk⟩ <;> cases hk.symm.trans he
    · rcases houtcomes with hk | ⟨hk, -⟩ | ⟨fault, hk⟩ <;> cases hk.symm.trans he
    · rcases houtcomes with hk | ⟨-, hraw⟩ | ⟨fault, hk⟩
      · cases hk.symm.trans he
      · exact hraw
      · cases hk.symm.trans he
    · obtain ⟨fault, he⟩ := he
      by_contra hin
      cases (hinside hraw hstart (Nat.le_of_not_lt hin)).1.symm.trans he
    · refine hfinal _ (hmode.fits hraw) hstart ?_
      unfold Track.byteOf at hlate
      rw [← Nat.add_assoc]
      exact hlate
    · rcases houtcomes with hk | ⟨hk, -⟩ | ⟨fault, hk⟩ <;> cases hk.symm.trans he

/-- On the disc of the sheet of three files, the fifth sector is the last. -/
theorem readSector_exact_threeFiles : ∃ disc opened,
    Sheet.load Sheet.threeFilesStorage (.search Sheet.threeFilesStorage) "s" .none =
      .ok (disc, opened) ∧
    disc.InFiles ∧
    (({ medium := ⟨0, disc⟩ } : Drive).readSector [] true 4 .none).1 = .error (.bufferTooSmall 2352 0) ∧
    (({ medium := ⟨0, disc⟩ } : Drive).readSector (List.replicate 2352 0) true 5 .none).1 =
      .error (.sectorNotFound 5) ∧
    (({ medium := ⟨0, disc⟩ } : Drive).readSector (List.replicate 2352 0) true 4 .none).1 ≠
      .error (.sectorNotFound 4) := by
  obtain ⟨es, disc, opened, -, hload, -, hplaces⟩ := Sheet.load_threeFiles
  have hfiles : disc.InFiles := by
    refine Sheet.inFiles_of_binary hload Sheet.sheetCommands?_threeFiles ?_
      fun name file => Sheet.Resolver.isFile_of_search
    intro name kind hmem
    simp only [Sheet.threeFilesCommands, List.mem_cons, Sheet.Command.file.injEq, reduceCtorEq,
      List.not_mem_nil, or_false, false_or] at hmem
    rcases hmem with ⟨-, rfl⟩ | ⟨-, rfl⟩ | ⟨-, rfl⟩ <;> rfl
  have hsame := Sheet.refresh_of_load Sheet.threeFilesStorage hload fun _ _ _ _ => rfl
  obtain ⟨first, hfirst, hstart⟩ : ∃ first, disc.tracks.head? = some first ∧ first.start = 0 := by
    have hmap := congrArg (fun ps => ps.head?.map Prod.fst) hplaces
    simpa [List.head?_map, Option.map_eq_some_iff] using hmap
  obtain ⟨out, hout, hleadOut⟩ : ∃ out, disc.tracks.getLast? = some out ∧ out.start = 5 := by
    have hmap := congrArg (fun ps => ps.getLast?.map Prod.fst) hplaces
    simpa [List.getLast?_map, Option.map_eq_some_iff] using hmap
  have houtside : ∀ sector, disc.Outside sector ↔ 5 ≤ sector := by
    intro sector
    simp only [Disc.Outside, hfirst, hout, Option.mem_some_iff, forall_eq', hstart, hleadOut,
      RedBook.lastSector]
    omega
  have hexact := readSector_exact { medium := ⟨0, disc⟩ } hload hfiles (fun _ _ _ _ => rfl) hsame.symm
  have hroom : Sector.readSize true ≤ (List.replicate 2352 (0 : UInt8)).length := by
    rw [List.length_replicate]
    exact Nat.le_refl _
  refine ⟨disc, opened, hload, hfiles, ?_, ?_, ?_⟩
  · exact (hexact [] true 4 .none).1.mpr (by decide)
  · exact ((hexact _ true 5 .none).2.1 hroom).1.mpr ((houtside 5).mpr (Nat.le_refl _))
  · intro h
    have hlate := (houtside 4).mp (((hexact _ true 4 .none).2.1 hroom).1.mp h)
    omega

end Drive

end CompactDisc
