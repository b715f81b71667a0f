import CompactDisc.Command.Image
import CompactDisc.Proofs.Drive.Slots
import CompactDisc.Proofs.Sheet.Lines
import CompactDisc.Proofs.Sound.Shared

/-!
# CompactDisc.Proofs.Command.Copy

**Copying sectors to a file.** A copy that succeeds holds every sector as a read of it alone gives it,
although sectors are read a chunk at a time (`Command.copyFrom_ok`). The output may be a file of the
image itself. Then each sector is as it was when the chunks before its own had been written, which need
not be as it was at first (`Command.copySectors_ownFile`); an image that is not written to is copied as
it is.
-/

namespace CompactDisc

namespace Command

variable {raw : Bool} {sector count : Nat} {written : Array UInt8} {cursors : Cursors}

/-- The bytes that have been written when the chunk of a sector is read. -/
def chunksBefore (raw : Bool) (i : Nat) (bytes : List UInt8) : List UInt8 :=
  bytes.take (Sector.readSize raw * (i / chunkSize * chunkSize))

theorem chunksBefore_first {i : Nat} (h : i < chunkSize) (bytes : List UInt8) :
    chunksBefore raw i bytes = [] := by
  rw [chunksBefore, Nat.div_eq_of_lt h, Nat.zero_mul, Nat.mul_zero, List.take_zero]

theorem chunksBefore_next {chunk : List UInt8} (h : chunk.length = Sector.readSize raw * chunkSize)
    (i : Nat) (rest : List UInt8) :
    chunksBefore raw (chunkSize + i) (chunk ++ rest) = chunk ++ chunksBefore raw i rest := by
  rw [chunksBefore, chunksBefore, Nat.add_div_left i (show 0 < chunkSize by decide), Nat.succ_mul,
    Nat.add_comm _ chunkSize, Nat.mul_add, ← h, List.take_length_add_append]

/-- What comes of the next chunk. -/
theorem copyFrom_chunk (drive : Array UInt8 → Drive) (raw : Bool) (sector : Nat) {count : Nat}
    (hmore : 0 < count) (written : Array UInt8) (cursors : Cursors) :
    let chunk := min count chunkSize
    let read := (drive written).readSlots raw (List.replicate (Sector.readSize raw * chunk) 0)
      sector cursors chunk
    (∀ e, read.1 = .error e →
      copyFrom drive raw sector count written cursors = (written, some (unreadable sector e))) ∧
    (read.1 = .ok () → copyFrom drive raw sector count written cursors =
      copyFrom drive raw (sector + chunk) (count - chunk) (written ++ read.2.1.toArray)
        read.2.2) := by
  intro chunk read
  have hread : (drive written).readSectors (List.replicate (Sector.readSize raw * chunk) 0) raw
      sector chunk cursors = read := Drive.readSectors_of_room (by rw [List.length_replicate])
  rw [copyFrom, dif_pos hmore]
  dsimp only
  rw [hread]
  rcases read with ⟨e | ⟨⟩, bytes, after⟩
  · refine ⟨fun e' he => ?_, fun hok => ?_⟩
    · cases he
      rfl
    · cases hok
  · refine ⟨fun e he => ?_, fun _ => rfl⟩
    cases he

/-- A copy goes on as long as the sectors of a chunk can be read. -/
theorem copyFrom_goes_on (drive : Array UInt8 → Drive) (hmore : 0 < count)
    (hearly : sector + count ≤ RedBook.maxSector)
    (h : ∀ i < min count chunkSize, ∃ bytes, (drive written).Gives raw (sector + i) bytes)
    (cursors : Cursors) :
    ∃ (bytes : List UInt8) (after : Cursors),
      bytes.length = Sector.readSize raw * min count chunkSize ∧
      copyFrom drive raw sector count written cursors =
        copyFrom drive raw (sector + min count chunkSize) (count - min count chunkSize)
          (written ++ bytes.toArray) after := by
  have hroom : Sector.readSize raw * min count chunkSize ≤
      (List.replicate (Sector.readSize raw * min count chunkSize) (0 : UInt8)).length :=
    Nat.le_of_eq List.length_replicate.symm
  obtain ⟨-, hnext⟩ := copyFrom_chunk drive raw sector hmore written cursors
  obtain ⟨hsize, -⟩ := (drive written).readSlots_cases raw _ sector hroom cursors
  rw [List.length_replicate] at hsize
  exact ⟨_, _, hsize, hnext (Drive.readSlots_ok hroom (by omega) h cursors)⟩

/-- **A copy that succeeds** holds every sector as it is read alone, from the drive as it is when the
chunks before have been written. -/
theorem copyFrom_ok (drive : Array UInt8 → Drive)
    (h : (copyFrom drive raw sector count written cursors).2 = none) :
    ∃ bytes : List UInt8,
      (copyFrom drive raw sector count written cursors).1 = written ++ bytes.toArray ∧
      bytes.length = Sector.readSize raw * count ∧
      ∀ i < count, (drive (written ++ (chunksBefore raw i bytes).toArray)).Gives raw (sector + i)
        (Sector.slot raw i bytes) := by
  induction count using Nat.strongRecOn generalizing sector written cursors with
  | ind count ih =>
      rcases Nat.eq_zero_or_pos count with rfl | hmore
      · exact ⟨[], by simp, by simp, nofun⟩
      · obtain ⟨hfailed, hnext⟩ := copyFrom_chunk drive raw sector hmore written cursors
        obtain ⟨hsize, hcases⟩ := (drive written).readSlots_cases raw
          (List.replicate (Sector.readSize raw * min count chunkSize) 0) sector
          (Nat.le_of_eq List.length_replicate.symm) cursors
        rw [List.length_replicate] at hsize
        rcases hcases with ⟨hok, hfilled, -⟩ | ⟨k, -, e, herror, -⟩
        · specialize hnext hok
          rw [hnext] at h ⊢
          generalize (drive written).readSlots raw _ sector cursors _ = read at hsize hfilled h
          obtain ⟨rest, hcopied, hlength, hrest⟩ := ih (count - min count chunkSize)
            (by simp only [chunkSize]; omega) h
          refine ⟨read.2.1 ++ rest, ?_, ?_, fun i hi => ?_⟩
          · rw [hcopied, ← List.append_toArray, Array.append_assoc]
          · rw [List.length_append, hsize, hlength, ← Nat.mul_add,
              Nat.add_sub_cancel' (Nat.min_le_left _ _)]
          · by_cases hfirst : i < min count chunkSize
            · -- nothing has been written when the first chunk is read
              rw [chunksBefore_first (by omega), Sector.slot_append_left]
              · simpa using hfilled i hfirst
              · rw [hsize]
                exact Nat.mul_le_mul_left _ hfirst
            · have hchunk : min count chunkSize = chunkSize := by omega
              obtain ⟨j, rfl⟩ := Nat.exists_eq_add_of_le (show chunkSize ≤ i by omega)
              rw [hchunk] at hsize hrest
              rw [chunksBefore_next hsize, Sector.slot_append_right hsize, ← Nat.add_assoc,
                ← List.append_toArray, ← Array.append_assoc]
              exact hrest j (by omega)
        · rw [hfailed e herror] at h
          cases h

variable {storage : Storage} {input output : String} {force : Bool} {drive : Drive} {d : Deck}
  {loc : Location} {start : Nat} {limit : Option Nat} {outcome : Outcome}

/-- What a copy leaves when nothing stands in its way. -/
theorem copySectors_of_open (hallowed : checkOutput storage output force = .ok ())
    (hopen : openImage storage input .detached = .ok (drive, d))
    (htarget : storage.target output = .ok loc) :
    let total := limit.getD (drive.disc.leadOut?.elim 0 (·.start) - start)
    let copied := copyFrom (driveAfter drive storage loc) raw start total #[] d.cursors
    copySectors storage input output start limit force raw =
      .ok (copied.2.elim { written := some ⟨output, copied.1⟩ } fun f =>
        { Outcome.failed f with written := some ⟨output, copied.1⟩ }) := by
  intro total copied
  rw [copySectors, hallowed, hopen, htarget]
  rfl

/-- A copy that leaves anything has found its image and its output. -/
theorem copySectors_opened
    (h : copySectors storage input output start limit force raw = .ok outcome) :
    checkOutput storage output force = .ok () ∧
    ∃ drive d loc, openImage storage input .detached = .ok (drive, d) ∧
      storage.target output = .ok loc := by
  unfold copySectors at h
  cases hallowed : checkOutput storage output force with
  | error e =>
      rw [hallowed] at h
      cases h
  | ok =>
      cases hopen : openImage storage input .detached with
      | error e =>
          rw [hallowed, hopen] at h
          cases h
      | ok opened =>
          cases htarget : storage.target output with
          | error fault =>
              rw [hallowed, hopen, htarget] at h
              cases h
          | ok loc => exact ⟨rfl, opened.1, opened.2, loc, rfl, rfl⟩

/-- **What a copy that succeeds has written.** -/
theorem copySectors_ok
    (h : copySectors storage input output start limit force raw = .ok outcome)
    (hexit : outcome.exitCode = 0) :
    ∃ (drive : Drive) (d : Deck) (loc : Location) (bytes : List UInt8),
      openImage storage input .detached = .ok (drive, d) ∧ storage.target output = .ok loc ∧
      outcome.written = some ⟨output, bytes.toArray⟩ ∧
      let total := limit.getD (drive.disc.leadOut?.elim 0 (·.start) - start)
      bytes.length = Sector.readSize raw * total ∧
      (∀ i < total,
        (driveAfter drive storage loc (chunksBefore raw i bytes).toArray).Gives raw (start + i)
          (Sector.slot raw i bytes)) ∧
      (drive.uses storage loc = false →
        ∀ i < total, drive.Gives raw (start + i) (Sector.slot raw i bytes)) := by
  obtain ⟨hallowed, drive, d, loc, hopen, htarget⟩ := copySectors_opened h
  rw [copySectors_of_open hallowed hopen htarget] at h
  generalize htotal : limit.getD (drive.disc.leadOut?.elim 0 (·.start) - start) = total at h
  generalize hcopied : copyFrom (driveAfter drive storage loc) raw start total #[] d.cursors =
    copied at h
  obtain ⟨file, failure⟩ := copied
  cases failure with
  | some f =>
      cases h
      cases hexit
  | none =>
      obtain ⟨bytes, hfile, hlength, hgives⟩ :=
        copyFrom_ok (driveAfter drive storage loc) (congrArg Prod.snd hcopied)
      rw [hcopied, Array.empty_append] at hfile
      obtain rfl : file = bytes.toArray := hfile
      simp only [Array.empty_append] at hgives
      refine ⟨drive, d, loc, bytes, hopen, htarget, ?_, ?_⟩
      · cases h
        rfl
      · rw [htotal]
        refine ⟨hlength, hgives, fun hapart i hi => ?_⟩
        have hsame := hgives i hi
        rwa [driveAfter, if_neg (by simp [hapart])] at hsame

/-- **Sectors are read one after another**, however the reads are divided. Reading `a + b` sectors is
reading `a` of them into the front of the buffer and, if this succeeds, `b` into its rest. It fills
every slot as a read of its sector alone does; or it ends with the failure of the first sector that
fails, the slots before it filled and everything behind its own slot left as it was. So a copy that
succeeds, which reads a chunk at a time, has written each sector as it is read alone. If the output is
a file of the image, this is the sector as it was when the chunks before had been written. -/
theorem sectors_one_by_one (drive : Drive) (raw : Bool) (buffer : List UInt8) (sector : Nat)
    {a b : Nat} (hfit : sector + a + b ≤ RedBook.maxSector)
    (hroom : Sector.readSize raw * (a + b) ≤ buffer.length) (cursors : Cursors) :
    let size := Sector.readSize raw
    let whole := drive.readSectors buffer raw sector (a + b) cursors
    let front := drive.readSectors (buffer.take (size * a)) raw sector a cursors
    (∀ e, front.1 = .error e →
      whole.1 = .error e ∧ whole.2.1 = front.2.1 ++ buffer.drop (size * a)) ∧
    (front.1 = .ok () → ∀ cursors',
      let back := drive.readSectors (buffer.drop (size * a)) raw (sector + a) b cursors'
      whole.1 = back.1 ∧ whole.2.1 = front.2.1 ++ back.2.1) ∧
    whole.2.1.length = buffer.length ∧
    ((whole.1 = .ok () ∧
        (∀ i < a + b, drive.Gives raw (sector + i) (Sector.slot raw i whole.2.1)) ∧
        whole.2.1.drop (size * (a + b)) = buffer.drop (size * (a + b))) ∨
      ∃ k < a + b, ∃ e, whole.1 = .error e ∧ drive.Fails raw (sector + k) e ∧
        (∀ i < k, drive.Gives raw (sector + i) (Sector.slot raw i whole.2.1)) ∧
        whole.2.1.drop (size * (k + 1)) = buffer.drop (size * (k + 1))) ∧
    ∀ storage input output start limit force outcome,
      copySectors storage input output start limit force raw = .ok outcome →
      outcome.exitCode = 0 →
      ∃ (image : Drive) (d : Deck) (loc : Location) (bytes : List UInt8),
        openImage storage input .detached = .ok (image, d) ∧ storage.target output = .ok loc ∧
        outcome.written = some ⟨output, bytes.toArray⟩ ∧
        let total := limit.getD (image.disc.leadOut?.elim 0 (·.start) - start)
        bytes.length = size * total ∧
        (∀ i < total,
          (driveAfter image storage loc (chunksBefore raw i bytes).toArray).Gives raw (start + i)
            (Sector.slot raw i bytes)) ∧
        (image.uses storage loc = false →
          ∀ i < total, image.Gives raw (start + i) (Sector.slot raw i bytes)) := by
  intro size whole front
  obtain ⟨herror, hok⟩ := drive.readSectors_add sector hroom cursors
  obtain ⟨hlength, hcases⟩ := drive.readSlots_cases raw buffer sector hroom cursors
  rw [← Drive.readSectors_of_room hroom] at hlength hcases
  refine ⟨herror, hok, hlength, ?_,
    fun storage input output start limit force outcome h => copySectors_ok h⟩
  rcases hcases with hall | ⟨k, hk, e, hresult, hfails, hfilled, hbehind⟩
  · exact Or.inl hall
  · exact Or.inr ⟨k, hk, e, hresult, hfails (by omega), hfilled, hbehind⟩

/-- Of the sheet of one file, the last sector cannot be read. A copy of the three before it succeeds, and
a read that goes on to the last one leaves what is behind alone. -/
theorem sectors_one_by_one_oneFile : ∃ drive d outcome bytes,
    openImage Sheet.oneFileStorage "s" .detached = .ok (drive, d) ∧
    copySectors Sheet.oneFileStorage "s" "o" 0 (some 3) false true = .ok outcome ∧
    outcome.written = some ⟨"o", bytes.toArray⟩ ∧
    (∀ i < 3, drive.Gives true i (Sector.slot true i bytes)) ∧
    ∃ e, drive.Fails true 3 e ∧
      let read := drive.readSectors (List.replicate 4705 7) true 2 (1 + 1) .none
      read.1 = .error e ∧ drive.Gives true 2 (Sector.slot true 0 read.2.1) ∧
        read.2.1.drop 4704 = [7] := by
  have hcopied : (copySectors Sheet.oneFileStorage "s" "o" 0 (some 3) false true).toOption.map
      (·.exitCode) = some 0 := by decide +kernel
  have hfacts : (openImage Sheet.oneFileStorage "s" .detached).toOption.map (fun r =>
      ((Sheet.oneFileStorage.target "o").toOption.map (r.1.uses Sheet.oneFileStorage),
        (r.1.readSectors (List.replicate 4705 7) true 2 (1 + 1) .none).1.toOption,
        (r.1.readSector (List.replicate 2352 7) true 2 .none).1.toOption)) =
      some (some false, none, some ()) := by decide +kernel
  obtain ⟨outcome, houtcome, hexit⟩ := Option.map_eq_some_iff.mp hcopied
  obtain ⟨⟨drive, d⟩, hopen, hfacts⟩ := Option.map_eq_some_iff.mp hfacts
  simp only [Prod.mk.injEq] at hfacts
  obtain ⟨huses, hread, hsecond⟩ := hfacts
  rw [toOption_eq_some_iff] at houtcome hopen hsecond
  obtain ⟨-, -, -, hcases, hcopy⟩ := sectors_one_by_one drive true
    (List.replicate 4705 7) 2 (a := 1) (b := 1) (by decide)
    (by rw [List.length_replicate]; decide) .none
  obtain ⟨image, d', loc, bytes, hopen', htarget, hwritten, -, -, hgives⟩ :=
    hcopy _ _ _ _ _ _ _ houtcome hexit
  cases hopen.symm.trans hopen'
  rw [htarget] at huses
  refine ⟨drive, d, outcome, bytes, hopen, houtcome, hwritten, ?_, ?_⟩
  · simpa using hgives (Option.some.inj huses)
  · rcases hcases with ⟨hok, -⟩ | ⟨k, hk, e, herror, hfails, hfilled, hbehind⟩
    · rw [hok] at hread
      cases hread
    · -- the first of the two sectors can be read
      have hone : k = 1 := by
        have hzero : k ≠ 0 := by
          rintro rfl
          have hfirst := hfails (List.replicate 2352 7) .none List.length_replicate
          cases hfirst.symm.trans hsecond
        omega
      subst hone
      refine ⟨e, hfails, herror, hfilled 0 Nat.one_pos, ?_⟩
      rw [List.drop_replicate] at hbehind
      exact hbehind

/-! ### A copy over its own image -/

/-- A sheet whose second track has a gap of a second ahead of its one sector. -/
def gappedSheet : Contents :=
  .ofArray (Text.ascii
    "FILE a BINARY\nTRACK 1 AUDIO\nINDEX 1 0:0:0\nTRACK 2 AUDIO\nPREGAP 0:1:0\nINDEX 1 0:0:1").toArray

def gappedStorage : Storage where
  entries := [(⟨false, ["s"]⟩, .file gappedSheet), (⟨false, ["a"]⟩, .file (.filled 4704 1))]

/-- What the sheet describes: the gap, and the sector behind it in a file that the image uses. -/
theorem openImage_gapped : ∃ drive d t u out s,
    openImage gappedStorage "s" .detached = .ok (drive, d) ∧
    drive.uses gappedStorage ⟨false, ["a"]⟩ = true ∧ drive.Gives true 76 (List.replicate 2352 1) ∧
    drive.disc.tracks = [t, u, out] ∧ (t.start = 0 ∧ t.length = 1) ∧
    (u.start = 76 ∧ u.length = 1 ∧ u.skip = 2352 ∧ u.sectorSize = 2352) ∧ out.start = 77 ∧
    u.source = some s ∧ s.path = "a" ∧ s.format = .binary 4704 := by
  have hplaces : (openImage gappedStorage "s" .detached).toOption.map (fun r =>
      r.1.disc.tracks.map fun t => (t.start, t.length, t.skip, t.sectorSize)) =
      some [(0, 1, 0, 2352), (76, 1, 2352, 2352), (77, 0, 0, 2352)] := by
    decide +kernel
  have hsources : (openImage gappedStorage "s" .detached).toOption.map (fun r =>
      r.1.disc.tracks.map fun t => t.source.map fun s => (s.path, s.format)) =
      some [some ("a", .binary 4704), some ("a", .binary 4704), none] := by
    decide +kernel
  have hread : (openImage gappedStorage "s" .detached).toOption.map (fun r =>
      (r.1.uses gappedStorage ⟨false, ["a"]⟩, (r.1.sector true 76 .none).1.toOption)) =
      some (true, some (List.replicate 2352 1)) := by
    decide +kernel
  obtain ⟨⟨drive, d⟩, hopen, hplaces⟩ := Option.map_eq_some_iff.mp hplaces
  rw [hopen, Option.map_some] at hsources hread
  rw [toOption_eq_some_iff] at hopen
  simp only [List.map_eq_cons_iff, List.map_eq_nil_iff, Prod.mk.injEq] at hplaces
  obtain ⟨t, _, htracks, ⟨ht, htl, -⟩, u, _, rfl, ⟨hu, hul, hus, husize⟩, out, _, rfl, ⟨hout, -⟩,
    rfl⟩ := hplaces
  simp only [htracks, List.map_cons, List.map_nil, Option.some.injEq, List.cons.injEq, and_true,
    Option.map_eq_some_iff, Prod.mk.injEq] at hsources
  obtain ⟨-, ⟨s, hs, hpath, hformat⟩, -⟩ := hsources
  simp only [Option.some.injEq, Prod.mk.injEq, toOption_eq_some_iff] at hread
  exact ⟨drive, d, t, u, out, s, hopen, hread.1, Drive.gives_of_sector hread.2, htracks, ⟨ht, htl⟩,
    ⟨hu, hul, hus, husize⟩, hout, hs, hpath, hformat⟩

/-- How the drive reads once the file has been written to: the gap is silent, and the sector behind it
is a part of what has been written. -/
def ReadsWritten (drive : Drive) : Prop :=
  ∀ written : Array UInt8,
    let now := driveAfter drive gappedStorage ⟨false, ["a"]⟩ written
    (∀ i, 1 ≤ i → i < 76 → now.Gives true i (List.replicate 2352 0)) ∧
    (4704 ≤ written.size → now.Gives true 76 ((Contents.ofArray written).read 2352 2352))

theorem readsWritten_gapped : ∃ drive d,
    openImage gappedStorage "s" .detached = .ok (drive, d) ∧
    drive.Gives true 76 (List.replicate 2352 1) ∧ ReadsWritten drive := by
  obtain ⟨drive, d, t, u, out, s, hopen, huses, hones, htracks, ht,
    ⟨hstart, hlength, hskip, hsize⟩, hout, hs, hpath, hformat⟩ := openImage_gapped
  refine ⟨drive, d, hopen, hones, fun written => ?_⟩
  intro now
  let storage := gappedStorage.insert ⟨false, ["a"]⟩ (.file (.ofArray written))
  let file : Source := { s with contents := some (.ofArray written) }
  let track : Track := { u with source := some file }
  have hnow : now = drive.refresh storage := if_pos huses
  have hfile : s.refresh storage = file := by
    have hget : storage.get s.path = .ok (.file (.ofArray written)) := by
      rw [hpath]
      rfl
    rw [Source.refresh, hget]
  have hdisc : now.disc.tracks = [{ t with source := t.source.map (·.refresh storage) }, track,
      { out with source := out.source.map (·.refresh storage) }] := by
    rw [hnow]
    change drive.disc.tracks.map _ = _
    rw [htracks]
    simp only [List.map_cons, List.map_nil, hs, Option.map_some, hfile, track]
  have howner : ∀ i, 1 ≤ i → i < 77 → now.disc.track? i = some track := by
    intro i hfirst hlast
    have hinside : ¬ (RedBook.lastSector < i ∨ 3 < RedBook.minEntries ∨ 77 ≤ i) := by
      simp only [RedBook.lastSector, RedBook.minEntries]
      omega
    simp only [Disc.track?, Disc.leadOut?, hdisc, List.getLast?_cons_cons, List.getLast?_singleton,
      List.length_cons, List.length_nil, hout]
    rw [if_neg hinside]
    simp only [Disc.search, Track.endSector, track, ht, hstart, hlength]
    rw [if_neg (by omega), if_pos (by omega)]
  refine ⟨fun i hfirst hgap => ?_, fun hlong => ?_⟩
  · have hsector : (now.sector true i .none).1 = .ok (List.replicate 2352 0) := by
      rw [Drive.sector_of_owner true .none (howner i hfirst (by omega)) rfl,
        if_neg (by simp [track, hsize]), if_pos (by simpa [track, hstart] using hgap)]
      rfl
    exact Drive.gives_of_sector hsector
  · have hread : ∀ cursor, (file.read 2352 2352 cursor).1 =
        .ok ((Contents.ofArray written).read 2352 2352) :=
      Source.read_inside hformat rfl hlong
    have hplace : track.byteOf true 76 = 2352 := by
      simp [Track.byteOf, track, hstart, hskip]
    have hsector : (now.sector true 76 .none).1 =
        .ok ((Contents.ofArray written).read 2352 2352) := by
      rw [Drive.sector_of_owner true .none (howner 76 (by decide) (by decide)) rfl,
        if_neg (by simp [track, hsize]), if_neg (by simp [track, hstart]), hplace]
      exact congrArg (Except.mapError _) (hread _)
    exact Drive.gives_of_sector hsector

/-- The gap fills the first chunk, and the sector behind it is read from what has been written. -/
theorem copyFrom_gapped {drive : Drive} (h : ReadsWritten drive) (cursors : Cursors) :
    (copyFrom (driveAfter drive gappedStorage ⟨false, ["a"]⟩) true 12 65 #[] cursors).2 = none := by
  have hgap : ∀ i < min 65 chunkSize, ∃ bytes,
      (driveAfter drive gappedStorage ⟨false, ["a"]⟩ #[]).Gives true (12 + i) bytes := by
    intro i hi
    have hin : i < 64 := hi
    exact ⟨_, (h #[]).1 (12 + i) (by omega) (by omega)⟩
  obtain ⟨bytes, after, hlength, hfirst⟩ := copyFrom_goes_on _ (by decide) (by decide) hgap cursors
  have hsize : 4704 ≤ (#[] ++ bytes.toArray).size := by
    rw [Array.empty_append, List.size_toArray, hlength]
    decide
  have hbehind : ∀ i < min 1 chunkSize, ∃ last,
      (driveAfter drive gappedStorage ⟨false, ["a"]⟩ (#[] ++ bytes.toArray)).Gives true (76 + i)
        last := by
    intro i hi
    obtain rfl : i = 0 := Nat.lt_one_iff.mp hi
    exact ⟨_, (h _).2 hsize⟩
  obtain ⟨last, after', -, hsecond⟩ := copyFrom_goes_on _ (by decide) (by decide) hbehind after
  rw [hfirst]
  change (copyFrom _ true 76 1 _ after).2 = none
  rw [hsecond]
  exact congrArg Prod.snd (copyFrom_zero _ _ _ _ _)

/-- **A copy over its own image** succeeds, and yet holds zeros where the image had other bytes: what
is behind the gap is read from the zeros that have been written of the gap. -/
theorem copySectors_ownFile : ∃ drive d outcome bytes,
    openImage gappedStorage "s" .detached = .ok (drive, d) ∧
    copySectors gappedStorage "s" "a" 12 (some 65) true true = .ok outcome ∧
    outcome.exitCode = 0 ∧ outcome.written = some ⟨"a", bytes.toArray⟩ ∧
    drive.Gives true (12 + 64) (List.replicate 2352 1) ∧
    Sector.slot true 64 bytes = List.replicate 2352 0 ∧
    ¬ ∀ i < 65, drive.Gives true (12 + i) (Sector.slot true i bytes) := by
  obtain ⟨drive, d, hopen, hones, hgives⟩ := readsWritten_gapped
  have htarget : gappedStorage.target "a" = .ok ⟨false, ["a"]⟩ := rfl
  obtain ⟨outcome, hcopied, hexit⟩ : ∃ outcome,
      copySectors gappedStorage "s" "a" 12 (some 65) true true = .ok outcome ∧
        outcome.exitCode = 0 := by
    rw [copySectors_of_open (checkOutput_forced _ _) hopen htarget]
    simp only [Option.getD_some, copyFrom_gapped hgives, Option.elim_none]
    exact ⟨_, rfl, rfl⟩
  obtain ⟨drive', d', loc, bytes, hopen', htarget', hwritten, hlength, heach, -⟩ :=
    copySectors_ok hcopied hexit
  cases hopen.symm.trans hopen'
  cases htarget.symm.trans htarget'
  simp only [Option.getD_some] at hlength heach
  change bytes.length = 2352 * 65 at hlength
  have hchunk : chunksBefore true 64 bytes = bytes.take (2352 * 64) := rfl
  have hlong : 4704 ≤ (bytes.take (2352 * 64)).toArray.size := by
    rw [List.size_toArray, List.length_take, hlength]
    decide
  have hsilent : Sector.slot true 1 bytes = List.replicate 2352 0 :=
    (heach 1 (by decide)).eq ((hgives _).1 13 (by decide) (by decide))
  have hlast : Sector.slot true 64 bytes = List.replicate 2352 0 := by
    have hbehind := heach 64 (by decide)
    rw [hchunk] at hbehind
    rw [hbehind.eq ((hgives _).2 hlong), Contents.read_ofArray, List.drop_take, List.take_take]
    exact hsilent
  refine ⟨drive, d, outcome, bytes, hopen, hcopied, hexit, hwritten, hones, hlast, fun hsame => ?_⟩
  have hdiffer := (hsame 64 (by decide)).eq hones
  rw [hlast] at hdiffer
  cases List.head_eq_of_cons_eq hdiffer

end Command

end CompactDisc
