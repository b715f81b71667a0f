import CompactDisc.Proofs.Disc.Reported
import CompactDisc.Proofs.Drive.Sectors

/-!
# CompactDisc.Proofs.Disc.Image

**A bare image is read as it was recognised.** How its sectors are stored is found out by looking for a
descriptor, which computes a place in the file from the form alone; a sector is read by way of the track
that was made of the form. Both come to the same place (`Form.userData`), so sector 16 of a disc from an
image holds the descriptor that the image was taken for (`readSector_of_load`).

Where the file ends early, zeros are looked at in place of what is missing. They are of no use as a
descriptor, and sectors are counted whole, so nothing of them is ever read.
-/

namespace CompactDisc

/-- What is available of a file of sectors is what the file has. -/
theorem Source.readAvailable_binary {s : Source} {size offset : Nat} {contents : Contents}
    (hformat : s.format = .binary size) (hcontents : s.contents = some contents)
    (hoffset : offset ≤ maxFileSize) (length cursor : Nat) :
    (s.readAvailable offset length cursor).1 = .ok (contents.read offset length) := by
  have hposition : offset ≤ s.lastPosition := by
    rw [lastPosition, hcontents]
    exact Nat.le_trans hoffset (Nat.le_max_left _ _)
  have hseek : s.seek offset cursor = (.ok (), offset) := by
    rw [seek, hformat]
    exact if_pos hposition
  rw [readAvailable, hseek]
  simp [bytesAt, hcontents]

namespace Volume

/-! ### Descriptors -/

/-- The bytes begin with a primary descriptor: type, identifier and version, which in High Sierra come
behind the number of a block. -/
def Opens (data : List UInt8) : Prop :=
  [1, 0x43, 0x44, 0x30, 0x30, 0x31, 1] <+: data ∨
    ∃ block : List UInt8, block.length = 8 ∧ block ++ [1, 0x43, 0x44, 0x52, 0x4F, 0x4D, 1] <+: data

theorem isPrimary_iff {data : List UInt8} : isPrimary data = true ↔ Opens data := by
  have hiso : primaryMark "CD001" = [1, 0x43, 0x44, 0x30, 0x30, 0x31, 1] := by decide
  have hsierra : primaryMark "CDROM" = [1, 0x43, 0x44, 0x52, 0x4F, 0x4D, 1] := by decide
  rw [isPrimary, hiso, hsierra, Bool.or_eq_true, beq_iff_eq, beq_iff_eq]
  refine or_congr ?_ ?_
  · rw [List.prefix_iff_eq_take]
    exact eq_comm
  · constructor
    · intro h
      refine ⟨data.take 8, ?_, ?_⟩
      · -- bytes that are followed by a mark are eight
        have hlength := congrArg List.length h
        simp only [List.length_take, List.length_drop, List.length_cons, List.length_nil] at hlength
        rw [List.length_take]
        omega
      · rw [← h, ← List.take_add]
        exact List.take_prefix _ _
    · intro ⟨block, hblock, rest, hdata⟩
      rw [← hdata, List.append_assoc, List.drop_left' hblock]
      rfl

namespace Form

/-- The byte at which the user data of a sector begins. -/
def userData (form : Form) (sector : Nat) : Nat :=
  sector * form.sectorSize + Sector.userDataOffset form.sectorSize form.mode2

/-- What a form takes for the descriptor of a file: the user data of sector 16, with zeros behind the end
of the file. -/
def shown (form : Form) (contents : Contents) : List UInt8 :=
  let found := contents.read (form.userData 16) 2048
  found ++ List.replicate (2048 - found.length) 0

variable {form : Form}

/-- The user data of a sector lies in the sector. -/
theorem fits (h : form ∈ forms) :
    Sector.userDataOffset form.sectorSize form.mode2 + 2048 ≤ form.sectorSize := by
  revert form
  decide

/-- The user data of the sectors that are counted lies in the file. -/
theorem userData_le (h : form ∈ forms) {size sector : Nat} (hs : sector < size / form.sectorSize) :
    form.userData sector + 2048 ≤ size := by
  have hfits := fits h
  have hpos : 0 < form.sectorSize := by omega
  have hwhole : (sector + 1) * form.sectorSize ≤ size := (Nat.le_div_iff_mul_le hpos).mp hs
  rw [Nat.succ_mul] at hwhole
  unfold userData
  omega

/-- Inside the file nothing is filled up. -/
theorem shown_of_inside {contents : Contents} (h : form.userData 16 + 2048 ≤ contents.size) :
    form.shown contents = contents.read (form.userData 16) 2048 := by
  have hlength : (contents.read (form.userData 16) 2048).length = 2048 := by
    rw [Contents.length_read]
    omega
  simp [shown, hlength]

/-- Every form puts the descriptor where a file can still have bytes. -/
theorem descriptorOffset_le (h : form ∈ forms) : form.descriptorOffset ≤ Source.maxFileSize := by
  revert form
  decide

end Form

/-! ### Recognising an image -/

section

variable {source : Source} {contents : Contents} {size : Nat}

theorem shows_of_file (hformat : source.format = .binary size)
    (hcontents : source.contents = some contents) {form : Form} (h : form ∈ forms)
    (cursors : Cursors) : (shows cursors source form).1 = isPrimary (form.shown contents) := by
  have hread := Source.readAvailable_binary hformat hcontents (Form.descriptorOffset_le h)
    RedBook.cookedSectorSize (cursors.get source.id)
  unfold shows Cursors.use
  dsimp only
  rw [hread]
  rfl

/-- The first form that shows a descriptor is found. Looking moves cursors, but none is ever relied on. -/
theorem detect_of_file (hformat : source.format = .binary size)
    (hcontents : source.contents = some contents) {tried : List Form} (h : tried ⊆ forms)
    (cursors : Cursors) :
    (detect cursors source tried).1 = tried.find? fun form => isPrimary (form.shown contents) := by
  induction tried generalizing cursors with
  | nil => rfl
  | cons form rest ih =>
      have hshows := shows_of_file hformat hcontents (h List.mem_cons_self) cursors
      rw [detect, List.find?_cons, ← hshows]
      rcases shows cursors source form with ⟨shown, moved⟩
      cases shown with
      | true => rfl
      | false => exact ih (List.subset_of_cons_subset h) moved

end

variable {storage : Storage} {path : String} {contents : Contents}

/-- A file is taken to be in a form: it shows a descriptor, and no form that is tried before does. -/
def Recognised (contents : Contents) (form : Form) : Prop :=
  ∃ before after,
    [⟨2048, false⟩, ⟨2352, false⟩, ⟨2336, true⟩, ⟨2352, true⟩] = before ++ form :: after ∧
    Opens (form.shown contents) ∧ ∀ earlier ∈ before, ¬ Opens (earlier.shown contents)

theorem Recognised.opens {form : Form} (h : Recognised contents form) :
    Opens (form.shown contents) := by
  obtain ⟨before, after, -, hopens, -⟩ := h
  exact hopens

theorem Recognised.mem {form : Form} (h : Recognised contents form) : form ∈ forms := by
  obtain ⟨before, after, hforms, -⟩ := h
  change forms = _ at hforms
  simp [hforms]

/-- What becomes of an image depends on the file alone. -/
theorem load_of_file (hget : storage.get path = .ok (.file contents)) (cursors : Cursors) :
    ((∀ form ∈ forms, ¬ Opens (form.shown contents)) ∧
      load storage path cursors = .error (.noDescriptor path)) ∨
    (∃ form, Recognised contents form ∧ load storage path cursors = .error (.tooLarge path)) ∨
    ∃ form opened, Recognised contents form ∧
      load storage path cursors = .ok (disc ⟨cursors.positions.length, path, some contents,
        .binary contents.size⟩ form (contents.size / form.sectorSize), opened) := by
  generalize hsource : Source.mk cursors.positions.length path (some contents)
    (.binary contents.size) = source
  have hopen : cursors.openSource storage path .binary =
      .ok (source, ⟨cursors.positions ++ [0]⟩) := by
    rw [Cursors.openSource_ok_iff, ← hsource]
    exact ⟨Source.openAs_sectors hget _, rfl⟩
  have hdetect : (detect ⟨cursors.positions ++ [0]⟩ source forms).1 =
      forms.find? fun form => isPrimary (form.shown contents) := by
    subst hsource
    exact detect_of_file rfl rfl (List.Subset.refl forms) _
  rw [load, hopen]
  dsimp only
  generalize detect ⟨cursors.positions ++ [0]⟩ source forms = answer at hdetect ⊢
  obtain ⟨found, moved⟩ := answer
  cases found with
  | none =>
      refine Or.inl ⟨fun form hform => ?_, rfl⟩
      have hnone := List.find?_eq_none.mp hdetect.symm form hform
      rwa [isPrimary_iff] at hnone
  | some form =>
      obtain ⟨hshown, before, after, hforms, hbefore⟩ :=
        List.find?_eq_some_iff_append.mp hdetect.symm
      have hform : Recognised contents form := by
        refine ⟨before, after, hforms, isPrimary_iff.mp hshown, fun earlier hearlier hopens => ?_⟩
        simpa [isPrimary_iff.mpr hopens] using hbefore earlier hearlier
      dsimp only
      by_cases hlength : source.length.getD 0 / form.sectorSize ≤ RedBook.maxSector
      · rw [if_pos hlength]
        refine Or.inr (Or.inr ⟨form, moved, hform, ?_⟩)
        subst hsource
        rfl
      · rw [if_neg hlength]
        exact Or.inr (Or.inl ⟨form, hform, rfl⟩)

/-- Looking again does not change the disc of an image whose file is as it was. -/
theorem refresh_disc {now : Storage} {source : Source} {id : Nat} (form : Form) (length : Nat)
    (hopen : Source.openAs storage path .binary id = .ok source)
    (hnow : now.get path = storage.get path) :
    (disc source form length).refresh now = disc source form length := by
  simp [disc, Disc.refresh, Source.refresh_eq hopen hnow]

/-- The only track of an image. -/
def dataTrack (source : Source) (form : Form) (length : Nat) : Track :=
  { number := 1, attr := 0x40, start := 0, length, skip := 0, sectorSize := form.sectorSize,
    mode2 := form.mode2, source := some source }

/-- The user data of a sector lies where the form alone would put it. -/
theorem byteOf_dataTrack (source : Source) (form : Form) (length sector : Nat) :
    (dataTrack source form length).byteOf false sector = form.userData sector := by
  simp [Track.byteOf, Form.userData, Sector.userDataOffset, dataTrack, RedBook.rawSectorSize]
  rfl

/-- The track owns all sectors that have an address. -/
theorem track?_disc (source : Source) (form : Form) {length sector : Nat} (hsector : sector < length)
    (haddress : sector < 400000) :
    (disc source form length).track? sector = some (dataTrack source form length) := by
  have howns : (disc source form length).OwnsAt 0 sector :=
    ⟨Nat.one_lt_two, Nat.zero_le _, by simpa [Disc.border, disc, Track.endSector]⟩
  rw [(closed_disc source form length).sequential.track?_of_ownsAt howns
    (Nat.le_of_lt_succ haddress)]
  rfl

/-- The sectors of an image that have an address are read where the form puts their user data. -/
theorem readSector_disc {drive : Drive} {source : Source} {form : Form} {sector : Nat}
    (hform : form ∈ forms) (hformat : source.format = .binary contents.size)
    (hcontents : source.contents = some contents)
    (hdrive : drive.disc = disc source form (contents.size / form.sectorSize))
    (hsector : sector < contents.size / form.sectorSize) (haddress : sector < 400000)
    {buffer : List UInt8} (hbuffer : 2048 ≤ buffer.length) (cursors : Cursors) :
    (drive.readSector buffer false sector cursors).1 = .ok () ∧
      (drive.readSector buffer false sector cursors).2.1 =
        contents.read (form.userData sector) 2048 ++ buffer.drop 2048 := by
  have howner := track?_disc source form hsector haddress
  rw [← hdrive] at howner
  obtain ⟨-, -, hread, -⟩ :=
    Drive.readSector_of_owner buffer false cursors howner rfl hcontents hformat hbuffer
  rw [byteOf_dataTrack] at hread
  exact hread (by simp) (Nat.zero_le _) (Form.userData_le hform hsector)

/-- **A bare image is read as it was recognised.** It is refused for want of a descriptor exactly if no
form shows one. A disc that is loaded is a data track of the whole sectors of the file, in the first form
that shows a descriptor, and the lead-out behind it. While the file stays as it is, every sector of the
track that has an address can be read: its user data is where the form puts it, and all of it is in the
file. Sector 16, if there is one, begins with a primary descriptor. -/
theorem readSector_of_load (hget : storage.get path = .ok (.file contents)) (cursors : Cursors) :
    (load storage path cursors = .error (.noDescriptor path) ↔
      ∀ form ∈ forms, ¬ Opens (form.shown contents)) ∧
    ∀ loaded opened, load storage path cursors = .ok (loaded, opened) → ∃ form source length,
      Recognised contents form ∧ length = contents.size / form.sectorSize ∧
      loaded = { tracks := [dataTrack source form length,
        { number := 2, attr := 0, start := length, length := 0 }] } ∧
      source.path = path ∧ source.contents = some contents ∧
      ∀ (now : Storage) (drive : Drive), now.get path = storage.get path →
        drive.disc = loaded.refresh now →
        (∀ (buffer : List UInt8) (sector : Nat) (cursors : Cursors), 2048 ≤ buffer.length →
          sector < length → sector < 400000 →
          (drive.readSector buffer false sector cursors).1 = .ok () ∧
          form.userData sector + 2048 ≤ contents.size ∧
          (drive.readSector buffer false sector cursors).2.1 =
            contents.read (form.userData sector) 2048 ++ buffer.drop 2048) ∧
        (16 < length → ∀ (buffer : List UInt8) (cursors : Cursors), 2048 ≤ buffer.length →
          isPrimary ((drive.readSector buffer false 16 cursors).2.1.take 2048) = true) := by
  rcases load_of_file hget cursors with ⟨hnone, hload⟩ | ⟨form, hform, hload⟩ |
    ⟨form, opened, hform, hload⟩
  · rw [hload]
    exact ⟨⟨fun _ => hnone, fun _ => rfl⟩, nofun⟩
  · rw [hload]
    refine ⟨⟨nofun, fun hnone => ?_⟩, nofun⟩
    exact absurd hform.opens (hnone form hform.mem)
  rw [hload]
  refine ⟨⟨nofun, fun hnone => absurd hform.opens (hnone form hform.mem)⟩,
    fun loaded opened' hloaded => ?_⟩
  cases hloaded
  refine ⟨form, _, _, hform, rfl, rfl, rfl, rfl, fun now drive hnow hdrive => ?_⟩
  rw [refresh_disc form _ (Source.openAs_sectors hget _) hnow] at hdrive
  refine ⟨fun buffer sector cursors hbuffer hsector haddress => ?_,
    fun hlong buffer cursors hbuffer => ?_⟩
  · obtain ⟨hok, hbytes⟩ :=
      readSector_disc hform.mem rfl rfl hdrive hsector haddress hbuffer cursors
    exact ⟨hok, Form.userData_le hform.mem hsector, hbytes⟩
  · obtain ⟨-, hbytes⟩ :=
      readSector_disc hform.mem rfl rfl hdrive hlong (by decide) hbuffer cursors
    have hinside := Form.userData_le hform.mem hlong
    have hlength : (contents.read (form.userData 16) 2048).length = 2048 := by
      rw [Contents.length_read]
      omega
    rw [hbytes, List.take_left' hlength, isPrimary_iff, ← Form.shown_of_inside hinside]
    exact hform.opens

/-- The image of 17 sectors can be read, and its last sector holds the descriptor. -/
theorem readSector_of_load_image :
    imageStorage.get "i" = .ok (.file shortImage) ∧
    ∃ loaded opened, load imageStorage "i" .none = .ok (loaded, opened) ∧
      ∀ cursors, isPrimary (((({ medium := ⟨0, loaded⟩ } : Drive).refresh imageStorage).readSector
        (List.replicate 2048 0) false 16 cursors).2.1.take 2048) = true := by
  have hget : imageStorage.get "i" = .ok (.file shortImage) := rfl
  have hsectors : (load imageStorage "i" .none).toOption.map
      (fun r => r.1.tracks.map Track.start) = some [0, 17] := by
    decide +kernel
  obtain ⟨⟨loaded, opened⟩, hload, hstarts⟩ := Option.map_eq_some_iff.mp hsectors
  rw [toOption_eq_some_iff] at hload
  obtain ⟨form, source, length, -, -, hdisc, -, -, hread⟩ :=
    (readSector_of_load hget .none).2 loaded opened hload
  have hlength : length = 17 := by
    simpa [hdisc, dataTrack] using hstarts
  refine ⟨hget, loaded, opened, hload, fun cursors => ?_⟩
  exact (hread imageStorage _ rfl rfl).2 (by omega) _ cursors (Nat.le_of_eq List.length_replicate.symm)

end Volume

end CompactDisc
