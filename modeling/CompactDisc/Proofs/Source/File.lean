import CompactDisc.Proofs.Layout.Entry
import CompactDisc.Source.Cursors

/-!
# CompactDisc.Proofs.Source.File

**Sources that are files of sectors.** What opening one finds (`Source.openAs_ok`), and the exact
bytes that reading gives while the file does not change: those of the file where they all lie inside
it, and a failure of the storage where one does not (`Source.read_inside`, `Source.read_past`).
-/

namespace CompactDisc

namespace Source

variable {storage : Storage} {path : String} {kind : Kind} {id : Nat} {s : Source}

/-- What is opened is what the path names, under the identity that was asked for. -/
theorem openAs_ok (h : openAs storage path kind id = .ok s) :
    s.id = id ∧ s.path = path ∧
      ((∃ contents, storage.get path = .ok (.file contents) ∧ s.contents = some contents ∧
          ∀ length, s.format = .binary length → length = contents.size) ∨
        storage.get path = .ok .directory ∧ s.contents = none) := by
  unfold openAs at h
  cases hget : storage.get path with
  | error fault =>
      rw [hget] at h
      cases h
  | ok node =>
      rw [hget] at h
      dsimp only at h
      split at h
      · cases h
      · rename_i format hformat
        cases h
        cases node with
        | directory => exact ⟨rfl, rfl, Or.inr ⟨rfl, rfl⟩⟩
        | file contents =>
            refine ⟨rfl, rfl, Or.inl ⟨contents, rfl, rfl, fun length hlength => ?_⟩⟩
            cases kind with
            | binary =>
                cases hformat
                cases hlength
                rfl
            | audio =>
                -- sound is never sectors
                change format = .binary length at hlength
                subst hlength
                dsimp only [formatOf] at hformat
                split at hformat <;> cases hformat

theorem id_openAs (h : openAs storage path kind id = .ok s) : s.id = id := (openAs_ok h).1

/-- What can be opened can be opened under every identity. -/
theorem openAs_renumber (h : openAs storage path kind id = .ok s) (id' : Nat) :
    openAs storage path kind id' = .ok { s with id := id' } := by
  unfold openAs at h ⊢
  cases hget : storage.get path with
  | error fault =>
      rw [hget] at h
      cases h
  | ok node =>
      rw [hget] at h
      dsimp only at h ⊢
      split at h
      · cases h
      · cases h
        rfl

/-- A file is opened as sectors, whatever is in it. -/
theorem openAs_sectors {contents : Contents} (hget : storage.get path = .ok (.file contents))
    (id : Nat) : openAs storage path .binary id =
      .ok { id, path, contents := some contents, format := .binary contents.size } := by
  rw [openAs, hget]
  rfl

/-- A file is opened as sound, if there are samples in it. -/
theorem openAs_sound {contents : Contents} {stream : Pcm.Stream}
    (hget : storage.get path = .ok (.file contents))
    (hfind : Pcm.Stream.find contents = .ok (some stream)) (id : Nat) :
    openAs storage path .audio id =
      .ok { id, path, contents := some contents, format := .stream stream } := by
  rw [openAs, hget]
  dsimp only [formatOf]
  rw [hfind]

/-- A file that is opened as sectors. -/
theorem openAs_binary {contents : Contents} (h : openAs storage path .binary id = .ok s)
    (hget : storage.get path = .ok (.file contents)) :
    (∃ length, s.format = .binary length) ∧ s.contents.isSome = true := by
  unfold openAs at h
  rw [hget] at h
  cases h
  exact ⟨⟨_, rfl⟩, rfl⟩

/-! ### Reading -/

variable {size : Nat} {contents : Contents} {offset length : Nat}

theorem read_binary (hformat : s.format = .binary size) (hcontents : s.contents = some contents)
    (offset length cursor : Nat) :
    (s.read offset length cursor).1 =
      if s.lastPosition < offset then .error (.storage .invalidPosition)
      else if (contents.read offset length).length < length then .error (.storage .unexpectedEnd)
      else .ok (contents.read offset length) := by
  unfold read seek bytesAt
  rw [hformat]
  dsimp only
  by_cases hseek : offset ≤ s.lastPosition
  · rw [if_pos hseek, if_neg (by omega)]
    dsimp only
    rw [if_neg (by simp [hcontents]), hcontents, Option.getD_some]
    split <;> rfl
  · rw [if_neg hseek, if_pos (by omega)]

/-- Bytes inside the file are read as they are. -/
theorem read_inside (hformat : s.format = .binary size) (hcontents : s.contents = some contents)
    (h : offset + length ≤ contents.size) (cursor : Nat) :
    (s.read offset length cursor).1 = .ok (contents.read offset length) := by
  -- seeking inside the file never fails, however large a file a cursor can address
  have hposition : offset ≤ s.lastPosition := by
    unfold lastPosition
    rw [hcontents]
    exact Nat.le_trans (by omega) (Nat.le_max_right _ _)
  have hlength : (contents.read offset length).length = length := by
    rw [Contents.length_read]
    omega
  rw [read_binary hformat hcontents, if_neg (by omega), if_neg (by omega)]

/-- Bytes past the end of the file cannot be read. -/
theorem read_past (hformat : s.format = .binary size) (hcontents : s.contents = some contents)
    (hpos : 0 < length) (h : contents.size < offset + length) (cursor : Nat) :
    ∃ fault, (s.read offset length cursor).1 = .error (.storage fault) := by
  have hlength : (contents.read offset length).length < length := by
    rw [Contents.length_read]
    omega
  rw [read_binary hformat hcontents, if_pos hlength]
  split
  · exact ⟨_, rfl⟩
  · exact ⟨_, rfl⟩

/-! ### Looking again -/

/-- A source whose file is as it was is not changed by looking again. -/
theorem refresh_eq {now : Storage} (h : openAs storage path kind id = .ok s)
    (hnow : now.get path = storage.get path) : s.refresh now = s := by
  obtain ⟨-, rfl, ⟨contents, hget, hcontents, -⟩ | ⟨hget, -⟩⟩ := openAs_ok h
  · unfold refresh
    rw [hnow, hget]
    cases s
    cases hcontents
    rfl
  · unfold refresh
    rw [hnow, hget]

/-! ### How much is read -/

section

variable {s : Source} {offset length cursor : Nat} {bytes : List UInt8}

/-- No more frames are decoded than are asked for. -/
theorem frames_decode_le {stream : Pcm.Stream} (hformat : s.format = .stream stream)
    (frames room cursor : Nat) : (s.decode frames room cursor).1.frames ≤ frames := by
  simp only [decode, hformat]
  refine Nat.div_le_of_le_mul (Nat.le_trans (Nat.min_le_left _ _) ?_)
  rw [Nat.mul_comm]
  exact Nat.min_le_left _ _

/-- What is read has the length that was asked for. -/
theorem length_of_read (h : (s.read offset length cursor).1 = .ok bytes) :
    bytes.length = length := by
  unfold read at h
  split at h
  · cases h
  · cases hformat : s.format with
    | binary size =>
        simp only [hformat] at h
        split at h
        · cases h
        · split at h
          · cases h
          · rename_i hshort
            obtain rfl := Except.ok.inj h
            refine Nat.le_antisymm ?_ (Nat.le_of_not_lt hshort)
            rw [bytesAt, Contents.length_read]
            exact Nat.min_le_left _ _
    | stream stream =>
        simp only [hformat] at h
        split at h
        · cases h
        · obtain rfl := Except.ok.inj h
          have hfew := Nat.mul_le_mul_right s.bytesPerFrame
            (frames_decode_le hformat (length / s.bytesPerFrame) length ‹_›)
          have hfits := Nat.div_mul_le_self length s.bytesPerFrame
          rw [List.length_append, List.length_replicate, List.length_take]
          omega

end

end Source

/-- Opening a source numbers it, and adds a cursor. -/
theorem Cursors.openSource_ok_iff {cursors : Cursors} {storage : Storage} {path : String}
    {kind : Source.Kind} {opened : Source × Cursors} :
    cursors.openSource storage path kind = .ok opened ↔
      Source.openAs storage path kind cursors.positions.length = .ok opened.1 ∧
        opened.2 = ⟨cursors.positions ++ [0]⟩ := by
  unfold Cursors.openSource
  cases Source.openAs storage path kind cursors.positions.length with
  | error e => exact ⟨nofun, fun h => nomatch h.1⟩
  | ok s =>
      constructor
      · intro h
        cases h
        exact ⟨rfl, rfl⟩
      · rintro ⟨h, h'⟩
        cases h
        cases opened
        cases h'
        rfl

end CompactDisc
