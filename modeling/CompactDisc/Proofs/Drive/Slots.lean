import CompactDisc.Proofs.Drive.Sectors
import CompactDisc.Proofs.Source.Calls

/-!
# CompactDisc.Proofs.Drive.Slots

**Reading several sectors is reading one after another.** What is read of a sector does not depend on
where the cursors are (`Drive.sector_forgets`), so neither does it depend on what was read before. A
read of several sectors therefore falls into parts at every place (`Drive.readSlots_add`), and fills
each slot as a read of its sector alone does, up to the first sector that fails
(`Drive.readSlots_cases`).
-/

namespace CompactDisc

/-- A part of a buffer that has the size of a sector. -/
def Sector.slot (raw : Bool) (i : Nat) (buffer : List UInt8) : List UInt8 :=
  (buffer.drop (Sector.readSize raw * i)).take (Sector.readSize raw)

namespace Sector

variable {raw : Bool} {bytes rest : List UInt8} {i k : Nat}

theorem slot_append_left (h : readSize raw * (i + 1) ≤ bytes.length) :
    slot raw i (bytes ++ rest) = slot raw i bytes := by
  rw [Nat.mul_succ] at h
  rw [slot, slot, List.drop_append_of_le_length (by omega),
    List.take_append_of_le_length (by rw [List.length_drop]; omega)]

theorem slot_append_right (h : bytes.length = readSize raw * k) (i : Nat) :
    slot raw (k + i) (bytes ++ rest) = slot raw i rest := by
  rw [slot, slot, Nat.mul_add, ← h, ← List.drop_drop, List.drop_left]

theorem slot_zero (h : bytes.length = readSize raw) : slot raw 0 bytes = bytes := by
  rw [slot, Nat.mul_zero, List.drop_zero, List.take_of_length_le (Nat.le_of_eq h)]

end Sector

namespace Drive

variable {drive : Drive} {raw : Bool} {buffer bytes bytes' : List UInt8} {sector a b n : Nat}
  {cursors cursors' : Cursors} {e : DriveError}

/-! ### One sector -/

/-- **What is read of a sector** does not depend on the cursors. -/
theorem sector_forgets (drive : Drive) (raw : Bool) (sector : Nat) (cursors cursors' : Cursors) :
    (drive.sector raw sector cursors).1 = (drive.sector raw sector cursors').1 := by
  cases howner : drive.disc.track? sector with
  | none => rw [sector_of_none raw cursors howner, sector_of_none raw cursors' howner]
  | some t =>
      cases hs : t.source with
      | none => simp only [Drive.sector, howner, hs]
      | some s =>
          rw [sector_of_owner raw cursors howner hs, sector_of_owner raw cursors' howner hs,
            s.read_forgets _ _ (cursors.get s.id) (cursors'.get s.id)]

/-- A sector is read as these bytes, into any slot and wherever the cursors are. -/
def Gives (drive : Drive) (raw : Bool) (sector : Nat) (bytes : List UInt8) : Prop :=
  ∀ (slot : List UInt8) (cursors : Cursors), slot.length = Sector.readSize raw →
    (drive.readSector slot raw sector cursors).1 = .ok () ∧
      (drive.readSector slot raw sector cursors).2.1 = bytes

/-- A sector cannot be read, into any slot and wherever the cursors are. -/
def Fails (drive : Drive) (raw : Bool) (sector : Nat) (e : DriveError) : Prop :=
  ∀ (slot : List UInt8) (cursors : Cursors), slot.length = Sector.readSize raw →
    (drive.readSector slot raw sector cursors).1 = .error e

theorem gives_of_sector (h : (drive.sector raw sector cursors).1 = .ok bytes) :
    drive.Gives raw sector bytes := by
  intro slot cursors' hslot
  rw [sector_forgets drive raw sector cursors cursors'] at h
  obtain ⟨hok, hbytes⟩ := readSector_of_ok (Nat.le_of_eq hslot.symm) h
  rw [List.drop_of_length_le (Nat.le_of_eq hslot), List.append_nil] at hbytes
  exact ⟨hok, hbytes⟩

theorem fails_of_sector (h : (drive.sector raw sector cursors).1 = .error e) :
    drive.Fails raw sector e := by
  intro slot cursors' hslot
  rw [sector_forgets drive raw sector cursors cursors'] at h
  exact (readSector_of_error (Nat.le_of_eq hslot.symm) h).1

/-- A sector is read as one list of bytes only. -/
theorem Gives.eq (h : drive.Gives raw sector bytes) (h' : drive.Gives raw sector bytes') :
    bytes = bytes' := by
  obtain ⟨-, hbytes⟩ := h (List.replicate (Sector.readSize raw) 0) .none List.length_replicate
  obtain ⟨-, hbytes'⟩ := h' (List.replicate (Sector.readSize raw) 0) .none List.length_replicate
  exact hbytes.symm.trans hbytes'

theorem Gives.not_fails (h : drive.Gives raw sector bytes) : ¬ drive.Fails raw sector e := by
  intro hfails
  obtain ⟨hok, -⟩ := h (List.replicate (Sector.readSize raw) 0) .none List.length_replicate
  have herror := hfails (List.replicate (Sector.readSize raw) 0) .none List.length_replicate
  rw [hok] at herror
  cases herror

/-! ### One after another -/

/-- There is no sector behind the last address. -/
theorem readSlots_of_late (hlate : RedBook.maxSector < sector) :
    drive.readSlots raw buffer sector cursors (n + 1) =
      (.error (.sectorNotFound RedBook.maxSector), buffer, cursors) := by
  rw [readSlots, if_pos hlate]

theorem readSlots_of_error (hearly : ¬ RedBook.maxSector < sector)
    (h : drive.sector raw sector cursors = (.error e, cursors')) :
    drive.readSlots raw buffer sector cursors (n + 1) = (.error e, buffer, cursors') := by
  rw [readSlots, if_neg hearly]
  simp only [h]

theorem readSlots_of_ok (hearly : ¬ RedBook.maxSector < sector)
    (h : drive.sector raw sector cursors = (.ok bytes, cursors')) :
    let rest := drive.readSlots raw (buffer.drop (Sector.readSize raw)) (sector + 1) cursors' n
    drive.readSlots raw buffer sector cursors (n + 1) = (rest.1, bytes ++ rest.2.1, rest.2.2) := by
  rw [readSlots, if_neg hearly]
  simp only [h]

/-- **Reading in parts.** Sectors are read as the first of them are read into the front of the buffer
and, if this succeeds, the others into its rest. -/
theorem readSlots_add (drive : Drive) (raw : Bool) (buffer : List UInt8) (sector : Nat)
    (cursors : Cursors) (a b : Nat) :
    let size := Sector.readSize raw
    let whole := drive.readSlots raw buffer sector cursors (a + b)
    let front := drive.readSlots raw (buffer.take (size * a)) sector cursors a
    let back := drive.readSlots raw (buffer.drop (size * a)) (sector + a) front.2.2 b
    (∀ e, front.1 = .error e →
      whole = (.error e, front.2.1 ++ buffer.drop (size * a), front.2.2)) ∧
    (front.1 = .ok () → whole = (back.1, front.2.1 ++ back.2.1, back.2.2)) := by
  intro size
  induction a generalizing buffer sector cursors with
  | zero =>
      intro whole front back
      have hwhole : whole = drive.readSlots raw buffer sector cursors b := by
        simp only [whole, Nat.zero_add]
      have hfront : front = (.ok (), [], cursors) := by
        simp only [front, Nat.mul_zero, List.take_zero, readSlots_zero]
      have hback : back = drive.readSlots raw buffer sector cursors b := by
        simp only [back, hfront, Nat.mul_zero, List.drop_zero, Nat.add_zero]
      rw [hwhole, hback, hfront]
      exact ⟨fun _ he => (nomatch he), fun _ => rfl⟩
  | succ a ih =>
      have hrest : (buffer.take (size * (a + 1))).drop size = (buffer.drop size).take (size * a) := by
        rw [List.drop_take, Nat.mul_succ, Nat.add_sub_cancel]
      have hbehind : buffer.drop (size * (a + 1)) = (buffer.drop size).drop (size * a) := by
        rw [List.drop_drop, Nat.mul_succ, Nat.add_comm]
      rw [Nat.add_right_comm a 1 b]
      by_cases hlate : RedBook.maxSector < sector
      · rw [readSlots_of_late hlate, readSlots_of_late hlate]
        refine ⟨fun e he => ?_, nofun⟩
        cases he
        rw [List.take_append_drop]
      · rcases hsector : drive.sector raw sector cursors with ⟨e | bytes, cursors'⟩
        · rw [readSlots_of_error hlate hsector, readSlots_of_error hlate hsector]
          refine ⟨fun e' he => ?_, nofun⟩
          cases he
          rw [List.take_append_drop]
        · obtain ⟨herror, hok⟩ := ih (buffer.drop size) (sector + 1) cursors'
          rw [readSlots_of_ok hlate hsector, readSlots_of_ok hlate hsector, hrest, hbehind,
            ← Nat.add_assoc, Nat.add_right_comm sector a 1]
          refine ⟨fun e he => ?_, fun hfront => ?_⟩
          · rw [herror e he, List.append_assoc]
          · rw [hok hfront, List.append_assoc]

/-- What is read of sectors does not depend on the cursors. -/
theorem readSlots_forgets (drive : Drive) (raw : Bool) (buffer : List UInt8) (sector n : Nat)
    (cursors cursors' : Cursors) :
    (drive.readSlots raw buffer sector cursors n).1 =
        (drive.readSlots raw buffer sector cursors' n).1 ∧
      (drive.readSlots raw buffer sector cursors n).2.1 =
        (drive.readSlots raw buffer sector cursors' n).2.1 := by
  induction n generalizing buffer sector cursors cursors' with
  | zero => exact ⟨rfl, rfl⟩
  | succ n ih =>
      by_cases hlate : RedBook.maxSector < sector
      · rw [readSlots_of_late hlate, readSlots_of_late hlate]
        exact ⟨rfl, rfl⟩
      · have hsame := sector_forgets drive raw sector cursors cursors'
        rcases hsector : drive.sector raw sector cursors with ⟨result, after⟩
        rcases hsector' : drive.sector raw sector cursors' with ⟨result', after'⟩
        rw [hsector, hsector'] at hsame
        obtain rfl : result = result' := hsame
        cases result with
        | error e =>
            rw [readSlots_of_error hlate hsector, readSlots_of_error hlate hsector']
            exact ⟨rfl, rfl⟩
        | ok bytes =>
            obtain ⟨hresult, hbytes⟩ := ih (buffer.drop (Sector.readSize raw)) (sector + 1) after after'
            rw [readSlots_of_ok hlate hsector, readSlots_of_ok hlate hsector']
            exact ⟨hresult, congrArg (bytes ++ ·) hbytes⟩

/-- A slot in front of slots that are filled. -/
theorem gives_cons (hfirst : drive.Gives raw sector bytes)
    (hlength : bytes.length = Sector.readSize raw) {rest : List UInt8} {k : Nat}
    (hrest : ∀ i < k, drive.Gives raw (sector + 1 + i) (Sector.slot raw i rest)) :
    ∀ i < k + 1, drive.Gives raw (sector + i) (Sector.slot raw i (bytes ++ rest)) := by
  intro i hi
  cases i with
  | zero =>
      rw [Sector.slot_append_left (by omega), Sector.slot_zero hlength]
      exact hfirst
  | succ i =>
      rw [Nat.add_comm i 1, Sector.slot_append_right (by omega), ← Nat.add_assoc]
      exact hrest i (by omega)

/-- **What can come of reading sectors**: every slot is filled as by a read of its sector alone, or
there is a first sector that fails. The slots before it are filled then, and those behind it and the
rest of the buffer are as they were. -/
theorem readSlots_cases (drive : Drive) (raw : Bool) (buffer : List UInt8) (sector : Nat)
    (hroom : Sector.readSize raw * n ≤ buffer.length) (cursors : Cursors) :
    let size := Sector.readSize raw
    let read := drive.readSlots raw buffer sector cursors n
    read.2.1.length = buffer.length ∧
    ((read.1 = .ok () ∧ (∀ i < n, drive.Gives raw (sector + i) (Sector.slot raw i read.2.1)) ∧
        read.2.1.drop (size * n) = buffer.drop (size * n)) ∨
      ∃ k < n, ∃ e, read.1 = .error e ∧
        (sector + k ≤ RedBook.maxSector → drive.Fails raw (sector + k) e) ∧
        (∀ i < k, drive.Gives raw (sector + i) (Sector.slot raw i read.2.1)) ∧
        read.2.1.drop (size * (k + 1)) = buffer.drop (size * (k + 1))) := by
  intro size
  induction n generalizing buffer sector cursors with
  | zero => exact ⟨rfl, Or.inl ⟨rfl, nofun, rfl⟩⟩
  | succ n ih =>
      by_cases hlate : RedBook.maxSector < sector
      · rw [readSlots_of_late hlate]
        exact ⟨rfl, Or.inr ⟨0, Nat.succ_pos n, _, rfl,
          fun hearly => absurd hlate (Nat.not_lt.mpr hearly), nofun, rfl⟩⟩
      · rcases hsector : drive.sector raw sector cursors with ⟨e | bytes, after⟩
        · rw [readSlots_of_error hlate hsector]
          exact ⟨rfl, Or.inr ⟨0, Nat.succ_pos n, e, rfl,
            fun _ => fails_of_sector (congrArg Prod.fst hsector), nofun, rfl⟩⟩
        · have hgives := gives_of_sector (congrArg Prod.fst hsector)
          have hlength := length_of_sector (congrArg Prod.fst hsector)
          rw [readSlots_of_ok hlate hsector]
          rw [Nat.mul_succ] at hroom
          obtain ⟨hkept, hcases⟩ := ih (buffer.drop size) (sector + 1)
            (by rw [List.length_drop]; omega) after
          generalize drive.readSlots raw (buffer.drop size) (sector + 1) after n = rest at hkept hcases
          have hbehind : ∀ k, rest.2.1.drop (size * k) = (buffer.drop size).drop (size * k) →
              (bytes ++ rest.2.1).drop (size * (k + 1)) = buffer.drop (size * (k + 1)) := by
            intro k hk
            rw [Nat.mul_succ, Nat.add_comm, ← List.drop_drop, ← List.drop_drop,
              List.drop_left' hlength, hk]
          refine ⟨?_, ?_⟩
          · rw [List.length_append, hkept, List.length_drop, hlength]
            omega
          · rcases hcases with ⟨hok, hfilled, hafter⟩ | ⟨k, hk, e, herror, hfails, hfilled, hafter⟩
            · exact Or.inl ⟨hok, gives_cons hgives hlength hfilled, hbehind n hafter⟩
            · refine Or.inr ⟨k + 1, Nat.succ_lt_succ hk, e, herror, ?_,
                gives_cons hgives hlength hfilled, hbehind (k + 1) hafter⟩
              rw [Nat.add_comm k 1, ← Nat.add_assoc]
              exact hfails

/-- Reading sectors succeeds if each of them can be read. -/
theorem readSlots_ok (hroom : Sector.readSize raw * n ≤ buffer.length)
    (hearly : sector + n ≤ RedBook.maxSector)
    (h : ∀ i < n, ∃ bytes, drive.Gives raw (sector + i) bytes) (cursors : Cursors) :
    (drive.readSlots raw buffer sector cursors n).1 = .ok () := by
  obtain ⟨-, ⟨hok, -⟩ | ⟨k, hk, e, -, hfails, -⟩⟩ :=
    drive.readSlots_cases raw buffer sector hroom cursors
  · exact hok
  · obtain ⟨bytes, hgives⟩ := h k hk
    exact absurd (hfails (by omega)) hgives.not_fails

/-! ### Into a buffer -/

theorem readSectors_of_room (hroom : Sector.readSize raw * n ≤ buffer.length) :
    drive.readSectors buffer raw sector n cursors =
      drive.readSlots raw buffer sector cursors n := by
  rw [readSectors, if_neg (Nat.not_lt.mpr hroom)]

/-- **Reading into parts of a buffer**, wherever the cursors are when the second part is read. -/
theorem readSectors_add (drive : Drive) (sector : Nat)
    (hroom : Sector.readSize raw * (a + b) ≤ buffer.length) (cursors : Cursors) :
    let size := Sector.readSize raw
    let whole := drive.readSectors buffer raw sector (a + b) cursors
    let front := drive.readSectors (buffer.take (size * a)) raw sector a cursors
    (∀ e, front.1 = .error e →
      whole.1 = .error e ∧ whole.2.1 = front.2.1 ++ buffer.drop (size * a)) ∧
    (front.1 = .ok () → ∀ cursors',
      let back := drive.readSectors (buffer.drop (size * a)) raw (sector + a) b cursors'
      whole.1 = back.1 ∧ whole.2.1 = front.2.1 ++ back.2.1) := by
  intro size whole front
  obtain ⟨herror, hok⟩ := drive.readSlots_add raw buffer sector cursors a b
  rw [Nat.mul_add] at hroom
  have hwhole : whole = drive.readSlots raw buffer sector cursors (a + b) :=
    readSectors_of_room (by rwa [Nat.mul_add])
  have hfront : front = drive.readSlots raw (buffer.take (size * a)) sector cursors a :=
    readSectors_of_room (by rw [List.length_take]; exact Nat.le_min.mpr ⟨Nat.le_refl _, by omega⟩)
  rw [← hfront, ← hwhole] at herror hok
  refine ⟨fun e he => ?_, fun hsucceeds cursors' => ?_⟩
  · rw [herror e he]
    exact ⟨rfl, rfl⟩
  · intro back
    have hback : back = drive.readSlots raw (buffer.drop (size * a)) (sector + a) cursors' b :=
      readSectors_of_room (by
        rw [List.length_drop]
        exact Nat.le_sub_of_add_le' hroom)
    obtain ⟨hresult, hbytes⟩ := drive.readSlots_forgets raw (buffer.drop (size * a)) (sector + a) b
      front.2.2 cursors'
    rw [hok hsucceeds, hback, ← hresult, ← hbytes]
    exact ⟨rfl, rfl⟩

end Drive

end CompactDisc
