import CompactDisc.Proofs.Disc.Files
import CompactDisc.Proofs.Sound.Passages

/-!
# CompactDisc.Proofs.Disc.Openings

**What loading a disc does to the sources**: it opens new ones and leaves the cursors of all others
(`Disc.load_opens`). The files of a sheet are only opened, and a bare image is looked at through the
source that was opened for it.
-/

namespace CompactDisc

namespace Cursors

/-- The cursors after more sources were opened. -/
def append (c : Cursors) (more : List Nat) : Cursors := ⟨c.positions ++ more⟩

variable {c : Cursors} {source : Source}

theorem append_nil (c : Cursors) : c.append [] = c := congrArg mk (List.append_nil _)

theorem length_le_append (c : Cursors) (more : List Nat) :
    c.positions.length ≤ (c.append more).positions.length := by
  simp [append]

theorem append_append (c : Cursors) (more more' : List Nat) :
    (c.append more).append more' = c.append (more ++ more') :=
  congrArg mk (List.append_assoc _ _ _)

/-- The use of a source does not depend on what was opened after it. -/
theorem use_append {α : Type} (h : source.id < c.positions.length) (more : List Nat)
    (f : Nat → α × Nat) :
    (c.append more).use source f = ((c.use source f).1, (c.use source f).2.append more) := by
  have hget : (c.append more).get source.id = c.get source.id := by
    simp [append, get, List.getElem?_append_left h]
  have hset (position : Nat) :
      (c.append more).set source.id position = (c.set source.id position).append more := by
    simp [append, set, List.set_append_left _ _ h]
  unfold use
  rw [hget]
  dsimp only
  rw [hset]

/-- The use of the source that was opened last moves its cursor alone. -/
theorem use_last {α : Type} (h : source.id = c.positions.length) (position : Nat)
    (f : Nat → α × Nat) :
    ∃ position', ((c.append [position]).use source f).2 = c.append [position'] := by
  refine ⟨(f ((c.append [position]).get source.id)).2, ?_⟩
  show (c.append [position]).set source.id _ = _
  simp [append, set, h]

end Cursors

/-- Where no source is closed, what is open stays open. -/
theorem Disc.OpenIn.of_le {disc : Disc} {c c' : Cursors} (h : disc.OpenIn c)
    (hle : c.positions.length ≤ c'.positions.length) : disc.OpenIn c' :=
  fun t ht s hs => Nat.lt_of_lt_of_le (h t ht s hs) hle

namespace Volume

variable {cursors opened : Cursors} {source : Source}

/-- Looking for a descriptor moves the cursor of the image alone. -/
theorem detect_last (h : source.id = cursors.positions.length) (forms : List Form)
    (position : Nat) :
    ∃ position', (detect (cursors.append [position]) source forms).2 = cursors.append [position'] := by
  induction forms generalizing position with
  | nil => exact ⟨position, rfl⟩
  | cons form forms ih =>
      have hshows : ∃ position',
          (shows (cursors.append [position]) source form).2 = cursors.append [position'] := by
        obtain ⟨position', huse⟩ := Cursors.use_last h position
          (source.readAvailable form.descriptorOffset RedBook.cookedSectorSize)
        refine ⟨position', ?_⟩
        rw [← huse]
        unfold shows
        dsimp only
        split <;> simp_all
      obtain ⟨position', hshows⟩ := hshows
      unfold detect
      rcases hshown : shows (cursors.append [position]) source form with ⟨shown, cursors'⟩
      rw [hshown] at hshows
      obtain rfl : cursors' = cursors.append [position'] := hshows
      cases shown with
      | true => exact ⟨position', rfl⟩
      | false => exact ih position'

theorem load_opens {storage : Storage} {path : String} {loaded : Disc}
    (h : load storage path cursors = .ok (loaded, opened)) :
    (∃ more, opened = cursors.append more) ∧ loaded.OpenIn opened := by
  obtain ⟨source, form, length, opened', hopened, hdetect, rfl⟩ := load_cases h
  obtain ⟨hopen, rfl⟩ := Cursors.openSource_ok_iff.mp hopened
  have hid : source.id = cursors.positions.length := Source.id_openAs hopen
  obtain ⟨position, hlast⟩ := detect_last hid forms 0
  obtain rfl : opened = cursors.append [position] := (congrArg Prod.snd hdetect).symm.trans hlast
  refine ⟨⟨_, rfl⟩, ?_⟩
  intro t ht s hs
  simp only [disc, List.mem_cons, List.not_mem_nil, or_false] at ht
  rcases ht with rfl | rfl
  · cases hs
    show source.id < (cursors.positions ++ [position]).length
    rw [hid, List.length_append]
    exact Nat.lt_succ_self _
  · cases hs

end Volume

/-- **Loading opens sources**, those of the disc among them, and leaves all others as they are. -/
theorem Disc.load_opens {lib : Library} {path : String} {cursors opened : Cursors} {disc : Disc}
    (h : Disc.load lib path cursors = .ok (disc, opened)) :
    (∃ more, opened = cursors.append more) ∧ disc.OpenIn opened := by
  rcases Disc.load_ok_iff.mp h with hsheet | ⟨-, hvolume⟩
  · obtain ⟨contents, -, cs, -, es, hes, -⟩ := Sheet.load_ok_iff.mp hsheet
    obtain ⟨more, hmore⟩ := Sheet.openings_entries? hes
    refine ⟨⟨more, ?_⟩, Sheet.id_lt_of_load hsheet⟩
    unfold Cursors.append
    rw [hmore]
  · exact Volume.load_opens hvolume

end CompactDisc
