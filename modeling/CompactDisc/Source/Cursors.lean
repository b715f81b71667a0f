import CompactDisc.Source.Basic

/-!
# CompactDisc.Source.Cursors

**The cursors of all sources that have been opened**, and opening and using sources through them.

Design points:

* The identity of a source is its number in the order of opening, so a new source never has the
  identity of an old one.
* Every use of a source goes through `Cursors.use`, which reads and writes the cursor of that source
  alone.
-/

namespace CompactDisc

/-- The cursor of each source, by identity. -/
structure Cursors where
  positions : List Nat
  deriving DecidableEq, Repr, Inhabited

namespace Cursors

/-- No source has been opened. -/
def none : Cursors := ⟨[]⟩

/-- The cursor of a source. -/
def get (c : Cursors) (id : Nat) : Nat := c.positions[id]?.getD 0

/-- Moves the cursor of a source. -/
def set (c : Cursors) (id position : Nat) : Cursors := ⟨c.positions.set id position⟩

/-- Opens a source, its cursor at the start. -/
def openSource (c : Cursors) (storage : Storage) (path : String) (kind : Source.Kind) :
    Except SourceError (Source × Cursors) :=
  (Source.openAs storage path kind c.positions.length).map fun source =>
    (source, ⟨c.positions ++ [0]⟩)

/-- Uses a source at its cursor. -/
def use {α : Type} (c : Cursors) (source : Source) (f : Nat → α × Nat) : α × Cursors :=
  let (a, position) := f (c.get source.id)
  (a, c.set source.id position)

/-- Moves a source to a disc byte. -/
def seek (c : Cursors) (source : Source) (offset : Nat) : Except SourceError Unit × Cursors :=
  c.use source (source.seek offset)

/-- Reads from a source. -/
def read (c : Cursors) (source : Source) (offset length : Nat) :
    Except SourceError (List UInt8) × Cursors :=
  c.use source (source.read offset length)

/-- Decodes from a source, into exactly the room that the frames need. The room is less than 2^63 bytes
where there is one. -/
def decode (c : Cursors) (source : Source) (frames : Nat) : Source.Sound × Cursors :=
  c.use source (source.decode frames (frames * source.bytesPerFrame))

/-! ### One cursor at a time -/

theorem get_set_self {c : Cursors} {id : Nat} (position : Nat) (h : id < c.positions.length) :
    (c.set id position).get id = position := by
  simp [get, set, h]

@[simp] theorem get_set_ne {c : Cursors} {id id' : Nat} (position : Nat) (h : id ≠ id') :
    (c.set id position).get id' = c.get id' := by
  simp [get, set, h]

@[simp] theorem set_get (c : Cursors) (id : Nat) : c.set id (c.get id) = c := by
  cases c with
  | mk positions =>
    simp only [set, get, mk.injEq]
    by_cases h : id < positions.length
    · simp [h]
    · exact List.set_eq_of_length_le (by omega)

@[simp] theorem length_set (c : Cursors) (id position : Nat) :
    (c.set id position).positions.length = c.positions.length := by
  simp [set]

/-- Using a source leaves the cursors of all others. -/
theorem get_use_ne {α : Type} {c : Cursors} {source : Source} (f : Nat → α × Nat) {id : Nat}
    (h : source.id ≠ id) : (c.use source f).2.get id = c.get id := by
  simp [use, h]

end Cursors

end CompactDisc
