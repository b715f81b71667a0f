import CompactDisc.Pcm.Signature
import CompactDisc.Pcm.Word

/-!
# CompactDisc.Pcm.Chunk

**Chunks**: the named parts of a form or a list, one behind the other.

Design points:

* A `Walk` is a place between two chunks: where it is in the file, how many bytes of the list lie
  before it, and how long the list is. The two counts are kept apart, because a list that ends at an
  odd byte is followed by padding of its own that the count does not see.
* A chunk must not go on behind the end of what holds it. The one exception is a form of unknown
  length, whose samples may be of unknown length too.
* Every byte that is asked for or skipped must be in the file.
-/

namespace CompactDisc.Pcm

/-- Reads a number of `width` bytes. -/
def number (c : Contents) (position width : Nat) : Except StreamError Nat :=
  (Word.at? (c.read position width) 0 width).elim (.error .endOfStream) .ok

/-- Passes over `count` bytes that have to be there. -/
def take (c : Contents) (position count : Nat) : Except StreamError Nat :=
  if position + count ≤ c.size then .ok (position + count) else .error .endOfStream

/-- The head of a chunk. -/
structure Chunk where
  name : List UInt8
  /-- Bytes of the body. -/
  size : Nat
  deriving DecidableEq, Repr

/-- A place between the chunks of a form or list. -/
structure Walk where
  /-- The place in the file. -/
  position : Nat
  /-- Bytes of the list before this place. -/
  consumed : Nat
  /-- Bytes of the whole list. -/
  length : Nat
  deriving DecidableEq, Repr

namespace Walk

/-- Bytes of the head of a chunk: its name and its size. -/
def headSize : Nat := 8

/-- The length of a form that was not known when it was written. -/
def unknownLength : Nat := 0xFFFFFFFF

/-- Passes the byte that fills up a chunk of odd size. -/
def align (c : Contents) (w : Walk) : Except StreamError Walk :=
  if w.consumed % 2 = 0 then .ok w
  else (take c w.position 1).map fun position => { w with position, consumed := w.consumed + 1 }

/-- Takes the head of the next chunk, if there is room for one. The walk then stands at the first
byte of the body and counts the whole chunk as consumed. -/
def next (c : Contents) (w : Walk) : Except StreamError (Option Chunk × Walk) :=
  match w.align c with
  | .error e => .error e
  | .ok w =>
    if w.length < w.consumed + headSize then .ok (none, w)
    else
      match number c (w.position + 4) 4 with
      | .error e => .error e
      | .ok size =>
        let consumed := w.consumed + headSize
        if w.length - consumed < size ∧ ¬(w.length = unknownLength ∧ size = unknownLength) then
          .error .chunkTooLong
        else
          .ok (some { name := c.read w.position 4, size },
            { w with position := w.position + headSize, consumed := consumed + size })

/-- Goes to the end of the list and over the byte that fills it up; gives the place behind it. -/
def finish (c : Contents) (w : Walk) : Except StreamError Nat :=
  match take c w.position (w.length - w.consumed) with
  | .error e => .error e
  | .ok position => if w.length % 2 = 0 then .ok position else take c position 1

/-! ### Walks get nearer to their end -/

theorem align_length {c : Contents} {w w' : Walk} (h : w.align c = .ok w') :
    w'.length = w.length ∧ w.consumed ≤ w'.consumed := by
  unfold align at h
  split at h
  · cases h
    exact ⟨rfl, Nat.le_refl _⟩
  · unfold take at h
    split at h
    · cases h
      exact ⟨rfl, Nat.le_succ _⟩
    · cases h

/-- With each chunk less of the list is left. -/
theorem next_lt {c : Contents} {w w' : Walk} {chunk : Chunk}
    (h : w.next c = .ok (some chunk, w')) : w'.length - w'.consumed < w.length - w.consumed := by
  unfold next at h
  split at h
  · cases h
  · rename_i aligned ha
    have same := align_length ha
    split at h
    · cases h
    · rename_i room
      split at h
      · cases h
      · simp only at h
        split at h
        · cases h
        · simp only [Except.ok.injEq, Prod.mk.injEq, Option.some.injEq] at h
          obtain ⟨_, rfl⟩ := h
          simp only [headSize] at room ⊢
          omega

end Walk

/-! ### Lists -/

/-- Passes the entries of a list of notes, each of which has to be there as a whole. -/
def entries (c : Contents) (w : Walk) : Except StreamError Walk :=
  match _step : w.next c with
  | .error e => .error e
  | .ok (none, w) => .ok w
  | .ok (some entry, w) =>
    match take c w.position entry.size with
    | .error e => .error e
    | .ok position => entries c { w with position }
  termination_by w.length - w.consumed
  decreasing_by exact Walk.next_lt _step

/-- Passes a list whose body of `size` bytes starts at `position`; gives the place behind it. -/
def list (c : Contents) (position size : Nat) : Except StreamError Nat := do
  if size < 4 then throw .badList
  let start ← take c position 4
  let w := { position := start, consumed := 0, length := size - 4 : Walk }
  if c.read position 4 = Text.ascii "INFO" then
    let w ← entries c w
    w.finish c
  else w.finish c

end CompactDisc.Pcm
