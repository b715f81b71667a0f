import CompactDisc.Pcm.Stream

/-!
# CompactDisc.Pcm.Form

**Finding the samples in a form**: the chunks in front of them are walked through, and those that say
something about the samples are kept.

Design points:

* The search ends at the samples. Of several descriptions before them the last one counts, and each
  has to be in order. Whether the samples are decoded is asked of the last one only.
* `Prelude.read` says what a chunk in front of the samples adds; `scan` is the walk.
-/

namespace CompactDisc.Pcm

/-- What the chunks in front of the samples have said. -/
structure Prelude where
  format : Option Format := none
  /-- A number of sample frames. -/
  counted : Option Nat := none
  deriving DecidableEq, Repr

namespace Prelude

/-- Reads a chunk whose body starts at `position`, and gives the place behind it. Chunks of other
names are skipped. -/
def read (c : Contents) (p : Prelude) (chunk : Chunk) (position : Nat) :
    Except StreamError (Prelude × Nat) := do
  if chunk.name = Text.ascii "fmt " then
    let (format, position) ← Format.read c position chunk.size
    return ({ p with format := some (format.after p.format) }, position)
  else if chunk.name = Text.ascii "fact" then
    if chunk.size ≠ 4 then throw .badCount
    let counted ← number c position 4
    return ({ p with counted := some counted }, position + 4)
  else if chunk.name = Text.ascii "LIST" then
    return (p, ← list c position chunk.size)
  else
    return (p, ← take c position chunk.size)

end Prelude

namespace Form

/-- Walks to the samples. They cannot be used unless they have been described, and only those that are
decoded can. -/
def scan (c : Contents) (p : Prelude) (w : Walk) : Except StreamError (Option Stream) :=
  match _step : w.next c with
  | .error e => .error e
  | .ok (none, _) => .error .noData
  | .ok (some chunk, w) =>
    if chunk.name = Text.ascii "data" then
      match p.format with
      | none => .ok none
      | some format =>
        format.decoded.map fun format =>
          some { format, start := w.position, size := chunk.size, counted := p.counted }
    else
      match p.read c chunk w.position with
      | .error e => .error e
      | .ok (p, position) => scan c p { w with position }
  termination_by w.length - w.consumed
  decreasing_by exact Walk.next_lt _step

/-- Reads the form that begins at `position`. -/
def read (c : Contents) (position : Nat) : Except StreamError (Option Stream) := do
  let length ← number c (position + 4) 4
  let start ← take c (position + 8) 4
  if c.read (position + 8) 4 ≠ Text.ascii "WAVE" then throw .otherForm
  scan c {} { position := start, consumed := 0, length }

end Form

/-- Finds the samples in a file. -/
def Stream.find (c : Contents) : Except StreamError (Option Stream) := do
  let (position, signature) ← Signature.search c
  if signature = Signature.form then Form.read c position
  else if signature ∈ Signature.layers then throw .endOfStream
  else throw .unrecognized

end CompactDisc.Pcm
