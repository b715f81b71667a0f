import CompactDisc.Pcm.StreamError
import CompactDisc.Storage.Contents
import CompactDisc.Text.Ascii

/-!
# CompactDisc.Pcm.Signature

**Where sound begins in a file.** Sound need not stand at the very start: the file is searched for
the first text or byte pair that opens a known kind of sound file.

Design points:

* The search looks at two bytes at a time. Where they open a signature, a whole window of bytes has
  to be there, although no signature is as long.
* Kinds of sound that are only recognised still end the search: what follows them is never looked at.
  Of these, the frames of layered sound are told from accidental marks by the frames that follow, and
  where there are none the file is gone through to its end.
-/

namespace CompactDisc.Pcm

/-- The first bytes of a kind of sound file. -/
abbrev Signature := List UInt8

namespace Signature

/-- The signature of a form made of chunks. -/
def form : Signature := Text.ascii "RIFF"

/-- The signatures of containers and tags that are recognised but not read. -/
def containers : List Signature :=
  [Text.ascii "FORM", Text.ascii "caff", Text.ascii "fLaC", Text.ascii "ftyp", Text.ascii "OggS",
    Text.ascii "ID3", [0x1A, 0x45, 0xDF, 0xA3]]

/-- The signature of packed frames with the second byte `mark`. The first has all its bits set. -/
def frame (mark : UInt8) : Signature := [0xFF, mark]

/-- The signatures of the frames of layered sound. -/
def layers : List Signature :=
  [0xE2, 0xE3, 0xE4, 0xE5, 0xE6, 0xE7, 0xF2, 0xF3, 0xF4, 0xF5, 0xF6, 0xF7, 0xFA, 0xFB, 0xFC, 0xFD, 0xFE,
    0xFF].map frame

/-- Every signature. -/
def all : List Signature := form :: containers ++ [frame 0xF1, frame 0xF9] ++ layers

/-- The bytes that must be there where a signature may begin. -/
def window : Nat := 16

/-- The first bytes of a file, which are searched. -/
def searched : Nat := 0x100000

/-- Whether the signature begins with two bytes. -/
def opens (first second : UInt8) : Signature → Bool
  | a :: b :: _ => a == first && b == second
  | _ => false

/-- Finds the first signature at one of `count` positions from `position` on. -/
def searchFrom (c : Contents) (position : Nat) : Nat → Except StreamError (Nat × Signature)
  | 0 => .error .unrecognized
  | count + 1 =>
    if all.any (opens (c.byteAt position) (c.byteAt (position + 1))) then
      if c.size < position + window then .error .endOfStream
      else
        match all.find? fun s => c.read position s.length = s with
        | some s => .ok (position, s)
        | none => searchFrom c (position + 1) count
    else searchFrom c (position + 1) count

/-- Finds the first signature in a file. -/
def search (c : Contents) : Except StreamError (Nat × Signature) :=
  searchFrom c 0 (min c.size searched - 1)

/-- A file that begins with a form is found at its start. -/
theorem search_form {c : Contents} (size : window ≤ c.size)
    (h : c.read 0 form.length = form) : search c = .ok (0, form) := by
  have two : c.read 0 form.length = [c.byteAt 0, c.byteAt 1] ++ c.read 2 2 := by
    rw [show form.length = 2 + 2 from rfl, Contents.read_add]
    have here : min 2 (c.size - 0) = 2 := by unfold window at size; omega
    rw [Contents.read, here]
    rfl
  have opening : all.any (opens (c.byteAt 0) (c.byteAt (0 + 1))) = true := by
    have first : c.byteAt 0 = 0x52 ∧ c.byteAt 1 = 0x49 := by
      rw [two, show form = [0x52, 0x49, 0x46, 0x46] from rfl] at h
      simp only [List.cons_append, List.cons.injEq] at h
      exact ⟨h.1, h.2.1⟩
    rw [first.1, show 0 + 1 = 1 from rfl, first.2]
    rfl
  have some : min c.size searched - 1 = (min c.size searched - 2) + 1 := by
    unfold window at size
    unfold searched
    omega
  rw [search, some, searchFrom, if_pos opening, if_neg (by omega)]
  simp [all, h]

end Signature

end CompactDisc.Pcm
