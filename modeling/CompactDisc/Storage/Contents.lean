/-!
# CompactDisc.Storage.Contents

**The bytes of a file**, as a size and a function from positions to bytes.

Design points:

* Disc images are read in small parts and may be far larger than memory, so a file is never a list:
  `Contents.read` evaluates just the bytes asked for.
* Positions at or past `size` do not belong to the file, whatever `byteAt` gives there;
  `Contents.read` stops at the end, and a reader of single bytes has to stay before it.
-/

namespace CompactDisc

/-- The contents of a file. -/
structure Contents where
  size : Nat
  byteAt : Nat → UInt8

namespace Contents

/-- A file without bytes. -/
def empty : Contents := ⟨0, fun _ => 0⟩

/-- A file by default has no bytes. -/
instance : Inhabited Contents := ⟨empty⟩

/-- The file that holds the given bytes. -/
def ofArray (bytes : Array UInt8) : Contents := ⟨bytes.size, fun i => bytes.getD i 0⟩

/-- The file that holds the bytes of a buffer. -/
def ofBytes (bytes : ByteArray) : Contents :=
  ⟨bytes.size, fun i => if h : i < bytes.size then bytes[i] else 0⟩

/-- `size` equal bytes. -/
def filled (size : Nat) (byte : UInt8) : Contents := ⟨size, fun _ => byte⟩

/-- At most `length` bytes from position `offset` on: fewer where the file ends. -/
def read (c : Contents) (offset length : Nat) : List UInt8 :=
  (List.range' offset (min length (c.size - offset))).map c.byteAt

/-- All the bytes. -/
def toList (c : Contents) : List UInt8 := c.read 0 c.size

/-- The file with `bytes` written at position `offset`; a gap before them is filled with zeros. -/
def overwrite (c : Contents) (offset : Nat) (bytes : Array UInt8) : Contents :=
  { size := if bytes.isEmpty then c.size else max c.size (offset + bytes.size)
    byteAt := fun i =>
      if offset ≤ i ∧ i < offset + bytes.size then bytes.getD (i - offset) 0
      else if i < c.size then c.byteAt i else 0 }

/-- The file with its end moved to `size`; bytes that are new are zero. -/
def resize (c : Contents) (size : Nat) : Contents :=
  { size, byteAt := fun i => if i < c.size then c.byteAt i else 0 }

/-- The file with `bytes` after its end. -/
def append (c : Contents) (bytes : Array UInt8) : Contents := c.overwrite c.size bytes

/-! ### What is read -/

@[simp] theorem length_read (c : Contents) (offset length : Nat) :
    (c.read offset length).length = min length (c.size - offset) := by
  simp [read]

@[simp] theorem read_zero (c : Contents) (offset : Nat) : c.read offset 0 = [] := by
  simp [read]

/-- A read that starts at or past the end finds nothing. -/
theorem read_of_size_le (c : Contents) {offset : Nat} (length : Nat) (h : c.size ≤ offset) :
    c.read offset length = [] := by
  simp [read, Nat.sub_eq_zero_of_le h]

/-- Reading in two parts reads the same bytes as reading at once. -/
theorem read_add (c : Contents) (offset m n : Nat) :
    c.read offset (m + n) = c.read offset m ++ c.read (offset + m) n := by
  simp only [read, ← List.map_append]
  congr 1
  rcases Nat.le_total (c.size - offset) m with h | h
  · rw [Nat.min_eq_right (by omega : c.size - offset ≤ m + n), Nat.min_eq_right h,
      show c.size - (offset + m) = 0 by omega, Nat.min_zero]
    simp
  · rw [Nat.min_eq_left h, show c.size - (offset + m) = c.size - offset - m by omega,
      show min (m + n) (c.size - offset) = m + min n (c.size - offset - m) by omega]
    simp

@[simp] theorem toList_ofArray (bytes : Array UInt8) : (ofArray bytes).toList = bytes.toList := by
  apply List.ext_getElem
  · simp [toList, ofArray]
  · intro i h _
    simp only [toList, length_read, ofArray] at h
    simp [toList, read, ofArray, Array.getD, show i < bytes.size by omega]

end Contents

end CompactDisc
