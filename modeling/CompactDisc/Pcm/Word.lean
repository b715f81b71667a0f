/-!
# CompactDisc.Pcm.Word

**Numbers in bytes**, least significant byte first unless a byte order says otherwise.

Design points:

* `Word.bytes width n` always has `width` bytes and drops the bits above them; `Word.value` reads any
  number of bytes. They are inverse to each other below `256 ^ width`.
* A sample is a signed number of sixteen bits. Samples in a file are little-endian; a source may hand
  them on in either order, and `Sample.read` takes both.
-/

namespace CompactDisc

/-- Which byte of a number comes first. -/
inductive ByteOrder where
  | little
  | big
  deriving DecidableEq, Repr, Inhabited

namespace Word

/-- The `width` bytes of `n`, the lowest first. -/
def bytes : Nat → Nat → List UInt8
  | 0, _ => []
  | width + 1, n => UInt8.ofNat (n % 256) :: bytes width (n / 256)

/-- The number with the given bytes, the lowest first. -/
def value : List UInt8 → Nat
  | [] => 0
  | b :: rest => b.toNat + 256 * value rest

@[simp] theorem bytes_zero (n : Nat) : bytes 0 n = [] := rfl

@[simp] theorem value_nil : value [] = 0 := rfl

@[simp] theorem value_cons (b : UInt8) (rest : List UInt8) :
    value (b :: rest) = b.toNat + 256 * value rest := rfl

@[simp] theorem length_bytes (width n : Nat) : (bytes width n).length = width := by
  induction width generalizing n with
  | zero => rfl
  | succ width ih => simp [bytes, ih]

/-- Reading back gives the number without the bits that did not fit. -/
theorem value_bytes (width n : Nat) : value (bytes width n) = n % Nat.pow 256 width := by
  induction width generalizing n with
  | zero => simp [Nat.mod_one]
  | succ width ih =>
    have byte : (UInt8.ofNat (n % 256)).toNat = n % 256 := by simp
    have power : Nat.pow 256 (width + 1) = 256 * Nat.pow 256 width := Nat.pow_succ'
    rw [bytes, value_cons, ih, byte, power, Nat.mod_mul]

/-- The number in `width` bytes at position `offset` of a byte list. -/
def at? (bytes : List UInt8) (offset width : Nat) : Option Nat :=
  let field := (bytes.drop offset).take width
  if field.length = width then some (value field) else none

end Word

namespace Sample

/-- The sample in two bytes. -/
def ofBytes (order : ByteOrder) (first second : UInt8) : Int16 :=
  match order with
  | .little => (UInt16.ofNat (first.toNat + 256 * second.toNat)).toInt16
  | .big => (UInt16.ofNat (second.toNat + 256 * first.toNat)).toInt16

/-- The two bytes of a sample, the lower first. -/
def toBytes (s : Int16) : List UInt8 := Word.bytes 2 s.toUInt16.toNat

/-- Reads samples behind those in `done`, which are in reverse. -/
def readOnto (order : ByteOrder) (done : List Int16) : List UInt8 → List Int16
  | first :: second :: rest => readOnto order (ofBytes order first second :: done) rest
  | _ => done.reverse

/-- The samples in a byte string; an odd last byte is left over. -/
def read (order : ByteOrder) (bytes : List UInt8) : List Int16 := readOnto order [] bytes

/-- The bytes of samples, in little-endian order. -/
def write (samples : List Int16) : List UInt8 := samples.flatMap toBytes

theorem readOnto_eq (order : ByteOrder) (done : List Int16) :
    ∀ bytes, readOnto order done bytes = done.reverse ++ readOnto order [] bytes
  | [] => by simp [readOnto]
  | [_] => by simp [readOnto]
  | first :: second :: rest => by
    rw [readOnto, readOnto_eq order _ rest, readOnto, readOnto_eq order [_] rest]
    simp

@[simp] theorem read_nil (order : ByteOrder) : read order [] = [] := rfl

@[simp] theorem read_singleton (order : ByteOrder) (b : UInt8) : read order [b] = [] := rfl

@[simp] theorem read_cons_cons (order : ByteOrder) (first second : UInt8) (rest : List UInt8) :
    read order (first :: second :: rest) = ofBytes order first second :: read order rest := by
  rw [read, readOnto, readOnto_eq]
  rfl

/-- The bytes of a sample give the sample. -/
theorem ofBytes_little (s : Int16) :
    ofBytes .little (UInt8.ofNat (s.toUInt16.toNat % 256))
      (UInt8.ofNat (s.toUInt16.toNat / 256 % 256)) = s := by
  have hs := s.toUInt16.toNat_lt
  have whole : s.toUInt16.toNat % 256 + 256 * (s.toUInt16.toNat / 256 % 256)
      = s.toUInt16.toNat := by omega
  simp only [ofBytes, UInt8.toNat_ofNat', Nat.mod_mod, Nat.reducePow]
  rw [whole, UInt16.ofNat_toNat]
  simp

/-- Reading what was written gives the same samples. -/
@[simp] theorem read_write (samples : List Int16) : read .little (write samples) = samples := by
  induction samples with
  | nil => rfl
  | cons s rest ih =>
    have split : write (s :: rest) = UInt8.ofNat (s.toUInt16.toNat % 256)
        :: UInt8.ofNat (s.toUInt16.toNat / 256 % 256) :: write rest := by
      simp [write, toBytes, Word.bytes]
    rw [split, read_cons_cons, ih, ofBytes_little]

end Sample

end CompactDisc
