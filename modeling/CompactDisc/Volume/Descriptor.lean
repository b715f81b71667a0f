import CompactDisc.Text.Ascii

/-!
# CompactDisc.Volume.Descriptor

**The descriptor that opens a data volume**, in its two forms: ISO 9660, and High Sierra with eight
bytes of block number before the same fields.
-/

namespace CompactDisc.Volume

/-- The sector that holds the first descriptor. -/
def descriptorSector : Nat := 16

/-- Type, identifier and version of a primary descriptor. -/
def primaryMark (identifier : String) : List UInt8 := 1 :: Text.ascii identifier ++ [1]

/-- Whether the bytes begin with a primary descriptor. -/
def isPrimary (data : List UInt8) : Bool :=
  data.take 7 == primaryMark "CD001" || (data.drop 8).take 7 == primaryMark "CDROM"

@[simp] theorem isPrimary_nil : isPrimary [] = false := rfl

end CompactDisc.Volume
