/-!
# CompactDisc.Storage.Fault

**What can go wrong when a file is opened or read.**
-/

namespace CompactDisc

/-- A failure of the file system. -/
inductive Fault where
  /-- Nothing has this path. -/
  | notFound
  /-- The path goes on after a file. -/
  | notDirectory
  /-- The path names a directory where a file is needed. -/
  | isDirectory
  /-- A position that no file can have. -/
  | invalidPosition
  /-- The file ends before everything asked for was read. -/
  | unexpectedEnd
  deriving DecidableEq, Repr

/-- The wording of a failure. -/
def Fault.message : Fault → String
  | .notFound => "No such file or directory (os error 2)"
  | .notDirectory => "Not a directory (os error 20)"
  | .isDirectory => "Is a directory (os error 21)"
  | .invalidPosition => "Invalid argument (os error 22)"
  | .unexpectedEnd => "failed to fill whole buffer"

end CompactDisc
