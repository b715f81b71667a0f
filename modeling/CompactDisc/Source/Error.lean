import CompactDisc.Pcm.StreamError
import CompactDisc.Storage.Fault

/-!
# CompactDisc.Source.Error

**Why a source of sectors or sound cannot be opened, read or positioned.**
-/

namespace CompactDisc

/-- A failure of a source. -/
inductive SourceError where
  /-- The file system refuses. -/
  | storage (fault : Fault)
  /-- The file is not sound of a kind that can be decoded. -/
  | undecodable (cause : Pcm.StreamError)
  /-- The position lies behind the end of the sound. -/
  | outOfRange
  /-- The sound has no positions to go to. -/
  | unseekable
  /-- The file holds samples but does not describe them. -/
  | noStream (path : String)
  /-- No sound could be decoded at this byte. -/
  | noData (offset : Nat)
  deriving DecidableEq, Repr

/-- The wording of a failure. -/
def SourceError.message : SourceError → String
  | .storage fault => fault.message
  | .undecodable cause => cause.message
  | .outOfRange => "seek error: requested seek timestamp is out-of-range for stream"
  | .unseekable => "seek error: stream is not seekable"
  | .noStream path => "No decodable audio stream in " ++ path
  | .noData offset => s!"Audio source produced no PCM data at byte {offset}"

end CompactDisc
