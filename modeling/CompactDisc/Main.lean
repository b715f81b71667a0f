import CompactDisc.Command.Run

/-!
# CompactDisc.Main

**The program**: brings the files that a request is about into a `Storage`, runs it, and writes what
it leaves behind.

The files are the image, those that it names if it is a cue sheet, and the output, besides the file of
settings. Every directory on the way to them is brought along, so that paths lead where they lead
outside.
-/

namespace CompactDisc

/-- What is found under a path. -/
def probe (path : String) : IO (Option Node) := do
  try
    let bytes ← IO.FS.readBinFile path
    return some (.file (.ofBytes bytes))
  catch
    | .inappropriateType .. => return some .directory
    | _ => return none

/-- Brings what is under a path into the storage, with all that is on the way. -/
def bring (storage : Storage) (path : String) : IO Storage := do
  let mut storage := storage
  let mut here := ""
  let mut first := true
  for name in Path.names path do
    here := if first then name else here ++ "/" ++ name
    first := false
    match storage.locate here with
    | .error _ => pure ()
    | .ok loc =>
      if (storage.node? loc).isNone then
        if let some node ← probe here then storage := storage.insert loc node
  return storage

/-- Brings everything that a request is about into a storage. -/
def gather (storage : Storage) (request : Command.Request) : IO Storage := do
  let input := request.input
  let mut storage ← bring storage input
  if let some output := request.output? then storage ← bring storage output
  if let .ok (.file contents) := storage.get input then
    for name in Sheet.fileNames contents do
      for path in Sheet.Resolver.candidates name (Path.parent input) do
        storage ← bring storage path
  return storage

/-- The variables that are set for the program. -/
def given : IO Command.Settings := do
  let mut settings := []
  for name in Command.Settings.names do
    if let some value ← IO.getEnv name then settings := settings ++ [(name, value)]
  return settings

end CompactDisc

open CompactDisc in
def main (words : List String) : IO UInt32 := do
  let storage ← bring .empty Command.Settings.path
  let storage ← match Command.Request.parse words with
    | .ok request => gather storage request
    | .error _ => pure storage
  let outcome := Command.run (← given) storage words
  if let some file := outcome.written then IO.FS.writeBinFile file.path ⟨file.bytes⟩
  IO.print outcome.output
  IO.eprint outcome.complaint
  return UInt32.ofNat outcome.exitCode
