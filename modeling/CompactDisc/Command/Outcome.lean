import CompactDisc.Drive.Basic

/-!
# CompactDisc.Command.Outcome

**What a run of the program leaves behind**: the exit code, the two output texts, and the file that was
written if one was.

Exit code 1 reports a `Failure`, with the failure behind it if there is one; exit code 2 reports words
that are not a request.
-/

namespace CompactDisc.Command

/-- A failure to report. -/
structure Failure where
  message : String
  /-- The failure behind it. -/
  cause : Option String := none
  deriving DecidableEq, Repr

namespace Failure

/-- The report of a failure. -/
def text (f : Failure) : String :=
  "Error: " ++ f.message ++ f.cause.elim "" ("\n\nCaused by:\n    " ++ ·) ++ "\n"

/-- A failure of the file system. -/
def ofFault (fault : Fault) : Failure := { message := fault.message }

/-- A failure of a drive. -/
def ofDrive (e : DriveError) : Failure := ⟨e.message, e.cause?.map (·.message)⟩

example : (text ⟨"no disc", some "no drive"⟩) = "Error: no disc\n\nCaused by:\n    no drive\n" := rfl

end Failure

/-- A file that was written. -/
structure Written where
  path : String
  bytes : Array UInt8
  deriving DecidableEq, Repr

/-- The result of a run. -/
structure Outcome where
  exitCode : Nat := 0
  output : String := ""
  complaint : String := ""
  written : Option Written := none
  deriving DecidableEq, Repr

namespace Outcome

/-- A run that ends with a failure. -/
def failed (f : Failure) : Outcome := { exitCode := 1, complaint := f.text }

/-- A run that does not know what to do. -/
def misused (complaint : String) : Outcome := { exitCode := 2, complaint }

/-- The storage after a run. -/
def storage (o : Outcome) (before : Storage) : Storage :=
  match o.written with
  | none => before
  | some file => (before.write file.path (.ofArray file.bytes)).toOption.getD before

@[simp] theorem exitCode_failed (f : Failure) : (failed f).exitCode = 1 := rfl

@[simp] theorem storage_failed (f : Failure) (before : Storage) :
    (failed f).storage before = before := rfl

end Outcome

/-- Puts the image at `path` into a new drive. -/
def openImage (storage : Storage) (path : String) (d : Deck) : Except Failure (Drive × Deck) :=
  let (drive, d) := Drive.blank d
  match drive.insert (.ofStorage storage) path d with
  | (.error e, _, _) => .error (.ofDrive e)
  | (.ok (), drive, d) => .ok (drive, d)

/-- Refuses to write over what is there unless this is forced. -/
def checkOutput (storage : Storage) (path : String) (force : Bool) : Except Failure Unit :=
  if storage.contains path ∧ force = false then
    .error { message := path ++ " already exists, pass --force to overwrite it" }
  else .ok ()

@[simp] theorem checkOutput_forced (storage : Storage) (path : String) :
    checkOutput storage path true = .ok () := by
  simp [checkOutput]

end CompactDisc.Command
