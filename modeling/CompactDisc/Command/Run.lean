import CompactDisc.Command.Arguments
import CompactDisc.Command.Image
import CompactDisc.Command.Manual
import CompactDisc.Command.Settings
import CompactDisc.Command.Sound

/-!
# CompactDisc.Command.Run

**The program as a function** of the variables that are set for it, the files there are and the words
it is called with.
-/

namespace CompactDisc.Command

/-- A run, whether it fails early or not. -/
def Outcome.ofResult : Except Failure Outcome → Outcome
  | .ok outcome => outcome
  | .error f => .failed f

/-- Carries out a request. -/
def Request.run (storage : Storage) : Request → Outcome
  | .info input => listTracks storage input
  | .read input output start count force raw =>
    .ofResult (copySectors storage input output start count force raw)
  | .rip input output span force frames =>
    .ofResult (ripSound storage input output span force frames)

/-- Runs the program with the words after its name. -/
def run (given : Settings) (storage : Storage) (words : List String) : Outcome :=
  let emphasis := (given.load storage).emphasis
  match Request.parse words with
  | .ok request => request.run storage
  | .error (.help topic) => { output := (page topic).text emphasis }
  | .error .version => { output := Text.lines [version] }
  | .error .wrong => .misused (mainPage.text emphasis)

end CompactDisc.Command
