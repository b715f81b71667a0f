import CompactDisc.Command.Arguments
import CompactDisc.Command.Outcome
import CompactDisc.Pcm.Header

/-!
# CompactDisc.Command.Sound

**Keeping the sound of a track, or of any span of sectors, in a file.**

The span is played to its end by a player with an output of its own, as it would be heard; the file is
created when that is done. It has two channels, and the rate of the source that was played last.
-/

namespace CompactDisc.Command

/-- The first sector of a span and the number of its sectors. -/
def Span.place (disc : Disc) : Span → Except Failure (Nat × Nat)
  | .sectors start length => .ok (start, length)
  | .track number =>
    match disc.tracks.dropLast.reverse.find? (·.number = number) with
    | none => .error { message := s!"Track {number} does not exist" }
    | some found =>
      if found.isAudio then .ok (found.start, found.length)
      else .error { message := s!"Track {number} is a data track" }

/-- Plays sectors to the end, `frames` sample frames at a time, and gives the rate and the samples that
were heard. -/
def hear (drive : Drive) (d : Deck) (start length frames : Nat) :
    Except Failure (Nat × List Int16) :=
  match drive.play start length d with
  | (.error e, _) => .error (.ofDrive e)
  | (.ok (), d) =>
    let d := d.playOut frames
    let rate := d.channel?.elim 0 (·.rate)
    .ok (if rate = 0 then RedBook.sampleRate else rate, d.drain.1)

/-- Keeps the sound of a span in a file. -/
def ripSound (storage : Storage) (input output : String) (span : Span) (force : Bool)
    (frames : Nat) : Except Failure Outcome := do
  checkOutput storage output force
  if frames = 0 then throw { message := "--frames must be at least 1" }
  let (drive, d) ← openImage storage input .attached
  let (start, length) ← span.place drive.disc
  let (rate, samples) ← hear drive d start length frames
  let _ ← (storage.target output).mapError .ofFault
  match Pcm.file? RedBook.channels rate samples with
  | some bytes => return { written := some ⟨output, bytes.toArray⟩ }
  | none =>
    let message := s!"{samples.length} samples do not fit in a WAVE file"
    return { Outcome.failed { message } with written := some ⟨output, #[]⟩ }

end CompactDisc.Command
