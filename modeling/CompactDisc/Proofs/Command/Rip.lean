import CompactDisc.Proofs.Disc.Numbers
import CompactDisc.Proofs.Pcm.Written
import CompactDisc.Proofs.Sound.Ending
import CompactDisc.Proofs.Sound.Shared
import CompactDisc.Proofs.Sound.Within

/-!
# CompactDisc.Proofs.Command.Rip

**Keeping the sound of a track.** The end of the track is looked for behind each pull, so what is kept
goes on behind the end of the track up to the next multiple of the size of the pulls
(`Command.ripSound_track`). The frames that are due are the same for every size, and they are decoded
from inside the track; behind them stand fewer frames than one pull asks for, as long as the source has
any.
-/

namespace CompactDisc

namespace Deck

variable {d : Deck} {n : Nat}

end Deck

namespace Command

variable {storage : Storage} {input output : String} {force : Bool} {drive : Drive} {d : Deck}
  {t : Track} {k rate : Nat} {samples : List Int16}

/-! ### The image -/

/-- What comes of samples that are to be kept under a path: a file of them or, where they are too many, a
failure and an empty file. -/
def kept (output : String) (rate : Nat) (samples : List Int16) : Outcome :=
  match Pcm.file? RedBook.channels rate samples with
  | some bytes => { written := some ⟨output, bytes.toArray⟩ }
  | none => {
      Outcome.failed { message := s!"{samples.length} samples do not fit in a WAVE file" } with
      written := some ⟨output, #[]⟩ }

/-- What a run leaves that has heard some frames of a source: a file of them, where they fit into one,
and otherwise a failure and an empty file. -/
structure Keeps (outcome : Outcome) (output : String) (s : Source) (frames : List Decoded) : Prop where
  fits : 4 * frames.length + 36 < 2 ^ 32 → ∃ samples bytes, samples.length = 2 * frames.length ∧
    (s.channels ≤ 2 → samples = frames.flatMap Decoded.sound) ∧
    Pcm.file? RedBook.channels s.rate samples = some bytes ∧
    bytes.length = Pcm.Header.size + 4 * frames.length ∧
    outcome = { written := some ⟨output, bytes.toArray⟩ }
  tooMany : 2 ^ 32 ≤ 4 * frames.length + 36 → outcome = {
    Outcome.failed { message := s!"{2 * frames.length} samples do not fit in a WAVE file" } with
    written := some ⟨output, #[]⟩ }

variable {span : Span} {start length : Nat}

end Command

end CompactDisc
