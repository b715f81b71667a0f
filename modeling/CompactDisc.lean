import CompactDisc.Rounding
import CompactDisc.RedBook
import CompactDisc.Msf
import CompactDisc.Storage.Tree
import CompactDisc.Text.Blank
import CompactDisc.Text.Numeral
import CompactDisc.Text.Pieces
import CompactDisc.Text.Styled
import CompactDisc.Text.Utf8
import CompactDisc.Pcm.Word
import CompactDisc.Pcm.Header
import CompactDisc.Pcm.Encoding
import CompactDisc.Pcm.StreamError
import CompactDisc.Pcm.Signature
import CompactDisc.Pcm.Chunk
import CompactDisc.Pcm.Format
import CompactDisc.Pcm.Stream
import CompactDisc.Pcm.Decoder
import CompactDisc.Pcm.Form
import CompactDisc.Source.Basic
import CompactDisc.Source.Cursors
import CompactDisc.Source.State
import CompactDisc.Program.Disc
import CompactDisc.Program.Layout
import CompactDisc.Sheet.Command
import CompactDisc.Sheet.Lines
import CompactDisc.Sheet.Load
import CompactDisc.Sound.Channel
import CompactDisc.Sound.Mixer
import CompactDisc.Sound.Player
import CompactDisc.Volume.Descriptor
import CompactDisc.Volume.Load
import CompactDisc.Drive.Basic
import CompactDisc.Drive.Letters
import CompactDisc.Command.Arguments
import CompactDisc.Command.Report
import CompactDisc.Command.Run
import CompactDisc.Command.Settings
import CompactDisc.Main
import CompactDisc.Proofs.Layout.Entry
import CompactDisc.Proofs.Layout.Order
import CompactDisc.Proofs.Layout.OneSource
import CompactDisc.Proofs.Layout.Block
import CompactDisc.Proofs.Layout.Blocks
import CompactDisc.Proofs.Sheet.Entries
import CompactDisc.Proofs.Sheet.Described
import CompactDisc.Proofs.Sheet.Blocks
import CompactDisc.Proofs.Disc.Loaded
import CompactDisc.Proofs.Disc.Partition
import CompactDisc.Proofs.Disc.Owner
import CompactDisc.Proofs.Disc.Numbers
import CompactDisc.Proofs.Disc.Positions
import CompactDisc.Proofs.Drive.Sectors
import CompactDisc.Proofs.Sound.Effect
import CompactDisc.Proofs.Sound.Session
import CompactDisc.Proofs.Source.Decode
import CompactDisc.Proofs.Drive.Undisturbed
import CompactDisc.Proofs.Sound.Route
import CompactDisc.Proofs.Disc.Files
import CompactDisc.Proofs.Sound.Separate
import CompactDisc.Proofs.Sound.Shared
import CompactDisc.Proofs.Sound.Behaviour
import CompactDisc.Proofs.Sound.Rest
import CompactDisc.Proofs.Sound.Ending
import CompactDisc.Proofs.Source.Frames
import CompactDisc.Proofs.Pcm.Packets
import CompactDisc.Proofs.Source.Calls
import CompactDisc.Proofs.Source.Portions
import CompactDisc.Proofs.Drive.Slots
import CompactDisc.Proofs.Sound.Passages
import CompactDisc.Proofs.Sound.Heard
import CompactDisc.Proofs.Sound.Within
import CompactDisc.Proofs.Sheet.Lines
import CompactDisc.Proofs.Sheet.Handed
import CompactDisc.Proofs.Sheet.Fields
import CompactDisc.Proofs.Sheet.Windows
import CompactDisc.Proofs.Pcm.Duration
import CompactDisc.Proofs.Pcm.Written
import CompactDisc.Proofs.Pcm.RoundTrip
import CompactDisc.Proofs.Pcm.Clock
import CompactDisc.Proofs.Text.Position
import CompactDisc.Proofs.Sound.Forwarded
import CompactDisc.Proofs.Sound.Recorded
import CompactDisc.Proofs.Sound.Consecutive
import CompactDisc.Proofs.Command.Rip
import CompactDisc.Proofs.Command.Copy
import CompactDisc.Proofs.Layout.Stack
import CompactDisc.Proofs.Sheet.Songs
import CompactDisc.Proofs.Sheet.Kinds
import CompactDisc.Proofs.Disc.Reported
import CompactDisc.Proofs.Letters.Drives
import CompactDisc.Proofs.Letters.Lifecycle
import CompactDisc.Proofs.Sound.Reached
import CompactDisc.Proofs.Disc.Openings
import CompactDisc.Proofs.Sound.Beside
import CompactDisc.Proofs.Letters.Apart
import CompactDisc.Proofs.Disc.Image
import CompactDisc.Proofs.Sound.Continued
import CompactDisc.Proofs.Drive.Replaced
import CompactDisc.Proofs.Layout.Refused
import CompactDisc.Proofs.Sound.Requests
import CompactDisc.Proofs.Sound.Pauses
import CompactDisc.Proofs.Layout.Words
import CompactDisc.Proofs.Disc.Words
