import CompactDisc.Pcm.Form
import CompactDisc.Source.Error
import CompactDisc.Storage.Tree

/-!
# CompactDisc.Source.Basic

**Sources**: the opened files that hold the sectors and the sound of tracks.

Design points:

* A source is a value: its identity, the path it was opened by, the bytes behind it and how they are
  read. All that changes while it is used is one number, its *cursor*, which the operations take and
  give back: a byte position for a file of sectors, a sample position for sound that is decoded.
* Opening the same file twice gives two sources. Tracks belong together exactly if their sources have
  the same `id`.
* A source of sectors remembers the length its file had when it was opened; reading looks at the
  bytes that are there when it happens.
-/

namespace CompactDisc

/-- How the file of a source is read. -/
inductive Source.Kind where
  /-- Sectors as they are. -/
  | binary
  /-- Sound in a container. -/
  | audio
  deriving DecidableEq, Repr

/-- The kind that a file type names: only `BINARY` stands for sectors. -/
def Source.Kind.ofName (name : String) : Source.Kind :=
  if name = "BINARY" then .binary else .audio

/-- What opening a source found out. -/
inductive Source.Format where
  /-- Sectors; the length of the file. -/
  | binary (length : Nat)
  /-- Samples inside a file. -/
  | stream (stream : Pcm.Stream)
  deriving DecidableEq, Repr

/-- An opened file. -/
structure Source where
  /-- Distinguishes this opening from every other. -/
  id : Nat
  path : String
  /-- The bytes, unless the path names a directory. -/
  contents : Option Contents
  format : Source.Format

namespace Source

/-- The order of bytes in a sample of the host. -/
def hostOrder : ByteOrder := .little

/-- The length in disc bytes, if it can be told. -/
def length (s : Source) : Option Nat :=
  match s.format with
  | .binary length => some length
  | .stream stream => stream.length?

/-- Sample frames per second. -/
def rate (s : Source) : Nat :=
  match s.format with
  | .binary _ => RedBook.sampleRate
  | .stream stream => stream.rate

/-- Samples in one frame. -/
def channels (s : Source) : Nat :=
  match s.format with
  | .binary _ => RedBook.channels
  | .stream stream => stream.channels

/-- The order of bytes in the samples that are handed on. -/
def byteOrder (s : Source) : ByteOrder :=
  match s.format with
  | .binary _ => .little
  | .stream _ => hostOrder

/-- Bytes of one sample frame. -/
def bytesPerFrame (s : Source) : Nat := max s.channels 1 * 2

/-! ### Opening -/

/-- What a node is when read in a given way; `size` is the size of a directory. -/
def formatOf (path : String) (size : Nat) : Kind → Node → Except SourceError Format
  | .binary, .file contents => .ok (.binary contents.size)
  | .binary, .directory => .ok (.binary size)
  | .audio, .directory => .error (.undecodable .unrecognized)
  | .audio, .file contents =>
    match Pcm.Stream.find contents with
    | .ok (some stream) => .ok (.stream stream)
    | .ok none => .error (.noStream path)
    | .error cause => .error (.undecodable cause)

/-- Opens what a path names, under a new identity. -/
def openAs (storage : Storage) (path : String) (kind : Kind) (id : Nat) :
    Except SourceError Source :=
  match storage.get path with
  | .error fault => .error (.storage fault)
  | .ok node =>
    let size := (storage.locate path).toOption.elim 0 storage.directorySize
    match formatOf path size kind node with
    | .error e => .error e
    | .ok format =>
      let contents := match node with
        | .file contents => some contents
        | .directory => none
      .ok { id, path, contents, format }

/-- The source with the bytes that its file has now. A source whose file cannot be found any more
keeps what it has. -/
def refresh (s : Source) (storage : Storage) : Source :=
  match storage.get s.path with
  | .ok (.file contents) => { s with contents := some contents }
  | _ => s

@[simp] theorem id_refresh (s : Source) (storage : Storage) : (s.refresh storage).id = s.id := by
  unfold refresh
  split <;> rfl

@[simp] theorem format_refresh (s : Source) (storage : Storage) :
    (s.refresh storage).format = s.format := by
  unfold refresh
  split <;> rfl

/-! ### Positioned access -/

/-- The size of the longest file there can be: blocks of 4096 bytes with numbers of 32 bits, the last
of which is not used. -/
def maxFileSize : Nat := 0xFFFFFFFF * 4096

/-- The last position that can be gone to. In a file this is where the longest one ends; positions in a
directory count no bytes and have 63 bits. -/
def lastPosition (s : Source) : Nat :=
  s.contents.elim 0x7FFFFFFFFFFFFFFF fun contents => max maxFileSize contents.size

/-- The bytes of the file from a position on, at most `length` of them. -/
def bytesAt (s : Source) (offset length : Nat) : List UInt8 :=
  (s.contents.getD .empty).read offset length

/-- Moves to a disc byte. -/
def seek (s : Source) (offset cursor : Nat) : Except SourceError Unit × Nat :=
  match s.format with
  | .binary _ =>
    if offset ≤ s.lastPosition then (.ok (), offset)
    else (.error (.storage .invalidPosition), cursor)
  | .stream stream =>
    let frame := stream.frameAt (Pcm.Stream.millisecond offset)
    if stream.block = 0 then (.error .unseekable, cursor)
    else if frame ≤ stream.size / stream.block then (.ok (), stream.sampleAt frame)
    else (.error .outOfRange, cursor)

/-- Decoded sound. -/
structure Sound where
  /-- Whole sample frames. -/
  frames : Nat
  /-- The bytes written, which may go on into a frame that is not whole. -/
  bytes : List UInt8
  deriving DecidableEq, Repr

/-- Decodes at most `frames` sample frames, as far as they fit into `room` bytes. Sectors are read as
they stand and the last frame is filled up with zeros. -/
def decode (s : Source) (frames room cursor : Nat) : Sound × Nat :=
  match s.format with
  | .binary _ =>
    let size := RedBook.bytesPerSampleFrame
    let found := s.bytesAt cursor (min (frames * size) (room - room % size))
    let whole := (found.length + size - 1) / size
    ({ frames := whole, bytes := found ++ List.replicate (whole * size - found.length) 0 },
      cursor + found.length)
  | .stream stream =>
    let contents := s.contents.getD .empty
    let samples := stream.playable contents * stream.channels
    let count := min (min (frames * stream.channels) (room / 2)) (samples - cursor)
    ({ frames := count / stream.channels, bytes := stream.samplesAt contents cursor count },
      cursor + count)

/-- Reads exactly `length` bytes from a disc byte on. Sound is decoded, and silence follows its
end. -/
def read (s : Source) (offset length cursor : Nat) : Except SourceError (List UInt8) × Nat :=
  match s.seek offset cursor with
  | (.error e, cursor) => (.error e, cursor)
  | (.ok (), cursor) =>
    match s.format with
    | .binary _ =>
      let found := s.bytesAt cursor length
      if s.contents.isNone ∧ 0 < length then (.error (.storage .isDirectory), cursor)
      else if found.length < length then
        (.error (.storage .unexpectedEnd), cursor + found.length)
      else (.ok found, cursor + found.length)
    | .stream _ =>
      let (sound, cursor) := s.decode (length / s.bytesPerFrame) length cursor
      if sound.frames = 0 then (.error (.noData offset), cursor)
      else
        let kept := sound.bytes.take (sound.frames * s.bytesPerFrame)
        (.ok (kept ++ List.replicate (length - kept.length) 0), cursor)

/-- Reads at most `length` bytes from a position on, fewer where the file ends. -/
def readAvailable (s : Source) (offset length cursor : Nat) :
    Except SourceError (List UInt8) × Nat :=
  match s.seek offset cursor with
  | (.error e, cursor) => (.error e, cursor)
  | (.ok (), cursor) =>
    if s.contents.isNone ∧ 0 < length then (.error (.storage .isDirectory), cursor)
    else
      let found := s.bytesAt cursor length
      (.ok found, cursor + found.length)

/-! ### Small laws -/

/-- Every source has a rate. -/
theorem rate_pos (s : Source) : 0 < s.rate := by
  unfold rate
  split
  · decide
  · exact Pcm.Format.rate_pos _

@[simp] theorem bytesPerFrame_pos (s : Source) : 0 < s.bytesPerFrame := by
  unfold bytesPerFrame
  omega

/-- A position that is refused leaves the cursor where it was. -/
theorem seek_error {s : Source} {offset cursor : Nat} {e : SourceError}
    (h : (s.seek offset cursor).1 = .error e) : (s.seek offset cursor).2 = cursor := by
  cases hf : s.format <;> simp only [seek, hf] at h ⊢ <;> repeat' split
  all_goals simp_all

/-- Where a position is accepted, the cursor does not depend on where it was. -/
theorem seek_ok {s : Source} {offset cursor cursor' : Nat}
    (h : (s.seek offset cursor).1 = .ok ()) : s.seek offset cursor' = s.seek offset cursor := by
  cases hf : s.format <;> simp only [seek, hf] at h ⊢ <;> repeat' split
  all_goals simp_all

end Source

end CompactDisc
