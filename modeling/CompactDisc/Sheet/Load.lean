import CompactDisc.Program.Disc
import CompactDisc.Program.Layout
import CompactDisc.Sheet.Command
import CompactDisc.Sheet.Lines
import CompactDisc.Sheet.Resolver
import CompactDisc.Source.Cursors
import CompactDisc.Text.Utf8

/-!
# CompactDisc.Sheet.Load

**Loading a disc from a cue sheet.**

Design points:

* A sheet is read line by line; `Progress` is what has been learnt so far. A track is laid out when
  the next `TRACK` or `FILE` line or the end of the sheet shows that its description is complete.
* INDEX and PREGAP lines describe the track that is open. Values that were given before its `TRACK`
  line are dropped there.
* The first failing line decides the error. Within a line, closing the previous track comes before
  reading the fields.
-/

namespace CompactDisc.Sheet

/-- What a sheet is read against. -/
structure Surroundings where
  storage : Storage
  resolver : Resolver
  /-- The directory of the sheet. -/
  dir : String

/-- What has been learnt from the lines so far. -/
structure Progress where
  layout : Layout := .empty
  /-- The source of the last `FILE` line. -/
  source : Option Source := none
  /-- The track whose description is open. -/
  track : Option Track := none
  /-- INDEX 00 of the open track. -/
  prestart : Option Nat := none
  /-- PREGAP of the open track. -/
  pregap : Nat := 0
  catalog : String := ""
  cursors : Cursors

namespace Progress

/-- Lays out the open track. -/
def closeTrack (p : Progress) : Except SheetError Progress :=
  match p.track with
  | none => .ok p
  | some track =>
    match p.layout.add track p.prestart p.pregap with
    | (.error e, _) => .error (.layout e)
    | (.ok (), layout) => .ok { p with layout, track := none }

/-- Carries out a command. -/
def apply (env : Surroundings) (p : Progress) : Command → Except SheetError Progress
  | .track number mode =>
    match p.source with
    | none => .error (.trackWithoutFile number)
    | some source =>
      let track := { number, source := some source : Track }.withMode mode
      .ok { p with track := some track, prestart := none, pregap := 0 }
  | .index number frame =>
    if number = 1 then .ok { p with track := p.track.map ({ · with start := frame }) }
    else if number = 0 then .ok { p with prestart := some frame }
    else .ok p
  | .file name kind =>
    match env.resolver.resolve name env.dir with
    | none => .error (.fileNotFound name)
    | some path =>
      match p.cursors.openSource env.storage path kind with
      | .error e => .error (.source e)
      | .ok (source, cursors) => .ok { p with source := some source, cursors }
  | .pregap frames => .ok { p with pregap := frames }
  | .catalog text => .ok { p with catalog := text }
  | .remark => .ok p

/-- Reads a line. -/
def line (env : Surroundings) (p : Progress) (text : List Char) : Except SheetError Progress := do
  let (word, rest) := (Line.ofChars text).keyword
  match Verb.ofWord? word with
  | none => throw (.unknownCommand word)
  | some verb =>
    let p ← if verb.endsTrack then p.closeTrack else pure p
    p.apply env (← verb.command rest)

/-- Reads the line with a number, and gives the number of the next one. -/
def numberedLine (env : Surroundings) :
    Progress × Nat → RawLine → Except SheetError (Progress × Nat)
  | (_, number), .overlong => .error (.lineTooLong number maxLine)
  | (p, number), .line bytes =>
    (p.line env (Text.Utf8.decode bytes)).map fun p => (p, number + 1)

/-- Lays out what is left and closes the disc. -/
def finish (p : Progress) : Except SheetError Disc := do
  let p ← p.closeTrack
  if p.layout.tracks.isEmpty then throw .noTracks
  match p.layout.close with
  | (.error e, _) => throw (.layout e)
  | (.ok (), layout) => return { tracks := layout.tracks, catalog := p.catalog }

end Progress

/-- The names of the files in a sheet, as far as its lines can be read. -/
def fileNames (contents : Contents) : List String :=
  (Lines.read contents).filterMap fun
    | .overlong => none
    | .line bytes =>
      let (word, rest) := (Line.ofChars (Text.Utf8.decode bytes)).keyword
      (Verb.ofWord? word).bind fun verb =>
        match verb.command rest with
        | .ok (.file name _) => some name
        | _ => none

/-- Loads the disc that the sheet at `path` describes. -/
def load (storage : Storage) (resolver : Resolver) (path : String) (cursors : Cursors) :
    Except SheetError (Disc × Cursors) :=
  match storage.get path with
  | .error fault => .error (.storage fault)
  | .ok .directory => .error (.storage .isDirectory)
  | .ok (.file contents) => do
    let env := { storage, resolver, dir := Path.parent path : Surroundings }
    let (p, _) ← Lines.foldM contents (Progress.numberedLine env) ({ cursors }, 1)
    return (← p.finish, p.cursors)

end CompactDisc.Sheet
