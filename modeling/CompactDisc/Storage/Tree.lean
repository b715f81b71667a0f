import CompactDisc.Storage.Contents
import CompactDisc.Storage.Fault
import CompactDisc.Storage.Path

/-!
# CompactDisc.Storage.Tree

**Files and directories by name**, as far as a disc image looks at them.

Design points:

* A `Location` is where a path leads after its names have been followed; a `Storage` lists what is
  at each location. The working directory, the directories around it and the root are always there.
* `Storage.follow` takes one name after another. Each step needs a directory to stand in, so a path
  that goes on after a file fails even where the next name is a dot.
-/

namespace CompactDisc

/-- What a path can name. -/
inductive Node where
  | file (contents : Contents)
  | directory

/-- A place in the tree: names from the root or from the working directory. -/
structure Location where
  absolute : Bool
  /-- The innermost name first. -/
  names : List String
  deriving DecidableEq, Repr

namespace Location

/-- Where a path starts. -/
def origin (path : String) : Location := ⟨Path.isAbsolute path, []⟩

/-- The place called `name` below this one. -/
def child (loc : Location) (name : String) : Location := { loc with names := name :: loc.names }

/-- The directory around this place. Above the working directory the way is kept as it is written,
and the root is its own parent. -/
def parent (loc : Location) : Location :=
  match loc.names with
  | [] => if loc.absolute then loc else loc.child ".."
  | ".." :: _ => loc.child ".."
  | _ :: rest => { loc with names := rest }

/-- Whether this is the root, the working directory or a directory around it. -/
def isOuter (loc : Location) : Bool := loc.names.all (· == "..")

@[simp] theorem isOuter_origin (path : String) : (origin path).isOuter = true := rfl

end Location

/-- Everything that can be found by a path. -/
structure Storage where
  entries : List (Location × Node)
  /-- The size that the file system gives for a directory. -/
  directorySize : Location → Nat := fun _ => 4096

namespace Storage

/-- A working directory with nothing in it. -/
def empty : Storage := { entries := [] }

/-- What is at a location. -/
def node? (s : Storage) (loc : Location) : Option Node :=
  if loc.isOuter then some .directory
  else (s.entries.find? (·.1 = loc)).map (·.2)

/-- Puts a node at a location, in place of what was there. -/
def insert (s : Storage) (loc : Location) (node : Node) : Storage :=
  { s with entries := (loc, node) :: s.entries.filter (·.1 ≠ loc) }

/-- Follows names from a location; the place reached need not exist, but all before it must be
directories. -/
def follow (s : Storage) : Location → List String → Except Fault Location
  | loc, [] => .ok loc
  | loc, name :: rest =>
    match s.node? loc with
    | none => .error .notFound
    | some (.file _) => .error .notDirectory
    | some .directory =>
      if name = "" ∨ name = "." then s.follow loc rest
      else if name = ".." then s.follow loc.parent rest
      else s.follow (loc.child name) rest

/-- Where a path leads. -/
def locate (s : Storage) (path : String) : Except Fault Location :=
  if path.isEmpty then .error .notFound else s.follow (.origin path) (Path.names path)

/-- What a path names. -/
def get (s : Storage) (path : String) : Except Fault Node :=
  match s.locate path with
  | .error e => .error e
  | .ok loc => (s.node? loc).elim (.error .notFound) .ok

/-- Whether a path names a file. -/
def isFile (s : Storage) (path : String) : Bool :=
  match s.get path with
  | .ok (.file _) => true
  | _ => false

/-- Whether a path names anything. -/
def contains (s : Storage) (path : String) : Bool := (s.get path).toOption.isSome

/-- Adds a node at a path whose names are plain, with the directories around it. -/
def place (s : Storage) (path : String) (node : Node) : Storage :=
  let names := (Path.names path).filter fun name => name ≠ "" ∧ name ≠ "."
  let rec make (s : Storage) (loc : Location) : List String → Storage
    | [] => s
    | [name] => s.insert (loc.child name) node
    | name :: rest =>
      let here := loc.child name
      let s := if (s.node? here).isSome then s else s.insert here .directory
      make s here rest
  make s (.origin path) names

/-- Where a file can be written under a path: its directory must exist, and neither may a directory
have its name nor may the path end like that of a directory. -/
def target (s : Storage) (path : String) : Except Fault Location :=
  let names := Path.names path
  let named := (names.reverse.dropWhile (· = "")).reverse
  if path.isEmpty then .error .notFound
  else
    match s.follow (.origin path) named with
    | .error e => .error e
    | .ok loc =>
      if named.length < names.length then .error .isDirectory
      else
        match s.node? loc with
        | some .directory => .error .isDirectory
        | _ => .ok loc

/-- The storage after a file was written under a path, in place of the file that was there. -/
def write (s : Storage) (path : String) (contents : Contents) : Except Fault Storage :=
  (s.target path).map fun loc => s.insert loc (.file contents)

/-! ### What is found -/

@[simp] theorem node?_insert_self (s : Storage) (loc : Location) (node : Node)
    (h : loc.isOuter = false) : (s.insert loc node).node? loc = some node := by
  simp [node?, insert, h]

@[simp] theorem get_empty_path (s : Storage) : s.get "" = .error .notFound := by
  simp [get, locate]

/-- A file found by its path. -/
theorem isFile_iff (s : Storage) (path : String) :
    s.isFile path = true ↔ ∃ contents, s.get path = .ok (.file contents) := by
  unfold isFile
  split <;> simp_all

end Storage

end CompactDisc
