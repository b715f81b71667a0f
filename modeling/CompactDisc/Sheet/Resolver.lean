import CompactDisc.Storage.Tree

/-!
# CompactDisc.Sheet.Resolver

**Finding the files that a sheet names.**

A name is tried as it is written, then next to the sheet, and then both again with backward slashes
turned into separators, as sheets from other systems have them.
-/

namespace CompactDisc.Sheet

/-- Turns a name in a sheet, and the directory of that sheet, into a path. -/
structure Resolver where
  resolve : (name dir : String) → Option String

namespace Resolver

/-- The paths that a name may stand for, in the order in which they are tried. -/
def candidates (name dir : String) : List String :=
  [name, Path.withSlashes name].flatMap fun name => [name, Path.join dir name]

/-- Finds the first candidate that is a file. -/
def search (storage : Storage) : Resolver :=
  ⟨fun name dir => (candidates name dir).find? storage.isFile⟩

/-- Looks names up in a table; a name that is not there is not found. -/
def table (entries : List (String × Option String)) : Resolver :=
  ⟨fun name _ => (entries.lookup name).join⟩

/-- What is found by searching is a file. -/
theorem isFile_of_search {storage : Storage} {name dir path : String}
    (h : (search storage).resolve name dir = some path) : storage.isFile path = true :=
  List.find?_some h

end Resolver

end CompactDisc.Sheet
