import CompactDisc.Text.Pieces

/-!
# CompactDisc.Storage.Path

**Paths as text**, with `/` between the names.

Design points:

* A path is kept as it was written, because reports and error texts show it so; only taking a path
  apart looks at its names.
* Separators at the end, doubled separators and single dots between names do not count: `a//b/.` has
  the parent `a` and the file name `b`.
-/

namespace CompactDisc.Path

/-- Whether the path starts at the root. -/
def isAbsolute (path : String) : Bool := path.toList.head? == some '/'

/-- The names along the path, empty ones and dots included. -/
def names (path : String) : List String := (pieces '/' path.toList).map String.ofList

/-- A path read backwards, without the separators and single dots that follow its last name. -/
def trimEnd : List Char → List Char
  | ['/'] => ['/']
  | '/' :: rest => trimEnd rest
  | '.' :: '/' :: rest => trimEnd ('/' :: rest)
  | text => text

/-- The directory part of a path: what precedes its last name, and nothing for a lone name. -/
def parent (path : String) : String :=
  match trimEnd path.toList.reverse with
  | ['/'] => ""
  | text => String.ofList (trimEnd (text.dropWhile (· != '/'))).reverse

/-- The last name of a path; nothing for the root and for a path that ends by going up. -/
def fileName (path : String) : String :=
  match (trimEnd path.toList.reverse).takeWhile (· != '/') with
  | ['.', '.'] => ""
  | ['.'] => ""
  | text => String.ofList text.reverse

/-- The path `path` seen from the directory `dir`. -/
def join (dir path : String) : String :=
  if isAbsolute path then path
  else if dir.isEmpty then path
  else if dir.toList.getLast? == some '/' then dir ++ path
  else dir ++ "/" ++ path

/-- The path with backward slashes turned into separators. -/
def withSlashes (path : String) : String :=
  String.ofList (path.toList.map fun c => if c = '\\' then '/' else c)

@[simp] theorem join_empty (path : String) : join "" path = path := by
  simp [join]

example : parent "discs/game.cue" = "discs" ∧ parent "game.cue" = "" := by cbv
example : fileName "discs//audio/./" = "audio" ∧ parent "discs//audio/./" = "discs" := by
  cbv

end CompactDisc.Path
