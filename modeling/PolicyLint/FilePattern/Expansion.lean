import PolicyLint.FilePattern.Basic
import PolicyLint.Host.Tree
/-!
The paths of a tree that a file pattern names. A pattern is followed component by component: one
without wildcards is looked up, one with wildcards is compared with the names in a directory, and
`**` goes through everything below.
-/
namespace PolicyLint.FilePattern

/-- A path one name further; the current directory is not written. -/
def extend (path name : String) : String :=
  if Path.components path = [.current] then name else Path.join path name

/-- Everything below a directory, as paths and their last names. -/
def pathsBelow (tree : FileTree) (base : Place) (path : String) : List (String × String) :=
  match tree.resolve base path with
  | .ok place =>
    (tree.below place).map fun e =>
      (extend path (Text.join "/" e.1), (e.1.getLast?).getD "")
  | .error _ => []

/-- What stands in a directory itself, as paths and names. -/
def pathsIn (tree : FileTree) (base : Place) (path : String) : List (String × String) :=
  match tree.resolve base path with
  | .ok place =>
    (tree.below place).filterMap fun e =>
      match e.1 with
      | [name] => some (extend path name, name)
      | _ => none
  | .error _ => []

/-- The entries for a directory itself and the one above, for which a pattern must begin with a
dot. -/
def dots (pieces : List Piece) (path : String) : List String :=
  if pieces.head? = some (.char '.') then
    ([".", ".."].filter fun name => matchesName pieces name.toList).map (Path.join path)
  else []

/-- Paths that the components lead to from a path. -/
def follow (tree : FileTree) (base : Place) (path : String) : List (List Piece) → List String
  | [] => [path]
  | [[.deep]] =>
    ((pathsBelow tree base path).map Prod.fst).filter (tree.isDirectoryAt base)
  | [.deep] :: pieces :: rest =>
    ((pathsBelow tree base path).filter fun e => matchesName pieces e.2.toList).flatMap fun e =>
      follow tree base e.1 rest
  | pieces :: rest =>
    match literal? pieces with
    | some name =>
      let next := extend path name
      let isThere := if name = "." ∨ name = ".." then tree.isDirectoryAt base path
        else tree.pathExists base next
      if isThere then follow tree base next rest else []
    | none =>
      if tree.isDirectoryAt base path then
        (((pathsIn tree base path).filter fun e => matchesName pieces e.2.toList).map Prod.fst ++
          dots pieces path).flatMap fun next => follow tree base next rest
      else []

/-- The pieces between slashes; nothing follows a slash at the end. -/
def componentsOf (pattern : String) : List String :=
  let pieces := Text.splitOn '/' pattern
  if pieces.getLast? = some "" then pieces.dropLast else pieces

/-- Several `**` in a row say no more than one. -/
def mergeDeep : List (List Piece) → List (List Piece)
  | [.deep] :: [.deep] :: rest => mergeDeep ([.deep] :: rest)
  | pieces :: rest => pieces :: mergeDeep rest
  | [] => []

/-- The paths of a pattern. A slash at its end asks for directories. -/
def expand (tree : FileTree) (base : Place) (pattern : String) : Except Fault (List String) := do
  let _ ← parse pattern
  let start := if Path.isAbsolute pattern then "/" else "."
  let rest := if Path.isAbsolute pattern then String.ofList (pattern.toList.drop 1) else pattern
  let components ← (componentsOf rest).mapM parse
  let components := if rest = "" then [[]] else components
  let paths := follow tree base start (mergeDeep components)
  return if Text.endsWith "/" pattern then paths.filter (tree.isDirectoryAt base) else paths

end PolicyLint.FilePattern
