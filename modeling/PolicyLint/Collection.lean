import PolicyLint.FilePattern.Expansion
import PolicyLint.Text.Order
/-!
The files of a repository that patterns name, in order and each once, as paths from the root.
Directories that hold no sources of the repository are left out.
-/
namespace PolicyLint.Collection

/-- Directories that are left out wherever they are. -/
def skippedNames : List String := [".git", "node_modules"]

def isSkipped (components : List Path.Component) : Bool :=
  components.any fun
    | .name name => skippedNames.contains name
    | _ => false

/-- The components of a path from the root, or of all of it when it does not start with the root. -/
def fromRoot (root path : String) : List Path.Component :=
  (Path.below? root path).getD (Path.components path)

/-- The path of a file as it is listed. -/
def listed? (root path : String) : Option String :=
  let components := fromRoot root path
  if isSkipped components then none
  else some (Text.join "/" (components.map Path.Component.text))

def keeps (tree : FileTree) (base : Place) (excluded : List String) (path : String) : Bool :=
  tree.isFileAt base path && !excluded.any fun d => (Path.below? d path).isSome

/-- What one pattern contributes. -/
def ofPattern (tree : FileTree) (base : Place) (root : String) (excluded : List String)
    (pattern : String) : Except Failure (List String) :=
  match FilePattern.expand tree base (Path.join root pattern) with
  | .ok paths => .ok ((paths.filter (keeps tree base excluded)).filterMap (listed? root))
  | .error fault => .error (.pattern pattern fault.message)

def collect (tree : FileTree) (base : Place) (root : String) (patterns excluded : List String) :
    Except Failure (List String) := do
  let found ← patterns.mapM (ofPattern tree base root excluded)
  return Text.sortedDistinct found.flatten

end PolicyLint.Collection
