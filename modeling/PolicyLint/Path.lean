import PolicyLint.Text.Pieces
/-!
Paths as text. A path is absolute when it starts with a slash; its components are what lies between
slashes, without empty pieces and without single dots behind the first place. Joining and taking the
parent work on the text and normalise nothing.
-/
namespace PolicyLint.Path

inductive Component where
  | root
  | current
  | parent
  | name (text : String)
deriving DecidableEq, Repr

def isAbsolute (path : String) : Bool :=
  Text.startsWith "/" path

def componentOf (piece : String) : Component :=
  if piece = ".." then .parent else .name piece

/-- The components of the pieces behind the first place. -/
def inner (pieces : List String) : List Component :=
  (pieces.filter fun p => p ≠ "" ∧ p ≠ ".").map componentOf

def components (path : String) : List Component :=
  match Text.splitOn '/' path with
  | "" :: pieces => if isAbsolute path then .root :: inner pieces else inner pieces
  | "." :: pieces => .current :: inner pieces
  | pieces => inner pieces

def Component.text : Component → String
  | .root => "/"
  | .current => "."
  | .parent => ".."
  | .name text => text

/-- Components written as a path: the root brings its own slash. -/
def ofComponents : List Component → String
  | .root :: rest => "/" ++ Text.join "/" (rest.map Component.text)
  | components => Text.join "/" (components.map Component.text)

/-- An absolute right side replaces the left one; an empty left side disappears. -/
def join (base path : String) : String :=
  if isAbsolute path ∨ base = "" then path
  else if Text.endsWith "/" base then base ++ path
  else base ++ "/" ++ path

def fileName? (path : String) : Option String :=
  match (components path).getLast? with
  | some (.name text) => some text
  | _ => none

/-- What stands behind the last dot of the file name, unless nothing stands before that dot. -/
def extension? (path : String) : Option String :=
  (fileName? path).bind fun name =>
    match (name.toList.splitOn '.').reverse with
    | last :: before =>
      if before = [] ∨ before = [[]] then none else some (String.ofList last)
    | [] => none

/-- Pieces at the end that are no components. -/
def dropIdle (absolute : Bool) (pieces : List String) : List String :=
  let idle := fun p : String => p = "" ∨ p = "."
  match absolute, pieces with
  | false, "." :: rest => "." :: (rest.reverse.dropWhile idle).reverse
  | _, pieces => (pieces.reverse.dropWhile idle).reverse

/-- The path without its last component; the root and the empty path have no parent. -/
def parent? (path : String) : Option String :=
  let absolute := isAbsolute path
  let pieces := Text.splitOn '/' path
  let body := dropIdle absolute (if absolute then pieces.drop 1 else pieces)
  if body = [] then none
  else
    let rest := Text.join "/" (dropIdle absolute body.dropLast)
    some (if absolute then "/" ++ rest else rest)

/-- The components behind `base`, when `path` starts with all of them. -/
def below? (base path : String) : Option (List Component) :=
  let rec go : List Component → List Component → Option (List Component)
    | [], rest => some rest
    | _ :: _, [] => none
    | b :: base, c :: rest => if b = c then go base rest else none
  go (components base) (components path)

/-- The way from a base to a path, `passed` being what is found of it so far: nothing for what both begin
with, a step up for every component that the base has left, then the rest of the path. A base that goes
up itself, where the two are no longer alike, has no way to the path. -/
def difference? (passed : List Component) : (path base : List Component) → Option (List Component)
  | path, [] => some (passed ++ path)
  | [], _ :: base => difference? (passed ++ [.parent]) [] base
  | c :: path, b :: base =>
    if passed = [] ∧ c = b then difference? [] path base
    else if b = .current then difference? (passed ++ [c]) path base
    else if b = .parent then none
    else some (passed ++ .parent :: base.map (fun _ => .parent) ++ c :: path)

end PolicyLint.Path
