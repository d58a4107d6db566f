import PolicyLint.Failure
import PolicyLint.Path
/-!
File trees. A place is the list of names that leads to an entry from the root; a path is a text that
is walked from a directory, name by name, and every name but the last must lead to a directory.
-/
namespace PolicyLint

/-- What a program does: it may make another program, it prints, and it ends by itself or by a
signal. -/
structure Script where
  stdout : List UInt8
  stderr : List UInt8
  exitCode : Nat
  /-- The program made when this one runs. -/
  makes : Option (List String)
  signal : Option Nat
  /-- How long it waits; one that waits does nothing else. -/
  waits : Option Duration
  /-- Whether its calls are written down. -/
  traced : Bool

/-- A program that does nothing. -/
def Script.idle : Script := ⟨[], [], 0, none, none, none, false⟩

inductive Entry where
  | directory
  | file (content : List UInt8)
  | program (script : Script)

abbrev Place := List String

/-- The root is a directory and no entry of its own. -/
structure FileTree where
  entries : List (Place × Entry)

namespace FileTree

def empty : FileTree := ⟨[]⟩

def get? (tree : FileTree) (place : Place) : Option Entry :=
  if place = [] then some .directory else tree.entries.lookup place

def isDirectory (tree : FileTree) (place : Place) : Bool :=
  match tree.get? place with
  | some .directory => true
  | _ => false

/-- Files and programs alike. -/
def isFile (tree : FileTree) (place : Place) : Bool :=
  match tree.get? place with
  | some (.file _) | some (.program _) => true
  | _ => false

def remove (tree : FileTree) (place : Place) : FileTree :=
  ⟨tree.entries.filter fun e => e.1 ≠ place⟩

def put (tree : FileTree) (place : Place) (entry : Entry) : FileTree :=
  ⟨(tree.remove place).entries ++ [(place, entry)]⟩

/-- A directory where nothing is yet. -/
def ensureDirectory (tree : FileTree) (place : Place) : FileTree :=
  if (tree.get? place).isSome then tree else tree.put place .directory

/-- Directories at a place and on the way to it. -/
def ensureDirectories (tree : FileTree) (place : Place) : FileTree :=
  ((List.range place.length).map fun n => place.take (n + 1)).foldl ensureDirectory tree

/-- An entry with all the directories on the way to it. -/
def plant (tree : FileTree) (place : Place) (entry : Entry) : FileTree :=
  (tree.ensureDirectories place.dropLast).put place entry

/-- What lies below a place, each with its names from there. -/
def below (tree : FileTree) (place : Place) : List (Place × Entry) :=
  tree.entries.filterMap fun e =>
    if place.isPrefixOf e.1 && place.length < e.1.length then some (e.1.drop place.length, e.2)
    else none

/-! ### Walking paths -/

def maxNameSize : Nat := 255

def maxPathSize : Nat := 4096

/-- One piece further from a place, which must be a directory. -/
def step (tree : FileTree) (place : Place) (piece : String) : Except OsError Place :=
  match tree.get? place with
  | none => .error .notFound
  | some (.file _) | some (.program _) => .error .notDirectory
  | some .directory =>
    if piece = "" ∨ piece = "." then .ok place
    else if piece = ".." then .ok place.dropLast
    else if maxNameSize < piece.utf8ByteSize then .error .nameTooLong
    else .ok (place ++ [piece])

/-- Where a path leads from a directory; nothing need be there. -/
def resolve (tree : FileTree) (base : Place) (path : String) : Except OsError Place :=
  if path.toList.contains '\x00' then .error .nulInName
  else if path = "" then .error .notFound
  else if maxPathSize ≤ path.utf8ByteSize then .error .nameTooLong
  else (Text.splitOn '/' path).foldlM tree.step (if Path.isAbsolute path then [] else base)

/-- The entry a path leads to. -/
def find (tree : FileTree) (base : Place) (path : String) : Except OsError Entry := do
  match tree.get? (← tree.resolve base path) with
  | some entry => .ok entry
  | none => .error .notFound

def pathExists (tree : FileTree) (base : Place) (path : String) : Bool :=
  (tree.find base path).isOk

/-- Whether a path leads to a file or a program. -/
def isFileAt (tree : FileTree) (base : Place) (path : String) : Bool :=
  match tree.find base path with
  | .ok (.file _) | .ok (.program _) => true
  | _ => false

def isDirectoryAt (tree : FileTree) (base : Place) (path : String) : Bool :=
  match tree.find base path with
  | .ok .directory => true
  | _ => false

/-- What can be read at a path; the inside of a program is of no interest. -/
def read (tree : FileTree) (base : Place) (path : String) : Except OsError (List UInt8) := do
  match ← tree.find base path with
  | .file content => return content
  | .program _ => return []
  | .directory => .error .isDirectory

/-- One piece further, making a directory there if nothing is. -/
def stepMaking (state : FileTree × Place) (piece : String) : Except OsError (FileTree × Place) := do
  let next ← state.1.step state.2 piece
  return (state.1.ensureDirectory next, next)

/-- Makes the directory that a path leads to, and those on the way. -/
def makeDirectories (tree : FileTree) (base : Place) (path : String) : Except OsError FileTree := do
  if path = "" then return tree
  if path.toList.contains '\x00' then .error .nulInName
  else if maxPathSize ≤ path.utf8ByteSize then .error .nameTooLong
  else
    let start := if Path.isAbsolute path then [] else base
    let (tree, place) ← (Text.splitOn '/' path).foldlM stepMaking (tree, start)
    if tree.isDirectory place then return tree else .error .fileExists

/-- Writes a file where a path leads to. -/
def write (tree : FileTree) (base : Place) (path : String) (content : List UInt8) :
    Except OsError FileTree := do
  let place ← tree.resolve base path
  if tree.isDirectory place then .error .isDirectory
  else if !tree.isDirectory place.dropLast then .error .notFound
  else return tree.put place (.file content)

end FileTree
end PolicyLint
