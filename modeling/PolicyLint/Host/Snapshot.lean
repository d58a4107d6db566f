import PolicyLint.Document.Decode
import PolicyLint.Host.Basic
/-!
Machines described by a JSON text: the working directory, the home directory, where programs are
searched, the files, and what each program prints and how it ends. Paths of files and programs start at
the working directory.
-/
namespace PolicyLint.Host

open Document

/-- What a program prints, and its exit code. -/
structure ProgramSnapshot where
  stdout : String
  stderr : String
  exitCode : Nat

structure Snapshot where
  directory : String
  home : String
  searchPath : List String
  files : List (String × String)
  programs : List (String × ProgramSnapshot)

namespace Snapshot

/-- The members of an object, each decoded. -/
def entries (decoder : Decoder α) : Decoder (List (String × α)) := fun reading node =>
  match node with
  | .object _ members none =>
    members.mapM fun member => do
      return (← orFault member.1.text, ← decoder reading member.2)
  | _ => .error (wrongType "a map" node)

def programDecoder : Decoder ProgramSnapshot :=
  let record := ProgramSnapshot.mk <$> Record.takes "stdout" string "" <*>
    Record.takes "stderr" string "" <*> Record.takes "exitCode" (natural 8) 0
  record.decoder "ProgramSnapshot"

def decoder : Decoder Snapshot :=
  let record := Snapshot.mk <$> Record.needs "directory" string <*>
    Record.takes "home" string "/" <*> Record.takes "searchPath" (list string) [] <*>
    Record.takes "files" (entries string) [] <*> Record.takes "programs" (entries programDecoder) []
  record.decoder "Snapshot"

def placeOf (path : String) : Place :=
  (Text.splitOn '/' path).filter fun name => name ≠ "" ∧ name ≠ "."

def scriptOf (program : ProgramSnapshot) : Script :=
  ⟨Text.Utf8.encode program.stdout, Text.Utf8.encode program.stderr, program.exitCode, none, none,
    none, true⟩

def host (snapshot : Snapshot) : Host :=
  let directory := placeOf snapshot.directory
  let place := fun path => placeOf (Path.join snapshot.directory path)
  let empty := FileTree.empty.ensureDirectories directory
  let withFiles := snapshot.files.foldl
    (fun tree f => tree.plant (place f.1) (.file (Text.Utf8.encode f.2))) empty
  let tree := snapshot.programs.foldl
    (fun tree p => tree.plant (place p.1) (.program (scriptOf p.2))) withFiles
  { tree, directory, searchPath := snapshot.searchPath, home := snapshot.home, now := 0, calls := [],
    scratch := [] }

/-- The machine that a text describes. -/
def read (text : String) : Except String Host :=
  match Document.decodeText decoder text with
  | .ok snapshot => .ok snapshot.host
  | .error error => .error (error.inText text)

end Snapshot
end PolicyLint.Host
