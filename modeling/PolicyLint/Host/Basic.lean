import PolicyLint.Host.Tree
import PolicyLint.Host.Process
import PolicyLint.Engine.Basic
import PolicyLint.Text.Utf8
/-!
The machine that tools run on: its files, the directory the program stands in, where programs are
searched, and the time. Calls of programs are written down in order.
-/
namespace PolicyLint

/-- A call of a program, with the content of the configuration file that its arguments name. -/
structure Call where
  program : String
  directory : String
  settings : List (String × String)
  arguments : List String
  config : String
deriving DecidableEq, Repr

structure Host where
  tree : FileTree
  directory : Place
  searchPath : List String
  home : String
  now : Nat
  calls : List Call
  /-- Configuration files that are in use. -/
  scratch : List Place

instance : Clock Host :=
  ⟨fun host => (host.now, { host with now := host.now + 1000 })⟩

namespace Host

def placeText (place : Place) : String :=
  "/" ++ Text.join "/" place

def pathExists (host : Host) (path : String) : Bool :=
  host.tree.pathExists host.directory path

def readText (host : Host) (path : String) : Except OsError String := do
  match Text.Utf8.decode? (← host.tree.read host.directory path) with
  | some text => return text
  | none => .error .invalidUtf8

/-- The script of a program at a path; everything else cannot be run. -/
def scriptAt (tree : FileTree) (base : Place) (path : String) : Except OsError Script := do
  match ← tree.find base path with
  | .program script => return script
  | .file _ | .directory => .error .permissionDenied

/-- The path of a program in the first directory of the search path that has it. -/
def which? (host : Host) (name : String) : Option String :=
  (host.searchPath.map fun dir => Path.join dir name).find? fun path =>
    (scriptAt host.tree host.directory path).isOk

/-- Tries one path after the other; a program that may not be run is reported only when no other is
found. -/
def firstScript (tree : FileTree) (base : Place) (failure : OsError) :
    List String → Except OsError (String × Script)
  | [] => .error failure
  | path :: rest =>
    match scriptAt tree base path with
    | .ok script => .ok (path, script)
    | .error .permissionDenied => firstScript tree base .permissionDenied rest
    | .error _ => firstScript tree base failure rest

/-- A name with a slash is a path from the directory of the call; any other is searched. -/
def locate (host : Host) (base : Place) (program : String) : Except OsError (String × Script) :=
  if program = "" then .error .notFound
  else if program.toList.contains '/' then
    (scriptAt host.tree base program).map fun script => (program, script)
  else
    firstScript host.tree base .notFound (host.searchPath.map fun dir => Path.join dir program)

/-- The directory of a call. -/
def callDirectory (host : Host) (directory : Option String) : Except OsError Place := do
  match directory with
  | none => return host.directory
  | some path =>
    let place ← host.tree.resolve host.directory path
    match host.tree.get? place with
    | some .directory => return place
    | some _ => .error .notDirectory
    | none => .error .notFound

/-! ### Configuration files -/

/-- The content of the configuration file in use that one of the arguments names. -/
def namedConfig (host : Host) (arguments : List String) : String :=
  let content := fun argument : String =>
    match host.tree.resolve host.directory argument with
    | .ok place =>
      match host.scratch.contains place, host.tree.get? place with
      | true, some (.file content) => some (Text.Utf8.decodeLossy content)
      | _, _ => none
    | .error _ => none
  (arguments.findSome? content).getD ""

/-- A file of its own in a directory, which is made where it is missing. The part of the name that
makes it unlike any other is written as a star. -/
def openConfig (host : Host) (directory lead tail content : String) :
    Except OsError (String × Host) := do
  let tree ← host.tree.makeDirectories host.directory directory
  let path := Path.join (Path.join (placeText host.directory) directory) (lead ++ "*" ++ tail)
  let place ← tree.resolve host.directory path
  let tree ← tree.write host.directory path (Text.Utf8.encode content)
  return (path, { host with tree, scratch := place :: host.scratch })

def closeConfig (host : Host) (path : String) : Host :=
  match host.tree.resolve host.directory path with
  | .ok place =>
    { host with tree := host.tree.remove place, scratch := host.scratch.filter (· ≠ place) }
  | .error _ => host

/-- A step with a configuration file, which is gone when the step has ended in whatever way. -/
def withConfig (directory lead tail content : String) (use : String → Action Host α) :
    Action Host α :=
  fun host =>
    match host.openConfig directory lead tail content with
    | .error error => (.error (.io error.message), host)
    | .ok (path, host) =>
      let result := use path host
      (result.1, result.2.closeConfig path)

end Host

/-! ### Running programs -/

/-- How programs are run: their time, their directory where the context has none, and their
settings. -/
structure Executor where
  timeout : Duration
  directory : Option String
  settings : List (String × String)
deriving DecidableEq, Repr

namespace Executor

def pollInterval : Duration := 10000000

def defaultTimeout : Duration := 120000000000

def withTimeout (timeout : Duration) : Executor := ⟨timeout, none, []⟩

def default : Executor := withTimeout defaultTimeout

/-- A program that does not wait ends between the first look and the second. -/
def lasting (script : Script) : Duration :=
  script.waits.getD 1000000

/-- Signals that do not end a program. -/
def harmless (signal : Nat) : Bool :=
  [0, 17, 18, 23, 28].contains signal

def endingOf (script : Script) : Ending :=
  if script.waits.isSome then .exited 0
  else if script.signal.any fun s => !harmless s then .signalled
  else .exited (script.exitCode % 256)

/-- The looks at a program, up to the one that shows its end. -/
def observations (context : Context) (script : Script) (started : Nat) : List Observation :=
  (List.range (lasting script / pollInterval + 2)).map fun k =>
    let now := started + k * pollInterval
    ⟨if started + lasting script ≤ now then .ended (endingOf script) else .running,
      context.isCancelled now, now⟩

/-- What the call leaves behind. -/
def effect (script : Script) (call : Call) (host : Host) : Host :=
  let calls := if script.traced then host.calls ++ [call] else host.calls
  let tree :=
    match script.waits, script.makes with
    | none, some place => host.tree.plant place (.program .idle)
    | _, _ => host.tree
  { host with calls, tree }

def outputOf (script : Script) (exitCode : Int) : Output :=
  if script.waits.isSome then ⟨"", "", exitCode⟩
  else ⟨Text.Utf8.decodeLossy script.stdout, Text.Utf8.decodeLossy script.stderr, exitCode⟩

/-- Runs a program that was found and watches it. -/
def run (executor : Executor) (context : Context) (program : String) (script : Script)
    (call : Call) : Action Host Output :=
  fun host =>
    let started := host.now
    let looks := observations context script started
    let watched := (watch (deadlineOf context started executor.timeout) looks).getD
      ⟨.ended (endingOf script), [], started⟩
    ((watched.outcome program started).map (outputOf script),
      { effect script call host with now := watched.now })

/-- What stands in the way of a call, or what is called and where. -/
def prepare (executor : Executor) (context : Context) (program : String)
    (arguments : List String) (host : Host) : Except OsError (Script × Call) := do
  let directory := context.directory <|> executor.directory
  if (program :: directory.toList ++ arguments).any fun s => s.toList.contains '\x00' then
    .error .nulInArgument
  else
    let base ← host.callDirectory directory
    let (path, script) ← host.locate base program
    return (script,
      ⟨path, Host.placeText base, executor.settings, arguments, host.namedConfig arguments⟩)

/-- Runs a program to its end and captures its output; a context that is over starts nothing. -/
def execute (executor : Executor) (context : Context) (program : String)
    (arguments : List String) : Action Host Output := do
  let now ← Action.always Clock.read
  Action.ofExcept (context.check now program)
  let host ← get
  match executor.prepare context program arguments host with
  | .error error => Action.fail (.launch program error)
  | .ok (script, call) => executor.run context program script call

end Executor
end PolicyLint
