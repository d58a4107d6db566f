import PolicyLint.Rule
/-!
Adapters: one for each tool that analyses files. An adapter turns a rule into the tool's own
configuration, runs the tool on files, and reads what it printed. What a call may look at and change
is the world it runs in; a call that fails may have changed the world all the same.
-/
namespace PolicyLint

/-- A step in a world of type `W` that may fail. -/
abbrev Action (W : Type) := ExceptT Failure (StateM W)

namespace Action

def fail (failure : Failure) : Action W α :=
  fun w => (.error failure, w)

def ofExcept (result : Except Failure α) : Action W α :=
  fun w => (result, w)

/-- The outcome of a step as a value. -/
def outcome (action : Action W α) : Action W (Except Failure α) :=
  fun w => let r := action w; (.ok r.1, r.2)

/-- A step that cannot fail. -/
def always (step : W → α × W) : Action W α :=
  fun w => let r := step w; (.ok r.1, r.2)

end Action

structure Capabilities where
  name : String
  languages : List String
  categories : List String
  /-- The tool's version, or what it must satisfy. -/
  version : String
deriving DecidableEq, Repr

namespace Capabilities

def speaks (c : Capabilities) (language : String) : Bool :=
  c.languages.any fun l => Text.sameIgnoringCase l language

def handles (c : Capabilities) (category : String) : Bool :=
  c.categories.contains category

end Capabilities

/-- What an installation is asked for; without a directory the adapter takes its own. -/
structure InstallRequest where
  directory : String
  version : Option String
  force : Bool
deriving DecidableEq, Repr

def InstallRequest.plain : InstallRequest := ⟨"", none, false⟩

def InstallRequest.directoryOr (request : InstallRequest) (own : String) : String :=
  if request.directory = "" then own else request.directory

/-- What a tool printed, and its exit code; minus one stands for death by a signal. -/
structure Output where
  stdout : String
  stderr : String
  exitCode : Int
deriving DecidableEq, Repr

/-- The output of a run that was not needed. -/
def Output.blank : Output := ⟨"", "", 0⟩

/-- A finding in the tool's own words. -/
structure Finding where
  file : String
  line : Nat
  column : Nat
  endLine : Option Nat
  endColumn : Option Nat
  message : String
  severity : String
  ruleId : String
deriving DecidableEq, Repr

/-- The bounds of an evaluation: when it is called off, when its time is over, and the directory in
which tools run, where one is set. Times are in nanoseconds on one clock. -/
structure Context where
  cancelledFrom : Option Nat
  deadline : Option Nat
  directory : Option String
deriving DecidableEq, Repr

namespace Context

def plain : Context := ⟨none, none, none⟩

def isCancelled (context : Context) (now : Nat) : Bool :=
  context.cancelledFrom.any (· ≤ now)

/-- Called off counts before out of time. -/
def check (context : Context) (now : Nat) (program : String) : Except Failure Unit :=
  if context.isCancelled now then .error (.cancelled program)
  else if context.deadline.any (· ≤ now) then .error (.timedOut program 0)
  else .ok ()

end Context

structure Adapter (W : Type) where
  capabilities : Capabilities
  check : Context → Action W Unit
  install : Context → InstallRequest → Action W Unit
  configure : Rule → Action W String
  execute : Context → String → List String → Action W Output
  parse : Output → Action W (List Finding)

def Adapter.name (adapter : Adapter W) : String :=
  adapter.capabilities.name

/-- A check that a tool has no rules for. -/
def cannotRun (tool : String) (rule : Rule) : Failure :=
  .config rule.id s!"{tool} cannot run '{rule.engine}' checks"

/-- A tool that ended with an exit code of its own failures. -/
def failedRun (tool : String) (output : Output) : Failure :=
  .toolFailed tool output.exitCode (Text.trim output.stderr)

end PolicyLint
