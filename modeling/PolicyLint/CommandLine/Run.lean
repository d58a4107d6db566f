import PolicyLint.Collection
import PolicyLint.CommandLine.Command
import PolicyLint.PolicyFile
import PolicyLint.Report.Crew
import PolicyLint.Report.Display
import PolicyLint.Tool.Toolbox
/-!
What the commands do: they read the settings and the policy, gather files, evaluate the rules and print
the report. Whatever keeps a run from starting is a usage error with exit code two.
-/
namespace PolicyLint.CommandLine

def versionText : String := "0.1.0"

/-- What a run prints, and its exit code. -/
structure Exit where
  stdout : String
  stderr : String
  code : Nat
deriving DecidableEq, Repr

namespace Exit

def printed (stdout : String) : Exit := ⟨stdout, "", 0⟩

/-- A run that came to its end with notes on the way. -/
def noted (notes : List String) (stdout : String) (code : Nat) : Exit :=
  ⟨stdout, String.join (notes.map Display.line), code⟩

def usageCode : Nat := 2

/-- A run that could not start. -/
def refused (color : Bool) (notes : List String) (message : String) : Exit :=
  noted (notes ++ [Display.errorMark color ++ " " ++ message]) "" usageCode

end Exit

namespace Run

def note (color : Bool) (message : String) : String :=
  Display.noteMark color ++ " " ++ message

def info (color : Bool) (message : String) : String :=
  Display.infoMark color ++ " " ++ message

/-- The built-in engines over the built-in adapters, as the settings want them. -/
def engines (settings : Settings) : EngineRegistry Host :=
  let executor := Executor.withTimeout (settings.timeoutSecs * 1000000000)
  let toolbox : Toolbox := ⟨settings.toolsDir, executor⟩
  EngineRegistry.builtin ⟨settings.toolsDir, toolbox.adapters⟩

/-- The note on a missing configuration is for readers only. -/
def configNotes (color : Bool) (host : Host) (settings : Settings) : List String :=
  if (Configuration.load? host settings.repoRoot).isNone ∧ settings.output ≠ "json" then
    [note color "No rulegate.toml found; using defaults."]
  else []

/-- The files to validate, and the notes on how they were found. -/
def patternNotes (color : Bool) (settings : Settings) : List String :=
  if settings.output ≠ "json" then
    [info color ("Using patterns: [" ++ ", ".intercalate settings.patterns ++ "]")]
  else []

def missingPolicy (settings : Settings) : String :=
  s!"Policy file not found: {settings.policy} (pass --policy or configure rulegate.toml)"

/-- The policy of the settings, or why there is none. -/
def loadPolicy (host : Host) (settings : Settings) : Except String Policy :=
  if !host.pathExists settings.policy then .error (missingPolicy settings)
  else (Policy.load host settings.policy).mapError Failure.message

/-- The files that the patterns of the settings name; the tools are left out. -/
def collectFiles (host : Host) (settings : Settings) : Except String (List String) :=
  (Collection.collect host.tree host.directory settings.repoRoot settings.patterns
    [settings.toolsDir]).mapError Failure.message

/-- Evaluates a policy and prints its report. -/
def evaluate (color : Bool) (settings : Settings) (notes : List String) (policy : Policy)
    (files : List String) (host : Host) : Exit × Host :=
  let context := { Context.plain with directory := some settings.repoRoot }
  let (report, workshop) :=
    Report.validateBy settings.parallelism context policy files settings.scope (engines settings, host)
  let (closed, _, host) := EngineRegistry.closeAll workshop
  let notes :=
    match closed with
    | .ok _ => notes
    | .error failure => notes ++ [note color failure.message]
  let text := Display.report (Layout.ofWord settings.output) settings.repoRoot color report
  (Exit.noted notes text report.exitCode, host)

def validate (color : Bool) (overrides : Overrides) (files : List String) (host : Host) :
    Exit × Host :=
  let settings := Settings.of host overrides
  let notes := configNotes color host settings
  match loadPolicy host settings with
  | .error message => (Exit.refused color notes message, host)
  | .ok policy =>
    if !files.isEmpty then evaluate color settings notes policy files host
    else
      let notes := notes ++ patternNotes color settings
      match collectFiles host settings with
      | .error message => (Exit.refused color notes message, host)
      | .ok files => evaluate color settings notes policy files host

def listEngines (color : Bool) (overrides : Overrides) (host : Host) : Exit × Host :=
  let settings := Settings.of host overrides
  match EngineRegistry.capabilities (engines settings, host) with
  | (.ok capabilities, _, host) =>
    (Exit.printed (Display.engines (Layout.ofWord settings.output) color capabilities), host)
  | (.error failure, _, host) => (Exit.refused color [] failure.message, host)

/-- The selector of a check given as JSON. -/
def selector (color : Bool) (check : String) : Exit :=
  match Document.decodeText Payload.decoder check with
  | .error error =>
    Exit.refused color [] ("check payload is not a JSON object: " ++ error.inText check)
  | .ok payload =>
    match AstQuery.parse? payload with
    | some query => Exit.printed (Display.line (Query.estree query))
    | none => Exit.refused color [] AstQuery.noNode

end Run

def Command.run (color : Bool) : Command → Host → Exit × Host
  | .version, host => (Exit.printed (Display.line versionText), host)
  | .nameAndVersion, host => (Exit.printed (Display.line ("rulegate " ++ versionText)), host)
  | .validate overrides files, host => Run.validate color overrides files host
  | .engines overrides, host => Run.listEngines color overrides host
  | .selector check, host => (Run.selector color check, host)

/-- A run of the program on a host. -/
def run (color : Bool) (arguments : List String) (host : Host) : Exit × Host :=
  match Command.parse arguments with
  | .ok command => command.run color host
  | .error fault => (Exit.refused color [] fault.message, host)

end PolicyLint.CommandLine
