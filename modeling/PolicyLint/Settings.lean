import PolicyLint.Host.Basic
import PolicyLint.Scope
import PolicyLint.Toml.Document
import PolicyLint.Yaml.Document
/-!
The settings of a run. A repository may hold a configuration file in its root; the command line comes
before the file, and the file before the defaults, each setting for itself. A file that cannot be read
counts as none.
-/
namespace PolicyLint

/-- What a configuration file says about the scope of runs. -/
structure ScopeSettings where
  branch : Option String
  role : Option String
  tags : List String
deriving DecidableEq, Repr

def ScopeSettings.empty : ScopeSettings := ⟨none, none, []⟩

/-- What a configuration file may say. -/
structure Configuration where
  policy : Option String
  output : Option String
  toolsDir : Option String
  timeoutSecs : Option Nat
  parallelism : Option Nat
  patterns : Option (List String)
  scope : Option ScopeSettings
deriving DecidableEq, Repr

namespace Configuration

open Document

def empty : Configuration := ⟨none, none, none, none, none, none, none⟩

def scopeRecord : Record ScopeSettings :=
  ScopeSettings.mk <$> Record.wants "branch" string <*> Record.wants "role" string <*>
    Record.takes "tags" (list string) []

def record : Record Configuration :=
  Configuration.mk <$> Record.wants "policy" string <*> Record.wants "output" string <*>
    Record.wants "tools_dir" string <*> Record.wants "timeout_secs" (natural 64) <*>
    Record.wants "parallelism" (natural 64) <*> Record.wants "patterns" (list string) <*>
    Record.may "scope" (scopeRecord.decoder "ScopeSettings")

def decoder : Decoder Configuration :=
  record.decoder "Configuration"

/-! ### Configuration files -/

def tomlName : String := "rulegate.toml"

def yamlNames : List String := ["rulegate.yaml", "rulegate.yml"]

def fileNames : List String := tomlName :: yamlNames

def ofToml? (text : String) : Option Configuration :=
  Toml.decodeText? decoder text

def ofYaml? (text : String) : Option Configuration :=
  (Yaml.decodeText decoder text).toOption

/-- The configuration of the first file that is there. One that cannot be read hides those behind it. -/
def load? (host : Host) (root : String) : Option Configuration := do
  let name ← fileNames.find? fun name => host.pathExists (Path.join root name)
  let text ← (host.readText (Path.join root name)).toOption
  if name = tomlName then ofToml? text else ofYaml? text

end Configuration

/-! ### The root of a repository -/

namespace Repository

/-- A path and its parents, nearest first, as far as `steps` reaches. -/
def ancestorsWithin : Nat → String → List String
  | 0, _ => []
  | steps + 1, path =>
    path ::
      match Path.parent? path with
      | some parent => ancestorsWithin steps parent
      | none => []

/-- A path and all its parents; each is shorter than the one before. -/
def ancestors (path : String) : List String :=
  ancestorsWithin (path.length + 1) path

def markers : List String := Configuration.fileNames ++ [".git"]

def isRoot (host : Host) (path : String) : Bool :=
  markers.any fun name => host.pathExists (Path.join path name)

/-- The nearest parent that holds a marker, or the start when none does. -/
def detectRoot (host : Host) (start : String) : String :=
  ((ancestors start).find? (isRoot host)).getD start

end Repository

/-! ### Settings -/

/-- What the command line may say. -/
structure Overrides where
  repoRoot : Option String
  policy : Option String
  output : Option String
  timeoutSecs : Option Nat
  branch : Option String
  role : Option String
  tags : List String
deriving DecidableEq, Repr

def Overrides.empty : Overrides := ⟨none, none, none, none, none, none, []⟩

structure Settings where
  repoRoot : String
  policy : String
  output : String
  toolsDir : String
  timeoutSecs : Nat
  parallelism : Nat
  patterns : List String
  scope : Scope
deriving DecidableEq, Repr

namespace Settings

def defaultPolicy : String := ".rulegate/policy.json"

def defaultOutput : String := "human"

def defaultTimeoutSecs : Nat := 120

def defaultPatterns : List String := ["**/*"]

def defaultToolsDir (home : String) : String :=
  Path.join (Path.join home ".rulegate") "tools"

/-- A list that is not empty, else another one. -/
def orIfEmpty (items others : List α) : List α :=
  if items.isEmpty then others else items

/-- The settings for a root, a configuration and overrides. -/
def resolve (home root : String) (config : Configuration) (overrides : Overrides) : Settings :=
  let scope := config.scope.getD .empty
  let timeout := (overrides.timeoutSecs <|> config.timeoutSecs).filter (0 < ·)
  { repoRoot := root
    policy := Path.join root ((overrides.policy <|> config.policy).getD defaultPolicy)
    output := (overrides.output <|> config.output).getD defaultOutput
    toolsDir := (config.toolsDir.map (Path.join root)).getD (defaultToolsDir home)
    timeoutSecs := timeout.getD defaultTimeoutSecs
    parallelism := config.parallelism.getD 0
    patterns := orIfEmpty (config.patterns.getD []) defaultPatterns
    scope :=
      { branch := overrides.branch <|> scope.branch
        role := overrides.role <|> scope.role
        tags := orIfEmpty overrides.tags scope.tags } }

def defaultStart : String := "."

/-- The settings of a run on a host. -/
def of (host : Host) (overrides : Overrides) : Settings :=
  let root := Repository.detectRoot host (overrides.repoRoot.getD defaultStart)
  resolve host.home root ((Configuration.load? host root).getD .empty) overrides

end Settings
end PolicyLint
