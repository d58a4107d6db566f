import PolicyLint.Host.Basic
import PolicyLint.AdapterRegistry
import PolicyLint.Engine.Builtin
import PolicyLint.Tool.Checkstyle
import PolicyLint.Tool.Eslint
import PolicyLint.Tool.Pmd
import PolicyLint.Tool.Prettier
import PolicyLint.Tool.Tsc
/-!
The built-in adapters: where each tool is found, how it is installed, and how it is run on files. Tools
in the tools directory come before those of the search path. A run without files starts nothing.
-/
namespace PolicyLint

structure Toolbox where
  directory : String
  executor : Executor

namespace Toolbox

def unavailable (adapter reason : String) : Failure :=
  .adapterUnavailable adapter reason

/-- Where a package manager puts the programs of a package. -/
def localProgram (directory name : String) : String :=
  Path.join (Path.join (Path.join directory "node_modules") ".bin") name

def findTool? (box : Toolbox) (name : String) (host : Host) : Option String :=
  let path := localProgram box.directory name
  if host.pathExists path then some path else host.which? name

/-- Keeps the package manager from using a project further up. -/
def manifest : Json :=
  .object [("name", .string "rulegate-tools"), ("version", .string "1.0.0"),
    ("description", .string "Analysis tools managed by rulegate"), ("private", .bool true)]

def orIo (result : Except OsError α) : Action Host α :=
  Action.ofExcept (result.mapError fun error => .io error.message)

/-- Installs a package in a directory, which is made where it is missing. -/
def installPackage (executor : Executor) (context : Context) (directory package version : String) :
    Action Host Unit := do
  let host ← get
  let tree ← orIo (host.tree.makeDirectories host.directory directory)
  set { host with tree }
  match host.which? "npm" with
  | none => Action.fail (unavailable package "npm not found: please install Node.js first")
  | some npm =>
    let path := Path.join directory "package.json"
    if !tree.pathExists host.directory path then
      let tree ← orIo (tree.write host.directory path (Text.Utf8.encode manifest.pretty))
      set { host with tree }
    let output ← executor.execute { context with directory := some directory } npm
      ["install", package ++ "@" ++ version]
    if output.exitCode ≠ 0 then Action.fail (failedRun "npm" output)

/-- Where a configuration file goes. -/
def scratchDirectory (box : Toolbox) : String :=
  Path.join box.directory ".tmp"

/-- The output of a tool whose exit code is no failure of its own. -/
def accepted (tool : String) (accepts : Int → Bool) (output : Output) : Action Host Output :=
  if accepts output.exitCode then pure output else Action.fail (failedRun tool output)

/-! ### Tools that a package manager installs -/

def checkPackaged (box : Toolbox) (name : String) : Context → Action Host Unit := fun _ => do
  if (box.findTool? name (← get)).isNone then
    Action.fail (unavailable name
      ("not found (checked " ++ localProgram box.directory name ++ " and PATH)"))

def installPackaged (box : Toolbox) (package version : String) :
    Context → InstallRequest → Action Host Unit := fun context request =>
  installPackage box.executor context (request.directoryOr box.directory) package
    (request.version.getD version)

/-- ESLint is fetched for one run when it is not there. -/
def runEslint (box : Toolbox) (context : Context) (config : String) (files : List String) :
    Action Host Output := do
  if files.isEmpty then return ⟨"[]", "", 0⟩
  Host.withConfig box.scratchDirectory "eslintrc-" ".json" config fun path => do
    let arguments := Tool.Eslint.arguments path files
    let (program, arguments) := match box.findTool? Tool.Eslint.name (← get) with
      | some program => (program, arguments)
      | none => ("npx", "eslint@8" :: arguments)
    let executor := { box.executor with
      settings := box.executor.settings ++ [("ESLINT_USE_FLAT_CONFIG", "false")] }
    accepted Tool.Eslint.name Tool.Eslint.accepts (← executor.execute context program arguments)

def eslint (box : Toolbox) : Adapter Host where
  capabilities := Tool.Eslint.capabilities
  check := box.checkPackaged Tool.Eslint.name
  install := box.installPackaged Tool.Eslint.name Tool.Eslint.capabilities.version
  configure := fun rule => Action.ofExcept ((Tool.Eslint.config rule).map Json.pretty)
  execute := box.runEslint
  parse := fun output => Action.ofExcept (Tool.Eslint.parse output)

def runPrettier (box : Toolbox) (mode : Tool.Prettier.Mode) (context : Context) (config : String)
    (files : List String) : Action Host Output := do
  if files.isEmpty then return Output.blank
  Host.withConfig box.scratchDirectory "prettierrc-" ".json" config fun path => do
    let program := (box.findTool? Tool.Prettier.name (← get)).getD Tool.Prettier.name
    accepted Tool.Prettier.name (Tool.Prettier.accepts mode)
      (← box.executor.execute context program (Tool.Prettier.arguments mode path files))

def configurePrettier (rule : Rule) : Action Host String :=
  Action.ofExcept ((Tool.Prettier.config rule).map Json.pretty)

def prettier (box : Toolbox) : Adapter Host where
  capabilities := Tool.Prettier.capabilities
  check := box.checkPackaged Tool.Prettier.name
  install := box.installPackaged Tool.Prettier.name Tool.Prettier.capabilities.version
  configure := configurePrettier
  execute := box.runPrettier .check
  parse := fun output => Action.ofExcept (Tool.Prettier.parse output)

/-- Prettier again, rewriting files in place. -/
def formatter (box : Toolbox) : Formatter Host :=
  ⟨box.checkPackaged Tool.Prettier.name, configurePrettier, box.runPrettier .write⟩

/-- The configuration of the compiler stands in the directory it runs in, because the files it names
are relative to it. -/
def runTsc (box : Toolbox) (context : Context) (config : String) (files : List String) :
    Action Host Output := do
  if files.isEmpty then return Output.blank
  let content ← Action.ofExcept (Tool.Tsc.withFiles config files)
  let directory := (context.directory <|> box.executor.directory).getD "."
  Host.withConfig directory ".rulegate-tsconfig-" ".json" content fun path => do
    let program := (box.findTool? Tool.Tsc.name (← get)).getD Tool.Tsc.name
    box.executor.execute context program (Tool.Tsc.arguments path)

def tsc (box : Toolbox) : Adapter Host where
  capabilities := Tool.Tsc.capabilities
  check := box.checkPackaged Tool.Tsc.name
  install := box.installPackaged Tool.Tsc.package Tool.Tsc.capabilities.version
  configure := fun rule => Action.ofExcept ((Tool.Tsc.config rule).map Json.pretty)
  execute := box.runTsc
  parse := fun output => Action.ofExcept (Tool.Tsc.parse output)

/-! ### Tools that are fetched by hand -/

def java : Action Host String := do
  match (← get).which? "java" with
  | some path => return path
  | none =>
    Action.fail (unavailable Tool.Checkstyle.name
      "java not found: please install a Java runtime")

def jarPath (box : Toolbox) : String :=
  Path.join box.directory (Tool.Checkstyle.jarName Tool.Checkstyle.version)

def checkCheckstyle (box : Toolbox) : Context → Action Host Unit := fun _ => do
  let _ ← java
  if !(← get).pathExists box.jarPath then
    Action.fail (unavailable Tool.Checkstyle.name ("jar not found at " ++ box.jarPath))

def installCheckstyle (box : Toolbox) : Context → InstallRequest → Action Host Unit :=
  fun _ request => do
    let version := request.version.getD Tool.Checkstyle.version
    let target := Path.join (request.directoryOr box.directory) (Tool.Checkstyle.jarName version)
    if request.force || !(← get).pathExists target then
      Action.fail (unavailable Tool.Checkstyle.name
        ("automatic download is not supported; fetch " ++ Tool.Checkstyle.source version ++ " to " ++
          target))

/-- The exit code counts errors; none of them is a failure of the tool. -/
def runCheckstyle (box : Toolbox) (context : Context) (config : String) (files : List String) :
    Action Host Output := do
  if files.isEmpty then return Output.blank
  let java ← java
  Host.withConfig box.scratchDirectory "checkstyle-" ".xml" config fun path =>
    box.executor.execute context java (Tool.Checkstyle.arguments box.jarPath path files)

def checkstyle (box : Toolbox) : Adapter Host where
  capabilities := Tool.Checkstyle.capabilities
  check := box.checkCheckstyle
  install := box.installCheckstyle
  configure := fun rule => Action.ofExcept (Tool.Checkstyle.config rule)
  execute := box.runCheckstyle
  parse := fun output => Action.ofExcept (Tool.Checkstyle.parse output)

def pmdProgram (box : Toolbox) : String :=
  Path.join (Path.join (Path.join box.directory (Tool.Pmd.distribution Tool.Pmd.version)) "bin")
    Tool.Pmd.name

def findPmd? (box : Toolbox) (host : Host) : Option String :=
  if host.pathExists box.pmdProgram then some box.pmdProgram else host.which? Tool.Pmd.name

def checkPmd (box : Toolbox) : Context → Action Host Unit := fun _ => do
  if (box.findPmd? (← get)).isNone then
    Action.fail (unavailable Tool.Pmd.name
      ("not found (checked " ++ box.pmdProgram ++ " and PATH)"))

def installPmd (box : Toolbox) : Context → InstallRequest → Action Host Unit := fun _ request => do
  let version := request.version.getD Tool.Pmd.version
  let directory := request.directoryOr box.directory
  let target := Path.join directory (Tool.Pmd.distribution version)
  if request.force || !(← get).pathExists target then
    Action.fail (unavailable Tool.Pmd.name
      ("automatic download is not supported; unpack " ++ Tool.Pmd.source version ++ " into " ++
        directory))

def runPmd (box : Toolbox) (context : Context) (config : String) (files : List String) :
    Action Host Output := do
  if files.isEmpty then return Output.blank
  match box.findPmd? (← get) with
  | none => Action.fail (unavailable Tool.Pmd.name ("not found at " ++ box.pmdProgram))
  | some program =>
    Host.withConfig box.scratchDirectory "pmd-ruleset-" ".xml" config fun path => do
      accepted Tool.Pmd.name Tool.Pmd.accepts
        (← box.executor.execute context program (Tool.Pmd.arguments path files))

def pmd (box : Toolbox) : Adapter Host where
  capabilities := Tool.Pmd.capabilities
  check := box.checkPmd
  install := box.installPmd
  configure := fun rule => Action.ofExcept (Tool.Pmd.config rule)
  execute := box.runPmd
  parse := fun output => Action.ofExcept (Tool.Pmd.parse output)

/-- The built-in adapters, in the order in which they are asked. -/
def adapters (box : Toolbox) : AdapterRegistry Host :=
  ⟨[box.eslint, box.prettier, box.tsc, box.checkstyle, box.pmd]⟩

end Toolbox
end PolicyLint
