import PolicyLint.Engine.Evaluation
import PolicyLint.Query.Estree
/-!
The built-in engines. Each serves the adapters of the category that has its name; the style engine
also lets a check pin its adapter, and hints at the tool that mends what it reports.
-/
namespace PolicyLint

/-- What tells one built-in engine from another. -/
structure EngineKind where
  name : String
  categories : List String
  fixes : Bool
  compiles : Bool
  tools : List ToolRequirement
  /-- The languages named before any adapter is known. -/
  languages : List String

namespace EngineKind

def scripts : List String := ["javascript", "typescript", "jsx", "tsx"]

def eslint : ToolRequirement := .npm "eslint" "^8.0.0" false

def pattern : EngineKind :=
  ⟨"pattern", ["naming", "security", "custom"], false, false, [], scripts⟩

def length : EngineKind :=
  ⟨"length", ["formatting", "style"], false, false, [eslint], scripts⟩

def style : EngineKind :=
  ⟨"style", ["style", "formatting"], true, false, [eslint, .npm "prettier" "^3.0.0" true], scripts⟩

def ast : EngineKind :=
  ⟨"ast", ["error_handling", "custom"], false, false, [], scripts⟩

def typechecker : EngineKind :=
  ⟨"typechecker", ["type_safety", "correctness", "custom"], false, true,
    [.npm "typescript" "^5.0.0" false], ["typescript", "tsx"]⟩

def all : List EngineKind := [pattern, length, style, ast, typechecker]

def find? (name : String) : Option EngineKind :=
  all.find? fun k => k.name == name

/-- The adapter that a style check pins. -/
def pinned? (kind : EngineKind) (rule : Rule) : Option String :=
  if kind.name ≠ style.name then none
  else
    match rule.spec with
    | .ok (.style check) => check.tool
    | _ => none

/-- The hint on a rule whose violations may be mended. -/
def fixHint? (rule : Rule) : Option Suggestion :=
  (rule.remedy.filter (·.autofix)).map fun remedy =>
    ⟨"Run " ++ remedy.tool.getD "prettier" ++ " --write to auto-fix style issues", none, none⟩

def suggestion? (kind : EngineKind) (rule : Rule) : Option Suggestion :=
  if kind.name ≠ style.name then none else fixHint? rule

/-- The selector that the backend of the `ast` engine receives for a rule. -/
def selector (rule : Rule) : Except Failure String := do
  match ← rule.spec with
  | .ast query => return Query.estree query
  | _ => .error (.config rule.id "not an AST rule")

/-- The evaluator of an engine that has its adapters. -/
def evaluator (kind : EngineKind) (config : EngineConfig W) : Evaluator W :=
  ⟨kind.name, kind.name, some config.adapters, config.request⟩

/-- The engine with its adapters, or without any before it is initialised. -/
def engine [Clock W] (kind : EngineKind) (config : Option (EngineConfig W)) : Engine W where
  capabilities :=
    ⟨kind.name, (config.map fun c => c.adapters.languages kind.name).getD kind.languages,
      kind.categories, kind.fixes, kind.compiles, kind.tools⟩
  validate := fun context rule files =>
    Evaluator.run
      ⟨kind.name, kind.name, config.map EngineConfig.adapters,
        ⟨(config.map EngineConfig.toolsDir).getD "", none, false⟩⟩
      context rule files (kind.pinned? rule) (kind.suggestion? rule)
  close := pure ()

end EngineKind

/-- A tool that rewrites files in place. -/
structure Formatter (W : Type) where
  check : Context → Action W Unit
  configure : Rule → Action W String
  write : Context → String → List String → Action W Output

/-- Mends the files that a rule selects; gives those that were handed to the formatter. -/
def Formatter.fix (formatter : Option (Formatter W)) (context : Context) (rule : Rule)
    (files : List String) : Action W (List String) := do
  let files := Selector.keep rule.selector files
  if files.isEmpty then return []
  match formatter with
  | none => Action.fail (.engineNotInitialized EngineKind.style.name)
  | some formatter =>
    formatter.check context
    let config ← formatter.configure rule
    let _ ← formatter.write context config files
    return files

end PolicyLint
