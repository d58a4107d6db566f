import PolicyLint.Settings
import PolicyLint.Text.Digit
/-!
The commands, and how they are read from arguments. Options and files may stand in any order; behind two
dashes every argument is a file.
-/
namespace PolicyLint.CommandLine

inductive Command where
  | version
  /-- The version under the program's name. -/
  | nameAndVersion
  | validate (overrides : Overrides) (files : List String)
  | engines (overrides : Overrides)
  | selector (check : String)
deriving DecidableEq, Repr

inductive UsageFault where
  | noCommand
  | unknownCommand (name : String)
  | unexpected (argument : String)
  | noValue (option : String)
  | badValue (option value : String)
  | repeated (option : String)
  | missing (argument : String)
deriving DecidableEq, Repr

def UsageFault.message : UsageFault → String
  | .noCommand => "a command is required: version, validate, engines or selector"
  | .unknownCommand name => s!"unrecognized subcommand '{name}'"
  | .unexpected argument => s!"unexpected argument '{argument}' found"
  | .noValue option => s!"a value is required for '--{option}' but none was supplied"
  | .badValue option value => s!"invalid value '{value}' for '--{option}'"
  | .repeated option => s!"the argument '--{option}' cannot be used multiple times"
  | .missing argument => s!"the argument {argument} is required"

/-- Arguments taken apart: options with their values, in order, and the others. -/
structure Arguments where
  options : List (String × String)
  files : List String
deriving DecidableEq, Repr

namespace Arguments

def empty : Arguments := ⟨[], []⟩

def addOption (arguments : Arguments) (name value : String) : Arguments :=
  { arguments with options := (name, value) :: arguments.options }

def addFile (arguments : Arguments) (file : String) : Arguments :=
  { arguments with files := file :: arguments.files }

/-- A single dash is no option. -/
def isOption (argument : String) : Bool :=
  Text.startsWith "-" argument && argument ≠ "-"

/-- An option with its name and, behind an equals sign, its value. -/
def splitOption (body : String) : String × Option String :=
  let cs := body.toList
  match cs.dropWhile (· ≠ '=') with
  | [] => (body, none)
  | _ :: value => (String.ofList (cs.takeWhile (· ≠ '=')), some (String.ofList value))

/-- Takes arguments apart; each known option has a value. -/
def split (known : List String) : List String → Except UsageFault Arguments
  | [] => .ok empty
  | "--" :: rest => .ok ⟨[], rest⟩
  | argument :: rest =>
    match Text.dropLead? "--" argument with
    | none =>
      if isOption argument then .error (.unexpected argument)
      else do return (← split known rest).addFile argument
    | some body =>
      let (name, value) := splitOption body
      if !known.contains name then .error (.unexpected argument)
      else
        match value, rest with
        | some value, rest => do return (← split known rest).addOption name value
        | none, [] => .error (.noValue name)
        | none, value :: rest =>
          if isOption value then .error (.noValue name)
          else do return (← split known rest).addOption name value

def values (arguments : Arguments) (name : String) : List String :=
  (arguments.options.filter fun o => o.1 == name).map Prod.snd

/-- The value of an option that may come once. -/
def value? (arguments : Arguments) (name : String) : Except UsageFault (Option String) :=
  match arguments.values name with
  | [] => .ok none
  | [value] => .ok (some value)
  | _ => .error (.repeated name)

def natural? (arguments : Arguments) (name : String) : Except UsageFault (Option Nat) := do
  match ← arguments.value? name with
  | none => return none
  | some value =>
    match Text.natural? (Nat.pow 2 64) value with
    | some n => return some n
    | none => .error (.badValue name value)

def noFiles (arguments : Arguments) : Except UsageFault Unit :=
  match arguments.files with
  | [] => .ok ()
  | file :: _ => .error (.unexpected file)

end Arguments

namespace Command

def validateOptions : List String :=
  ["repo-root", "policy", "output", "timeout", "branch", "role", "tag"]

def engineOptions : List String := ["repo-root", "output"]

def overrides (arguments : Arguments) : Except UsageFault Overrides := do
  return {
    repoRoot := ← arguments.value? "repo-root"
    policy := ← arguments.value? "policy"
    output := ← arguments.value? "output"
    timeoutSecs := ← arguments.natural? "timeout"
    branch := ← arguments.value? "branch"
    role := ← arguments.value? "role"
    tags := arguments.values "tag" }

def validateOf (arguments : List String) : Except UsageFault Command := do
  let arguments ← Arguments.split validateOptions arguments
  return .validate (← overrides arguments) arguments.files

def enginesOf (arguments : List String) : Except UsageFault Command := do
  let arguments ← Arguments.split engineOptions arguments
  arguments.noFiles
  return .engines (← overrides arguments)

def selectorOf (arguments : List String) : Except UsageFault Command := do
  match (← Arguments.split [] arguments).files with
  | [] => .error (.missing "<CHECK>")
  | [check] => return .selector check
  | _ :: extra :: _ => .error (.unexpected extra)

def versionOf (arguments : List String) : Except UsageFault Command := do
  (← Arguments.split [] arguments).noFiles
  return .version

/-- The command that arguments ask for. -/
def parse : List String → Except UsageFault Command
  | [] => .error .noCommand
  | "--version" :: _ | "-V" :: _ => .ok .nameAndVersion
  | "version" :: rest => versionOf rest
  | "validate" :: rest => validateOf rest
  | "engines" :: rest => enginesOf rest
  | "selector" :: rest => selectorOf rest
  | name :: _ => .error (.unknownCommand name)

end Command
end PolicyLint.CommandLine
