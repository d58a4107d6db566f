import PolicyLint.Report.Basic
import PolicyLint.Text.Paint
/-!
Reports and lists of engines as texts: JSON with two blanks a level, or lines to read, with or without
colours. Files below the root are shown by their path from there.
-/
namespace PolicyLint

/-- How results are written. -/
inductive Layout where
  | json | lines
deriving DecidableEq, Repr

/-- Any word but one stands for lines. -/
def Layout.ofWord (word : String) : Layout :=
  if word = "json" then .json else .lines

namespace Display

open Text (Colour)

def line (s : String) : String := s ++ "\n"

def colored (color : Bool) (colour : Colour) (s : String) : String :=
  if color then Text.inColour colour s else s

def bold (color : Bool) (s : String) : String :=
  if color then Text.bold s else s

def heading (color : Bool) (colour : Colour) (s : String) : String :=
  bold color (colored color colour s)

def errorMark (color : Bool) : String := heading color .red "error:"

def noteMark (color : Bool) : String := heading color .cyan "note:"

def infoMark (color : Bool) : String := heading color .blue "info:"

/-- An absolute path is shown by the way from the root when that does not begin with a step up; every
other path is shown as it is. -/
def path (root file : String) : String :=
  if Path.isAbsolute file ∧ Path.isAbsolute root then
    match Path.difference? [] (Path.components file) (Path.components root) with
    | some (.parent :: _) | none => file
    | some components => Path.ofComponents components
  else file

def severityIcon : Severity → String
  | .error => "✖"
  | .warning => "▲"
  | .info => "◆"

def severityLabel : Severity → String
  | .error => "⟦error⟧"
  | .warning => "⟦warn⟧"
  | .info => "⟦info⟧"

def severityColour : Severity → Colour
  | .error => .red
  | .warning => .yellow
  | .info => .blue

/-- The place of a violation; a column is shown only behind a line. -/
def place (root : String) (v : Violation) : String :=
  let file := path root v.file
  if v.line = 0 then file
  else if v.column = 0 then s!"{file}:{v.line}"
  else s!"{file}:{v.line}:{v.column}"

def violation (root : String) (color : Bool) (v : Violation) : String :=
  let colour := severityColour v.severity
  colored color colour (severityIcon v.severity) ++ " " ++
    heading color colour (severityLabel v.severity) ++ " " ++ bold color (place root v) ++
    s!" ❲{v.ruleId}❳ — {v.message}" ++
    ((v.suggestion.map fun s => "\n    hint: " ++ s.desc).getD "")

/-- The line on a rule that could not be evaluated. -/
def failedRule (color : Bool) (o : RuleOutcome) : String :=
  colored color .red "✖" ++ " " ++
    heading color .red (if o.cancelled then "⟦cancelled⟧" else "⟦rule error⟧") ++
    s!" ❲{o.ruleId}❳ — " ++ o.error.getD "unknown error"

def outcomeLines (root : String) (color : Bool) (o : RuleOutcome) : List String :=
  o.violations.map (violation root color) ++
    if o.status = .errored then [failedRule color o] else []

def summary (color : Bool) (s : Summary) : String :=
  bold color ("— Summary — " ++ Text.join " " (s.entries.map fun e => s!"{e.1}={e.2}"))

def reportLines (root : String) (color : Bool) (report : Report) : List String :=
  report.outcomes.flatMap (outcomeLines root color) ++ [summary color report.summary]

/-- A report as it is printed. -/
def report (layout : Layout) (root : String) (color : Bool) (report : Report) : String :=
  match layout with
  | .json => line report.toJson.pretty
  | .lines => String.join ((reportLines root color report).map line)

def engineLines (color : Bool) (c : EngineCapabilities) : List String :=
  let flags := (if c.fixes then ["autofix"] else []) ++ if c.compiles then ["compiles"] else []
  let head := heading color .green c.name ++ " languages=[" ++ Text.join "," c.languages ++
    "] categories=[" ++ Text.join "," c.categories ++ "]" ++
    if flags.isEmpty then "" else " (" ++ Text.join ", " flags ++ ")"
  head :: c.tools.map fun t =>
    s!"    {t.name}@{t.version}" ++ (if t.isOptional then " optional" else "") ++ ": " ++
      t.installCommand

/-- A list of engines as it is printed. -/
def engines (layout : Layout) (color : Bool) (capabilities : List EngineCapabilities) : String :=
  match layout with
  | .json =>
    line (Json.object [("engines", .array (capabilities.map EngineCapabilities.toJson))]).pretty
  | .lines => String.join ((capabilities.flatMap (engineLines color)).map line)

end Display
end PolicyLint
