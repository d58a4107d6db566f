import PolicyLint.Adapter
import PolicyLint.Xml.Tag
import PolicyLint.Text.Digit
/-!
Checkstyle, for Java. Its configuration is a tree of modules: all stand under one tree walker, except
line lengths, which belong directly under the checker. Findings come back as XML, an element for each
file and in it one for each finding; text before the report is passed over.
-/
namespace PolicyLint.Tool.Checkstyle

def name : String := "checkstyle"

def version : String := "10.12.0"

def capabilities : Capabilities :=
  ⟨name, ["java"], ["pattern", "length", "style", "naming"], version⟩

structure Module where
  name : String
  properties : List (String × String)
deriving DecidableEq, Repr

/-! ### The configuration document -/

def prolog : String :=
  "<?xml version=\"1.0\"?>\n<!DOCTYPE module PUBLIC\n    \"-//Checkstyle//DTD Checkstyle Configuration 1.3//EN\"\n    \"https://checkstyle.org/dtds/configuration_1_3.dtd\">\n"

def Module.isLineLength (m : Module) : Bool :=
  m.name == "LineLength"

def propertyLine (indent : String) (property : String × String) : String :=
  indent ++ "  <property name=\"" ++ Xml.escape property.1 ++ "\" value=\"" ++ Xml.escape property.2 ++
    "\"/>\n"

/-- A module without properties is an empty element. -/
def Module.render (indent : String) (m : Module) : String :=
  let opening := indent ++ "<module name=\"" ++ Xml.escape m.name ++ "\""
  if m.properties.isEmpty then opening ++ "/>\n"
  else
    opening ++ ">\n" ++ String.join (m.properties.map (propertyLine indent)) ++ indent ++ "</module>\n"

def walkerPart (modules : List Module) : String :=
  let walked := modules.filter fun m => !m.isLineLength
  if walked.isEmpty then ""
  else
    "  <module name=\"TreeWalker\">\n" ++ String.join (walked.map (Module.render "    ")) ++
      "  </module>\n"

def render (modules : List Module) : String :=
  prolog ++ "<module name=\"Checker\">\n" ++ walkerPart modules ++
    String.join ((modules.filter Module.isLineLength).map (Module.render "  ")) ++ "</module>\n"

/-! ### Modules for a rule -/

/-- The target of a pattern names the module that checks it. -/
def patternModules (check : PatternCheck) : List Module :=
  if check.target = "" then [] else [⟨check.target, [("format", check.pattern)]⟩]

def lengthModule? (scope : String) : Option String :=
  match scope with
  | "line" => some "LineLength"
  | "method" | "function" => some "MethodLength"
  | "params" | "parameters" => some "ParameterNumber"
  | "file" => some "FileLength"
  | _ => none

def lengthModules (check : LengthCheck) : List Module :=
  if check.max ≤ 0 then []
  else ((lengthModule? check.scope).map fun m => ⟨m, [("max", toString check.max)]⟩).toList

def styleModules (check : StyleCheck) : List Module :=
  let whenSet := fun (given : Bool) (name : String) (properties : List (String × String)) =>
    if given then [(⟨name, properties⟩ : Module)] else []
  whenSet (0 < check.indent) "Indentation"
      [("basicOffset", toString check.indent), ("braceAdjustment", "0"),
        ("caseIndent", toString check.indent)] ++
    whenSet (check.braceStyle = some "same-line") "LeftCurly" [("option", "eol")] ++
    whenSet check.spaceAfterKeyword "WhitespaceAfter"
      [("tokens", "COMMA, SEMI, LITERAL_IF, LITERAL_ELSE, LITERAL_WHILE, LITERAL_DO, LITERAL_FOR")] ++
    whenSet check.spaceAroundOperators "WhitespaceAround"
      [("allowEmptyConstructors", "true"), ("allowEmptyMethods", "true")] ++
    whenSet (0 < check.printWidth) "LineLength" [("max", toString check.printWidth)] ++
    whenSet check.blankLinesBetweenMethods "EmptyLineSeparator"
      [("allowNoEmptyLineBetweenFields", "true"), ("tokens", "METHOD_DEF")] ++
    whenSet check.oneStatementPerLine "OneStatementPerLine" []

def modulesFor (rule : Rule) : Except Failure (List Module) := do
  match ← rule.spec with
  | .pattern check => return patternModules check
  | .length check => return lengthModules check
  | .style check => return styleModules check
  | _ => .error (cannotRun name rule)

def config (rule : Rule) : Except Failure String :=
  (modulesFor rule).map render

/-! ### Findings -/

def severityWord (severity : String) : String :=
  let word := Text.asciiLower severity
  if word = "error" ∨ word = "info" then word else "warning"

/-- The last part of a class name, without the word that ends the names of checks. -/
def ruleIdOf (source : String) : String :=
  if source = "" then "unknown"
  else
    let last := ((Text.splitOn '.' source).getLast?).getD ""
    (Text.dropTail? "Check" last).getD last

def place (tag : Xml.Tag) (name : String) : Nat :=
  ((tag.attribute? name).bind (Text.natural? (Nat.pow 2 32))).getD 0

def findingOf (file : String) (tag : Xml.Tag) : Finding :=
  let text := fun name => (tag.attribute? name).getD ""
  ⟨file, place tag "line", place tag "column", none, none, text "message",
    severityWord (text "severity"), ruleIdOf (text "source")⟩

/-- The findings of the tags, in the file that was named last. -/
def findingsIn (file : String) : List Xml.Tag → List Finding
  | [] => []
  | tag :: rest =>
    if tag.name = "file".toList then findingsIn ((tag.attribute? "name").getD "") rest
    else if tag.name = "error".toList then findingOf file tag :: findingsIn file rest
    else findingsIn file rest

/-- Where the report starts in the output. -/
def report? (text : String) : Option String :=
  Text.from? "<?xml" text <|> Text.from? "<checkstyle" text

def parse (output : Output) : Except Failure (List Finding) :=
  let text := Text.trim output.stdout
  if text = "" then
    if output.exitCode = 0 then .ok [] else .error (failedRun name output)
  else
    match report? text with
    | none =>
      .error (.parse name ("no checkstyle report in output: " ++ Text.trim output.stderr))
    | some report =>
      match Xml.tags [] report.toList with
      | .ok tags => .ok (findingsIn "" tags)
      | .error fault => .error (.parse name fault.message)

/-! ### Running -/

def jarName (version : String) : String :=
  s!"checkstyle-{version}-all.jar"

/-- Where the program can be fetched from. -/
def source (version : String) : String :=
  "https://repo1.maven.org/maven2/com/puppycrawl/tools/checkstyle/" ++ version ++ "/" ++
    jarName version

def arguments (jar configPath : String) (files : List String) : List String :=
  ["-jar", jar, "-c", configPath, "-f", "xml"] ++ files

end PolicyLint.Tool.Checkstyle
