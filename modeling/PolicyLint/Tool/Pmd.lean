import PolicyLint.Adapter
import PolicyLint.Query.XPath
import PolicyLint.Xml.Escape
/-!
PMD, for Java. A rule becomes a ruleset: some shapes of queries are rules that PMD brings along, and
any other query is an XPath rule. Findings come back as JSON, one record for each file. Exit code 4
means findings, and 5 that some files could not be processed.
-/
namespace PolicyLint.Tool.Pmd

def name : String := "pmd"

def version : String := "7.0.0"

def capabilities : Capabilities :=
  ⟨name, ["java"], ["pattern", "complexity", "performance", "security", "error_handling", "ast"],
    version⟩

inductive PmdRule where
  /-- A rule that PMD brings along, with changed properties. -/
  | reference (path : String) (properties : List (String × String))
  | xpath (name message expression : String)
deriving DecidableEq, Repr

/-! ### The ruleset document -/

def header : String :=
  "<?xml version=\"1.0\"?>\n<ruleset name=\"rulegate\"\n    xmlns=\"http://pmd.sourceforge.net/ruleset/2.0.0\"\n    xmlns:xsi=\"http://www.w3.org/2001/XMLSchema-instance\"\n    xsi:schemaLocation=\"http://pmd.sourceforge.net/ruleset/2.0.0 https://pmd.sourceforge.io/ruleset_2_0_0.xsd\">\n  <description>Generated by rulegate</description>\n"

def xpathClass : String := "net.sourceforge.pmd.lang.rule.xpath.XPathRule"

def priorityLine (priority : Nat) : String :=
  s!"    <priority>{priority}</priority>\n"

def propertyLine (property : String × String) : String :=
  "      <property name=\"" ++ Xml.escape property.1 ++ "\" value=\"" ++ Xml.escape property.2 ++
    "\"/>\n"

def PmdRule.render (priority : Nat) : PmdRule → String
  | .reference path properties =>
    "  <rule ref=\"" ++ Xml.escape path ++ "\">\n" ++ priorityLine priority ++
      (if properties.isEmpty then ""
      else
        "    <properties>\n" ++ String.join (properties.map propertyLine) ++ "    </properties>\n") ++
      "  </rule>\n"
  | .xpath name message expression =>
    "  <rule name=\"" ++ Xml.escape name ++ "\" language=\"java\" message=\"" ++ Xml.escape message ++
      "\" class=\"" ++ xpathClass ++ "\">\n" ++ priorityLine priority ++
      "    <properties>\n      <property name=\"xpath\">\n        <value>" ++ Xml.escape expression ++
      "</value>\n      </property>\n    </properties>\n  </rule>\n"

def render (priority : Nat) (rules : List PmdRule) : String :=
  header ++ String.join (rules.map (PmdRule.render priority)) ++ "</ruleset>\n"

/-- One is the highest priority. -/
def priorityOf : Severity → Nat
  | .error => 1
  | .warning => 3
  | .info => 5

def severityWord (priority : Nat) : String :=
  if priority = 1 ∨ priority = 2 then "error" else if priority = 5 then "info" else "warning"

/-! ### Rules for a check -/

def attributeText? (query : AstQuery) (key : String) : Option String :=
  (query.attributes.get? key).bind Json.string?

def attributeBool? (query : AstQuery) (key : String) : Option Bool :=
  (query.attributes.get? key).bind Json.bool?

/-- Both zeros count, in any spelling. -/
def attributeIsZero (query : AstQuery) (key : String) : Bool :=
  match (query.attributes.get? key).bind Json.number? with
  | some (.integer i _) => i = 0
  | some (.real d) => d.isZero
  | none => false

/-- Only public methods must have comments, and a main method need not. -/
def commentProperties : List (String × String) :=
  [("methodWithOverrideCommentRequirement", "Ignored"), ("accessorCommentRequirement", "Ignored"),
    ("classCommentRequirement", "Ignored"), ("fieldCommentRequirement", "Ignored"),
    ("publicMethodCommentRequirement", "Required"), ("protectedMethodCommentRequirement", "Ignored"),
    ("enumCommentRequirement", "Ignored"), ("violationSuppressRegex", ".*main\\(.*")]

/-- The rules that PMD brings along for a query. -/
def knownRules (query : AstQuery) : List PmdRule :=
  let whenSet := fun (given : Bool) (path : String) (properties : List (String × String)) =>
    if given then [PmdRule.reference path properties] else []
  match query.node with
  | "MethodCallExpr" =>
    whenSet (attributeText? query "scope" = some "System.out")
      "category/java/bestpractices.xml/SystemPrintln" []
  | "CatchClause" =>
    whenSet (attributeIsZero query "body.statements.size")
        "category/java/errorprone.xml/EmptyCatchBlock" [] ++
      whenSet (attributeText? query "parameter.type.name" = some "Exception")
        "category/java/design.xml/AvoidCatchingGenericException" []
  | "MethodDeclaration" =>
    whenSet (attributeBool? query "isPublic" = some true ∧
        attributeBool? query "hasJavadoc" = some false)
      "category/java/documentation.xml/CommentRequired" commentProperties
  | _ => []

/-- The rule's own message, else its description, else the given one. -/
def messageOf (rule : Rule) (otherwise : String) : String :=
  (rule.message? <|> rule.desc.filter (· ≠ "")).getD otherwise

def astRules (rule : Rule) (query : AstQuery) : List PmdRule :=
  let known := knownRules query
  if known.isEmpty then
    [.xpath rule.id (messageOf rule s!"{query.node} matched") (Query.xpath query)]
  else known

def patternExpression (check : PatternCheck) : String :=
  "//" ++ check.target ++ "[@Name][not(matches(@Name, '" ++
    String.ofList (Query.apostrophed check.pattern) ++ "'))]"

def patternRules (rule : Rule) (check : PatternCheck) : Except Failure (List PmdRule) :=
  if check.target = "" then .error (.config rule.id "pmd pattern rules need a 'target' node type")
  else
    .ok [.xpath rule.id (messageOf rule s!"{check.target} name does not match {check.pattern}")
      (patternExpression check)]

/-- References and one expression, as the check lists them. -/
def listedRules (rule : Rule) : List PmdRule :=
  let expression := rule.check.text "xpath"
  (rule.check.texts "rules").map (fun path => .reference path []) ++
    if expression = "" then [] else [.xpath rule.id (messageOf rule s!"{rule.id} violated") expression]

def rulesFor (rule : Rule) : Except Failure (List PmdRule) := do
  let rules ← match ← rule.spec with
    | .ast query => pure (astRules rule query)
    | .pattern check => patternRules rule check
    | .custom _ => pure (listedRules rule)
    | _ => .error (cannotRun name rule)
  if rules.isEmpty then .error (.config rule.id "no PMD rules: set 'rules' or 'xpath'")
  else return rules

def config (rule : Rule) : Except Failure String :=
  (rulesFor rule).map (render (priorityOf rule.severity))

/-! ### Findings -/

structure ReportedFinding where
  beginLine : Nat
  beginColumn : Nat
  endLine : Option Nat
  endColumn : Option Nat
  description : String
  rule : String
  priority : Nat

structure FileReport where
  filename : String
  violations : List ReportedFinding

structure ProcessingError where
  filename : String
  message : String

structure Report where
  files : List FileReport
  processingErrors : List ProcessingError

open Document

def ReportedFinding.record : Record ReportedFinding :=
  ReportedFinding.mk <$> Record.takes "beginline" (natural 32) 0 <*>
    Record.takes "begincolumn" (natural 32) 0 <*> Record.wants "endline" (natural 32) <*>
    Record.wants "endcolumn" (natural 32) <*> Record.takes "description" string "" <*>
    Record.takes "rule" string "" <*> Record.takes "priority" (natural 8) 0

def FileReport.record : Record FileReport :=
  FileReport.mk <$> Record.needs "filename" string <*>
    Record.takes "violations" (list (ReportedFinding.record.decoder "Finding")) []

def ProcessingError.record : Record ProcessingError :=
  ProcessingError.mk <$> Record.takes "filename" string "" <*> Record.takes "message" string ""

def Report.record : Record Report :=
  Report.mk <$> Record.takes "files" (list (FileReport.record.decoder "FileReport")) [] <*>
    Record.takes "processingErrors" (list (ProcessingError.record.decoder "ProcessingError")) []

def ReportedFinding.finding (file : String) (f : ReportedFinding) : Finding :=
  ⟨file, f.beginLine, f.beginColumn, f.endLine, f.endColumn, f.description, severityWord f.priority,
    f.rule⟩

def FileReport.findings (report : FileReport) : List Finding :=
  report.violations.map (ReportedFinding.finding report.filename)

def parse (output : Output) : Except Failure (List Finding) :=
  let text := Text.trim output.stdout
  if text = "" then
    if output.exitCode = 0 then .ok [] else .error (failedRun name output)
  else
    match Text.from? "\x7b" text with
    | none => .error (.parse name ("no JSON report in output: " ++ Text.trim output.stderr))
    | some report =>
      match decodeText (Report.record.decoder "Report") report with
      | .ok result => .ok (result.files.flatMap FileReport.findings)
      | .error error => .error (.parse name (error.inText report))

/-! ### Running -/

def accepts (exitCode : Int) : Bool :=
  exitCode = 0 || exitCode = 4 || exitCode = 5

def distribution (version : String) : String :=
  s!"pmd-bin-{version}"

/-- Where the program can be fetched from. -/
def source (version : String) : String :=
  s!"https://github.com/pmd/pmd/releases/download/pmd_releases%2F{version}/pmd-dist-{version}-bin.zip"

def arguments (configPath : String) (files : List String) : List String :=
  ["check", "-d", Text.join "," files, "-R", configPath, "-f", "json", "--no-cache"]

end PolicyLint.Tool.Pmd
