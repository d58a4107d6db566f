import PolicyLint.Adapter
import PolicyLint.Query.Estree
/-!
ESLint, for the JavaScript family. A rule becomes a configuration with the ESLint rules that express
it; findings come back as JSON, one record for each file. Exit code 1 means findings, and any other
but 0 a failure of ESLint itself.
-/
namespace PolicyLint.Tool.Eslint

def name : String := "eslint"

def capabilities : Capabilities :=
  ⟨name, ["javascript", "typescript", "jsx", "tsx"], ["pattern", "length", "style", "ast"], "^8.0.0"⟩

/-- Below errors ESLint knows warnings only. -/
def level (severity : Severity) : Json :=
  .string (match severity with
    | .error => "error"
    | .warning | .info => "warn")

def base : Fields :=
  [("env", .object [("es2021", .bool true), ("node", .bool true), ("browser", .bool true)]),
   ("parserOptions", .object [("ecmaVersion", .string "latest"), ("sourceType", .string "module")])]

/-- One ESLint rule with its level and options. -/
def entry (rule : Rule) (name : String) (options : List Json) : String × Json :=
  (name, .array (level rule.severity :: options))

def restrictedSyntax (rule : Rule) (selector message : String) : String × Json :=
  entry rule "no-restricted-syntax"
    [.object [("selector", .string selector), ("message", .string message)]]

/-- A selector for literals whose value matches a pattern. -/
def contentSelector (pattern : String) : String :=
  "Literal[value=/" ++ pattern ++ "/]"

def patternRules (rule : Rule) (check : PatternCheck) : Except Failure Fields :=
  match check.target with
  | "identifier" =>
    .ok [entry rule "id-match" [.string check.pattern,
      .object [("properties", .bool false), ("classFields", .bool false),
        ("onlyDeclarations", .bool true)]]]
  | "content" =>
    .ok [restrictedSyntax rule (contentSelector check.pattern)
      (rule.message?.getD s!"Content matches forbidden pattern /{check.pattern}/")]
  | "import" =>
    .ok [entry rule "no-restricted-imports" [.object [("patterns", .array [.string check.pattern])]]]
  | other => .error (.config rule.id s!"unsupported pattern target for eslint: '{other}'")

def lengthRules (rule : Rule) (check : LengthCheck) : Except Failure Fields :=
  let max := Json.ofInt check.max
  let skipping := Json.object
    [("max", max), ("skipBlankLines", .bool true), ("skipComments", .bool true)]
  if check.max ≤ 0 then .error (.config rule.id "eslint length rules need a positive 'max'")
  else
    match check.scope with
    | "line" => .ok [entry rule "max-len" [.object [("code", max)]]]
    | "file" => .ok [entry rule "max-lines" [skipping]]
    | "function" | "method" => .ok [entry rule "max-lines-per-function" [skipping]]
    | "params" | "parameters" => .ok [entry rule "max-params" [max]]
    | other => .error (.config rule.id s!"unsupported length scope: '{other}'")

def styleRules (rule : Rule) (check : StyleCheck) : Fields :=
  let whenSet := fun (given : Bool) (name : String) (option : Json) =>
    if given then [entry rule name [option]] else []
  let whenSome := fun (given : Option String) (name : String) (option : String → String) =>
    (given.map fun v => entry rule name [.string (option v)]).toList
  whenSet (0 < check.indent) "indent" (Json.ofInt check.indent) ++
    whenSome check.quote "quotes" id ++
    (check.semi.map fun semi =>
      entry rule "semi" [.string (if semi then "always" else "never")]).toList ++
    whenSome check.trailingComma "comma-dangle"
      (fun v => if v = "none" then "never" else "always-multiline") ++
    whenSome check.braceStyle "brace-style" id ++
    whenSet (0 < check.printWidth) "max-len" (.object [("code", Json.ofInt check.printWidth)])

def astRules (rule : Rule) (query : AstQuery) : Fields :=
  [restrictedSyntax rule (Query.estree query) (rule.message?.getD s!"AST rule {rule.id} violation")]

def rulesFor (rule : Rule) : Except Failure Fields := do
  match ← rule.spec with
  | .pattern check => patternRules rule check
  | .length check => lengthRules rule check
  | .style check => return styleRules rule check
  | .ast query => return astRules rule query
  | .typechecker _ | .custom _ => .error (cannotRun name rule)

def config (rule : Rule) : Except Failure Json :=
  (rulesFor rule).map fun rules => .object (base ++ [("rules", .object rules)])

/-! ### Findings -/

structure Message where
  ruleId : Option String
  severity : Nat
  message : String
  line : Nat
  column : Nat
  endLine : Option Nat
  endColumn : Option Nat

structure FileResult where
  filePath : String
  messages : List Message

open Document

def Message.record : Record Message :=
  Message.mk <$> Record.may "ruleId" string <*> Record.takes "severity" (natural 8) 0 <*>
    Record.needs "message" string <*> Record.takes "line" (natural 32) 0 <*>
    Record.takes "column" (natural 32) 0 <*> Record.may "endLine" (natural 32) <*>
    Record.may "endColumn" (natural 32)

def FileResult.record : Record FileResult :=
  FileResult.mk <$> Record.needs "filePath" string <*>
    Record.takes "messages" (list (Message.record.decoder "Message")) []

def levelWord (level : Nat) : String :=
  if level = 2 then "error" else if level = 1 then "warning" else "info"

def Message.finding (file : String) (m : Message) : Finding :=
  ⟨file, m.line, m.column, m.endLine, m.endColumn, m.message, levelWord m.severity,
    m.ruleId.getD ""⟩

def FileResult.findings (result : FileResult) : List Finding :=
  result.messages.map (Message.finding result.filePath)

/-- The findings of a report, file by file. -/
def parse (output : Output) : Except Failure (List Finding) :=
  let text := Text.trim output.stdout
  if text = "" ∨ text = "[]" then .ok []
  else
    match decodeText (list (FileResult.record.decoder "FileResult")) text with
    | .ok results => .ok (results.flatMap FileResult.findings)
    | .error error => .error (.parse name (error.inText text))

/-! ### Running -/

def accepts (exitCode : Int) : Bool :=
  exitCode = 0 || exitCode = 1

def arguments (configPath : String) (files : List String) : List String :=
  ["--config", configPath, "--format", "json", "--no-eslintrc"] ++ files

end PolicyLint.Tool.Eslint
