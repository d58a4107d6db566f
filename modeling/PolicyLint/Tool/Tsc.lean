import PolicyLint.Adapter
import PolicyLint.Text.Digit
/-!
The TypeScript compiler, for type correctness. It prints one diagnostic a line, as
`file(line,column): level TScode: message`. A failing run without a single diagnostic is no report.
-/
namespace PolicyLint.Tool.Tsc

def name : String := "tsc"

/-- The package that brings the compiler. -/
def package : String := "typescript"

def capabilities : Capabilities :=
  ⟨name, ["typescript", "tsx"], ["typechecker"], "^5.0.0"⟩

def compilerOptions (check : TypeCheck) : Fields :=
  let switch := fun (name : String) (value : Bool) => (name, Json.bool value)
  [("target", .string "ES2020"), ("module", .string "commonjs"), ("lib", Json.strings ["ES2020"]),
    switch "strict" (check.strict.getD true),
    switch "noImplicitAny" (check.noImplicitAny.getD true),
    switch "strictNullChecks" (check.strictNullChecks.getD true),
    switch "strictFunctionTypes" true, switch "strictBindCallApply" true,
    switch "strictPropertyInitialization" true, switch "noImplicitThis" true,
    switch "alwaysStrict" true, switch "noUnusedLocals" false, switch "noUnusedParameters" false,
    switch "noImplicitReturns" true, switch "noFallthroughCasesInSwitch" true,
    switch "skipLibCheck" true, switch "esModuleInterop" true,
    switch "allowJs" (check.allowJs.getD false), switch "checkJs" (check.checkJs.getD false)]

def options (check : TypeCheck) : Json :=
  .object ([("compilerOptions", .object (compilerOptions check))] ++
    Selector.listMember "include" check.included ++ Selector.listMember "exclude" check.excluded)

def config (rule : Rule) : Except Failure Json := do
  match ← rule.spec with
  | .typechecker check => return options check
  | _ => .error (cannotRun name rule)

/-- The configuration for a run on files: any configuration that is an object, with the files in
it. -/
def withFiles (config : String) (files : List String) : Except Failure String :=
  match Document.decodeText Document.json config with
  | .error error => .error (.json (error.inText config))
  | .ok (.object fields) =>
    .ok (Json.object (Fields.insert "files" (Json.strings files) fields)).pretty
  | .ok _ => .error (.parse name "tsconfig must be a JSON object")

/-! ### Diagnostics -/

/-- Digits, at least one, and what follows them. -/
def digits? (cs : List Char) : Option (List Char × List Char) :=
  let digits := cs.takeWhile Text.isDecimalDigit
  if digits = [] then none else some (digits, cs.dropWhile Text.isDecimalDigit)

/-- Blanks, at least one, are passed over. -/
def blanks? (cs : List Char) : Option (List Char) :=
  if cs.head?.any Text.isBlank then some (Text.dropBlanks cs) else none

def word? (word : String) (cs : List Char) : Option (List Char) :=
  Text.afterLead? word.toList cs

/-- The levels a diagnostic may have, with the severity words they stand for. -/
def levels : List (String × String) :=
  [("error", "error"), ("warning", "warning"), ("suggestion", "info")]

def level? (cs : List Char) : Option (String × List Char) :=
  levels.findSome? fun (level, severity) => (word? level cs).map fun rest => (severity, rest)

/-- The number that digits stand for; digits of other scripts and numbers beyond 32 bits count as
none. -/
def place (digits : List Char) : Nat :=
  (Text.natural? (Nat.pow 2 32) (String.ofList digits)).getD 0

/-- A diagnostic from behind its file name. -/
def afterFile? (file : List Char) (cs : List Char) : Option Finding := do
  let (line, cs) ← digits? (← word? "(" cs)
  let (column, cs) ← digits? (← word? "," cs)
  let (severity, cs) ← level? (← blanks? (← word? "):" cs))
  let (code, cs) ← digits? (← word? "TS" (← blanks? cs))
  let message ← blanks? (← word? ":" cs)
  if message = [] then none
  else
    some ⟨String.ofList file, place line, place column, none, none, String.ofList message, severity,
      "TS" ++ String.ofList code⟩

/-- The shortest file name, of one character at least, behind which a diagnostic goes on. -/
def diagnosticFrom? (before : List Char) : List Char → Option Finding
  | [] => none
  | c :: rest =>
    match afterFile? (c :: before).reverse rest with
    | some finding => some finding
    | none => diagnosticFrom? (c :: before) rest

def diagnostic? (line : String) : Option Finding :=
  diagnosticFrom? [] (Text.trimEnd line).toList

def outputLines (output : Output) : List String :=
  Text.lines output.stdout ++ Text.lines output.stderr

def parse (output : Output) : Except Failure (List Finding) :=
  let findings := (outputLines output).filterMap diagnostic?
  if findings = [] ∧ output.exitCode ≠ 0 then
    let detail := (((outputLines output).map Text.trim).find? (· ≠ "")).getD "no output"
    .error (.parse name s!"exit code {output.exitCode} without diagnostics: {detail}")
  else .ok findings

def arguments (configPath : String) : List String :=
  ["--project", configPath, "--noEmit", "--pretty", "false"]

end PolicyLint.Tool.Tsc
