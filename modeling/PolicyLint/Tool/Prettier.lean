import PolicyLint.Adapter
/-!
Prettier, for formatting. It names the files that are not formatted, without positions. Exit code 1
means such files, and 2 a failure.
-/
namespace PolicyLint.Tool.Prettier

def name : String := "prettier"

def capabilities : Capabilities :=
  ⟨name, ["javascript", "typescript", "jsx", "tsx", "json", "yaml", "css", "html", "markdown"],
    ["style"], "^3.0.0"⟩

def extensions : List String :=
  ["js", "mjs", "cjs", "jsx", "ts", "mts", "cts", "tsx", "json", "css", "scss", "less", "html", "vue",
    "md", "markdown", "yaml", "yml"]

def findingMessage : String := "Code style issues found. Run prettier --write to fix."

inductive Mode where
  | check | write
deriving DecidableEq, Repr

def Mode.flag : Mode → String
  | .check => "--check"
  | .write => "--write"

/-- The line width: that of the style, else the bound of a length check, else a hundred. -/
def width (style : StyleCheck) (max : Int) : Int :=
  if 0 < style.printWidth then style.printWidth else if 0 < max then max else 100

def options (style : StyleCheck) (max : Int) : Json :=
  .object (
    (if 0 < style.indent then
      [("tabWidth", Json.ofInt style.indent), ("useTabs", .bool false)] else []) ++
    optionMember "singleQuote" (style.quote.map fun q => .bool (q == "single")) ++
    optionMember "semi" (style.semi.map .bool) ++
    [("trailingComma", .string (style.trailingComma.getD "es5")),
      ("printWidth", Json.ofInt (width style max))])

def config (rule : Rule) : Except Failure Json := do
  match ← rule.spec with
  | .style style => return options style (rule.check.int "max")
  | .length check =>
    if check.scope = "line" then return options StyleCheck.none check.max
    else .error (cannotRun name rule)
  | _ => .error (cannotRun name rule)

/-! ### Findings -/

def isFormatted (file : String) : Bool :=
  (Path.extension? file).any fun e => extensions.contains (Text.asciiLower e)

/-- The file that a trimmed line of the output names, if it names one. -/
def listed? (line : String) : Option String :=
  if line = "" ∨ Text.startsWith "Checking" line then none
  else
    let file := ((Text.dropLead? "[warn]" line).map Text.trim).getD line
    if Text.startsWith "Code style" file then none
    else if isFormatted file then some file else none

def finding (file : String) : Finding :=
  ⟨file, 0, 0, none, none, findingMessage, "warning", name⟩

def findings (output : Output) : List Finding :=
  if output.exitCode = 0 then []
  else
    ((Text.lines (output.stdout ++ "\n" ++ output.stderr)).map Text.trim).filterMap
      fun line => (listed? line).map finding

def parse (output : Output) : Except Failure (List Finding) :=
  .ok (findings output)

/-! ### Running -/

def accepts (mode : Mode) (exitCode : Int) : Bool :=
  exitCode < 2 && (mode = .check || exitCode = 0)

def arguments (mode : Mode) (configPath : String) (files : List String) : List String :=
  ["--config", configPath, mode.flag] ++ files

end PolicyLint.Tool.Prettier
