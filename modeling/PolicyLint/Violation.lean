import PolicyLint.Severity
import PolicyLint.Json.Printer
/-!
Findings as they are reported: where, how grave, under which rule, and what else the tool said.
Lines and columns count from one, and zero means that the tool gave none.
-/
namespace PolicyLint

/-- A hint on how to mend a violation. -/
structure Suggestion where
  desc : String
  replacement : Option String
  diff : Option String
deriving DecidableEq

structure Violation where
  file : String
  line : Nat
  column : Nat
  endLine : Option Nat
  endColumn : Option Nat
  message : String
  severity : Severity
  ruleId : String
  category : String
  suggestion : Option Suggestion
  context : Fields

/-- A member that is present only with a value. -/
def optionMember (name : String) (value : Option Json) : Fields :=
  (value.map fun v => (name, v)).toList

/-- A text that is not empty, as a member. -/
def textMember (name : String) (text : String) : Fields :=
  if text = "" then [] else [(name, .string text)]

/-- A map that is not empty, as a member. -/
def mapMember (name : String) (fields : Fields) : Fields :=
  if fields.isEmpty then [] else [(name, .object fields)]

open Document

namespace Suggestion

def toJson (s : Suggestion) : Json :=
  .object ([("desc", .string s.desc)] ++ optionMember "replacement" (s.replacement.map .string) ++
    optionMember "diff" (s.diff.map .string))

def record : Record Suggestion :=
  Suggestion.mk <$> Record.needs "desc" string <*> Record.may "replacement" string <*>
    Record.may "diff" string

def decoder : Decoder Suggestion :=
  record.decoder "Suggestion"

end Suggestion

namespace Violation

def toJson (v : Violation) : Json :=
  .object ([("file", .string v.file), ("line", Json.ofNat v.line), ("column", Json.ofNat v.column)] ++
    optionMember "endLine" (v.endLine.map Json.ofNat) ++
    optionMember "endColumn" (v.endColumn.map Json.ofNat) ++
    [("message", .string v.message), ("severity", .string v.severity.word),
      ("ruleId", .string v.ruleId)] ++
    textMember "category" v.category ++ optionMember "suggestion" (v.suggestion.map (·.toJson)) ++
    mapMember "context" v.context)

def record : Record Violation :=
  Violation.mk <$> Record.needs "file" string <*> Record.needs "line" (natural 32) <*>
    Record.needs "column" (natural 32) <*> Record.may "endLine" (natural 32) <*>
    Record.may "endColumn" (natural 32) <*> Record.needs "message" string <*>
    Record.needs "severity" Severity.decoder <*> Record.needs "ruleId" string <*>
    Record.takes "category" string "" <*> Record.may "suggestion" Suggestion.decoder <*>
    Record.takes "context" fields []

def decoder : Decoder Violation :=
  record.decoder "Violation"

/-- `file:line:column`, as far as positions were reported. -/
def location (v : Violation) : String :=
  if v.line = 0 then v.file
  else if v.column = 0 then s!"{v.file}:{v.line}"
  else s!"{v.file}:{v.line}:{v.column}"

def text (v : Violation) : String :=
  v.location ++ ": " ++ v.message ++ " [" ++ v.ruleId ++ "]"

end Violation
end PolicyLint
