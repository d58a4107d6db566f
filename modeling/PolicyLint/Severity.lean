import PolicyLint.Text.Blank
import PolicyLint.Text.Pieces
import PolicyLint.Document.Decode
/-!
How grave a finding is. Policies use three words and one alias; tools use words of their own, which
are read without regard to case and surrounding blanks.
-/
namespace PolicyLint

inductive Severity where
  | error | warning | info
deriving DecidableEq, Repr

namespace Severity

def word : Severity → String
  | .error => "error"
  | .warning => "warning"
  | .info => "info"

/-- The severity a tool's word stands for. -/
def ofTool? (level : String) : Option Severity :=
  [("error", .error), ("fatal", .error), ("warning", .warning), ("warn", .warning), ("info", .info),
    ("suggestion", .info), ("message", .info)].lookup (Text.asciiLower (Text.trim level))

/-- The words of a policy; `warn` is another name of `warning`. -/
def words : List (String × Severity) :=
  [("error", .error), ("warn", .warning), ("warning", .warning), ("info", .info)]

def decoder : Document.Decoder Severity :=
  Document.choice words

end Severity
end PolicyLint
