import PolicyLint.Host.Basic
import PolicyLint.Yaml.Document
/-!
Policies in files: YAML where the name of the file says so, and JSON otherwise.
-/
namespace PolicyLint.Policy

def isYamlPath (path : String) : Bool :=
  Path.extension? path == some "yaml" || Path.extension? path == some "yml"

/-- The policy in a text, or what is wrong with it. -/
def read (isYaml : Bool) (text : String) : Except String Policy :=
  if isYaml then Yaml.decodeText decoder text
  else (Document.decodeText decoder text).mapError fun error => error.inText text

def load (host : Host) (path : String) : Except Failure Policy :=
  match host.readText path with
  | .error error => .error (.policy path error.message)
  | .ok text => (read (isYamlPath path) text).mapError (Failure.policy path)

end PolicyLint.Policy
