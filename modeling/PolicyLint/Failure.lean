import PolicyLint.Document.Decode
/-!
What can go wrong with the evaluation of a rule, and how it is worded. A failure that stops one rule
leaves the others alone; a failure to install a tool, or to create an engine, carries its cause.
-/
namespace PolicyLint

/-- A span of time, in nanoseconds. -/
abbrev Duration := Nat

namespace Duration

/-- `whole.fraction`, the fraction in `places` digits without trailing zeros. -/
def decimal (whole fraction places : Nat) : String :=
  let digits := Nat.toDigits 10 fraction
  let padded := List.replicate (places - digits.length) '0' ++ digits
  let kept := (padded.reverse.dropWhile (· == '0')).reverse
  String.ofList (Nat.toDigits 10 whole ++ if kept = [] then [] else '.' :: kept)

/-- In the largest unit that leaves a whole part. -/
def text (d : Duration) : String :=
  if 1000000000 ≤ d then decimal (d / 1000000000) (d % 1000000000) 9 ++ "s"
  else if 1000000 ≤ d then decimal (d / 1000000) (d % 1000000) 6 ++ "ms"
  else if 1000 ≤ d then decimal (d / 1000) (d % 1000) 3 ++ "µs"
  else decimal d 0 0 ++ "ns"

end Duration

/-- A refusal of the operating system. -/
inductive OsError where
  | notFound | notDirectory | isDirectory | permissionDenied | fileExists | badFormat | loop
  | nameTooLong | invalidUtf8 | nulInName | nulInArgument
deriving DecidableEq, Repr

def OsError.message : OsError → String
  | .notFound => "No such file or directory (os error 2)"
  | .notDirectory => "Not a directory (os error 20)"
  | .isDirectory => "Is a directory (os error 21)"
  | .permissionDenied => "Permission denied (os error 13)"
  | .fileExists => "File exists (os error 17)"
  | .badFormat => "Exec format error (os error 8)"
  | .loop => "Too many levels of symbolic links (os error 40)"
  | .nameTooLong => "File name too long (os error 36)"
  | .invalidUtf8 => "stream did not contain valid UTF-8"
  | .nulInName => "file name contained an unexpected NUL byte"
  | .nulInArgument => "nul byte found in provided data"

inductive Failure where
  | config (rule message : String)
  | engineNotRegistered (engine : String)
  | engineAlreadyRegistered (engine : String)
  | engineNotInitialized (engine : String)
  | engineInit (engine : String) (cause : Failure)
  | adapterNotFound (language category : String)
  | unknownAdapter (adapter : String)
  | adapterAlreadyRegistered (adapter : String)
  | adapterUnavailable (adapter reason : String)
  | installFailed (adapter : String) (cause : Failure)
  | launch (program : String) (cause : OsError)
  | toolFailed (tool : String) (code : Int) (stderr : String)
  | cancelled (program : String)
  | timedOut (program : String) (after : Duration)
  | parse (tool message : String)
  | policy (path message : String)
  | pattern (pattern message : String)
  | io (message : String)
  | json (message : String)
deriving DecidableEq, Repr

namespace Failure

def message : Failure → String
  | .config rule message => s!"rule '{rule}': {message}"
  | .engineNotRegistered engine => s!"engine '{engine}' is not registered"
  | .engineAlreadyRegistered engine => s!"engine '{engine}' is already registered"
  | .engineNotInitialized engine => s!"engine '{engine}' is not initialized"
  | .engineInit engine cause => s!"failed to create engine '{engine}': " ++ cause.message
  | .adapterNotFound language category =>
    s!"no adapter found for language={language} category={category}"
  | .unknownAdapter adapter => s!"adapter '{adapter}' is not registered"
  | .adapterAlreadyRegistered adapter => s!"adapter '{adapter}' is already registered"
  | .adapterUnavailable adapter reason => s!"{adapter} is not available: {reason}"
  | .installFailed adapter cause =>
    s!"{adapter} is not available and installation failed: " ++ cause.message
  | .launch program cause => s!"failed to launch '{program}': " ++ cause.message
  | .toolFailed tool code stderr => s!"{tool} failed with exit code {code}: {stderr}"
  | .cancelled program => s!"'{program}' was cancelled"
  | .timedOut program after => s!"'{program}' timed out after " ++ Duration.text after
  | .parse tool message => s!"failed to parse {tool} output: {message}"
  | .policy path message => s!"policy error in {path}: {message}"
  | .pattern glob message => s!"invalid file pattern '{glob}': {message}"
  | .io message => s!"IO error: {message}"
  | .json message => s!"JSON error: {message}"

/-- Whether the evaluation was called off or ran out of time, also while a tool was being
installed. -/
def isCancellation : Failure → Bool
  | .cancelled _ | .timedOut .. => true
  | .installFailed _ cause => cause.isCancellation
  | _ => false

end Failure
end PolicyLint
