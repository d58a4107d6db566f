import PolicyLint.CommandLine.Run
import PolicyLint.Host.Snapshot
/-!
The program: the command line over a machine that standard input describes.
-/

/-- Runs the command of the arguments and gives its exit code. -/
def main (arguments : List String) : IO UInt32 := do
  let stdin ← IO.getStdin
  let stderr ← IO.getStderr
  match PolicyLint.Host.Snapshot.read (← stdin.readToEnd) with
  | .error message =>
    stderr.putStrLn message
    return 2
  | .ok host =>
    let color := (← IO.getEnv "NO_COLOR").isNone
    let (exit, _) := PolicyLint.CommandLine.run color arguments host
    stderr.putStr exit.stderr
    (← IO.getStdout).putStr exit.stdout
    return exit.code.toUInt32
