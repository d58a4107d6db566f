import PolicyLint.Adapter
/-!
Watching a program that was started. It is looked at again and again, until a look shows that it has
ended, that the evaluation was called off, or that its time is over. A program that is given up is
killed and waited for, so that none is left behind.
-/
namespace PolicyLint

inductive Ending where
  | exited (code : Nat)
  | signalled
deriving DecidableEq, Repr

def Ending.code : Ending → Int
  | .exited code => code
  | .signalled => -1

/-- What a look at the program shows. -/
inductive Sight where
  | running
  | ended (ending : Ending)
  | unknown (error : OsError)
deriving DecidableEq, Repr

/-- A look, and whether the evaluation is called off by then. -/
structure Observation where
  sight : Sight
  cancelled : Bool
  now : Nat
deriving DecidableEq, Repr

inductive Verdict where
  | ended (ending : Ending)
  | cancelled
  | timedOut
  | lost (error : OsError)
deriving DecidableEq, Repr

/-- What is done with a program that is given up. -/
inductive Cleanup where
  | kill | reap
deriving DecidableEq, Repr

structure Watch where
  verdict : Verdict
  cleanup : List Cleanup
  now : Nat
deriving DecidableEq, Repr

def Watch.givenUp (verdict : Verdict) (now : Nat) : Watch :=
  ⟨verdict, [.kill, .reap], now⟩

/-- The first look that settles the matter. An end counts before everything else, and being called
off before being out of time. -/
def watch (deadline : Nat) : List Observation → Option Watch
  | [] => none
  | look :: rest =>
    match look.sight with
    | .ended ending => some ⟨.ended ending, [], look.now⟩
    | .unknown error => some (.givenUp (.lost error) look.now)
    | .running =>
      if look.cancelled then some (.givenUp .cancelled look.now)
      else if deadline ≤ look.now then some (.givenUp .timedOut look.now)
      else watch deadline rest

/-- The earlier of the context's deadline and the program's own. Instants have no bound, so that they always add
up; where a clock cannot count as far as `started + timeout`, nothing is watched at all. -/
def deadlineOf (context : Context) (started : Nat) (timeout : Duration) : Nat :=
  match context.deadline with
  | some deadline => min deadline (started + timeout)
  | none => started + timeout

/-- A verdict as the outcome of a run; any exit code is an outcome. -/
def Watch.outcome (watch : Watch) (program : String) (started : Nat) : Except Failure Int :=
  match watch.verdict with
  | .ended ending => .ok ending.code
  | .cancelled => .error (.cancelled program)
  | .timedOut => .error (.timedOut program (watch.now - started))
  | .lost error => .error (.io error.message)

end PolicyLint
