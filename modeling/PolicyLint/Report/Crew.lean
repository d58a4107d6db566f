import PolicyLint.Report.Validation
/-!
Rules that are evaluated side by side, by workers that share the engines and their adapters. Each call of
an adapter is a step of its own, and between two steps of one evaluation the others go on. An engine has one
lock for all its evaluations, which is held from the second look for a tool until the tool is there or its
installation has failed.
-/
namespace PolicyLint

/-- A rule to be evaluated on files. -/
structure Assignment where
  context : Context
  rule : Rule
  files : List String

namespace Assignment

def kept (given : Assignment) : List String :=
  Selector.keep given.rule.selector given.files

def language (given : Assignment) : String :=
  Selector.language given.rule.selector given.kept

end Assignment

/-- An evaluation that has found its adapter. -/
structure Job (W : Type) where
  kind : EngineKind
  /-- The serial number of the engine, whose lock it is. -/
  engine : Nat
  started : Nat
  adapter : Adapter W

/-- A step that asks something of the adapter; at the end it is the clock that is asked. -/
inductive Errand where
  | look
  | lookAgain
  | installing
  | confirm
  | configure
  | execute (config : String)
  | parse (output : Output)
  | finish (found : List Finding)

inductive Stage where
  | calling (errand : Errand)
  /-- The tool was missing, so the lock is wanted. -/
  | wait
  /-- The tool is still missing, and the installation starts with the next step. -/
  | install
  | release (result : Except Failure Unit)

inductive Progress (W : Type) where
  | fresh
  /-- The engine of the rule is there, with its serial number. -/
  | engaged (kind : EngineKind) (engine : Nat)
  | under (job : Job W) (stage : Stage)
  | done (result : Except Failure RuleResult)

def Progress.result? : Progress W → Option (Except Failure RuleResult)
  | .done result => some result
  | .fresh | .engaged .. | .under .. => none

/-! ### Steps -/

namespace Assignment

variable (given : Assignment)

/-- The engine is asked for, and made if it is not there yet. -/
def enter (state : EngineRegistry.Workshop W) : Progress W × EngineRegistry.Workshop W :=
  match EngineKind.find? given.rule.engine with
  | none => (.done (.error (.engineNotRegistered given.rule.engine)), state)
  | some kind =>
    let r := EngineRegistry.get given.rule.engine state
    (match r.1 with
      | .ok inst => .engaged kind inst.serial
      | .error failure => .done (.error failure), r.2)

/-- The files are selected, and the adapter is found. -/
def begin [Clock W] (config : EngineConfig W) (kind : EngineKind) (engine : Nat) (w : W) :
    Progress W × W :=
  let started := Clock.read w
  (if given.kept = [] then .done (.ok (.trivial given.rule.id kind.name))
    else
      match (kind.evaluator config).adapterFor given.rule given.language (kind.pinned? given.rule) with
      | .error failure => .done (.error failure)
      | .ok adapter => .under ⟨kind, engine, started.1, adapter⟩ (.calling .look), started.2)

end Assignment

namespace Job

variable (job : Job W)

def fail (failure : Failure) : Progress W :=
  .under job (.release (.error (.installFailed job.adapter.name failure)))

/-- The lock is given back. -/
def leave : Except Failure Unit → Progress W
  | .ok _ => .under job (.calling .configure)
  | .error failure => .done (.error failure)

/-- An errand, and what comes after it. -/
def run [Clock W] (given : Assignment) (request : InstallRequest) : Errand → W → Progress W × W
  | .look, w =>
    let r := job.adapter.check given.context w
    (match r.1 with
      | .ok _ => .under job (.calling .configure)
      | .error _ => .under job .wait, r.2)
  | .lookAgain, w =>
    let r := job.adapter.check given.context w
    (match r.1 with
      | .ok _ => .under job (.release (.ok ()))
      | .error _ => .under job .install, r.2)
  | .installing, w =>
    let r := job.adapter.install given.context request w
    (match r.1 with
      | .ok _ => .under job (.calling .confirm)
      | .error failure => job.fail failure, r.2)
  | .confirm, w =>
    let r := job.adapter.check given.context w
    (match r.1 with
      | .ok _ => .under job (.release (.ok ()))
      | .error failure => job.fail failure, r.2)
  | .configure, w =>
    let r := job.adapter.configure given.rule w
    (match r.1 with
      | .ok config => .under job (.calling (.execute config))
      | .error failure => .done (.error failure), r.2)
  | .execute config, w =>
    let r := job.adapter.execute given.context config given.kept w
    (match r.1 with
      | .ok output => .under job (.calling (.parse output))
      | .error failure => .done (.error failure), r.2)
  | .parse output, w =>
    let r := job.adapter.parse output w
    (match r.1 with
      | .ok found => .under job (.calling (.finish found))
      | .error failure => .done (.error failure), r.2)
  | .finish found, w =>
    let ended := Clock.read w
    (.done (.ok (.ofViolations given.rule.id job.kind.name given.language
      (found.map (Evaluator.violation given.rule job.adapter.name (job.kind.suggestion? given.rule)))
      (ended.1 - job.started))), ended.2)

end Job

/-- The start of an installation, by an evaluation on behalf of an engine. -/
structure Start where
  caller : Nat
  engine : String
  tool : String
deriving DecidableEq, Repr

/-- Evaluations with what they share. -/
structure Crew (W : Type) where
  registry : EngineRegistry W
  world : W
  /-- Which evaluation holds the lock of an engine. -/
  holder : Nat → Option Nat
  progress : Nat → Progress W

namespace Crew

/-- Nothing is done yet, and no lock is held. -/
def begun (registry : EngineRegistry W) (w : W) : Crew W :=
  ⟨registry, w, fun _ => none, fun _ => .fresh⟩

/-- A family with another value at one place. -/
def replace (family : Nat → α) (place : Nat) (value : α) : Nat → α :=
  fun other => if other = place then value else family other

def put (crew : Crew W) (caller : Nat) (progress : Progress W) : Crew W :=
  { crew with progress := replace crew.progress caller progress }

variable [Clock W] (work : Nat → Assignment)

/-- The next step of one evaluation. One that wants a lock that is held stays where it is, and so does one
that is done. -/
def perform (crew : Crew W) (caller : Nat) : Option Start × Crew W :=
  let given := work caller
  match crew.progress caller with
  | .fresh =>
    let r := given.enter (crew.registry, crew.world)
    (none, { crew with registry := r.2.1, world := r.2.2 }.put caller r.1)
  | .engaged kind engine =>
    let r := given.begin crew.registry.config kind engine crew.world
    (none, { crew with world := r.2 }.put caller r.1)
  | .under job (.calling errand) =>
    let r := job.run given crew.registry.config.request errand crew.world
    (none, { crew with world := r.2 }.put caller r.1)
  | .under job .wait =>
    match crew.holder job.engine with
    | some _ => (none, crew)
    | none =>
      (none, { crew with holder := replace crew.holder job.engine (some caller) }.put caller
        (.under job (.calling .lookAgain)))
  | .under job .install =>
    (some ⟨caller, given.rule.engine, job.adapter.name⟩,
      crew.put caller (.under job (.calling .installing)))
  | .under job (.release result) =>
    (none, { crew with holder := replace crew.holder job.engine none }.put caller (job.leave result))
  | .done _ => (none, crew)

/-- Steps one after the other, each of whichever evaluation; gives the installations that are started. -/
def play (crew : Crew W) : List Nat → List Start × Crew W
  | [] => ([], crew)
  | caller :: rest =>
    let (start, crew) := crew.perform work caller
    let (starts, crew) := crew.play rest
    (start.toList ++ starts, crew)

/-! ### Workers -/

/-- The evaluations among these that have no result yet. -/
def unfinished (crew : Crew W) (callers : List Nat) : List Nat :=
  callers.filter fun caller => (crew.progress caller).result?.isNone

/-- Workers that take up the evaluations in their order; in a round each of them takes one step. -/
def rounds (callers : List Nat) (workers : Nat) : Nat → Crew W → Crew W
  | 0, crew => crew
  | more + 1, crew =>
    rounds callers workers more (crew.play work ((crew.unfinished callers).take workers)).2

/-- No evaluation takes more steps. -/
def stepsAtMost : Nat := 13

/-- Workers at work until no evaluation is left. -/
def labour (callers : List Nat) (workers : Nat) (crew : Crew W) : Crew W :=
  crew.rounds work callers workers (stepsAtMost * callers.length)

end Crew

namespace Report

/-- The outcome of a rule that is passed over, or of one whose evaluation has come to its end. -/
def outcome? (scope : Scope) (rule : Rule) (progress : Progress W) : Option RuleOutcome :=
  match exclusion? scope rule with
  | some exclusion => some (.skipped rule exclusion)
  | none => progress.result?.map (RuleOutcome.ofResult rule)

variable [Clock W]

/-- The outcomes of rules, in their order, whichever worker comes first. -/
def runBy (workers : Nat) (context : Context) (files : List String) (scope : Scope) :
    List Rule → StateM (EngineRegistry.Workshop W) (List RuleOutcome)
  | [] => fun state => ([], state)
  | first :: rest => fun (registry, w) =>
    let rule := fun caller => (first :: rest).getD caller first
    let callers := List.range (rest.length + 1)
    let evaluated := callers.filter fun caller => (exclusion? scope (rule caller)).isNone
    let work := fun caller => (⟨context, rule caller, files⟩ : Assignment)
    let crew := (Crew.begun registry w).labour work evaluated workers
    (callers.filterMap fun caller => outcome? scope (rule caller) (crew.progress caller),
      crew.registry, crew.world)

/-- Every rule of the policy. Zero leaves the number of workers to the machine, which has one here; one
worker goes through the rules in order. -/
def validateBy (workers : Nat) (context : Context) (policy : Policy) (files : List String)
    (scope : Scope) : StateM (EngineRegistry.Workshop W) Report :=
  fun state =>
    if workers ≤ 1 then validate context policy files scope state
    else
      let r := runBy workers context files scope policy.rules state
      (Report.of r.1 files.length, r.2)

end Report
end PolicyLint
