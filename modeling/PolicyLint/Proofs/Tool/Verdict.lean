import PolicyLint.Proofs.Action
import PolicyLint.Proofs.Tool.Silence
import PolicyLint.Tool.Toolbox
/-!
What a tool's exit code says against what its output says. Main statement: a run that did not end with
zero is not taken for a clean one, unless the output is one in which the tool says that nothing is wrong.
-/
namespace PolicyLint

theorem Host.withConfig_ok {directory lead tail content : String} {use : String → Action Host α}
    {host : Host} {a : α} (done : (withConfig directory lead tail content use host).1 = .ok a) :
    ∃ path host', (use path host').1 = .ok a := by
  unfold withConfig at done
  cases opened : host.openConfig directory lead tail content with
  | error failure => simp [opened] at done
  | ok file =>
    rw [opened] at done
    exact ⟨file.1, file.2, done⟩

theorem Toolbox.accepted_ok {tool : String} {accepts : Int → Bool} {output output' : Output}
    {host : Host} (done : (accepted tool accepts output host).1 = .ok output') :
    accepts output'.exitCode = true := by
  unfold accepted at done
  split at done
  · rename_i good
    obtain rfl : output = output' := Except.ok.inj done
    exact good
  · cases done

inductive BuiltinTool where
  | eslint | prettier | tsc | checkstyle | pmd
deriving DecidableEq, Repr

namespace BuiltinTool

open Tool

def all : List BuiltinTool := [eslint, prettier, tsc, checkstyle, pmd]

def adapter (box : Toolbox) : BuiltinTool → Adapter Host
  | eslint => box.eslint
  | prettier => box.prettier
  | tsc => box.tsc
  | checkstyle => box.checkstyle
  | pmd => box.pmd

/-- The built-in adapters are these five. -/
theorem adapters_eq (box : Toolbox) : box.adapters.adapters = all.map (adapter box) := rfl

/-- The exit codes that are results, with files to look at. -/
def IsResult : BuiltinTool → Int → Prop
  | eslint, code => code = 0 ∨ code = 1
  | prettier, code => code < 2
  | pmd, code => code = 0 ∨ code = 4 ∨ code = 5
  | tsc, _ | checkstyle, _ => True

def parse : BuiltinTool → Output → Except Failure (List Finding)
  | eslint => Eslint.parse
  | prettier => Prettier.parse
  | tsc => Tsc.parse
  | checkstyle => Checkstyle.parse
  | pmd => Pmd.parse

theorem adapter_parse (box : Toolbox) (tool : BuiltinTool) (output : Output) (host : Host) :
    ((tool.adapter box).parse output host).1 = tool.parse output := by
  cases tool <;>
    simp only [adapter, parse, Toolbox.eslint, Toolbox.prettier, Toolbox.tsc, Toolbox.checkstyle,
      Toolbox.pmd, Action.ofExcept_apply]

/-! ### Exit codes that get through -/

/-- What a tool hands on after a run on files has an exit code that is a result. -/
theorem isResult_of_execute {box : Toolbox} {tool : BuiltinTool} {context : Context}
    {config : String} {files : List String} {host : Host} {output : Output} (nonempty : files ≠ [])
    (done : ((tool.adapter box).execute context config files host).1 = .ok output) :
    tool.IsResult output.exitCode := by
  have full : files.isEmpty = false := by simpa using nonempty
  cases tool with
  | eslint =>
    simp only [adapter, Toolbox.eslint, Toolbox.runEslint, full] at done
    obtain ⟨_, _, done⟩ := Host.withConfig_ok done
    obtain ⟨_, _, -, done⟩ := Action.bind_eq_ok done
    obtain ⟨_, _, -, done⟩ := Action.bind_eq_ok done
    simpa [IsResult, Eslint.accepts] using Toolbox.accepted_ok done
  | prettier =>
    simp only [adapter, Toolbox.prettier, Toolbox.runPrettier, full] at done
    obtain ⟨_, _, done⟩ := Host.withConfig_ok done
    obtain ⟨_, _, -, done⟩ := Action.bind_eq_ok done
    obtain ⟨_, _, -, done⟩ := Action.bind_eq_ok done
    simpa [IsResult, Prettier.accepts] using Toolbox.accepted_ok done
  | tsc | checkstyle => trivial
  | pmd =>
    simp only [adapter, Toolbox.pmd, Toolbox.runPmd, full] at done
    obtain ⟨here, _, -, done⟩ := Action.bind_eq_ok done
    cases found : box.findPmd? here with
    | none => simp [found, Action.fail] at done
    | some program =>
      rw [found] at done
      obtain ⟨_, _, done⟩ := Host.withConfig_ok done
      obtain ⟨_, _, -, done⟩ := Action.bind_eq_ok done
      simpa [IsResult, Pmd.accepts, or_assoc] using Toolbox.accepted_ok done

/-! ### Outputs that say nothing -/

/-- An output in which a tool says that nothing is wrong. The compiler never says so behind an exit code that
is not zero. -/
def Silent : BuiltinTool → Output → Prop
  | eslint, output => Eslint.Silent output.stdout.toList
  | prettier, output => Prettier.Silent output
  | tsc, _ => False
  | checkstyle, output => Checkstyle.Silent output.stdout.toList
  | pmd, output => Pmd.Silent output.stdout.toList

theorem parse_nil_iff {tool : BuiltinTool} {output : Output} (nonzero : output.exitCode ≠ 0) :
    tool.parse output = .ok [] ↔ tool.Silent output := by
  cases tool <;> simp only [parse, Silent]
  case eslint => exact Eslint.parse_nil_iff output
  case prettier => exact Prettier.parse_nil_iff nonzero
  case checkstyle => exact Checkstyle.parse_nil_iff nonzero
  case pmd => exact Pmd.parse_nil_iff nonzero
  case tsc =>
    refine iff_of_false (fun passes => ?_) id
    simp only [Tsc.parse] at passes
    split at passes
    · cases passes
    · rename_i reported
      exact reported ⟨Except.ok.inj passes, nonzero⟩

/-- A run on files that is handed on ended with an exit code that is a result. Where it did not end with zero,
its output is refused or has a finding, unless the tool says that nothing is wrong. PMD's reports that say so
are results all the same, whatever else they say it could not process. -/
theorem nonzero_exit_reported (box : Toolbox) (tool : BuiltinTool) :
    box.adapters.adapters = all.map (adapter box) ∧
    (∀ context config files host output, files ≠ [] →
      ((tool.adapter box).execute context config files host).1 = .ok output →
      tool.IsResult output.exitCode) ∧
    ∀ output host, output.exitCode ≠ 0 →
      let answer := ((tool.adapter box).parse output host).1
      (¬ tool.Silent output →
        (∃ failure, answer = .error failure) ∨ ∃ found, answer = .ok found ∧ found ≠ []) ∧
      (tool = pmd → tool.Silent output → answer = .ok []) := by
  refine ⟨adapters_eq box, fun _ _ _ _ _ nonempty done => isResult_of_execute nonempty done, ?_⟩
  intro output host nonzero answer
  have same : answer = tool.parse output := adapter_parse box tool output host
  rw [same]
  constructor
  · intro reports
    cases read : tool.parse output with
    | error failure => exact .inl ⟨failure, rfl⟩
    | ok found =>
      refine .inr ⟨found, rfl, ?_⟩
      rintro rfl
      exact reports ((parse_nil_iff nonzero).mp read)
  · rintro - silent
    exact (parse_nil_iff nonzero).mpr silent

/-- A host with a tool that always ends in one way. -/
def hosting (name : String) (script : Script) : Host where
  tree := FileTree.empty.plant ["bin", name] (.program script)
  directory := []
  searchPath := ["/bin"]
  home := "/"
  now := 0
  calls := []
  scratch := []

/-- A file behind a warning mark is no silence. -/
theorem not_silent_warned : ¬ prettier.Silent ⟨"", "[warn] a.js\n", 1⟩ := by
  intro silent
  have line : Text.IsLine "[warn] a.js".toList "[warn] a.js\n".toList :=
    ⟨by decide, [], ['\n'], rfl, .inl rfl, .inr rfl⟩
  have formatted : Prettier.IsFormattedName "a.js".toList :=
    ⟨"js", ⟨[], ['a'], [], rfl, .inl rfl, by decide, by decide, by decide, nofun⟩, by decide⟩
  have listable : Prettier.Listable "a.js".toList :=
    ⟨⟨'a', rfl, by decide⟩, ⟨'s', rfl, by decide⟩, formatted, by simp⟩
  exact silent _ (.inr line) _
    (.marked ⟨[], nofun⟩ ⟨[' '], List.forall_mem_singleton.mpr rfl⟩ ⟨[], nofun⟩ listable)

theorem warned_file_reported :
    let answer :=
      ((prettier.adapter ⟨"/tools", .default⟩).parse ⟨"", "[warn] a.js\n", 1⟩ (hosting "prettier" .idle)).1
    (∃ failure, answer = .error failure) ∨ ∃ found, answer = .ok found ∧ found ≠ [] :=
  ((nonzero_exit_reported ⟨"/tools", .default⟩ prettier).2.2 ⟨"", "[warn] a.js\n", 1⟩ (hosting "prettier" .idle)
    (by decide)).1 not_silent_warned

/-- A tool runs on a file, does not end with zero, and its rule passes. -/
def Passes (tool : BuiltinTool) (host : Host) (file : String) (output : Output) : Prop :=
  ((tool.adapter ⟨"/tools", .default⟩).execute .plain "" [file] host).1 = .ok output ∧
    output.exitCode ≠ 0 ∧ tool.parse output = .ok []

instance (tool : BuiltinTool) (host : Host) (file : String) (output : Output) :
    Decidable (tool.Passes host file output) :=
  inferInstanceAs (Decidable (_ ∧ _ ∧ _))

/-- What PMD prints when it cannot process the only file. -/
def unprocessed : String :=
  "\x7b\"files\":[],\"processingErrors\":[\x7b\"filename\":\"A.java\"\x7d]\x7d"

/-- A program that prints a text and ends with an exit code, or by a signal. -/
def script (stdout : String) (exitCode : Nat) (signal : Option Nat) : Script :=
  ⟨Text.Utf8.encode stdout, [], exitCode, none, signal, none, false⟩

/-- Files that PMD could not process leave a clean report, and so may errors that Checkstyle counts but does not
list. ESLint may end as it does with findings and print none, and a signal may end Prettier before it prints a
file. Every time the rule passes. -/
theorem silent_runs_pass :
    pmd.Passes (hosting "pmd" (script unprocessed 5 none)) "A.java" ⟨unprocessed, "", 5⟩ ∧
    checkstyle.Passes (hosting "java" (script "<checkstyle></checkstyle>" 1 none)) "A.java"
      ⟨"<checkstyle></checkstyle>", "", 1⟩ ∧
    eslint.Passes (hosting "eslint" (script "" 1 none)) "a.js" ⟨"", "", 1⟩ ∧
    eslint.Passes (hosting "eslint" (script "[]" 1 none)) "a.js" ⟨"[]", "", 1⟩ ∧
    prettier.Passes (hosting "prettier" (script "" 0 (some 9))) "a.js" ⟨"", "", -1⟩ := by
  decide +kernel

end BuiltinTool
end PolicyLint
