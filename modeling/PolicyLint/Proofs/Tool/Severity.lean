import PolicyLint.Proofs.Evaluation.Steady
import PolicyLint.Proofs.Tool.Diagnostics
import PolicyLint.Proofs.Tool.Verdict
/-!
Where the severity of a violation comes from. The built-in tools grade their findings each in a way of its
own, by numbers, by words or not at all, but what is read of their outputs has the words of the severities.
Main statement: a violation is as grave as its tool says, and the severity of its rule does not count.
-/
namespace PolicyLint

theorem Severity.ofTool?_word (severity : Severity) : ofTool? severity.word = some severity := by
  cases severity <;> decide

namespace Finding

/-- The word of a finding is that of a severity. -/
def Graded (finding : Finding) (severity : Severity) : Prop :=
  finding.severity = severity.word

variable {finding : Finding} {severity : Severity}

theorem Graded.ofTool? (graded : finding.Graded severity) :
    Severity.ofTool? finding.severity = some severity := by
  rw [graded, Severity.ofTool?_word]

/-- The severity of the rule is not asked for. -/
theorem Graded.violation (graded : finding.Graded severity) (rule : Rule) (tool : String)
    (hint : Option Suggestion) : (Evaluator.violation rule tool hint finding).severity = severity := by
  simp only [Evaluator.violation, graded.ofTool?, Option.getD_some]

theorem Graded.violation_congr (graded : finding.Graded severity) (rule : Rule) (other : Severity)
    (tool : String) (hint : Option Suggestion) :
    Evaluator.violation { rule with severity := other } tool hint finding =
      Evaluator.violation rule tool hint finding := by
  simp only [Evaluator.violation, graded.ofTool?, Option.getD_some]
  rfl

/-- A violation keeps the word that its severity was read from. -/
theorem Graded.mem_context (graded : finding.Graded severity) (rule : Rule) (tool : String)
    (hint : Option Suggestion) :
    ("toolSeverity", .string severity.word) ∈ (Evaluator.violation rule tool hint finding).context := by
  have named : finding.severity ≠ "" := by
    rw [graded]
    cases severity <;> decide
  simp [Evaluator.violation, textMember, named, graded.symm]

end Finding

/-! ### Tools -/

namespace Tool

theorem Eslint.levelWord_graded (level : Nat) : ∃ severity : Severity, levelWord level = severity.word := by
  unfold levelWord
  split
  · exact ⟨.error, rfl⟩
  · split
    · exact ⟨.warning, rfl⟩
    · exact ⟨.info, rfl⟩

theorem Pmd.severityWord_graded (priority : Nat) :
    ∃ severity : Severity, severityWord priority = severity.word := by
  unfold severityWord
  split
  · exact ⟨.error, rfl⟩
  · split
    · exact ⟨.info, rfl⟩
    · exact ⟨.warning, rfl⟩

/-- Whatever stands in the report, case apart. -/
theorem Checkstyle.severityWord_graded (text : String) :
    ∃ severity : Severity, severityWord text = severity.word := by
  unfold severityWord
  dsimp only
  split
  · rename_i known
    rcases known with error | info
    · exact ⟨.error, error⟩
    · exact ⟨.info, info⟩
  · exact ⟨.warning, rfl⟩

theorem Tsc.Level.severity_graded (level : Level) :
    ∃ severity : Severity, level.severity = severity.word := by
  cases level with
  | error => exact ⟨.error, rfl⟩
  | warning => exact ⟨.warning, rfl⟩
  | suggestion => exact ⟨.info, rfl⟩

end Tool

/-- All findings of a tool have the words of severities. -/
def AllGraded (found : List Finding) : Prop :=
  ∀ finding ∈ found, ∃ severity, finding.Graded severity

theorem allGraded_nil : AllGraded [] :=
  fun _ impossible => absurd impossible List.not_mem_nil

namespace Tool

theorem Eslint.parse_graded (output : Output) {found : List Finding} (parsed : parse output = .ok found) :
    AllGraded found := by
  simp only [parse] at parsed
  split at parsed
  · obtain rfl := Except.ok.inj parsed
    exact allGraded_nil
  split at parsed
  · obtain rfl := Except.ok.inj parsed
    intro finding member
    obtain ⟨result, -, member⟩ := List.mem_flatMap.mp member
    obtain ⟨message, -, rfl⟩ := List.mem_map.mp member
    exact levelWord_graded message.severity
  · cases parsed

theorem Prettier.parse_graded (output : Output) {found : List Finding} (parsed : parse output = .ok found) :
    AllGraded found := by
  obtain rfl := Except.ok.inj parsed
  intro finding member
  unfold findings at member
  split at member
  · cases member
  · obtain ⟨line, -, listed⟩ := List.mem_filterMap.mp member
    obtain ⟨file, -, rfl⟩ := Option.map_eq_some_iff.mp listed
    exact ⟨.warning, rfl⟩

theorem Tsc.diagnosticFrom?_graded {before cs : List Char} {finding : Finding}
    (read : diagnosticFrom? before cs = some finding) : ∃ severity, finding.Graded severity := by
  induction cs generalizing before with
  | nil => cases read
  | cons c rest ih =>
    rw [diagnosticFrom?] at read
    cases first : afterFile? (c :: before).reverse rest with
    | none =>
      rw [first] at read
      exact ih read
    | some finding' =>
      rw [first] at read
      obtain rfl := Option.some.inj read
      obtain ⟨parts, -, -, -, rfl⟩ := afterFile?_eq_some first
      exact parts.level.severity_graded

theorem Tsc.parse_graded (output : Output) {found : List Finding} (parsed : parse output = .ok found) :
    AllGraded found := by
  simp only [parse] at parsed
  split at parsed
  · cases parsed
  · obtain rfl := Except.ok.inj parsed
    intro finding member
    obtain ⟨line, -, read⟩ := List.mem_filterMap.mp member
    exact diagnosticFrom?_graded read

theorem Checkstyle.findingsIn_graded (file : String) (tags : List Xml.Tag) :
    AllGraded (findingsIn file tags) := by
  induction tags generalizing file with
  | nil => exact allGraded_nil
  | cons tag rest ih =>
    rw [findingsIn]
    split
    · exact ih _
    split
    · exact List.forall_mem_cons.mpr ⟨severityWord_graded _, ih file⟩
    · exact ih file

theorem Checkstyle.parse_graded (output : Output) {found : List Finding}
    (parsed : parse output = .ok found) : AllGraded found := by
  simp only [parse] at parsed
  split at parsed
  · split at parsed
    · obtain rfl := Except.ok.inj parsed
      exact allGraded_nil
    · cases parsed
  split at parsed
  · cases parsed
  split at parsed
  · obtain rfl := Except.ok.inj parsed
    exact findingsIn_graded "" _
  · cases parsed

theorem Pmd.parse_graded (output : Output) {found : List Finding} (parsed : parse output = .ok found) :
    AllGraded found := by
  simp only [parse] at parsed
  split at parsed
  · split at parsed
    · obtain rfl := Except.ok.inj parsed
      exact allGraded_nil
    · cases parsed
  split at parsed
  · cases parsed
  split at parsed
  · obtain rfl := Except.ok.inj parsed
    intro finding member
    obtain ⟨report, -, member⟩ := List.mem_flatMap.mp member
    obtain ⟨reported, -, rfl⟩ := List.mem_map.mp member
    exact severityWord_graded reported.priority
  · cases parsed

end Tool

theorem BuiltinTool.parse_graded {tool : BuiltinTool} {output : Output} {found : List Finding}
    (parsed : tool.parse output = .ok found) : AllGraded found := by
  cases tool with
  | eslint => exact Tool.Eslint.parse_graded output parsed
  | prettier => exact Tool.Prettier.parse_graded output parsed
  | tsc => exact Tool.Tsc.parse_graded output parsed
  | checkstyle => exact Tool.Checkstyle.parse_graded output parsed
  | pmd => exact Tool.Pmd.parse_graded output parsed

theorem Toolbox.parse_graded {box : Toolbox} {adapter : Adapter Host}
    (builtin : adapter ∈ box.adapters.adapters) {output : Output} {host : Host} {found : List Finding}
    (parsed : (adapter.parse output host).1 = .ok found) : AllGraded found := by
  rw [BuiltinTool.adapters_eq] at builtin
  obtain ⟨tool, -, rfl⟩ := List.mem_map.mp builtin
  rw [tool.adapter_parse] at parsed
  exact BuiltinTool.parse_graded parsed

/-! ### Evaluations -/

/-- What an evaluation finds was read of an output. -/
theorem Evaluator.exists_parse_of_findings {context : Context} {adapter : Adapter W}
    {install : InstallRequest} {rule : Rule} {files : List String} {w : W} {found : List Finding}
    (done : (findings context adapter install rule files w).1 = .ok found) :
    ∃ output w', (adapter.parse output w').1 = .ok found := by
  simp only [findings, Action.bind_apply] at done
  split at done
  · split at done
    · split at done
      · exact ⟨_, _, done⟩
      · cases done
    · cases done
  · cases done

theorem Evaluator.exists_parse_of_run [Clock W] {evaluator : Evaluator W} {context : Context} {rule : Rule}
    {files : List String} {pinned : Option String} {hint : Option Suggestion} {w : W}
    {result : RuleResult} (done : (evaluator.run context rule files pinned hint w).1 = .ok result) :
    result.violations = [] ∨ ∃ registry adapter output w' found, evaluator.adapters = some registry ∧
      adapter ∈ registry.adapters ∧ (adapter.parse output w').1 = .ok found ∧
      result.violations = found.map (violation rule adapter.name hint) := by
  simp only [run_apply] at done
  split at done
  · obtain rfl := Except.ok.inj done
    exact .inl rfl
  split at done
  · cases done
  rename_i adapter resolved
  split at done
  · cases done
  rename_i found w' finds
  obtain rfl := Except.ok.inj done
  obtain ⟨output, w'', parsed⟩ := exists_parse_of_findings (congrArg Prod.fst finds)
  cases given : evaluator.adapters with
  | none => simp [adapterFor, given] at resolved
  | some registry =>
    exact .inr ⟨registry, adapter, output, w'', found, rfl, adapterFor_mem resolved given, parsed, rfl⟩

/-- The built-in adapters give every finding the word of a severity, however their tool grades it; a
violation has this severity whatever its rule has, so rules that differ in their severity alone make the
same violations of an output. A result of an engine with these adapters holds no other violations. -/
theorem Toolbox.severity_told (box : Toolbox) :
    (∀ adapter ∈ box.adapters.adapters, ∀ output host found,
      (adapter.parse output host).1 = .ok found →
      (∀ finding ∈ found, ∃ severity : Severity, finding.severity = severity.word ∧
        Severity.ofTool? finding.severity = some severity ∧
        ∀ rule tool hint, (Evaluator.violation rule tool hint finding).severity = severity) ∧
      ∀ (rule : Rule) (other : Severity) tool hint,
        found.map (Evaluator.violation { rule with severity := other } tool hint) =
          found.map (Evaluator.violation rule tool hint)) ∧
    ∀ (kind : EngineKind) directory context rule files host result,
      ((kind.engine (some ⟨directory, box.adapters⟩)).validate context rule files host).1 = .ok result →
      ∀ violation ∈ result.violations,
        ("toolSeverity", .string violation.severity.word) ∈ violation.context := by
  constructor
  · intro adapter builtin output host found parsed
    have graded := parse_graded builtin parsed
    refine ⟨fun finding member => ?_, fun rule other tool hint => List.map_congr_left fun finding member => ?_⟩
    · obtain ⟨severity, word⟩ := graded finding member
      exact ⟨severity, word, word.ofTool?, word.violation⟩
    · obtain ⟨severity, word⟩ := graded finding member
      exact word.violation_congr rule other tool hint
  · intro kind directory context rule files host result done violation member
    rcases Evaluator.exists_parse_of_run done with
      none | ⟨registry, adapter, output, w, found, given, known, parsed, all⟩
    · rw [none] at member
      cases member
    · obtain rfl : box.adapters = registry := Option.some.inj given
      rw [all] at member
      obtain ⟨finding, here, rfl⟩ := List.mem_map.mp member
      obtain ⟨severity, word⟩ := parse_graded known parsed finding here
      rw [word.violation]
      exact word.mem_context rule adapter.name _

/-- What PMD prints about a file with a grave finding and one that it does not grade. -/
def Tool.Pmd.graver : Output :=
  ⟨"\x7b\"files\":[\x7b\"filename\":\"A.java\",\"violations\":[\x7b\"priority\":1\x7d,\x7b\x7d]\x7d]\x7d", "", 4⟩

/-- A host whose PMD prints just that. -/
def Tool.Pmd.graverHost : Host where
  tree := FileTree.empty.plant ["bin", "pmd"]
    (.program ⟨Text.Utf8.encode graver.stdout, [], 4, none, none, none, false⟩)
  directory := []
  searchPath := ["/bin"]
  home := "/"
  now := 0
  calls := []
  scratch := []

/-- The rule is a mere information; what PMD finds is an error and a warning. -/
def Tool.Pmd.mildRule : Rule :=
  ⟨"Q", true, "", .info, none, none, ⟨[("engine", .string "ast"), ("node", .string "Block")]⟩, none, none⟩

theorem Toolbox.severity_told_pmd :
    let box : Toolbox := ⟨"/tools", .default⟩
    let parsed := (box.pmd.parse Tool.Pmd.graver Tool.Pmd.graverHost).1
    let validated := ((EngineKind.ast.engine (some ⟨"/tools", box.adapters⟩)).validate .plain
      Tool.Pmd.mildRule ["A.java"] Tool.Pmd.graverHost).1
    box.pmd ∈ box.adapters.adapters ∧
    (∃ found, parsed = .ok found ∧ found.length = 2 ∧
      (∀ finding ∈ found, ∃ severity : Severity, finding.severity = severity.word ∧
        (Evaluator.violation Tool.Pmd.mildRule "pmd" none finding).severity = severity) ∧
      found.map (Evaluator.violation { Tool.Pmd.mildRule with severity := .warning } "pmd" none) =
        found.map (Evaluator.violation Tool.Pmd.mildRule "pmd" none)) ∧
    ∃ result, validated = .ok result ∧
      result.violations.map Violation.severity = [.error, .warning] ∧
      ∀ violation ∈ result.violations,
        ("toolSeverity", .string violation.severity.word) ∈ violation.context := by
  intro box parsed validated
  have listed : box.pmd ∈ box.adapters.adapters := by simp [Toolbox.adapters]
  have reads : parsed.map List.length = .ok 2 := by decide +kernel
  have judges : validated.map (fun result => result.violations.map Violation.severity) =
      .ok [.error, .warning] := by decide +kernel
  refine ⟨listed, ?_, ?_⟩
  · cases read : parsed with
    | error failure => rw [read] at reads; cases reads
    | ok found =>
      rw [read] at reads
      obtain ⟨told, alike⟩ := (severity_told box).1 _ listed _ _ found read
      refine ⟨found, rfl, Except.ok.inj reads, fun finding member => ?_, alike _ _ _ _⟩
      obtain ⟨severity, word, -, violates⟩ := told finding member
      exact ⟨severity, word, violates _ _ _⟩
  · cases judged : validated with
    | error failure => rw [judged] at judges; cases judges
    | ok result =>
      rw [judged] at judges
      exact ⟨result, rfl, Except.ok.inj judges, (severity_told box).2 _ _ _ _ _ _ result judged⟩

end PolicyLint
