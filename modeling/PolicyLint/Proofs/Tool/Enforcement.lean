import PolicyLint.Engine.Builtin
import PolicyLint.Tool.Toolbox
import PolicyLint.Proofs.Action
/-!
Configurations that enforce nothing. ESLint and PMD turn every check that is not of style into at
least one rule, or refuse it in the name of the rule. Main statement: so does Checkstyle, but for
patterns without a target and lengths without a usable bound or scope, which it passes over.
-/
namespace PolicyLint

/-- A failure is a fault of the rule's own configuration, and a result is a good one. -/
def Rule.Settles (rule : Rule) (Good : α → Prop) : Except Failure α → Prop
  | .error failure => ∃ message, failure = .config rule.id message
  | .ok a => Good a

namespace Rule.Settles

variable {rule : Rule} {Good : α → Prop} {Better : β → Prop}

theorem refusal (rule : Rule) (Good : α → Prop) (message : String) :
    rule.Settles Good (.error (.config rule.id message)) := ⟨message, rfl⟩

theorem cannotRun (tool : String) : rule.Settles Good (.error (cannotRun tool rule)) :=
  refusal rule Good _

theorem bind {answer : Except Failure α} {next : α → Except Failure β}
    (settled : rule.Settles Good answer) (step : ∀ a, Good a → rule.Settles Better (next a)) :
    rule.Settles Better (answer >>= next) := by
  cases answer with
  | error failure => exact settled
  | ok a => exact step a settled

theorem map {answer : Except Failure α} {f : α → β} (settled : rule.Settles Good answer)
    (step : ∀ a, Good a → Better (f a)) : rule.Settles Better (answer.map f) := by
  cases answer with
  | error failure => exact settled
  | ok a => exact step a settled

end Rule.Settles

/-- A rule whose check cannot be read is refused in its own name. -/
theorem Rule.spec_settles (rule : Rule) : rule.Settles (fun _ => True) rule.spec := by
  unfold Rule.spec
  cases CheckSpec.parse rule.check with
  | error fault => exact Rule.Settles.refusal rule _ fault.message
  | ok spec => trivial

/-- A rule has a selector when its check is a query, and is refused in its own name else. -/
theorem EngineKind.selector_settles (rule : Rule) :
    rule.Settles (fun selector => ∃ query, rule.spec = .ok (.ast query) ∧ selector = Query.estree query)
      (EngineKind.selector rule) := by
  have settled := rule.spec_settles
  unfold EngineKind.selector
  cases read : rule.spec with
  | error failure => rwa [read] at settled
  | ok spec =>
    cases spec with
    | ast query => exact ⟨query, rfl, rfl⟩
    | pattern | length | style | typechecker | custom => exact .refusal rule _ _

/-- The checks that ask for something: a check of style may leave everything open, and the switches of
a compiler are no rules. -/
def CheckSpec.IsDemand : CheckSpec → Prop
  | .pattern _ | .length _ | .ast _ | .custom _ => True
  | .style _ | .typechecker _ => False

theorem Text.infix_join {s : String} {parts : List String} (listed : s ∈ parts) :
    s.toList <:+: (String.join parts).toList := by
  rw [String.toList_join]
  exact List.infix_of_mem_flatten (List.mem_map_of_mem listed)

namespace Tool

/-! ### ESLint -/

namespace Eslint

/-- The member of a laid-out object, on the line where its key stands. -/
def memberText (level : Nat) (member : String × Json) : List Char :=
  Json.quoted member.1 ++ ':' :: ' ' :: Json.prettyChars level member.2

theorem member_infix {member : String × Json} {members : Fields} (listed : member ∈ members)
    (level : Nat) (first : Bool) :
    memberText level member <:+: Json.prettyMembers level first members := by
  induction members generalizing first with
  | nil => cases listed
  | cons head rest ih =>
    obtain ⟨k, v⟩ := head
    rcases List.mem_cons.mp listed with rfl | later
    · refine ⟨(if first then [] else [',']) ++ Json.newline level,
        Json.prettyMembers level false rest, ?_⟩
      simp [memberText, Json.prettyMembers]
    · rw [Json.prettyMembers]
      exact List.infix_append_of_infix_right (ih later false)

theorem pretty_member_infix {member : String × Json} {members : Fields} (listed : member ∈ members)
    (level : Nat) :
    memberText (level + 1) member <:+: Json.prettyChars level (.object members) := by
  cases members with
  | nil => cases listed
  | cons head rest =>
    rw [Json.prettyChars]
    have within := member_infix listed (level + 1) true
    exact List.infix_append_of_infix_left
      (List.infix_cons (List.infix_append_of_infix_left within))

/-- A configuration with rules, each of which stands in its text. -/
def Enforces (text : String) : Prop :=
  ∃ rules : Fields, rules ≠ [] ∧
    text = Json.pretty (.object (base ++ [("rules", .object rules)])) ∧
    ∀ rule ∈ rules, memberText 2 rule <:+: text.toList

theorem enforces_of_rules {rules : Fields} (nonempty : rules ≠ []) :
    Enforces (Json.pretty (.object (base ++ [("rules", .object rules)]))) := by
  refine ⟨rules, nonempty, rfl, fun rule listed => ?_⟩
  rw [Json.pretty, String.toList_ofList]
  have inner := pretty_member_infix listed 1
  have outer : memberText 1 ("rules", .object rules) <:+:
      Json.prettyChars 0 (.object (base ++ [("rules", .object rules)])) :=
    pretty_member_infix (List.mem_append_right _ (List.mem_singleton_self _)) 0
  have within : Json.prettyChars 1 (.object rules) <:+: memberText 1 ("rules", .object rules) :=
    ⟨Json.quoted "rules" ++ [':', ' '], [], by simp [memberText]⟩
  exact inner.trans (within.trans outer)

/-- The selector of a rule is the one that ESLint looks for. -/
theorem rulesFor_selector {rule : Rule} {selector : String}
    (selects : EngineKind.selector rule = .ok selector) :
    rulesFor rule =
      .ok [restrictedSyntax rule selector (rule.message?.getD s!"AST rule {rule.id} violation")] := by
  have settled := EngineKind.selector_settles rule
  rw [selects] at settled
  obtain ⟨query, reads, rfl⟩ := settled
  rw [rulesFor, reads]
  rfl

theorem patternRules_settles (rule : Rule) (check : PatternCheck) :
    rule.Settles (· ≠ []) (patternRules rule check) := by
  unfold patternRules
  split
  · exact List.cons_ne_nil _ _
  · exact List.cons_ne_nil _ _
  · exact List.cons_ne_nil _ _
  · exact .refusal rule _ _

theorem lengthRules_settles (rule : Rule) (check : LengthCheck) :
    rule.Settles (· ≠ []) (lengthRules rule check) := by
  unfold lengthRules
  by_cases bound : check.max ≤ 0
  · simp only [bound, if_true]
    exact .refusal rule _ _
  · simp only [bound, if_false]
    split <;> first | exact List.cons_ne_nil _ _ | exact .refusal rule _ _

theorem rulesFor_settles {rule : Rule} {spec : CheckSpec} (reads : rule.spec = .ok spec)
    (demand : spec.IsDemand) : rule.Settles (· ≠ []) (rulesFor rule) := by
  rw [rulesFor, reads]
  cases spec with
  | pattern check => exact patternRules_settles rule check
  | length check => exact lengthRules_settles rule check
  | ast query => exact List.cons_ne_nil _ _
  | custom engine => exact .cannotRun name
  | style | typechecker => exact demand.elim

end Eslint

/-! ### PMD -/

namespace Pmd

/-- A ruleset with rules, each of which stands in its text. -/
def Enforces (text : String) : Prop :=
  ∃ priority rules, rules ≠ [] ∧ text = render priority rules ∧
    ∀ rule ∈ rules, (PmdRule.render priority rule).toList <:+: text.toList

theorem enforces_of_rules {rules : List PmdRule} (nonempty : rules ≠ []) (priority : Nat) :
    Enforces (render priority rules) := by
  refine ⟨priority, rules, nonempty, rfl, fun rule listed => ?_⟩
  have within : (PmdRule.render priority rule).toList <:+:
      (String.join (rules.map (PmdRule.render priority))).toList :=
    Text.infix_join (List.mem_map_of_mem listed)
  rw [render, String.toList_append, String.toList_append]
  exact List.infix_append_of_infix_left (List.infix_append_of_infix_right within)

/-- PMD looks at the rules it has before it writes them, so that no rule at all gets an empty
ruleset. -/
theorem rulesFor_settles (rule : Rule) : rule.Settles (· ≠ []) (rulesFor rule) := by
  unfold rulesFor
  refine rule.spec_settles.bind (fun spec _ => ?_)
  have checked : ∀ rules : List PmdRule, rule.Settles (· ≠ [])
      (if rules.isEmpty then .error (.config rule.id "no PMD rules: set 'rules' or 'xpath'")
      else .ok rules) := by
    intro rules
    by_cases empty : rules.isEmpty
    · rw [if_pos empty]
      exact .refusal rule _ _
    · rw [if_neg empty]
      exact fun nil => empty (List.isEmpty_iff.mpr nil)
  cases spec with
  | ast query => exact checked _
  | custom engine => exact checked _
  | pattern check =>
    have made : rule.Settles (fun _ => True) (patternRules rule check) := by
      unfold patternRules
      split
      · exact .refusal rule _ _
      · trivial
    exact made.bind fun rules _ => checked rules
  | length | style | typechecker => exact .cannotRun name

end Pmd

/-! ### Checkstyle -/

namespace Checkstyle

/-- A configuration with modules, each of which stands in its text. -/
def Enforces (text : String) : Prop :=
  ∃ modules, modules ≠ [] ∧ text = render modules ∧
    ∀ m ∈ modules, ∃ indent, (Module.render indent m).toList <:+: text.toList

/-- What stands between the tags of the checker. -/
def body (modules : List Module) : List Char :=
  (walkerPart modules).toList ++
    (String.join ((modules.filter Module.isLineLength).map (Module.render "  "))).toList

theorem toList_render (modules : List Module) :
    (render modules).toList =
      (prolog ++ "<module name=\"Checker\">\n").toList ++ body modules ++ "</module>\n".toList := by
  simp only [render, body, String.toList_append, List.append_assoc]

/-- Line lengths stand behind the tree walker, and all other modules in it. -/
theorem module_infix {m : Module} {modules : List Module} (listed : m ∈ modules) :
    ∃ indent, (m.render indent).toList <:+: body modules := by
  by_cases line : m.isLineLength = true
  · have straight : m ∈ modules.filter Module.isLineLength :=
      List.mem_filter.mpr ⟨listed, line⟩
    exact ⟨"  ", List.infix_append_of_infix_right
      (Text.infix_join (List.mem_map_of_mem straight))⟩
  · have walked : m ∈ modules.filter fun m => !m.isLineLength :=
      List.mem_filter.mpr ⟨listed, by simpa using line⟩
    have nonempty : (modules.filter fun m => !m.isLineLength).isEmpty = false := by
      simpa using List.ne_nil_of_mem walked
    refine ⟨"    ", List.infix_append_of_infix_left ?_⟩
    simp only [walkerPart, nonempty, Bool.false_eq_true, if_false, String.toList_append]
    exact List.infix_append_of_infix_left
      (List.infix_append_of_infix_right (Text.infix_join (List.mem_map_of_mem walked)))

theorem Module.render_ne_nil (indent : String) (m : Module) : (m.render indent).toList ≠ [] := by
  unfold Module.render
  simp only
  split <;> simp

theorem body_eq_nil_iff (modules : List Module) : body modules = [] ↔ modules = [] := by
  constructor
  · intro empty
    cases modules with
    | nil => rfl
    | cons m rest =>
      obtain ⟨indent, within⟩ := module_infix (List.mem_cons_self (a := m) (l := rest))
      rw [empty] at within
      exact absurd (List.infix_nil.mp within) (Module.render_ne_nil indent m)
  · rintro rfl
    decide

theorem render_inj_nil (modules : List Module) : render modules = render [] ↔ modules = [] := by
  rw [← String.toList_inj, toList_render, toList_render, List.append_left_inj,
    List.append_right_inj, (body_eq_nil_iff []).mpr rfl, body_eq_nil_iff]

theorem enforces_of_modules {modules : List Module} (nonempty : modules ≠ []) :
    Enforces (render modules) := by
  refine ⟨modules, nonempty, rfl, fun m listed => ?_⟩
  obtain ⟨indent, within⟩ := module_infix listed
  rw [toList_render]
  exact ⟨indent, List.infix_append_of_infix_left (List.infix_append_of_infix_right within)⟩

/-- The bare checker has nothing to check. -/
theorem not_enforces_nil : ¬ Enforces (render []) := by
  rintro ⟨modules, nonempty, same, -⟩
  exact nonempty ((render_inj_nil modules).mp same.symm)

def lengthScopes : List String :=
  ["line", "method", "function", "params", "parameters", "file"]

theorem lengthModule?_eq_none_iff (scope : String) :
    lengthModule? scope = none ↔ scope ∉ lengthScopes := by
  unfold lengthModule?
  split <;> simp_all [lengthScopes]

/-- The checks for which Checkstyle has no module and no refusal either. -/
def Overlooks : CheckSpec → Prop
  | .pattern check => check.target = ""
  | .length check => check.max ≤ 0 ∨ check.scope ∉ lengthScopes
  | _ => False

theorem modulesFor_overlooked {rule : Rule} {spec : CheckSpec} (reads : rule.spec = .ok spec)
    (overlooked : Overlooks spec) : modulesFor rule = .ok [] := by
  rw [modulesFor, reads]
  cases spec with
  | pattern check =>
    have untargeted : check.target = "" := overlooked
    show Except.ok (patternModules check) = _
    rw [patternModules, if_pos untargeted]
  | length check =>
    show Except.ok (lengthModules check) = _
    by_cases bound : check.max ≤ 0
    · rw [lengthModules, if_pos bound]
    · have unknown : lengthModule? check.scope = none :=
        (lengthModule?_eq_none_iff _).mpr (overlooked.resolve_left bound)
      rw [lengthModules, if_neg bound, unknown]
      rfl
  | style | ast | typechecker | custom => exact overlooked.elim

theorem modulesFor_settles {rule : Rule} {spec : CheckSpec} (reads : rule.spec = .ok spec)
    (demand : spec.IsDemand) (heeded : ¬ Overlooks spec) :
    rule.Settles (· ≠ []) (modulesFor rule) := by
  rw [modulesFor, reads]
  cases spec with
  | pattern check =>
    have targeted : check.target ≠ "" := heeded
    show patternModules check ≠ []
    rw [patternModules, if_neg targeted]
    exact List.cons_ne_nil _ _
  | length check =>
    obtain ⟨bound, known⟩ := not_or.mp heeded
    obtain ⟨module, found⟩ := Option.ne_none_iff_exists'.mp
      (mt (lengthModule?_eq_none_iff check.scope).mp known)
    show lengthModules check ≠ []
    rw [lengthModules, if_neg bound, found]
    exact List.cons_ne_nil _ _
  | ast | custom => exact .cannotRun name
  | style | typechecker => exact demand.elim

end Checkstyle

/-! ### The tools side by side -/

/-- What Checkstyle passes over, the other tools refuse: lengths without a usable bound or scope
ESLint, and patterns without a target PMD. -/
theorem overlooked_refused (rule : Rule) :
    (∀ check : LengthCheck, Checkstyle.Overlooks (.length check) ↔
      ∃ message, Eslint.lengthRules rule check = .error (.config rule.id message)) ∧
    ∀ check : PatternCheck, Checkstyle.Overlooks (.pattern check) ↔
      ∃ message, Pmd.patternRules rule check = .error (.config rule.id message) := by
  constructor
  · intro check
    unfold Eslint.lengthRules
    by_cases bound : check.max ≤ 0
    · simp [Checkstyle.Overlooks, bound]
    · simp only [Checkstyle.Overlooks, bound, false_or, if_false]
      split <;> simp_all [Checkstyle.lengthScopes]
  · intro check
    unfold Pmd.patternRules
    by_cases untargeted : check.target = "" <;> simp [Checkstyle.Overlooks, untargeted]

end Tool

open Tool

/-- A check that asks for something becomes an ESLint configuration or a PMD ruleset with at least one
rule in it, or is refused in the name of its rule. A Checkstyle configuration then has at least one
module in it, unless the check is a pattern without a target or a length without a positive bound or
with an unknown scope: those become the bare checker, which enforces nothing. -/
theorem Toolbox.configure_enforces (box : Toolbox) (host : Host) {rule : Rule} {spec : CheckSpec}
    (reads : rule.spec = .ok spec) (demand : spec.IsDemand) :
    rule.Settles Eslint.Enforces (box.eslint.configure rule host).1 ∧
    rule.Settles Pmd.Enforces (box.pmd.configure rule host).1 ∧
    (¬ Checkstyle.Overlooks spec →
      rule.Settles Checkstyle.Enforces (box.checkstyle.configure rule host).1) ∧
    (Checkstyle.Overlooks spec →
      ∃ text, (box.checkstyle.configure rule host).1 = .ok text ∧ ¬ Checkstyle.Enforces text) := by
  have eslint : (box.eslint.configure rule host).1 = (Eslint.config rule).map Json.pretty := rfl
  have pmd : (box.pmd.configure rule host).1 = Pmd.config rule := rfl
  have checkstyle : (box.checkstyle.configure rule host).1 = Checkstyle.config rule := rfl
  rw [eslint, pmd, checkstyle]
  refine ⟨?_, ?_, fun heeded => ?_, fun overlooked => ?_⟩
  · have made : rule.Settles (fun value => Eslint.Enforces (Json.pretty value)) (Eslint.config rule) :=
      (Eslint.rulesFor_settles reads demand).map fun _ nonempty => Eslint.enforces_of_rules nonempty
    exact made.map fun _ good => good
  · exact (Pmd.rulesFor_settles rule).map fun _ nonempty => Pmd.enforces_of_rules nonempty _
  · exact (Checkstyle.modulesFor_settles reads demand heeded).map fun _ nonempty =>
      Checkstyle.enforces_of_modules nonempty
  · refine ⟨Checkstyle.render [], ?_, Checkstyle.not_enforces_nil⟩
    rw [Checkstyle.config, Checkstyle.modulesFor_overlooked reads overlooked]
    rfl

/-- A rule on lengths, as its members give it. -/
def Rule.onLength (id scope : String) (bounds : Fields) : Rule where
  id := id
  enabled := true
  category := "style"
  severity := .error
  desc := none
  selector := none
  check := ⟨[("engine", .string "length"), ("scope", .string scope)] ++ bounds⟩
  remedy := none
  customMessage := none

/-- At most four parameters. -/
def Rule.fewParameters : Rule :=
  .onLength "P" "params" [("max", Json.ofInt 4)]

/-- Four parameters at most are something that ESLint and Checkstyle know how to ask for. -/
theorem Toolbox.fewParameters_enforced :
    Rule.fewParameters.spec = .ok (.length ⟨"params", 4, 0⟩) ∧
    let box : Toolbox := ⟨"/tools", .default⟩
    let rule := Rule.fewParameters
    ∀ host, rule.Settles Eslint.Enforces (box.eslint.configure rule host).1 ∧
      rule.Settles Checkstyle.Enforces (box.checkstyle.configure rule host).1 := by
  have reads : Rule.fewParameters.spec = .ok (.length ⟨"params", 4, 0⟩) := by rfl
  have heeded : ¬ Checkstyle.Overlooks (.length ⟨"params", 4, 0⟩) := by
    simp [Checkstyle.Overlooks, Checkstyle.lengthScopes]
  refine ⟨reads, fun host => ?_⟩
  obtain ⟨eslint, -, checkstyle, -⟩ :=
    Toolbox.configure_enforces ⟨"/tools", .default⟩ host reads trivial
  exact ⟨eslint, checkstyle heeded⟩

/-- At least five characters in a line. -/
def Rule.longLines : Rule :=
  .onLength "L" "line" [("min", Json.ofInt 5)]

/-- A bound from below reads as a check, ESLint refuses it, and Checkstyle runs without a module. -/
theorem Toolbox.longLines_unenforced :
    Rule.longLines.spec = .ok (.length ⟨"line", 0, 5⟩) ∧
    Eslint.config Rule.longLines =
      .error (.config "L" "eslint length rules need a positive 'max'") ∧
    Checkstyle.config Rule.longLines = .ok (Checkstyle.render []) ∧
    ¬ Rule.longLines.Settles Checkstyle.Enforces (Checkstyle.config Rule.longLines) := by
  have bare : Checkstyle.config Rule.longLines = .ok (Checkstyle.render []) := by rfl
  refine ⟨by rfl, by rfl, bare, ?_⟩
  rw [bare]
  exact Checkstyle.not_enforces_nil

end PolicyLint
