import PolicyLint.Proofs.Pmd.Ruleset
import PolicyLint.Proofs.Query.Expression
/-!
What a ruleset tells of the containments of its query. A query becomes an expression, which names every
containment, unless its node and its attributes have a shape that PMD has a rule for: that rule stands for
the whole query then. Main statement: two queries with the same node and attributes and other containments
have different rulesets exactly when they have none of these shapes.
-/
namespace PolicyLint

/-- The same rule with another check. -/
def Rule.checking (rule : Rule) (check : Payload) : Rule :=
  { rule with check }

namespace Query

/-- With the same node and attributes, the expression tells the containments. -/
theorem containments_of_xpath {query query' : AstQuery} (node : query'.node = query.node)
    (attributes : query'.attributes = query.attributes)
    (plain : ∀ k ∈ containments query, IsXmlName k.node)
    (plain' : ∀ k ∈ containments query', IsXmlName k.node)
    (same : xpath query = xpath query') : containments query = containments query' := by
  have texts := congrArg String.toList same
  have equals : named query' = named query := by
    rw [named, named, constraints, constraints, attributes]
  simp only [toList_xpath, predicates, node, equals, List.flatMap_append, List.cons.injEq, true_and,
    List.append_cancel_left_eq, List.flatMap_map] at texts
  have nonempty : ∀ k : Containment, (Predicate.within k).chars ≠ [] := fun k =>
    Predicate.chars_ne_nil (.within k)
  exact Text.flatMap_inj_of_append nonempty Containment.xpath_inj_of_append plain plain' texts

end Query

namespace Tool.Pmd

open Query

/-! ### Shapes that PMD has rules for -/

/-- Calls on `System.out`, catch clauses that are empty or catch every exception, and public methods without
documentation. -/
def IsKnownShape (query : AstQuery) : Prop :=
  (query.node = "MethodCallExpr" ∧ attributeText? query "scope" = some "System.out") ∨
  (query.node = "CatchClause" ∧ (attributeIsZero query "body.statements.size" = true ∨
    attributeText? query "parameter.type.name" = some "Exception")) ∨
  (query.node = "MethodDeclaration" ∧ attributeBool? query "isPublic" = some true ∧
    attributeBool? query "hasJavadoc" = some false)

instance (query : AstQuery) : Decidable (IsKnownShape query) := by
  unfold IsKnownShape; infer_instance

theorem knownRules_eq_nil_iff (query : AstQuery) : knownRules query = [] ↔ ¬ IsKnownShape query := by
  unfold knownRules IsKnownShape
  split <;> simp_all

/-- The rules that PMD brings along do not depend on the containments. -/
theorem knownRules_congr {query query' : AstQuery} (node : query'.node = query.node)
    (attributes : query'.attributes = query.attributes) : knownRules query' = knownRules query := by
  obtain ⟨_, _, _, _, _⟩ := query
  obtain ⟨_, _, _, _, _⟩ := query'
  obtain rfl := node
  obtain rfl := attributes
  rfl

theorem astRules_of_known (rule : Rule) {query : AstQuery} (known : IsKnownShape query) :
    astRules rule query = knownRules query := by
  have nonempty : (knownRules query).isEmpty = false := by
    simpa using mt (knownRules_eq_nil_iff query).mp (not_not.mpr known)
  simp [astRules, nonempty]

theorem astRules_of_unknown (rule : Rule) {query : AstQuery} (unknown : ¬ IsKnownShape query) :
    astRules rule query =
      [.xpath rule.id (messageOf rule s!"{query.node} matched") (xpath query)] := by
  simp [astRules, (knownRules_eq_nil_iff query).mpr unknown]

/-! ### Rulesets -/

theorem astRules_ne_nil (rule : Rule) (query : AstQuery) : astRules rule query ≠ [] := by
  by_cases known : IsKnownShape query
  · rw [astRules_of_known rule known]
    exact mt (knownRules_eq_nil_iff query).mp (not_not.mpr known)
  · rw [astRules_of_unknown rule known]
    exact List.cons_ne_nil _ _

theorem config_ast {rule : Rule} {query : AstQuery} (reads : rule.spec = .ok (.ast query)) :
    config rule = .ok (render (priorityOf rule.severity) (astRules rule query)) := by
  have nonempty : (astRules rule query).isEmpty = false := by
    simpa using astRules_ne_nil rule query
  rw [config, rulesFor, reads]
  show Except.map _ (if (astRules rule query).isEmpty then _ else _) = _
  rw [nonempty]
  rfl

theorem render_injective (priority : Nat) {rules rules' : List PmdRule}
    (same : render priority rules = render priority rules') : rules = rules' := by
  have read := congrArg readRuleset? same
  rw [readRuleset?_render, readRuleset?_render] at read
  exact List.map_injective_iff.mpr (Prod.mk_right_injective priority) (Option.some.inj read)

end Tool.Pmd

open Tool Query

/-- Two checks of one rule on queries with the same node and attributes, of which the containments differ in
their XML names, both have rulesets. The rulesets differ exactly when the queries have none of the shapes that
PMD has rules for; for such a shape its rules are all there is. -/
theorem Tool.Pmd.containment_shows {rule : Rule} {check check' : Payload} {query query' : AstQuery}
    (reads : (rule.checking check).spec = .ok (.ast query))
    (reads' : (rule.checking check').spec = .ok (.ast query'))
    (node : query'.node = query.node) (attributes : query'.attributes = query.attributes)
    (names : ∀ name ∈ query.has ++ query.hasNot, IsXmlName name)
    (names' : ∀ name ∈ query'.has ++ query'.hasNot, IsXmlName name)
    (other : query.has ≠ query'.has ∨ query.hasNot ≠ query'.hasNot) :
    ∃ text text', Pmd.config (rule.checking check) = .ok text ∧
      Pmd.config (rule.checking check') = .ok text' ∧
      (text ≠ text' ↔ ¬ Pmd.IsKnownShape query) ∧
      (Pmd.IsKnownShape query →
        text = Pmd.render (Pmd.priorityOf rule.severity) (Pmd.knownRules query)) := by
  have shapes : Pmd.IsKnownShape query' ↔ Pmd.IsKnownShape query := by
    simp only [← not_iff_not (a := Pmd.IsKnownShape _), ← Pmd.knownRules_eq_nil_iff,
      Pmd.knownRules_congr node attributes]
  refine ⟨_, _, Pmd.config_ast reads, Pmd.config_ast reads', ⟨fun differ known => differ ?_, ?_⟩, ?_⟩
  · rw [Pmd.astRules_of_known _ known, Pmd.astRules_of_known _ (shapes.mpr known),
      Pmd.knownRules_congr node attributes]
    rfl
  · intro unknown same
    have rules := Pmd.render_injective _ same
    rw [Pmd.astRules_of_unknown _ unknown, Pmd.astRules_of_unknown _ (mt shapes.mp unknown)] at rules
    have expressions : xpath query = xpath query' :=
      (Pmd.PmdRule.xpath.inj (List.cons.inj rules).1).2.2
    have plain : ∀ {query : AstQuery}, (∀ name ∈ query.has ++ query.hasNot, IsXmlName name) →
        ∀ k ∈ containments query, IsXmlName k.node := fun names =>
      containments_isXmlName (fun name among => names name (List.mem_append_left _ among))
        (fun name among => names name (List.mem_append_right _ among))
    have containments := containments_of_xpath node attributes (plain names) (plain names') expressions
    obtain ⟨has, hasNot⟩ := containments_inj_iff.mp containments
    exact other.elim (· has) (· hasNot)
  · intro known
    rw [Pmd.astRules_of_known _ known]
    rfl

/-- A check on nodes with given attributes and containments. -/
def Payload.asking (node : String) (attributes containments : Fields) : Payload :=
  ⟨[("engine", .string "ast"), ("node", .string node), ("where", .object attributes)] ++ containments⟩

def Rule.structural : Rule where
  id := "S"
  enabled := true
  category := "ast"
  severity := .error
  desc := none
  selector := none
  check := .empty
  remedy := none
  customMessage := none

/-- Public methods are no known shape: to lack a node and to contain it are different rulesets. -/
theorem Tool.Pmd.publicMethods_containment_shows :
    let attributes : Fields := [("isPublic", .bool true), ("Arity", Json.ofInt 2)]
    let check := Payload.asking "MethodDeclaration" attributes [("has", .array [.string "Try"])]
    let check' := Payload.asking "MethodDeclaration" attributes [("notHas", .array [.string "Try"])]
    let query : AstQuery := ⟨"MethodDeclaration", attributes, ["Try"], [], none⟩
    let query' : AstQuery := ⟨"MethodDeclaration", attributes, [], ["Try"], none⟩
    (Rule.structural.checking check).spec = .ok (.ast query) ∧
    (Rule.structural.checking check').spec = .ok (.ast query') ∧
    ∃ text text', Pmd.config (Rule.structural.checking check) = .ok text ∧
      Pmd.config (Rule.structural.checking check') = .ok text' ∧ text ≠ text' := by
  intro attributes check check' query query'
  have reads : (Rule.structural.checking check).spec = .ok (.ast query) := by rfl
  have reads' : (Rule.structural.checking check').spec = .ok (.ast query') := by rfl
  obtain ⟨text, text', made, made', differ, -⟩ :=
    Pmd.containment_shows reads reads' rfl rfl (by decide) (by decide) (by decide)
  exact ⟨reads, reads', text, text', made, made', differ.mpr (by decide)⟩

/-- Calls on `System.out` that contain a lambda expression have the ruleset of all calls on it. -/
theorem Tool.Pmd.containment_dropped :
    let attributes : Fields := [("scope", .string "System.out")]
    let check := Payload.asking "MethodCallExpr" attributes [("notHas", .array [.string "LambdaExpr"])]
    let check' := Payload.asking "MethodCallExpr" attributes []
    let query : AstQuery := ⟨"MethodCallExpr", attributes, [], ["LambdaExpr"], none⟩
    let query' : AstQuery := ⟨"MethodCallExpr", attributes, [], [], none⟩
    (Rule.structural.checking check).spec = .ok (.ast query) ∧
    (Rule.structural.checking check').spec = .ok (.ast query') ∧
    (∀ name ∈ query.has ++ query.hasNot ++ (query'.has ++ query'.hasNot), IsXmlName name) ∧
    query.hasNot ≠ query'.hasNot ∧
    Pmd.config (Rule.structural.checking check) = Pmd.config (Rule.structural.checking check') := by
  intro attributes check check' query query'
  have reads : (Rule.structural.checking check).spec = .ok (.ast query) := by rfl
  have reads' : (Rule.structural.checking check').spec = .ok (.ast query') := by rfl
  refine ⟨reads, reads', by decide, by decide, ?_⟩
  rw [Pmd.config_ast reads, Pmd.config_ast reads', Pmd.astRules_of_known _ (by decide),
    Pmd.astRules_of_known _ (by decide)]
  rfl

end PolicyLint
