import PolicyLint.Check
import PolicyLint.Proofs.Json.Fields
import PolicyLint.Proofs.Numeric.Word
/-!
What a check is read from. Its engine says under which keys the reading looks, and for a value of which
kind. Main statement: nothing else counts, neither other keys nor values of other kinds nor the order of
the keys; and reading fails exactly when a text or a bound that it needs is not given.
-/
namespace PolicyLint

/-! ### What is given under a key -/

namespace Payload

/-- What a reading asks for under a key. -/
inductive Kind where
  | text | number | bool | list | object
deriving DecidableEq

def Kind.accepts : Kind → Json → Bool
  | .text, v => v.string?.isSome
  | .number, v => v.number?.isSome
  | .bool, v => v.bool?.isSome
  | .list, v => v.array?.isSome
  | .object, v => v.object?.isSome

/-- The value under a key, where it is of the kind that is asked for. -/
def given? (payload : Payload) (key : String) (kind : Kind) : Option Json :=
  (payload.get? key).filter kind.accepts

variable {p p' : Payload} {key : String}

/-- A view that takes the values of one kind sees only what is given. -/
theorem view_congr {view : Json → Option α} {kind : Kind}
    (only : ∀ v, kind.accepts v = (view v).isSome) (same : p'.given? key kind = p.given? key kind) :
    (p'.get? key).bind view = (p.get? key).bind view := by
  have seen : ∀ p : Payload, (p.get? key).bind view = (p.given? key kind).bind view := by
    intro p
    unfold given?
    cases p.get? key with
    | none => rfl
    | some v => cases shown : view v <;> simp [Option.filter_some, only, shown]
  rw [seen p', same, ← seen p]

theorem text_congr (same : p'.given? key .text = p.given? key .text) : p'.text key = p.text key := by
  rw [text, text, view_congr (fun _ => rfl) same]

theorem text?_congr (same : p'.given? key .text = p.given? key .text) :
    p'.text? key = p.text? key := by
  rw [text?, text?, text_congr same]

theorem int_congr (same : p'.given? key .number = p.given? key .number) : p'.int key = p.int key := by
  rw [int, int, view_congr (fun _ => rfl) same]

theorem bool?_congr (same : p'.given? key .bool = p.given? key .bool) : p'.bool? key = p.bool? key :=
  view_congr (fun _ => rfl) same

theorem bool_congr (same : p'.given? key .bool = p.given? key .bool) : p'.bool key = p.bool key := by
  rw [bool, bool, bool?_congr same]

theorem texts_congr (same : p'.given? key .list = p.given? key .list) :
    p'.texts key = p.texts key := by
  rw [texts, texts, view_congr (fun _ => rfl) same]

theorem object_congr (same : p'.given? key .object = p.given? key .object) :
    (p'.get? key).bind Json.object? = (p.get? key).bind Json.object? :=
  view_congr (fun _ => rfl) same

/-! ### What is not given -/

/-- No text, or an empty one. -/
def LacksText (payload : Payload) (key : String) : Prop :=
  ∀ s, payload.get? key = some (.string s) → s = ""

/-- No number, or one that truncates to zero. -/
def LacksBound (payload : Payload) (key : String) : Prop :=
  ∀ n, payload.get? key = some (.number n) → |n.value| < 1

theorem text_eq_empty_iff (payload : Payload) (key : String) :
    payload.text key = "" ↔ payload.LacksText key := by
  unfold text LacksText
  cases payload.get? key with
  | none => simp
  | some v => cases v <;> simp [Json.string?]

theorem text?_eq_none_iff (payload : Payload) (key : String) :
    payload.text? key = none ↔ payload.LacksText key := by
  rw [← text_eq_empty_iff]
  simp [text?]

end Payload

theorem Double.truncate_eq_zero_iff (d : Double) : d.truncate = 0 ↔ |d.value| < 1 := by
  have below : d.ratio.1 / d.ratio.2 = 0 ↔ d.magnitudeBelow 1 = true := by
    rw [Nat.div_eq_zero_iff_lt d.ratio_den_pos, magnitudeBelow, one_mul, decide_eq_true_iff]
  have magnitude := d.magnitudeBelow_iff 1
  rw [Nat.cast_one] at magnitude
  rw [abs_value, ← magnitude, ← below, truncate, apply]
  split <;> omega

theorem Number.toWord_eq_zero_iff (n : Number) : n.toWord = 0 ↔ |n.value| < 1 := by
  have clamped : ∀ i : ℤ, clamp i = 0 ↔ i = 0 := by
    intro i
    unfold clamp
    omega
  cases n with
  | integer i fits =>
    rw [toWord_integer, clamped, value, ← Int.cast_abs]
    rw [← Int.abs_lt_one_iff]
    exact_mod_cast Iff.rfl
  | real d => rw [toWord_real, clamped, value, d.truncate_eq_zero_iff]

theorem Payload.int_eq_zero_iff (payload : Payload) (key : String) :
    payload.int key = 0 ↔ payload.LacksBound key := by
  unfold int LacksBound
  cases payload.get? key with
  | none => simp
  | some v => cases v <;> simp [Json.number?, Number.toWord_eq_zero_iff]

/-! ### What a check is read from -/

/-- When a fault is found. -/
def CheckFault.Arises (payload : Payload) : CheckFault → Prop
  | .noEngine => payload.LacksText "engine"
  | .noPattern => payload.engine = "pattern" ∧ payload.LacksText "pattern"
  | .noBounds => payload.engine = "length" ∧ payload.LacksBound "max" ∧ payload.LacksBound "min"
  | .noNode => payload.engine = "ast" ∧ payload.LacksText "node"

namespace CheckSpec

open Payload

/-- The keys of an engine, and what is asked for under each. -/
def keys (engine : String) : List (String × Kind) :=
  ("engine", .text) ::
    match engine with
    | "pattern" => [("target", .text), ("pattern", .text)]
    | "length" => [("scope", .text), ("max", .number), ("min", .number)]
    | "style" =>
      [("indent", .number), ("quote", .text), ("semi", .bool), ("trailingComma", .text),
        ("printWidth", .number), ("braceStyle", .text), ("spaceAfterKeyword", .bool),
        ("spaceAroundOperators", .bool), ("blankLinesBetweenMethods", .bool),
        ("oneStatementPerLine", .bool), ("tool", .text)]
    | "ast" =>
      [("node", .text), ("where", .object), ("has", .list), ("notHas", .list), ("language", .text)]
    | "typechecker" =>
      [("strict", .bool), ("noImplicitAny", .bool), ("strictNullChecks", .bool), ("allowJs", .bool),
        ("checkJs", .bool), ("include", .list), ("exclude", .list)]
    | _ => []

/-- What an engine asks for under a key; nothing under a key that it does not know. -/
def kind? (engine key : String) : Option Kind :=
  (keys engine).lookup key

/-- Under the keys of an engine, the same is given. -/
def Agree (engine : String) (p p' : Payload) : Prop :=
  ∀ key kind, kind? engine key = some kind → p'.given? key kind = p.given? key kind

variable {p p' : Payload}

theorem engine_congr {engine : String} (agree : Agree engine p p') : p'.engine = p.engine :=
  text_congr (agree "engine" .text rfl)

theorem patternOf_congr (agree : Agree "pattern" p p') : patternOf p' = patternOf p := by
  have target := text_congr (agree "target" .text rfl)
  have pattern := text_congr (agree "pattern" .text rfl)
  simp only [patternOf, target, pattern]

theorem lengthOf_congr (agree : Agree "length" p p') : lengthOf p' = lengthOf p := by
  have scope := text_congr (agree "scope" .text rfl)
  have max := int_congr (agree "max" .number rfl)
  have min := int_congr (agree "min" .number rfl)
  simp only [lengthOf, scope, max, min]

theorem style_congr (agree : Agree "style" p p') : StyleCheck.of p' = StyleCheck.of p := by
  rw [StyleCheck.of, StyleCheck.of,
    int_congr (agree "indent" .number rfl), text?_congr (agree "quote" .text rfl),
    bool?_congr (agree "semi" .bool rfl), text?_congr (agree "trailingComma" .text rfl),
    int_congr (agree "printWidth" .number rfl), text?_congr (agree "braceStyle" .text rfl),
    bool_congr (agree "spaceAfterKeyword" .bool rfl),
    bool_congr (agree "spaceAroundOperators" .bool rfl),
    bool_congr (agree "blankLinesBetweenMethods" .bool rfl),
    bool_congr (agree "oneStatementPerLine" .bool rfl), text?_congr (agree "tool" .text rfl)]

theorem astOf_congr (agree : Agree "ast" p p') : astOf p' = astOf p := by
  have query : AstQuery.parse? p' = AstQuery.parse? p := by
    rw [AstQuery.parse?, AstQuery.parse?, text?_congr (agree "node" .text rfl),
      object_congr (agree "where" .object rfl), texts_congr (agree "has" .list rfl),
      texts_congr (agree "notHas" .list rfl), text?_congr (agree "language" .text rfl)]
  rw [astOf, astOf, query]

theorem typecheck_congr (agree : Agree "typechecker" p p') : TypeCheck.of p' = TypeCheck.of p := by
  rw [TypeCheck.of, TypeCheck.of,
    bool?_congr (agree "strict" .bool rfl), bool?_congr (agree "noImplicitAny" .bool rfl),
    bool?_congr (agree "strictNullChecks" .bool rfl), bool?_congr (agree "allowJs" .bool rfl),
    bool?_congr (agree "checkJs" .bool rfl), texts_congr (agree "include" .list rfl),
    texts_congr (agree "exclude" .list rfl)]

/-- Maps that give the same under the keys of their engine are read alike. -/
theorem parse_congr (agree : Agree p.engine p p') : parse p' = parse p := by
  unfold parse
  rw [engine_congr agree]
  split <;> rename_i engine
  · rfl
  · exact patternOf_congr (engine ▸ agree)
  · exact lengthOf_congr (engine ▸ agree)
  · rw [style_congr (engine ▸ agree)]
  · exact astOf_congr (engine ▸ agree)
  · rw [typecheck_congr (engine ▸ agree)]
  · rfl

/-! ### When reading fails -/

theorem patternOf_eq_error_iff (payload : Payload) (fault : CheckFault) :
    patternOf payload = .error fault ↔ fault = .noPattern ∧ payload.LacksText "pattern" := by
  rw [← text_eq_empty_iff, patternOf]
  by_cases empty : payload.text "pattern" = "" <;> simp [empty, eq_comm]

theorem lengthOf_eq_error_iff (payload : Payload) (fault : CheckFault) :
    lengthOf payload = .error fault ↔
      fault = .noBounds ∧ payload.LacksBound "max" ∧ payload.LacksBound "min" := by
  rw [← int_eq_zero_iff, ← int_eq_zero_iff, lengthOf]
  by_cases boundless : payload.int "max" = 0 ∧ payload.int "min" = 0
  · simp [boundless, eq_comm]
  · simp [boundless]

theorem astOf_eq_error_iff (payload : Payload) (fault : CheckFault) :
    astOf payload = .error fault ↔ fault = .noNode ∧ payload.LacksText "node" := by
  rw [← text?_eq_none_iff, astOf, AstQuery.parse?]
  cases payload.text? "node" <;> simp [eq_comm]

theorem parse_eq_error_iff (payload : Payload) (fault : CheckFault) :
    parse payload = .error fault ↔ fault.Arises payload := by
  have nameless : payload.engine = "" ↔ payload.LacksText "engine" := text_eq_empty_iff payload "engine"
  -- Each engine has one fault at most, and the other faults name another engine.
  unfold parse
  split
  · rename_i engine
    cases fault <;> simp [CheckFault.Arises, ← nameless, engine]
  · rename_i engine
    rw [patternOf_eq_error_iff]
    cases fault <;> simp [CheckFault.Arises, ← nameless, engine]
  · rename_i engine
    rw [lengthOf_eq_error_iff]
    cases fault <;> simp [CheckFault.Arises, ← nameless, engine]
  · rename_i engine
    cases fault <;> simp [CheckFault.Arises, ← nameless, engine]
  · rename_i engine
    rw [astOf_eq_error_iff]
    cases fault <;> simp [CheckFault.Arises, ← nameless, engine]
  · rename_i engine
    cases fault <;> simp [CheckFault.Arises, ← nameless, engine]
  · rename_i named noPattern noLength noStyle noAst noTypecheck
    cases fault <;> simp_all [CheckFault.Arises]

/-! ### The whole of it -/

theorem given?_of_get? {key : String} (same : p'.get? key = p.get? key) (kind : Kind) :
    p'.given? key kind = p.given? key kind := by
  rw [given?, given?, same]

/-- Maps with the same values under the keys of their engine are read alike. -/
theorem parse_of_get? (same : ∀ key, (kind? p.engine key).isSome = true → p'.get? key = p.get? key) :
    parse p' = parse p :=
  parse_congr fun key kind known => given?_of_get? (same key (by rw [known, Option.isSome_some])) kind

theorem ne_of_unknown {engine key name : String} (unknown : kind? engine name = none)
    (known : (kind? engine key).isSome = true) : key ≠ name := by
  rintro rfl
  rw [unknown] at known
  cases known

/-- The reading of a check depends on what its engine knows, and on nothing else: maps with the same values
under the keys of the engine are read alike; so no other key counts, whether it comes, changes or goes, and
the order of the keys does not count; and a value of another kind than the engine asks for is as good as none.
Reading fails exactly when a fault arises: no name of an engine, no pattern for a pattern check, two bounds
that truncate to zero for a length check, no node for a query. -/
theorem parse_reads_known (payload : Payload) :
    (∀ payload' : Payload,
      (∀ key, (kind? payload.engine key).isSome = true → payload'.get? key = payload.get? key) →
      parse payload' = parse payload) ∧
    (∀ name value, kind? payload.engine name = none →
      parse ⟨payload.fields.insert name value⟩ = parse payload ∧
      parse ⟨payload.fields.without name⟩ = parse payload) ∧
    (∀ fields : Fields, payload.fields.Perm fields → (payload.fields.map Prod.fst).Nodup →
      parse ⟨fields⟩ = parse payload) ∧
    (∀ name kind value, kind? payload.engine name = some kind → payload.get? name = some value →
      kind.accepts value = false → parse payload = parse ⟨payload.fields.without name⟩) ∧
    ∀ fault, parse payload = .error fault ↔ fault.Arises payload := by
  refine ⟨fun payload' same => parse_of_get? same, fun name value unknown => ⟨?_, ?_⟩,
    fun fields perm once => ?_, fun name kind value known given refused => ?_,
    parse_eq_error_iff payload⟩
  · refine parse_of_get? fun key known => ?_
    exact (Fields.get?_insert key name value payload.fields).trans
      (if_neg (ne_of_unknown unknown known))
  · refine parse_of_get? fun key known => ?_
    exact (Fields.get?_without key name payload.fields).trans (if_neg (ne_of_unknown unknown known))
  · exact parse_of_get? fun key _ => (Fields.get?_perm perm once key).symm
  · refine (parse_congr fun key asked known' => ?_).symm
    have found : Payload.get? ⟨payload.fields.without name⟩ key =
        if key = name then none else payload.get? key :=
      Fields.get?_without key name payload.fields
    by_cases here : key = name
    · subst here
      obtain rfl : kind = asked := Option.some.inj (known.symm.trans known')
      rw [given?, given?, found, if_pos rfl, given, Option.filter_none, Option.filter_some, refused]
      rfl
    · exact given?_of_get? (found.trans (if_neg here)) asked

/-- A misspelt bound, a bound that is a text, and a bound that is whole but written as a fraction. -/
def misspelt : Payload :=
  ⟨[("maximum", Json.ofInt 80), ("max", .string "80"), ("engine", .string "length"),
    ("min", .number (.real ⟨false, 5629499534213120, -50, by decide⟩))]⟩

theorem misspelt_reads_known :
    kind? misspelt.engine "maximum" = none ∧ kind? misspelt.engine "max" = some .number ∧
    (misspelt.fields.map Prod.fst).Nodup ∧
    parse ⟨misspelt.fields.without "maximum"⟩ = parse misspelt ∧
    parse misspelt = parse ⟨misspelt.fields.without "max"⟩ ∧
    parse ⟨misspelt.fields.reverse⟩ = parse misspelt ∧
    ∀ fault, parse misspelt ≠ .error fault := by
  have unknown : kind? misspelt.engine "maximum" = none := by decide
  have known : kind? misspelt.engine "max" = some .number := by decide
  have once : (misspelt.fields.map Prod.fst).Nodup := by decide
  obtain ⟨-, others, orders, kinds, faults⟩ := parse_reads_known misspelt
  refine ⟨unknown, known, once, (others "maximum" .null unknown).2, kinds "max" .number _ known rfl rfl,
    orders _ (List.reverse_perm _).symm once, fun fault failed => ?_⟩
  have arises := (faults fault).mp failed
  have reads : misspelt.engine = "length" := by rfl
  cases fault with
  | noEngine => exact absurd (reads.symm.trans ((Payload.text_eq_empty_iff _ _).mpr arises)) (by decide)
  | noPattern => exact absurd (reads.symm.trans arises.1) (by decide)
  | noNode => exact absurd (reads.symm.trans arises.1) (by decide)
  | noBounds =>
    have five : misspelt.int "min" = 5 := by decide
    exact absurd (five.symm.trans ((Payload.int_eq_zero_iff _ _).mpr arises.2.2)) (by decide)

end CheckSpec
end PolicyLint
