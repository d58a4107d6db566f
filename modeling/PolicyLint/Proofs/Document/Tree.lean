import Mathlib.Data.List.Nodup
import PolicyLint.Document.Decode
/-!
Values as documents. Main statement: the values that can be read from documents of whatever form are
those in which no object has a key twice, and such a value, taken as a document, reads as itself.
-/
namespace PolicyLint

/-- No object in the value has a key twice. -/
inductive Json.Distinct : Json → Prop where
  | null : Distinct .null
  | bool (b : Bool) : Distinct (.bool b)
  | number (n : Number) : Distinct (.number n)
  | string (s : String) : Distinct (.string s)
  | array {items : List Json} : (∀ v ∈ items, Distinct v) → Distinct (.array items)
  | object {members : Fields} : (members.map Prod.fst).Nodup →
      (∀ member ∈ members, Distinct member.2) → Distinct (.object members)

/-- The members of an object with distinct keys, in them as well. -/
abbrev Fields.Distinct (fields : Fields) : Prop :=
  (Json.object fields).Distinct

@[simp] theorem Json.distinct_array_iff {items : List Json} :
    (Json.array items).Distinct ↔ ∀ v ∈ items, v.Distinct := by
  constructor
  · rintro ⟨⟩
    assumption
  · exact .array

@[simp] theorem Json.distinct_object_iff {members : Fields} :
    (Json.object members).Distinct ↔
      (members.map Prod.fst).Nodup ∧ ∀ member ∈ members, member.2.Distinct := by
  constructor
  · rintro ⟨⟩
    constructor <;> assumption
  · exact fun ⟨once, within⟩ => .object once within

namespace Fields

theorem distinct_nil : Fields.Distinct [] :=
  .object List.nodup_nil nofun

/-- A new key goes behind all others. -/
theorem insert_fresh {key : String} {fields : Fields} (fresh : key ∉ fields.map Prod.fst)
    (value : Json) : insert key value fields = fields ++ [(key, value)] := by
  induction fields with
  | nil => rfl
  | cons head rest ih =>
    obtain ⟨k, v⟩ := head
    rw [List.map_cons, List.mem_cons, not_or] at fresh
    rw [insert, if_neg (Ne.symm fresh.1), ih fresh.2, List.cons_append]

theorem keys_insert_known {key : String} {fields : Fields} (known : key ∈ fields.map Prod.fst)
    (value : Json) : (insert key value fields).map Prod.fst = fields.map Prod.fst := by
  induction fields with
  | nil => cases known
  | cons head rest ih =>
    obtain ⟨k, v⟩ := head
    rw [insert]
    by_cases same : k = key
    · rw [if_pos same, List.map_cons, List.map_cons]
    · have later : key ∈ rest.map Prod.fst := by simpa [Ne.symm same] using known
      rw [if_neg same, List.map_cons, List.map_cons, ih later]

theorem mem_insert {key : String} {value : Json} {fields : Fields} {member : String × Json}
    (listed : member ∈ insert key value fields) : member.2 = value ∨ member ∈ fields := by
  induction fields with
  | nil =>
    obtain rfl := List.mem_singleton.mp listed
    exact .inl rfl
  | cons head rest ih =>
    obtain ⟨k, v⟩ := head
    rw [insert] at listed
    split at listed
    · rcases List.mem_cons.mp listed with rfl | later
      · exact .inl rfl
      · exact .inr (List.mem_cons_of_mem _ later)
    · rcases List.mem_cons.mp listed with rfl | later
      · exact .inr List.mem_cons_self
      · exact (ih later).imp_right (List.mem_cons_of_mem _)

theorem Distinct.insert {fields : Fields} (distinct : fields.Distinct) {value : Json}
    (inner : value.Distinct) (key : String) : (Fields.insert key value fields).Distinct := by
  obtain ⟨once, within⟩ := Json.distinct_object_iff.mp distinct
  refine .object ?_ fun member listed => ?_
  · by_cases known : key ∈ fields.map Prod.fst
    · rwa [keys_insert_known known]
    · rw [insert_fresh known, List.map_append, List.map_singleton]
      exact once.append (List.nodup_singleton key) (List.disjoint_singleton.mpr known)
  · rcases mem_insert listed with same | old
    · rwa [same]
    · exact within member old

end Fields

namespace Document

theorem bind_eq_ok_iff {step : Except ε α} {next : α → Except ε β} {b : β} :
    (step >>= next) = .ok b ↔ ∃ a, step = .ok a ∧ next a = .ok b := by
  cases step with
  | error failure => exact ⟨nofun, nofun⟩
  | ok a => exact ⟨fun done => ⟨a, rfl, done⟩, fun ⟨_, rfl, done⟩ => done⟩

theorem map_eq_ok_iff {step : Except ε α} {f : α → β} {b : β} :
    f <$> step = .ok b ↔ ∃ a, step = .ok a ∧ f a = b := by
  cases step with
  | error failure => exact ⟨nofun, nofun⟩
  | ok a =>
    exact ⟨fun done => ⟨a, rfl, Except.ok.inj done⟩, fun ⟨_, rfl, same⟩ => congrArg _ same⟩

theorem mapError_eq_ok_iff {step : Except ε α} {wrap : ε → ε'} {a : α} :
    step.mapError wrap = .ok a ↔ step = .ok a := by
  cases step with
  | error failure => exact ⟨nofun, nofun⟩
  | ok b =>
    exact ⟨fun done => congrArg _ (Except.ok.inj done), fun same => congrArg _ (Except.ok.inj same)⟩

/-! ### What is read has distinct keys -/

theorem realValue_distinct (value : Option Double) : (Yaml.realValue value).Distinct := by
  cases value with
  | none => exact .null
  | some d => exact .number _

theorem wordValue?_distinct {text : String} {v : Json} (stands : Yaml.wordValue? text = some v) :
    v.Distinct := by
  unfold Yaml.wordValue? at stands
  extract_lets asReal at stands
  have real : asReal.Distinct := by
    unfold asReal
    split
    · exact .string text
    · cases Yaml.real? text with
      | none => exact .string text
      | some value => exact realValue_distinct value
  split at stands
  · obtain rfl := Option.some.inj stands
    exact .null
  split at stands
  · obtain rfl := Option.some.inj stands
    exact .bool _
  · split at stands
    · obtain rfl := Option.some.inj stands
      exact .number _
    · split at stands
      · cases stands
      · exact Option.some.inj stands ▸ real
  · exact Option.some.inj stands ▸ real

/-- A scalar stands for no container. -/
theorem scalar_distinct {scalar : Yaml.Scalar} {v : Json} (stands : scalar.value? = some v) :
    v.Distinct := by
  unfold Yaml.Scalar.value? at stands
  split at stands
  · split at stands
    · exact wordValue?_distinct stands
    · obtain rfl := Option.some.inj stands
      exact .string _
  · obtain ⟨b, -, rfl⟩ := Option.map_eq_some_iff.mp stands
    exact .bool b
  · obtain ⟨n, -, rfl⟩ := Option.map_eq_some_iff.mp stands
    exact .number n
  · obtain ⟨value, -, rfl⟩ := Option.map_eq_some_iff.mp stands
    exact realValue_distinct value
  · split at stands
    · obtain rfl := Option.some.inj stands
      exact .null
    · cases stands
  · cases stands
  · obtain rfl := Option.some.inj stands
    exact .string _

mutual

theorem json_distinct : ∀ (node : Node) {reading : Reading} {v : Json},
    json reading node = .ok v → v.Distinct
  | .null _, _, _, done => by
    cases done
    exact .null
  | .bool _ b, _, _, done => by
    cases done
    exact .bool b
  | .number _ value, _, _, done => by
    rw [json] at done
    obtain ⟨n, -, rfl⟩ := map_eq_ok_iff.mp done
    exact .number n
  | .string _ value, _, _, done => by
    rw [json] at done
    obtain ⟨s, -, rfl⟩ := map_eq_ok_iff.mp done
    exact .string s
  | .scalar value, _, _, done => by
    rw [json] at done
    split at done
    · rename_i stands
      obtain rfl := Except.ok.inj done
      exact scalar_distinct stands
    · cases done
  | .tagged _, _, _, done => by
    rw [json] at done
    cases done
  | .array _ items _, _, _, done => by
    rw [json] at done
    obtain ⟨inner, -, done⟩ := bind_eq_ok_iff.mp done
    obtain ⟨values, within, done⟩ := bind_eq_ok_iff.mp done
    obtain ⟨-, -, done⟩ := bind_eq_ok_iff.mp done
    obtain rfl := Except.ok.inj done
    exact .array (jsonItems_distinct items within)
  | .object _ members _, _, _, done => by
    rw [json] at done
    obtain ⟨inner, -, done⟩ := bind_eq_ok_iff.mp done
    obtain ⟨fields, within, done⟩ := bind_eq_ok_iff.mp done
    obtain ⟨-, -, done⟩ := bind_eq_ok_iff.mp done
    obtain rfl := Except.ok.inj done
    exact jsonMembers_distinct members Fields.distinct_nil within
  | .broken .., _, _, done => by
    rw [json] at done
    cases done

theorem jsonItems_distinct : ∀ (items : List Node) {reading : Reading} {values : List Json},
    jsonItems reading items = .ok values → ∀ v ∈ values, v.Distinct
  | [], _, _, done => by
    cases done
    nofun
  | item :: rest, _, _, done => by
    rw [jsonItems] at done
    obtain ⟨value, first, done⟩ := bind_eq_ok_iff.mp done
    obtain ⟨values, others, done⟩ := bind_eq_ok_iff.mp done
    obtain rfl := Except.ok.inj done
    exact List.forall_mem_cons.mpr ⟨json_distinct item first, jsonItems_distinct rest others⟩

theorem jsonMembers_distinct : ∀ (members : List (Key × Node)) {reading : Reading}
    {before fields : Fields}, before.Distinct → jsonMembers reading before members = .ok fields →
    fields.Distinct
  | [], _, _, _, distinct, done => by
    cases done
    exact distinct
  | (_, node) :: rest, _, _, _, distinct, done => by
    rw [jsonMembers] at done
    obtain ⟨name, -, done⟩ := bind_eq_ok_iff.mp done
    obtain ⟨value, first, done⟩ := bind_eq_ok_iff.mp done
    exact jsonMembers_distinct rest (distinct.insert (json_distinct node first) name) done

end

/-! ### A value with distinct keys reads as itself -/

theorem jsonItems_ofItems {reading : Reading} {items : List Json}
    (each : ∀ v ∈ items, json reading (Node.ofJson v) = .ok v) :
    jsonItems reading (Node.ofItems items) = .ok items := by
  induction items with
  | nil => rfl
  | cons v rest ih =>
    obtain ⟨first, others⟩ := List.forall_mem_cons.mp each
    rw [Node.ofItems, jsonItems, first, ih others]
    rfl

theorem jsonMembers_ofMembers {reading : Reading} (before : Fields) {members : Fields}
    (once : ((before ++ members).map Prod.fst).Nodup)
    (each : ∀ member ∈ members, json reading (Node.ofJson member.2) = .ok member.2) :
    jsonMembers reading before (Node.ofMembers members) = .ok (before ++ members) := by
  induction members generalizing before with
  | nil =>
    rw [List.append_nil]
    rfl
  | cons member rest ih =>
    obtain ⟨key, value⟩ := member
    obtain ⟨first, others⟩ := List.forall_mem_cons.mp each
    have fresh : key ∉ before.map Prod.fst := by
      intro known
      rw [List.map_append, List.nodup_append] at once
      exact once.2.2 key known key (by simp) rfl
    rw [List.append_cons] at once
    rw [Node.ofMembers, jsonMembers, first]
    show jsonMembers reading (Fields.insert key value before) (Node.ofMembers rest) = _
    rw [Fields.insert_fresh fresh, ih _ once others, ← List.append_cons]

theorem json_ofJson {v : Json} (distinct : v.Distinct) :
    json (.start .value) (Node.ofJson v) = .ok v := by
  induction distinct with
  | null | bool | number | string => rfl
  | array _ ih =>
    rw [Node.ofJson, json]
    show (do
      let values ← jsonItems (.start .value) _
      atCut Break.kept none
      return Json.array values) = _
    rw [jsonItems_ofItems ih]
    rfl
  | object once _ ih =>
    rw [Node.ofJson, json]
    show (do
      let fields ← jsonMembers (.start .value) [] _
      atCut Break.kept none
      return Json.object fields) = _
    rw [jsonMembers_ofMembers [] once ih]
    rfl

theorem distinct_iff_json (v : Json) :
    v.Distinct ↔ json (.start .value) (Node.ofJson v) = .ok v :=
  ⟨json_ofJson, json_distinct _⟩

end Document
end PolicyLint
