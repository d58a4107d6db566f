import PolicyLint.Query.Estree
import PolicyLint.Query.XPath
import PolicyLint.Proofs.Json.Printed
import PolicyLint.Proofs.Policy.RoundTrip
/-!
Queries written as objects. Main statement: what is parsed of a payload is parsed again of the object that
is written for it, and the object, like its text, is that of no other query.
-/
namespace PolicyLint

open Document

/-! ### Members that are left out -/

theorem Json.strings_distinct (items : List String) : (Json.strings items).Distinct := by
  refine .array fun v member => ?_
  obtain ⟨s, -, rfl⟩ := List.mem_map.mp member
  exact .string s

theorem Document.Slots.sparing_distinct {isDefault : Bool} {v : Json} (distinct : v.Distinct) :
    ∀ w ∈ sparing isDefault v, w.Distinct := by
  cases isDefault <;> simp [sparing, distinct]

namespace Payload

variable {payload : Payload} {key : String}

theorem text?_ne_empty (payload : Payload) (key : String) : payload.text? key ≠ some "" := by
  unfold text?
  dsimp only
  split
  · nofun
  · rename_i filled
    exact fun same => filled (Option.some.inj same)

/-- An empty text counts as none. -/
theorem text?_of_get? {value : Option String} (filled : value ≠ some "")
    (here : payload.get? key = value.map .string) : payload.text? key = value := by
  cases value with
  | none => simp [text?, text, here]
  | some s =>
    have filled : s ≠ "" := fun empty => filled (congrArg some empty)
    simp [text?, text, here, Json.string?, filled]

theorem texts_of_get? {items : List String}
    (here : payload.get? key = Slots.sparing items.isEmpty (Json.strings items)) :
    payload.texts key = items := by
  cases items with
  | nil => simp [texts, here, Slots.sparing]
  | cons s items =>
    simp [texts, here, Slots.sparing, Json.strings, Json.array?, List.filterMap_map, Function.comp_def,
      Json.string?]

theorem object_of_get? {members : Fields}
    (here : payload.get? key = Slots.sparing members.isEmpty (.object members)) :
    ((payload.get? key).bind Json.object?).getD [] = members := by
  cases members with
  | nil => simp [here, Slots.sparing]
  | cons member members => simp [here, Slots.sparing, Json.object?]

end Payload

/-! ### Queries -/

namespace AstQuery

/-- As every query is that is parsed. -/
structure WellFormed (query : AstQuery) : Prop where
  node : query.node ≠ ""
  language : query.language ≠ some ""

theorem parse?_wellFormed {payload : Payload} {query : AstQuery} (parsed : parse? payload = some query) :
    query.WellFormed := by
  obtain ⟨node, named, rfl⟩ := Option.map_eq_some_iff.mp parsed
  refine ⟨?_, payload.text?_ne_empty "language"⟩
  rintro rfl
  exact payload.text?_ne_empty "node" named

def slots (query : AstQuery) : Slots :=
  [("node", some (.string query.node)),
    ("where", Slots.sparing query.attributes.isEmpty (.object query.attributes)),
    ("has", Slots.sparing query.has.isEmpty (Json.strings query.has)),
    ("notHas", Slots.sparing query.hasNot.isEmpty (Json.strings query.hasNot)),
    ("language", query.language.map .string)]

theorem toFields_eq (query : AstQuery) : query.toFields = query.slots.present := by
  have attributes : (if query.attributes.isEmpty then [] else [("where", Json.object query.attributes)]) =
      optionMember "where" (Slots.sparing query.attributes.isEmpty (.object query.attributes)) :=
    mapMember_eq "where" query.attributes
  have language : (query.language.map fun l => ("language", Json.string l)).toList =
      optionMember "language" (query.language.map .string) := by
    cases query.language <;> rfl
  simp only [toFields, slots, attributes, language, listMember_eq, Slots.present_cons, Slots.present_nil,
    optionMember_some, List.append_assoc, List.append_nil]

theorem get?_toFields (query : AstQuery) (key : String) :
    (Payload.mk query.toFields).get? key = query.slots.given key := by
  rw [toFields_eq]
  exact Slots.lookup_present (by simp [slots, Slots.names]) key

/-- Whatever is left out is what the reader puts back. -/
theorem parse?_toFields {query : AstQuery} (wellFormed : query.WellFormed) :
    parse? ⟨query.toFields⟩ = some query := by
  have node : (Payload.mk query.toFields).text? "node" = some query.node :=
    Payload.text?_of_get? (fun same => wellFormed.node (Option.some.inj same))
      (by simp [get?_toFields, slots])
  have attributes : (((Payload.mk query.toFields).get? "where").bind Json.object?).getD [] =
      query.attributes := Payload.object_of_get? (by simp [get?_toFields, slots])
  have has : (Payload.mk query.toFields).texts "has" = query.has :=
    Payload.texts_of_get? (by simp [get?_toFields, slots])
  have hasNot : (Payload.mk query.toFields).texts "notHas" = query.hasNot :=
    Payload.texts_of_get? (by simp [get?_toFields, slots])
  have language : (Payload.mk query.toFields).text? "language" = query.language :=
    Payload.text?_of_get? wellFormed.language (by simp [get?_toFields, slots])
  simp only [parse?, node, attributes, has, hasNot, language, Option.map_some]

theorem attributes_distinct {payload : Payload} {query : AstQuery} (distinct : payload.fields.Distinct)
    (parsed : parse? payload = some query) : query.attributes.Distinct := by
  obtain ⟨node, -, rfl⟩ := Option.map_eq_some_iff.mp parsed
  show ((((payload.get? "where").bind Json.object?).getD [] : Fields)).Distinct
  cases given : (payload.get? "where").bind Json.object? with
  | none => exact Fields.distinct_nil
  | some members =>
    obtain ⟨v, here, isObject⟩ := Option.bind_eq_some_iff.mp given
    cases v with
    | object inner =>
      obtain rfl := Option.some.inj isObject
      obtain ⟨before, behind, split, -⟩ := List.lookup_eq_some_iff.mp here
      exact (Json.distinct_object_iff.mp distinct).2 ("where", .object inner) (by simp [split])
    | _ => cases isObject

theorem toFields_distinct {query : AstQuery} (distinct : query.attributes.Distinct) :
    query.toFields.Distinct := by
  rw [toFields_eq]
  refine Slots.present_distinct (by simp [slots, Slots.names]) ?_
  simp only [slots, List.forall_mem_cons]
  refine ⟨?node, ?attributes, ?has, ?hasNot, ?language, List.forall_mem_nil _⟩
  case node => simp [Json.Distinct.string]
  case attributes => exact Slots.sparing_distinct distinct
  case has => exact Slots.sparing_distinct (Json.strings_distinct query.has)
  case hasNot => exact Slots.sparing_distinct (Json.strings_distinct query.hasNot)
  case language =>
    intro v member
    obtain ⟨l, -, rfl⟩ := Option.map_eq_some_iff.mp member
    exact .string l

/-- What is parsed of a payload, written as an object and parsed again. -/
structure Normal (payload : Payload) (query : AstQuery) : Prop where
  written : (Payload.mk query.toFields).toJson = query.toJson
  parsed : parse? ⟨query.toFields⟩ = some query
  selector : (parse? ⟨query.toFields⟩).map Query.estree = (parse? payload).map Query.estree
  xpath : (parse? ⟨query.toFields⟩).map Query.xpath = (parse? payload).map Query.xpath
  /-- No key is lost where the object is taken for a payload. -/
  decoded : payload.fields.Distinct → decodeValue Payload.decoder query.toJson = .ok ⟨query.toFields⟩
  objects : ∀ payload' query', parse? payload' = some query' →
    (query = query' ↔ query.toJson = query'.toJson)
  texts : ∀ payload' query', parse? payload' = some query' →
    (query = query' ↔ query.toJson.compact = query'.toJson.compact)

/-- Every query is parsed again of what is written for it, and queries are the same where their objects are,
or the texts of these. -/
theorem parsed_normal {payload : Payload} {query : AstQuery} (accepted : parse? payload = some query) :
    Normal payload query := by
  have again := parse?_toFields (parse?_wellFormed accepted)
  have told : ∀ payload' query', parse? payload' = some query' → query.toJson = query'.toJson →
      query = query' := by
    intro payload' query' accepted' same
    have again' := parse?_toFields (parse?_wellFormed accepted')
    rw [← Json.object.inj same, again] at again'
    exact Option.some.inj again'
  constructor
  case written => rfl
  case parsed => exact again
  case selector => rw [again, accepted]
  case xpath => rw [again, accepted]
  case decoded =>
    intro distinct
    exact decodeValue_eq_ok_iff.mpr
      (Payload.decodes_toJson (toFields_distinct (attributes_distinct distinct accepted)))
  case objects =>
    intro payload' query' accepted'
    exact ⟨congrArg toJson, told payload' query' accepted'⟩
  case texts =>
    intro payload' query' accepted'
    exact ⟨fun same => by rw [same], fun same => told payload' query' accepted' (Json.compact_injective same)⟩

/-- Keys in another order than they are written in, one that no query has, an item that is no text, and empty
members; under `where` a minus zero, an operator map and an escape. -/
theorem respelled_normal :
    let attributes : Fields :=
      [("b", .object [("ne", .null), ("eq", .number (.real (Double.zero true)))]), ("a", .string "\n")]
    let payload : Payload :=
      ⟨[("language", .string ""), ("has", .array [.string "Try", .null, .string ""]), ("notHas", .array []),
        ("engine", .string "ast"), ("where", .object attributes), ("node", .string "Call")]⟩
    let query : AstQuery := ⟨"Call", attributes, ["Try", ""], [], none⟩
    parse? payload = some query ∧ Normal payload query := by
  intro attributes payload query
  have accepted : parse? payload = some query := rfl
  exact ⟨accepted, parsed_normal accepted⟩

end AstQuery
end PolicyLint
