import PolicyLint.Payload
import PolicyLint.Selector
/-!
Structural queries over syntax trees: a node type, attributes that must have given values, and what
a node must or must not contain.
-/
namespace PolicyLint

structure AstQuery where
  node : String
  /-- Attribute names and the values they must have, in order. -/
  attributes : Fields
  /-- A match lacks each of these: the rule says that a node should have them. -/
  has : List String
  /-- A match contains each of these. -/
  hasNot : List String
  language : Option String

namespace AstQuery

def noNode : String := "AST rule requires 'node' field"

def ofNode (node : String) : AstQuery :=
  ⟨node, [], [], [], none⟩

/-- The query of a check; a node type is all it needs. -/
def parse? (payload : Payload) : Option AstQuery :=
  (payload.text? "node").map fun node =>
    { node
      attributes := ((payload.get? "where").bind Json.object?).getD []
      has := payload.texts "has"
      hasNot := payload.texts "notHas"
      language := payload.text? "language" }

/-- Members that say nothing are left out. -/
def toFields (query : AstQuery) : Fields :=
  [("node", .string query.node)] ++
    (if query.attributes.isEmpty then [] else [("where", .object query.attributes)]) ++
    Selector.listMember "has" query.has ++ Selector.listMember "notHas" query.hasNot ++
    (query.language.map fun l => ("language", Json.string l)).toList

def toJson (query : AstQuery) : Json :=
  .object query.toFields

end AstQuery
end PolicyLint
