import PolicyLint.Document.Decode
import PolicyLint.Yaml.Tree
/-!
YAML texts as documents. A reference is replaced by the value it refers to. One that leads in a circle,
or that unfolds into far more than the document holds, stands for a value that cannot be read; that does
no harm where the value is skipped.
-/
namespace PolicyLint.Yaml

open Document (Node Key)

namespace Tree

mutual

/-- The number of values and ends of collections. -/
def size : Tree → Nat
  | .reference _ | .scalar .. => 1
  | .sequence _ _ items => 2 + sizeOfItems items
  | .mapping _ _ members => 2 + sizeOfMembers members

def sizeOfItems : List Tree → Nat
  | [] => 0
  | t :: rest => size t + sizeOfItems rest

def sizeOfMembers : List (Tree × Tree) → Nat
  | [] => 0
  | (k, v) :: rest => size k + size v + sizeOfMembers rest

end

/-- A value with its number, when it has one. -/
def numbered (anchor : Option Nat) (tree : Tree) : List (Nat × Tree) :=
  (anchor.map fun number => (number, tree)).toList

mutual

/-- The values that can be referred to, in order. -/
def anchored : Tree → List (Nat × Tree)
  | .reference _ => []
  | .scalar anchor s => numbered anchor (.scalar anchor s)
  | .sequence anchor isNamed items =>
    numbered anchor (.sequence anchor isNamed items) ++ anchoredItems items
  | .mapping anchor isNamed members =>
    numbered anchor (.mapping anchor isNamed members) ++ anchoredMembers members

def anchoredItems : List Tree → List (Nat × Tree)
  | [] => []
  | t :: rest => anchored t ++ anchoredItems rest

def anchoredMembers : List (Tree × Tree) → List (Nat × Tree)
  | [] => []
  | (k, v) :: rest => anchored k ++ anchored v ++ anchoredMembers rest

end

mutual

/-- How many references are followed when all of a value is read. -/
def weight (weigh : Nat → Nat) : Tree → Nat
  | .reference number => 1 + weigh number
  | .scalar .. => 0
  | .sequence _ _ items => weightOfItems weigh items
  | .mapping _ _ members => weightOfMembers weigh members

def weightOfItems (weigh : Nat → Nat) : List Tree → Nat
  | [] => 0
  | t :: rest => weight weigh t + weightOfItems weigh rest

def weightOfMembers (weigh : Nat → Nat) : List (Tree × Tree) → Nat
  | [] => 0
  | (k, v) :: rest => weight weigh k + weight weigh v + weightOfMembers weigh rest

end

/-- Offsets say nothing here. -/
def unreadable : Node :=
  .number ⟨0, 0⟩ (.error ⟨.tooDeep, 0⟩)

def under (isNamed : Bool) (node : Node) : Node :=
  if isNamed then .tagged node else node

/-- Only scalars are keys that can be read. -/
def keyOf : Node → Key
  | .scalar s => ⟨.ok s.text, 0, 0⟩
  | _ => ⟨.error ⟨.keyNotString, 0⟩, 0, 0⟩

mutual

def toNode (follow : Nat → Node) : Tree → Node
  | .reference number => follow number
  | .scalar _ s => .scalar s
  | .sequence _ isNamed items => under isNamed (.array ⟨0, 0⟩ (toNodes follow items) none)
  | .mapping _ isNamed members => under isNamed (.object ⟨0, 0⟩ (toMembers follow members) none)

def toNodes (follow : Nat → Node) : List Tree → List Node
  | [] => []
  | t :: rest => toNode follow t :: toNodes follow rest

def toMembers (follow : Nat → Node) : List (Tree × Tree) → List (Key × Node)
  | [] => []
  | (k, v) :: rest => (keyOf (toNode follow k), toNode follow v) :: toMembers follow rest

end

/-- A look-up that gives zero for what is not there. -/
def weightIn (weights : List (Nat × Nat)) (number : Nat) : Nat :=
  (weights.lookup number).getD 0

/-- The weights of some values, with references followed a number of times and no weight beyond
`limit`. -/
def weights (values : List (Nat × Tree)) (limit : Nat) : Nat → List (Nat × Nat)
  | 0 => []
  | depth + 1 =>
    let known := weights values limit depth
    values.map fun v => (v.1, min limit (weight (weightIn known) v.2))

/-- Follows a reference at most `depth` times in a row. -/
def followed (values : List (Nat × Tree)) (isHeavy : Nat → Bool) : Nat → Nat → Node
  | 0, _ => unreadable
  | depth + 1, number =>
    match values.lookup number with
    | some tree => if isHeavy number then unreadable else toNode (followed values isHeavy depth) tree
    | none => unreadable

/-- How many references may be followed for every value of the document. -/
def followLimit : Nat := 100

/-- The document of a tree. Of several values with one number the last one counts. A chain of references
that is longer than there are values goes in a circle. -/
def node (tree : Tree) : Node :=
  let values := tree.anchored.reverse
  let limit := followLimit * tree.size
  let weights := weights values (limit + 1) values.length
  toNode (followed values (fun number => limit < weightIn weights number) values.length) tree

end Tree

def ofText (text : String) : Except Fault Node :=
  (Tree.ofText text).map Tree.node

/-- Reads a YAML text that holds one document. -/
def decodeText (decoder : Document.Decoder α) (text : String) : Except String α := do
  let node ← (ofText text).mapError Fault.message
  (decoder (.start .yaml) node).mapError fun error => error.cause.message

end PolicyLint.Yaml
