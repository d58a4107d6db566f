import PolicyLint.Numeric.Double
/-!
TOML values, and how tables grow. A table is opened by its header once; a table that was only passed
through on the way to another may still be opened, one that grew by dotted keys may go on growing by
them, and one in braces is closed.
-/
namespace PolicyLint.Toml

/-- How a table came about. -/
inductive Origin where
  | header | passedThrough | dotted | braces
deriving DecidableEq, Repr

inductive Value where
  | string (text : String)
  | integer (value : Int)
  /-- None for the numbers that are not finite. -/
  | real (value : Option Double)
  | bool (value : Bool)
  /-- A date, a time or both. -/
  | moment (text : String)
  /-- `grows` for a list of tables that headers add to. -/
  | array (grows : Bool) (items : List Value)
  | table (origin : Origin) (members : List (String × Value))

structure Table where
  origin : Origin
  members : List (String × Value)

namespace Table

def value (table : Table) : Value :=
  .table table.origin table.members

def get? (table : Table) (key : String) : Option Value :=
  table.members.lookup key

/-- A key that is there keeps its place. -/
def put (table : Table) (key : String) (value : Value) : Table :=
  if (table.get? key).isSome then
    { table with members := table.members.map fun m => if m.1 = key then (key, value) else m }
  else { table with members := table.members ++ [(key, value)] }

/-- Changes the table at the end of a path. What is missing on the way is made; of a list of tables the
last one is meant. Dotted keys do not lead into a table that has a header. -/
def changeAt (dotted : Bool) (change : Table → Option Table) : List String → Table → Option Table
  | [], table => change table
  | key :: path, table =>
    match table.get? key with
    | none =>
      (changeAt dotted change path ⟨if dotted then .dotted else .passedThrough, []⟩).map fun made =>
        table.put key made.value
    | some (.table origin members) =>
      if origin = .braces ∨ (dotted ∧ origin = .header) then none
      else
        (changeAt dotted change path ⟨origin, members⟩).map fun changed =>
          table.put key changed.value
    | some (.array true items) =>
      match items.getLast? with
      | some (.table origin members) =>
        (changeAt dotted change path ⟨origin, members⟩).map fun changed =>
          table.put key (.array true (items.dropLast ++ [changed.value]))
      | _ => none
    | some _ => none

/-- A key that may be dotted, and its value. -/
structure Member where
  path : List String
  key : String
  value : Value

/-- A member that is new; a dotted one goes only to tables that dotted keys made. -/
def add? (table : Table) (member : Member) : Option Table :=
  let insert := fun (target : Table) =>
    if (target.origin = .dotted) = (member.path = []) ∨ (target.get? member.key).isSome then none
    else some (target.put member.key member.value)
  table.changeAt true insert member.path

/-- What opens a table: the path to it, and whether it joins a list of tables. -/
structure Header where
  path : List String
  key : String
  joins : Bool

/-- Opens the table of a header and adds members to it. -/
def open? (root : Table) (header : Header) (members : List Member) : Option Table :=
  let fill := fun (before : List (String × Value)) =>
    (members.foldlM add? ⟨.header, before⟩).map Table.value
  let change := fun (parent : Table) =>
    match header.joins, parent.get? header.key with
    | false, none => (fill []).map (parent.put header.key)
    | false, some (.table .passedThrough before) => (fill before).map (parent.put header.key)
    | true, none => (fill []).map fun t => parent.put header.key (.array true [t])
    | true, some (.array true items) =>
      (fill []).map fun t => parent.put header.key (.array true (items ++ [t]))
    | _, some _ => none
  root.changeAt false change header.path

end Table
end PolicyLint.Toml
