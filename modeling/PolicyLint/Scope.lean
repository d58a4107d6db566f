import PolicyLint.Rule
import PolicyLint.Text.Quoted
/-!
The scope of a run: the branch, the role and the tags it is for. A rule is left out when it names
branches, roles or tags and none of them fits; what the run does not say constrains nothing.
-/
namespace PolicyLint

structure Scope where
  branch : Option String
  role : Option String
  tags : List String
deriving DecidableEq, Repr

/-- Why a rule does not run. -/
inductive Exclusion where
  | disabled
  | untagged
  | branch (current : String) (allowed : List String)
  | role (current : String) (allowed : List String)
  | tags (wanted : List String)
deriving DecidableEq, Repr

def Exclusion.message : Exclusion → String
  | .disabled => "disabled"
  | .untagged => "rule has no tags"
  | .branch current allowed => s!"branch '{current}' not in " ++ Text.quotedList allowed
  | .role current allowed => s!"role '{current}' not in " ++ Text.quotedList allowed
  | .tags wanted => "no tag in " ++ Text.quotedList wanted

namespace Scope

def isWildcard (token : String) : Bool :=
  token == "*" || Text.sameIgnoringCase token "any" || Text.sameIgnoringCase token "all"

/-- Whether a list of names admits the current one: an empty list does, an unknown name is admitted,
and else one entry must be a wildcard or the name itself. -/
def admits (allowed : List String) : Option String → Bool
  | none => true
  | some current =>
    allowed.isEmpty || (allowed.map Text.trim).any fun token =>
      isWildcard token || Text.sameIgnoringCase token current

/-- Whether one of the wanted tags is among a rule's. -/
def sharesTag (wanted tags : List String) : Bool :=
  tags.any fun t => wanted.any fun w => Text.sameIgnoringCase w t

/-- What keeps a rule with a selector out of the scope. -/
def excludesSelector? (scope : Scope) (selector : Selector) : Option Exclusion :=
  if !admits selector.branches scope.branch then
    some (.branch (scope.branch.getD "") selector.branches)
  else if !admits selector.roles scope.role then some (.role (scope.role.getD "") selector.roles)
  else if !scope.tags.isEmpty && !sharesTag scope.tags selector.tags then some (.tags scope.tags)
  else none

/-- What keeps a rule out of the scope, if anything does. -/
def excludes? (scope : Scope) (rule : Rule) : Option Exclusion :=
  match rule.selector with
  | some selector => scope.excludesSelector? selector
  | none => if scope.tags.isEmpty then none else some .untagged

end Scope
end PolicyLint
