import PolicyLint.Language
import PolicyLint.Document.Decode
import PolicyLint.Json.Printer
/-!
The selector of a rule: which files it looks at, and on which branches, for which roles and under
which tags it runs. Lists are joined by "and", the entries of a list by "or"; an empty list asks for
nothing, and an exclusion wins over everything else.
-/
namespace PolicyLint

structure Selector where
  languages : List String
  included : List String
  excluded : List String
  branches : List String
  roles : List String
  tags : List String
deriving DecidableEq, Repr

namespace Selector

def empty : Selector := ⟨[], [], [], [], [], []⟩

def matchesFile (selector : Selector) (path : String) : Bool :=
  let path := Glob.toSlash path
  (selector.languages.isEmpty || selector.languages.any fun l => Language.owns l path) &&
    (selector.included.isEmpty || selector.included.any fun p => Glob.isMatch path p) &&
    !(selector.excluded.any fun p => Glob.isMatch path p)

/-- The files a selector keeps, in their order; without a selector all are kept. -/
def keep (selector : Option Selector) (files : List String) : List String :=
  match selector with
  | none => files
  | some s => files.filter s.matchesFile

/-- The language a rule is evaluated for: the first one it names, else that of the first file, else
the fallback. -/
def language (selector : Option Selector) (files : List String) : String :=
  match selector.bind (·.languages.head?) with
  | some name => (Language.canonical? name).getD (Language.normalized name)
  | none => (files.head?.bind Language.ofPath?).getD Language.fallback

/-- A list that is not empty, as a member. -/
def listMember (name : String) (items : List String) : Fields :=
  if items.isEmpty then [] else [(name, Json.strings items)]

/-- Empty lists are left out. -/
def toJson (s : Selector) : Json :=
  .object (listMember "languages" s.languages ++ listMember "include" s.included ++
    listMember "exclude" s.excluded ++ listMember "branches" s.branches ++
    listMember "roles" s.roles ++ listMember "tags" s.tags)

open Document in
def record : Record Selector :=
  let texts := fun name => Record.takes name (list string) []
  Selector.mk <$> texts "languages" <*> texts "include" <*> texts "exclude" <*> texts "branches" <*>
    texts "roles" <*> texts "tags"

def decoder : Document.Decoder Selector :=
  record.decoder "Selector"

end Selector
end PolicyLint
