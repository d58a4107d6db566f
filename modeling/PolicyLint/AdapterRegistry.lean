import PolicyLint.Adapter
import PolicyLint.Text.Order
/-!
The adapters that a run knows, in the order of their registration. Of several adapters for a language
and a category the first one counts.
-/
namespace PolicyLint

structure AdapterRegistry (W : Type) where
  adapters : List (Adapter W)

namespace AdapterRegistry

def empty : AdapterRegistry W := ⟨[]⟩

def names (registry : AdapterRegistry W) : List String :=
  registry.adapters.map Adapter.name

/-- A name that is taken is refused. -/
def register (registry : AdapterRegistry W) (adapter : Adapter W) :
    Except Failure (AdapterRegistry W) :=
  if registry.names.contains adapter.name then .error (.adapterAlreadyRegistered adapter.name)
  else .ok ⟨registry.adapters ++ [adapter]⟩

def ofList (adapters : List (Adapter W)) : Except Failure (AdapterRegistry W) :=
  adapters.foldlM register empty

def get (registry : AdapterRegistry W) (name : String) : Except Failure (Adapter W) :=
  match registry.adapters.find? fun a => a.name == name with
  | some adapter => .ok adapter
  | none => .error (.unknownAdapter name)

def find (registry : AdapterRegistry W) (language category : String) :
    Except Failure (Adapter W) :=
  match registry.adapters.find? fun a =>
      a.capabilities.speaks language && a.capabilities.handles category with
  | some adapter => .ok adapter
  | none => .error (.adapterNotFound language category)

/-- The languages that some adapter for a category lists, each once and in order. -/
def languages (registry : AdapterRegistry W) (category : String) : List String :=
  Text.sortedDistinct
    ((registry.adapters.filter fun a => a.capabilities.handles category).flatMap fun a =>
      a.capabilities.languages)

end AdapterRegistry
end PolicyLint
