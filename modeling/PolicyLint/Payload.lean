import PolicyLint.Document.Decode
/-!
The open map of a check. A key that is missing or holds a value of another type reads as the zero of
the type that is asked for.
-/
namespace PolicyLint

structure Payload where
  fields : Fields

namespace Payload

def empty : Payload := ⟨[]⟩

def get? (payload : Payload) (key : String) : Option Json :=
  payload.fields.get? key

def has (payload : Payload) (key : String) : Bool :=
  payload.fields.has key

def text (payload : Payload) (key : String) : String :=
  ((payload.get? key).bind Json.string?).getD ""

/-- A text that is not empty. -/
def text? (payload : Payload) (key : String) : Option String :=
  let text := payload.text key
  if text = "" then none else some text

/-- A number toward zero, clamped to 64 bits. -/
def int (payload : Payload) (key : String) : Int :=
  (((payload.get? key).bind Json.number?).map Number.toWord).getD 0

def bool? (payload : Payload) (key : String) : Option Bool :=
  (payload.get? key).bind Json.bool?

def bool (payload : Payload) (key : String) : Bool :=
  (payload.bool? key).getD false

/-- The texts of a list; items of other types are passed over. -/
def texts (payload : Payload) (key : String) : List String :=
  (((payload.get? key).bind Json.array?).getD []).filterMap Json.string?

def engine (payload : Payload) : String :=
  payload.text "engine"

def toJson (payload : Payload) : Json :=
  .object payload.fields

def decoder : Document.Decoder Payload := fun reading node =>
  Payload.mk <$> Document.fields reading node

end Payload
end PolicyLint
