import PolicyLint.Document.Token
/-!
JSON texts as documents. One pass over the tokens keeps the containers that are still open; where a
token does not fit, everything read so far is closed around the break.
-/
namespace PolicyLint.Document

/-- A container whose next value is being read; its contents so far are in reverse. -/
inductive Enclosing where
  | list (start : Nat) (items : List Node)
  | object (start : Nat) (members : List (Key × Node)) (key : Key)

/-- What is due next, inside which open containers. -/
inductive Progress where
  | value (afterComma : Bool) (outer : List Enclosing)
  | listStart (start : Nat) (outer : List Enclosing)
  | listMore (start : Nat) (items : List Node) (outer : List Enclosing)
  | key (afterComma : Bool) (start : Nat) (members : List (Key × Node)) (outer : List Enclosing)
  | colon (start : Nat) (members : List (Key × Node)) (key : Except Fault String)
      (stop : Nat) (outer : List Enclosing)
  | objectMore (start : Nat) (members : List (Key × Node)) (outer : List Enclosing)
  /-- The root is closed, or broken; `trailing` is what follows it. -/
  | done (root : Node) (trailing : Option Fault)

/-- A finished value goes to the innermost open container. -/
def place (node : Node) : List Enclosing → Progress
  | [] => .done node none
  | .list start items :: outer => .listMore start (node :: items) outer
  | .object start members key :: outer => .objectMore start ((key, node) :: members) outer

/-- Closes every open container around a value that broke. -/
def abandon (node : Node) : List Enclosing → Progress
  | [] => .done node none
  | .list start items :: outer => abandon (.array ⟨start, start⟩ (node :: items).reverse none) outer
  | .object start members key :: outer =>
    abandon (.object ⟨start, start⟩ ((key, node) :: members).reverse none) outer

/-- One cause for every use, shown just behind the offending character. -/
def refusal (cause : Cause) (offset : Nat) : Break :=
  ⟨⟨cause, offset⟩, ⟨cause, offset⟩, ⟨.trailingCharacters, offset⟩⟩

def cutList (start : Nat) (items : List Node) (outer : List Enclosing) (cut : Break) : Progress :=
  abandon (.array ⟨start, start⟩ items.reverse (some cut)) outer

def cutObject (start : Nat) (members : List (Key × Node)) (outer : List Enclosing) (cut : Break) :
    Progress :=
  abandon (.object ⟨start, start⟩ members.reverse (some cut)) outer

/-- A token where a value is due. -/
def takeValue (afterComma : Bool) (outer : List Enclosing) (token : Token) : Progress :=
  let span := token.span
  let here := span.start + 1
  match token.kind with
  | .openList => .listStart span.start outer
  | .openObject => .key false span.start [] outer
  | .null => place (.null span) outer
  | .bool b => place (.bool span b) outer
  | .number n => place (.number span n) outer
  | .string s => place (.string span s) outer
  | .torn quoted kept skipped =>
    abandon (.broken (if quoted then none else some span.start)
      ⟨kept, skipped, ⟨.trailingCharacters, here⟩⟩) outer
  | .closeList =>
    if afterComma then
      abandon (.broken (some span.start)
        ⟨⟨.trailingComma, here⟩, ⟨.expectedValue, here⟩, ⟨.trailingComma, here⟩⟩) outer
    else abandon (.broken (some span.start) (refusal .expectedValue here)) outer
  | .closeObject | .comma | .colon | .stray =>
    abandon (.broken (some span.start) (refusal .expectedValue here)) outer

/-- A token where a key is due, or the end of the object. -/
def takeKey (afterComma : Bool) (start : Nat) (members : List (Key × Node))
    (outer : List Enclosing) (token : Token) : Progress :=
  let here := token.span.start + 1
  match token.kind with
  | .string s => .colon start members s token.span.stop outer
  | .torn true kept skipped =>
    cutObject start members outer ⟨kept, skipped, ⟨.trailingCharacters, here⟩⟩
  | .closeObject =>
    if afterComma then
      cutObject start members outer
        ⟨⟨.trailingComma, here⟩, ⟨.keyNotString, here⟩, ⟨.trailingComma, here⟩⟩
    else place (.object ⟨start, token.span.stop⟩ members.reverse none) outer
  | _ => cutObject start members outer (refusal .keyNotString here)

def Progress.take (progress : Progress) (token : Token) : Progress :=
  let here := token.span.start + 1
  match progress with
  | .value afterComma outer => takeValue afterComma outer token
  | .listStart start outer =>
    match token.kind with
    | .closeList => place (.array ⟨start, token.span.stop⟩ [] none) outer
    | _ => takeValue false (.list start [] :: outer) token
  | .listMore start items outer =>
    match token.kind with
    | .comma => .value true (.list start items :: outer)
    | .closeList => place (.array ⟨start, token.span.stop⟩ items.reverse none) outer
    | _ => cutList start items outer (refusal .expectedListEnd here)
  | .key afterComma start members outer => takeKey afterComma start members outer token
  | .colon start members name stop outer =>
    match token.kind with
    | .colon => .value false (.object start members ⟨name, stop, token.span.start⟩ :: outer)
    | .closeObject =>
      abandon (.broken none (refusal .expectedColon here))
        (.object start members ⟨name, stop, here⟩ :: outer)
    | _ =>
      abandon (.broken none (refusal .expectedColon here))
        (.object start members ⟨name, stop, token.span.start⟩ :: outer)
  | .objectMore start members outer =>
    match token.kind with
    | .comma => .key true start members outer
    | .closeObject => place (.object ⟨start, token.span.stop⟩ members.reverse none) outer
    | _ => cutObject start members outer (refusal .expectedObjectEnd here)
  | .done root none => .done root (some ⟨.trailingCharacters, here⟩)
  | .done root (some fault) => .done root (some fault)

/-- A text: its root, and what is wrong behind the root. -/
structure Contents where
  root : Node
  trailing : Option Fault

/-- The end of the text comes where something is still due. -/
def Progress.finish (progress : Progress) (size : Nat) : Progress :=
  match progress with
  | .value _ outer =>
    abandon (.broken none (refusal .eofInValue size)) outer
  | .listStart start outer => cutList start [] outer (refusal .eofInList size)
  | .listMore start items outer =>
    cutList start items outer
      ⟨⟨.eofInList, size⟩, ⟨.eofInList, size⟩, ⟨.eofInList, size⟩⟩
  | .key afterComma start members outer =>
    cutObject start members outer
      (if afterComma then
        ⟨⟨.eofInValue, size⟩, ⟨.eofInObject, size⟩, ⟨.trailingCharacters, size⟩⟩
      else refusal .eofInObject size)
  | .colon start members name stop outer =>
    abandon (.broken none (refusal .eofInObject size)) (.object start members ⟨name, stop, size⟩ :: outer)
  | .objectMore start members outer => cutObject start members outer (refusal .eofInObject size)
  | .done root trailing => .done root trailing

theorem abandon_done (node : Node) (outer : List Enclosing) :
    ∃ root, abandon node outer = .done root none := by
  induction outer generalizing node with
  | nil => exact ⟨node, rfl⟩
  | cons e outer ih => cases e <;> exact ih _

theorem finish_done (progress : Progress) (size : Nat) :
    ∃ root trailing, progress.finish size = .done root trailing := by
  cases progress with
  | done root trailing => exact ⟨root, trailing, by simp [Progress.finish]⟩
  | _ =>
    obtain ⟨root, h⟩ := abandon_done _ _
    exact ⟨root, none, h⟩

/-- The end makes contents of any progress. -/
def Progress.contents (progress : Progress) (size : Nat) : Contents :=
  match h : progress.finish size with
  | .done root trailing => ⟨root, trailing⟩
  | .value .. | .listStart .. | .listMore .. | .key .. | .colon .. | .objectMore .. =>
    absurd (finish_done progress size) (by simp [h])

/-- The fault behind the root needs a root that is whole, so a broken root comes first. -/
def ofText (text : String) : Contents :=
  let cs := text.toList
  ((tokens 0 cs).foldl Progress.take (.value false [])).contents (byteCount cs)

end PolicyLint.Document
