import PolicyLint.Proofs.Checkstyle.Sheet
/-!
Checkstyle's report as it is written: a `file` element for each file and in it an `error` element for
each finding. Main statement: the findings of a report are read back, each with its file, in order.
-/
namespace PolicyLint.Tool.Checkstyle

open Xml

def fileName : Name := ⟨"file".toList, by simp [inName, isSpace]⟩

def errorName : Name := ⟨"error".toList, by simp [inName, isSpace]⟩

/-! ### What is reported -/

/-- A finding as Checkstyle has it. -/
structure Error where
  line : Nat
  column : Option Nat
  message : String
  severity : String
  source : String
  line_lt : line < Nat.pow 2 32
  column_lt : ∀ column' ∈ column, column' < Nat.pow 2 32

namespace Error

def level (e : Error) : String :=
  if Text.sameIgnoringCase e.severity "error" then "error"
  else if Text.sameIgnoringCase e.severity "info" then "info"
  else "warning"

/-- The class that found it, without its package and the word that ends the names of checks. -/
def check (e : Error) : String :=
  if e.source = "" then "unknown"
  else
    let last := e.source.toList.rtakeWhile (· != '.')
    let word := "Check".toList
    String.ofList (if word <:+ last then last.rdrop word.length else last)

def finding (file : String) (e : Error) : Finding :=
  ⟨file, e.line, e.column.getD 0, none, none, e.message, e.level, e.check⟩

theorem severityWord_eq (e : Error) : severityWord e.severity = e.level := by
  have lowerError : Text.asciiLower "error" = "error" := by decide
  have lowerInfo : Text.asciiLower "info" = "info" := by decide
  unfold severityWord level Text.sameIgnoringCase
  rw [lowerError, lowerInfo]
  by_cases error : Text.asciiLower e.severity = "error"
  · simp [error]
  · by_cases info : Text.asciiLower e.severity = "info" <;> simp [error, info]

theorem ruleIdOf_eq (e : Error) : ruleIdOf e.source = e.check := by
  unfold ruleIdOf check
  split
  · rfl
  · rw [Text.splitOn, List.getLast?_map, Text.getLast?_splitOn, Option.map_some, Option.getD_some,
      Text.dropTail?_getD]
    simp only [String.toList_ofList]

end Error

/-! ### How it is written -/

/-- The attributes stand in any order, among others. -/
structure ErrorElement where
  error : Error
  before : Plain
  inside : Inside
  ending : Option (Plain × Spaces)
  line : inside.value? "line" = some (toString error.line)
  column : inside.value? "column" = error.column.map toString
  message : inside.value? "message" = some error.message
  severity : inside.value? "severity" = some error.severity
  source : inside.value? "source" = some error.source

namespace ErrorElement

/-- Without an ending, the element is an empty one. -/
def pieces (e : ErrorElement) : List Piece :=
  match e.ending with
  | none => [⟨e.before, .empty errorName e.inside⟩]
  | some ending => element e.before errorName e.inside [] ending

theorem nested (e : ErrorElement) : Nested e.pieces := by
  unfold pieces
  cases e.ending with
  | none => rfl
  | some ending => exact Nested.nil.element _ _ _ ending

theorem elements (e : ErrorElement) : ElementsOnly e.pieces := by
  have nothing : ElementsOnly [] := by simp [ElementsOnly]
  unfold pieces
  cases e.ending with
  | none => simp [ElementsOnly]
  | some ending => exact nothing.element _ _ _ ending

theorem tagsOf_pieces (e : ErrorElement) : tagsOf e.pieces = [⟨errorName.1, e.inside.text⟩] := by
  unfold pieces
  cases e.ending with
  | none => rfl
  | some ending => exact tagsOf_element _ _ _ [] ending

theorem findingOf_eq (file : String) (e : ErrorElement) :
    findingOf file ⟨errorName.1, e.inside.text⟩ = e.error.finding file := by
  have place (key : String) (n : Nat) (small : n < Nat.pow 2 32)
      (given : e.inside.value? key = some (toString n)) :
      place ⟨errorName.1, e.inside.text⟩ key = n := by
    rw [Checkstyle.place, Tag.attribute?, attribute?_inside, given, Option.bind_some,
      Text.natural?_toString small, Option.getD_some]
  have line := place "line" e.error.line e.error.line_lt e.line
  have column : Checkstyle.place ⟨errorName.1, e.inside.text⟩ "column" = e.error.column.getD 0 := by
    cases given : e.error.column with
    | none =>
      have absent := e.column
      rw [given] at absent
      simp [Checkstyle.place, Tag.attribute?, attribute?_inside, absent]
    | some column =>
      exact place "column" column (e.error.column_lt column given) (by rw [e.column, given]; rfl)
  simp only [findingOf, line, column, Tag.attribute?, attribute?_inside, e.message, e.severity, e.source,
    Option.getD_some, e.error.severityWord_eq, e.error.ruleIdOf_eq, Error.finding]

end ErrorElement

structure FileElement where
  name : String
  errors : List ErrorElement
  before : Plain
  inside : Inside
  ending : Plain × Spaces
  named : inside.value? "name" = some name

namespace FileElement

def pieces (f : FileElement) : List Piece :=
  element f.before fileName f.inside (f.errors.flatMap ErrorElement.pieces) f.ending

def findings (f : FileElement) : List Finding :=
  f.errors.map fun e => e.error.finding f.name

theorem nested (f : FileElement) : Nested f.pieces :=
  (Nested.flatMap ErrorElement.nested f.errors).element _ _ _ _

theorem elements (f : FileElement) : ElementsOnly f.pieces :=
  (ElementsOnly.flatMap ErrorElement.elements f.errors).element _ _ _ _

end FileElement

/-- A report in full, and the declaration before it, if there is one. -/
structure Audit where
  declaration : Option (Unmarked × Plain)
  root : Inside
  files : List FileElement
  ending : Plain × Spaces

namespace Audit

def findings (a : Audit) : List Finding :=
  a.files.flatMap FileElement.findings

def body (a : Audit) : List Piece :=
  a.files.flatMap FileElement.pieces

def sheet (a : Audit) : Sheet where
  declaration := a.declaration
  root := a.root
  body := a.body
  ending := a.ending
  nested := Nested.flatMap FileElement.nested a.files
  elements := ElementsOnly.flatMap FileElement.elements a.files

def text (a : Audit) : List Char :=
  a.sheet.text

end Audit

/-! ### Reading it back -/

theorem findingsIn_errors (file : String) (errors : List ErrorElement) (rest : List Tag) :
    findingsIn file (tagsOf (errors.flatMap ErrorElement.pieces) ++ rest) =
      (errors.map fun e => e.error.finding file) ++ findingsIn file rest := by
  induction errors with
  | nil => rfl
  | cons e errors ih =>
    have other : errorName.1 ≠ "file".toList := by decide
    have error : errorName.1 = "error".toList := rfl
    rw [List.flatMap_cons, tagsOf_append, e.tagsOf_pieces, List.append_assoc, List.singleton_append,
      findingsIn, if_neg other, if_pos error, e.findingOf_eq, ih, List.map_cons, List.cons_append]

theorem findingsIn_files (file : String) (files : List FileElement) :
    findingsIn file (tagsOf (files.flatMap FileElement.pieces)) = files.flatMap FileElement.findings := by
  induction files generalizing file with
  | nil => rfl
  | cons f files ih =>
    have isFile : fileName.1 = "file".toList := rfl
    rw [List.flatMap_cons, tagsOf_append, FileElement.pieces, tagsOf_element, List.cons_append, findingsIn,
      if_pos isFile, Tag.attribute?, attribute?_inside, f.named, Option.getD_some, findingsIn_errors, ih,
      List.flatMap_cons, FileElement.findings]

theorem Audit.findingsOf_sheet (a : Audit) : findingsOf a.sheet.pieces = a.findings := by
  have root (before : Plain) : tagsOf (a.sheet.rootElement before) =
      ⟨rootName.1, a.root.text⟩ :: tagsOf a.body := tagsOf_element _ _ _ _ _
  have tags : tagsOf a.sheet.pieces = ⟨rootName.1, a.root.text⟩ :: tagsOf a.body := by
    unfold Sheet.pieces
    cases a.sheet.declaration with
    | none => exact root _
    | some declaration => exact root declaration.2
  have noFile : rootName.1 ≠ "file".toList := by decide
  have noError : rootName.1 ≠ "error".toList := by decide
  rw [findingsOf, tags, findingsIn, if_neg noFile, if_neg noError]
  exact findingsIn_files "" a.files

/-- A report is decoded completely: each error comes back with the name of its file, in order, whatever
is printed before and behind the report and however the run ended. -/
theorem audit_decoded (a : Audit) (progress behind : Plain) (stderr : String) (exitCode : Int) :
    parse ⟨String.ofList (progress.1 ++ (a.text ++ behind.1)), stderr, exitCode⟩ = .ok a.findings := by
  rw [Audit.text, parse_sheet, a.findingsOf_sheet]

/-! ### Every list of files has a report -/

def spelled (name : Name) (value : String) : Spelled where
  gap := ⟨[' '], by simp [isSpace]⟩
  gap_some := List.cons_ne_nil _ _
  name := name
  beforeSign := noSpaces
  behindSign := noSpaces
  quote := .double
  value := value

def lineBreak : Plain :=
  ⟨['\n'], by decide⟩

def Error.element (e : Error) : ErrorElement where
  error := e
  before := lineBreak
  inside :=
    ⟨spelled ⟨"line".toList, by simp [inName, isSpace]⟩ (toString e.line) ::
      (e.column.toList.map fun column =>
        spelled ⟨"column".toList, by simp [inName, isSpace]⟩ (toString column)) ++
      [spelled ⟨"severity".toList, by simp [inName, isSpace]⟩ e.severity,
        spelled ⟨"message".toList, by simp [inName, isSpace]⟩ e.message,
        spelled ⟨"source".toList, by simp [inName, isSpace]⟩ e.source], noSpaces⟩
  ending := none
  line := rfl
  column := by cases e.column <;> rfl
  message := by cases e.column <;> rfl
  severity := by cases e.column <;> rfl
  source := by cases e.column <;> rfl

def FileElement.of (file : String × List Error) : FileElement where
  name := file.1
  errors := file.2.map Error.element
  before := lineBreak
  inside := ⟨[spelled ⟨"name".toList, by simp [inName, isSpace]⟩ file.1], noSpaces⟩
  ending := (lineBreak, noSpaces)
  named := rfl

def Audit.of (files : List (String × List Error)) : Audit where
  declaration := none
  root := ⟨[], noSpaces⟩
  files := files.map FileElement.of
  ending := (lineBreak, noSpaces)

theorem Audit.findings_of (files : List (String × List Error)) :
    (Audit.of files).findings = files.flatMap fun file => file.2.map (Error.finding file.1) := by
  simp [findings, of, List.flatMap_map, FileElement.findings, FileElement.of, Error.element, Function.comp_def]

/-- One long line in one file. -/
def longLineAudit : Audit :=
  .of [("A.java", [⟨10, none, "Line is longer than 100 characters.", "Warning",
    "com.puppycrawl.tools.checkstyle.checks.sizes.LineLengthCheck", by decide, by simp⟩])]

example : longLineAudit.findings = [⟨"A.java", 10, 0, none, none,
    "Line is longer than 100 characters.", "warning", "LineLength"⟩] := by decide

end PolicyLint.Tool.Checkstyle
