import Mathlib.Data.List.TakeWhile
import PolicyLint.Proofs.Text.Reading
import PolicyLint.Tool.Tsc
/-!
What the compiler prints against what is read of it. A line has the form of a diagnostic when it can be
cut into the parts of one; a file name may hold parentheses and numbers too, so the cut is not evident,
and the shortest name counts. Main statement: printed diagnostics are read back, whatever stands
between them, and an output is refused only when its run failed and no line has the form.
-/
namespace PolicyLint.Tool.Tsc

open Text

inductive Level where
  | error | warning | suggestion
deriving DecidableEq, Repr

def Level.word : Level → String
  | .error => "error"
  | .warning => "warning"
  | .suggestion => "suggestion"

/-- A suggestion is no more than an information. -/
def Level.severity : Level → String
  | .error => "error"
  | .warning => "warning"
  | .suggestion => "info"

/-! ### The form of a line -/

/-- Characters of one kind, one at least. -/
structure Run (kind : Char → Bool) (cs : List Char) : Prop where
  nonempty : cs ≠ []
  inside : ∀ c ∈ cs, kind c = true

/-- The parts of a diagnostic behind its file name. -/
structure Parts where
  line : List Char
  column : List Char
  gap : List Char
  level : Level
  codeGap : List Char
  code : List Char
  messageGap : List Char
  message : List Char

namespace Parts

def text (p : Parts) : List Char :=
  '(' :: (p.line ++ ',' :: (p.column ++ ')' :: ':' :: (p.gap ++ (p.level.word.toList ++
    (p.codeGap ++ 'T' :: 'S' :: (p.code ++ ':' :: (p.messageGap ++ p.message)))))))

structure Legal (p : Parts) : Prop where
  line : Run isDecimalDigit p.line
  column : Run isDecimalDigit p.column
  gap : Run isBlank p.gap
  codeGap : Run isBlank p.codeGap
  code : Run isDecimalDigit p.code
  messageGap : Run isBlank p.messageGap
  message : p.message ≠ []

/-- The gap before the message is as long as it can be. -/
def Flush (p : Parts) : Prop :=
  ∀ c ∈ p.message.head?, isBlank c = false

def finding (file : List Char) (p : Parts) : Finding :=
  ⟨String.ofList file, place p.line, place p.column, none, none, String.ofList p.message,
    p.level.severity, "TS" ++ String.ofList p.code⟩

end Parts

/-- A file name, one character at least, and the parts of a diagnostic; blanks at the end of the line
do not count. -/
def IsDiagnostic (line : String) : Prop :=
  ∃ file parts, file ≠ [] ∧ Parts.Legal parts ∧ (trimEnd line).toList = file ++ parts.text

/-! ### Reading the parts -/

theorem digits?_run {digits rest : List Char} (run : Run isDecimalDigit digits)
    (stop : ∀ c ∈ rest.head?, isDecimalDigit c = false) :
    digits? (digits ++ rest) = some (digits, rest) := by
  simp [digits?, takeWhile_run run.inside stop, dropWhile_run run.inside stop, run.nonempty]

theorem digits?_eq_some {cs digits rest : List Char} (read : digits? cs = some (digits, rest)) :
    Run isDecimalDigit digits ∧ cs = digits ++ rest := by
  simp only [digits?] at read
  split at read
  · cases read
  · rename_i nonempty
    obtain ⟨rfl, rfl⟩ := Prod.mk.inj (Option.some.inj read)
    exact ⟨⟨nonempty, fun c member => List.mem_takeWhile_imp member⟩, List.takeWhile_append_dropWhile.symm⟩

theorem blanks?_run {blanks rest : List Char} (run : Run isBlank blanks)
    (stop : ∀ c ∈ rest.head?, isBlank c = false) : blanks? (blanks ++ rest) = some rest := by
  obtain ⟨c, blanks, rfl⟩ := List.exists_cons_of_ne_nil run.nonempty
  have first : isBlank c = true := run.inside c List.mem_cons_self
  unfold blanks? dropBlanks
  rw [dropWhile_run run.inside stop]
  simp [first]

theorem blanks?_eq_some {cs rest : List Char} (read : blanks? cs = some rest) :
    ∃ blanks, Run isBlank blanks ∧ cs = blanks ++ rest ∧ ∀ c ∈ rest.head?, isBlank c = false := by
  unfold blanks? at read
  split at read
  · rename_i first
    obtain rfl := Option.some.inj read
    refine ⟨cs.takeWhile isBlank, ⟨?_, fun c member => List.mem_takeWhile_imp member⟩,
      List.takeWhile_append_dropWhile.symm, stop_dropWhile isBlank cs⟩
    cases cs with
    | nil => simp at first
    | cons c cs =>
      have blank : isBlank c = true := by simpa using first
      simp [blank]
  · cases read

theorem level?_word (level : Level) (rest : List Char) :
    level? (level.word.toList ++ rest) = some (level.severity, rest) := by
  cases level <;> simp [level?, levels, word?, afterLead?, Level.word, Level.severity]

theorem level?_eq_some {cs rest : List Char} {severity : String}
    (read : level? cs = some (severity, rest)) :
    ∃ level : Level, severity = level.severity ∧ cs = level.word.toList ++ rest := by
  obtain ⟨⟨word, _⟩, member, read⟩ := List.exists_of_findSome?_eq_some read
  obtain ⟨_, after, same⟩ := Option.map_eq_some_iff.mp read
  obtain ⟨rfl, rfl⟩ := Prod.mk.inj same
  have split := afterLead?_eq_some_iff.mp after
  simp only [levels, List.mem_cons, List.not_mem_nil, or_false, Prod.mk.injEq] at member
  rcases member with ⟨rfl, rfl⟩ | ⟨rfl, rfl⟩ | ⟨rfl, rfl⟩
  · exact ⟨.error, rfl, split⟩
  · exact ⟨.warning, rfl, split⟩
  · exact ⟨.suggestion, rfl, split⟩

theorem Level.word_stop (level : Level) (rest : List Char) :
    ∀ c ∈ (level.word.toList ++ rest).head?, isBlank c = false := by
  cases level <;> simp [Level.word] <;> decide

theorem afterFile?_text {p : Parts} (legal : p.Legal) (flush : p.Flush) (file : List Char) :
    afterFile? file p.text = some (p.finding file) := by
  have comma : ∀ rest, ∀ c ∈ (',' :: rest).head?, isDecimalDigit c = false := by simp; decide
  have bracket : ∀ rest, ∀ c ∈ (')' :: rest).head?, isDecimalDigit c = false := by simp; decide
  have colon : ∀ rest, ∀ c ∈ (':' :: rest).head?, isDecimalDigit c = false := by simp; decide
  have letter : ∀ rest, ∀ c ∈ ('T' :: rest).head?, isBlank c = false := by simp; decide
  have opened : ∀ rest, word? "(" ('(' :: rest) = some rest := fun _ => rfl
  have parted : ∀ rest, word? "," (',' :: rest) = some rest := fun _ => rfl
  have closed : ∀ rest, word? "):" (')' :: ':' :: rest) = some rest := fun _ => rfl
  have coded : ∀ rest, word? "TS" ('T' :: 'S' :: rest) = some rest := fun _ => rfl
  have told : ∀ rest, word? ":" (':' :: rest) = some rest := fun _ => rfl
  simp only [afterFile?, Parts.text, Option.bind_eq_bind, Option.bind_some, opened, parted, closed, coded,
    told, digits?_run legal.line (comma _), digits?_run legal.column (bracket _),
    blanks?_run legal.gap (p.level.word_stop _), level?_word, blanks?_run legal.codeGap (letter _),
    digits?_run legal.code (colon _), blanks?_run legal.messageGap flush, legal.message, if_false]
  rfl

theorem afterFile?_eq_some {file cs : List Char} {finding : Finding}
    (read : afterFile? file cs = some finding) :
    ∃ p : Parts, p.Legal ∧ p.Flush ∧ cs = p.text ∧ finding = p.finding file := by
  simp only [afterFile?, Option.bind_eq_bind, Option.bind_eq_some_iff] at read
  obtain ⟨_, opened, ⟨line, _⟩, lineRead, _, parted, ⟨column, _⟩, columnRead, _, closed, _, gapRead,
    ⟨_, _⟩, levelRead, _, codeGapRead, _, coded, ⟨code, _⟩, codeRead, _, told, message, messageRead,
    read⟩ := read
  split at read
  · cases read
  rename_i someMessage
  obtain rfl := Option.some.inj read
  obtain ⟨lineRun, rfl⟩ := digits?_eq_some lineRead
  obtain ⟨columnRun, rfl⟩ := digits?_eq_some columnRead
  obtain ⟨gap, gapRun, rfl, -⟩ := blanks?_eq_some gapRead
  obtain ⟨level, rfl, rfl⟩ := level?_eq_some levelRead
  obtain ⟨codeGap, codeGapRun, rfl, -⟩ := blanks?_eq_some codeGapRead
  obtain ⟨codeRun, rfl⟩ := digits?_eq_some codeRead
  obtain ⟨messageGap, messageGapRun, rfl, flush⟩ := blanks?_eq_some messageRead
  rw [word?, afterLead?_eq_some_iff] at opened parted closed coded told
  subst opened parted closed coded told
  exact ⟨⟨line, column, gap, level, codeGap, code, messageGap, message⟩,
    ⟨lineRun, columnRun, gapRun, codeGapRun, codeRun, messageGapRun, someMessage⟩, flush, rfl, rfl⟩

/-! ### The file name -/

theorem diagnosticFrom?_isSome_iff {before cs : List Char} : (diagnosticFrom? before cs).isSome ↔
    ∃ file rest, file ≠ [] ∧ cs = file ++ rest ∧ (afterFile? (before.reverse ++ file) rest).isSome := by
  induction cs generalizing before with
  | nil => simp +contextual [diagnosticFrom?]
  | cons c cs ih =>
    have here : (c :: before).reverse = before.reverse ++ [c] := List.reverse_cons
    rw [diagnosticFrom?]
    cases first : afterFile? (c :: before).reverse cs with
    | some finding =>
      refine iff_of_true rfl ⟨[c], cs, List.cons_ne_nil _ _, rfl, ?_⟩
      rw [← here, first]
      rfl
    | none =>
      rw [ih]
      constructor
      · rintro ⟨file, rest, -, rfl, found⟩
        refine ⟨c :: file, rest, List.cons_ne_nil _ _, rfl, ?_⟩
        rwa [here, List.append_assoc] at found
      · rintro ⟨file, rest, nonempty, split, found⟩
        obtain ⟨d, file, rfl⟩ := List.exists_cons_of_ne_nil nonempty
        rw [List.cons_append] at split
        obtain ⟨rfl, rfl⟩ := List.cons.inj split
        have more : file ≠ [] := by
          rintro rfl
          rw [List.nil_append] at first
          rw [← here, first] at found
          cases found
        refine ⟨file, rest, more, rfl, ?_⟩
        rwa [here, List.append_assoc]

/-- The first cut behind which a diagnostic goes on is the one that counts. -/
theorem diagnosticFrom?_first {before file rest : List Char} {finding : Finding} (nonempty : file ≠ [])
    (found : afterFile? (before.reverse ++ file) rest = .some finding)
    (shorter : ∀ front back, front ≠ [] → back ≠ [] → file = front ++ back →
      afterFile? (before.reverse ++ front) (back ++ rest) = none) :
    diagnosticFrom? before (file ++ rest) = .some finding := by
  induction file generalizing before with
  | nil => exact absurd rfl nonempty
  | cons c file ih =>
    have here : (c :: before).reverse = before.reverse ++ [c] := List.reverse_cons
    rw [List.cons_append, diagnosticFrom?, here]
    by_cases last : file = []
    · subst last
      rw [List.nil_append, found]
    · rw [shorter [c] file (List.cons_ne_nil _ _) last rfl]
      apply ih last
      · rwa [here, List.append_assoc]
      · intro front back _ someBack split
        rw [here, List.append_assoc]
        exact shorter (c :: front) back (List.cons_ne_nil _ _) someBack (by rw [split, List.cons_append])

/-- A file name in which no position is closed the way the compiler closes one. -/
def Unclosed (file : List Char) : Prop :=
  ∀ c, isBlank c = true → ¬ [')', ':', c] <:+: file

/-- What stands before the parts of a diagnostic is not cut by parts that begin within it. -/
theorem not_parts_within {front back : List Char} {p q : Parts} (unclosed : Unclosed (front ++ back))
    (nonempty : back ≠ []) (legal : q.Legal) : back ++ p.text ≠ q.text := by
  intro same
  obtain ⟨b, gap, gapEq⟩ := List.exists_cons_of_ne_nil legal.gap.nonempty
  have blank : isBlank b = true := legal.gap.inside b (by rw [gapEq]; exact List.mem_cons_self)
  let opening := '(' :: (q.line ++ ',' :: (q.column ++ [')', ':', b]))
  have split : q.text = opening ++ (gap ++ (q.level.word.toList ++ (q.codeGap ++ 'T' :: 'S' ::
      (q.code ++ ':' :: (q.messageGap ++ q.message))))) := by
    simp [opening, Parts.text, gapEq]
  have closes : [')', ':', b] <:+: opening := ⟨'(' :: (q.line ++ ',' :: q.column), [], by simp [opening]⟩
  rw [split, List.append_eq_append_iff] at same
  rcases same with ⟨_ | ⟨c, more⟩, covered, rest⟩ | ⟨more, covered, -⟩
  · -- the name ends with the opening
    rw [List.append_nil] at covered
    rw [covered] at closes
    exact unclosed b blank (closes.trans (List.suffix_append front back).isInfix)
  · -- the name's own parenthesis would stand within the opening
    obtain ⟨first, back, rfl⟩ := List.exists_cons_of_ne_nil nonempty
    obtain rfl : '(' = c := by
      simp only [Parts.text, List.cons_append, List.cons.injEq] at rest
      exact rest.1
    have inside : '(' ∈ q.line ++ ',' :: (q.column ++ [')', ':', b]) := by
      rw [(List.cons.inj covered).2]
      simp
    simp only [List.mem_append, List.mem_cons, List.not_mem_nil, or_false] at inside
    rcases inside with digit | comma | digit | bracket | colon | gap
    · exact absurd (legal.line.inside _ digit) (by decide)
    · exact absurd comma (by decide)
    · exact absurd (legal.column.inside _ digit) (by decide)
    · exact absurd bracket (by decide)
    · exact absurd colon (by decide)
    · rw [← gap] at blank
      exact absurd blank (by decide)
  · -- the opening lies in the name
    rw [covered] at unclosed
    exact unclosed b blank (closes.trans ⟨front, more, by simp⟩)

theorem diagnosticFrom?_text {file : List Char} {p : Parts} (nonempty : file ≠ []) (unclosed : Unclosed file)
    (legal : p.Legal) (flush : p.Flush) :
    diagnosticFrom? [] (file ++ p.text) = .some (p.finding file) := by
  have found : afterFile? ([].reverse ++ file) p.text = .some (p.finding file) := by
    rw [List.reverse_nil, List.nil_append]
    exact afterFile?_text legal flush file
  apply diagnosticFrom?_first nonempty found
  intro front back _ someBack split
  rw [Option.eq_none_iff_forall_ne_some]
  intro finding read
  obtain ⟨q, legalQ, -, same, -⟩ := afterFile?_eq_some read
  exact not_parts_within (split ▸ unclosed) someBack legalQ same

/-! ### Lines -/

/-- Where the gap before a message can be longer, it is taken to be. -/
theorem exists_flush {p : Parts} (legal : p.Legal) (last : ∃ c ∈ p.text.getLast?, isBlank c = false) :
    ∃ q : Parts, q.Legal ∧ q.Flush ∧ q.text = p.text := by
  have visible : dropBlanks p.message ≠ [] := by
    intro blank
    obtain ⟨c, member, visible⟩ := last
    have ends : p.text.getLast? = p.message.getLast? := by
      obtain ⟨d, message, messageEq⟩ := List.exists_cons_of_ne_nil legal.message
      simp [Parts.text, messageEq, List.getLast?_append, List.getLast?_cons]
    rw [ends] at member
    have all := List.dropWhile_eq_nil_iff.mp blank c (List.mem_of_getLast? member)
    rw [all] at visible
    cases visible
  refine ⟨{ p with
    messageGap := p.messageGap ++ p.message.takeWhile isBlank, message := dropBlanks p.message }, ?_, ?_, ?_⟩
  · refine { legal with messageGap := ⟨?_, ?_⟩, message := visible }
    · exact List.append_ne_nil_of_left_ne_nil legal.messageGap.nonempty _
    · intro c member
      rcases List.mem_append.mp member with given | moved
      · exact legal.messageGap.inside c given
      · exact List.mem_takeWhile_imp moved
  · exact stop_dropWhile isBlank p.message
  · simp [Parts.text, dropBlanks]

theorem trimEnd_last (line : String) (nonempty : (trimEnd line).toList ≠ []) :
    ∃ c ∈ (trimEnd line).toList.getLast?, isBlank c = false := by
  rw [toList_trimEnd] at nonempty ⊢
  have more : dropBlanks line.toList.reverse ≠ [] := fun empty => nonempty (by rw [empty]; rfl)
  obtain ⟨c, rest, split⟩ := List.exists_cons_of_ne_nil more
  rw [split, List.reverse_cons, List.getLast?_concat]
  exact ⟨c, rfl, stop_dropWhile isBlank line.toList.reverse c (by rw [← dropBlanks, split]; rfl)⟩

theorem Parts.text_ne_nil (p : Parts) : p.text ≠ [] :=
  List.cons_ne_nil _ _

/-- The matcher finds a diagnostic in every line that has the form of one, and in no other. -/
theorem diagnostic?_isSome_iff (line : String) : (diagnostic? line).isSome ↔ IsDiagnostic line := by
  unfold diagnostic? IsDiagnostic
  rw [diagnosticFrom?_isSome_iff]
  constructor
  · rintro ⟨file, rest, nonempty, split, found⟩
    obtain ⟨finding, found⟩ := Option.isSome_iff_exists.mp found
    obtain ⟨p, legal, -, rfl, -⟩ := afterFile?_eq_some found
    exact ⟨file, p, nonempty, legal, split⟩
  · rintro ⟨file, p, nonempty, legal, split⟩
    have last := trimEnd_last line (by rw [split]; simp [nonempty])
    rw [split, List.getLast?_append_of_ne_nil _ p.text_ne_nil] at last
    obtain ⟨q, legal, flush, same⟩ := exists_flush legal last
    refine ⟨file, q.text, nonempty, by rw [split, same], ?_⟩
    rw [afterFile?_text legal flush]
    rfl

theorem diagnostic?_congr {line line' : String} (same : trimEnd line = trimEnd line') :
    diagnostic? line = diagnostic? line' := by
  rw [diagnostic?, same, diagnostic?]

/-- The positions of a diagnostic stand behind a parenthesis. -/
theorem IsDiagnostic.mem_parenthesis {line : String} (is : IsDiagnostic line) : '(' ∈ line.toList := by
  obtain ⟨file, p, -, -, split⟩ := is
  have member : '(' ∈ (trimEnd line).toList := by
    rw [split, Parts.text]
    simp
  rw [toList_trimEnd, List.mem_reverse] at member
  exact List.mem_reverse.mp ((List.dropWhile_sublist isBlank).subset member)

/-! ### What the compiler prints -/

structure Diagnostic where
  file : String
  line : Nat
  column : Nat
  level : Level
  code : String
  message : String
  named : file ≠ ""
  file_line : '\n' ∉ file.toList
  unclosed : Unclosed file.toList
  line_lt : line < Nat.pow 2 32
  column_lt : column < Nat.pow 2 32
  numbered : Run isDecimalDigit code.toList
  told : message ≠ ""
  message_line : '\n' ∉ message.toList
  begins : ∀ c ∈ message.toList.head?, isBlank c = false
  ends : ∀ c ∈ message.toList.getLast?, isBlank c = false

namespace Diagnostic

def text (d : Diagnostic) : String :=
  d.file ++ "(" ++ toString d.line ++ "," ++ toString d.column ++ "): " ++ d.level.word ++ " TS" ++
    d.code ++ ": " ++ d.message

def finding (d : Diagnostic) : Finding :=
  ⟨d.file, d.line, d.column, none, none, d.message, d.level.severity, "TS" ++ d.code⟩

def parts (d : Diagnostic) : Parts :=
  ⟨(toString d.line).toList, (toString d.column).toList, [' '], d.level, [' '], d.code.toList, [' '],
    d.message.toList⟩

theorem toList_text (d : Diagnostic) : d.text.toList = d.file.toList ++ d.parts.text := by
  simp [text, parts, Parts.text, String.toList_append]

theorem run_toString (n : Nat) : Run isDecimalDigit (toString n).toList := by
  rw [show (toString n).toList = Nat.toDigits 10 n from Nat.toList_repr]
  refine ⟨Nat.toDigits_ne_nil, fun c member => ?_⟩
  have digit := Nat.isDigit_of_mem_toDigits (by decide) (by decide) member
  have bounds : 0x30 ≤ c.toNat ∧ c.toNat ≤ 0x39 := by
    simpa [Char.isDigit, UInt32.le_iff_toNat_le] using digit
  exact List.any_eq_true.mpr ⟨(0x30, 0x39), by simp [digitRanges], by simpa using bounds⟩

theorem run_space : Run isBlank [' '] :=
  ⟨List.cons_ne_nil _ _, List.forall_mem_singleton.mpr (by decide)⟩

theorem parts_legal (d : Diagnostic) : d.parts.Legal where
  line := run_toString d.line
  column := run_toString d.column
  gap := run_space
  codeGap := run_space
  code := d.numbered
  messageGap := run_space
  message := by simpa [parts] using d.told

theorem parts_finding (d : Diagnostic) : d.parts.finding d.file.toList = d.finding := by
  have place (n : Nat) (small : n < Nat.pow 2 32) : place (toString n).toList = n := by
    rw [Tsc.place, String.ofList_toList, natural?_toString small, Option.getD_some]
  have line := place d.line d.line_lt
  have column := place d.column d.column_lt
  simp only [Parts.finding, parts, finding, line, column, String.ofList_toList]

theorem getLast?_text (d : Diagnostic) : d.text.toList.getLast? = d.message.toList.getLast? := by
  have told : d.message.toList ≠ [] := by simpa using d.told
  rw [text, String.toList_append, List.getLast?_append_of_ne_nil _ told]

/-- A printed diagnostic is read as itself. -/
theorem diagnostic?_text (d : Diagnostic) : diagnostic? d.text = some d.finding := by
  have told : d.message.toList ≠ [] := by simpa using d.told
  have last : ∃ c ∈ d.text.toList.getLast?, isBlank c = false := by
    rw [getLast?_text]
    exact ⟨_, List.getLast?_eq_some_getLast told, d.ends _ (List.getLast?_eq_some_getLast told)⟩
  have named : d.file.toList ≠ [] := by simpa using d.named
  rw [diagnostic?, trimEnd_eq_self last, toList_text,
    diagnosticFrom?_text named d.unclosed d.parts_legal d.begins, parts_finding]

end Diagnostic

/-- Anything else that is printed in a line of its own. -/
structure Remark where
  text : String
  one_line : '\n' ∉ text.toList
  silent : '(' ∉ text.toList

inductive Line where
  | diagnostic (d : Diagnostic)
  | remark (r : Remark)

namespace Line

def text : Line → String
  | diagnostic d => d.text
  | remark r => r.text

def diagnostic? : Line → Option Diagnostic
  | diagnostic d => some d
  | remark _ => none

theorem diagnostic?_text (line : Line) :
    Tsc.diagnostic? line.text = line.diagnostic?.map Diagnostic.finding := by
  cases line with
  | diagnostic d => exact d.diagnostic?_text
  | remark r =>
    have silent : ¬ IsDiagnostic r.text := fun is => r.silent is.mem_parenthesis
    rw [← diagnostic?_isSome_iff] at silent
    exact Option.not_isSome_iff_eq_none.mp silent

theorem one_line (line : Line) : '\n' ∉ line.text.toList := by
  cases line with
  | remark r => exact r.one_line
  | diagnostic d =>
    have digits (n : Nat) : '\n' ∉ Nat.toDigits 10 n := by
      intro member
      exact absurd (Nat.isDigit_of_mem_toDigits (by decide) (by decide) member) (by decide)
    have code : '\n' ∉ d.code.toList := fun member => absurd (d.numbered.inside _ member) (by decide)
    have word : '\n' ∉ d.level.word.toList := by cases d.level <;> decide
    simp [text, Diagnostic.text, d.file_line, digits, word, code, d.message_line]

end Line

/-- What one of the two streams holds: lines that end, with or without a carriage return, and what
stands behind the last end. -/
structure Transcript where
  ended : List (Line × Bool)
  last : Option Line

namespace Transcript

def printed (line : Line × Bool) : List Char :=
  line.1.text.toList ++ if line.2 then ['\r'] else []

def unended (t : Transcript) : List Char :=
  (t.last.map fun line => line.text.toList).getD []

def text (t : Transcript) : String :=
  String.ofList ((t.ended.map printed).flatMap (· ++ ['\n']) ++ t.unended)

def lines (t : Transcript) : List Line :=
  t.ended.map Prod.fst ++ t.last.toList

def diagnostics (t : Transcript) : List Diagnostic :=
  t.lines.filterMap Line.diagnostic?

theorem printed_line (line : Line × Bool) : '\n' ∉ printed line := by
  unfold printed
  rw [List.mem_append, not_or]
  refine ⟨line.1.one_line, ?_⟩
  split <;> decide

theorem trimEnd_printed (line : Line × Bool) :
    trimEnd (String.ofList (printed line)) = trimEnd line.1.text := by
  unfold printed
  split
  · rw [trimEnd_concat (by decide), String.ofList_toList]
  · rw [List.append_nil, String.ofList_toList]

theorem diagnostic?_printed (line : Line × Bool) :
    Tsc.diagnostic? (String.ofList (chopped (printed line))) = line.1.diagnostic?.map Diagnostic.finding := by
  rw [diagnostic?_congr ((trimEnd_chopped _).trans (trimEnd_printed line)), Line.diagnostic?_text]

theorem filterMap_ended (ended : List (Line × Bool)) :
    (((ended.map printed).map chopped).map String.ofList).filterMap Tsc.diagnostic? =
      ((ended.map Prod.fst).filterMap Line.diagnostic?).map Diagnostic.finding := by
  induction ended with
  | nil => rfl
  | cons line ended ih =>
    simp only [List.map_cons, List.filterMap_cons, diagnostic?_printed]
    cases line.1.diagnostic? with
    | none => exact ih
    | some d => exact congrArg _ ih

/-- A line without text is not told from none, and no diagnostic is such a line. -/
theorem filterMap_unended (t : Transcript) :
    ((if t.unended = [] then [] else [t.unended]).map String.ofList).filterMap Tsc.diagnostic? =
      (t.last.toList.filterMap Line.diagnostic?).map Diagnostic.finding := by
  unfold unended
  cases t.last with
  | none => rfl
  | some line =>
    have read := line.diagnostic?_text
    by_cases empty : line.text.toList = []
    · rw [String.toList_eq_nil_iff.mp empty, show Tsc.diagnostic? "" = none from rfl] at read
      have nothing : line.diagnostic? = none := by simpa using read.symm
      simp [empty, nothing]
    · cases told : line.diagnostic? <;> simp [empty, read, told]

theorem filterMap_lines (t : Transcript) :
    (Text.lines t.text).filterMap Tsc.diagnostic? = t.diagnostics.map Diagnostic.finding := by
  have whole : ∀ line ∈ t.ended.map printed, '\n' ∉ line := by
    intro line member
    obtain ⟨given, -, rfl⟩ := List.mem_map.mp member
    exact printed_line given
  have unended : '\n' ∉ t.unended := by
    unfold Transcript.unended
    cases t.last with
    | none => simp
    | some line => exact line.one_line
  rw [text, lines_ended whole unended, List.map_append, List.filterMap_append, filterMap_ended,
    filterMap_unended, diagnostics, lines, List.filterMap_append, List.map_append]

end Transcript

/-! ### Outputs -/

theorem parse_eq_ok {output : Output}
    (good : (outputLines output).filterMap diagnostic? ≠ [] ∨ output.exitCode = 0) :
    parse output = .ok ((outputLines output).filterMap diagnostic?) := by
  simp only [parse]
  rw [if_neg]
  rintro ⟨empty, failed⟩
  exact good.elim (· empty) failed

theorem filterMap_diagnostic?_eq_nil_iff (lines : List String) :
    lines.filterMap diagnostic? = [] ↔ ∀ line ∈ lines, ¬ IsDiagnostic line := by
  rw [List.filterMap_eq_nil_iff]
  apply forall₂_congr
  intro line _
  rw [← diagnostic?_isSome_iff, Option.not_isSome_iff_eq_none]

/-- What the compiler prints of its diagnostics is read back, with what it prints to its standard output
first, unless there is none and the run failed. An output without a line that has the form of a
diagnostic is empty or, after a failed run, refused; every other output is read. -/
theorem diagnostics_decoded :
    (∀ (stdout stderr : Transcript) (exitCode : Int),
      stdout.diagnostics ++ stderr.diagnostics ≠ [] ∨ exitCode = 0 →
      parse ⟨stdout.text, stderr.text, exitCode⟩ =
        .ok ((stdout.diagnostics ++ stderr.diagnostics).map Diagnostic.finding)) ∧
    ∀ output : Output,
      ((∀ line ∈ outputLines output, ¬ IsDiagnostic line) →
        (output.exitCode = 0 → parse output = .ok []) ∧
        (output.exitCode ≠ 0 → ∃ message, parse output = .error (.parse name message))) ∧
      ((∃ line ∈ outputLines output, IsDiagnostic line) ∨ output.exitCode = 0 →
        ∃ found, parse output = .ok found) := by
  refine ⟨?_, fun output => ⟨fun undiagnosed => ⟨?_, ?_⟩, ?_⟩⟩
  · intro stdout stderr exitCode good
    have found : (outputLines ⟨stdout.text, stderr.text, exitCode⟩).filterMap diagnostic? =
        (stdout.diagnostics ++ stderr.diagnostics).map Diagnostic.finding := by
      rw [outputLines, List.filterMap_append, stdout.filterMap_lines, stderr.filterMap_lines, List.map_append]
    rw [← found]
    apply parse_eq_ok
    rw [found]
    simpa using good
  · intro passed
    have nothing := (filterMap_diagnostic?_eq_nil_iff _).mpr undiagnosed
    rw [parse_eq_ok (.inr passed), nothing]
  · intro failed
    have nothing := (filterMap_diagnostic?_eq_nil_iff _).mpr undiagnosed
    simp only [parse]
    rw [if_pos ⟨nothing, failed⟩]
    exact ⟨_, rfl⟩
  · intro good
    refine ⟨_, parse_eq_ok (good.imp_left ?_)⟩
    rintro ⟨line, member, is⟩ nothing
    exact (filterMap_diagnostic?_eq_nil_iff _).mp nothing line member is

/-- A file name that holds a position of its own, and a message that holds a diagnostic. -/
def misleading : Diagnostic where
  file := "src/(app)/a(1,2):b.ts"
  line := 4294967295
  column := 5
  level := .suggestion
  code := "80001"
  message := "see c.ts(3,4): error TS1: not here"
  named := by decide
  file_line := by decide
  unclosed := by
    intro c blank within
    have letter : c = 'b' := by
      simpa [List.infix_cons_iff, List.cons_prefix_cons] using within
    rw [letter] at blank
    exact absurd blank (by decide)
  line_lt := by decide
  column_lt := by decide
  numbered := ⟨by decide, by simp; decide⟩
  told := by decide
  message_line := by decide
  begins := by simp; decide
  ends := by simp; decide

example : misleading.text =
    "src/(app)/a(1,2):b.ts(4294967295,5): suggestion TS80001: see c.ts(3,4): error TS1: not here" := by
  decide +kernel

def misleadingListing : Transcript :=
  ⟨[(.remark ⟨"Starting compilation", by decide, by decide⟩, false), (.diagnostic misleading, true)], none⟩

theorem misleading_decoded :
    (misleadingListing.diagnostics ++ Transcript.diagnostics ⟨[], none⟩ ≠ [] ∨ (2 : Int) = 0) ∧
    parse ⟨misleadingListing.text, Transcript.text ⟨[], none⟩, 2⟩ = .ok [misleading.finding] :=
  ⟨.inl (List.cons_ne_nil _ _),
    diagnostics_decoded.1 misleadingListing ⟨[], none⟩ 2 (.inl (List.cons_ne_nil _ _))⟩

end PolicyLint.Tool.Tsc
