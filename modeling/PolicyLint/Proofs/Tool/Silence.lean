import PolicyLint.Proofs.Document.Refusal
import PolicyLint.Proofs.Tool.Listing
import PolicyLint.Proofs.Tool.Reports
import PolicyLint.Proofs.Xml.Grammar
import PolicyLint.Tool.Checkstyle
/-!
Outputs in which a tool says that nothing is wrong, told by their text alone: a JSON report without an entry, a
list without a file that is formatted, an XML report without an error. Main statements: behind an exit code that
is not zero, an output is taken for a clean one exactly when it says so.
-/
namespace PolicyLint.Tool

open Document

/-! ### Reports in JSON -/

namespace Eslint

/-- Nothing but white space, or a report without a message. -/
def Silent (stdout : List Char) : Prop :=
  (∀ c ∈ stdout, Text.isBlank c = true) ∨
    ∃ (front behind : Blanks) (w : Written), stdout = front.1 ++ (w.text ++ behind.1) ∧ IsReport w []

theorem message_refuses : Message.record.Refuses := by
  have ruleId : (Record.may "ruleId" string).Refuses := .member (.option .string) _
  have number : Refuses (natural 32) := .natural 32
  exact ((((((ruleId.map Message.mk).seq (.member (.natural 8) _)).seq (.member .string _)).seq
    (.member number _)).seq (.member number _)).seq (.member number.option _)).seq (.member number.option _)

theorem report_refuses : Refuses (list (FileResult.record.decoder "FileResult")) := by
  have messages : Refuses (list (Message.record.decoder "Message")) := .list (message_refuses.decoder _)
  have filePath : (Record.needs "filePath" string).Refuses := .member .string _
  have file : FileResult.record.Refuses := (filePath.map FileResult.mk).seq (.member messages _)
  exact .list (file.decoder _)

/-- A list without items, bare. -/
def noFiles : Written := .list ⟨noGap, noGap⟩ noGap []

theorem parse_nil_iff (output : Output) : parse output = .ok [] ↔ Silent output.stdout.toList := by
  obtain ⟨stdout, stderr, exitCode⟩ := output
  constructor
  · intro passes
    obtain ⟨front, behind, front_blank, behind_blank, text⟩ := Text.exists_trim stdout
    have written {w : Written} (left : Text.trim stdout = String.ofList w.text) : Silent stdout.toList := by
      rw [left, String.toList_ofList] at text
      have whole := parse_report w ⟨front, front_blank⟩ ⟨behind, behind_blank⟩ stderr exitCode
      rw [← text, String.ofList_toList] at whole
      exact .inr ⟨⟨front, front_blank⟩, ⟨behind, behind_blank⟩, w, text, (whole.all []).mp passes⟩
    by_cases blank : Text.trim stdout = ""
    · exact .inl (Text.trim_eq_empty_iff.mp blank)
    by_cases empty : Text.trim stdout = "[]"
    · exact written (w := noFiles) empty
    · simp only [parse, blank, empty, or_self, if_false] at passes
      split at passes
      · rename_i decoded
        obtain ⟨w, left⟩ := exists_written report_refuses decoded
        exact written left
      · cases passes
  · rintro (blank | ⟨front, behind, w, text, report⟩)
    · simp [parse, Text.trim_eq_empty_iff.mpr blank]
    · obtain rfl : stdout = String.ofList (front.1 ++ (w.text ++ behind.1)) := by
        rw [← text, String.ofList_toList]
      exact ((parse_report w front behind stderr exitCode).all []).mpr report

end Eslint

/-- What begins with a brace is an object. -/
theorem exists_object {w : Written} {rest : List Char} (begins : w.text = '\x7b' :: rest) :
    ∃ around inner members, w = .object around inner members := by
  have first {gap : Gap} {cs : List Char} (text : gap.1 ++ cs = '\x7b' :: rest) : cs.head? = some '\x7b' := by
    obtain ⟨gap, blank⟩ := gap
    cases gap with
    | nil => rw [show cs = _ from text]; rfl
    | cons c gap =>
      obtain ⟨rfl, -⟩ := List.cons.inj text
      exact absurd (blank _ List.mem_cons_self) (by decide)
  cases w with
  | object around inner members => exact ⟨around, inner, members, rfl⟩
  | list around inner items => simpa using first begins
  | single around value =>
    have head := first begins
    cases value with
    | null => simp [Single.text] at head
    | bool b => cases b <;> simp [Single.text] at head
    | string letters => simp [Single.text, stringText] at head
    | number n =>
      obtain ⟨negative, ⟨⟨digits, nonempty, each⟩, _⟩, fraction, exponent⟩ := n
      obtain ⟨digit, digits, rfl⟩ := List.exists_cons_of_ne_nil nonempty
      cases negative with
      | true => simp [Single.text, Numeral.text] at head
      | false =>
        obtain rfl : digit = '\x7b' := by simpa [Single.text, Numeral.text, Numeral.unsigned] using head
        exact absurd (each _ List.mem_cons_self) (by decide)

namespace Pmd

/-- A report without a violation, behind any text without a brace. -/
def Silent (stdout : List Char) : Prop :=
  ∃ (before : List Char) (behind : Blanks) (around : Around) (inner : Gap) (members : List (Label × Written)),
    '\x7b' ∉ before ∧ stdout = before ++ ((Written.object around inner members).text ++ behind.1) ∧
      IsReport (.object around inner members) []

theorem report_refuses : Refuses (Report.record.decoder "Report") := by
  have number : Refuses (natural 32) := .natural 32
  have beginLine : (Record.takes "beginline" (natural 32) 0).Refuses := .member number _
  have violation : ReportedFinding.record.Refuses :=
    ((((((beginLine.map ReportedFinding.mk).seq (.member number _)).seq (.member number.option _)).seq
      (.member number.option _)).seq (.member .string _)).seq (.member .string _)).seq (.member (.natural 8) _)
  have filename : (Record.needs "filename" string).Refuses := .member .string _
  have file : FileReport.record.Refuses :=
    (filename.map FileReport.mk).seq (.member (violation.decoder "Finding").list _)
  have named : (Record.takes "filename" string "").Refuses := .member .string _
  have problem : ProcessingError.record.Refuses := (named.map ProcessingError.mk).seq (.member .string _)
  have files : (Record.takes "files" (list (FileReport.record.decoder "FileReport")) []).Refuses :=
    .member (file.decoder _).list _
  have report : Report.record.Refuses := (files.map Report.mk).seq (.member (problem.decoder _).list _)
  exact report.decoder _

/-- Behind its first brace, an output that passes is a JSON document. -/
theorem exists_report_of_passes {output : Output} (nonzero : output.exitCode ≠ 0)
    (passes : parse output = .ok []) :
    ∃ w : Written, Text.fromFirst? ['\x7b'] (Text.trim output.stdout).toList = some w.text := by
  simp only [parse, nonzero, if_false] at passes
  split at passes
  · cases passes
  split at passes
  · cases passes
  rename_i report found
  split at passes
  · rename_i decoded
    obtain ⟨w, rfl⟩ := exists_written report_refuses decoded
    obtain ⟨located, behind, same⟩ := Option.map_eq_some_iff.mp found
    exact ⟨w, String.ofList_injective same ▸ behind⟩
  · cases passes

theorem parse_nil_iff {output : Output} (nonzero : output.exitCode ≠ 0) :
    parse output = .ok [] ↔ Silent output.stdout.toList := by
  obtain ⟨stdout, stderr, exitCode⟩ := output
  constructor
  · intro passes
    obtain ⟨front, behind, front_blank, behind_blank, text⟩ := Text.exists_trim stdout
    obtain ⟨w, located⟩ := exists_report_of_passes nonzero passes
    obtain ⟨between, split, ⟨rest, begins⟩, free⟩ := (Text.fromFirst?_eq_some_iff List.not_mem_nil).mp located
    obtain ⟨around, inner, members, rfl⟩ := exists_object begins.symm
    have apart : '\x7b' ∉ front ++ between := by
      refine List.not_mem_append (fun member => ?_) fun member => free ((List.singleton_infix_iff _ _).mpr member)
      exact absurd (front_blank _ member) (by decide)
    have whole : stdout = String.ofList
        ((front ++ between) ++ ((Written.object around inner members).text ++ behind)) := by
      rw [← String.toList_inj, String.toList_ofList, text, split]
      simp
    have read := (parse_report around inner members apart ⟨behind, behind_blank⟩ stderr exitCode).all []
    rw [← whole] at read
    refine ⟨_, ⟨behind, behind_blank⟩, around, inner, members, apart, ?_, read.mp passes⟩
    rw [whole, String.toList_ofList]
  · rintro ⟨before, behind, around, inner, members, free, text, report⟩
    obtain rfl : stdout = String.ofList (before ++ ((Written.object around inner members).text ++ behind.1)) := by
      rw [← text, String.ofList_toList]
    exact ((parse_report around inner members free behind stderr exitCode).all []).mpr report

end Pmd

/-! ### Lists of files -/

namespace Prettier

open Text

/-- A name that ends, in upper or lower case, as the files do that are formatted. -/
def IsFormattedName (file : List Char) : Prop :=
  ∃ extension : String, Path.EndsIn file extension.toList ∧
    asciiLower extension ∈ ["js", "mjs", "cjs", "jsx", "ts", "mts", "cts", "tsx", "json", "css", "scss", "less",
      "html", "vue", "md", "markdown", "yaml", "yml"]

/-- What is a file where it fills a line, with or without a mark. -/
structure Listable (file : List Char) : Prop where
  first : ∃ c ∈ file.head?, isBlank c = false
  last : ∃ c ∈ file.getLast?, isBlank c = false
  formatted : IsFormattedName file
  noSummary : ¬ "Code style".toList <+: file

/-- A line that names a file that is not formatted: the file behind a warning mark, or alone. -/
inductive Names : List Char → List Char → Prop
  | marked {file : List Char} (front gap behind : Blanks) : Listable file →
      Names (front.1 ++ ("[warn]".toList ++ (gap.1 ++ file) ++ behind.1)) file
  | bare {file : List Char} (front behind : Blanks) : Listable file → ¬ "[warn]".toList <+: file →
      ¬ "Checking".toList <+: file → Names (front.1 ++ (file ++ behind.1)) file

/-- No line of either stream names a file. -/
def Silent (output : Output) : Prop :=
  ∀ line, IsLine line output.stdout.toList ∨ IsLine line output.stderr.toList → ∀ file, ¬ Names line file

theorem isFormatted_iff {file : String} : isFormatted file = true ↔ IsFormattedName file.toList := by
  have known : extensions = ["js", "mjs", "cjs", "jsx", "ts", "mts", "cts", "tsx", "json", "css", "scss", "less",
      "html", "vue", "md", "markdown", "yaml", "yml"] := rfl
  simp only [isFormatted, Option.any_eq_true, List.contains_iff_mem, IsFormattedName, ← known]
  refine exists_congr fun extension => ?_
  by_cases empty : extension = ""
  · subst empty
    have unknown : asciiLower "" ∉ extensions := by decide
    simp [unknown]
  · rw [Path.extension?_iff_endsIn empty]

theorem startsWith_iff {lead s : String} : startsWith lead s = true ↔ lead.toList <+: s.toList :=
  afterLead?_isSome_iff

theorem IsFormattedName.ne_nil {file : List Char} (formatted : IsFormattedName file) : file ≠ [] := by
  rintro rfl
  obtain ⟨extension, ⟨directory, stem, trailing, text, -⟩, -⟩ := formatted
  simp at text

theorem candidate_eq_some_iff {candidate : String} {file : List Char} :
    (if startsWith "Code style" candidate then none
      else if isFormatted candidate then some candidate else none) = some (String.ofList file) ↔
      candidate = String.ofList file ∧ ¬ "Code style".toList <+: file ∧ IsFormattedName file := by
  have read : IsFormattedName file ↔ isFormatted (String.ofList file) = true := by
    rw [isFormatted_iff, String.toList_ofList]
  have leads : "Code style".toList <+: file ↔ startsWith "Code style" (String.ofList file) = true := by
    rw [startsWith_iff, String.toList_ofList (l := file)]
  rw [read, leads]
  constructor
  · intro found
    split at found
    · cases found
    split at found
    · rename_i apart formatted
      obtain rfl := Option.some.inj found
      exact ⟨rfl, apart, formatted⟩
    · cases found
  · rintro ⟨rfl, apart, formatted⟩
    rw [if_neg apart, if_pos formatted]

/-- What is listed is what stands behind the mark, or the line itself. -/
theorem listed?_eq_some_iff {t : String} {file : List Char} : listed? t = some (String.ofList file) ↔
    ((∃ rest, t.toList = "[warn]".toList ++ rest ∧ trim (String.ofList rest) = String.ofList file) ∨
      ¬ "[warn]".toList <+: t.toList ∧ ¬ "Checking".toList <+: t.toList ∧ t = String.ofList file) ∧
    ¬ "Code style".toList <+: file ∧ IsFormattedName file := by
  by_cases mark : "[warn]".toList <+: t.toList
  · obtain ⟨rest, text⟩ := mark
    have unchecked : ¬ (t = "" ∨ startsWith "Checking" t = true) := by
      rw [startsWith_iff, ← String.toList_inj, ← text]
      simp
    have stripped : dropLead? "[warn]" t = some (String.ofList rest) := by
      rw [dropLead?, ← text, afterLead?_append]
      rfl
    rw [listed?, if_neg unchecked, stripped, Option.map_some, Option.getD_some, candidate_eq_some_iff, ← text]
    simp
  · have stripped : dropLead? "[warn]" t = none := by
      rw [dropLead?, Option.map_eq_none_iff, ← Option.not_isSome_iff_eq_none, afterLead?_isSome_iff]
      exact mark
    by_cases passed : t = "" ∨ startsWith "Checking" t = true
    · rw [listed?, if_pos passed]
      refine iff_of_false (by simp) ?_
      rintro ⟨⟨rest, text, -⟩ | ⟨-, unopened, rfl⟩, -, formatted⟩
      · exact mark ⟨rest, text.symm⟩
      · rcases passed with empty | opens
        · exact formatted.ne_nil (by simpa using empty)
        · exact unopened (startsWith_iff.mp opens)
    · rw [listed?, if_neg passed, stripped, Option.map_none, Option.getD_none, candidate_eq_some_iff]
      obtain ⟨-, unopened⟩ := not_or.mp passed
      rw [startsWith_iff] at unopened
      have unmarked : ¬ ∃ rest, t.toList = "[warn]".toList ++ rest ∧
          trim (String.ofList rest) = String.ofList file := by
        rintro ⟨rest, text, -⟩
        exact mark ⟨rest, text.symm⟩
      rw [or_iff_right unmarked, and_iff_right mark, and_iff_right unopened]

theorem listed?_iff {line file : List Char} :
    listed? (trim (String.ofList line)) = some (String.ofList file) ↔ Names line file := by
  rw [listed?_eq_some_iff]
  constructor
  · rintro ⟨named, noSummary, formatted⟩
    have left : String.ofList file ≠ "" := by simpa using formatted.ne_nil
    obtain ⟨front, behind, front_blank, behind_blank, text⟩ := exists_trim (String.ofList line)
    rw [String.toList_ofList] at text
    rcases named with ⟨rest, marked, same⟩ | ⟨unmarked, unopened, same⟩
    · obtain ⟨gap, after, gap_blank, after_blank, inner⟩ := exists_trim (String.ofList rest)
      obtain ⟨first, last⟩ := flush_trim (same ▸ left)
      rw [same, String.toList_ofList] at inner first last
      rw [String.toList_ofList] at inner
      have whole : line = front ++ ("[warn]".toList ++ (gap ++ file) ++ (after ++ behind)) := by
        rw [text, marked, inner]
        simp
      rw [whole]
      exact .marked ⟨front, front_blank⟩ ⟨gap, gap_blank⟩
        ⟨after ++ behind, List.forall_mem_append.mpr ⟨after_blank, behind_blank⟩⟩
        ⟨first, last, formatted, noSummary⟩
    · obtain ⟨first, last⟩ := flush_trim (same ▸ left)
      rw [same, String.toList_ofList (l := file)] at text first last unmarked unopened
      rw [text]
      exact .bare ⟨front, front_blank⟩ ⟨behind, behind_blank⟩ ⟨first, last, formatted, noSummary⟩ unmarked
        unopened
  · intro names
    cases names with
    | marked front gap behind listable =>
      obtain ⟨first, last, formatted, noSummary⟩ := listable
      have ends : ∃ c ∈ ("[warn]".toList ++ (gap.1 ++ file)).getLast?, isBlank c = false := by
        rwa [← List.append_assoc, List.getLast?_append_of_ne_nil _ formatted.ne_nil]
      refine ⟨.inl ⟨gap.1 ++ file, ?_, ?_⟩, noSummary, formatted⟩
      · rw [trim_of_flush front.2 ⟨'[', rfl, by decide⟩ ends behind.2, String.toList_ofList]
      · have trimmed : trim (String.ofList (gap.1 ++ (file ++ []))) = String.ofList file :=
          trim_of_flush gap.2 first last nofun
        rwa [List.append_nil] at trimmed
    | bare front behind listable unmarked unopened =>
      obtain ⟨first, last, formatted, noSummary⟩ := listable
      rw [trim_of_flush front.2 first last behind.2, String.toList_ofList]
      exact ⟨.inr ⟨unmarked, unopened, rfl⟩, noSummary, formatted⟩

theorem parse_nil_iff {output : Output} (nonzero : output.exitCode ≠ 0) :
    parse output = .ok [] ↔ Silent output := by
  have joined (line : List Char) : IsLine line (output.stdout ++ "\n" ++ output.stderr).toList ↔
      IsLine line output.stdout.toList ∨ IsLine line output.stderr.toList := by
    have text : (output.stdout ++ "\n" ++ output.stderr).toList =
        output.stdout.toList ++ '\n' :: output.stderr.toList := by
      simp
    rw [text]
    exact isPiece_append_iff
  have unlisted : parse output = .ok [] ↔
      ∀ line ∈ (lines (output.stdout ++ "\n" ++ output.stderr)).map trim, listed? line = none := by
    simp only [parse, findings, nonzero, if_false, Except.ok.injEq, List.filterMap_eq_nil_iff,
      Option.map_eq_none_iff]
  rw [unlisted]
  constructor
  · intro quiet line here file names
    have read := listed?_iff.mpr names
    have left : trim (String.ofList line) ≠ "" := by
      intro empty
      rw [empty] at read
      cases read
    rw [quiet _ ((mem_trimmed_iff left).mpr ⟨line, (joined line).mpr here, rfl⟩)] at read
    cases read
  · intro quiet t member
    by_cases left : t = ""
    · subst left
      rfl
    · obtain ⟨line, here, rfl⟩ := (mem_trimmed_iff left).mp member
      refine Option.eq_none_iff_forall_ne_some.mpr fun file read =>
        quiet line ((joined line).mp here) file.toList (listed?_iff.mp ?_)
      rw [read, String.ofList_toList]

end Prettier

/-! ### Reports in XML -/

namespace Checkstyle

/-- The mark stands here, and nowhere before. -/
def FirstAt (mark before rest : List Char) : Prop :=
  mark <+: rest ∧ ¬ mark <:+: before

/-- A report without an error, behind any other text. It begins with its declaration or, without one, with its
root. -/
def Silent (stdout : List Char) : Prop :=
  ∃ before report tags, stdout = before ++ report ∧
    (FirstAt "<?xml".toList before report ∨
      ¬ "<?xml".toList <:+: stdout ∧ FirstAt "<checkstyle".toList before report) ∧
    Xml.Tagged [] report tags ∧ ∀ tag ∈ tags, tag.name ≠ "error".toList

theorem findingsIn_eq_nil_iff (file : String) (tags : List Xml.Tag) :
    findingsIn file tags = [] ↔ ∀ tag ∈ tags, tag.name ≠ "error".toList := by
  induction tags generalizing file with
  | nil => simp [findingsIn]
  | cons tag rest ih =>
    rw [findingsIn]
    by_cases isFile : tag.name = "file".toList
    · simp [isFile, ih]
    by_cases isError : tag.name = "error".toList
    · simp [isError]
    · rw [if_neg isFile, if_neg isError, ih, List.forall_mem_cons]
      exact (and_iff_right isError).symm

section

variable {stdout : String} {front behind : List Char} (front_blank : ∀ c ∈ front, Text.isBlank c = true)
  (behind_blank : ∀ c ∈ behind, Text.isBlank c = true)
  (text : stdout.toList = front ++ ((Text.trim stdout).toList ++ behind))

include front_blank behind_blank text

/-- The blanks that are trimmed do not move the report. -/
theorem from?_trim_iff {first : Char} {mark report : List Char}
    (visible : (first :: mark).any Text.isBlank = false) :
    Text.from? (String.ofList (first :: mark)) (Text.trim stdout) = some (String.ofList report) ↔
      Text.fromFirst? (first :: mark) stdout.toList = some (report ++ behind) := by
  rw [text, Text.fromFirst?_around _ (by simpa using visible) front_blank behind_blank, Text.from?,
    String.toList_ofList]
  cases Text.fromFirst? (first :: mark) (Text.trim stdout).toList with
  | none => simp
  | some found => simp [← String.toList_inj]

theorem from?_trim_eq_none_iff {first : Char} {mark : List Char}
    (visible : (first :: mark).any Text.isBlank = false) :
    Text.from? (String.ofList (first :: mark)) (Text.trim stdout) = none ↔
      ¬ first :: mark <:+: stdout.toList := by
  rw [← Text.fromFirst?_eq_none_iff, text,
    Text.fromFirst?_around _ (by simpa using visible) front_blank behind_blank, Text.from?,
    String.toList_ofList, Option.map_eq_none_iff, Option.map_eq_none_iff]

theorem report?_iff {report : List Char} : report? (Text.trim stdout) = some (String.ofList report) ↔
    ∃ before, stdout.toList = before ++ (report ++ behind) ∧
      (FirstAt "<?xml".toList before (report ++ behind) ∨
        ¬ "<?xml".toList <:+: stdout.toList ∧ FirstAt "<checkstyle".toList before (report ++ behind)) := by
  have first (tail : List Char) (free : '<' ∉ tail) :
      Text.fromFirst? ('<' :: tail) stdout.toList = some (report ++ behind) ↔
        ∃ before, stdout.toList = before ++ (report ++ behind) ∧
          FirstAt ('<' :: tail) before (report ++ behind) :=
    Text.fromFirst?_eq_some_iff free
  have declared : Text.from? "<?xml" (Text.trim stdout) = some (String.ofList report) ↔ _ :=
    (from?_trim_iff front_blank behind_blank text rfl).trans (first "?xml".toList (by simp))
  have undeclared : Text.from? "<?xml" (Text.trim stdout) = none ↔ ¬ "<?xml".toList <:+: stdout.toList :=
    from?_trim_eq_none_iff front_blank behind_blank text rfl
  have root : Text.from? "<checkstyle" (Text.trim stdout) = some (String.ofList report) ↔ _ :=
    (from?_trim_iff front_blank behind_blank text rfl).trans (first "checkstyle".toList (by simp))
  have either : report? (Text.trim stdout) = some (String.ofList report) ↔
      Text.from? "<?xml" (Text.trim stdout) = some (String.ofList report) ∨
        Text.from? "<?xml" (Text.trim stdout) = none ∧
          Text.from? "<checkstyle" (Text.trim stdout) = some (String.ofList report) := by
    rw [report?]
    cases Text.from? "<?xml" (Text.trim stdout) <;> simp
  rw [either, declared, undeclared, root]
  constructor
  · rintro (⟨before, split, here⟩ | ⟨plain, before, split, here⟩)
    · exact ⟨before, split, .inl here⟩
    · exact ⟨before, split, .inr ⟨plain, here⟩⟩
  · rintro ⟨before, split, here | ⟨plain, here⟩⟩
    · exact .inl ⟨before, split, here⟩
    · exact .inr ⟨plain, before, split, here⟩

end

theorem parse_nil_iff_report {output : Output} (nonzero : output.exitCode ≠ 0) :
    parse output = .ok [] ↔ ∃ report, report? (Text.trim output.stdout) = some (String.ofList report) ∧
      ∃ tags, Xml.Tagged [] report tags ∧ ∀ tag ∈ tags, tag.name ≠ "error".toList := by
  simp only [parse, nonzero, if_false, ← Xml.tags_iff]
  split
  · rename_i blank
    rw [blank]
    refine iff_of_false (by simp) ?_
    rintro ⟨_, found, -⟩
    cases found
  cases report? (Text.trim output.stdout) with
  | none => exact iff_of_false (by simp) (by simp)
  | some report =>
    obtain ⟨cs, rfl⟩ : ∃ cs, report = String.ofList cs := ⟨report.toList, (String.ofList_toList).symm⟩
    have only (other : List Char) : some (String.ofList cs) = some (String.ofList other) ↔ other = cs := by
      simp [← String.toList_inj, eq_comm]
    simp only [only, exists_eq_left, String.toList_ofList]
    cases Xml.tags [] cs with
    | error fault => exact iff_of_false (by simp) (by simp)
    | ok tags => simp [findingsIn_eq_nil_iff]

theorem parse_nil_iff {output : Output} (nonzero : output.exitCode ≠ 0) :
    parse output = .ok [] ↔ Silent output.stdout.toList := by
  obtain ⟨front, behind, front_blank, behind_blank, text⟩ := Text.exists_trim output.stdout
  have start : '<' ∉ behind := fun member => absurd (behind_blank _ member) (by decide)
  have stop : '>' ∉ behind := fun member => absurd (behind_blank _ member) (by decide)
  have located (report : List Char) : report? (Text.trim output.stdout) = some (String.ofList report) ↔ _ :=
    report?_iff front_blank behind_blank text
  rw [parse_nil_iff_report nonzero]
  constructor
  · rintro ⟨report, found, tags, tagged, errorless⟩
    obtain ⟨before, split, here⟩ := (located report).mp found
    exact ⟨before, report ++ behind, tags, split, here, (Xml.tagged_append_iff start stop).mpr tagged, errorless⟩
  · rintro ⟨before, whole, tags, split, here, tagged, errorless⟩
    have begins : '<' ∈ whole := by
      rcases here with ⟨leads, -⟩ | ⟨-, leads, -⟩ <;> exact leads.subset List.mem_cons_self
    obtain ⟨report, rfl⟩ : ∃ report, whole = report ++ behind := by
      rw [split, ← List.append_assoc] at text
      rcases List.append_eq_append_iff.mp text with ⟨more, -, rest⟩ | ⟨more, -, rest⟩
      · exact ⟨more, rest⟩
      · exact absurd (rest ▸ List.mem_append_right more begins) start
    exact ⟨report, (located report).mpr ⟨before, split, here⟩, tags, (Xml.tagged_append_iff start stop).mp tagged,
      errorless⟩

end Checkstyle

end PolicyLint.Tool
