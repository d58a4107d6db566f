import PolicyLint.Proofs.Tool.Files
import PolicyLint.Tool.Eslint
import PolicyLint.Tool.Pmd
/-!
The JSON reports of ESLint and PMD, as any document that a tool may print. Main statement: a report is read
in full, file by file and entry by entry, or not at all.
-/
namespace PolicyLint.Tool

open Document Written

namespace Eslint

/-! ### ESLint -/

def levelName (level : Nat) : String :=
  match level with
  | 2 => "error"
  | 1 => "warning"
  | _ => "info"

def messageNames : List String :=
  ["ruleId", "severity", "message", "line", "column", "endLine", "endColumn"]

/-- What the members of a message make of it. -/
structure MessageOf (given : Given) (m : Message) : Prop where
  ruleId : given.Takes "ruleId" (Nullable IsText) none m.ruleId
  severity : given.Takes "severity" (IsNatural 8) 0 m.severity
  message : given.Needs "message" IsText m.message
  line : given.Takes "line" (IsNatural 32) 0 m.line
  column : given.Takes "column" (IsNatural 32) 0 m.column
  endLine : given.Takes "endLine" (Nullable (IsNatural 32)) none m.endLine
  endColumn : given.Takes "endColumn" (Nullable (IsNatural 32)) none m.endColumn

/-- A message about a file, and the finding that it is. -/
def IsMessage (file : String) (w : Written) (f : Finding) : Prop :=
  ∃ given, w.given? messageNames = some given ∧ ∃ ruleId level,
    MessageOf given ⟨ruleId, level, f.message, f.line, f.column, f.endLine, f.endColumn⟩ ∧
    f.file = file ∧ f.severity = levelName level ∧ f.ruleId = ruleId.getD ""

abbrev IsReport : Written → List Finding → Prop :=
  AreFiles "filePath" "messages" IsMessage

theorem levelWord_eq (level : Nat) : levelWord level = levelName level := by
  unfold levelWord levelName
  split
  · simp_all
  · split <;> simp_all

theorem message_fits (k : Nat) : Message.record.Fits k MessageOf := by
  have text := Fits.string k
  have byte : Fits k (natural 8) (IsNatural 8) := Fits.natural k (by decide)
  have word : Fits k (natural 32) (IsNatural 32) := Fits.natural k (by decide)
  have ruleId : (Record.may "ruleId" string).Fits k _ := .may text fun _ _ => isNull_of_isText
  have end? {name : String} : (Record.may name (natural 32)).Fits k _ :=
    .may word fun _ _ => isNull_of_isNatural
  have whole : Message.record.Fits k _ := ((((((ruleId.map Message.mk).seq (.takes byte 0)).seq
    (.needs text)).seq (.takes word 0)).seq (.takes word 0)).seq end?).seq end?
  refine whole.congr fun given m => ?_
  constructor
  · rintro ⟨_, ⟨_, ⟨_, ⟨_, ⟨_, ⟨_, ⟨_, ruleId, rfl⟩, _, severity, rfl⟩, _, message, rfl⟩, _, line, rfl⟩, _,
      column, rfl⟩, _, endLine, rfl⟩, _, endColumn, rfl⟩
    exact ⟨ruleId, severity, message, line, column, endLine, endColumn⟩
  · rintro ⟨ruleId, severity, message, line, column, endLine, endColumn⟩
    exact ⟨_, ⟨_, ⟨_, ⟨_, ⟨_, ⟨_, ⟨_, ruleId, rfl⟩, _, severity, rfl⟩, _, message, rfl⟩, _, line, rfl⟩, _,
      column, rfl⟩, _, endLine, rfl⟩, _, endColumn, rfl⟩

/-- A message that is read. -/
def ReadsMessage (w : Written) (m : Message) : Prop :=
  ∃ given, w.given? Message.record.names = some given ∧ MessageOf given m

theorem isMessage_iff (file : String) (w : Written) (f : Finding) :
    IsMessage file w f ↔ ∃ m, ReadsMessage w m ∧ f = m.finding file := by
  constructor
  · rintro ⟨given, has, ruleId, level, holds, rfl, severity, rule⟩
    refine ⟨_, ⟨given, has, holds⟩, ?_⟩
    obtain ⟨file, line, column, endLine, endColumn, message, word, id⟩ := f
    obtain rfl : word = levelName level := severity
    obtain rfl : id = ruleId.getD "" := rule
    simp only [Message.finding, levelWord_eq]
  · rintro ⟨m, ⟨given, has, holds⟩, rfl⟩
    exact ⟨given, has, m.ruleId, m.severity, holds, rfl, levelWord_eq m.severity, rfl⟩

/-- The messages of a file that are read. -/
abbrev ReadsResult : Written → FileResult → Prop :=
  ReadsFile "filePath" "messages" FileResult.mk ReadsMessage

theorem isReport_iff (w : Written) (found : List Finding) :
    IsReport w found ↔ ∃ results, w.Lists ReadsResult results ∧ found = results.flatMap FileResult.findings :=
  areFiles_iff isMessage_iff fun _ _ => rfl

theorem decodeText_report (w : Written) (found : List Finding) :
    (∃ results, decodeText (list (FileResult.record.decoder "FileResult")) (String.ofList w.text) =
      .ok results ∧ found = results.flatMap FileResult.findings) ↔ IsReport w found := by
  have message : Fits 1 _ ReadsMessage := (message_fits 0).decoder (by decide) "Message"
  have files : Fits 4 _ (Lists ReadsResult) := files_fits message (by decide) FileResult.mk "FileResult"
  rw [isReport_iff]
  exact exists_congr fun results => and_congr_left fun _ => decodeText_iff files (by decide) w results

theorem isReport_nil (around : Around) (inner : Gap) (found : List Finding) :
    IsReport (.list around inner []) found ↔ found = [] := by
  constructor
  · rintro ⟨each, ⟨items, listed, every⟩, rfl⟩
    obtain rfl := Option.some.inj listed
    obtain rfl := List.forall₂_nil_left_iff.mp every
    rfl
  · rintro rfl
    exact ⟨[], ⟨[], rfl, .nil⟩, rfl⟩

theorem isReport_bare (w : Written) : IsReport w.bare = IsReport w := by
  cases w <;> rfl

/-- The numbers of a message are those that ESLint may give. -/
structure InRange (m : Message) : Prop where
  severity : m.severity < Nat.pow 2 8
  line : m.line < Nat.pow 2 32
  column : m.column < Nat.pow 2 32
  endLine : ∀ n ∈ m.endLine, n < Nat.pow 2 32
  endColumn : ∀ n ∈ m.endColumn, n < Nat.pow 2 32

def written (m : Message) : Written :=
  .ofMembers [("ruleId", .ofOption .ofText m.ruleId), ("severity", .ofNatural m.severity),
    ("message", .ofText m.message), ("line", .ofNatural m.line), ("column", .ofNatural m.column),
    ("endLine", .ofOption .ofNatural m.endLine), ("endColumn", .ofOption .ofNatural m.endColumn)]

theorem readsMessage_written {m : Message} (fits : InRange m) : ReadsMessage (written m) m := by
  have once : messageNames.Nodup := by decide
  refine ⟨_, given?_ofMembers (by exact once) _, ?_⟩
  constructor
  · exact .inl ⟨_, rfl, nullable_ofOption fun s _ => isText_ofText s⟩
  · exact .inl ⟨_, rfl, isNatural_ofNatural fits.severity⟩
  · exact ⟨_, rfl, isText_ofText m.message⟩
  · exact .inl ⟨_, rfl, isNatural_ofNatural fits.line⟩
  · exact .inl ⟨_, rfl, isNatural_ofNatural fits.column⟩
  · exact .inl ⟨_, rfl, nullable_ofOption fun n has => isNatural_ofNatural (fits.endLine n has)⟩
  · exact .inl ⟨_, rfl, nullable_ofOption fun n has => isNatural_ofNatural (fits.endColumn n has)⟩

/-- Every list of files with messages has a report. -/
theorem exists_report (results : List FileResult) (fits : ∀ r ∈ results, ∀ m ∈ r.messages, InRange m) :
    ∃ w, IsReport w (results.flatMap FileResult.findings) := by
  let write (r : FileResult) := writtenFile "filePath" "messages" written r.filePath r.messages
  refine ⟨.ofList write results, (isReport_iff _ _).mpr ⟨results, lists_ofList fun r member => ?_, rfl⟩⟩
  have each := fun m listed => readsMessage_written (fits r member m listed)
  exact readsFile_written (by decide) each r.filePath

theorem parse_report (w : Written) (front behind : Blanks) (stderr : String) (exitCode : Int) :
    AllOrNothing name (parse ⟨String.ofList (front.1 ++ (w.text ++ behind.1)), stderr, exitCode⟩)
      (IsReport w) := by
  have decoded := decodeText_report w.bare
  unfold parse
  simp only [trim_blanks]
  split
  · rename_i short
    have empty : String.ofList w.bare.text = String.ofList (Written.list bareAround noGap []).text :=
      short.resolve_left (ofList_bare_ne w)
    refine allOrNothing_of_ok fun found => ?_
    rw [← isReport_bare, ← decoded, empty, decodeText_report, isReport_nil]
  · rw [← isReport_bare]
    exact allOrNothing_of_decoded decoded (fun r done => by rw [done]) fun e failed => ⟨_, by rw [failed]⟩

end Eslint

namespace Pmd

/-! ### PMD -/

def levelName (priority : Nat) : String :=
  match priority with
  | 1 | 2 => "error"
  | 5 => "info"
  | _ => "warning"

def violationNames : List String :=
  ["beginline", "begincolumn", "endline", "endcolumn", "description", "rule", "priority"]

/-- What the members of a violation make of it. -/
structure ViolationOf (given : Given) (v : ReportedFinding) : Prop where
  beginLine : given.Takes "beginline" (IsNatural 32) 0 v.beginLine
  beginColumn : given.Takes "begincolumn" (IsNatural 32) 0 v.beginColumn
  endLine : given.Wants "endline" (IsNatural 32) v.endLine
  endColumn : given.Wants "endcolumn" (IsNatural 32) v.endColumn
  description : given.Takes "description" IsText "" v.description
  rule : given.Takes "rule" IsText "" v.rule
  priority : given.Takes "priority" (IsNatural 8) 0 v.priority

/-- A violation in a file, and the finding that it is. -/
def IsViolation (file : String) (w : Written) (f : Finding) : Prop :=
  ∃ given, w.given? violationNames = some given ∧ ∃ priority,
    ViolationOf given ⟨f.line, f.column, f.endLine, f.endColumn, f.message, f.ruleId, priority⟩ ∧
    f.file = file ∧ f.severity = levelName priority

/-- A file that could not be processed, and why. -/
def IsProblem (w : Written) (problem : ProcessingError) : Prop :=
  ∃ given, w.given? ["filename", "message"] = some given ∧
    given.Takes "filename" IsText "" problem.filename ∧ given.Takes "message" IsText "" problem.message

/-- A report with its findings. The problems may be any, but they must be readable. -/
def IsReport (w : Written) (found : List Finding) : Prop :=
  ∃ given, w.given? ["files", "processingErrors"] = some given ∧
    given.Takes "files" (AreFiles "filename" "violations" IsViolation) [] found ∧
    ∃ problems, given.Takes "processingErrors" (Lists IsProblem) [] problems

theorem severityWord_eq (priority : Nat) : severityWord priority = levelName priority := by
  unfold severityWord levelName
  split
  · rename_i high
    rcases high with rfl | rfl <;> rfl
  · split
    · rename_i low
      subst low
      rfl
    · split <;> simp_all

theorem violation_fits (k : Nat) : ReportedFinding.record.Fits k ViolationOf := by
  have text := Fits.string k
  have byte : Fits k (natural 8) (IsNatural 8) := Fits.natural k (by decide)
  have word : Fits k (natural 32) (IsNatural 32) := Fits.natural k (by decide)
  have end? {name : String} : (Record.wants name (natural 32)).Fits k _ :=
    .wants word fun _ _ => isNull_of_isNatural
  have beginLine : (Record.takes "beginline" (natural 32) 0).Fits k _ := .takes word 0
  have whole : ReportedFinding.record.Fits k _ := ((((((beginLine.map ReportedFinding.mk).seq
    (.takes word 0)).seq end?).seq end?).seq (.takes text "")).seq (.takes text "")).seq (.takes byte 0)
  refine whole.congr fun given v => ?_
  constructor
  · rintro ⟨_, ⟨_, ⟨_, ⟨_, ⟨_, ⟨_, ⟨_, beginLine, rfl⟩, _, beginColumn, rfl⟩, _, endLine, rfl⟩, _, endColumn,
      rfl⟩, _, description, rfl⟩, _, rule, rfl⟩, _, priority, rfl⟩
    exact ⟨beginLine, beginColumn, endLine, endColumn, description, rule, priority⟩
  · rintro ⟨beginLine, beginColumn, endLine, endColumn, description, rule, priority⟩
    exact ⟨_, ⟨_, ⟨_, ⟨_, ⟨_, ⟨_, ⟨_, beginLine, rfl⟩, _, beginColumn, rfl⟩, _, endLine, rfl⟩, _, endColumn,
      rfl⟩, _, description, rfl⟩, _, rule, rfl⟩, _, priority, rfl⟩

theorem problem_fits (k : Nat) : ProcessingError.record.Fits k fun given problem =>
    given.Takes "filename" IsText "" problem.filename ∧ given.Takes "message" IsText "" problem.message := by
  have text := Fits.string k
  have filename : (Record.takes "filename" string "").Fits k _ := .takes text ""
  have whole : ProcessingError.record.Fits k _ := (filename.map ProcessingError.mk).seq (.takes text "")
  refine whole.congr fun given problem => ?_
  constructor
  · rintro ⟨_, ⟨_, filename, rfl⟩, _, message, rfl⟩
    exact ⟨filename, message⟩
  · rintro ⟨filename, message⟩
    exact ⟨_, ⟨_, filename, rfl⟩, _, message, rfl⟩

/-- A violation that is read. -/
def ReadsViolation (w : Written) (v : ReportedFinding) : Prop :=
  ∃ given, w.given? ReportedFinding.record.names = some given ∧ ViolationOf given v

theorem isViolation_iff (file : String) (w : Written) (f : Finding) :
    IsViolation file w f ↔ ∃ v, ReadsViolation w v ∧ f = v.finding file := by
  constructor
  · rintro ⟨given, has, priority, holds, rfl, severity⟩
    refine ⟨_, ⟨given, has, holds⟩, ?_⟩
    obtain ⟨file, line, column, endLine, endColumn, message, word, id⟩ := f
    obtain rfl : word = levelName priority := severity
    simp only [ReportedFinding.finding, severityWord_eq]
  · rintro ⟨v, ⟨given, has, holds⟩, rfl⟩
    exact ⟨given, has, v.priority, holds, rfl, severityWord_eq v.priority⟩

/-- The violations of a file that are read. -/
abbrev ReadsReport : Written → FileReport → Prop :=
  ReadsFile "filename" "violations" FileReport.mk ReadsViolation

theorem areReports_iff (w : Written) (found : List Finding) :
    AreFiles "filename" "violations" IsViolation w found ↔
      ∃ reports, w.Lists ReadsReport reports ∧ found = reports.flatMap FileReport.findings :=
  areFiles_iff isViolation_iff fun _ _ => rfl

/-- What the members of a report make of it. -/
def ReportOf (given : Given) (report : Report) : Prop :=
  given.Takes "files" (Lists ReadsReport) [] report.files ∧
    given.Takes "processingErrors" (Lists IsProblem) [] report.processingErrors

theorem report_fits : Report.record.Fits 4 ReportOf := by
  have violation : Fits 1 _ ReadsViolation := (violation_fits 0).decoder (by decide) "Finding"
  have files : Fits 4 _ (Lists ReadsReport) := files_fits violation (by decide) FileReport.mk "FileReport"
  have problems : Fits 4 _ (Lists IsProblem) := ((problem_fits 2).decoder (by decide) "ProcessingError").list
  have listed : (Record.takes "files" (list (FileReport.record.decoder "FileReport")) []).Fits 4 _ :=
    .takes files []
  have whole : Report.record.Fits 4 _ := (listed.map Report.mk).seq (.takes problems [])
  refine whole.congr fun given report => ?_
  constructor
  · rintro ⟨_, ⟨_, files, rfl⟩, _, problems, rfl⟩
    exact ⟨files, problems⟩
  · rintro ⟨files, problems⟩
    exact ⟨_, ⟨_, files, rfl⟩, _, problems, rfl⟩

theorem decodeText_report (w : Written) (found : List Finding) :
    (∃ report, decodeText (Report.record.decoder "Report") (String.ofList w.text) = .ok report ∧
      found = report.files.flatMap FileReport.findings) ↔ IsReport w found := by
  simp only [decodeText_iff (report_fits.decoder (by decide) "Report") (by decide)]
  constructor
  · rintro ⟨⟨reports, problems⟩, ⟨given, has, files, errors⟩, rfl⟩
    exact ⟨given, has, (takes_map_iff areReports_iff).mpr ⟨reports, files, rfl⟩, problems, errors⟩
  · rintro ⟨given, has, files, problems, errors⟩
    obtain ⟨reports, read, rfl⟩ := (takes_map_iff (a := []) areReports_iff).mp files
    exact ⟨⟨reports, problems⟩, ⟨given, has, read, errors⟩, rfl⟩

/-- The numbers of a violation are those that PMD may give. -/
structure InRange (v : ReportedFinding) : Prop where
  beginLine : v.beginLine < Nat.pow 2 32
  beginColumn : v.beginColumn < Nat.pow 2 32
  endLine : ∀ n ∈ v.endLine, n < Nat.pow 2 32
  endColumn : ∀ n ∈ v.endColumn, n < Nat.pow 2 32
  priority : v.priority < Nat.pow 2 8

def written (v : ReportedFinding) : Written :=
  .ofMembers [("beginline", .ofNatural v.beginLine), ("begincolumn", .ofNatural v.beginColumn),
    ("endline", .ofOption .ofNatural v.endLine), ("endcolumn", .ofOption .ofNatural v.endColumn),
    ("description", .ofText v.description), ("rule", .ofText v.rule), ("priority", .ofNatural v.priority)]

def writtenProblem (problem : ProcessingError) : Written :=
  .ofMembers [("filename", .ofText problem.filename), ("message", .ofText problem.message)]

theorem readsViolation_written {v : ReportedFinding} (fits : InRange v) : ReadsViolation (written v) v := by
  have once : violationNames.Nodup := by decide
  refine ⟨_, given?_ofMembers (by exact once) _, ?_⟩
  constructor
  · exact .inl ⟨_, rfl, isNatural_ofNatural fits.beginLine⟩
  · exact .inl ⟨_, rfl, isNatural_ofNatural fits.beginColumn⟩
  · exact .inl ⟨_, rfl, nullable_ofOption fun n has => isNatural_ofNatural (fits.endLine n has)⟩
  · exact .inl ⟨_, rfl, nullable_ofOption fun n has => isNatural_ofNatural (fits.endColumn n has)⟩
  · exact .inl ⟨_, rfl, isText_ofText v.description⟩
  · exact .inl ⟨_, rfl, isText_ofText v.rule⟩
  · exact .inl ⟨_, rfl, isNatural_ofNatural fits.priority⟩

theorem isProblem_written (problem : ProcessingError) : IsProblem (writtenProblem problem) problem := by
  have once : ["filename", "message"].Nodup := by decide
  exact ⟨_, given?_ofMembers (by exact once) _, .inl ⟨_, rfl, isText_ofText problem.filename⟩,
    .inl ⟨_, rfl, isText_ofText problem.message⟩⟩

/-- Every list of files with violations has a report, with any problems in it. -/
theorem exists_report (reports : List FileReport) (problems : List ProcessingError)
    (fits : ∀ r ∈ reports, ∀ v ∈ r.violations, InRange v) :
    ∃ inner members, IsReport (.object bareAround inner members) (reports.flatMap FileReport.findings) := by
  let write (r : FileReport) := writtenFile "filename" "violations" written r.filename r.violations
  have once : ["files", "processingErrors"].Nodup := by decide
  have files : AreFiles "filename" "violations" IsViolation (.ofList write reports)
      (reports.flatMap FileReport.findings) := by
    refine (areReports_iff _ _).mpr ⟨reports, lists_ofList fun r member => ?_, rfl⟩
    have each := fun v listed => readsViolation_written (fits r member v listed)
    exact readsFile_written (by decide) each r.filename
  let members : List (String × Written) :=
    [("files", .ofList write reports), ("processingErrors", .ofList writtenProblem problems)]
  have given := given?_ofMembers (show (members.map Prod.fst).Nodup from once) ["files", "processingErrors"]
  exact ⟨_, _, _, given, .inl ⟨_, rfl, files⟩, problems,
    .inl ⟨_, rfl, lists_ofList fun problem _ => isProblem_written problem⟩⟩

theorem parse_report (around : Around) (inner : Gap) (members : List (Label × Written)) {before : List Char}
    (free : '\x7b' ∉ before) (behind : Blanks) (stderr : String) (exitCode : Int) :
    let w := Written.object around inner members
    AllOrNothing name (parse ⟨String.ofList (before ++ (w.text ++ behind.1)), stderr, exitCode⟩)
      (IsReport w) := by
  intro w
  have located := from?_object around inner members free behind
  have nonempty : Text.trim (String.ofList (before ++ (w.text ++ behind.1))) ≠ "" := by
    intro empty
    rw [empty] at located
    cases located
  unfold parse
  simp only [if_neg nonempty, w, located]
  exact allOrNothing_of_decoded (decodeText_report w.bare) (fun r done => by rw [done])
    fun e failed => ⟨_, by rw [failed]⟩

end Pmd

/-! ### Both -/

/-- A report of PMD with a file or a violation that is not what it should be. -/
def Pmd.IsSpoilt (w : Written) : Prop :=
  ∃ given, w.given? ["files", "processingErrors"] = some given ∧
    ∃ files, given.find "files" = some files ∧ Spoilt "filename" "violations" Pmd.IsViolation files

theorem Pmd.not_isReport {w : Written} (spoilt : Pmd.IsSpoilt w) (found : List Finding) :
    ¬ Pmd.IsReport w found := by
  obtain ⟨given, has, files, here, spoilt⟩ := spoilt
  rintro ⟨given', has', taken, -⟩
  obtain rfl := Option.some.inj (has.symm.trans has')
  rcases taken with ⟨files', here', are⟩ | ⟨absent, -⟩
  · obtain rfl := Option.some.inj (here.symm.trans here')
    exact not_areFiles spoilt found are
  · cases absent.symm.trans here

/-- A report is read in full or not at all. -/
theorem reports_decoded :
    (∀ (w : Written) (front behind : Blanks) (stderr : String) (exitCode : Int),
      let outcome := Eslint.parse ⟨String.ofList (front.1 ++ (w.text ++ behind.1)), stderr, exitCode⟩
      AllOrNothing Eslint.name outcome (Eslint.IsReport w) ∧
        (Spoilt "filePath" "messages" Eslint.IsMessage w →
          ∃ message, outcome = .error (.parse Eslint.name message))) ∧
    ∀ (around : Around) (inner : Gap) (members : List (Label × Written))
      (before : { cs : List Char // '\x7b' ∉ cs }) (behind : Blanks) (stderr : String) (exitCode : Int),
      let w := Written.object around inner members
      let outcome := Pmd.parse ⟨String.ofList (before.1 ++ (w.text ++ behind.1)), stderr, exitCode⟩
      AllOrNothing Pmd.name outcome (Pmd.IsReport w) ∧
        (Pmd.IsSpoilt w → ∃ message, outcome = .error (.parse Pmd.name message)) := by
  constructor
  · intro w front behind stderr exitCode outcome
    have whole := Eslint.parse_report w front behind stderr exitCode
    exact ⟨whole, fun spoilt => whole.nothing (not_areFiles spoilt)⟩
  · intro around inner members before behind stderr exitCode w outcome
    have whole := Pmd.parse_report around inner members before.2 behind stderr exitCode
    exact ⟨whole, fun spoilt => whole.nothing (Pmd.not_isReport spoilt)⟩

/-- A report of one message about one file. -/
def Eslint.single (message : List (String × Written)) : Written :=
  .ofList id [writtenFile "filePath" "messages" id "a.js" [.ofMembers message]]

/-- A message with its text alone is a finding. Without it, or without a file's path, there is an error. -/
theorem reports_decoded_single :
    Eslint.parse ⟨String.ofList ([] ++ ((Eslint.single [("message", .ofText "m")]).text ++ [])), "", 1⟩ =
        .ok [⟨"a.js", 0, 0, none, none, "m", "info", ""⟩] ∧
      (∃ message, Eslint.parse ⟨String.ofList
        ([] ++ ((Eslint.single [("line", .ofNatural 1)]).text ++ [])), "", 1⟩ =
          .error (.parse Eslint.name message)) ∧
      ∃ message, Pmd.parse ⟨String.ofList
        ([] ++ ((Written.ofMembers [("files", .ofList id [.ofMembers []])]).text ++ [])), "", 4⟩ =
          .error (.parse Pmd.name message) := by
  have whole (w : Written) := reports_decoded.1 w ⟨[], nofun⟩ ⟨[], nofun⟩ "" 1
  refine ⟨?_, ?_, ?_⟩
  · refine ((whole _).1.all _).mpr ⟨[[_]], ⟨_, rfl, .cons ?_ .nil⟩, rfl⟩
    refine ⟨_, given?_ofMembers (by decide) _, "a.js", ⟨_, rfl, isText_ofText "a.js"⟩, .inl ⟨_, rfl, ?_⟩⟩
    refine ⟨_, rfl, .cons ⟨_, given?_ofMembers (by decide) _, none, 0, ?_, rfl, rfl, rfl⟩ .nil⟩
    exact ⟨.inr ⟨rfl, rfl⟩, .inr ⟨rfl, rfl⟩, ⟨_, rfl, isText_ofText "m"⟩, .inr ⟨rfl, rfl⟩, .inr ⟨rfl, rfl⟩,
      .inr ⟨rfl, rfl⟩, .inr ⟨rfl, rfl⟩⟩
  · have listed (w : Written) : Has (.ofList id [w]) w := ⟨_, rfl, List.mem_singleton_self w⟩
    refine (whole _).2 (.entry _ (.ofMembers [("line", .ofNatural 1)]) (listed _) ?_ ?_)
    · exact ⟨_, given?_ofMembers (by decide) _, _, rfl, _, rfl, List.mem_singleton_self _⟩
    · rintro under f ⟨given, has, ruleId, level, holds, -⟩
      obtain rfl := Option.some.inj ((given?_ofMembers (by decide) _).symm.trans has)
      obtain ⟨_, missing, -⟩ := holds.message
      cases missing
  · refine (reports_decoded.2 bareAround noGap _ ⟨[], nofun⟩ ⟨[], nofun⟩ "" 4).2
      ⟨_, given?_ofMembers (by decide) _, _, rfl, .file (.ofMembers []) ⟨_, rfl, List.mem_singleton_self _⟩ ?_⟩
    rintro found ⟨given, has, file, ⟨_, missing, -⟩, -⟩
    obtain rfl := Option.some.inj ((given?_ofMembers (by decide) _).symm.trans has)
    cases missing

/-- A file need not be an object: a list of its path and its messages is read too. -/
theorem list_read_as_file :
    Eslint.parse ⟨"[[\"a.js\"]]", "", 1⟩ = .ok [] ∧
      ¬ ∀ w part : Written, Has w part → (∀ around inner members, part ≠ .object around inner members) →
        ∃ failure, Eslint.parse ⟨String.ofList w.text, "", 1⟩ = .error failure := by
  let file := Written.ofList .ofText ["a.js"]
  let report := Written.ofList id [file]
  have text : String.ofList ([] ++ (report.text ++ [])) = "[[\"a.js\"]]" := by decide
  have read : Eslint.IsReport report [] := by
    refine ⟨[[]], ⟨[file], rfl, .cons ?_ .nil⟩, rfl⟩
    exact ⟨_, rfl, "a.js", ⟨_, rfl, isText_ofText "a.js"⟩, .inr ⟨rfl, rfl⟩⟩
  have passes : Eslint.parse ⟨"[[\"a.js\"]]", "", 1⟩ = .ok [] := by
    rw [← text]
    exact ((Eslint.parse_report report ⟨[], nofun⟩ ⟨[], nofun⟩ "" 1).all []).mpr read
  refine ⟨passes, fun wrong => ?_⟩
  obtain ⟨failure, failed⟩ := wrong report file ⟨[file], rfl, List.mem_singleton_self file⟩ nofun
  rw [show String.ofList report.text = "[[\"a.js\"]]" by decide, passes] at failed
  cases failed

end PolicyLint.Tool
