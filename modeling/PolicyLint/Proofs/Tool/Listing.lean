import PolicyLint.Proofs.Path.FileName
import PolicyLint.Tool.Prettier
/-!
The files that Prettier lists as not formatted: a line for each, and a line at the end that sums up. Main
statement: the listed files are read back, in order and each once, but for those whose names begin as the
last line does.
-/
namespace PolicyLint.Tool.Prettier

open Text

/-! ### What is listed -/

/-- The last component has an extension that Prettier formats, in upper or lower case. -/
def Handled (name : String) : Prop :=
  ∃ (directory file : List Char) (extension : String), name.toList = directory ++ file ∧
    (directory = [] ∨ directory.getLast? = some '/') ∧ '/' ∉ file ∧
    Path.HasExtension file extension.toList ∧ asciiLower extension ∈ extensions

/-- A file name that fills a line. -/
structure Listed where
  name : String
  one_line : '\n' ∉ name.toList
  begins : ∃ c ∈ name.toList.head?, isBlank c = false
  ends : ∃ c ∈ name.toList.getLast?, isBlank c = false
  handled : Handled name

abbrev Unbroken := { cs : List Char // '\n' ∉ cs }

def marked (content : List Char) : List Char :=
  "[warn] ".toList ++ content

theorem marked_eq (content : List Char) :
    marked content = '[' :: 'w' :: 'a' :: 'r' :: 'n' :: ']' :: ' ' :: content := rfl

theorem marked_append (front back : List Char) : marked (front ++ back) = marked front ++ back :=
  (List.append_assoc _ _ _).symm

/-- The words that the summary begins with. -/
def summaryWords : List Char :=
  "Code style issues found".toList

/-- What Prettier writes to the error stream; after the last words the summary is free. -/
def listing (files : List Listed) (summary : Unbroken) : List (List Char) :=
  files.map (fun f => marked f.name.toList) ++ [marked (summaryWords ++ summary.1)]

def printed (files : List Listed) (summary : Unbroken) : Output :=
  ⟨"Checking formatting...\n", String.ofList ((listing files summary).flatMap (· ++ ['\n'])), 1⟩

/-! ### Extensions -/

theorem extension?_of_last {name : String} {directory file : List Char} {extension : String}
    (split : name.toList = directory ++ file)
    (inside : directory = [] ∨ directory.getLast? = some '/') (last : '/' ∉ file)
    (has : Path.HasExtension file extension.toList) (nonempty : extension ≠ "") :
    Path.extension? name = .some extension := by
  obtain ⟨stem, stemmed, rfl, undotted⟩ := has
  refine (Path.extension?_iff_endsIn nonempty).mpr
    ⟨directory, stem, [], ?_, inside, last, stemmed, undotted, nofun⟩
  simpa using split

theorem isFormatted_of_handled {name : String} (handled : Handled name) : isFormatted name = true := by
  obtain ⟨directory, file, extension, split, inside, last, has, known⟩ := handled
  have nonempty : extension ≠ "" := by
    rintro rfl
    revert known
    decide
  simp [isFormatted, extension?_of_last split inside last has nonempty, known]

/-! ### Lines -/

theorem trim_marked {content : List Char} (behind : List Char)
    (last : ∃ c ∈ (marked content).getLast?, isBlank c = false) :
    trim (String.ofList (marked content ++ behind)) =
      String.ofList (marked content ++ (dropBlanks behind.reverse).reverse) := by
  have kept := toList_trim_append [] behind ⟨'[', rfl, by decide⟩ last
  exact String.toList_inj.mp (by simpa [dropBlanks] using kept)

theorem trim_behind_mark {content : List Char} (behind : List Char)
    (first : ∃ c ∈ content.head?, isBlank c = false)
    (last : ∃ c ∈ content.getLast?, isBlank c = false) :
    trim (String.ofList (' ' :: (content ++ behind))) =
      String.ofList (content ++ (dropBlanks behind.reverse).reverse) := by
  have kept := toList_trim_append [' '] behind first last
  have blank : dropBlanks [' '] = [] := by decide
  exact String.toList_inj.mp (by simpa [blank] using kept)

/-- A line with a mark names what stands behind the mark, without blanks. -/
theorem listed?_marked {content : List Char} {file : String}
    (behind : trim (String.ofList (' ' :: content)) = file) :
    listed? (String.ofList (marked content)) =
      if startsWith "Code style" file then none else if isFormatted file then some file else none := by
  have mark : String.ofList (marked content) ≠ "" := by
    simp [marked_eq]
  have unchecked : startsWith "Checking" (String.ofList (marked content)) = false := by
    simp [startsWith, marked_eq, afterLead?]
  have stripped : dropLead? "[warn]" (String.ofList (marked content)) =
      some (String.ofList (' ' :: content)) := by
    simp [dropLead?, marked_eq, afterLead?]
  simp only [listed?, mark, unchecked, Bool.false_eq_true, or_self, if_false, stripped, Option.map_some,
    Option.getD_some, behind]

theorem getLast?_marked {content : List Char} (nonempty : content ≠ []) :
    (marked content).getLast? = content.getLast? :=
  List.getLast?_append_of_ne_nil _ nonempty

theorem listed?_file (f : Listed) : listed? (trim (String.ofList (marked f.name.toList))) =
    if startsWith "Code style" f.name then none else some f.name := by
  have nonempty : f.name.toList ≠ [] := by
    intro empty
    obtain ⟨c, first, -⟩ := f.begins
    simp [empty] at first
  have last : ∃ c ∈ (marked f.name.toList).getLast?, isBlank c = false := by
    rw [getLast?_marked nonempty]
    exact f.ends
  have line := trim_marked [] last
  have name := trim_behind_mark [] f.begins f.ends
  simp only [List.append_nil, List.reverse_nil, dropBlanks, List.dropWhile_nil,
    String.ofList_toList] at line name
  rw [line, listed?_marked name]
  simp [isFormatted_of_handled f.handled]

theorem listed?_summary (summary : Unbroken) :
    listed? (trim (String.ofList (marked (summaryWords ++ summary.1)))) = none := by
  have first : ∃ c ∈ summaryWords.head?, isBlank c = false := ⟨'C', rfl, by decide⟩
  have last : ∃ c ∈ summaryWords.getLast?, isBlank c = false := ⟨'d', rfl, by decide⟩
  have markedLast : ∃ c ∈ (marked summaryWords).getLast?, isBlank c = false := ⟨'d', rfl, by decide⟩
  have words (rest : List Char) :
      startsWith "Code style" (String.ofList (summaryWords ++ rest)) = true := by
    have lead : "Code style".toList <+: summaryWords := by decide
    have text : (String.ofList (summaryWords ++ rest)).toList = summaryWords ++ rest := String.toList_ofList
    rw [startsWith, text, afterLead?_isSome_iff]
    exact lead.trans (List.prefix_append _ _)
  rw [marked_append, trim_marked summary.1 markedLast, ← marked_append,
    listed?_marked (trim_behind_mark _ first last), if_pos (words _)]

theorem lines_printed (files : List Listed) (summary : Unbroken) :
    (lines ((printed files summary).stdout ++ "\n" ++ (printed files summary).stderr)).map trim =
      "Checking formatting..." :: "" ::
        (listing files summary).map (fun line => trim (String.ofList line)) := by
  have whole : ∀ line ∈ "Checking formatting...".toList :: [] :: listing files summary, '\n' ∉ line := by
    simp only [List.forall_mem_cons, listing, List.forall_mem_append, List.forall_mem_map]
    have mark : '\n' ∉ marked [] := by decide
    have words : '\n' ∉ marked summaryWords := by decide
    refine ⟨by decide, by decide, fun f _ => ?_, ?_, nofun⟩
    · exact List.not_mem_append mark f.one_line
    · rw [marked_append]
      exact List.not_mem_append words summary.2
  have text : (printed files summary).stdout ++ "\n" ++ (printed files summary).stderr =
      String.ofList (("Checking formatting...".toList :: [] :: listing files summary).flatMap
        (· ++ ['\n']) ++ []) := by
    apply String.toList_inj.mp
    simp [printed]
  rw [text, lines_ended whole (by simp)]
  simp [Function.comp_def, trim_chopped]
  decide

theorem findings_printed (files : List Listed) (summary : Unbroken) :
    findings (printed files summary) =
      (files.filter fun f => !startsWith "Code style" f.name).map fun f => finding f.name := by
  have exitCode : (printed files summary).exitCode ≠ 0 := Int.one_ne_zero
  have opening : listed? "Checking formatting..." = none := by decide
  have blank : listed? "" = none := by decide
  rw [findings, if_neg exitCode, lines_printed, List.filterMap_cons, opening, List.filterMap_cons, blank]
  simp only [Option.map_none, listing, List.map_append, List.map_map, List.filterMap_append,
    List.map_cons, List.map_nil, List.filterMap_cons, listed?_summary, List.filterMap_nil,
    List.append_nil, List.filterMap_map]
  induction files with
  | nil => rfl
  | cons f files ih =>
    rw [List.filterMap_cons, ih exitCode, Function.comp_apply, Function.comp_apply, listed?_file,
      List.filter_cons]
    cases startsWith "Code style" f.name with
    | false => rfl
    | true => rfl

/-- Of the listed files, those are reported, in order and without a position, whose names do not begin as
the summary does; so all are exactly when no name begins so. -/
theorem listing_read (files : List Listed) (summary : Unbroken) :
    parse (printed files summary) =
      .ok ((files.filter fun f => !startsWith "Code style" f.name).map fun f =>
        ⟨f.name, 0, 0, none, none, findingMessage, "warning", name⟩) ∧
    (parse (printed files summary) =
        .ok (files.map fun f => ⟨f.name, 0, 0, none, none, findingMessage, "warning", name⟩) ↔
      ∀ f ∈ files, startsWith "Code style" f.name = false) := by
  have read : parse (printed files summary) =
      .ok ((files.filter fun f => !startsWith "Code style" f.name).map fun f => finding f.name) := by
    rw [parse, findings_printed]
  refine ⟨read, ?_⟩
  rw [read]
  constructor
  · intro same f member
    have length := congrArg List.length (Except.ok.inj same)
    rw [List.length_map, List.length_map, List.length_filter_eq_length_iff] at length
    simpa using length f member
  · intro apart
    rw [List.filter_eq_self.mpr fun f member => by simp [apart f member]]
    rfl

/-- A file whose name begins as the summary does. -/
def guide : Listed where
  name := "Code style guide.MD"
  one_line := by decide
  begins := ⟨'C', rfl, by decide⟩
  ends := ⟨'D', rfl, by decide⟩
  handled := ⟨[], "Code style guide.MD".toList, "MD", rfl, .inl rfl, by decide,
    ⟨"Code style guide".toList, by decide, by decide, by decide⟩, by decide⟩

def inOneFile : Unbroken :=
  ⟨" in the above file. Run Prettier with --write to fix.".toList, by decide⟩

/-- It is listed, and the run passes. -/
theorem guide_overlooked :
    (printed [guide] inOneFile).stderr =
      "[warn] Code style guide.MD\n[warn] Code style issues found in the above file. Run Prettier with --write to fix.\n" ∧
    parse (printed [guide] inOneFile) = .ok [] ∧
    parse (printed [guide] inOneFile) ≠ .ok ([guide].map fun f => finding f.name) := by
  have begins : startsWith "Code style" guide.name = true := by decide
  have read : parse (printed [guide] inOneFile) = .ok [] := by
    rw [parse, findings_printed]
    simp [begins]
  refine ⟨by decide, read, ?_⟩
  rw [read]
  simp

end PolicyLint.Tool.Prettier
