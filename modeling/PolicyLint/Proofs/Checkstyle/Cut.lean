import PolicyLint.Proofs.Checkstyle.Audit
/-!
Reports that are cut off. Main statement: a report is refused when the cut is in a mark; cut anywhere
else, it passes for a shorter one.
-/
namespace PolicyLint.Tool.Checkstyle

open Xml

theorem findingsIn_prefix (file : String) {front tags : List Tag} (leads : front <+: tags) :
    findingsIn file front <+: findingsIn file tags := by
  induction front generalizing file tags with
  | nil => exact List.nil_prefix
  | cons tag front ih =>
    obtain ⟨rest, rfl⟩ := leads
    have further (file : String) : findingsIn file front <+: findingsIn file (front ++ rest) :=
      ih file (List.prefix_append front rest)
    rw [List.cons_append, findingsIn, findingsIn]
    split
    · exact further _
    split
    · exact List.cons_prefix_cons.mpr ⟨rfl, further file⟩
    · exact further file

theorem findingsOf_prefix (front back : List Piece) : findingsOf front <+: findingsOf (front ++ back) := by
  rw [findingsOf, findingsOf, tagsOf_append]
  exact findingsIn_prefix "" (List.prefix_append _ _)

/-- What is left of a report begins with markup, so trimming takes from its end only. -/
theorem toList_trim_cut {s : Sheet} {cs behind back : List Char} (cut : s.text = cs ++ behind ++ back)
    (nonempty : cs ≠ []) (last : ∃ c ∈ cs.getLast?, Text.isBlank c = false) :
    (Text.trim (String.ofList (cs ++ behind))).toList = cs ++ (Text.dropBlanks behind.reverse).reverse := by
  have first : cs.head? = .some '<' := by
    have head := s.head?_text
    rwa [cut, List.append_assoc, List.head?_append_of_ne_nil _ nonempty] at head
  exact Text.toList_trim_append [] behind ⟨'<', first, by decide⟩ last

/-- What is left of a report is read without the blanks at its end, when it can be told to be one. -/
theorem parse_cut (s : Sheet) {cs behind back : List Char} (cut : s.text = cs ++ behind ++ back)
    (nonempty : cs ≠ []) (last : ∃ c ∈ cs.getLast?, Text.isBlank c = false) (stderr : String) (exitCode : Int) :
    ∃ kept, kept <+: behind ∧
      (s.lead <+: cs ++ kept → parse ⟨String.ofList (cs ++ behind), stderr, exitCode⟩ =
        said (cs ++ kept)) ∧
      (¬ s.lead <+: cs ++ kept →
        ∃ message, parse ⟨String.ofList (cs ++ behind), stderr, exitCode⟩ = .error (.parse name message)) := by
  obtain ⟨kept, keptEq⟩ : ∃ kept, kept = (Text.dropBlanks behind.reverse).reverse := ⟨_, rfl⟩
  have keptPrefix : kept <+: behind := keptEq ▸ Text.dropBlanks_reverse_prefix behind
  have trimmed := toList_trim_cut cut nonempty last
  rw [← keptEq] at trimmed
  have someKept : cs ++ kept ≠ [] := by
    simp [nonempty]
  have within : cs ++ kept <+: s.text := by
    rw [cut, List.append_assoc]
    exact (List.prefix_append_right_inj cs).mpr (keptPrefix.trans (List.prefix_append _ _))
  refine ⟨kept, keptPrefix, ?_, ?_⟩
  · intro leads
    have withinMore : cs ++ kept <+: s.text ++ [] := by rwa [List.append_nil]
    have found : report? (String.ofList (cs ++ kept)) = .some (String.ofList (cs ++ kept)) :=
      report?_found s noText noText leads withinMore
    rw [parse_trimmed trimmed someKept, found, Option.elim_some, String.toList_ofList]
  · intro short
    exact ⟨_, by rw [parse_trimmed trimmed someKept, report?_short s within short, Option.elim_none]⟩

/-- A report that is cut off in a mark is refused. -/
theorem parse_in_mark (s : Sheet) {done rest : List Piece} {next : Piece} {inMark more back : List Char}
    (split : s.pieces = done ++ next :: rest) (body : next.mark.body = inMark ++ more) (short : more ≠ [])
    (cut : s.text = written done ++ (next.before.1 ++ '<' :: inMark) ++ back) (stderr : String)
    (exitCode : Int) :
    ∃ message, parse ⟨String.ofList (written done ++ (next.before.1 ++ '<' :: inMark)), stderr, exitCode⟩ =
      .error (.parse name message) := by
  have apart : written done ++ (next.before.1 ++ '<' :: inMark) =
      (written done ++ (next.before.1 ++ ['<'])) ++ inMark := by
    simp
  rw [apart] at cut ⊢
  -- trimming may take blanks from within the mark; it is cut off all the same
  obtain ⟨kept, ⟨blanks, rfl⟩, told, untold⟩ :=
    parse_cut s cut (by simp) ⟨'<', by simp [← List.append_assoc], by decide⟩ stderr exitCode
  by_cases leads : s.lead <+: written done ++ (next.before.1 ++ ['<']) ++ kept
  · obtain ⟨opened, nested⟩ := Nested.exists_open? (split ▸ s.nested_pieces)
    rw [List.append_assoc] at body
    obtain ⟨fault, refused⟩ := tags_in_mark opened next.before body (by simp [short])
    have read : tags [] (written done ++ (next.before.1 ++ ['<']) ++ kept) = .error fault := by
      rw [List.append_assoc, List.append_assoc, List.singleton_append, tags_written nested, refused]
      rfl
    exact ⟨fault.message, by rw [told leads, said, read]; rfl⟩
  · exact untold leads

/-- A report that is cut off between marks passes for the findings before the cut. -/
theorem parse_between_marks (s : Sheet) {done rest : List Piece} {part back : List Char}
    (split : s.pieces = done ++ rest) (begun : done ≠ []) (plain : '<' ∉ part)
    (cut : s.text = written done ++ part ++ back) (stderr : String) (exitCode : Int) :
    parse ⟨String.ofList (written done ++ part), stderr, exitCode⟩ = .ok (findingsOf done) := by
  have ends := getLast?_written begun
  have nonempty : written done ≠ [] := by
    intro empty
    rw [empty] at ends
    cases ends
  obtain ⟨kept, ⟨blanks, rfl⟩, told, -⟩ := parse_cut s cut nonempty ⟨'>', ends, by decide⟩ stderr exitCode
  have leads : s.lead <+: written done ++ kept := by
    obtain ⟨first, others, begins, lead⟩ := s.exists_pieces
    obtain ⟨p, done, rfl⟩ := List.exists_cons_of_ne_nil begun
    rw [begins, List.cons_append] at split
    obtain ⟨rfl, -⟩ := List.cons.inj split
    rw [written, List.flatMap_cons, List.append_assoc]
    exact lead.trans (List.prefix_append _ _)
  obtain ⟨opened, nested⟩ := Nested.exists_open? (split ▸ s.nested_pieces)
  have read : tags [] (written done ++ kept) = .ok (tagsOf done) := by
    have plainKept : '<' ∉ kept := fun member => plain (List.mem_append_left _ member)
    rw [tags_written nested, tags_plain opened plainKept]
    simp
  rw [told leads, said, read, findingsOf]
  rfl

/-- A report that is cut off anywhere: cut in a mark it is refused, cut between marks it passes, with the
findings before the cut. -/
theorem cut_report_read (s : Sheet) {front back : List Char} (cut : s.text = front ++ back)
    (short : back ≠ []) (visible : ∃ c ∈ front, Text.isBlank c = false) (stderr : String) (exitCode : Int) :
    ∃ done next rest part, s.pieces = done ++ next :: rest ∧ front = written done ++ part ∧
      part <+: next.text ∧ part ≠ next.text ∧
      ('<' ∈ part → ∃ message,
        parse ⟨String.ofList front, stderr, exitCode⟩ = .error (.parse name message)) ∧
      ('<' ∉ part → done ≠ [] ∧
        parse ⟨String.ofList front, stderr, exitCode⟩ = .ok (findingsOf done) ∧
          findingsOf done <+: findingsOf s.pieces) := by
  obtain ⟨done, next, rest, part, more, split, rfl, text, someMore⟩ := written_cut cut short
  have proper : part ≠ next.text := by
    rw [text]
    intro same
    exact someMore (List.self_eq_append_right.mp same)
  refine ⟨done, next, rest, part, split, rfl, ⟨more, text.symm⟩, proper, ?_, ?_⟩
  · intro reaches
    obtain ⟨inMark, rfl, body⟩ := next.exists_body text reaches
    exact parse_in_mark s split body someMore cut stderr exitCode
  · intro plain
    -- a report begins with a mark, so what holds none of the first mark is empty
    have begun : done ≠ [] := by
      rintro rfl
      obtain ⟨c, member, -⟩ := visible
      obtain ⟨first, part, rfl⟩ := List.exists_cons_of_ne_nil (List.ne_nil_of_mem member)
      have head := s.head?_text
      rw [cut] at head
      obtain rfl := Option.some.inj head
      exact plain List.mem_cons_self
    refine ⟨begun, parse_between_marks s split begun plain cut stderr exitCode, ?_⟩
    rw [split]
    exact findingsOf_prefix done (next :: rest)

/-- The report cut off in the name of an element. -/
theorem longLine_cut_in_tag :
    longLineAudit.text.drop 18 ≠ [] ∧ (∃ c ∈ longLineAudit.text.take 18, Text.isBlank c = false) ∧
    ∃ done next rest part, longLineAudit.sheet.pieces = done ++ next :: rest ∧
      longLineAudit.text.take 18 = written done ++ part ∧ part <+: next.text ∧ part ≠ next.text ∧
      ('<' ∈ part → ∃ message,
        parse ⟨String.ofList (longLineAudit.text.take 18), "", 1⟩ = .error (.parse name message)) ∧
      ('<' ∉ part → done ≠ [] ∧
        parse ⟨String.ofList (longLineAudit.text.take 18), "", 1⟩ = .ok (findingsOf done) ∧
          findingsOf done <+: findingsOf longLineAudit.sheet.pieces) :=
  have short : longLineAudit.text.drop 18 ≠ [] := by decide
  have visible : ∃ c ∈ longLineAudit.text.take 18, Text.isBlank c = false := ⟨'<', by decide, by decide⟩
  ⟨short, visible, cut_report_read longLineAudit.sheet (List.take_append_drop 18 longLineAudit.text).symm
    short visible "" 1⟩

/-- Cut off behind the tag that opens a file, a report with a finding passes for one without. -/
theorem longLine_cut_passes :
    longLineAudit.text.take 33 = "<checkstyle>\n<file name=\"A.java\">".toList ∧
      longLineAudit.text.drop 33 ≠ [] ∧ longLineAudit.findings ≠ [] ∧
        parse ⟨"<checkstyle>\n<file name=\"A.java\">", "", 1⟩ = .ok [] := by
  have front : longLineAudit.text.take 33 = "<checkstyle>\n<file name=\"A.java\">".toList := by decide
  refine ⟨front, by decide, by decide, ?_⟩
  have split : longLineAudit.sheet.pieces =
      longLineAudit.sheet.pieces.take 2 ++ longLineAudit.sheet.pieces.drop 2 :=
    (List.take_append_drop 2 _).symm
  have done : written (longLineAudit.sheet.pieces.take 2) = longLineAudit.text.take 33 := by decide
  have cut : longLineAudit.text =
      written (longLineAudit.sheet.pieces.take 2) ++ [] ++ longLineAudit.text.drop 33 := by
    rw [done, List.append_nil, List.take_append_drop]
  have passes := parse_between_marks longLineAudit.sheet split (List.cons_ne_nil _ _) List.not_mem_nil cut
    "" 1
  rw [done, List.append_nil, front, String.ofList_toList] at passes
  exact passes

end PolicyLint.Tool.Checkstyle
