import PolicyLint.Language
import PolicyLint.Proofs.Text.Place
/-!
File names of paths. The file name is the last piece between slashes that names something, and its
extension is what stands behind its last dot, with something in front. Reading backslashes as slashes
splits every piece once more; a path is clear when that leaves the extension where it was.
-/
namespace PolicyLint

/-! ### The last of a character -/

theorem Text.exists_last {c : Char} {text : List Char} (member : c ∈ text) :
    ∃ before behind, text = before ++ c :: behind ∧ c ∉ behind := by
  obtain ⟨behind, before, split, last⟩ := List.eq_append_cons_of_mem (List.mem_reverse.mpr member)
  refine ⟨before.reverse, behind.reverse, ?_, by simpa using last⟩
  simpa using congrArg List.reverse split

/-- Of two cuts of a text, the one behind which the other's character does not come is no earlier. -/
theorem Text.cut_later {c d : Char} {before behind before' behind' : List Char} (free : c ∉ behind')
    (same : before ++ c :: behind = before' ++ d :: behind') :
    (before = before' ∧ c = d ∧ behind = behind') ∨
      ∃ between, before' = before ++ c :: between ∧ behind = between ++ d :: behind' := by
  rcases List.append_eq_append_iff.mp same with ⟨between, rfl, later⟩ | ⟨between, rfl, earlier⟩
  · rcases between with _ | ⟨e, between⟩
    · simp_all
    · obtain ⟨rfl, rfl⟩ := List.cons_eq_cons.mp later
      exact .inr ⟨between, rfl, rfl⟩
  · rcases between with _ | ⟨e, between⟩
    · simp_all
    · obtain ⟨rfl, rfl⟩ := List.cons_eq_cons.mp earlier
      simp at free

namespace Path

/-! ### File names -/

def pieces (path : String) : List (List Char) :=
  path.toList.splitOn '/'

/-- A piece that is more than a repeated slash or the directory itself. -/
def isNamed (piece : List Char) : Bool :=
  piece ≠ [] ∧ piece ≠ ['.']

def lastNamed? (pieces : List (List Char)) : Option (List Char) :=
  pieces.reverse.find? isNamed

theorem isNamed_ofList (piece : List Char) :
    decide (String.ofList piece ≠ "" ∧ String.ofList piece ≠ ".") = isNamed piece := by
  have dot : String.ofList piece = "." ↔ piece = ['.'] := by
    rw [← String.toList_inj, String.toList_ofList]
    rfl
  simp [isNamed, dot]

/-- The components of a path are its named pieces, behind the root or the directory itself. -/
theorem components_eq (path : String) :
    ∃ front, components path = front ++ inner (Text.splitOn '/' path) ∧
      (front = [] ∨ front = [.root] ∨ front = [.current]) := by
  unfold components
  split
  · split
    · exact ⟨[.root], by simp [inner, *], by simp⟩
    · exact ⟨[], by simp [inner, *], by simp⟩
  · exact ⟨[.current], by simp [inner, *], by simp⟩
  · exact ⟨[], rfl, by simp⟩

theorem getLast?_inner (pieces : List (List Char)) :
    (inner (pieces.map String.ofList)).getLast? =
      (lastNamed? pieces).map fun piece => componentOf (String.ofList piece) := by
  simp only [inner, List.getLast?_map, List.getLast?_filter, ← List.map_reverse, List.find?_map,
    Function.comp_def, isNamed_ofList, lastNamed?, Option.map_map]

/-- The file name is the last piece with a name, unless that leads to the parent. -/
theorem fileName?_eq_some_iff (path name : String) : fileName? path = some name ↔
    lastNamed? (pieces path) = some name.toList ∧ name ≠ ".." := by
  obtain ⟨front, components, unnamed⟩ := components_eq path
  rw [fileName?, components, List.getLast?_append]
  rw [show Text.splitOn '/' path = (pieces path).map String.ofList from rfl, getLast?_inner]
  cases lastNamed? (pieces path) with
  | none => rcases unnamed with rfl | rfl | rfl <;> simp
  | some piece =>
    obtain ⟨piece, rfl⟩ : ∃ text : String, piece = text.toList := ⟨String.ofList piece, by simp⟩
    by_cases up : piece = ".."
    · subst up
      simpa [componentOf] using fun same => ((@String.toList_inj ".." name).mp same).symm
    · simp [componentOf, up, String.toList_inj]
      grind

/-- A file name with something in front of its last dot has what stands behind it as extension. -/
def HasExtension (name extension : List Char) : Prop :=
  ∃ stem, stem ≠ [] ∧ name = stem ++ '.' :: extension ∧ '.' ∉ extension

theorem extension?_eq_some_iff (path extension : String) : extension? path = some extension ↔
    ∃ name, fileName? path = some name ∧ HasExtension name.toList extension.toList := by
  unfold extension?
  rw [Option.bind_eq_some_iff]
  refine exists_congr fun name => and_congr_right fun _ => ?_
  by_cases dotted : '.' ∈ name.toList
  · obtain ⟨stem, tail, split, last⟩ := Text.exists_last dotted
    have parts : (name.toList.splitOn '.').reverse = tail :: (stem.splitOn '.').reverse := by
      rw [split, List.splitOn_append_cons_self, List.splitOn_eq_singleton last]
      simp
    have bare : (stem.splitOn '.').reverse = [[]] ↔ stem = [] := by
      rw [List.reverse_eq_iff]
      constructor
      · intro single
        simpa [single] using (List.intercalate_splitOn '.' : _ = stem).symm
      · rintro rfl
        rfl
    simp only [parts, List.reverse_eq_nil_iff, List.splitOn_ne_nil, false_or, bare]
    constructor
    · intro found
      obtain ⟨stemmed, rfl⟩ : stem ≠ [] ∧ String.ofList tail = extension := by simpa using found
      exact ⟨stem, stemmed, by simpa using split, by simpa using last⟩
    · rintro ⟨stem', stemmed, split', last'⟩
      rcases Text.cut_later last' (split.symm.trans split') with ⟨rfl, -, rfl⟩ | ⟨between, -, rfl⟩
      · simp [stemmed]
      · simp at last
  · have whole : (name.toList.splitOn '.').reverse = [name.toList] := by
      rw [List.splitOn_eq_singleton dotted, List.reverse_singleton]
    simp only [whole, true_or, if_true]
    refine iff_of_false nofun ?_
    rintro ⟨stem, -, split, -⟩
    simp [split] at dotted

/-- The last piece with a name ends in the extension; behind it come only slashes, and dots for the
directory itself. -/
def EndsIn (path extension : List Char) : Prop :=
  ∃ directory stem, ∃ trailing : List (List Char),
    path = directory ++ (stem ++ '.' :: extension ++ trailing.flatMap ('/' :: ·)) ∧
    (directory = [] ∨ directory.getLast? = some '/') ∧ '/' ∉ stem ++ '.' :: extension ∧ stem ≠ [] ∧
    '.' ∉ extension ∧ ∀ piece ∈ trailing, piece = [] ∨ piece = ['.']

theorem isNamed_eq_false_iff {piece : List Char} : isNamed piece = false ↔ piece = [] ∨ piece = ['.'] := by
  simp [isNamed, Classical.or_iff_not_imp_left]

theorem lastNamed?_eq_some_iff {path : String} {piece : List Char} : lastNamed? (pieces path) = some piece ↔
    ∃ directory, ∃ trailing : List (List Char),
      path.toList = directory ++ (piece ++ trailing.flatMap ('/' :: ·)) ∧
      (directory = [] ∨ directory.getLast? = some '/') ∧ '/' ∉ piece ∧ isNamed piece = true ∧
      ∀ idle ∈ trailing, idle = [] ∨ idle = ['.'] := by
  rw [lastNamed?, List.find?_eq_some_iff_append]
  constructor
  · rintro ⟨named, back, front, split, idle⟩
    have pieces_eq : pieces path = front.reverse ++ piece :: back.reverse := by
      simpa using congrArg List.reverse split
    have whole : ['/'].intercalate (pieces path) = path.toList := List.intercalate_splitOn '/'
    have member : piece ∈ pieces path := by simp [pieces_eq]
    rw [pieces_eq, Text.intercalate_around] at whole
    refine ⟨_, back.reverse, whole.symm, ?_, Text.not_mem_of_mem_splitOn member, named, fun other inside => ?_⟩
    · obtain empty | ⟨before, last, ends⟩ := List.eq_nil_or_concat' front.reverse
      · exact .inl (by rw [empty]; rfl)
      · exact .inr (by simp [ends])
    · exact isNamed_eq_false_iff.mp (by simpa using idle other (List.mem_reverse.mp inside))
  · rintro ⟨directory, trailing, text, inside, free, named, idle⟩
    have each : ∀ other ∈ piece :: trailing, '/' ∉ other := by
      refine List.forall_mem_cons.mpr ⟨free, fun other member => ?_⟩
      rcases idle other member with rfl | rfl <;> decide
    have last : (piece ++ trailing.flatMap ('/' :: ·)).splitOn '/' = piece :: trailing := by
      have joined := Text.intercalate_around '/' [] piece trailing
      rw [List.flatMap_nil, List.nil_append, List.nil_append] at joined
      rw [← joined]
      exact List.splitOn_intercalate '/' each (List.cons_ne_nil piece trailing)
    have split : ∃ front, pieces path = front ++ piece :: trailing := by
      rw [pieces, text]
      rcases inside with rfl | ends
      · exact ⟨[], last⟩
      · obtain ⟨front, rfl⟩ := List.getLast?_eq_some_iff.mp ends
        refine ⟨front.splitOn '/', ?_⟩
        rw [List.append_assoc, List.singleton_append, List.splitOn_append_cons_self, last]
    obtain ⟨front, split⟩ := split
    refine ⟨named, trailing.reverse, front.reverse, by simp [split], fun other member => ?_⟩
    simp [isNamed_eq_false_iff.mpr (idle other (List.mem_reverse.mp member))]

/-- The extension is what the path ends in. -/
theorem extension?_iff_endsIn {path extension : String} (nonempty : extension ≠ "") :
    extension? path = .some extension ↔ EndsIn path.toList extension.toList := by
  rw [extension?_eq_some_iff]
  constructor
  · rintro ⟨name, found, stem, stemmed, split, undotted⟩
    obtain ⟨directory, trailing, text, inside, free, -, idle⟩ :=
      lastNamed?_eq_some_iff.mp ((fileName?_eq_some_iff path name).mp found).1
    rw [split] at text free
    exact ⟨directory, stem, trailing, text, inside, free, stemmed, undotted, idle⟩
  · rintro ⟨directory, stem, trailing, text, inside, free, stemmed, undotted, idle⟩
    refine ⟨String.ofList (stem ++ '.' :: extension.toList), ?_, stem, stemmed, String.toList_ofList, undotted⟩
    rw [fileName?_eq_some_iff, String.toList_ofList]
    refine ⟨lastNamed?_eq_some_iff.mpr ⟨directory, trailing, text, inside, free, ?_, idle⟩, fun up => ?_⟩
    · simp [isNamed, List.append_eq_cons_iff, stemmed]
    · have dots : stem ++ '.' :: extension.toList = ['.'] ++ '.' :: [] := by
        simpa using congrArg String.toList up
      rcases Text.cut_later undotted dots.symm with ⟨-, -, empty⟩ | ⟨between, rfl, empty⟩
      · exact nonempty (String.toList_eq_nil_iff.mp empty.symm)
      · simp at empty

/-! ### Backslashes read as slashes -/

theorem splitOn_slashed (text : List Char) :
    (text.map fun c => if c = '\\' then '/' else c).splitOn '/' =
      (text.splitOn '/').flatMap (List.splitOn '\\') := by
  induction text with
  | nil => rfl
  | cons c rest ih =>
    obtain ⟨piece, pieces, split⟩ := List.exists_cons_of_ne_nil (List.splitOn_ne_nil '/' rest)
    obtain ⟨part, parts, inner⟩ := List.exists_cons_of_ne_nil (List.splitOn_ne_nil '\\' piece)
    simp only [List.map_cons, List.splitOn_cons_eq_if_modifyHead c rest, split] at ih ⊢
    rw [List.splitOn_cons_eq_if_modifyHead, ih]
    by_cases slash : c = '/'
    · simp [slash]
    by_cases backslash : c = '\\'
    · simp [backslash, List.splitOn_cons_eq_if_modifyHead]
    · simp [slash, backslash, List.splitOn_cons_eq_if_modifyHead, inner]

theorem pieces_toSlash (path : String) :
    pieces (Glob.toSlash path) = (pieces path).flatMap (List.splitOn '\\') := by
  simp only [pieces, Glob.toSlash, Text.replaceChar, String.toList_ofList, splitOn_slashed]

/-- Pieces without a name hold no backslash and stay as they are. -/
theorem lastNamed?_splitOn_of_idle {piece : List Char} (idle : isNamed piece = false) :
    lastNamed? (piece.splitOn '\\') = none := by
  rcases isNamed_eq_false_iff.mp idle with rfl | rfl <;> rfl

theorem lastNamed?_flatMap (pieces : List (List Char)) :
    lastNamed? (pieces.flatMap (List.splitOn '\\')) =
      pieces.reverse.findSome? fun piece => lastNamed? (piece.splitOn '\\') := by
  simp only [lastNamed?, List.reverse_flatMap, List.find?_flatMap, Function.comp_def]

theorem lastNamed?_slashed_of_none {pieces : List (List Char)} (idle : lastNamed? pieces = none) :
    lastNamed? (pieces.flatMap (List.splitOn '\\')) = none := by
  rw [lastNamed?_flatMap, List.findSome?_eq_none_iff]
  intro piece member
  exact lastNamed?_splitOn_of_idle (by simpa using List.find?_eq_none.mp idle piece member)

theorem lastNamed?_slashed_of_some {pieces : List (List Char)} {piece part : List Char}
    (last : lastNamed? pieces = some piece) (named : lastNamed? (piece.splitOn '\\') = some part) :
    lastNamed? (pieces.flatMap (List.splitOn '\\')) = some part := by
  obtain ⟨-, behind, before, split, idle⟩ := List.find?_eq_some_iff_append.mp last
  rw [lastNamed?_flatMap, List.findSome?_eq_some_iff]
  refine ⟨behind, piece, before, split, named, fun other member => ?_⟩
  exact lastNamed?_splitOn_of_idle (by simpa using idle other member)

theorem lastNamed?_splitOn_of_free {piece : List Char} (free : '\\' ∉ piece)
    (named : isNamed piece = true) : lastNamed? (piece.splitOn '\\') = some piece := by
  rw [List.splitOn_eq_singleton free]
  simp [lastNamed?, named]

theorem lastNamed?_splitOn_behind {before behind : List Char} (free : '\\' ∉ behind)
    (named : isNamed behind = true) :
    lastNamed? ((before ++ '\\' :: behind).splitOn '\\') = some behind := by
  rw [List.splitOn_append_cons_self, List.splitOn_eq_singleton free]
  simp [lastNamed?, named]

/-! ### Paths with mixed separators -/

/-- A text without anything in front of its last dot; as a file name it has no extension. -/
def Stemless (text : List Char) : Prop :=
  text = [] ∨ text.head? = some '.' ∧ '.' ∉ text.tail

instance (text : List Char) : Decidable (Stemless text) :=
  inferInstanceAs (Decidable (_ ∨ _))

/-- A path whose file name is the same to a reader who takes backslashes for slashes, as far as its
extension goes. -/
def Clear (path : String) : Prop :=
  ∀ name ∈ fileName? path, '\\' ∈ name.toList →
    ¬ Stemless ((name.toList.splitOn '\\').getLastD [])

instance (path : String) : Decidable (Clear path) :=
  inferInstanceAs (Decidable (∀ name ∈ fileName? path, _))

theorem clear_of_free {path : String} (free : ∀ name ∈ lastNamed? (pieces path), '\\' ∉ name) :
    Clear path := by
  intro name found backslash
  exact absurd backslash (free _ ((fileName?_eq_some_iff path name).mp found).1)

theorem clear_iff {path : String} {before behind : List Char} (last : '\\' ∉ behind)
    (split : lastNamed? (pieces path) = some (before ++ '\\' :: behind)) :
    Clear path ↔ ¬ Stemless behind := by
  have name : fileName? path = some (String.ofList (before ++ '\\' :: behind)) := by
    rw [fileName?_eq_some_iff, String.toList_ofList]
    refine ⟨split, fun up => ?_⟩
    have member : '\\' ∈ "..".toList := by simp [← up]
    simp at member
  simp [Clear, name, List.splitOn_append_cons_self, List.splitOn_eq_singleton last]

end Path

end PolicyLint
