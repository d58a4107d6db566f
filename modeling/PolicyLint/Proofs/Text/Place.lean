import PolicyLint.Proofs.Text.Reading
/-!
Where the parts of a text stand: the pieces between separators and so its lines, what is left without the blanks
around it, and the first place of a mark. Main statements: each part that is read is told by what stands before
and behind it, and so is every part that could be read.
-/
namespace PolicyLint.Text

/-! ### Pieces -/

/-- From one separator, or the beginning, to the next, or the end. -/
def IsPiece (separator : Char) (piece text : List Char) : Prop :=
  separator ∉ piece ∧ ∃ before behind, text = before ++ (piece ++ behind) ∧
    (before = [] ∨ before.getLast? = some separator) ∧ (behind = [] ∨ behind.head? = some separator)

abbrev IsLine : List Char → List Char → Prop :=
  IsPiece '\n'

theorem intercalate_around (separator : Char) (front : List (List Char)) (piece : List Char)
    (back : List (List Char)) : [separator].intercalate (front ++ piece :: back) =
      front.flatMap (· ++ [separator]) ++ (piece ++ back.flatMap (separator :: ·)) := by
  induction front with
  | nil =>
    induction back generalizing piece with
    | nil => simp
    | cons next back ih => simpa using ih next
  | cons first front ih =>
    obtain ⟨next, others, split⟩ := List.exists_cons_of_ne_nil (List.append_ne_nil_of_right_ne_nil front
      (List.cons_ne_nil piece back))
    rw [List.cons_append, split, List.intercalate_cons_cons, ← split, ih]
    simp

theorem mem_splitOn_iff {separator : Char} {piece text : List Char} :
    piece ∈ text.splitOn separator ↔ IsPiece separator piece text := by
  constructor
  · intro member
    refine ⟨not_mem_of_mem_splitOn member, ?_⟩
    obtain ⟨front, back, split⟩ := List.append_of_mem member
    have whole : [separator].intercalate (text.splitOn separator) = text := List.intercalate_splitOn separator
    rw [split, intercalate_around] at whole
    refine ⟨_, _, whole.symm, ?_, ?_⟩
    · obtain rfl | ⟨front, last, rfl⟩ := List.eq_nil_or_concat' front
      · exact .inl rfl
      · exact .inr (by simp)
    · cases back with
      | nil => exact .inl rfl
      | cons next back => exact .inr rfl
  · rintro ⟨free, before, behind, rfl, begins, ends⟩
    have last : piece ∈ (piece ++ behind).splitOn separator := by
      rcases ends with rfl | next
      · rw [List.append_nil, List.splitOn_eq_singleton free]
        exact List.mem_singleton_self piece
      · obtain ⟨behind, rfl⟩ := List.head?_eq_some_iff.mp next
        rw [List.splitOn_append_cons_self_of_not_mem free]
        exact List.mem_cons_self
    rcases begins with rfl | first
    · exact last
    · obtain ⟨before, rfl⟩ := List.getLast?_eq_some_iff.mp first
      rw [List.append_assoc, List.singleton_append, List.splitOn_append_cons_self]
      exact List.mem_append_right _ last

theorem isPiece_append_iff {separator : Char} {piece front back : List Char} :
    IsPiece separator piece (front ++ separator :: back) ↔
      IsPiece separator piece front ∨ IsPiece separator piece back := by
  rw [← mem_splitOn_iff, List.splitOn_append_cons_self, List.mem_append, mem_splitOn_iff, mem_splitOn_iff]

/-! ### Without the blanks around -/

theorem exists_trim (s : String) : ∃ front behind : List Char, (∀ c ∈ front, isBlank c = true) ∧
    (∀ c ∈ behind, isBlank c = true) ∧ s.toList = front ++ ((trim s).toList ++ behind) := by
  refine ⟨(trimEnd s).toList.takeWhile isBlank, (s.toList.reverse.takeWhile isBlank).reverse,
    fun _ => List.mem_takeWhile_imp, fun _ member => List.mem_takeWhile_imp (List.mem_reverse.mp member), ?_⟩
  rw [trim, trimStart, String.toList_ofList, ← List.append_assoc, dropBlanks, List.takeWhile_append_dropWhile,
    toList_trimEnd, ← List.reverse_append, dropBlanks, List.takeWhile_append_dropWhile, List.reverse_reverse]

/-- What is left is nothing, or has no blank at either end. -/
theorem flush_trim {s : String} (left : trim s ≠ "") :
    (∃ c ∈ (trim s).toList.head?, isBlank c = false) ∧ ∃ c ∈ (trim s).toList.getLast?, isBlank c = false := by
  have nonempty : (trim s).toList ≠ [] := by simpa using left
  have text : (trim s).toList = dropBlanks (trimEnd s).toList := String.toList_ofList
  constructor
  · obtain ⟨c, rest, split⟩ := List.exists_cons_of_ne_nil nonempty
    refine ⟨c, by rw [split]; rfl, stop_dropWhile isBlank (trimEnd s).toList c ?_⟩
    rw [← dropBlanks, ← text, split]
    rfl
  · obtain ⟨front, split⟩ : (trim s).toList <:+ (trimEnd s).toList := by
      rw [text]
      exact List.dropWhile_suffix isBlank
    obtain ⟨rest, c, last⟩ := (List.eq_nil_or_concat' (trim s).toList).resolve_left nonempty
    refine ⟨c, by rw [last, List.getLast?_concat]; rfl, stop_dropWhile isBlank s.toList.reverse c ?_⟩
    rw [← dropBlanks, ← List.getLast?_reverse, ← toList_trimEnd, ← split, last, ← List.append_assoc,
      List.getLast?_concat]
    rfl

theorem trim_of_flush {front cs behind : List Char} (front_blank : ∀ c ∈ front, isBlank c = true)
    (first : ∃ c ∈ cs.head?, isBlank c = false) (last : ∃ c ∈ cs.getLast?, isBlank c = false)
    (behind_blank : ∀ c ∈ behind, isBlank c = true) :
    trim (String.ofList (front ++ (cs ++ behind))) = String.ofList cs := by
  have before : dropBlanks front = [] := List.dropWhile_eq_nil_iff.mpr front_blank
  have after : dropBlanks behind.reverse = [] :=
    List.dropWhile_eq_nil_iff.mpr fun c member => behind_blank c (List.mem_reverse.mp member)
  rw [← String.toList_inj, toList_trim_append front behind first last, before, after, String.toList_ofList]
  simp

theorem trim_eq_empty_iff {s : String} : trim s = "" ↔ ∀ c ∈ s.toList, isBlank c = true := by
  constructor
  · intro empty
    obtain ⟨front, behind, blank, blank', text⟩ := exists_trim s
    rw [empty, String.toList_empty, List.nil_append] at text
    rw [text]
    exact List.forall_mem_append.mpr ⟨blank, blank'⟩
  · intro blank
    have reversed : ∀ c ∈ s.toList.reverse, isBlank c = true :=
      fun c member => blank c (List.mem_reverse.mp member)
    rw [trim, trimEnd, dropBlanks, List.dropWhile_eq_nil_iff.mpr reversed]
    rfl

theorem trim_chopped (line : List Char) :
    trim (String.ofList (chopped line)) = trim (String.ofList line) := by
  rw [trim, trim, trimEnd_chopped]

/-- The lines, each without the blanks around it. -/
theorem mem_trimmed_iff {s t : String} (left : t ≠ "") :
    t ∈ (lines s).map trim ↔ ∃ line, IsLine line s.toList ∧ trim (String.ofList line) = t := by
  obtain ⟨front, last, split⟩ :=
    (List.eq_nil_or_concat' (s.toList.splitOn '\n')).resolve_left (List.splitOn_ne_nil _ _)
  have ended : (front.map chopped).map (trim ∘ String.ofList) = front.map (trim ∘ String.ofList) := by
    simp [trim_chopped]
  have whole : t ∈ (lines s).map trim ↔ t ∈ (front ++ [last]).map (trim ∘ String.ofList) := by
    by_cases empty : last = []
    · have blank : trim "" = "" := by decide
      simp [lines, split, empty, ← ended, chopped, blank, left]
    · simp [lines, split, empty, ← ended, chopped]
  simp only [whole, ← split, List.mem_map, mem_splitOn_iff, Function.comp_apply]

/-! ### The first place of a mark -/

/-- A mark that has its first character nowhere else does not overlap itself. -/
theorem infix_of_two_prefixes {first c : Char} {mark before rest : List Char} (once : first ∉ mark)
    (here : first :: mark <+: c :: before ++ rest) (later : first :: mark <+: rest) :
    first :: mark <:+: c :: before := by
  rcases List.prefix_or_prefix_of_prefix here (List.prefix_append (c :: before) rest) with
    inside | ⟨more, split⟩
  · exact inside.isInfix
  · rw [← split, List.prefix_append_right_inj] at here
    cases more with
    | nil => rw [← split, List.append_nil]
    | cons d more =>
      obtain ⟨behind, rfl⟩ := here
      obtain ⟨rfl, -⟩ := List.cons_prefix_cons.mp later
      obtain ⟨-, rfl⟩ := List.cons.inj split
      exact absurd (List.mem_append_right before List.mem_cons_self) once

theorem fromFirst?_eq_some_iff {first : Char} {mark cs rest : List Char} (once : first ∉ mark) :
    fromFirst? (first :: mark) cs = some rest ↔
      ∃ before, cs = before ++ rest ∧ first :: mark <+: rest ∧ ¬ first :: mark <:+: before := by
  constructor
  · intro found
    induction cs with
    | nil => simp [fromFirst?] at found
    | cons c cs ih =>
      rw [fromFirst?] at found
      split at found
      · rename_i leads
        obtain rfl := Option.some.inj found
        exact ⟨[], rfl, afterLead?_isSome_iff.mp leads, by simp⟩
      · rename_i other
        obtain ⟨before, rfl, leads, free⟩ := ih found
        refine ⟨c :: before, rfl, leads, fun inside => ?_⟩
        rcases List.infix_cons_iff.mp inside with here | later
        · exact other (afterLead?_isSome_iff.mpr (here.trans (List.prefix_append (c :: before) rest)))
        · exact free later
  · rintro ⟨before, rfl, leads, free⟩
    induction before with
    | nil => exact fromFirst?_of_prefix leads
    | cons c before ih =>
      have later : ¬ first :: mark <:+: before := fun inside => free (List.infix_cons_iff.mpr (.inr inside))
      have other : ¬ (afterLead? (first :: mark) (c :: (before ++ rest))).isSome := fun here =>
        free (infix_of_two_prefixes once (afterLead?_isSome_iff.mp here) leads)
      rw [List.cons_append, fromFirst?, if_neg other, ih later]

/-- A mark without blanks does not reach into blanks. -/
theorem prefix_before_blanks {mark cs behind : List Char} (visible : ∀ c ∈ mark, isBlank c = false)
    (blank : ∀ c ∈ behind, isBlank c = true) : mark <+: cs ++ behind ↔ mark <+: cs := by
  refine ⟨fun leads => ?_, fun leads => leads.trans (List.prefix_append cs behind)⟩
  rcases List.prefix_or_prefix_of_prefix leads (List.prefix_append cs behind) with inside | ⟨more, rfl⟩
  · exact inside
  · rw [List.prefix_append_right_inj] at leads
    cases more with
    | nil => rw [List.append_nil]
    | cons c more =>
      have both := visible c (List.mem_append_right cs List.mem_cons_self)
      rw [blank c (leads.subset List.mem_cons_self)] at both
      cases both

/-- Blanks around a text do not matter where a mark without blanks is searched. -/
theorem fromFirst?_around {first : Char} {mark front behind : List Char} (cs : List Char)
    (visible : ∀ c ∈ first :: mark, isBlank c = false) (front_blank : ∀ c ∈ front, isBlank c = true)
    (behind_blank : ∀ c ∈ behind, isBlank c = true) :
    fromFirst? (first :: mark) (front ++ (cs ++ behind)) =
      (fromFirst? (first :: mark) cs).map (· ++ behind) := by
  have apart {blanks : List Char} (blank : ∀ c ∈ blanks, isBlank c = true) : first ∉ blanks := by
    intro member
    have both := visible first List.mem_cons_self
    rw [blank first member] at both
    cases both
  rw [fromFirst?_append (apart front_blank)]
  induction cs with
  | nil =>
    have absent : fromFirst? (first :: mark) behind = none :=
      fromFirst?_eq_none_iff.mpr fun inside => apart behind_blank (inside.subset List.mem_cons_self)
    simp [absent, fromFirst?]
  | cons c cs ih =>
    have same : (afterLead? (first :: mark) (c :: (cs ++ behind))).isSome =
        (afterLead? (first :: mark) (c :: cs)).isSome := by
      rw [Bool.eq_iff_iff, afterLead?_isSome_iff, afterLead?_isSome_iff, ← List.cons_append]
      exact prefix_before_blanks visible behind_blank
    rw [List.cons_append, fromFirst?, fromFirst?, same, ih]
    split <;> rfl

end PolicyLint.Text
