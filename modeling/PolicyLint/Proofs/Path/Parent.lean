import Mathlib.Data.List.DropRight
import PolicyLint.Proofs.Path.Component
/-!
Parents of paths. The parent of a path is the beginning of its text that holds all components but the
last; the root and the empty path have none.
-/
namespace PolicyLint.Path

/-! ### Pieces at the end -/

/-- A piece that names nothing. -/
def isIdle (piece : String) : Bool :=
  piece = "" ∨ piece = "."

/-- Pieces without those at the end that name nothing. -/
def settled (pieces : List String) : List String :=
  pieces.rdropWhile isIdle

theorem settled_leads (pieces : List String) : settled pieces <+: pieces :=
  List.rdropWhile_prefix isIdle pieces

theorem inner_settled (pieces : List String) : inner (settled pieces) = inner pieces := by
  unfold settled
  induction pieces using List.reverseRecOn with
  | nil => rfl
  | append_singleton pieces piece ih =>
    rw [List.rdropWhile_concat]
    split
    · rename_i idle
      rw [ih, inner_append, inner_idle (by simpa [isIdle] using idle), inner_nil, List.append_nil]
    · rfl

theorem exists_last_settled {pieces : List String} (nonempty : settled pieces ≠ []) :
    ∃ before last, settled pieces = before ++ [last] ∧ last ≠ "" ∧ last ≠ "." := by
  refine ⟨_, _, (List.dropLast_append_getLast nonempty).symm, ?_⟩
  have named : ¬ isIdle ((settled pieces).getLast nonempty) := List.rdropWhile_last_not isIdle pieces nonempty
  simpa [isIdle] using named

theorem settled_eq_nil_iff {pieces : List String} : settled pieces = [] ↔ inner pieces = [] := by
  constructor
  · intro nothing
    rw [← inner_settled, nothing, inner_nil]
  · intro nothing
    by_contra left
    obtain ⟨before, last, split, named⟩ := exists_last_settled left
    rw [← inner_settled, split, inner_append, inner_named named] at nothing
    simp at nothing

/-- The last piece with a name makes the last component. -/
theorem inner_dropLast_settled (pieces : List String) :
    inner (settled pieces).dropLast = (inner pieces).dropLast := by
  by_cases empty : settled pieces = []
  · rw [empty, settled_eq_nil_iff.mp empty, List.dropLast_nil, inner_nil, List.dropLast_nil]
  · obtain ⟨before, last, split, named⟩ := exists_last_settled empty
    rw [← inner_settled pieces, split, List.dropLast_concat, inner_append, inner_named named, inner_nil,
      List.dropLast_concat]

theorem dropIdle_absolute (pieces : List String) : dropIdle true pieces = settled pieces :=
  rfl

theorem dropIdle_current (pieces : List String) :
    dropIdle false ("." :: pieces) = "." :: settled pieces :=
  rfl

theorem dropIdle_named {pieces : List String} (named : pieces.head? ≠ some ".") :
    dropIdle false pieces = settled pieces := by
  unfold dropIdle
  dsimp only
  split
  · simp at named
  · rfl

theorem dropIdle_leads (absolute : Bool) (pieces : List String) : dropIdle absolute pieces <+: pieces := by
  unfold dropIdle
  dsimp only
  split
  · exact List.cons_prefix_cons.mpr ⟨rfl, settled_leads _⟩
  · exact settled_leads _

/-- The beginning of pieces that is left without the last that names something. -/
theorem above_leads (pieces : List String) : settled (settled pieces).dropLast <+: pieces :=
  (settled_leads _).trans ((List.dropLast_prefix _).trans (settled_leads _))

theorem inner_above (pieces : List String) :
    inner (settled (settled pieces).dropLast) = (inner pieces).dropLast := by
  rw [inner_settled, inner_dropLast_settled]

/-! ### Pieces joined -/

theorem join_leads {pieces more : List String} (leads : pieces <+: more) :
    ∃ behind, Text.join "/" more = Text.join "/" pieces ++ behind := by
  obtain ⟨rest, rfl⟩ := leads
  induction pieces with
  | nil => exact ⟨Text.join "/" rest, by simp [Text.join]⟩
  | cons piece pieces ih =>
    obtain ⟨behind, same⟩ := ih
    by_cases single : pieces = []
    · subst single
      by_cases empty : rest = []
      · subst empty
        exact ⟨"", by simp⟩
      · exact ⟨"/" ++ Text.join "/" rest, by
          rw [List.singleton_append, join_cons piece empty, join_singleton, String.append_assoc]⟩
    · refine ⟨behind, ?_⟩
      rw [List.cons_append, join_cons piece (by simp [single]), same, join_cons piece single]
      simp only [String.append_assoc]

theorem inner_splitOn_join {pieces : List String} (free : ∀ piece ∈ pieces, '/' ∉ piece.toList) :
    inner (Text.splitOn '/' (Text.join "/" pieces)) = inner pieces := by
  by_cases empty : pieces = []
  · subst empty
    rfl
  · rw [splitOn_join free empty]

/-- The components of a relative path with these pieces. -/
def ofPieces (pieces : List String) : List Component :=
  (if pieces.head? = some "." then [.current] else []) ++ inner pieces

theorem ofPieces_current (pieces : List String) : ofPieces ("." :: pieces) = .current :: inner pieces := by
  simp [ofPieces, inner_idle]

theorem ofPieces_named {pieces : List String} (named : pieces.head? ≠ some ".") :
    ofPieces pieces = inner pieces := by
  rw [ofPieces, if_neg named, List.nil_append]

theorem components_joined {pieces : List String} (free : ∀ piece ∈ pieces, '/' ∉ piece.toList)
    (named : pieces.head? ≠ some "") : components (Text.join "/" pieces) = ofPieces pieces := by
  rw [components_front, inner_splitOn_join free, front, ofPieces]
  cases pieces with
  | nil => rfl
  | cons piece pieces =>
    have split := splitOn_join free (List.cons_ne_nil piece pieces)
    have relative := isAbsolute_of_splitOn split (by simpa using named)
    rw [relative, split]
    rfl

theorem head?_of_leads {pieces more : List String} (leads : pieces <+: more) {piece : String}
    (other : more.head? ≠ some piece) : pieces.head? ≠ some piece := by
  obtain ⟨rest, rfl⟩ := leads
  cases pieces with
  | nil => exact nofun
  | cons first pieces => simpa using other

/-! ### Parents -/

/-- A parent, as it follows from what a path is written with. -/
structure IsParent (parent path : String) : Prop where
  components : components parent = (components path).dropLast
  shorter : parent.length < path.length
  size : parent.utf8ByteSize ≤ path.utf8ByteSize

theorem isParent_of_leads {parent path : String} (behind : String) (split : path = parent ++ behind)
    (nonempty : components path ≠ []) (fewer : components parent = (components path).dropLast) :
    IsParent parent path := by
  subst split
  refine ⟨fewer, ?_, by rw [String.utf8ByteSize_append]; omega⟩
  rw [String.length_append]
  refine Nat.lt_add_of_pos_right (Nat.pos_of_ne_zero fun zero => ?_)
  rw [String.length_eq_zero_iff.mp zero, String.append_empty] at fewer nonempty
  have shorter := congrArg List.length fewer
  rw [List.length_dropLast] at shorter
  have := List.length_pos_iff.mpr nonempty
  omega

theorem parent?_absolute (rest : String) : parent? ("/" ++ rest) =
    if inner (Text.splitOn '/' rest) = [] then none
    else some ("/" ++ Text.join "/" (settled (settled (Text.splitOn '/' rest)).dropLast)) := by
  have absolute : isAbsolute ("/" ++ rest) = true := (isAbsolute_iff _).mpr ⟨rest, rfl⟩
  simp only [parent?, absolute, splitOn_absolute, if_true, List.drop_one, List.tail_cons,
    dropIdle_absolute, settled_eq_nil_iff]

theorem components_slashed (rest : String) :
    components ("/" ++ rest) = .root :: inner (Text.splitOn '/' rest) := by
  rw [components_absolute ((isAbsolute_iff _).mpr ⟨rest, rfl⟩), splitOn_absolute, inner_idle (.inl rfl)]

theorem isParent_absolute {rest : String} (more : inner (Text.splitOn '/' rest) ≠ []) :
    IsParent ("/" ++ Text.join "/" (settled (settled (Text.splitOn '/' rest)).dropLast)) ("/" ++ rest) := by
  have leads := above_leads (Text.splitOn '/' rest)
  obtain ⟨behind, same⟩ := join_leads leads
  rw [join_splitOn] at same
  refine isParent_of_leads behind ?_ (by simp [components_slashed]) ?_
  · rw [String.append_assoc, ← same]
  · rw [components_slashed, components_slashed,
      inner_splitOn_join fun piece member => slash_not_mem (leads.subset member), inner_above,
      List.dropLast_cons_of_ne_nil more]

/-- The pieces of a relative path without the last component and what follows it. -/
def upper (pieces : List String) : List String :=
  dropIdle false (dropIdle false pieces).dropLast

theorem upper_leads (pieces : List String) : upper pieces <+: pieces :=
  (dropIdle_leads false _).trans ((List.dropLast_prefix _).trans (dropIdle_leads false _))

theorem ofPieces_upper (pieces : List String) : ofPieces (upper pieces) = (ofPieces pieces).dropLast := by
  by_cases current : pieces.head? = some "."
  · obtain ⟨rest, rfl⟩ := List.head?_eq_some_iff.mp current
    rw [upper, dropIdle_current, ofPieces_current]
    by_cases bare : settled rest = []
    · rw [bare, settled_eq_nil_iff.mp bare]
      rfl
    · rw [List.dropLast_cons_of_ne_nil bare, dropIdle_current, ofPieces_current, inner_above,
        List.dropLast_cons_of_ne_nil (mt settled_eq_nil_iff.mpr bare)]
  · have shorter := head?_of_leads ((List.dropLast_prefix _).trans (settled_leads pieces)) current
    rw [upper, dropIdle_named current, dropIdle_named shorter, ofPieces_named current,
      ofPieces_named (head?_of_leads (above_leads pieces) current), inner_above]

theorem dropIdle_ne_nil {pieces : List String} (named : ofPieces pieces ≠ []) :
    dropIdle false pieces ≠ [] := by
  by_cases current : pieces.head? = some "."
  · obtain ⟨rest, rfl⟩ := List.head?_eq_some_iff.mp current
    rw [dropIdle_current]
    exact List.cons_ne_nil _ _
  · rw [ofPieces_named current] at named
    rwa [dropIdle_named current, Ne, settled_eq_nil_iff]

theorem components_relative {path : String} (relative : isAbsolute path = false) (nonempty : path ≠ "") :
    components path = ofPieces (Text.splitOn '/' path) := by
  conv_lhs => rw [← join_splitOn path]
  exact components_joined (fun _ => slash_not_mem) (head?_splitOn relative nonempty)

theorem parent?_relative {path : String} (relative : isAbsolute path = false) (nonempty : path ≠ "") :
    parent? path = .some (Text.join "/" (upper (Text.splitOn '/' path))) ∧
      IsParent (Text.join "/" (upper (Text.splitOn '/' path))) path := by
  have named := head?_splitOn relative nonempty
  have leads := upper_leads (Text.splitOn '/' path)
  have whole := components_relative relative nonempty
  have more := components_ne_nil nonempty
  obtain ⟨behind, same⟩ := join_leads leads
  rw [join_splitOn] at same
  refine ⟨by simp [parent?, relative, dropIdle_ne_nil (whole ▸ more), upper],
    isParent_of_leads behind same more ?_⟩
  rw [components_joined (fun piece member => slash_not_mem (leads.subset member))
    (head?_of_leads leads named), whole, ofPieces_upper]

/-- Every path has a parent but the root and the empty path. -/
theorem parent?_cases (path : String) :
    (parent? path = none ∧ (components path = [] ∨ components path = [.root])) ∨
      ∃ parent, parent? path = some parent ∧ IsParent parent path ∧
        ¬ (components path = [] ∨ components path = [.root]) := by
  by_cases absolute : isAbsolute path = true
  · obtain ⟨rest, rfl⟩ := (isAbsolute_iff path).mp absolute
    rw [parent?_absolute, components_slashed]
    split
    · rename_i nothing
      exact .inl ⟨rfl, .inr (by rw [nothing])⟩
    · rename_i more
      exact .inr ⟨_, rfl, isParent_absolute more, by simpa using more⟩
  · by_cases empty : path = ""
    · subst empty
      exact .inl ⟨rfl, .inl rfl⟩
    · have relative := Bool.eq_false_iff.mpr absolute
      obtain ⟨above, isParent⟩ := parent?_relative relative empty
      refine .inr ⟨_, above, isParent, not_or.mpr ⟨components_ne_nil empty, fun bare => ?_⟩⟩
      have course := course_relative relative
      rw [Path.course, bare, show [Component.root].filter (· ≠ .current) = [.root] from rfl] at course
      exact isStep_inner path .root (course ▸ List.mem_cons_self)

end PolicyLint.Path
