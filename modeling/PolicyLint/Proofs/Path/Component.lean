import Mathlib.Data.List.Basic
import PolicyLint.Path
import PolicyLint.Proofs.Text.Reading
/-!
Components of paths. Behind what a path begins with, its components are its pieces with a name, so
joining paths puts components behind one another, and components written with slashes between them read
back.
-/
namespace PolicyLint.Path

/-! ### Pieces -/

theorem splitOn_slash (before behind : String) :
    Text.splitOn '/' (before ++ "/" ++ behind) = Text.splitOn '/' before ++ Text.splitOn '/' behind := by
  have slash : ("/" : String).toList = ['/'] := by simp
  simp only [Text.splitOn, String.toList_append, slash, List.append_assoc, List.singleton_append,
    List.splitOn_append_cons_self, List.map_append]

theorem splitOn_absolute (rest : String) : Text.splitOn '/' ("/" ++ rest) = "" :: Text.splitOn '/' rest := by
  have split := splitOn_slash "" rest
  rwa [String.empty_append] at split

theorem splitOn_ne_nil (text : String) : Text.splitOn '/' text ≠ [] := by
  simp [Text.splitOn, List.splitOn_ne_nil]

theorem splitOn_of_free {text : String} (free : '/' ∉ text.toList) : Text.splitOn '/' text = [text] := by
  simp [Text.splitOn, List.splitOn_eq_singleton free]

theorem slash_not_mem {text piece : String} (member : piece ∈ Text.splitOn '/' text) :
    '/' ∉ piece.toList := by
  obtain ⟨chars, split, rfl⟩ := List.mem_map.mp member
  rw [String.toList_ofList]
  exact Text.not_mem_of_mem_splitOn split

theorem splitOn_join {pieces : List String} (free : ∀ piece ∈ pieces, '/' ∉ piece.toList)
    (nonempty : pieces ≠ []) : Text.splitOn '/' (Text.join "/" pieces) = pieces :=
  (@Text.splitOn_join_iff '/' pieces nonempty).mpr free

/-- The text is told by its pieces. -/
theorem join_splitOn (text : String) : Text.join "/" (Text.splitOn '/' text) = text := by
  have slash : ("/" : String).toList = ['/'] := by simp
  rw [← String.toList_inj, Text.join, Text.splitOn, List.map_map, String.toList_ofList, slash]
  simp [Function.comp_def, List.intercalate_splitOn]

theorem join_singleton (piece : String) : Text.join "/" [piece] = piece := by
  simp [Text.join]

theorem join_cons (piece : String) {pieces : List String} (nonempty : pieces ≠ []) :
    Text.join "/" (piece :: pieces) = piece ++ "/" ++ Text.join "/" pieces := by
  have listed : pieces.map String.toList ≠ [] := by simpa using nonempty
  rw [← String.toList_inj]
  simp [Text.join, List.intercalate_cons_of_ne_nil listed]

theorem mem_join {c : Char} {pieces : List String} (member : c ∈ (Text.join "/" pieces).toList) :
    c = '/' ∨ ∃ piece ∈ pieces, c ∈ piece.toList := by
  induction pieces with
  | nil => simp [Text.join] at member
  | cons piece pieces ih =>
    by_cases empty : pieces = []
    · subst empty
      rw [join_singleton] at member
      exact .inr ⟨piece, List.mem_cons_self, member⟩
    · rw [join_cons piece empty, String.toList_append, String.toList_append] at member
      rcases List.mem_append.mp member with first | later
      · rcases List.mem_append.mp first with here | slash
        · exact .inr ⟨piece, List.mem_cons_self, here⟩
        · exact .inl (by simpa using slash)
      · exact (ih later).imp_right fun ⟨other, given, inside⟩ =>
          ⟨other, List.mem_cons_of_mem _ given, inside⟩

theorem subset_join {pieces : List String} {piece : String} (given : piece ∈ pieces) {c : Char}
    (inside : c ∈ piece.toList) : c ∈ (Text.join "/" pieces).toList := by
  induction pieces with
  | nil => contradiction
  | cons first pieces ih =>
    by_cases single : pieces = []
    · subst single
      obtain rfl := List.mem_singleton.mp given
      rwa [join_singleton]
    · rw [join_cons first single, String.toList_append, String.toList_append]
      rcases List.mem_cons.mp given with rfl | later
      · exact List.mem_append_left _ (List.mem_append_left _ inside)
      · exact List.mem_append_right _ (ih later)

theorem mem_of_mem_splitOn {text piece : String} (given : piece ∈ Text.splitOn '/' text) {c : Char}
    (inside : c ∈ piece.toList) : c ∈ text.toList :=
  join_splitOn text ▸ subset_join given inside

theorem isAbsolute_iff (path : String) : isAbsolute path = true ↔ ∃ rest, path = "/" ++ rest := by
  have slash : ("/" : String).toList = ['/'] := by simp
  rw [isAbsolute, Text.startsWith, Text.afterLead?_isSome_iff, slash]
  constructor
  · rintro ⟨rest, split⟩
    exact ⟨String.ofList rest, by rw [← String.toList_inj, ← split]; simp⟩
  · rintro ⟨rest, rfl⟩
    exact ⟨rest.toList, by simp⟩

theorem endsWith_slash_iff (path : String) :
    Text.endsWith "/" path = true ↔ ∃ trunk, path = trunk ++ "/" := by
  have slash : ("/" : String).toList = ['/'] := by simp
  rw [Text.endsWith, Text.dropTail?, Option.isSome_map, Text.afterLead?_isSome_iff, List.reverse_prefix,
    slash]
  constructor
  · rintro ⟨trunk, split⟩
    exact ⟨String.ofList trunk, by rw [← String.toList_inj, ← split]; simp⟩
  · rintro ⟨trunk, rfl⟩
    exact ⟨trunk.toList, by simp⟩

/-- A path is joined behind a slash, which the base may bring. -/
theorem join_relative {base path : String} (nonempty : base ≠ "") (relative : isAbsolute path = false) :
    ∃ trunk, (base = trunk ∨ base = trunk ++ "/") ∧ join base path = trunk ++ "/" ++ path := by
  unfold join
  rw [if_neg (by simp [nonempty, relative])]
  split
  · rename_i ends
    obtain ⟨trunk, rfl⟩ := (endsWith_slash_iff base).mp ends
    exact ⟨trunk, .inr rfl, rfl⟩
  · exact ⟨base, .inl rfl, rfl⟩

theorem size_join_le (base : String) {path : String} (relative : isAbsolute path = false) :
    (join base path).utf8ByteSize ≤ base.utf8ByteSize + 1 + path.utf8ByteSize := by
  have slash : ("/" : String).utf8ByteSize = 1 := by decide
  by_cases empty : base = ""
  · rw [empty, join, if_pos (.inr rfl)]
    omega
  · obtain ⟨trunk, rfl | rfl, joined⟩ := join_relative empty relative
    · rw [joined, String.utf8ByteSize_append, String.utf8ByteSize_append, slash]
    · simp only [joined, String.utf8ByteSize_append, slash]
      omega

@[simp] theorem isAbsolute_empty : isAbsolute "" = false := by
  decide

theorem join_absolute (base : String) {path : String} (absolute : isAbsolute path = true) :
    join base path = path :=
  if_pos (.inl absolute)

@[simp] theorem join_empty_left (path : String) : join "" path = path :=
  if_pos (.inr rfl)

/-- A relative path that is not empty begins with a piece that counts. -/
theorem head?_splitOn {path : String} (relative : isAbsolute path = false) (nonempty : path ≠ "") :
    (Text.splitOn '/' path).head? ≠ .some "" := by
  intro first
  obtain ⟨pieces, split⟩ := List.head?_eq_some_iff.mp first
  have whole := join_splitOn path
  rw [split] at whole
  by_cases empty : pieces = []
  · rw [empty, join_singleton] at whole
    exact nonempty whole.symm
  · rw [join_cons "" empty, String.empty_append] at whole
    rw [(isAbsolute_iff path).mpr ⟨_, whole.symm⟩] at relative
    contradiction

/-! ### Components of pieces -/

@[simp] theorem inner_append (pieces more : List String) :
    inner (pieces ++ more) = inner pieces ++ inner more := by
  simp [inner]

@[simp] theorem inner_nil : inner [] = [] :=
  rfl

theorem inner_idle {piece : String} (idle : piece = "" ∨ piece = ".") (pieces : List String) :
    inner (piece :: pieces) = inner pieces := by
  rcases idle with rfl | rfl <;> simp [inner]

theorem inner_named {piece : String} (named : piece ≠ "" ∧ piece ≠ ".") (pieces : List String) :
    inner (piece :: pieces) = componentOf piece :: inner pieces := by
  simp [inner, named]

/-- A component that may stand behind others. -/
def Component.IsStep : Component → Prop
  | .root | .current => False
  | .parent => True
  | .name text => text ≠ "" ∧ text ≠ "." ∧ text ≠ ".." ∧ '/' ∉ text.toList

instance : DecidablePred Component.IsStep
  | .root | .current => inferInstanceAs (Decidable False)
  | .parent => inferInstanceAs (Decidable True)
  | .name _ => inferInstanceAs (Decidable (_ ∧ _))

theorem isStep_of_mem_inner {pieces : List String} (free : ∀ piece ∈ pieces, '/' ∉ piece.toList)
    {c : Component} (member : c ∈ inner pieces) : c.IsStep := by
  obtain ⟨piece, kept, rfl⟩ := List.mem_map.mp member
  obtain ⟨given, named⟩ := List.mem_filter.mp kept
  obtain ⟨nonempty, more⟩ : piece ≠ "" ∧ piece ≠ "." := by simpa using named
  unfold componentOf
  split
  · trivial
  · rename_i down
    exact ⟨nonempty, more, down, free piece given⟩

theorem componentOf_text {c : Component} (step : c.IsStep) : componentOf c.text = c := by
  cases c with
  | root => exact step.elim
  | current => exact step.elim
  | parent => rfl
  | name text => exact if_neg step.2.2.1

theorem text_named {c : Component} (step : c.IsStep) : c.text ≠ "" ∧ c.text ≠ "." := by
  cases c with
  | root => exact step.elim
  | current => exact step.elim
  | parent => decide
  | name text => exact ⟨step.1, step.2.1⟩

theorem text_free {c : Component} (step : c.IsStep) : '/' ∉ c.text.toList := by
  cases c with
  | root => exact step.elim
  | current => exact step.elim
  | parent => decide
  | name text => exact step.2.2.2

theorem inner_texts {steps : List Component} (proper : ∀ c ∈ steps, c.IsStep) :
    inner (steps.map Component.text) = steps := by
  induction steps with
  | nil => rfl
  | cons c steps ih =>
    obtain ⟨step, proper⟩ := List.forall_mem_cons.mp proper
    rw [List.map_cons, inner_named (text_named step), componentOf_text step, ih proper]

/-! ### Components of paths -/

/-- What a path begins with, which stands for no step. -/
def front (path : String) : List Component :=
  if isAbsolute path then [.root]
  else if (Text.splitOn '/' path).head? = some "." then [.current]
  else []

theorem components_front (path : String) :
    components path = front path ++ inner (Text.splitOn '/' path) := by
  by_cases absolute : isAbsolute path
  · obtain ⟨rest, rfl⟩ := (isAbsolute_iff path).mp absolute
    simp [components, front, absolute, splitOn_absolute rest, inner_idle]
  · obtain ⟨piece, pieces, split⟩ := List.exists_cons_of_ne_nil (splitOn_ne_nil path)
    simp only [components, front, absolute, split, if_false, Bool.false_eq_true, List.head?_cons,
      Option.some.injEq]
    split
    · simp_all [inner_idle]
    · simp_all [inner_idle]
    · rename_i current
      rw [if_neg fun same => current pieces (by rw [same]), List.nil_append]

/-- Only the empty path has no components. -/
theorem components_ne_nil {path : String} (nonempty : path ≠ "") : components path ≠ [] := by
  rw [components_front, front]
  split
  · exact List.cons_ne_nil _ _
  · rename_i relative
    split
    · exact List.cons_ne_nil _ _
    · rename_i other
      obtain ⟨piece, pieces, split⟩ := List.exists_cons_of_ne_nil (splitOn_ne_nil path)
      have named := head?_splitOn (Bool.eq_false_iff.mpr relative) nonempty
      rw [split, List.head?_cons] at named other
      rw [List.nil_append, split, inner_named ⟨fun same => named (congrArg _ same),
        fun same => other (congrArg _ same)⟩]
      exact List.cons_ne_nil _ _

/-- Behind the first component come steps. -/
theorem isStep_of_components {path : String} {first : Component} {rest : List Component}
    (split : components path = first :: rest) : ∀ c ∈ rest, c.IsStep := by
  have proper : ∀ c ∈ inner (Text.splitOn '/' path), c.IsStep :=
    fun _ => isStep_of_mem_inner fun _ => slash_not_mem
  have lead : ∀ {c}, [c] ++ inner (Text.splitOn '/' path) = first :: rest → ∀ c ∈ rest, c.IsStep := by
    intro c same
    rwa [← (List.cons_eq_cons.mp same).2]
  rw [components_front, front] at split
  split at split
  · exact lead split
  · split at split
    · exact lead split
    · rw [List.nil_append] at split
      exact fun c member => proper c (split ▸ List.mem_cons_of_mem _ member)

theorem isAbsolute_append {path : String} (nonempty : path ≠ "") (behind : String) :
    isAbsolute (path ++ behind) = isAbsolute path := by
  rw [Bool.eq_iff_iff, isAbsolute_iff, isAbsolute_iff]
  obtain ⟨c, chars, split⟩ := List.exists_cons_of_ne_nil (mt String.toList_eq_nil_iff.mp nonempty)
  constructor
  · rintro ⟨rest, same⟩
    rw [← String.toList_inj] at same
    simp only [String.toList_append, split] at same
    simp at same
    exact ⟨String.ofList chars, by rw [← String.toList_inj, split]; simp [same.1]⟩
  · rintro ⟨rest, rfl⟩
    exact ⟨rest ++ behind, String.append_assoc ..⟩

theorem isStep_inner (path : String) : ∀ c ∈ inner (Text.splitOn '/' path), c.IsStep :=
  fun _ => isStep_of_mem_inner fun _ => slash_not_mem

theorem isAbsolute_slash (before behind : String) :
    isAbsolute (before ++ "/" ++ behind) = isAbsolute (before ++ "/") :=
  isAbsolute_append (by simp) behind

/-- What stands behind a slash adds its pieces with a name. -/
theorem components_slash (before behind : String) (nonempty : before ≠ "") :
    components (before ++ "/" ++ behind) = components before ++ inner (Text.splitOn '/' behind) := by
  have lead : front (before ++ "/" ++ behind) = front before := by
    have absolute : isAbsolute (before ++ "/" ++ behind) = isAbsolute before := by
      rw [String.append_assoc, isAbsolute_append nonempty]
    have first : (Text.splitOn '/' (before ++ "/" ++ behind)).head? = (Text.splitOn '/' before).head? := by
      rw [splitOn_slash, List.head?_append_of_ne_nil _ (splitOn_ne_nil before)]
    rw [front, front, absolute, first]
  rw [components_front, components_front before, lead, splitOn_slash, inner_append, List.append_assoc]

theorem components_absolute {path : String} (absolute : isAbsolute path = true) :
    components path = .root :: inner (Text.splitOn '/' path) := by
  simp [components_front, front, absolute]

theorem components_join {base path : String} (nonempty : base ≠ "") (relative : isAbsolute path = false) :
    components (join base path) = components base ++ inner (Text.splitOn '/' path) := by
  obtain ⟨trunk, rfl | rfl, joined⟩ := join_relative nonempty relative
  · rw [joined, components_slash base path nonempty]
  · rw [joined]
    by_cases bare : trunk = ""
    · subst bare
      have root : isAbsolute ("" ++ "/") = true := by decide
      rw [components_absolute ((isAbsolute_slash "" path).trans root), components_absolute root,
        splitOn_slash]
      rfl
    · rw [components_slash trunk path bare, ← String.append_empty (s := trunk ++ "/"),
        components_slash trunk "" bare]
      simp [show inner (Text.splitOn '/' "") = [] from rfl]

theorem isAbsolute_join {base path : String} (nonempty : base ≠ "") (relative : isAbsolute path = false) :
    isAbsolute (join base path) = isAbsolute base := by
  obtain ⟨trunk, rfl | rfl, joined⟩ := join_relative nonempty relative
  · rw [joined, String.append_assoc, isAbsolute_append nonempty]
  · rw [joined, isAbsolute_slash]

/-- Where a path leads from its beginning on: all components but the directory itself. -/
def course (path : String) : List Component :=
  (components path).filter (· ≠ .current)

theorem filter_steps {steps : List Component} (proper : ∀ c ∈ steps, c.IsStep) :
    steps.filter (· ≠ .current) = steps := by
  refine List.filter_eq_self.mpr fun c member => ?_
  have step := proper c member
  cases c <;> simp_all [Component.IsStep]

theorem course_eq (path : String) :
    course path = (if isAbsolute path then [.root] else []) ++ inner (Text.splitOn '/' path) := by
  rw [course, components_front, List.filter_append, filter_steps (isStep_inner path), front]
  split
  · rfl
  · split <;> rfl

theorem course_of_bare {path : String} (bare : .current ∉ components path) : course path = components path :=
  List.filter_eq_self.mpr fun _ member => decide_eq_true fun same => bare (same ▸ member)

theorem course_relative {path : String} (relative : isAbsolute path = false) :
    course path = inner (Text.splitOn '/' path) := by
  simp [course_eq, relative]

theorem course_join (base : String) {path : String} (relative : isAbsolute path = false) :
    course (join base path) = course base ++ course path := by
  by_cases empty : base = ""
  · subst empty
    rw [join_empty_left]
    rfl
  · rw [course_relative relative, course, components_join empty relative, List.filter_append, course,
      filter_steps (isStep_inner path)]

theorem isAbsolute_of_splitOn {path piece : String} {pieces : List String}
    (split : Text.splitOn '/' path = piece :: pieces) (nonempty : piece ≠ "") : isAbsolute path = false := by
  rw [Bool.eq_false_iff]
  intro absolute
  obtain ⟨rest, rfl⟩ := (isAbsolute_iff path).mp absolute
  rw [splitOn_absolute] at split
  exact nonempty (List.cons_eq_cons.mp split).1.symm

theorem isAbsolute_of_free {piece : String} (free : '/' ∉ piece.toList) : isAbsolute piece = false := by
  by_cases empty : piece = ""
  · rw [empty, isAbsolute_empty]
  · exact isAbsolute_of_splitOn (splitOn_of_free free) empty

theorem course_name {name : String} (step : (Component.name name).IsStep) : course name = [.name name] := by
  rw [course_relative (isAbsolute_of_free step.2.2.2), splitOn_of_free step.2.2.2,
    inner_named ⟨step.1, step.2.1⟩, componentOf, if_neg step.2.2.1, inner_nil]

/-! ### Components written as paths -/

theorem texts_names (names : List String) : (names.map Component.name).map Component.text = names := by
  simp [Function.comp_def, Component.text]

theorem splitOn_texts {steps : List Component} (proper : ∀ c ∈ steps, c.IsStep) (nonempty : steps ≠ []) :
    Text.splitOn '/' (Text.join "/" (steps.map Component.text)) = steps.map Component.text := by
  refine splitOn_join (fun text member => ?_) (by simpa using nonempty)
  obtain ⟨c, given, rfl⟩ := List.mem_map.mp member
  exact text_free (proper c given)

theorem isAbsolute_texts {steps : List Component} (proper : ∀ c ∈ steps, c.IsStep) :
    isAbsolute (Text.join "/" (steps.map Component.text)) = false := by
  cases steps with
  | nil => decide
  | cons c steps =>
    have split := splitOn_texts proper (List.cons_ne_nil c steps)
    exact isAbsolute_of_splitOn split (text_named (proper c List.mem_cons_self)).1

/-- Steps with slashes between them read back. -/
theorem components_texts {steps : List Component} (proper : ∀ c ∈ steps, c.IsStep) :
    components (Text.join "/" (steps.map Component.text)) = steps := by
  cases steps with
  | nil => rfl
  | cons c steps =>
    have split := splitOn_texts proper (List.cons_ne_nil c steps)
    have named := text_named (proper c List.mem_cons_self)
    rw [components_front, front, isAbsolute_texts proper, split, inner_texts proper]
    simp [named.2]

theorem course_texts {steps : List Component} (proper : ∀ c ∈ steps, c.IsStep) :
    course (Text.join "/" (steps.map Component.text)) = steps := by
  rw [course, components_texts proper, filter_steps proper]

theorem components_led {lead : String} (given : lead ≠ "") {steps : List Component}
    (proper : ∀ c ∈ steps, c.IsStep) :
    components (Text.join "/" (lead :: steps.map Component.text)) = components lead ++ steps := by
  by_cases empty : steps = []
  · subst empty
    rw [List.map_nil, join_singleton, List.append_nil]
  · rw [join_cons lead (by simpa using empty), components_slash lead _ given,
      ← course_relative (isAbsolute_texts proper), course_texts proper]

/-- All components of a path, with slashes between them, read back. -/
theorem components_written (path : String) :
    components (Text.join "/" ((components path).map Component.text)) = components path := by
  have proper := isStep_inner path
  rw [components_front path, front]
  split
  · exact components_led (by decide) proper
  · split
    · exact components_led (by decide) proper
    · exact components_texts proper

theorem isAbsolute_iff_mem (path : String) : isAbsolute path = true ↔ .root ∈ components path := by
  have fresh : .root ∉ inner (Text.splitOn '/' path) := fun inside => isStep_inner path _ inside
  rw [components_front, List.mem_append, or_iff_left fresh, front]
  split
  · simp_all
  · split <;> simp_all

/-! ### Components behind others -/

theorem below?_go_iff {base path rest : List Component} :
    below?.go base path = some rest ↔ path = base ++ rest := by
  induction base generalizing path with
  | nil => simp [below?.go]
  | cons b base ih =>
    cases path with
    | nil => simp [below?.go]
    | cons c path =>
      rw [below?.go]
      split
      · rename_i same
        simp [ih, same]
      · rename_i other
        simp [Ne.symm other]

theorem below?_eq_some_iff {base path : String} {rest : List Component} :
    below? base path = some rest ↔ components path = components base ++ rest :=
  below?_go_iff

theorem below?_isSome_iff {base path : String} :
    (below? base path).isSome = true ↔ components base <+: components path := by
  rw [Option.isSome_iff_exists]
  exact exists_congr fun rest => below?_eq_some_iff.trans eq_comm

end PolicyLint.Path
