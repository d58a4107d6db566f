import PolicyLint.FilePattern.Expansion
import PolicyLint.Proofs.Document.Record
import PolicyLint.Proofs.Path.Component
/-!
Reading file patterns. Text without wildcards stands for itself, and what is read behind it is read as if
it stood alone, but for the positions of faults: a path joined in front of a pattern is looked up piece by
piece, and then the pattern is followed.
-/
namespace PolicyLint.FilePattern

/-! ### Text without wildcards -/

/-- A character that stands for itself. -/
def Stands (c : Char) : Prop :=
  c ≠ '*' ∧ c ≠ '?' ∧ c ≠ '['

instance : DecidablePred Stands :=
  fun _ => inferInstanceAs (Decidable (_ ∧ _))

def IsPlain (text : String) : Prop :=
  ∀ c ∈ text.toList, Stands c

instance : DecidablePred IsPlain :=
  fun text => List.decidableBAll Stands text.toList

def literal (text : String) : List Piece :=
  text.toList.map .char

theorem literal?_literal (text : String) : literal? (literal text) = some text := by
  have whole : ∀ cs : List Char, (cs.map Piece.char).mapM Piece.char? = some cs := by
    intro cs
    induction cs with
    | nil => rfl
    | cons c cs ih => rw [List.map_cons, List.mapM_cons, ih]; rfl
  rw [literal?, literal, whole, Option.map_some, String.ofList_toList]

theorem eq_literal_of_literal? {pieces : List Piece} {text : String} (found : literal? pieces = some text) :
    pieces = literal text := by
  have whole : ∀ {pieces : List Piece} {cs : List Char}, pieces.mapM Piece.char? = some cs →
      pieces = cs.map .char := by
    intro pieces
    induction pieces with
    | nil =>
      intro cs found
      obtain rfl := Option.some.inj found
      rfl
    | cons piece pieces ih =>
      intro cs found
      rw [List.mapM_cons] at found
      obtain ⟨c, first, found⟩ := Option.bind_eq_some_iff.mp found
      obtain ⟨rest, later, done⟩ := Option.bind_eq_some_iff.mp found
      obtain rfl := Option.some.inj done
      rw [ih later, List.map_cons]
      cases piece <;> simp_all [Piece.char?]
  obtain ⟨cs, read, rfl⟩ := Option.map_eq_some_iff.mp found
  rw [whole read, literal, String.toList_ofList]

theorem matchesName_literal (text : String) (cs : List Char) :
    matchesName (literal text) cs = true ↔ cs = text.toList := by
  unfold literal
  induction text.toList generalizing cs with
  | nil => simp [matchesName]
  | cons c chars ih => cases cs <;> simp [matchesName, ih]

theorem literal_ne_deep (text : String) : literal text ≠ [.deep] := by
  intro same
  obtain ⟨c, -, other⟩ := List.mem_map.mp (same ▸ List.mem_cons_self : Piece.deep ∈ literal text)
  cases other

theorem read_char {c : Char} (plain : Stands c) (position : Nat) (before : Option Char) (cs : List Char) :
    read position before (c :: cs) = (.char c :: ·) <$> read (position + 1) (some c) cs := by
  obtain ⟨noStar, noMark, noBracket⟩ := plain
  rw [read] <;> simp_all

theorem read_plain {lead : List Char} (plain : ∀ c ∈ lead, Stands c) (position : Nat)
    (before : Option Char) (cs : List Char) :
    read position before (lead ++ cs) =
      (lead.map .char ++ ·) <$> read (position + lead.length) (lead.getLast?.or before) cs := by
  induction lead generalizing position before with
  | nil => simp
  | cons c lead ih =>
    obtain ⟨here, plain⟩ := List.forall_mem_cons.mp plain
    have last : lead.getLast?.or (some c) = (c :: lead).getLast?.or before := by
      cases last : lead.getLast? <;> simp [List.getLast?_cons, last]
    rw [List.cons_append, read_char here, ih plain, last, Functor.map_map, List.length_cons,
      Nat.add_right_comm, Nat.add_assoc]
    rfl

theorem parse_plain {text : String} (plain : IsPlain text) : parse text = .ok (literal text) := by
  have whole := read_plain plain 0 none []
  rw [List.append_nil, read] at whole
  rw [parse, whole]
  simp [literal, Functor.map, Except.map]

/-! ### Faults -/

/-- A fault in text that begins farther on. -/
def Fault.shift (count : Nat) (fault : Fault) : Fault :=
  { fault with position := fault.position + count }

theorem mapError_map (f : α → β) (g : ε → ε') (step : Except ε α) :
    (f <$> step).mapError g = f <$> step.mapError g := by
  cases step <;> rfl

/-- What comes before some text counts only as far as `**` may follow it. -/
theorem read_shift (count : Nat) {position : Nat} {before before' : Option Char} {cs : List Char}
    (same : mayPrecede before = mayPrecede before')
    (free : 0 < position ∨ mayPrecede before = true) :
    read (position + count) before' cs = (read position before cs).mapError (Fault.shift count) := by
  fun_induction read position before cs generalizing before' with
  | case1 => rw [read]; rfl
  | case2 position before tail =>
    rw [read, Except.mapError, Fault.shift, Nat.add_right_comm]
  | case3 position before may => rw [read, if_pos (same ▸ may)]; rfl
  | case4 position before mayNot =>
    have positive := free.resolve_right mayNot
    rw [read, if_neg (same ▸ mayNot), Except.mapError, Fault.shift, Nat.sub_add_comm positive]
  | case5 position before rest may ih =>
    rw [read, if_pos (same ▸ may), mapError_map, ← ih rfl (.inr rfl), Nat.add_right_comm]
  | case6 position before rest mayNot =>
    have positive := free.resolve_right mayNot
    rw [read, if_neg (same ▸ mayNot), Except.mapError, Fault.shift, Nat.sub_add_comm positive]
  | case7 position before tail noStar noEnd noSlash =>
    rw [read]
    · rw [Except.mapError, Fault.shift, ← same]
      split
      · rw [Nat.add_right_comm]
      · rename_i mayNot
        rw [Nat.sub_add_comm (free.resolve_right mayNot)]
    all_goals assumption
  | case8 position before rest _ _ _ noStar ih =>
    rw [read]
    · rw [mapError_map, ← ih rfl (.inl (Nat.succ_pos _)), Nat.add_right_comm]
    all_goals assumption
  | case9 position before rest ih =>
    rw [read, mapError_map, ← ih rfl (.inl (Nat.succ_pos _)), Nat.add_right_comm]
  | case10 position before rest noMatch =>
    rw [read]
    split
    · rfl
    · simp_all
  | case11 position before rest piece after found shorter ih =>
    rw [read]
    split
    · simp_all
    · rename_i other rest' again
      obtain ⟨rfl, rfl⟩ := Prod.mk.inj (Option.some.inj (found.symm.trans again))
      rw [mapError_map, ← ih rfl (.inl (by omega))]
      congr 2
      omega
  | case12 position before c rest _ _ _ _ noStar noMark noBracket ih =>
    rw [read_char ⟨noStar, noMark, noBracket⟩, mapError_map, ← ih rfl (.inl (Nat.succ_pos _)),
      Nat.add_right_comm]

/-! ### Characters of a pattern -/

theorem classBody?_suffix {cs body after : List Char} (found : classBody? cs = some (body, after)) :
    after <:+ cs := by
  unfold classBody? at found
  split at found
  · contradiction
  · rename_i c rest
    split at found
    · rename_i closing tail dropped
      obtain ⟨-, rfl⟩ := Prod.mk.inj (Option.some.inj found)
      have suffix := List.dropWhile_suffix (· != ']') (l := rest)
      rw [dropped] at suffix
      exact (List.suffix_cons closing tail).trans (suffix.trans (List.suffix_cons c rest))
    · contradiction

theorem class?_suffix {cs after : List Char} {piece : Piece} (found : class? cs = some (piece, after)) :
    after <:+ cs ∧ piece.char? = none := by
  unfold class? at found
  split at found
  · obtain ⟨⟨body, behind⟩, inside, same⟩ := Option.map_eq_some_iff.mp found
    obtain ⟨rfl, rfl⟩ := Prod.mk.inj same
    exact ⟨(classBody?_suffix inside).trans (List.suffix_cons _ _), rfl⟩
  · obtain ⟨⟨body, behind⟩, inside, same⟩ := Option.map_eq_some_iff.mp found
    obtain ⟨rfl, rfl⟩ := Prod.mk.inj same
    exact ⟨classBody?_suffix inside, rfl⟩

/-- A character that pieces ask for stands in the text they were read from. -/
theorem char_of_read {position : Nat} {before : Option Char} {cs : List Char} {pieces : List Piece}
    (found : read position before cs = .ok pieces) {c : Char} (member : Piece.char c ∈ pieces) :
    c ∈ cs := by
  have further : ∀ {piece : Piece} {step : Except Fault (List Piece)} {pieces : List Piece},
      (piece :: ·) <$> step = .ok pieces → .char c ∈ pieces →
      piece = .char c ∨ ∃ rest, step = .ok rest ∧ .char c ∈ rest := by
    intro piece step pieces found member
    obtain ⟨rest, later, rfl⟩ := Document.map_eq_ok_iff.mp found
    rcases List.mem_cons.mp member with here | inside
    · exact .inl here.symm
    · exact .inr ⟨rest, later, inside⟩
  fun_induction read position before cs generalizing pieces with
  | case1 =>
    obtain rfl := Except.ok.inj found
    exact absurd member List.not_mem_nil
  | case3 =>
    obtain rfl := Except.ok.inj found
    simp at member
  | case2 | case4 | case6 | case7 | case10 => contradiction
  | case5 position before rest may ih =>
    rcases further found member with other | ⟨pieces, later, inside⟩
    · contradiction
    · exact List.mem_append_right ['*', '*', '/'] (ih later inside)
  | case8 position before rest _ _ _ _ ih | case9 position before rest ih =>
    rcases further found member with other | ⟨pieces, later, inside⟩
    · contradiction
    · exact List.mem_cons_of_mem _ (ih later inside)
  | case11 position before rest piece after read shorter ih =>
    obtain ⟨suffix, other⟩ := class?_suffix read
    rcases further found member with rfl | ⟨pieces, later, inside⟩
    · contradiction
    · exact List.mem_cons_of_mem _ (suffix.subset (ih later inside))
  | case12 position before d rest _ _ _ _ _ _ _ ih =>
    rcases further found member with same | ⟨pieces, later, inside⟩
    · obtain rfl := Piece.char.inj same
      exact List.mem_cons_self
    · exact List.mem_cons_of_mem _ (ih later inside)

/-! ### Compiling -/

/-- What components are read from: the slash that makes a pattern absolute is no part of them. -/
def trail (pattern : String) : String :=
  if Path.isAbsolute pattern then String.ofList (pattern.toList.drop 1) else pattern

/-- The components of a pattern, each read for itself. -/
def assemble (pattern : String) : Except Fault (List (List Piece)) := do
  let components ← (componentsOf (trail pattern)).mapM parse
  return mergeDeep (if trail pattern = "" then [[]] else components)

/-- A pattern is read as a whole, for its faults, and then component by component. -/
def compile (pattern : String) : Except Fault (List (List Piece)) := do
  let _ ← parse pattern
  assemble pattern

/-- Where a pattern is followed from. -/
def origin (pattern : String) : String :=
  if Path.isAbsolute pattern then "/" else "."

theorem origin_ne_empty (pattern : String) : origin pattern ≠ "" := by
  unfold origin
  split <;> decide

theorem isAbsolute_origin (pattern : String) :
    Path.isAbsolute (origin pattern) = Path.isAbsolute pattern := by
  unfold origin
  cases Path.isAbsolute pattern <;> decide

variable {tree : FileTree} {base : Place}

theorem expand_eq (tree : FileTree) (base : Place) (pattern : String) : expand tree base pattern =
    (fun components =>
      if Text.endsWith "/" pattern then
        (follow tree base (origin pattern) components).filter (tree.isDirectoryAt base)
      else follow tree base (origin pattern) components) <$> compile pattern := by
  unfold expand compile assemble
  dsimp only
  rw [← trail, ← origin]
  cases parse pattern with
  | error fault => rfl
  | ok pieces => cases (componentsOf (trail pattern)).mapM parse <;> rfl

theorem mem_mergeDeep {pieces : List Piece} {components : List (List Piece)}
    (member : pieces ∈ mergeDeep components) : pieces ∈ components := by
  fun_induction mergeDeep components with
  | case1 rest ih => exact List.mem_cons_of_mem _ (ih member)
  | case2 first rest _ ih =>
    rcases List.mem_cons.mp member with rfl | inside
    · exact List.mem_cons_self
    · exact List.mem_cons_of_mem _ (ih inside)
  | case3 => contradiction

theorem mergeDeep_append {before : List (List Piece)} (other : [.deep] ∉ before)
    (components : List (List Piece)) : mergeDeep (before ++ components) = before ++ mergeDeep components := by
  induction before with
  | nil => rfl
  | cons pieces before ih =>
    obtain ⟨here, other⟩ := not_or.mp (mt List.mem_cons.mpr other)
    rw [List.cons_append, List.cons_append, ← ih other, mergeDeep]
    exact fun _ deep _ => here deep.symm

theorem componentsOf_subset {pattern piece : String} (member : piece ∈ componentsOf pattern) :
    piece ∈ Text.splitOn '/' pattern := by
  unfold componentsOf at member
  dsimp only at member
  split at member
  · exact List.mem_of_mem_dropLast member
  · exact member

/-- No component of a pattern asks for a slash. -/
theorem slash_of_compile {pattern : String} {components : List (List Piece)}
    (found : compile pattern = .ok components) : ∀ pieces ∈ components, Piece.char '/' ∉ pieces := by
  obtain ⟨-, -, found⟩ := Document.bind_eq_ok_iff.mp found
  obtain ⟨parsed, read, done⟩ := Document.bind_eq_ok_iff.mp found
  obtain rfl := Except.ok.inj done
  intro pieces member slash
  have given := mem_mergeDeep member
  split at given
  · obtain rfl := List.mem_singleton.mp given
    exact absurd slash List.not_mem_nil
  · obtain ⟨piece, inside, same⟩ := (Document.mem_of_mapM read).1 pieces given
    exact Path.slash_not_mem (componentsOf_subset inside) (char_of_read same slash)

/-! ### A path before a pattern -/

theorem join_eq_append (root : String) {pattern : String} (relative : Path.isAbsolute pattern = false) :
    Path.join root pattern = Path.join root "" ++ pattern := by
  unfold Path.join
  simp only [relative, Path.isAbsolute_empty, Bool.false_eq_true, false_or]
  split
  · rw [String.empty_append]
  · split <;> simp

/-- A path that patterns can be joined to ends in a slash, when there is any. -/
theorem trail_join (root : String) : trail (Path.join root "") = "" ∨
    ∃ trunk, trail (Path.join root "") = trunk ++ "/" := by
  by_cases empty : root = ""
  · exact .inl (by rw [empty]; decide)
  · obtain ⟨trunk, -, joined⟩ := Path.join_relative empty Path.isAbsolute_empty
    rw [String.append_empty] at joined
    rw [joined, trail]
    split
    · cases chars : trunk.toList with
      | nil => exact .inl (by simp [String.toList_append, chars])
      | cons c rest => exact .inr ⟨String.ofList rest, by rw [← String.toList_inj]; simp [chars]⟩
    · exact .inr ⟨trunk, rfl⟩

theorem trail_append (root : String) {pattern : String} (relative : Path.isAbsolute pattern = false) :
    trail (Path.join root pattern) = trail (Path.join root "") ++ pattern := by
  rw [join_eq_append root relative]
  by_cases empty : Path.join root "" = ""
  · rw [empty, String.empty_append, trail, if_neg (by simp [relative])]
    rfl
  · unfold trail
    rw [Path.isAbsolute_append empty]
    split
    · rename_i absolute
      obtain ⟨rest, same⟩ := (Path.isAbsolute_iff _).mp absolute
      rw [same, ← String.toList_inj]
      simp
    · rfl

theorem componentsOf_slash (trunk pattern : String) :
    componentsOf (trunk ++ "/" ++ pattern) = Text.splitOn '/' trunk ++ componentsOf pattern := by
  have nonempty := Path.splitOn_ne_nil pattern
  unfold componentsOf
  dsimp only
  rw [Path.splitOn_slash, List.getLast?_append_of_ne_nil _ nonempty]
  split
  · rw [List.dropLast_append_of_ne_nil nonempty]
  · rfl

theorem componentsOf_slash_end (trunk : String) : componentsOf (trunk ++ "/") = Text.splitOn '/' trunk := by
  have empty : componentsOf "" = [] := by decide
  rw [← String.append_empty (s := trunk ++ "/"), componentsOf_slash, empty, List.append_nil]

theorem componentsOf_append {lead : String} (ends : lead = "" ∨ ∃ trunk, lead = trunk ++ "/")
    (pattern : String) : componentsOf (lead ++ pattern) = componentsOf lead ++ componentsOf pattern := by
  rcases ends with rfl | ⟨trunk, rfl⟩
  · rw [String.empty_append]
    rfl
  · rw [componentsOf_slash, componentsOf_slash_end]

/-- The pieces of a path before a pattern. -/
def leading (root : String) : List String :=
  componentsOf (trail (Path.join root ""))

theorem mem_of_mem_trail {text : String} {c : Char} (inside : c ∈ (trail text).toList) :
    c ∈ text.toList := by
  unfold trail at inside
  split at inside
  · rw [String.toList_ofList] at inside
    exact List.mem_of_mem_drop inside
  · exact inside

theorem isPlain_join {root : String} (plain : IsPlain root) : IsPlain (Path.join root "") := by
  by_cases empty : root = ""
  · subst empty
    rwa [Path.join_empty_left]
  · obtain ⟨trunk, whole, joined⟩ := Path.join_relative empty Path.isAbsolute_empty
    have trunkPlain : IsPlain trunk := by
      rcases whole with rfl | rfl
      · exact plain
      · exact fun c inside => plain c (by rw [String.toList_append]; exact List.mem_append_left _ inside)
    intro c inside
    rw [joined, String.append_empty, String.toList_append] at inside
    rcases List.mem_append.mp inside with before | slash
    · exact trunkPlain c before
    · obtain rfl : c = '/' := by simpa using slash
      decide

theorem isPlain_leading {root : String} (plain : IsPlain root) : ∀ piece ∈ leading root, IsPlain piece :=
  fun _ member _ inside =>
    isPlain_join plain _ (mem_of_mem_trail (Path.mem_of_mem_splitOn (componentsOf_subset member) inside))

theorem getLast?_join (root : String) :
    mayPrecede none = mayPrecede ((Path.join root "").toList.getLast?.or none) := by
  by_cases empty : root = ""
  · subst empty
    decide
  · obtain ⟨trunk, -, joined⟩ := Path.join_relative empty Path.isAbsolute_empty
    simp [joined, mayPrecede]

theorem parse_join {root pattern : String} (plain : IsPlain root)
    (relative : Path.isAbsolute pattern = false) :
    parse (Path.join root pattern) = (literal (Path.join root "") ++ ·) <$>
      (parse pattern).mapError (Fault.shift (Path.join root "").length) := by
  rw [join_eq_append root relative, parse, String.toList_append, read_plain (isPlain_join plain), Nat.zero_add,
    parse, ← read_shift _ (getLast?_join root) (.inr rfl), Nat.zero_add]
  rfl

theorem mapM_leading {root : String} (plain : IsPlain root) (pieces : List String) :
    (leading root ++ pieces).mapM parse = ((leading root).map literal ++ ·) <$> pieces.mapM parse := by
  have first : (leading root).mapM parse = .ok ((leading root).map literal) := by
    rw [Document.mapM_eq_ok_iff, List.forall₂_map_right_iff, List.forall₂_same]
    exact fun piece member => parse_plain (isPlain_leading plain piece member)
  rw [List.mapM_append, first]
  cases pieces.mapM parse <;> rfl

theorem assemble_join {root pattern : String} (plain : IsPlain root)
    (relative : Path.isAbsolute pattern = false) (nonempty : pattern ≠ "") :
    assemble (Path.join root pattern) = ((leading root).map literal ++ ·) <$> assemble pattern := by
  have here : trail pattern = pattern := if_neg (by simp [relative])
  have whole : trail (Path.join root pattern) = trail (Path.join root "") ++ pattern :=
    trail_append root relative
  have more : trail (Path.join root "") ++ pattern ≠ "" := fun same => by
    have nothing := String.toList_eq_nil_iff.mpr same
    rw [String.toList_append] at nothing
    exact nonempty (String.toList_eq_nil_iff.mp (List.append_eq_nil_iff.mp nothing).2)
  have other : [Piece.deep] ∉ (leading root).map literal := by
    intro member
    obtain ⟨piece, -, same⟩ := List.mem_map.mp member
    exact literal_ne_deep piece same
  simp only [assemble, whole, here, componentsOf_append (trail_join root), if_neg more, if_neg nonempty]
  rw [← leading, mapM_leading plain]
  cases (componentsOf pattern).mapM parse with
  | error fault => rfl
  | ok components => exact congrArg Except.ok (mergeDeep_append other components)

/-- A pattern behind a path without wildcards is the path's pieces, as they are, and then the pattern. -/
theorem compile_join {root pattern : String} (plain : IsPlain root)
    (relative : Path.isAbsolute pattern = false) (nonempty : pattern ≠ "") :
    compile (Path.join root pattern) = (do
      let _ ← (parse pattern).mapError (Fault.shift (Path.join root "").length)
      ((leading root).map literal ++ ·) <$> assemble pattern) := by
  rw [compile, parse_join plain relative, assemble_join plain relative nonempty]
  cases parse pattern <;> rfl

end PolicyLint.FilePattern
