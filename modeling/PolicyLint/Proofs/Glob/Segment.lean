import PolicyLint.Proofs.Glob.Component
import PolicyLint.Proofs.Glob.Spelling
import PolicyLint.Proofs.Text.Reading
/-!
Globs are matched segment by segment. A pattern is a list of components and a path a list of segments;
every component other than `**` takes one segment, so only `**` can pass over slashes, and only whole
segments at a time.
-/
namespace PolicyLint.Glob

/-- A component fits a segment: `?` is any one byte, `*` any run of bytes, and every other character
the bytes it is written with. -/
inductive Fits : List Char → List UInt8 → Prop where
  | nil : Fits [] []
  | any {rest segment} (b : UInt8) (fits : Fits rest segment) : Fits ('?' :: rest) (b :: segment)
  | run {rest segment} (u : List UInt8) (fits : Fits rest segment) : Fits ('*' :: rest) (u ++ segment)
  | char {c rest segment} (one : c ≠ '?') (star : c ≠ '*') (fits : Fits rest segment) :
      Fits (c :: rest) (charBytes c ++ segment)

/-- Components walk along segments: `**` skips any number of segments, but at least one at the end of
the pattern, and every other component fits one segment. -/
inductive Walks : List (List Char) → List (List UInt8) → Prop where
  | done : Walks [] []
  | step {component segment components segments} (other : component ≠ stars)
      (fits : Fits component segment) (walks : Walks components segments) :
      Walks (component :: components) (segment :: segments)
  | skip {components segments} (skipped : List (List UInt8)) (more : components ≠ [])
      (walks : Walks components segments) : Walks (stars :: components) (skipped ++ segments)
  | rest {segments} (nonempty : segments ≠ []) : Walks [stars] segments

def components (pattern : String) : List (List Char) :=
  (toSlash pattern).toList.splitOn '/'

def segments (path : String) : List (List UInt8) :=
  (toSlash path).toUTF8.toList.splitOn slash

/-! ### Segments behind their slashes -/

/-- No segment holds a slash. -/
def Free (segments : List (List UInt8)) : Prop :=
  ∀ segment ∈ segments, slash ∉ segment

def joined (segments : List (List UInt8)) : List UInt8 :=
  segments.flatMap (slash :: ·)

theorem free_splitOn (path : List UInt8) : Free (path.splitOn slash) :=
  fun _ member => Text.not_mem_of_mem_splitOn member

theorem joined_append (before behind : List (List UInt8)) :
    joined (before ++ behind) = joined before ++ joined behind :=
  List.flatMap_append

theorem joined_eq {segments : List (List UInt8)} (nonempty : segments ≠ []) :
    joined segments = slash :: [slash].intercalate segments := by
  induction segments with
  | nil => exact absurd rfl nonempty
  | cons segment rest ih =>
    rcases rest with _ | ⟨next, more⟩
    · simp [joined]
    · have step : joined (segment :: next :: more) = slash :: segment ++ joined (next :: more) := rfl
      rw [step, ih (by simp), List.intercalate_cons_cons]
      simp

theorem joined_splitOn (path : List UInt8) : joined (path.splitOn slash) = slash :: path := by
  rw [joined_eq (List.splitOn_ne_nil _ _), List.intercalate_splitOn]

/-- Segments can be told from what they are joined to. -/
theorem joined_eq_iff {path : List UInt8} {segments : List (List UInt8)} (free : Free segments) :
    slash :: path = joined segments ↔ path.splitOn slash = segments := by
  constructor
  · intro same
    have nonempty : segments ≠ [] := by
      rintro rfl
      exact List.cons_ne_nil _ _ same
    rw [joined_eq nonempty, List.cons_inj_right] at same
    rw [same, List.splitOn_intercalate slash free nonempty]
  · rintro rfl
    rw [joined_splitOn]

/-! ### One component -/

/-- Only the slash itself has a slash among its bytes: those of characters beyond ASCII are larger. -/
theorem slash_not_mem_charBytes {c : Char} (other : c ≠ '/') : slash ∉ charBytes c := by
  have code : c.val.toNat ≠ 47 := fun same => other (Char.ext (UInt32.toNat_inj.mp same))
  unfold charBytes String.utf8EncodeChar slash
  dsimp only
  split <;> try split <;> try split
  all_goals
    simp only [List.mem_cons, List.not_mem_nil, or_false, ← UInt8.toNat_inj, UInt8.toNat_ofNat',
      UInt8.reduceToNat]
    omega

theorem fits_run {rest : List Char} {w : List UInt8} :
    Fits ('*' :: rest) w ↔ ∃ u v, w = u ++ v ∧ Fits rest v := by
  constructor
  · rintro (_ | _ | @⟨_, v, u, fits⟩ | ⟨-, star, -⟩)
    · exact ⟨u, v, rfl, fits⟩
    · exact absurd rfl star
  · rintro ⟨u, v, rfl, fits⟩
    exact .run u fits

theorem fits_any {rest : List Char} {w : List UInt8} :
    Fits ('?' :: rest) w ↔ ∃ b v, w = b :: v ∧ Fits rest v := by
  constructor
  · rintro (_ | @⟨_, v, b, fits⟩ | _ | ⟨one, -, -⟩)
    · exact ⟨b, v, rfl, fits⟩
    · exact absurd rfl one
  · rintro ⟨b, v, rfl, fits⟩
    exact .any b fits

theorem fits_char {c : Char} {rest : List Char} {w : List UInt8} (one : c ≠ '?') (star : c ≠ '*') :
    Fits (c :: rest) w ↔ ∃ v, w = charBytes c ++ v ∧ Fits rest v := by
  constructor
  · rintro (_ | _ | _ | @⟨_, _, v, -, -, fits⟩)
    · exact absurd rfl one
    · exact absurd rfl star
    · exact ⟨v, rfl, fits⟩
  · rintro ⟨v, rfl, fits⟩
    exact .char one star fits

theorem spells_append {before behind : List Token} {w : List UInt8} :
    Spells (before ++ behind) w ↔ ∃ u v, w = u ++ v ∧ Spells before u ∧ Spells behind v := by
  induction before generalizing w with
  | nil => simp [Spells]
  | cons t rest ih =>
    simp only [List.cons_append, Spells, ih]
    constructor
    · rintro ⟨u, -, rfl, takes, v, x, rfl, spells, behind⟩
      exact ⟨u ++ v, x, by simp, ⟨u, v, rfl, takes, spells⟩, behind⟩
    · rintro ⟨-, x, rfl, ⟨u, v, rfl, takes, spells⟩, behind⟩
      exact ⟨u, v ++ x, by simp, takes, v, x, rfl, spells, behind⟩

theorem spells_single {t : Token} {w : List UInt8} : Spells [t] w ↔ Takes t w := by
  simp [Spells]

theorem takes_byte {b : UInt8} {w : List UInt8} : Takes (.byte b) w ↔ w = [b] := by
  rw [Takes]

theorem spells_literal {c : Char} {w : List UInt8} : Spells (literal c) w ↔ w = charBytes c := by
  unfold literal
  generalize charBytes c = bytes
  induction bytes generalizing w with
  | nil => simp [Spells]
  | cons b rest ih => simp [Spells, takes_byte, ih]

theorem spells_component {component : List Char} (inside : '/' ∉ component) {w : List UInt8} :
    Spells (componentTokens component) w ↔ slash ∉ w ∧ Fits component w := by
  induction component generalizing w with
  | nil =>
    constructor
    · rintro rfl
      exact ⟨List.not_mem_nil, .nil⟩
    · rintro ⟨-, ⟨⟩⟩
      rfl
  | cons c rest ih =>
    obtain ⟨here, others⟩ := not_or.mp (List.mem_cons.not.mp inside)
    have tokens : componentTokens (c :: rest) = charTokens c ++ componentTokens rest := rfl
    simp only [tokens, spells_append, ih others]
    by_cases star : c = '*'
    · subst star
      rw [show charTokens '*' = [.run] from rfl, fits_run]
      simp only [spells_single, Takes]
      constructor
      · rintro ⟨u, v, rfl, run, free, fits⟩
        exact ⟨by simp [run, free], u, v, rfl, fits⟩
      · rintro ⟨free, u, v, rfl, fits⟩
        obtain ⟨run, free⟩ := not_or.mp (List.mem_append.not.mp free)
        exact ⟨u, v, rfl, run, free, fits⟩
    by_cases one : c = '?'
    · subst one
      rw [show charTokens '?' = [.any] from rfl, fits_any]
      simp only [spells_single, Takes]
      constructor
      · rintro ⟨-, v, rfl, ⟨b, byte, rfl⟩, free, fits⟩
        exact ⟨by simp [byte.symm, free], b, v, rfl, fits⟩
      · rintro ⟨free, b, v, rfl, fits⟩
        obtain ⟨byte, free⟩ := not_or.mp (List.mem_cons.not.mp free)
        exact ⟨[b], v, rfl, ⟨b, Ne.symm byte, rfl⟩, free, fits⟩
    · have bytes := slash_not_mem_charBytes (Ne.symm here)
      rw [show charTokens c = literal c by rw [charTokens, if_neg star, if_neg one],
        fits_char one star]
      simp only [spells_literal]
      constructor
      · rintro ⟨-, v, rfl, rfl, free, fits⟩
        exact ⟨by simp [bytes, free], v, rfl, fits⟩
      · rintro ⟨free, v, rfl, fits⟩
        obtain ⟨-, free⟩ := not_or.mp (List.mem_append.not.mp free)
        exact ⟨_, v, rfl, rfl, free, fits⟩

/-! ### Spans of segments -/

theorem takes_middle_iff {u : List UInt8} :
    Takes .middle u ↔ ∃ skipped, Free skipped ∧ u = joined skipped ++ [slash] := by
  simp only [Takes]
  constructor
  · rintro (rfl | ⟨inner, rfl⟩)
    · exact ⟨[], by simp [Free], rfl⟩
    · exact ⟨inner.splitOn slash, free_splitOn inner, by rw [joined_splitOn]⟩
  · rintro ⟨skipped, -, rfl⟩
    rcases skipped with _ | ⟨segment, rest⟩
    · exact .inl rfl
    · exact .inr ⟨segment ++ joined rest, rfl⟩

/-- Tokens of components behind others: they begin with the slash in front of them, and only a `**` at
the end of the pattern has nothing to follow it. -/
def Behind (tokens : List Token) : Prop :=
  tokens = [.trailing] ∨ ∃ rest, rest ≠ [] ∧ Token.leading ∉ rest ∧
    (tokens = .byte slash :: rest ∨ tokens = .middle :: rest)

theorem leading_not_mem_componentTokens (component : List Char) :
    Token.leading ∉ componentTokens component := by
  simp only [componentTokens, List.mem_flatMap, not_exists, not_and]
  intro c _
  unfold charTokens literal
  split
  · simp
  split <;> simp

theorem Behind.leading_not_mem {tokens : List Token} (behind : Behind tokens) :
    Token.leading ∉ tokens := by
  obtain rfl | ⟨rest, -, free, rfl | rfl⟩ := behind <;> simp [*]

theorem closed_tail {component : List Char} {rest : List (List Char)}
    (closed : (component :: rest).getLast? ≠ some []) : rest.getLast? ≠ some [] := by
  rcases rest with _ | ⟨next, more⟩
  · simp
  · rwa [List.getLast?_cons_cons] at closed

theorem behind_tokens {components : List (List Char)} (present : components ≠ [])
    (closed : components.getLast? ≠ .some []) : Behind (tokensBehind components) := by
  induction components with
  | nil => exact absurd rfl present
  | cons component rest ih =>
    have spoken := leading_not_mem_componentTokens component
    by_cases star : component = stars
    · subst star
      rw [tokensBehind_stars]
      by_cases last : rest = []
      · subst last
        exact .inl rfl
      obtain tokens | ⟨behind, nonempty, free, tokens | tokens⟩ := ih last (closed_tail closed)
      · exact .inl (by rw [tokens]; rfl)
      all_goals exact .inr ⟨behind, nonempty, free, .inr (by rw [tokens]; rfl)⟩
    · refine .inr ⟨_, ?_, ?_, .inl (tokensBehind_other star rest)⟩
      · by_cases last : rest = []
        · subst last
          have named : component ≠ [] := by simpa using closed
          obtain ⟨c, more, rfl⟩ := List.exists_cons_of_ne_nil named
          simp [componentTokens, charTokens_ne_nil]
        · simp [tokensBehind_ne_nil last]
      · by_cases last : rest = []
        · subst last
          simpa [tokensBehind_nil] using spoken
        · simp [spoken, (ih last (closed_tail closed)).leading_not_mem]

/-- A `**` takes whole segments in front of what follows it. -/
theorem spells_spanning {tokens : List Token} (behind : Behind tokens) {w : List UInt8} :
    Spells (spanning tokens) w ↔
      ∃ skipped v, Free skipped ∧ w = joined skipped ++ v ∧ Spells tokens v := by
  obtain rfl | ⟨rest, -, -, rfl | rfl⟩ := behind
  · simp only [spanning, spells_single, Takes]
    constructor
    · rintro ⟨u, rfl⟩
      exact ⟨[], _, by simp [Free], rfl, u, rfl⟩
    · rintro ⟨skipped, -, -, rfl, u, rfl⟩
      rcases skipped with _ | ⟨segment, more⟩
      · exact ⟨u, rfl⟩
      · exact ⟨_, rfl⟩
  · simp only [spanning, Spells, takes_middle_iff, takes_byte]
    constructor
    · rintro ⟨-, v, rfl, ⟨skipped, free, rfl⟩, spells⟩
      exact ⟨skipped, _, free, List.append_assoc .., [slash], v, rfl, rfl, spells⟩
    · rintro ⟨skipped, -, free, rfl, -, v, rfl, rfl, spells⟩
      exact ⟨_, v, (List.append_assoc ..).symm, ⟨skipped, free, rfl⟩, spells⟩
  · simp only [spanning, Spells, takes_middle_iff]
    constructor
    · intro spells
      exact ⟨[], w, by simp [Free], rfl, spells⟩
    · rintro ⟨skipped, -, free, rfl, -, v, rfl, ⟨more, free', rfl⟩, spells⟩
      refine ⟨joined (skipped ++ more) ++ [slash], v, by simp [joined_append], ⟨_, ?_, rfl⟩, spells⟩
      exact List.forall_mem_append.mpr ⟨free, free'⟩

/-! ### Whole patterns -/

theorem walks_stars_last {segments : List (List UInt8)} : Walks [stars] segments ↔ segments ≠ [] := by
  constructor
  · rintro (_ | ⟨other, -, -⟩ | ⟨_, more, -⟩ | nonempty)
    · exact absurd rfl other
    · exact absurd rfl more
    · exact nonempty
  · exact .rest

theorem walks_stars {components : List (List Char)} (more : components ≠ [])
    {segments : List (List UInt8)} : Walks (stars :: components) segments ↔
      ∃ skipped others, segments = skipped ++ others ∧ Walks components others := by
  constructor
  · rintro (_ | ⟨other, -, -⟩ | ⟨skipped, -, walks⟩ | _)
    · exact absurd rfl other
    · exact ⟨skipped, _, rfl, walks⟩
    · exact absurd rfl more
  · rintro ⟨skipped, others, rfl, walks⟩
    exact .skip skipped more walks

theorem walks_other {component : List Char} (other : component ≠ stars)
    {components : List (List Char)} {segments : List (List UInt8)} :
    Walks (component :: components) segments ↔
      ∃ segment others, segments = segment :: others ∧ Fits component segment ∧
        Walks components others := by
  constructor
  · rintro (_ | ⟨-, fits, walks⟩ | _ | _)
    · exact ⟨_, _, rfl, fits, walks⟩
    all_goals exact absurd rfl other
  · rintro ⟨segment, others, rfl, fits, walks⟩
    exact .step other fits walks

theorem spells_behind {components : List (List Char)} (closed : components.getLast? ≠ some [])
    (inside : ∀ component ∈ components, '/' ∉ component) {w : List UInt8} :
    Spells (tokensBehind components) w ↔
      ∃ segments, Free segments ∧ w = joined segments ∧ Walks components segments := by
  induction components generalizing w with
  | nil =>
    constructor
    · rintro rfl
      exact ⟨[], by simp [Free], rfl, .done⟩
    · rintro ⟨-, -, rfl, ⟨⟩⟩
      rfl
  | cons component rest ih =>
    obtain ⟨here, others⟩ := List.forall_mem_cons.mp inside
    have closed' := closed_tail closed
    by_cases star : component = stars
    · subst star
      rw [tokensBehind_stars]
      -- At the end `**` takes all that is left; before others it takes what they leave in front.
      by_cases last : rest = []
      · subst last
        simp only [tokensBehind_nil, spanning, spells_single, Takes, walks_stars_last]
        constructor
        · rintro ⟨u, rfl⟩
          exact ⟨u.splitOn slash, free_splitOn u, (joined_splitOn u).symm, List.splitOn_ne_nil _ _⟩
        · rintro ⟨segments, -, rfl, nonempty⟩
          exact ⟨_, joined_eq nonempty⟩
      · simp only [spells_spanning (behind_tokens last closed'), ih closed' others, walks_stars last]
        constructor
        · rintro ⟨skipped, -, free, rfl, segments, free', rfl, walks⟩
          exact ⟨skipped ++ segments, List.forall_mem_append.mpr ⟨free, free'⟩,
            (joined_append ..).symm, skipped, segments, rfl, walks⟩
        · rintro ⟨-, free, rfl, skipped, segments, rfl, walks⟩
          obtain ⟨free, free'⟩ := List.forall_mem_append.mp free
          exact ⟨skipped, _, free, joined_append .., segments, free', rfl, walks⟩
    · simp only [tokensBehind_other star, Spells, Takes, spells_append, spells_component here,
        ih closed' others, walks_other star]
      constructor
      · rintro ⟨-, -, rfl, rfl, segment, -, rfl, ⟨bare, fits⟩, segments, free, rfl, walks⟩
        exact ⟨segment :: segments, List.forall_mem_cons.mpr ⟨bare, free⟩, rfl, segment, segments, rfl,
          fits, walks⟩
      · rintro ⟨-, free, rfl, segment, segments, rfl, fits, walks⟩
        obtain ⟨bare, free⟩ := List.forall_mem_cons.mp free
        exact ⟨[slash], _, rfl, rfl, segment, _, rfl, ⟨bare, fits⟩, segments, free, rfl, walks⟩

/-- At its start a pattern takes no slash, so a path is read as if one stood before it. -/
theorem accepts_tokensOf {components : List (List Char)} (nonempty : components ≠ [])
    (closed : components.getLast? ≠ .some []) {path : List UInt8} :
    accepts (tokensOf components) path = true ↔ Spells (tokensBehind components) (slash :: path) := by
  rw [accepts_iff, tokensOf]
  obtain tokens | ⟨rest, more, free, tokens | tokens⟩ := behind_tokens nonempty closed
  · simp [tokens, spells_single, Takes]
  · have other : rest ≠ [.leading] := by
      rintro rfl
      simp at free
    simp [tokens, other, Spells, Takes]
  · simp only [tokens, List.cons.injEq, true_and, more, false_or, Spells, Takes]
    constructor
    · rintro ⟨-, v, rfl, rfl | ⟨u, rfl⟩, spells⟩
      · exact ⟨[slash], v, rfl, .inl rfl, spells⟩
      · exact ⟨_, v, rfl, .inr ⟨u, rfl⟩, spells⟩
    · rintro ⟨-, v, split, rfl | ⟨u, rfl⟩, spells⟩
      · exact ⟨[], v, List.cons_injective split, .inl rfl, spells⟩
      · exact ⟨u ++ [slash], v, List.cons_injective split, .inr ⟨u, rfl⟩, spells⟩

/-- A path matches a pattern without classes and alternatives, and with something behind its last
slash, exactly when its segments are taken one after the other by the pattern's components. -/
theorem isMatch_iff_walks (path pattern : String)
    (plain : ∀ component ∈ components pattern, ∀ c ∈ component, IsPlain c)
    (closed : (components pattern).getLast? ≠ some []) :
    isMatch path pattern = true ↔ Walks (components pattern) (segments path) := by
  have nonempty : components pattern ≠ [] := List.splitOn_ne_nil _ _
  have inside : ∀ component ∈ components pattern, '/' ∉ component :=
    fun _ member => Text.not_mem_of_mem_splitOn member
  have parsed : parse? (toSlash pattern) = .some (tokensOf (components pattern)) := by
    have read := read_components nonempty fun component member c character =>
      ⟨plain component member c character, fun slash => inside component member (slash ▸ character)⟩
    rwa [components, List.intercalate_splitOn] at read
  rw [isMatch, parsed]
  dsimp only
  rw [accepts_tokensOf nonempty closed, spells_behind closed inside]
  constructor
  · rintro ⟨others, free, same, walks⟩
    rwa [segments, (joined_eq_iff free).mp same]
  · intro walks
    exact ⟨_, free_splitOn _, (joined_splitOn _).symm, walks⟩

theorem sources_below_matched : isMatch "lib\\a/b.rs" "lib/**\\?.*" = true := by
  have names : components "lib/**\\?.*" = [['l', 'i', 'b'], stars, ['?', '.', '*']] := by decide +kernel
  have plain : ∀ component ∈ components "lib/**\\?.*", ∀ c ∈ component, IsPlain c := by
    simp [names, stars, IsPlain]
  refine (isMatch_iff_walks _ _ plain (by simp [names])).mpr ?_
  have parts : segments "lib\\a/b.rs" = [[108, 105, 98], [97], [98, 46, 114, 115]] := by decide +kernel
  have file : Fits ['?', '.', '*'] [98, 46, 114, 115] :=
    .any 98 (@Fits.char '.' _ _ (by decide) (by decide) (@Fits.run _ [] [114, 115] .nil))
  have folder : Fits ['l', 'i', 'b'] [108, 105, 98] :=
    @Fits.char 'l' _ _ (by decide) (by decide) (@Fits.char 'i' _ _ (by decide) (by decide)
      (@Fits.char 'b' _ _ (by decide) (by decide) .nil))
  rw [names, parts]
  exact .step (by decide) folder (@Walks.skip _ _ [[97]] (by simp) (.step (by decide) file .done))

end PolicyLint.Glob
