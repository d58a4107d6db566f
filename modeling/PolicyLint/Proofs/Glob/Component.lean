import Mathlib.Data.List.Basic
import PolicyLint.Glob.Match
/-!
Reading a glob component by component. In a pattern without classes and alternatives a component between
slashes has tokens of its own; a component `**` has none, but takes the slashes around it into one token,
and a run of such components has the same token as one of them.
-/
namespace PolicyLint.Glob

def charTokens (c : Char) : List Token :=
  if c = '*' then [.run] else if c = '?' then [.any] else literal c

theorem charTokens_ne_nil (c : Char) : charTokens c ≠ [] := by
  unfold charTokens literal charBytes
  split
  · simp
  split
  · simp
  · simp [String.utf8EncodeChar_ne_nil]

/-- The tokens of a component that is not `**`. -/
def componentTokens (component : List Char) : List Token :=
  component.flatMap charTokens

def stars : List Char := ['*', '*']

/-- What `**` makes of the tokens behind it: it takes the place of their slash, and adds nothing to
another `**`. -/
def spanning : List Token → List Token
  | [] => [.trailing]
  | .byte _ :: rest => .middle :: rest
  | tokens => tokens

/-- The tokens of components that follow others, each behind a slash. -/
def tokensBehind : List (List Char) → List Token
  | [] => []
  | component :: rest =>
    if component = stars then spanning (tokensBehind rest)
    else .byte slash :: (componentTokens component ++ tokensBehind rest)

theorem tokensBehind_nil : tokensBehind [] = [] :=
  rfl

theorem tokensBehind_stars (rest : List (List Char)) :
    tokensBehind (stars :: rest) = spanning (tokensBehind rest) :=
  if_pos rfl

theorem tokensBehind_other {component : List Char} (other : component ≠ stars)
    (rest : List (List Char)) :
    tokensBehind (component :: rest) =
      .byte slash :: (componentTokens component ++ tokensBehind rest) :=
  if_neg other

/-- The tokens of a pattern's components: no slash comes before the first one. -/
def tokensOf (components : List (List Char)) : List Token :=
  match tokensBehind components with
  | [] => []
  | .byte _ :: rest => rest
  | _ :: rest => .leading :: rest

/-- A character that opens or closes no class and no group. -/
def IsPlain (c : Char) : Prop :=
  c ≠ '[' ∧ c ≠ ']' ∧ c ≠ '\x7b' ∧ c ≠ '\x7d'
variable {branch : List Token} {afterSlash : Bool} {rest : List Char}

/-! ### Single characters -/

theorem read_slash : read ⟨[], branch, afterSlash⟩ ('/' :: rest) =
    read ⟨[], .byte slash :: branch, true⟩ rest := by
  rw [read]
  · rfl
  all_goals simp

theorem read_char {c : Char} (plain : IsPlain c) (star : c ≠ '*') (inside : c ≠ '/') :
    read ⟨[], branch, afterSlash⟩ (c :: rest) =
      read ⟨[], (charTokens c).reverse ++ branch, false⟩ rest := by
  obtain ⟨bracket, -, opening, closing⟩ := plain
  by_cases one : c = '?'
  · subst one
    rw [read]
    rfl
  have tokens : charTokens c = literal c := by rw [charTokens, if_neg star, if_neg one]
  -- Outside of groups a comma is a character like any other.
  by_cases comma : c = ','
  · subst comma
    rw [read]
    rfl
  · rw [read, tokens, decide_eq_false inside]
    · rfl
    all_goals simp_all

theorem read_star (single : rest.head? ≠ some '*') :
    read ⟨[], branch, afterSlash⟩ ('*' :: rest) = read ⟨[], .run :: branch, false⟩ rest := by
  rw [read]
  · rfl
  · rintro more rfl
    exact single rfl

theorem read_stars {branch' : List Token} {afterSlash' : Bool} {rest' : List Char}
    (stars : State.twoStars ⟨[], branch, afterSlash⟩ rest = (⟨[], branch', afterSlash'⟩, rest')) :
    read ⟨[], branch, afterSlash⟩ ('*' :: '*' :: rest) = read ⟨[], branch', afterSlash'⟩ rest' := by
  rw [read, stars]

/-- Two stars in the middle of a component are two single stars. -/
theorem twoStars_inside (inside : branch ≠ [] ∧ afterSlash = false ∨
      ∃ c more, c ≠ '/' ∧ rest = c :: more) :
    State.twoStars ⟨[], branch, afterSlash⟩ rest = (⟨[], .run :: .run :: branch, false⟩, rest) := by
  rcases inside with ⟨nonempty, rfl⟩ | ⟨c, more, other, rfl⟩
  · obtain ⟨t, before, rfl⟩ := List.exists_cons_of_ne_nil nonempty
    rfl
  · unfold State.twoStars
    cases branch with
    | nil =>
      dsimp only
      split
      · simp_all
      · simp_all
      · rfl
    | cons t before =>
      cases afterSlash with
      | false => rfl
      | true =>
        dsimp only
        rw [if_pos rfl]
        split
        · simp_all
        · simp_all
        · simp [State.push]

/-! ### Components -/

/-- What may follow a component: the end of the pattern, or a slash. -/
def EndsComponent (rest : List Char) : Prop :=
  rest = [] ∨ rest.head? = some '/'

theorem EndsComponent.not_star (ends : EndsComponent rest) : rest.head? ≠ some '*' := by
  rcases ends with rfl | slash
  · simp
  · simp [slash]

/-- A character of a component, other than the first of two stars. -/
theorem read_next (ends : EndsComponent rest) {c : Char} {more : List Char}
    (plain : IsPlain c ∧ c ≠ '/') (single : ¬ (c = '*' ∧ more.head? = some '*')) :
    read ⟨[], branch, afterSlash⟩ (c :: more ++ rest) =
      read ⟨[], (charTokens c).reverse ++ branch, false⟩ (more ++ rest) := by
  by_cases star : c = '*'
  · subst star
    rw [List.cons_append, read_star]
    · rfl
    · cases more with
      | nil => exact ends.not_star
      | cons d more => simpa using single
  · exact read_char plain.1 star plain.2

theorem read_inside (ends : EndsComponent rest) (component : List Char) {branch : List Token}
    (plain : ∀ c ∈ component, IsPlain c ∧ c ≠ '/') (started : branch ≠ []) :
    read ⟨[], branch, false⟩ (component ++ rest) =
      read ⟨[], (componentTokens component).reverse ++ branch, false⟩ rest := by
  match component with
  | [] => rfl
  | c :: more =>
    obtain ⟨here, others⟩ := List.forall_mem_cons.mp plain
    by_cases two : c = '*' ∧ more.head? = some '*'
    · obtain ⟨rfl, second⟩ := two
      obtain ⟨more, rfl⟩ : ∃ more', more = '*' :: more' := by
        cases more <;> simp_all
      obtain ⟨-, others⟩ := List.forall_mem_cons.mp others
      rw [List.cons_append, List.cons_append, read_stars (twoStars_inside (.inl ⟨started, rfl⟩)),
        read_inside ends more others (by simp)]
      simp [componentTokens, charTokens]
    · rw [read_next ends here two, read_inside ends more others (by simp [started])]
      simp [componentTokens]
termination_by component.length

/-- A component that is not `**` adds its tokens; an empty one is still behind its slash. -/
theorem read_component (ends : EndsComponent rest) {component : List Char}
    (plain : ∀ c ∈ component, IsPlain c ∧ c ≠ '/') (other : component ≠ stars) :
    read ⟨[], branch, afterSlash⟩ (component ++ rest) =
      read ⟨[], (componentTokens component).reverse ++ branch,
        if component = [] then afterSlash else false⟩ rest := by
  rcases component with _ | ⟨c, more⟩
  · rfl
  obtain ⟨here, others⟩ := List.forall_mem_cons.mp plain
  by_cases two : c = '*' ∧ more.head? = some '*'
  · obtain ⟨rfl, second⟩ := two
    obtain ⟨d, more, rfl⟩ : ∃ d more', more = '*' :: d :: more' := by
      rcases more with _ | ⟨e, _ | ⟨d, more⟩⟩ <;> simp_all [stars]
    obtain ⟨-, others⟩ := List.forall_mem_cons.mp others
    have next : d ≠ '/' := (others d (by simp)).2
    rw [List.cons_append, List.cons_append,
      read_stars (@twoStars_inside _ _ (d :: more ++ rest) (.inr ⟨d, more ++ rest, next, rfl⟩)),
      read_inside ends (d :: more) others (by simp)]
    simp [componentTokens, charTokens]
  · have started : (charTokens c).reverse ++ branch ≠ [] := by simp [charTokens_ne_nil]
    rw [read_next ends here two, read_inside ends more others started]
    simp [componentTokens]

/-! ### Whole patterns -/

theorem spanning_spanning (tokens : List Token) : spanning (spanning tokens) = spanning tokens := by
  cases tokens with
  | nil => rfl
  | cons t rest => cases t <;> rfl

theorem tokensBehind_ne_nil {components : List (List Char)} (nonempty : components ≠ []) :
    tokensBehind components ≠ [] := by
  obtain ⟨component, rest, rfl⟩ := List.exists_cons_of_ne_nil nonempty
  by_cases star : component = stars
  · subst star
    rw [tokensBehind_stars]
    unfold spanning
    split <;> simp_all
  · simp [tokensBehind_other star]

/-- Tokens behind a token that has already taken their slash. -/
def resume : Token → List Token → List Token
  | .leading, _ :: rest => .leading :: rest
  | .middle, tokens => spanning tokens
  | _, tokens => tokens

theorem read_behind {components : List (List Char)} (nonempty : components ≠ [])
    (plain : ∀ component ∈ components, ∀ c ∈ component, IsPlain c ∧ c ≠ '/') {head : Token}
    (opens : head = .byte slash ∨ head = .leading ∨ head = .middle) (before : List Token) :
    read ⟨[], head :: before, true⟩ (['/'].intercalate components) =
      .some (before.reverse ++ resume head (tokensBehind components)) := by
  -- The token in front differs from component to component; `resume` is what they share.
  induction components generalizing head before with
  | nil => exact absurd rfl nonempty
  | cons component rest ih =>
    obtain ⟨here, others⟩ := List.forall_mem_cons.mp plain
    rcases rest with _ | ⟨next, more⟩
    · rw [List.intercalate_singleton]
      by_cases star : component = stars
      · subst star
        change read _ ['*', '*'] = _
        rcases opens with rfl | rfl | rfl <;>
          rw [read_stars rfl] <;> simp [read, tokensBehind_stars, tokensBehind_nil, resume, spanning]
      · rw [← List.append_nil component, read_component (.inl rfl) here star]
        rcases opens with rfl | rfl | rfl <;> simp [read, tokensBehind_other star, tokensBehind_nil, resume, spanning]
    · rw [List.intercalate_cons_cons]
      have behind : tokensBehind (next :: more) ≠ [] := tokensBehind_ne_nil (by simp)
      by_cases star : component = stars
      · subst star
        rw [tokensBehind_stars]
        change read _ ('*' :: '*' :: '/' :: ['/'].intercalate (next :: more)) = _
        obtain ⟨t, behind, isTokens⟩ := List.exists_cons_of_ne_nil behind
        rcases opens with rfl | rfl | rfl
        · rw [read_stars rfl, ih (by simp) others (.inr (.inr rfl))]
          rfl
        · rw [read_stars rfl, ih (by simp) others (.inr (.inl rfl)), isTokens]
          cases t <;> rfl
        · rw [read_stars rfl, ih (by simp) others (.inr (.inr rfl))]
          simp only [resume, spanning_spanning]
      · rw [List.append_assoc, read_component (.inr rfl) here star, List.singleton_append, read_slash,
          ih (by simp) others (.inl rfl)]
        rcases opens with rfl | rfl | rfl <;> simp [tokensBehind_other star, resume, spanning]

theorem read_components {components : List (List Char)} (nonempty : components ≠ [])
    (plain : ∀ component ∈ components, ∀ c ∈ component, IsPlain c ∧ c ≠ '/') :
    read ⟨[], [], false⟩ (['/'].intercalate components) = .some (tokensOf components) := by
  obtain ⟨component, rest, rfl⟩ := List.exists_cons_of_ne_nil nonempty
  obtain ⟨here, others⟩ := List.forall_mem_cons.mp plain
  rcases rest with _ | ⟨next, more⟩
  · rw [List.intercalate_singleton]
    by_cases star : component = stars
    · subst star
      change read _ ['*', '*'] = _
      rw [read_stars rfl]
      simp [read, tokensOf, tokensBehind_stars, tokensBehind_nil, spanning]
    · rw [← List.append_nil component, read_component (.inl rfl) here star]
      simp [read, tokensOf, tokensBehind_other star, tokensBehind_nil]
  · rw [List.intercalate_cons_cons]
    by_cases star : component = stars
    · subst star
      obtain ⟨t, behind, tokens⟩ :=
        List.exists_cons_of_ne_nil (@tokensBehind_ne_nil (next :: more) (by simp))
      have opened := read_behind (by simp) others (.inr (.inl rfl)) []
      change read _ ('*' :: '*' :: '/' :: ['/'].intercalate (next :: more)) = _
      refine (read_stars rfl).trans (opened.trans ?_)
      rw [tokensOf, tokensBehind_stars, tokens]
      cases t <;> rfl
    · rw [List.append_assoc, read_component (.inr rfl) here star, List.singleton_append, read_slash,
        read_behind (by simp) others (.inl rfl)]
      simp [tokensOf, tokensBehind_other star, resume]

end PolicyLint.Glob
