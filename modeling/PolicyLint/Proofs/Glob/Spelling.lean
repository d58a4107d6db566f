import Mathlib.Data.List.Basic
import PolicyLint.Glob.Match
/-!
What the tokens of a glob take of a path. The places that a matcher keeps behind each token are the
ends of what the tokens so far may have taken, although of two ways to one place only one is kept; so
a path matches exactly when the tokens spell it out.
-/
namespace PolicyLint.Glob

mutual

/-- A token takes a part of a path. -/
def Takes : Token → List UInt8 → Prop
  | .byte b, w => w = [b]
  | .any, w => ∃ b, b ≠ slash ∧ w = [b]
  | .run, w => slash ∉ w
  | .leading, w => w = [] ∨ ∃ u, w = u ++ [slash]
  | .middle, w => w = [slash] ∨ ∃ u, w = slash :: u ++ [slash]
  | .trailing, w => ∃ u, w = slash :: u
  | .cls negated ranges, w => ∃ b, inClass negated ranges b = true ∧ w = [b]
  | .alternatives branches, w => areSilent branches = true ∧ w = [] ∨ SpellsOneOf branches w

/-- Tokens spell a path when each takes its part of it, in their order. -/
def Spells : List Token → List UInt8 → Prop
  | [], w => w = []
  | t :: rest, w => ∃ u v, w = u ++ v ∧ Takes t u ∧ Spells rest v

/-- Silent branches spell nothing. -/
def SpellsOneOf : List (List Token) → List UInt8 → Prop
  | [], _ => False
  | branch :: rest, w => isSilent branch = false ∧ Spells branch w ∨ SpellsOneOf rest w

end

/-! ### Places behind a token -/

/-- What stands in front of an end of a path: nothing, or its first byte and more. -/
theorem exists_front_iff {taken : List UInt8 → Prop} {b : UInt8} {rest p : List UInt8} :
    (∃ w, taken w ∧ w ++ p = b :: rest) ↔
      taken [] ∧ p = b :: rest ∨ ∃ w, taken (b :: w) ∧ w ++ p = rest := by
  constructor
  · rintro ⟨_ | ⟨c, w⟩, here, split⟩
    · exact .inl ⟨here, split⟩
    · obtain ⟨rfl, rfl⟩ := List.cons_eq_cons.mp split
      exact .inr ⟨w, here, rfl⟩
  · rintro (⟨here, rfl⟩ | ⟨w, here, rfl⟩)
    · exact ⟨[], here, rfl⟩
    · exact ⟨b :: w, here, rfl⟩

theorem mem_afterRun {p place : List UInt8} :
    p ∈ afterRun place ↔ ∃ w, slash ∉ w ∧ w ++ p = place := by
  induction place with
  | nil => simp [afterRun]
  | cons b rest ih =>
    rw [afterRun, List.mem_cons, exists_front_iff]
    by_cases separator : b = slash
    · simp [separator]
    · simp [separator, Ne.symm separator, ih]

theorem mem_everywhere {p place : List UInt8} : p ∈ everywhere place ↔ ∃ w, w ++ p = place := by
  induction place with
  | nil => simp [everywhere]
  | cons b rest ih =>
    have front := @exists_front_iff (fun _ => True) b rest p
    simp only [true_and] at front
    rw [everywhere, List.mem_cons, front, ih]

theorem mem_afterSlashes {p place : List UInt8} :
    p ∈ afterSlashes place ↔ ∃ w, w ++ slash :: p = place := by
  induction place with
  | nil => simp [afterSlashes]
  | cons b rest ih =>
    have front := @exists_front_iff (fun _ => True) b rest (slash :: p)
    simp only [true_and] at front
    rw [afterSlashes, front]
    by_cases separator : b = slash
    · simp [separator, ih]
    · simp [separator, Ne.symm separator, ih]

/-- Two ends of one path that leave equally much are the same, so no place is lost. -/
theorem mem_distinct {path : List UInt8} {places : List (List UInt8)}
    (within : ∀ p ∈ places, p <:+ path) {p : List UInt8} : p ∈ distinct places ↔ p ∈ places := by
  induction places generalizing p with
  | nil => rfl
  | cons q rest ih =>
    obtain ⟨here, others⟩ := List.forall_mem_cons.mp within
    have step : distinct (q :: rest) =
        if (distinct rest).any (·.length == q.length) then distinct rest else q :: distinct rest := rfl
    rw [step]
    split
    · rename_i known
      obtain ⟨r, kept, long⟩ : ∃ r ∈ distinct rest, r.length = q.length := by simpa using known
      have there := (ih others).mp kept
      have same : r = q := (List.suffix_of_suffix_length_le (others r there) here
        (Nat.le_of_eq long)).eq_of_length long
      subst same
      rw [ih others, List.mem_cons]
      exact ⟨.inr, fun member => member.elim (· ▸ there) id⟩
    · rw [List.mem_cons, List.mem_cons, ih others]

theorem mem_distinct_flatMap {path : List UInt8} {places : List (List UInt8)}
    (within : ∀ p ∈ places, p <:+ path) {next : List UInt8 → List (List UInt8)}
    {taken : List UInt8 → Prop}
    (reaches : ∀ place p, p ∈ next place ↔ ∃ w, taken w ∧ w ++ p = place) {p : List UInt8} :
    p ∈ distinct (places.flatMap next) ↔ ∃ w, taken w ∧ w ++ p ∈ places := by
  have within' : ∀ p ∈ places.flatMap next, p <:+ path := by
    intro p member
    obtain ⟨place, member, reached⟩ := List.mem_flatMap.mp member
    obtain ⟨w, -, rfl⟩ := (reaches place p).mp reached
    exact (List.suffix_append w p).trans (within _ member)
  simp only [mem_distinct within', List.mem_flatMap, reaches]
  exact ⟨fun ⟨_, member, w, here, split⟩ => ⟨w, here, split ▸ member⟩,
    fun ⟨w, here, member⟩ => ⟨_, member, w, here, rfl⟩⟩

theorem mem_filterMap_places {places : List (List UInt8)} {next : List UInt8 → Option (List UInt8)}
    {taken : List UInt8 → Prop}
    (reaches : ∀ place p, next place = some p ↔ ∃ w, taken w ∧ w ++ p = place) {p : List UInt8} :
    p ∈ places.filterMap next ↔ ∃ w, taken w ∧ w ++ p ∈ places := by
  simp only [List.mem_filterMap, reaches]
  exact ⟨fun ⟨_, member, w, here, split⟩ => ⟨w, here, split ▸ member⟩,
    fun ⟨w, here, member⟩ => ⟨_, member, w, here, rfl⟩⟩

/-- A silent choice lets every place through, and a choice with a word in it no place. -/
theorem not_spellsOneOf_of_areSilent {branches : List (List Token)} {w : List UInt8}
    (quiet : areSilent branches = true) : ¬ SpellsOneOf branches w := by
  induction branches with
  | nil => simp [SpellsOneOf]
  | cons branch rest ih =>
    simp only [areSilent, Bool.and_eq_true] at quiet
    simp [SpellsOneOf, quiet.1, ih quiet.2]

mutual

theorem mem_after (t : Token) {path : List UInt8} {places : List (List UInt8)}
    (within : ∀ p ∈ places, p <:+ path) {p : List UInt8} :
    p ∈ t.after places ↔ ∃ w, Takes t w ∧ w ++ p ∈ places := by
  cases t with
  | byte b =>
    rw [Token.after]
    refine mem_filterMap_places fun place p => ?_
    simp only [Takes, exists_eq_left, List.singleton_append]
    rcases place with _ | ⟨c, rest⟩ <;> simp [eq_comm]
  | any =>
    rw [Token.after]
    refine mem_filterMap_places fun place p => ?_
    simp only [Takes]
    rcases place with _ | ⟨c, rest⟩ <;> simp [eq_comm]
  | run =>
    rw [Token.after]
    exact mem_distinct_flatMap within fun place p => by simp only [Takes, mem_afterRun]
  | leading =>
    rw [Token.after]
    refine mem_distinct_flatMap within fun place p => ?_
    simp only [Takes, List.mem_cons, mem_afterSlashes, or_and_right, exists_or, exists_eq_left]
    simp [eq_comm]
  | middle =>
    rw [Token.after]
    refine mem_distinct_flatMap within fun place p => ?_
    rcases place with _ | ⟨c, rest⟩
    · simp [Takes]
    · by_cases separator : c = slash
      · simp [Takes, separator, mem_afterSlashes, or_and_right, exists_or, eq_comm]
      · simp [Takes, separator, or_and_right, exists_or, eq_comm]
  | trailing =>
    rw [Token.after]
    refine mem_distinct_flatMap within fun place p => ?_
    rcases place with _ | ⟨c, rest⟩
    · simp [Takes]
    · by_cases separator : c = slash <;> simp [Takes, separator, mem_everywhere, eq_comm]
  | cls negated ranges =>
    rw [Token.after]
    refine mem_filterMap_places fun place p => ?_
    simp only [Takes]
    rcases place with _ | ⟨c, rest⟩
    · simp
    · by_cases member : inClass negated ranges c = true
      · simp [member, @eq_comm _ rest]
      · simp [member]
  | alternatives branches =>
    have reached (p : List UInt8) := mem_afterBranches branches within (p := p)
    rw [Token.after]
    by_cases quiet : areSilent branches = true
    · simp only [Takes, quiet, not_spellsOneOf_of_areSilent quiet, if_true, true_and, or_false,
        exists_eq_left, List.nil_append]
    · have within' : ∀ p ∈ afterBranches places branches, p <:+ path := by
        intro p member
        obtain ⟨w, -, member⟩ := (reached p).mp member
        exact (List.suffix_append w p).trans (within _ member)
      rw [if_neg quiet, mem_distinct within', reached]
      simp only [Takes, quiet, Bool.false_eq_true, false_and, false_or]

theorem mem_afterAll (tokens : List Token) {path : List UInt8} {places : List (List UInt8)}
    (within : ∀ p ∈ places, p <:+ path) {p : List UInt8} :
    p ∈ afterAll places tokens ↔ ∃ w, Spells tokens w ∧ w ++ p ∈ places := by
  cases tokens with
  | nil => simp [afterAll, Spells]
  | cons t rest =>
    have reached (p : List UInt8) := mem_after t within (p := p)
    have within' : ∀ p ∈ t.after places, p <:+ path := by
      intro p member
      obtain ⟨w, -, member⟩ := (reached p).mp member
      exact (List.suffix_append w p).trans (within _ member)
    rw [afterAll, mem_afterAll rest within']
    simp only [reached, Spells]
    constructor
    · rintro ⟨v, spells, u, takes, member⟩
      exact ⟨u ++ v, ⟨u, v, rfl, takes, spells⟩, by simpa using member⟩
    · rintro ⟨-, ⟨u, v, rfl, takes, spells⟩, member⟩
      exact ⟨v, spells, u, takes, by simpa using member⟩

theorem mem_afterBranches (branches : List (List Token)) {path : List UInt8}
    {places : List (List UInt8)} (within : ∀ p ∈ places, p <:+ path) {p : List UInt8} :
    p ∈ afterBranches places branches ↔ ∃ w, SpellsOneOf branches w ∧ w ++ p ∈ places := by
  cases branches with
  | nil => simp [afterBranches, SpellsOneOf]
  | cons branch rest =>
    simp only [afterBranches, SpellsOneOf, List.mem_append, mem_afterBranches rest within,
      or_and_right, exists_or]
    refine or_congr ?_ Iff.rfl
    cases isSilent branch with
    | true => simp
    | false => simpa using mem_afterAll branch within

end

/-- A path matches when the tokens spell it, and `**` alone matches every path. -/
theorem accepts_iff (tokens : List Token) (path : List UInt8) :
    accepts tokens path = true ↔ tokens = [.leading] ∨ Spells tokens path := by
  have spelled : (afterAll [path] tokens).any List.isEmpty = true ↔ Spells tokens path := by
    have reached := @mem_afterAll tokens path [path] (by simp) []
    simpa using reached
  unfold accepts
  split
  · simp
  · rename_i other
    simp [spelled, show tokens ≠ [.leading] from other]

end PolicyLint.Glob
