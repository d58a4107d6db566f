import Mathlib.Data.List.DropRight
import Mathlib.Data.List.Infix
import PolicyLint.Text.Digit
import PolicyLint.Text.Pieces
/-!
Texts read back: a number from its digits, lines from a text in which they end one way or the other,
what a text begins with, and what trimming leaves of a text that stands between others.
-/
namespace PolicyLint.Text

/-! ### Numbers -/

theorem natural?_toString {n bound : Nat} (small : n < bound) : natural? bound (toString n) = some n := by
  have digits : ∀ c ∈ Nat.toDigits 10 n, ('0' ≤ c && c ≤ '9') = true := by
    intro c member
    have digit := Nat.isDigit_of_mem_toDigits (by decide) (by decide) member
    simpa [Char.isDigit, Char.le_def] using digit
  have text : (toString n).toList = Nat.toDigits 10 n := Nat.toList_repr
  have nonempty : Nat.toDigits 10 n ≠ [] := Nat.toDigits_ne_nil
  have value : (Nat.toDigits 10 n).foldl (fun acc c => acc * 10 + (c.toNat - '0'.toNat)) 0 = n := by
    simp only [Nat.mul_comm _ 10]
    exact Nat.ofDigitChars_ten_toDigits
  unfold natural?
  simp only [text]
  split
  · rename_i rest signed
    have plus := digits '+' (by rw [signed]; exact List.mem_cons_self)
    exact absurd plus (by decide)
  · rw [if_pos ⟨nonempty, List.all_eq_true.mpr digits⟩, value, if_pos small]

/-! ### Beginnings -/

theorem afterLead?_eq_some_iff {lead cs rest : List Char} :
    afterLead? lead cs = some rest ↔ cs = lead ++ rest := by
  induction lead generalizing cs with
  | nil => simp [afterLead?]
  | cons l lead ih =>
    cases cs with
    | nil => simp [afterLead?]
    | cons c cs =>
      by_cases same : l = c
      · simp [afterLead?, same, ih]
      · simp [afterLead?, same, Ne.symm same]

@[simp] theorem afterLead?_append (lead rest : List Char) : afterLead? lead (lead ++ rest) = some rest :=
  afterLead?_eq_some_iff.mpr rfl

theorem afterLead?_isSome_iff {lead cs : List Char} : (afterLead? lead cs).isSome ↔ lead <+: cs := by
  rw [Option.isSome_iff_exists]
  constructor
  · rintro ⟨rest, found⟩
    exact ⟨rest, (afterLead?_eq_some_iff.mp found).symm⟩
  · rintro ⟨rest, rfl⟩
    exact ⟨rest, afterLead?_append lead rest⟩

/-! ### Ends -/

theorem dropTail?_getD (tail s : String) : (dropTail? tail s).getD s =
    String.ofList (if tail.toList <:+ s.toList then s.toList.rdrop tail.toList.length else s.toList) := by
  unfold dropTail?
  split
  · rename_i ends
    obtain ⟨front, split⟩ := ends
    rw [← split, List.reverse_append, afterLead?_append]
    simp
  · rename_i otherwise
    have absent : afterLead? tail.toList.reverse s.toList.reverse = none := by
      rw [← Option.not_isSome_iff_eq_none, afterLead?_isSome_iff, List.reverse_prefix]
      exact otherwise
    simp [absent]

/-! ### Search -/

theorem fromFirst?_isSome_iff {needle cs : List Char} : (fromFirst? needle cs).isSome ↔ needle <:+: cs := by
  induction cs with
  | nil =>
    unfold fromFirst?
    split <;> simp_all
  | cons c cs ih =>
    rw [fromFirst?, List.infix_cons_iff, ← afterLead?_isSome_iff, ← ih]
    split
    · simp_all
    · simp_all

theorem fromFirst?_eq_none_iff {needle cs : List Char} : fromFirst? needle cs = none ↔ ¬ needle <:+: cs := by
  rw [← fromFirst?_isSome_iff, Option.not_isSome_iff_eq_none]

theorem fromFirst?_of_prefix {needle cs : List Char} (leads : needle <+: cs) :
    fromFirst? needle cs = some cs := by
  cases cs with
  | nil => simp [fromFirst?, List.prefix_nil.mp leads]
  | cons c cs => rw [fromFirst?, if_pos (afterLead?_isSome_iff.mpr leads)]

/-- What is searched does not begin before its first character stands. -/
theorem fromFirst?_append {first : Char} {before : List Char} (free : first ∉ before)
    (needle cs : List Char) :
    fromFirst? (first :: needle) (before ++ cs) = fromFirst? (first :: needle) cs := by
  induction before with
  | nil => rfl
  | cons c before ih =>
    obtain ⟨other, free⟩ := not_or.mp (mt List.mem_cons.mpr free)
    rw [List.cons_append, fromFirst?, afterLead?, if_neg other, ih free]
    rfl

/-! ### Runs -/

/-- What holds no separator is a run of other characters. -/
theorem bne_of_not_mem {α : Type} [DecidableEq α] {separator : α} {run : List α} (free : separator ∉ run) :
    ∀ a ∈ run, (a != separator) = true := by
  intro a member
  exact bne_iff_ne.mpr fun same => free (same ▸ member)

/-- Characters of one kind, up to where another kind begins. -/
theorem takeWhile_run {kind : Char → Bool} {run rest : List Char} (inside : ∀ c ∈ run, kind c = true)
    (stop : ∀ c ∈ rest.head?, kind c = false) : (run ++ rest).takeWhile kind = run := by
  rw [List.takeWhile_append_of_pos inside]
  cases rest with
  | nil => simp
  | cons c rest => simp [stop c (by simp)]

theorem dropWhile_run {kind : Char → Bool} {run rest : List Char} (inside : ∀ c ∈ run, kind c = true)
    (stop : ∀ c ∈ rest.head?, kind c = false) : (run ++ rest).dropWhile kind = rest := by
  rw [List.dropWhile_append_of_pos inside]
  cases rest with
  | nil => rfl
  | cons c rest => simp [stop c (by simp)]

theorem stop_dropWhile (kind : Char → Bool) (cs : List Char) :
    ∀ c ∈ (cs.dropWhile kind).head?, kind c = false := by
  intro c first
  have held := List.head?_dropWhile_not kind cs
  rw [Option.mem_def.mp first] at held
  simpa using held

/-! ### Pieces -/

theorem not_mem_of_mem_splitOn {α : Type} [DecidableEq α] {a : α} {text piece : List α}
    (member : piece ∈ text.splitOn a) : a ∉ piece := by
  induction text generalizing piece with
  | nil => simp_all
  | cons b rest ih =>
    obtain ⟨first, others, split⟩ := List.exists_cons_of_ne_nil (List.splitOn_ne_nil a rest)
    rw [List.splitOn_cons_eq_if_modifyHead, split] at member
    rw [split] at ih
    by_cases here : b = a
    · simp only [here, BEq.rfl, if_true, List.mem_cons] at member
      rcases member with rfl | member
      · simp
      · exact ih (by simpa using member)
    · simp only [beq_eq_false_iff_ne.mpr here, Bool.false_eq_true, if_false, List.modifyHead_cons,
        List.mem_cons] at member
      rcases member with rfl | member
      · simpa [Ne.symm here] using @ih first (by simp)
      · exact ih (by simp [member])

/-- The last piece is what stands behind the last separator. -/
theorem getLast?_splitOn {α : Type} [DecidableEq α] (a : α) (text : List α) :
    (text.splitOn a).getLast? = some (text.rtakeWhile (· != a)) := by
  by_cases member : a ∈ text
  · obtain ⟨front, back, rfl, free⟩ := List.eq_append_cons_of_mem member
    have stop : (front ++ a :: back).rtakeWhile (· != a) = back.rtakeWhile (· != a) := by
      simp only [List.rtakeWhile, List.reverse_append, List.reverse_cons, List.append_assoc,
        List.singleton_append, List.takeWhile_append]
      split
      · rename_i whole
        have same := (List.takeWhile_prefix (· != a)).eq_of_length whole
        simp [same]
      · rfl
    rw [List.splitOn_append_cons_self_of_not_mem free, List.getLast?_cons, getLast?_splitOn a back, stop]
    rfl
  · have all : text.rtakeWhile (· != a) = text := by
      rw [List.rtakeWhile_eq_self_iff]
      exact bne_of_not_mem member
    rw [List.splitOn_eq_singleton member, all, List.getLast?_singleton]
termination_by text.length

/-- Joined parts are told apart exactly where no part holds the separator. -/
theorem splitOn_join_iff {separator : Char} {parts : List String} (nonempty : parts ≠ []) :
    splitOn separator (join (String.singleton separator) parts) = parts ↔
      ∀ part ∈ parts, separator ∉ part.toList := by
  have single : (String.singleton separator).toList = [separator] := by simp
  unfold splitOn join
  rw [String.toList_ofList, single]
  constructor
  · intro whole part member
    rw [← whole] at member
    obtain ⟨piece, split, rfl⟩ := List.mem_map.mp member
    rw [String.toList_ofList]
    exact not_mem_of_mem_splitOn split
  · intro free
    have pieces : ∀ piece ∈ parts.map String.toList, separator ∉ piece := by
      intro piece member
      obtain ⟨part, given, rfl⟩ := List.mem_map.mp member
      exact free part given
    rw [List.splitOn_intercalate separator pieces (by simpa using nonempty), List.map_map]
    simp [Function.comp_def]

/-! ### Trimming -/

/-- What begins with no blank keeps its place behind the blanks that are dropped. -/
theorem dropBlanks_append {cs : List Char} (before : List Char)
    (first : ∃ c ∈ cs.head?, isBlank c = false) : dropBlanks (before ++ cs) = dropBlanks before ++ cs := by
  obtain ⟨c, head, visible⟩ := first
  obtain ⟨rest, rfl⟩ := List.head?_eq_some_iff.mp head
  unfold dropBlanks
  rw [List.dropWhile_append]
  split
  · rename_i dropped
    simp [List.isEmpty_iff.mp dropped, visible]
  · rfl

theorem toList_trimEnd (s : String) : (trimEnd s).toList = (dropBlanks s.toList.reverse).reverse :=
  String.toList_ofList

/-- What ends with no blank keeps its place before the blanks that are dropped. -/
theorem toList_trimEnd_append {cs : List Char} (behind : List Char)
    (last : ∃ c ∈ cs.getLast?, isBlank c = false) :
    (trimEnd (String.ofList (cs ++ behind))).toList = cs ++ (dropBlanks behind.reverse).reverse := by
  obtain ⟨c, member, visible⟩ := last
  rw [toList_trimEnd, String.toList_ofList, List.reverse_append, dropBlanks_append,
    List.reverse_append, List.reverse_reverse]
  exact ⟨c, by simpa using member, visible⟩

theorem trimEnd_eq_self {s : String} (last : ∃ c ∈ s.toList.getLast?, isBlank c = false) :
    trimEnd s = s := by
  have kept := toList_trimEnd_append [] last
  rw [List.append_nil, String.ofList_toList] at kept
  exact String.toList_inj.mp (kept.trans (by simp [dropBlanks]))

/-- Blanks dropped at the end leave the beginning. -/
theorem dropBlanks_reverse_prefix (cs : List Char) : (dropBlanks cs.reverse).reverse <+: cs := by
  have kept := List.reverse_prefix.mpr (List.dropWhile_suffix isBlank (l := cs.reverse))
  rwa [List.reverse_reverse] at kept

theorem toList_trim_append {cs : List Char} (before behind : List Char)
    (first : ∃ c ∈ cs.head?, isBlank c = false) (last : ∃ c ∈ cs.getLast?, isBlank c = false) :
    (trim (String.ofList (before ++ (cs ++ behind)))).toList =
      dropBlanks before ++ (cs ++ (dropBlanks behind.reverse).reverse) := by
  have nonempty : cs ≠ [] := by
    rintro rfl
    simp at first
  have ends : ∃ c ∈ (before ++ cs).getLast?, isBlank c = false := by
    rwa [List.getLast?_append_of_ne_nil _ nonempty]
  rw [trim, trimStart, String.toList_ofList, ← List.append_assoc, toList_trimEnd_append behind ends,
    List.append_assoc, dropBlanks_append]
  simpa [List.head?_append_of_ne_nil _ nonempty] using first

/-- A blank at the end counts for nothing. -/
theorem trimEnd_concat {c : Char} (blank : isBlank c = true) (cs : List Char) :
    trimEnd (String.ofList (cs ++ [c])) = trimEnd (String.ofList cs) := by
  simp [trimEnd, dropBlanks, blank]

/-! ### Lines -/

/-- A line without a carriage return at its end. -/
def chopped (line : List Char) : List Char :=
  if line.getLast? = some '\r' then line.dropLast else line

theorem trimEnd_chopped (line : List Char) :
    trimEnd (String.ofList (chopped line)) = trimEnd (String.ofList line) := by
  unfold chopped
  split
  · rename_i returned
    obtain ⟨front, rfl⟩ := List.getLast?_eq_some_iff.mp returned
    rw [List.dropLast_concat, trimEnd_concat (by decide)]
  · rfl

theorem splitOn_ended {ended : List (List Char)} {last : List Char}
    (whole : ∀ line ∈ ended, '\n' ∉ line) (unended : '\n' ∉ last) :
    (ended.flatMap (· ++ ['\n']) ++ last).splitOn '\n' = ended ++ [last] := by
  induction ended with
  | nil => exact List.splitOn_eq_singleton unended
  | cons line ended ih =>
    obtain ⟨free, whole⟩ := List.forall_mem_cons.mp whole
    rw [List.flatMap_cons, List.append_assoc, List.append_assoc, List.singleton_append,
      List.splitOn_append_cons_self_of_not_mem free, ih whole, List.cons_append]

theorem lines_ended {ended : List (List Char)} {last : List Char}
    (whole : ∀ line ∈ ended, '\n' ∉ line) (unended : '\n' ∉ last) :
    lines (String.ofList (ended.flatMap (· ++ ['\n']) ++ last)) =
      (ended.map chopped ++ if last = [] then [] else [last]).map String.ofList := by
  unfold lines
  rw [String.toList_ofList, splitOn_ended whole unended]
  by_cases empty : last = []
  · simp [empty, chopped]
  · simp [empty, chopped]

end PolicyLint.Text
