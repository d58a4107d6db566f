import Mathlib.Data.List.TakeWhile
import PolicyLint.Text.Blank
import PolicyLint.Text.Pieces
/-!
Texts up to ASCII case and surrounding blanks. Main statement: neither of them changes the folded text.
-/
namespace PolicyLint.Text

theorem sameIgnoringCase_iff {s t : String} :
    sameIgnoringCase s t = true ↔ asciiLower s = asciiLower t :=
  beq_iff_eq

/-- A text in lower case, without surrounding blanks. -/
def folded (s : String) : String :=
  asciiLower (trim s)

/-- A text of blanks alone. -/
def IsBlank (s : String) : Prop :=
  ∀ c ∈ s.toList, isBlank c = true

instance (s : String) : Decidable (IsBlank s) :=
  decidable_of_iff (s.toList.all isBlank = true) List.all_eq_true

theorem dropBlanks_blanks {before : List Char} (blank : ∀ c ∈ before, isBlank c = true) (cs : List Char) :
    dropBlanks (before ++ cs) = dropBlanks cs :=
  List.dropWhile_append_of_pos blank

theorem toList_trim (s : String) :
    (trim s).toList = dropBlanks (dropBlanks s.toList.reverse).reverse := by
  simp [trim, trimStart, trimEnd]

/-- Blanks around a text are trimmed with its own. -/
theorem trim_surrounded {before behind : String} (blank : IsBlank before) (blank' : IsBlank behind)
    (s : String) : trim (before ++ s ++ behind) = trim s := by
  apply String.toList_inj.mp
  have last : ∀ c ∈ behind.toList.reverse, isBlank c = true := fun c member =>
    blank' c (List.mem_reverse.mp member)
  have lead : dropBlanks before.toList.reverse = [] :=
    List.dropWhile_eq_nil_iff.mpr fun c member => blank c (List.mem_reverse.mp member)
  rw [toList_trim, toList_trim, String.toList_append, String.toList_append, List.reverse_append,
    List.reverse_append, dropBlanks_blanks last]
  -- Without a character of its own, the text leaves nothing but blanks.
  by_cases empty : dropBlanks s.toList.reverse = []
  · have all : dropBlanks (s.toList.reverse ++ before.toList.reverse) = [] := by
      rw [dropBlanks_blanks (List.dropWhile_eq_nil_iff.mp empty), lead]
    rw [all, empty]
  · have kept : dropBlanks (s.toList.reverse ++ before.toList.reverse) =
        dropBlanks s.toList.reverse ++ before.toList.reverse := by
      rw [dropBlanks] at empty ⊢
      rw [List.dropWhile_append, if_neg (by simpa using empty), dropBlanks]
    rw [kept, List.reverse_append, List.reverse_reverse, dropBlanks_blanks blank]

/-- Only the capital letters have a lower case of their own. -/
theorem toLower_cases (c : Char) : c.toLower = c ∨ ∃ n : Fin 26, c = Char.ofNat (n + 65) := by
  unfold Char.toLower
  split
  · rename_i capital
    have low : 65 ≤ c.toNat := UInt32.le_iff_toNat_le.mp capital.1
    have high : c.toNat ≤ 90 := UInt32.le_iff_toNat_le.mp capital.2
    refine .inr ⟨⟨c.toNat - 65, by omega⟩, ?_⟩
    rw [Nat.sub_add_cancel low, Char.ofNat_toNat]
  · exact .inl rfl

theorem isBlank_toLower (c : Char) : isBlank c.toLower = isBlank c := by
  have letters : ∀ n : Fin 26, isBlank (Char.ofNat (n + 65)).toLower = isBlank (Char.ofNat (n + 65)) := by
    decide
  rcases toLower_cases c with same | ⟨n, rfl⟩
  · rw [same]
  · exact letters n

theorem asciiLower_eq_star_iff (s : String) : asciiLower s = "*" ↔ s = "*" := by
  have letters : ∀ n : Fin 26, (Char.ofNat (n + 65)).toLower ≠ '*' := by decide
  have star : ∀ c : Char, c.toLower = '*' ↔ c = '*' := by
    intro c
    rcases toLower_cases c with same | ⟨n, rfl⟩
    · rw [same]
    · exact iff_of_false (letters n) fun is => letters n (by rw [is]; rfl)
  rw [← String.toList_inj, ← String.toList_inj, asciiLower, String.toList_ofList]
  show s.toList.map Char.toLower = ['*'] ↔ s.toList = ['*']
  simp only [List.map_eq_singleton_iff, star, exists_eq_right]

theorem asciiLower_trim (s : String) : asciiLower (trim s) = trim (asciiLower s) := by
  have dropped : ∀ cs : List Char, (dropBlanks cs).map Char.toLower = dropBlanks (cs.map Char.toLower) := by
    intro cs
    rw [dropBlanks, dropBlanks, List.dropWhile_map]
    congr 2
    funext c
    exact (isBlank_toLower c).symm
  apply String.toList_inj.mp
  rw [asciiLower, String.toList_ofList, toList_trim, dropped, List.map_reverse, dropped, List.map_reverse,
    toList_trim, asciiLower, String.toList_ofList]

theorem folded_respelled {s t before behind : String} (blank : IsBlank before) (blank' : IsBlank behind)
    (same : sameIgnoringCase s t = true) : folded (before ++ t ++ behind) = folded s := by
  rw [folded, folded, trim_surrounded blank blank', asciiLower_trim, asciiLower_trim,
    sameIgnoringCase_iff.mp same]

end PolicyLint.Text
