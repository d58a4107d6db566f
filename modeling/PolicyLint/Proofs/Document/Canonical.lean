import PolicyLint.Proofs.Document.Given
/-!
One document for every value: texts, numbers, lists and records written without gaps. Main statement: what is
written so is what it was written for.
-/
namespace PolicyLint.Document

/-! ### Strings -/

def Hex.of (digit : Fin 16) : Hex :=
  ⟨("0123456789abcdef".toList)[digit], by revert digit; decide⟩

theorem Hex.value_of (digit : Fin 16) : (Hex.of digit).value = digit := by
  revert digit
  decide

/-- An escape for a control character. -/
def Code.ofControl (n : Fin 32) : Code :=
  ⟨.of 0, .of 0, .of ⟨n / 16, by omega⟩, .of ⟨n % 16, by omega⟩⟩

theorem Code.value_ofControl (n : Fin 32) : (Code.ofControl n).value = n := by
  simp only [Code.value, ofControl, Hex.value_of]
  omega

/-- It is a character of its own. -/
theorem Code.ofControl_whole (n : Fin 32) : ¬ ((ofControl n).IsHigh ∨ (ofControl n).IsLow) := by
  simp only [IsHigh, IsLow, value_ofControl]
  omega

def Letter.of (c : Char) : Letter :=
  if mark : c = '"' ∨ c = '\\' then .escape ⟨c, by rcases mark with rfl | rfl <;> rfl⟩
  else if control : c.toNat < 0x20 then .code (.ofControl ⟨c.toNat, control⟩)
  else .plain ⟨c, fun same => mark (.inl same), fun same => mark (.inr same), control⟩

theorem spelled?_whole {u : Code} (whole : ¬ (u.IsHigh ∨ u.IsLow)) (rest : List Letter) :
    spelled? (.code u :: rest) = (Char.ofNat u.value :: ·) <$> spelled? rest := by
  cases rest with
  | nil => simp [spelled?, whole]
  | cons letter rest =>
    cases letter with
    | code low => rw [spelled?, if_neg fun pair => whole (.inl pair.1), if_neg whole]
    | plain c => simp [spelled?, whole]
    | escape c => simp [spelled?, whole]

theorem spelled?_of (cs : List Char) : spelled? (cs.map Letter.of) = some cs := by
  induction cs with
  | nil => rfl
  | cons c cs ih =>
    rw [List.map_cons, Letter.of]
    split
    · rename_i mark
      rcases mark with rfl | rfl
      all_goals
        rw [spelled?, ih]
        rfl
    · split
      · rename_i control
        rw [spelled?_whole (Code.ofControl_whole _), ih, Code.value_ofControl, Char.ofNat_toNat]
        rfl
      · simp [spelled?, ih]

/-! ### Numbers -/

theorem head_toDigits {n : Nat} (pos : 0 < n) : (Nat.toDigits 10 n).head? ≠ some '0' := by
  induction n using Nat.strongRecOn with
  | ind n ih =>
    by_cases short : n < 10
    · have digits : ∀ d : Fin 10, 0 < d.1 → [d.1.digitChar].head? ≠ some '0' := by decide
      rw [Nat.toDigits_of_lt_base short]
      exact digits ⟨n, short⟩ pos
    · rw [Nat.toDigits_of_base_le (by decide) (Nat.le_of_not_lt short),
        List.head?_append_of_ne_nil _ Nat.toDigits_ne_nil]
      exact ih (n / 10) (Nat.div_lt_self pos (by decide)) (Nat.div_pos (Nat.le_of_not_lt short) (by decide))

def Digits.of (n : Nat) : Digits :=
  ⟨Nat.toDigits 10 n, Nat.toDigits_ne_nil, fun c member => by
    have digit := Nat.isDigit_of_mem_toDigits (by decide) (by decide) member
    simpa [isDigit, Char.isDigit, Char.le_def] using digit⟩

def Numeral.of (n : Nat) : Numeral where
  negative := false
  whole := ⟨.of n, fun zero => by
    rcases Nat.eq_zero_or_pos n with rfl | pos
    · rfl
    · exact absurd zero (head_toDigits pos)⟩
  fraction := none
  exponent := none

theorem natural?_of (n : Nat) : (Numeral.of n).natural? = some n := by
  have value : (Nat.toDigits 10 n).foldl (fun value d => value * 10 + digitValue d) 0 = n := by
    simp only [Nat.mul_comm _ 10]
    exact Nat.ofDigitChars_ten_toDigits
  exact congrArg some value

namespace Written

def bareAround : Around := ⟨noGap, noGap⟩

def ofText (s : String) : Written :=
  .single bareAround (.string (s.toList.map Letter.of))

theorem isText_ofText (s : String) : (ofText s).IsText s := by
  show (spelled? (s.toList.map Letter.of)).map String.ofList = some s
  rw [spelled?_of, Option.map_some, String.ofList_toList]

def ofNatural (n : Nat) : Written :=
  .single bareAround (.number (.of n))

theorem isNatural_ofNatural {bits n : Nat} (small : n < Nat.pow 2 bits) : (ofNatural n).IsNatural bits n := by
  show (Numeral.of n).natural?.filter (· < Nat.pow 2 bits) = some n
  rw [natural?_of, Option.filter_some, if_pos (by simpa using small)]

def ofOption (write : α → Written) : Option α → Written
  | none => .single bareAround .null
  | some a => write a

theorem nullable_ofOption {write : α → Written} {P : Written → α → Prop} {value : Option α}
    (writes : ∀ a ∈ value, P (write a) a) : Nullable P (ofOption write value) value := by
  cases value with
  | none => rfl
  | some a => exact writes a rfl

def ofList (write : α → Written) (values : List α) : Written :=
  .list bareAround noGap (values.map write)

theorem lists_ofList {write : α → Written} {P : Written → α → Prop} {values : List α}
    (writes : ∀ a ∈ values, P (write a) a) : (ofList write values).Lists P values := by
  refine ⟨values.map write, rfl, ?_⟩
  rw [List.forall₂_map_left_iff]
  exact List.forall₂_same.mpr writes

/-- An object with these members. -/
def ofMembers (members : List (String × Written)) : Written :=
  .object bareAround noGap (members.map fun member => (⟨bareAround, member.1.toList.map Letter.of⟩, member.2))

theorem entries?_ofMembers (members : List (String × Written)) :
    entries? (members.map fun member => (⟨bareAround, member.1.toList.map Letter.of⟩, member.2)) =
      some members := by
  induction members with
  | nil => rfl
  | cons member members ih =>
    exact Record.entries?_cons.mpr ⟨member.1, members, isText_ofText member.1, ih, rfl⟩

theorem given?_ofMembers {members : List (String × Written)} (once : (members.map Prod.fst).Nodup)
    (names : List String) :
    (ofMembers members).given? names = some ⟨false, fun name => members.lookup name⟩ := by
  show (entries? _).bind _ = _
  rw [entries?_ofMembers, Option.bind_some,
    if_pos fun name _ => List.nodup_iff_count_le_one.mp once name]

end Written

end PolicyLint.Document
