import PolicyLint.Json.Printer
import PolicyLint.Proofs.Document.Canonical
import PolicyLint.Proofs.Numeric.Scientific
import PolicyLint.Proofs.Text.Apart
/-!
Compact JSON texts. Main statement: a text belongs to one value only, with the order of the keys in its
objects and the signs of its zeros.
-/
namespace PolicyLint.Json

open Document

/-! ### Strings -/

/-- A character is written as a letter that is read as this character. -/
theorem escapeChar_letter (c : Char) : ∃ letter : Letter, letter.text = escapeChar c ∧
    ∀ letters, spelled? (letter :: letters) = (c :: ·) <$> spelled? letters := by
  have short : ∀ mark e, (known : simpleEscape? mark = some e) → ∃ letter : Letter,
      letter.text = ['\\', mark] ∧ ∀ letters, spelled? (letter :: letters) = (e :: ·) <$> spelled? letters :=
    fun mark e known => ⟨.escape ⟨mark, by simp [known]⟩, rfl, fun letters => by simp [spelled?, known]⟩
  unfold escapeChar
  split_ifs with quote back bell tab line page feed control
  · exact quote ▸ short '"' '"' rfl
  · exact back ▸ short '\\' '\\' rfl
  · exact bell ▸ short 'b' '\x08' rfl
  · exact tab ▸ short 't' '\t' rfl
  · exact line ▸ short 'n' '\n' rfl
  · exact page ▸ short 'f' '\x0c' rfl
  · exact feed ▸ short 'r' '\r' rfl
  · have digits : ∀ n : Fin 32, (Code.ofControl n).digits = hexDigits n := by decide
    refine ⟨.code (.ofControl ⟨c.toNat, control⟩), congrArg ('\\' :: 'u' :: ·) (digits _), fun letters => ?_⟩
    rw [spelled?_whole (Code.ofControl_whole _), Code.value_ofControl, Char.ofNat_toNat]
  · exact ⟨.plain ⟨c, quote, back, control⟩, rfl, fun letters => by simp [spelled?]⟩

theorem escaped_letters (cs : List Char) :
    ∃ letters, lettersText letters = cs.flatMap escapeChar ∧ spelled? letters = some cs := by
  induction cs with
  | nil => exact ⟨[], rfl, rfl⟩
  | cons c cs ih =>
    obtain ⟨letter, text, spells⟩ := escapeChar_letter c
    obtain ⟨letters, texts, spelled⟩ := ih
    refine ⟨letter :: letters, ?_, ?_⟩
    · rw [lettersText_cons, text, texts, List.flatMap_cons]
    · rw [spells, spelled]
      rfl

/-- A quoted text is read back, up to its end. -/
theorem quoted_inj {s s' : String} {rest rest' : List Char}
    (same : quoted s ++ rest = quoted s' ++ rest') : s = s' ∧ rest = rest' := by
  obtain ⟨letters, text, spelled⟩ := escaped_letters s.toList
  obtain ⟨letters', text', spelled'⟩ := escaped_letters s'.toList
  have same : lettersText letters ++ '"' :: rest = lettersText letters' ++ '"' :: rest' := by
    simpa [quoted, ← text, ← text'] using same
  obtain ⟨stop, passed⟩ := skipString_letters letters 0 rest
  obtain ⟨stop', passed'⟩ := skipString_letters letters' 0 rest'
  have read := readString_letters letters 0 rest
  rw [same, passed'] at passed
  rw [same, readString_letters letters' 0 rest', spelled, spelled'] at read
  exact ⟨String.toList_inj.mp (Option.some.inj read).symm, (Prod.mk.inj (Except.ok.inj passed)).2.symm⟩

/-! ### Numbers -/

theorem numberText_isScientific (n : Number) :
    ∀ c ∈ (numberText n).toList, Numeric.isScientific c = true := by
  intro c member
  cases n with
  | integer i fits => simp [Numeric.isScientific, Numeric.toString_isNumeral i c member]
  | real d => exact Numeric.scientificText_isScientific d c member

theorem numberText_injective {n n' : Number} (same : numberText n = numberText n') : n = n' := by
  cases n with
  | integer i fits =>
    cases n' with
    | integer i' fits' =>
      obtain rfl := Numeric.toString_int_injective same
      rfl
    | real d' => exact absurd same.symm (Numeric.scientificText_ne_toString d' i)
  | real d =>
    cases n' with
    | integer i' fits' => exact absurd same (Numeric.scientificText_ne_toString d i')
    | real d' => rw [Numeric.scientificText_injective same]

theorem numberText_head (n : Number) : ∃ c ∈ (numberText n).toList.head?, c.isDigit = true ∨ c = '-' := by
  cases n with
  | integer i fits =>
    have begins : (toString i).toList ≠ [] := by
      rw [Int.toString_eq_repr, Int.repr_eq_if]
      split
      · exact Nat.toList_repr ▸ Nat.toDigits_ne_nil
      · simp
    exact ⟨_, List.head_mem_head? begins, Numeric.mem_toString (List.head_mem begins)⟩
  | real d =>
    obtain ⟨n, text, -⟩ := Numeric.scientificText_eq d
    obtain ⟨c, first, digit⟩ := n.head_text
    rw [numberText, text, Numeric.sign]
    split
    · exact ⟨'-', rfl, .inr rfl⟩
    · exact ⟨c, first, .inl digit⟩

/-! ### Values -/

/-- No number goes on with what follows. -/
def Stops (rest : List Char) : Prop :=
  ∀ c, rest.head? = some c → Numeric.isScientific c = false

theorem numberText_inj_of_append {n n' : Number} {rest rest' : List Char} (stops : Stops rest)
    (stops' : Stops rest') (same : (numberText n).toList ++ rest = (numberText n').toList ++ rest') :
    n = n' ∧ rest = rest' := by
  obtain ⟨texts, rests⟩ := Text.append_inj_of_stop (numberText_isScientific n)
    (numberText_isScientific n') stops stops' same
  exact ⟨numberText_injective (String.toList_inj.mp texts), rests⟩

inductive Kind where
  | null | bool | number | string | array | object
deriving DecidableEq

def kind : Json → Kind
  | .null => .null
  | .bool _ => .bool
  | .number _ => .number
  | .string _ => .string
  | .array _ => .array
  | .object _ => .object

/-- The kind of the values that begin with a character. -/
def Kind.of? (c : Char) : Option Kind :=
  if c.isDigit = true ∨ c = '-' then some .number
  else
    [('n', Kind.null), ('t', .bool), ('f', .bool), ('"', .string), ('[', .array), ('\x7b', .object)].lookup c

theorem head_compactChars (v : Json) (rest : List Char) :
    ∃ c, (compactChars v ++ rest).head? = some c ∧ Kind.of? c = some v.kind := by
  cases v with
  | null => exact ⟨'n', rfl, rfl⟩
  | bool b =>
    cases b with
    | true => exact ⟨'t', rfl, rfl⟩
    | false => exact ⟨'f', rfl, rfl⟩
  | number n =>
    obtain ⟨c, first, begins⟩ := numberText_head n
    refine ⟨c, ?_, if_pos begins⟩
    simp [compactChars, List.head?_append, Option.mem_def.mp first]
  | string s => exact ⟨'"', rfl, rfl⟩
  | array items => exact ⟨'[', rfl, rfl⟩
  | object members => exact ⟨'\x7b', rfl, rfl⟩

theorem kind_eq {v v' : Json} {rest rest' : List Char}
    (same : compactChars v ++ rest = compactChars v' ++ rest') : v.kind = v'.kind := by
  obtain ⟨c, first, kind⟩ := head_compactChars v rest
  obtain ⟨c', first', kind'⟩ := head_compactChars v' rest'
  rw [same, first'] at first
  obtain rfl := Option.some.inj first
  exact Option.some.inj (kind.symm.trans kind')

theorem stops_items (items : List Json) (rest : List Char) : Stops (compactItems false items ++ rest) := by
  intro c first
  cases items with
  | nil =>
    obtain rfl : ']' = c := by simpa [compactItems] using first
    decide
  | cons v items =>
    obtain rfl : ',' = c := by simpa [compactItems] using first
    decide

theorem stops_members (members : Fields) (rest : List Char) :
    Stops (compactMembers false members ++ rest) := by
  intro c first
  cases members with
  | nil =>
    obtain rfl : '\x7d' = c := by simpa [compactMembers] using first
    decide
  | cons member members =>
    obtain rfl : ',' = c := by simpa [compactMembers] using first
    decide

/-- The bracket that closes a list begins no item of it. -/
theorem head_compactItems (first : Bool) (v : Json) (items : List Json) (rest : List Char) :
    (compactItems first (v :: items) ++ rest).head? ≠ some ']' := by
  intro closed
  cases first with
  | false => simp [compactItems] at closed
  | true =>
    obtain ⟨c, begins, kind⟩ := head_compactChars v (compactItems false items ++ rest)
    obtain rfl : c = ']' := by simpa [compactItems, begins] using closed
    cases kind

theorem head_compactMembers (first : Bool) (member : String × Json) (members : Fields) (rest : List Char) :
    (compactMembers first (member :: members) ++ rest).head? ≠ some '\x7d' := by
  cases first <;> simp [compactMembers, quoted]

mutual

theorem compactChars_inj : ∀ (v v' : Json) {rest rest' : List Char} (_ : Stops rest) (_ : Stops rest')
    (_ : compactChars v ++ rest = compactChars v' ++ rest'), v = v' ∧ rest = rest'
  | .null, v', rest, rest', stops, stops', same => by
    cases v' with
    | null => exact ⟨rfl, List.append_cancel_left same⟩
    | _ => cases kind_eq same
  | .bool b, v', rest, rest', stops, stops', same => by
    cases v' with
    | bool b' =>
      cases b <;> cases b' <;> simp [compactChars] at same ⊢ <;> exact same
    | _ => cases kind_eq same
  | .number n, v', rest, rest', stops, stops', same => by
    cases v' with
    | number n' =>
      obtain ⟨rfl, rests⟩ := numberText_inj_of_append stops stops' same
      exact ⟨rfl, rests⟩
    | _ => cases kind_eq same
  | .string s, v', rest, rest', stops, stops', same => by
    cases v' with
    | string s' =>
      obtain ⟨rfl, rests⟩ := quoted_inj same
      exact ⟨rfl, rests⟩
    | _ => cases kind_eq same
  | .array items, v', rest, rest', stops, stops', same => by
    cases v' with
    | array items' =>
      obtain ⟨rfl, rests⟩ := compactItems_inj true items items' (List.cons.inj same).2
      exact ⟨rfl, rests⟩
    | _ => cases kind_eq same
  | .object members, v', rest, rest', stops, stops', same => by
    cases v' with
    | object members' =>
      obtain ⟨rfl, rests⟩ := compactMembers_inj true members members' (List.cons.inj same).2
      exact ⟨rfl, rests⟩
    | _ => cases kind_eq same

theorem compactItems_inj : ∀ (first : Bool) (items items' : List Json) {rest rest' : List Char}
    (_ : compactItems first items ++ rest = compactItems first items' ++ rest'),
    items = items' ∧ rest = rest'
  | first, [], [], rest, rest', same => ⟨rfl, (List.cons.inj same).2⟩
  | first, [], v' :: items', rest, rest', same =>
    absurd (congrArg List.head? same).symm (head_compactItems first v' items' rest')
  | first, v :: items, [], rest, rest', same =>
    absurd (congrArg List.head? same) (head_compactItems first v items rest)
  | first, v :: items, v' :: items', rest, rest', same => by
    simp only [compactItems, List.append_assoc, List.append_cancel_left_eq] at same
    obtain ⟨rfl, tails⟩ := compactChars_inj v v' (stops_items items rest) (stops_items items' rest') same
    obtain ⟨rfl, rests⟩ := compactItems_inj false items items' tails
    exact ⟨rfl, rests⟩

theorem compactMembers_inj : ∀ (first : Bool) (members members' : Fields) {rest rest' : List Char}
    (_ : compactMembers first members ++ rest = compactMembers first members' ++ rest'),
    members = members' ∧ rest = rest'
  | first, [], [], rest, rest', same => ⟨rfl, (List.cons.inj same).2⟩
  | first, [], member' :: members', rest, rest', same =>
    absurd (congrArg List.head? same).symm (head_compactMembers first member' members' rest')
  | first, member :: members, [], rest, rest', same =>
    absurd (congrArg List.head? same) (head_compactMembers first member members rest)
  | first, (key, v) :: members, (key', v') :: members', rest, rest', same => by
    simp only [compactMembers, List.append_assoc, List.cons_append, List.append_cancel_left_eq] at same
    obtain ⟨rfl, behind⟩ := quoted_inj same
    obtain ⟨rfl, tails⟩ := compactChars_inj v v' (stops_members members rest)
      (stops_members members' rest') (List.cons.inj behind).2
    obtain ⟨rfl, rests⟩ := compactMembers_inj false members members' tails
    exact ⟨rfl, rests⟩

end

/-- No text is that of two values. -/
theorem compact_injective {v v' : Json} (same : v.compact = v'.compact) : v = v' := by
  have ends : Stops [] := nofun
  have texts : compactChars v ++ [] = compactChars v' ++ [] := by
    rw [List.append_nil, List.append_nil]
    exact String.ofList_injective same
  exact (compactChars_inj v v' ends ends texts).1

end PolicyLint.Json
