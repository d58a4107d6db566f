import PolicyLint.Proofs.Document.Record
import PolicyLint.Proofs.Document.Written
/-!
What documents decode to, for every text of a document. A decoder fits a relation between documents and
values when it gives a value exactly where the relation has it, so what is related to no value is an
error. Main statement: a decoder that fits reads the text of a document as the relation says.
-/
namespace PolicyLint.Document

/-! ### What documents are -/

namespace Written

def isNull : Written → Bool
  | .single _ .null => true
  | _ => false

def string? : Written → Option String
  | .single _ (.string letters) => text? letters
  | _ => none

/-- A natural number in digits only, below `2 ^ bits`. -/
def natural? (bits : Nat) : Written → Option Nat
  | .single _ (.number n) => n.natural?.filter (· < Nat.pow 2 bits)
  | _ => none

def items? : Written → Option (List Written)
  | .list _ _ items => some items
  | _ => none

abbrev IsText (w : Written) (s : String) : Prop :=
  w.string? = some s

abbrev IsNatural (bits : Nat) (w : Written) (n : Nat) : Prop :=
  w.natural? bits = some n

/-- A list, each item of which is what it should be. -/
def Lists (P : Written → α → Prop) (w : Written) (values : List α) : Prop :=
  ∃ items, w.items? = some items ∧ List.Forall₂ P items values

theorem isNull_of_isText {w : Written} {s : String} (text : w.IsText s) : w.isNull = false := by
  unfold IsText string? at text
  split at text
  · rfl
  · cases text

theorem isNull_of_isNatural {bits : Nat} {w : Written} {n : Nat} (natural : w.IsNatural bits n) :
    w.isNull = false := by
  unfold IsNatural natural? at natural
  split at natural
  · rfl
  · cases natural

/-- What stands under each key, in order, when all keys are texts. -/
def entries? (members : List (Label × Written)) : Option (List (String × Written)) :=
  members.mapM fun member => (text? member.1.letters).map fun name => (name, member.2)

end Written

/-! ### Decoders -/

/-- A text is read, with so many more containers that may be opened. -/
def Reading.within (depth : Nat) : Reading :=
  ⟨.text, some depth⟩

/-- The decoder gives what `P` says, where `k` containers may be opened. -/
def Fits (k : Nat) (decoder : Decoder α) (P : Written → α → Prop) : Prop :=
  ∀ depth, k ≤ depth → ∀ w node, Stands w node → ∀ a, decoder (.within depth) node = .ok a ↔ P w a

theorem stands_single {around : Around} {value : Single} {node : Node}
    (stands : Stands (.single around value) node) : value.Stands node := by
  rwa [Stands] at stands

theorem stands_list {around : Around} {inner : Gap} {items : List Written} {node : Node}
    (stands : Stands (.list around inner items) node) :
    ∃ span nodes, node = .array span nodes none ∧ StandItems items nodes := by
  unfold Stands at stands
  split at stands
  · rename_i same
    cases same
  · rename_i same
    cases same
    exact ⟨_, _, rfl, stands⟩
  · rename_i same
    cases same
  · cases stands

theorem stands_object {around : Around} {inner : Gap} {members : List (Label × Written)} {node : Node}
    (stands : Stands (.object around inner members) node) :
    ∃ span nodes, node = .object span nodes none ∧ StandMembers members nodes := by
  unfold Stands at stands
  split at stands
  · rename_i same
    cases same
  · rename_i same
    cases same
  · rename_i same
    cases same
    exact ⟨_, _, rfl, stands⟩
  · cases stands

theorem standItems_iff {items : List Written} {nodes : List Node} :
    StandItems items nodes ↔ List.Forall₂ Stands items nodes := by
  induction items generalizing nodes with
  | nil => cases nodes <;> simp [StandItems]
  | cons w items ih => cases nodes <;> simp [StandItems, ih]

theorem toOption_eq_some_iff {step : Except ε α} {a : α} : step.toOption = some a ↔ step = .ok a := by
  cases step <;> simp [Except.toOption]

/-- A single value stands as what it is. -/
theorem Single.stands_cases {value : Single} {node : Node} (stands : value.Stands node) :
    (value = .null ∧ ∃ span, node = .null span) ∨
    (∃ b span, value = .bool b ∧ node = .bool span b) ∨
    (∃ n span read, value = .number n ∧ node = .number span read ∧ n.Counts read) ∨
    ∃ letters span read, value = .string letters ∧ node = .string span read ∧
      read.toOption = text? letters := by
  unfold Single.Stands at stands
  split at stands
  · exact .inl ⟨rfl, _, rfl⟩
  · exact .inr (.inl ⟨_, _, rfl, congrArg _ stands⟩)
  · exact .inr (.inr (.inl ⟨_, _, _, rfl, rfl, stands⟩))
  · exact .inr (.inr (.inr ⟨_, _, _, rfl, rfl, stands⟩))
  · exact stands.elim

/-- Null is nothing. -/
def Nullable (P : Written → α → Prop) (w : Written) : Option α → Prop
  | none => w.isNull = true
  | some a => P w a

theorem exists_inner {k depth : Nat} (room : k + 1 ≤ depth) : ∃ inner, depth = inner + 1 ∧ k ≤ inner :=
  ⟨depth - 1, by omega, by omega⟩

/-- What stands for a document is whole. -/
theorem stands_cases {w : Written} {node : Node} (stands : Stands w node) :
    (∃ span, node = .null span) ∨ (∃ span value, node = .bool span value) ∨
      (∃ span value, node = .number span value) ∨ (∃ span value, node = .string span value) ∨
      (∃ span items, node = .array span items none) ∨ ∃ span members, node = .object span members none := by
  cases w with
  | single around value =>
    rcases Single.stands_cases (stands_single stands) with ⟨-, span, rfl⟩ | ⟨b, span, -, rfl⟩ |
      ⟨_, span, read, -, rfl, -⟩ | ⟨_, span, read, -, rfl, -⟩
    · exact .inl ⟨span, rfl⟩
    · exact .inr (.inl ⟨span, b, rfl⟩)
    · exact .inr (.inr (.inl ⟨span, read, rfl⟩))
    · exact .inr (.inr (.inr (.inl ⟨span, read, rfl⟩)))
  | list around inner items =>
    obtain ⟨span, nodes, rfl, -⟩ := stands_list stands
    exact .inr (.inr (.inr (.inr (.inl ⟨span, nodes, rfl⟩))))
  | object around inner members =>
    obtain ⟨span, nodes, rfl, -⟩ := stands_object stands
    exact .inr (.inr (.inr (.inr (.inr ⟨span, nodes, rfl⟩))))

namespace Fits

theorem string (k : Nat) : Fits k string Written.IsText := by
  intro depth _ w node stands s
  cases w with
  | single around value =>
    rcases Single.stands_cases (stands_single stands) with ⟨rfl, span, rfl⟩ | ⟨b, span, rfl, rfl⟩ |
      ⟨n, span, read, rfl, rfl, -⟩ | ⟨letters, span, read, rfl, rfl, same⟩
    · exact ⟨nofun, nofun⟩
    · exact ⟨nofun, nofun⟩
    · exact ⟨nofun, nofun⟩
    · show _ ↔ text? letters = some s
      rw [← same, toOption_eq_some_iff]
      exact mapError_eq_ok_iff
  | list around inner items =>
    obtain ⟨span, nodes, rfl, -⟩ := stands_list stands
    exact ⟨nofun, nofun⟩
  | object around inner members =>
    obtain ⟨span, nodes, rfl, -⟩ := stands_object stands
    exact ⟨nofun, nofun⟩

theorem natural_number {bits : Nat} {reading : Reading} {span : Span} {read : Except Fault Number} {m : Nat} :
    Document.natural bits reading (.number span read) = .ok m ↔
      (∃ fits, read = .ok (.integer m fits)) ∧ m < Nat.pow 2 bits := by
  constructor
  · intro done
    obtain ⟨value, given, done⟩ := bind_eq_ok_iff.mp done
    obtain rfl := mapError_eq_ok_iff.mp given
    cases value with
    | real d => cases done
    | integer i fits =>
      by_cases inside : 0 ≤ i ∧ i < (Nat.pow 2 bits : Nat)
      · obtain rfl := Except.ok.inj ((if_pos inside).symm.trans done)
        obtain ⟨n, rfl⟩ := Int.eq_ofNat_of_zero_le inside.1
        exact ⟨⟨fits, rfl⟩, Int.ofNat_lt.mp inside.2⟩
      · cases (if_neg inside).symm.trans done
  · rintro ⟨⟨fits, rfl⟩, small⟩
    have inside : 0 ≤ (m : Int) ∧ (m : Int) < (Nat.pow 2 bits : Nat) := ⟨by omega, Int.ofNat_lt.mpr small⟩
    exact if_pos inside

theorem natural (k : Nat) {bits : Nat} (word : bits ≤ 64) :
    Fits k (natural bits) (Written.IsNatural bits) := by
  intro depth _ w node stands m
  cases w with
  | single around value =>
    rcases Single.stands_cases (stands_single stands) with ⟨rfl, span, rfl⟩ | ⟨b, span, rfl, rfl⟩ |
      ⟨n, span, read, rfl, rfl, counts⟩ | ⟨letters, span, read, rfl, rfl, -⟩
    · exact ⟨nofun, nofun⟩
    · exact ⟨nofun, nofun⟩
    · have bound : Nat.pow 2 bits ≤ 18446744073709551616 := Nat.pow_le_pow_right (by decide) word
      show _ ↔ n.natural?.filter (· < Nat.pow 2 bits) = some m
      rw [natural_number, Option.filter_eq_some_iff, counts m, decide_eq_true_eq]
      exact ⟨fun ⟨⟨written, _⟩, small⟩ => ⟨written, small⟩,
        fun ⟨written, small⟩ => ⟨⟨written, Nat.lt_of_lt_of_le small bound⟩, small⟩⟩
    · exact ⟨nofun, nofun⟩
  | list around inner items =>
    obtain ⟨span, nodes, rfl, -⟩ := stands_list stands
    exact ⟨nofun, nofun⟩
  | object around inner members =>
    obtain ⟨span, nodes, rfl, -⟩ := stands_object stands
    exact ⟨nofun, nofun⟩

/-- Only null reads as nothing. -/
theorem option {k : Nat} {decoder : Decoder α} {P : Written → α → Prop} (fits : Fits k decoder P)
    (nonnull : ∀ w a, P w a → w.isNull = false) : Fits k (option decoder) (Nullable P) := by
  intro depth room w node stands value
  have whole (other : Document.option decoder (.within depth) node = Option.some <$> decoder (.within depth) node)
      (null : w.isNull = false) :
      Document.option decoder (.within depth) node = .ok value ↔ Nullable P w value := by
    rw [other, map_eq_ok_iff]
    cases value with
    | none => simp [Nullable, null]
    | some a =>
      rw [Nullable, ← fits depth room w node stands a]
      simp
  cases w with
  | single around single =>
    rcases Single.stands_cases (stands_single stands) with ⟨rfl, span, rfl⟩ | ⟨b, span, rfl, rfl⟩ |
      ⟨n, span, read, rfl, rfl, counts⟩ | ⟨letters, span, read, rfl, rfl, -⟩
    · cases value with
      | none => exact ⟨fun _ => rfl, fun _ => rfl⟩
      | some a => exact ⟨nofun, fun holds => nomatch nonnull _ a holds⟩
    · exact whole rfl rfl
    · exact whole rfl rfl
    · exact whole rfl rfl
  | list around inner items =>
    obtain ⟨span, nodes, rfl, -⟩ := stands_list stands
    exact whole rfl rfl
  | object around inner members =>
    obtain ⟨span, nodes, rfl, -⟩ := stands_object stands
    exact whole rfl rfl

theorem forall₂_stands {P : Written → α → Prop} {read : Node → Except DecodeError α} {items : List Written}
    {nodes : List Node} (stand : StandItems items nodes)
    (each : ∀ w node, Stands w node → ∀ a, read node = .ok a ↔ P w a) {values : List α} :
    List.Forall₂ (fun node a => read node = .ok a) nodes values ↔ List.Forall₂ P items values := by
  induction items generalizing nodes values with
  | nil =>
    cases nodes with
    | nil => simp
    | cons => exact stand.elim
  | cons w items ih =>
    cases nodes with
    | nil => exact stand.elim
    | cons node nodes =>
      rw [List.forall₂_cons_left_iff, List.forall₂_cons_left_iff]
      simp only [each w node stand.1, ih stand.2]

/-- All items of a list must read, and nothing else is a list. -/
theorem list {k : Nat} {decoder : Decoder α} {P : Written → α → Prop} (fits : Fits k decoder P) :
    Fits (k + 1) (list decoder) (Written.Lists P) := by
  intro depth room w node stands values
  cases w with
  | single around value =>
    have notList : ¬ (Written.single around value).Lists P values := nofun
    rcases Single.stands_cases (stands_single stands) with ⟨rfl, span, rfl⟩ | ⟨b, span, rfl, rfl⟩ |
      ⟨n, span, read, rfl, rfl, counts⟩ | ⟨letters, span, read, rfl, rfl, -⟩
    all_goals exact ⟨nofun, fun lists => absurd lists notList⟩
  | list around inner items =>
    obtain ⟨span, nodes, rfl, stand⟩ := stands_list stands
    obtain ⟨inner, rfl, room'⟩ := exists_inner room
    have read : Document.list decoder (.within (inner + 1)) (.array span nodes none) = .ok values ↔
        nodes.mapM (decoder (.within inner)) = .ok values := by
      show (nodes.mapM (decoder (.within inner)) >>= fun values => pure values) = .ok values ↔ _
      rw [bind_pure]
    rw [read, mapM_eq_ok_iff, forall₂_stands stand (fits inner room')]
    exact ⟨fun each => ⟨items, rfl, each⟩, fun ⟨_, same, each⟩ => Option.some.inj same ▸ each⟩
  | object around inner members =>
    obtain ⟨span, nodes, rfl, -⟩ := stands_object stands
    exact ⟨nofun, nofun⟩

end Fits

/-- The text of a document decodes to what fits it. -/
theorem decodeText_iff {k : Nat} {decoder : Decoder α} {P : Written → α → Prop} (fits : Fits k decoder P)
    (room : k ≤ 127) (w : Written) (a : α) :
    decodeText decoder (String.ofList w.text) = .ok a ↔ P w a := by
  obtain ⟨node, stands, whole⟩ := ofText_written w
  rw [← fits 127 room w node stands a]
  simp only [decodeText, whole]
  exact ⟨fun done => by
    obtain ⟨value, read, done⟩ := bind_eq_ok_iff.mp done
    obtain rfl := Except.ok.inj done
    exact read, fun read => bind_eq_ok_iff.mpr ⟨a, read, rfl⟩⟩

end PolicyLint.Document
