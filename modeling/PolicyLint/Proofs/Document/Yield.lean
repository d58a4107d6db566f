import PolicyLint.Proofs.Document.Record
/-!
What decoders can give, for documents of every form and with whatever faults. Main statement: a record that
is read, from an object, from a list or from nothing, is made of what the decoders of its members give and
of defaults.
-/
namespace PolicyLint.Document

/-- Whatever the decoder gives has the property. -/
def Yields (decoder : Decoder α) (P : α → Prop) : Prop :=
  ∀ reading node a, decoder reading node = .ok a → P a

namespace Yields

variable {decoder : Decoder α} {P : α → Prop}

theorem fields : Yields fields Fields.Distinct := by
  intro reading node members done
  unfold Document.fields at done
  split at done
  · obtain ⟨v, read, done⟩ := bind_eq_ok_iff.mp done
    have distinct := json_distinct _ read
    split at done
    · obtain rfl := Except.ok.inj done
      exact distinct
    · obtain rfl := Except.ok.inj done
      exact Fields.distinct_nil
  · split at done
    · obtain rfl := Except.ok.inj done
      exact Fields.distinct_nil
    · cases done

theorem natural (bits : Nat) : Yields (natural bits) (· < Nat.pow 2 bits) := by
  intro reading node n done
  unfold Document.natural at done
  extract_lets check at done
  have bounded : ∀ {value stop}, check value stop = .ok n → n < Nat.pow 2 bits := by
    intro value stop checked
    cases value with
    | real d => cases checked
    | integer i word =>
      by_cases inside : 0 ≤ i ∧ i < Nat.pow 2 bits
      · obtain rfl := Except.ok.inj ((if_pos inside).symm.trans checked)
        exact (Int.toNat_lt inside.1).mpr inside.2
      · cases (if_neg inside).symm.trans checked
  split at done
  · obtain ⟨value, -, done⟩ := bind_eq_ok_iff.mp done
    exact bounded done
  · rename_i scalar
    cases given : scalar.natural?.filter (· < Nat.pow 2 bits) with
    | none =>
      rw [given] at done
      cases done
    | some m =>
      rw [given] at done
      obtain rfl := Except.ok.inj done
      simpa using (Option.filter_eq_some_iff.mp given).2
  · cases done

theorem option (yields : Yields decoder P) : Yields (option decoder) fun value => ∀ a ∈ value, P a := by
  intro reading node value done
  have wrapped : ∀ {value}, Option.some <$> decoder reading node = .ok value → ∀ a ∈ value, P a := by
    intro value done
    obtain ⟨a, read, rfl⟩ := map_eq_ok_iff.mp done
    intro b same
    obtain rfl := Option.some.inj same
    exact yields _ _ _ read
  unfold Document.option at done
  split at done
  · obtain rfl := Except.ok.inj done
    exact fun _ member => nomatch member
  · obtain ⟨present, -, done⟩ := bind_eq_ok_iff.mp done
    split at done
    · exact wrapped done
    · obtain rfl := Except.ok.inj done
      exact fun _ member => nomatch member
  · exact wrapped done

theorem of_mapM {ε : Type} {f : β → Except ε α} {items : List β} {values : List α}
    (done : items.mapM f = .ok values) (each : ∀ {item a}, f item = .ok a → P a) :
    ∀ a ∈ values, P a := by
  have steps := mapM_eq_ok_iff.mp done
  clear done
  induction steps with
  | nil => exact fun _ member => nomatch member
  | cons first _ ih => exact List.forall_mem_cons.mpr ⟨each first, ih⟩

theorem list (yields : Yields decoder P) : Yields (list decoder) fun values => ∀ a ∈ values, P a := by
  intro reading node values done
  unfold Document.list at done
  split at done
  · obtain ⟨inner, -, done⟩ := bind_eq_ok_iff.mp done
    obtain ⟨read, mapped, done⟩ := bind_eq_ok_iff.mp done
    obtain ⟨-, -, done⟩ := bind_eq_ok_iff.mp done
    obtain rfl := Except.ok.inj done
    exact of_mapM mapped (yields _ _ _)
  · split at done
    · obtain rfl := Except.ok.inj done
      nofun
    · cases done

/-- What stands behind the value does not change it. -/
theorem decodeText (yields : Yields decoder P) {text : String} {a : α}
    (done : decodeText decoder text = .ok a) : P a := by
  obtain ⟨b, read, done⟩ := bind_eq_ok_iff.mp done
  have good := yields _ _ _ read
  split at done
  · exact Except.ok.inj done ▸ good
  · cases done

end Yields

namespace Record

/-- Whatever the record is made of, it has the property. -/
def Yields (record : Record α) (P : α → Prop) : Prop :=
  ∀ reading found a, record.build reading found = .ok a → P a

namespace Yields

theorem anything (record : Record α) : record.Yields fun _ => True :=
  fun _ _ _ _ => trivial

theorem map {record : Record α} {P : α → Prop} {Q : β → Prop} {f : α → β}
    (step : ∀ a, P a → Q (f a)) (yields : record.Yields P) : (f <$> record).Yields Q := by
  intro reading found b done
  obtain ⟨a, read, rfl⟩ := map_eq_ok_iff.mp done
  exact step a (yields _ _ _ read)

/-- A function that is still to take the members behind it keeps what they yield for later. -/
theorem seq {make : Record (α → β)} {record : Record α} {P : α → Prop} {Q : β → Prop}
    (first : make.Yields fun g => ∀ a, P a → Q (g a)) (second : record.Yields P) :
    (make <*> record).Yields Q := by
  intro reading found b done
  obtain ⟨g, made, done⟩ := bind_eq_ok_iff.mp done
  obtain ⟨a, read, done⟩ := bind_eq_ok_iff.mp done
  obtain rfl := Except.ok.inj done
  exact first _ _ _ made a (second _ _ _ read)

variable {name : String} {decoder : Decoder α} {P : α → Prop}

theorem member {absent : Members → Except DecodeError α} (yields : Document.Yields decoder P)
    (default : ∀ {found a}, absent found = .ok a → P a) : (member name decoder absent).Yields P := by
  intro reading found a done
  cases under : found.find name with
  | none =>
    rw [build_member_none under] at done
    exact default done
  | some node =>
    rw [build_member_some under] at done
    exact yields _ _ _ done

theorem needs (yields : Document.Yields decoder P) : (needs name decoder).Yields P := by
  refine member yields fun done => ?_
  cases done

theorem takes {absent : α} (yields : Document.Yields decoder P) (default : P absent) :
    (takes name decoder absent).Yields P :=
  member yields fun same => Except.ok.inj same ▸ default

theorem may (yields : Document.Yields decoder P) :
    (may name decoder).Yields fun value => ∀ a ∈ value, P a :=
  takes yields.option (by simp)

end Yields

theorem Yields.decoder {record : Record α} {P : α → Prop} (yields : record.Yields P) (name : String) :
    Document.Yields (record.decoder name) P := by
  intro reading node a done
  unfold Record.decoder at done
  dsimp only at done
  generalize content node = node at done
  split at done
  · obtain ⟨_, -, done⟩ := bind_eq_ok_iff.mp done
    obtain ⟨_, -, done⟩ := bind_eq_ok_iff.mp done
    obtain ⟨_, -, done⟩ := bind_eq_ok_iff.mp done
    exact yields _ _ _ done
  · split at done
    · cases done
    obtain ⟨_, -, done⟩ := bind_eq_ok_iff.mp done
    obtain ⟨_, -, done⟩ := bind_eq_ok_iff.mp done
    have made : ∀ {inner found} {close : Except DecodeError Unit}, (do
        let value ← record.build inner found
        close
        return value) = .ok a → P a := by
      intro inner found close done
      obtain ⟨value, built, done⟩ := bind_eq_ok_iff.mp done
      obtain ⟨_, -, done⟩ := bind_eq_ok_iff.mp done
      exact Except.ok.inj done ▸ yields _ _ _ built
    split at done
    · obtain ⟨_, -, done⟩ := bind_eq_ok_iff.mp done
      exact made done
    · exact made done
  · split at done
    · exact yields _ _ _ done
    · cases done

end Record
end PolicyLint.Document
