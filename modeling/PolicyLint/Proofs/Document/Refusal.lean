import PolicyLint.Proofs.Document.Recognized
import PolicyLint.Proofs.Document.Record
/-!
What decoders make of texts that break off. A decoder that looks at every part of a value comes upon the place
where it breaks off, and refuses; records and lists do so when what they are made of does. Main statement: a
text that such a decoder takes is that of a document.
-/
namespace PolicyLint.Document

theorem Broken.solid {node : Node} (broken : Broken node) : node.Solid := by
  cases broken <;> trivial

/-- Whoever skips items skips each of them. -/
theorem skip_mem {items : List Node} (done : skipItems items = .ok ()) :
    ∀ node ∈ items, skip node = .ok () := by
  induction items with
  | nil => exact nofun
  | cons node items ih =>
    rw [skipItems] at done
    obtain ⟨_, first, others⟩ := bind_eq_ok_iff.mp done
    exact List.forall_mem_cons.mpr ⟨first, ih others⟩

theorem skip_mem_members {members : List (Key × Node)} (done : skipMembers members = .ok ()) :
    ∀ member ∈ members, skip member.2 = .ok () := by
  induction members with
  | nil => exact nofun
  | cons member members ih =>
    rw [skipMembers] at done
    obtain ⟨_, first, others⟩ := bind_eq_ok_iff.mp done
    exact List.forall_mem_cons.mpr ⟨first, ih others⟩

theorem skip_broken {node : Node} (broken : Broken node) : skip node ≠ .ok () := by
  induction broken with
  | broken start cut => nofun
  | list span cut | object span members cut =>
    intro done
    rw [skip] at done
    obtain ⟨_, -, closed⟩ := bind_eq_ok_iff.mp done
    cases closed
  | item span solid broken ih =>
    intro done
    rw [skip] at done
    obtain ⟨_, items, -⟩ := bind_eq_ok_iff.mp done
    exact ih (skip_mem items _ (List.mem_append_right _ (List.mem_singleton_self _)))
  | member span members key broken ih =>
    intro done
    rw [skip] at done
    obtain ⟨_, members, -⟩ := bind_eq_ok_iff.mp done
    exact ih (skip_mem_members members _ (List.mem_append_right _ (List.mem_singleton_self _)))

/-- Nothing that breaks off is read from a text. -/
def Refuses (decoder : Decoder α) : Prop :=
  ∀ reading node, reading.source = .text → Broken node → ∀ a, decoder reading node ≠ .ok a

theorem source_enter {reading inner : Reading} {span : Span} (entered : reading.enter span = .ok inner) :
    inner.source = reading.source := by
  unfold Reading.enter at entered
  split at entered
  · obtain rfl := Except.ok.inj entered
    rfl
  · cases entered
  · obtain rfl := Except.ok.inj entered
    rfl

namespace Refuses

theorem string : Refuses string := by
  rintro reading node - broken a done
  cases broken <;> cases done

theorem natural (bits : Nat) : Refuses (natural bits) := by
  rintro reading node - broken a done
  cases broken <;> cases done

theorem option {decoder : Decoder α} (refuses : Refuses decoder) : Refuses (option decoder) := by
  rintro reading node text broken a done
  have wrapped : Option.some <$> decoder reading node = .ok a := by
    cases broken <;> exact done
  obtain ⟨value, read, -⟩ := map_eq_ok_iff.mp wrapped
  exact refuses reading node text broken value read

theorem list {decoder : Decoder α} (refuses : Refuses decoder) : Refuses (list decoder) := by
  rintro reading node text broken values done
  cases broken with
  | broken | object | member => cases done
  | list span cut solid =>
    obtain ⟨_, -, done⟩ := bind_eq_ok_iff.mp done
    obtain ⟨_, -, done⟩ := bind_eq_ok_iff.mp done
    obtain ⟨_, closed, -⟩ := bind_eq_ok_iff.mp done
    cases closed
  | item span solid broken =>
    obtain ⟨inner, entered, done⟩ := bind_eq_ok_iff.mp done
    obtain ⟨read, mapped, -⟩ := bind_eq_ok_iff.mp done
    obtain ⟨value, -, here⟩ := (mem_of_mapM mapped).2 _ (List.mem_append_right _ (List.mem_singleton_self _))
    exact refuses inner _ ((source_enter entered).trans text) broken value here

end Refuses

namespace Record

/-- No member is read from what breaks off. -/
def Refuses (record : Record α) : Prop :=
  ∀ member ∈ record.members, Document.Refuses member.2

namespace Refuses

theorem map {record : Record α} (f : α → β) (refuses : record.Refuses) : (f <$> record).Refuses :=
  refuses

theorem seq {make : Record (α → β)} {record : Record α} (first : make.Refuses) (second : record.Refuses) :
    (make <*> record).Refuses :=
  fun member listed => (List.mem_append.mp listed).elim (first member) (second member)

theorem member {name : String} {decoder : Decoder α} (refuses : Document.Refuses decoder)
    (absent : Members → Except DecodeError α) : (Record.member name decoder absent).Refuses := by
  intro member listed
  obtain rfl := List.mem_singleton.mp listed
  intro reading node text broken _ done
  obtain ⟨a, read, -⟩ := map_eq_ok_iff.mp done
  exact refuses reading node text broken a read

end Refuses

/-- What a record knows it checks, and what it does not know it skips; neither lets pass what breaks off. -/
theorem walk_broken {record : Record α} (refuses : record.Refuses) {reading : Reading}
    (text : reading.source = .text) {node : Node} (broken : Broken node) (key : Key)
    (members : List (Key × Node)) (seen seen' : List (String × Node)) :
    record.walk reading seen (members ++ [(key, node)]) ≠ .ok seen' := by
  intro done
  induction members generalizing seen with
  | nil =>
    obtain ⟨name, -, done⟩ := bind_eq_ok_iff.mp done
    split at done
    · obtain ⟨_, skipped, -⟩ := bind_eq_ok_iff.mp done
      exact skip_broken broken skipped
    · rename_i check known
      split at done
      · cases done
      · obtain ⟨_, checked, -⟩ := bind_eq_ok_iff.mp done
        exact refuses _ (names_of_lookup known) reading node text broken _ checked
  | cons member members ih =>
    obtain ⟨name, -, done⟩ := bind_eq_ok_iff.mp done
    split at done
    · obtain ⟨_, -, others⟩ := bind_eq_ok_iff.mp done
      exact ih seen others
    · split at done
      · cases done
      · obtain ⟨_, -, others⟩ := bind_eq_ok_iff.mp done
        exact ih _ others

/-- The items of a list given for a record are checked, up to those that are left over. -/
theorem walkItems_split {reading : Reading} {members : List (String × Decoder Unit)} {items left : List Node}
    {seen : List (String × Node)} (walked : walkItems reading members items = .ok (seen, left)) :
    ∃ read, items = read ++ left ∧ ∀ node ∈ read, ∃ member ∈ members, member.2 reading node = .ok () := by
  induction members generalizing items seen with
  | nil =>
    obtain ⟨-, rfl⟩ := Prod.mk.inj (Except.ok.inj walked)
    exact ⟨[], rfl, nofun⟩
  | cons member members ih =>
    cases items with
    | nil =>
      obtain ⟨-, rfl⟩ := Prod.mk.inj (Except.ok.inj walked)
      exact ⟨[], rfl, nofun⟩
    | cons node items =>
      obtain ⟨_, checked, more⟩ := bind_eq_ok_iff.mp walked
      obtain ⟨⟨seen', left'⟩, others, done⟩ := bind_eq_ok_iff.mp more
      obtain ⟨-, rfl⟩ := Prod.mk.inj (Except.ok.inj done)
      obtain ⟨read, rfl, each⟩ := ih others
      refine ⟨node :: read, rfl, List.forall_mem_cons.mpr ⟨⟨member, List.mem_cons_self, checked⟩, ?_⟩⟩
      exact fun node here => (each node here).imp fun _ found => ⟨List.mem_cons_of_mem _ found.1, found.2⟩

/-- In a text nothing may be left over. -/
theorem closeItems_solid {reading : Reading} (text : reading.source = .text) {node : Node} (solid : node.Solid)
    (count : Nat) (left : List Node) (cut : Option Break) :
    closeItems reading count (node :: left) cut ≠ .ok () := by
  intro closed
  cases node <;> simp only [closeItems, text] at closed
  case scalar | tagged => exact solid
  all_goals cases closed

/-- A list given for a record is entered, walked and closed. -/
theorem decoder_list {record : Record α} {name : String} {reading : Reading} (text : reading.source = .text)
    {span : Span} {items : List Node} {cut : Option Break} {a : α}
    (done : record.decoder name reading (.array span items cut) = .ok a) :
    ∃ inner seen left, reading.enter span = .ok inner ∧
      walkItems inner record.members items = .ok (seen, left) ∧
      (items.length < record.members.length → atCut Break.kept cut = .ok ()) ∧
      closeItems reading items.length left (if items.length < record.members.length then none else cut) =
        .ok () := by
  have other : ¬ reading.source = .yaml := by simp [text]
  simp only [Record.decoder, content, other, if_false] at done
  obtain ⟨inner, entered, done⟩ := bind_eq_ok_iff.mp done
  obtain ⟨⟨seen, left⟩, walked, done⟩ := bind_eq_ok_iff.mp done
  refine ⟨inner, seen, left, entered, walked, ?_⟩
  by_cases short : items.length < record.members.length
  · simp only [short, if_true] at done ⊢
    obtain ⟨_, whole, done⟩ := bind_eq_ok_iff.mp done
    obtain ⟨_, -, done⟩ := bind_eq_ok_iff.mp done
    obtain ⟨_, closed, -⟩ := bind_eq_ok_iff.mp done
    exact ⟨fun _ => whole, closed⟩
  · simp only [short, if_false] at done ⊢
    obtain ⟨_, -, done⟩ := bind_eq_ok_iff.mp done
    obtain ⟨_, closed, -⟩ := bind_eq_ok_iff.mp done
    exact ⟨False.elim, closed⟩

theorem Refuses.decoder {record : Record α} (refuses : record.Refuses) (name : String) :
    Document.Refuses (record.decoder name) := by
  rintro reading node text broken a done
  cases broken with
  | broken => cases done
  | @list items span cut solid =>
    obtain ⟨inner, seen, left, -, walked, whole, closed⟩ := decoder_list text done
    obtain ⟨read, rfl, -⟩ := walkItems_split walked
    by_cases short : (read ++ left).length < record.members.length
    · cases whole short
    · rw [if_neg short] at closed
      cases left with
      | nil => cases closed
      | cons node left => exact closeItems_solid text (solid node (by simp)) _ _ _ closed
  | object span members cut =>
    obtain ⟨_, -, done⟩ := bind_eq_ok_iff.mp done
    obtain ⟨_, -, done⟩ := bind_eq_ok_iff.mp done
    obtain ⟨_, closed, -⟩ := bind_eq_ok_iff.mp done
    cases closed
  | @item items node span solid broken =>
    obtain ⟨inner, seen, left, entered, walked, -, closed⟩ := decoder_list text done
    obtain ⟨read, whole, each⟩ := walkItems_split walked
    cases left with
    | nil =>
      rw [List.append_nil] at whole
      obtain ⟨member, known, checked⟩ :=
        each node (whole ▸ List.mem_append_right items (List.mem_singleton_self _))
      exact refuses member known inner node ((source_enter entered).trans text) broken () checked
    | cons first left =>
      have solid' : first.Solid := by
        rcases List.mem_append.mp (whole ▸ List.mem_append_right read List.mem_cons_self) with inside | last
        · exact solid first inside
        · exact List.mem_singleton.mp last ▸ broken.solid
      exact closeItems_solid text solid' _ _ _ closed
  | member span members key broken =>
    obtain ⟨inner, entered, done⟩ := bind_eq_ok_iff.mp done
    obtain ⟨_, walked, -⟩ := bind_eq_ok_iff.mp done
    exact walk_broken refuses ((source_enter entered).trans text) broken key members _ _ walked

end Record

/-- A text that decodes is that of a document. -/
theorem exists_written {decoder : Decoder α} (refuses : Refuses decoder) {text : String} {a : α}
    (done : decodeText decoder text = .ok a) : ∃ w : Written, text = String.ofList w.text := by
  obtain ⟨value, read, done⟩ := bind_eq_ok_iff.mp done
  rcases ofText_cases text with written | broken | trailing
  · exact written
  · exact absurd read (refuses _ _ rfl broken _)
  · split at done
    · rename_i empty
      exact absurd empty trailing
    · cases done

end PolicyLint.Document
