import PolicyLint.Proofs.Document.Tree
/-!
Records, written as objects of which some members may be left out. Main statement: an object with distinct
names, each member of which reads as it should or is left out for a default, gives the record made of
them; what else it holds is skipped.
-/
namespace PolicyLint.Document

/-! ### Decoders and values -/

/-- The value, taken as a document, reads as `a`. -/
def Decodes (decoder : Decoder α) (v : Json) (a : α) : Prop :=
  decoder (.start .value) (Node.ofJson v) = .ok a

theorem decodeValue_eq_ok_iff {decoder : Decoder α} {v : Json} {a : α} :
    decodeValue decoder v = .ok a ↔ Decodes decoder v a :=
  mapError_eq_ok_iff

theorem decodes_string (s : String) : Decodes string (.string s) s := rfl

theorem decodes_bool (b : Bool) : Decodes bool (.bool b) b := rfl

theorem decodes_natural {bits n : Nat} (word : Number.IsWord n) (bound : n < Nat.pow 2 bits) :
    Decodes (natural bits) (Json.ofNat n) n := by
  have inside : 0 ≤ (n : Int) ∧ (n : Int) < (Nat.pow 2 bits : Nat) :=
    ⟨Int.natCast_nonneg n, Int.ofNat_lt.mpr bound⟩
  have written : Json.ofNat n = .number (.integer n word) := congrArg Json.number (dif_pos word)
  rw [written]
  exact if_pos inside

theorem decodes_fields {members : Fields} (distinct : members.Distinct) :
    Decodes fields (.object members) members := by
  have whole := json_ofJson distinct
  rw [Node.ofJson] at whole
  simp only [Decodes, Node.ofJson, fields, content, whole]
  rfl

theorem mapM_eq_ok_iff {f : α → Except ε β} {items : List α} {values : List β} :
    items.mapM f = .ok values ↔ List.Forall₂ (fun item value => f item = .ok value) items values := by
  induction items generalizing values with
  | nil =>
    rw [List.mapM_nil, List.forall₂_nil_left_iff]
    exact ⟨fun done => (Except.ok.inj done).symm, fun same => congrArg _ same.symm⟩
  | cons item rest ih =>
    rw [List.mapM_cons, List.forall₂_cons_left_iff, bind_eq_ok_iff]
    simp only [bind_eq_ok_iff, ih]
    constructor
    · rintro ⟨value, first, others, each, done⟩
      exact ⟨value, others, first, each, (Except.ok.inj done).symm⟩
    · rintro ⟨value, others, first, each, rfl⟩
      exact ⟨value, first, others, each, rfl⟩

theorem exists_mapM {f : α → Except ε β} {items : List α} (each : ∀ item ∈ items, ∃ value, f item = .ok value) :
    ∃ values, items.mapM f = .ok values := by
  induction items with
  | nil => exact ⟨[], rfl⟩
  | cons item items ih =>
    obtain ⟨⟨value, first⟩, each⟩ := List.forall_mem_cons.mp each
    obtain ⟨values, later⟩ := ih each
    exact ⟨value :: values, by rw [List.mapM_cons, first, later]; rfl⟩

/-- The first step that fails is the failure of all. -/
theorem mapM_eq_error {f : α → Except ε β} {items : List α} {failure : ε}
    (failed : items.mapM f = .error failure) : ∃ item ∈ items, f item = .error failure := by
  induction items with
  | nil => cases failed
  | cons item items ih =>
    rw [List.mapM_cons] at failed
    cases first : f item with
    | error other =>
      rw [first] at failed
      obtain rfl := Except.error.inj failed
      exact ⟨item, List.mem_cons_self, first⟩
    | ok value =>
      rw [first] at failed
      cases later : items.mapM f with
      | error other =>
        rw [later] at failed
        obtain rfl := Except.error.inj failed
        obtain ⟨culprit, member, fault⟩ := ih later
        exact ⟨culprit, List.mem_cons_of_mem _ member, fault⟩
      | ok values =>
        rw [later] at failed
        cases failed

/-- Steps that both succeed, or fail in a related way. -/
def Agree (related : ε → ε' → Prop) : Except ε α → Except ε' β → Prop
  | .ok _, .ok _ => True
  | .error failure, .error other => related failure other
  | _, _ => False

theorem mapM_agree {related : ε → ε' → Prop} {f : α → Except ε β} {g : α → Except ε' γ} {items : List α}
    (each : ∀ item ∈ items, Agree related (f item) (g item)) :
    Agree related (items.mapM f) (items.mapM g) := by
  induction items with
  | nil => trivial
  | cons item items ih =>
    obtain ⟨first, each⟩ := List.forall_mem_cons.mp each
    have later := ih each
    rw [List.mapM_cons, List.mapM_cons]
    cases here : f item <;> cases there : g item <;> rw [here, there] at first
    · exact first
    · exact first.elim
    · exact first.elim
    · cases rest : items.mapM f <;> cases more : items.mapM g <;> rw [rest, more] at later <;> exact later

/-- Steps that all succeed have the results of the items, no more and no fewer. -/
theorem mem_of_mapM {f : α → Except ε β} {items : List α} {values : List β}
    (found : items.mapM f = .ok values) : (∀ value ∈ values, ∃ item ∈ items, f item = .ok value) ∧
      ∀ item ∈ items, ∃ value ∈ values, f item = .ok value := by
  have each := mapM_eq_ok_iff.mp found
  clear found
  induction each with
  | nil => exact ⟨nofun, nofun⟩
  | @cons item value items values here _ ih =>
    refine ⟨List.forall_mem_cons.mpr ⟨⟨item, List.mem_cons_self, here⟩, fun other member => ?_⟩,
      List.forall_mem_cons.mpr ⟨⟨value, List.mem_cons_self, here⟩, fun other member => ?_⟩⟩
    · exact (ih.1 other member).imp fun _ given => ⟨List.mem_cons_of_mem _ given.1, given.2⟩
    · exact (ih.2 other member).imp fun _ given => ⟨List.mem_cons_of_mem _ given.1, given.2⟩

theorem decodes_list {decoder : Decoder α} {encode : α → Json} {items : List α}
    (each : ∀ a ∈ items, Decodes decoder (encode a) a) :
    Decodes (list decoder) (.array (items.map encode)) items := by
  have mapped : (Node.ofItems (items.map encode)).mapM (decoder (.start .value)) = .ok items := by
    rw [mapM_eq_ok_iff]
    induction items with
    | nil => exact .nil
    | cons a rest ih =>
      obtain ⟨first, others⟩ := List.forall_mem_cons.mp each
      exact .cons first (ih others)
  have read : Decodes (list decoder) (.array (items.map encode)) items ↔ (do
      let values ← (Node.ofItems (items.map encode)).mapM (decoder (.start .value))
      atCut Break.kept none
      return values) = .ok items := by
    simp only [Decodes, Node.ofJson, list, content]
    rfl
  rw [read, mapped]
  rfl

/-- Null is the only value that stands for nothing. -/
theorem decodes_option {decoder : Decoder α} {v : Json} {a : α} (nonnull : v ≠ .null)
    (decodes : Decodes decoder v a) : Decodes (option decoder) v (.some a) := by
  cases v with
  | null => exact absurd rfl nonnull
  | bool | number | string | array | object =>
    exact map_eq_ok_iff.mpr ⟨a, decodes, rfl⟩

/-! ### Objects with members left out -/

theorem lookup_cons_ne {name key : String} (other : name ≠ key) (b : β) (rest : List (String × β)) :
    ((key, b) :: rest).lookup name = rest.lookup name := by
  have apart : (name == key) = false := beq_eq_false_iff_ne.mpr other
  rw [List.lookup_cons, apart]

/-- Names and what stands under them, if anything. -/
abbrev Slots := List (String × Option Json)

namespace Slots

/-- The members that are there. -/
def present (slots : Slots) : Fields :=
  slots.filterMap fun slot => slot.2.map fun v => (slot.1, v)

def names (slots : Slots) : List String :=
  slots.map Prod.fst

def given (slots : Slots) (name : String) : Option Json :=
  (slots.lookup name).join

/-- Nothing for a default, which the reader puts back. -/
def sparing (isDefault : Bool) (v : Json) : Option Json :=
  if isDefault then none else some v

@[simp] theorem present_nil : present [] = [] := rfl

@[simp] theorem present_none (name : String) (slots : Slots) :
    present ((name, none) :: slots) = present slots := rfl

@[simp] theorem present_some (name : String) (v : Json) (slots : Slots) :
    present ((name, some v) :: slots) = (name, v) :: present slots := rfl

@[simp] theorem given_cons (key : String) (value : Option Json) (slots : Slots) (name : String) :
    given ((key, value) :: slots) name = if name = key then value else given slots name := by
  unfold given
  by_cases same : name = key
  · simp [same]
  · rw [lookup_cons_ne same, if_neg same]

theorem given_fresh {slots : Slots} {name : String} (fresh : name ∉ slots.names) :
    slots.given name = none := by
  have unlisted : slots.lookup name = none := by
    rw [List.lookup_eq_none_iff]
    intro slot listed
    refine bne_iff_ne.mpr ?_
    rintro rfl
    exact fresh (List.mem_map_of_mem listed)
  rw [given, unlisted]
  rfl

theorem present_sublist (slots : Slots) : (slots.present.map Prod.fst).Sublist slots.names := by
  induction slots with
  | nil => exact List.Sublist.refl _
  | cons slot rest ih =>
    obtain ⟨name, value⟩ := slot
    cases value with
    | none => exact ih.cons name
    | some v => exact ih.cons_cons name

theorem present_distinct {slots : Slots} (once : slots.names.Nodup)
    (within : ∀ slot ∈ slots, ∀ v ∈ slot.2, v.Distinct) : slots.present.Distinct := by
  refine .object (once.sublist slots.present_sublist) fun member listed => ?_
  obtain ⟨slot, among, given⟩ := List.mem_filterMap.mp listed
  obtain ⟨v, here, rfl⟩ := Option.map_eq_some_iff.mp given
  exact within slot among v here

theorem given_of_mem {slots : Slots} (once : slots.names.Nodup) {name : String} {v : Json}
    (listed : (name, v) ∈ slots.present) : slots.given name = some v := by
  induction slots with
  | nil => cases listed
  | cons slot rest ih =>
    obtain ⟨key, value⟩ := slot
    obtain ⟨fresh, later⟩ := List.nodup_cons.mp once
    have behind : (name, v) ∈ present rest → given ((key, value) :: rest) name = some v := by
      intro member
      have named : name ∈ names rest := (present_sublist rest).subset (List.mem_map_of_mem member)
      rw [given_cons, if_neg (ne_of_mem_of_not_mem named fresh), ih later member]
    cases value with
    | none => exact behind listed
    | some w =>
      rcases List.mem_cons.mp listed with head | member
      · obtain ⟨rfl, rfl⟩ := Prod.mk.inj head
        rw [given_cons, if_pos rfl]
      · exact behind member

theorem lookup_present {slots : Slots} (once : slots.names.Nodup) (name : String) :
    slots.present.lookup name = slots.given name := by
  induction slots with
  | nil => rfl
  | cons slot rest ih =>
    obtain ⟨key, value⟩ := slot
    obtain ⟨fresh, later⟩ := List.nodup_cons.mp once
    rw [given_cons]
    by_cases same : name = key
    · subst same
      cases value with
      | none => rw [if_pos rfl, present_none, ih later, given_fresh fresh]
      | some v => rw [if_pos rfl, present_some, List.lookup_cons_self]
    · rw [if_neg same]
      cases value with
      | none => rw [present_none, ih later]
      | some v => rw [present_some, lookup_cons_ne same, ih later]

end Slots

/-! ### Values that are skipped -/

mutual

theorem skip_ofJson : ∀ v : Json, skip (Node.ofJson v) = .ok ()
  | .null | .bool _ | .number _ | .string _ => rfl
  | .array items => by
    rw [Node.ofJson, skip, skipItems_ofItems items]
    rfl
  | .object members => by
    rw [Node.ofJson, skip, skipMembers_ofMembers members]
    rfl

theorem skipItems_ofItems : ∀ items : List Json, skipItems (Node.ofItems items) = .ok ()
  | [] => rfl
  | v :: rest => by
    rw [Node.ofItems, skipItems, skip_ofJson v, skipItems_ofItems rest]
    rfl

theorem skipMembers_ofMembers : ∀ members : List (String × Json),
    skipMembers (Node.ofMembers members) = .ok ()
  | [] => rfl
  | (_, v) :: rest => by
    rw [Node.ofMembers, skipMembers, skip_ofJson v, skipMembers_ofMembers rest]
    rfl

end

/-! ### Reading a record -/

namespace Record

def names (record : Record α) : List String :=
  record.members.map Prod.fst

theorem names_seq (make : Record (α → β)) (record : Record α) :
    (make <*> record).names = make.names ++ record.names :=
  List.map_append

section

variable {name : String} {decoder : Decoder α} {absent : Members → Except DecodeError α}
  {reading : Reading} {found : Members}

theorem build_member_some {node : Node} (here : found.find name = some node) :
    (member name decoder absent).build reading found = decoder reading node := by
  simp only [member, here]

theorem build_member_none (missing : found.find name = none) :
    (member name decoder absent).build reading found = absent found := by
  simp only [member, missing]

end

/-- Given what stands under each name, every check is passed, and the record is made. -/
structure Reads (record : Record α) (given : String → Option Json) (a : α) : Prop where
  checks : ∀ name check, (name, check) ∈ record.members → ∀ v, given name = some v →
    Decodes check v ()
  builds : ∀ found : Members,
    (∀ name ∈ record.names, found.find name = (given name).map Node.ofJson) →
    record.build (.start .value) found = .ok a

namespace Reads

variable {given : String → Option Json} {name : String} {decoder : Decoder α}

theorem map {record : Record α} {a : α} (f : α → β) (reads : record.Reads given a) :
    (f <$> record).Reads given (f a) :=
  ⟨reads.checks, fun found known => map_eq_ok_iff.mpr ⟨a, reads.builds found known, rfl⟩⟩

theorem seq {make : Record (α → β)} {record : Record α} {g : α → β} {a : α}
    (first : make.Reads given g) (second : record.Reads given a) :
    (make <*> record).Reads given (g a) := by
  constructor
  · intro name check member
    rcases List.mem_append.mp member with front | back
    · exact first.checks name check front
    · exact second.checks name check back
  · intro found known
    rw [names_seq] at known
    have made : make.build (.start .value) found = .ok g :=
      first.builds found fun name listed => known name (List.mem_append_left _ listed)
    have read : record.build (.start .value) found = .ok a :=
      second.builds found fun name listed => known name (List.mem_append_right _ listed)
    exact bind_eq_ok_iff.mpr ⟨g, made, bind_eq_ok_iff.mpr ⟨a, read, rfl⟩⟩

theorem member {absent : Members → Except DecodeError α} {a : α}
    (there : ∀ v, given name = some v → Decodes decoder v a)
    (missing : given name = none → ∀ found, absent found = .ok a) :
    (member name decoder absent).Reads given a := by
  constructor
  · intro name' check listed v here
    obtain ⟨rfl, rfl⟩ := Prod.mk.inj (List.mem_singleton.mp listed)
    have read := there v here
    rw [Decodes] at read ⊢
    rw [read]
    rfl
  · intro found known
    have here := known name (List.mem_singleton_self _)
    cases under : given name with
    | none =>
      rw [under] at here
      exact (build_member_none here).trans (missing under found)
    | some v =>
      rw [under] at here
      exact (build_member_some here).trans (there v under)

/-- A member that is always there. -/
theorem needs {v : Json} {a : α} (here : given name = some v) (decodes : Decodes decoder v a) :
    (needs name decoder).Reads given a := by
  refine member (fun w under => ?_) fun missing => ?_
  · obtain rfl := Option.some.inj (here.symm.trans under)
    exact decodes
  · rw [here] at missing
    cases missing

/-- A member that may be left out when it is as the default is. -/
theorem takes {a absent : α} {v : Json} (decodes : Decodes decoder v a)
    (here : given name = some v ∨ given name = none ∧ a = absent) :
    (takes name decoder absent).Reads given a := by
  refine member (fun w under => ?_) fun missing _ => ?_
  · obtain rfl : v = w := by simpa [under, eq_comm] using here
    exact decodes
  · rcases here with there | ⟨-, rfl⟩
    · rw [missing] at there
      cases there
    · rfl

/-- A member that is left out when there is nothing to say. -/
theorem may {encode : α → Json} {value : Option α} (here : given name = value.map encode)
    (decodes : ∀ a ∈ value, encode a ≠ .null ∧ Decodes decoder (encode a) a) :
    (may name decoder).Reads given value := by
  refine member (fun v under => ?_) fun missing _ => ?_
  · rw [here] at under
    obtain ⟨a, rfl, rfl⟩ := Option.map_eq_some_iff.mp under
    obtain ⟨nonnull, read⟩ := decodes a rfl
    exact decodes_option nonnull read
  · rw [here, Option.map_eq_none_iff] at missing
    rw [missing]

theorem takes_sparing {a absent : α} {v : Json} {isDefault : Bool}
    (here : given name = Slots.sparing isDefault v) (decodes : Decodes decoder v a)
    (same : isDefault = true → a = absent) :
    (Record.takes name decoder absent).Reads given a := by
  refine takes decodes ?_
  cases isDefault with
  | true => exact .inr ⟨here, same rfl⟩
  | false => exact .inl here

theorem takes_strings {items : List String}
    (here : given name = Slots.sparing items.isEmpty (Json.strings items)) :
    (Record.takes name (list string) []).Reads given items :=
  takes_sparing here (decodes_list fun s _ => decodes_string s) List.isEmpty_iff.mp

theorem takes_fields {members : Fields} (distinct : members.Distinct)
    (here : given name = Slots.sparing members.isEmpty (.object members)) :
    (Record.takes name fields []).Reads given members :=
  takes_sparing here (decodes_fields distinct) List.isEmpty_iff.mp

theorem may_string {value : Option String} (here : given name = value.map .string) :
    (Record.may name string).Reads given value :=
  may here fun s _ => ⟨nofun, decodes_string s⟩

end Reads

/-! ### Walking through the members -/

variable {record : Record α} {given : String → Option Json} {a : α}

theorem names_of_lookup {name : String} {check : Decoder Unit}
    (known : record.members.lookup name = some check) : (name, check) ∈ record.members := by
  obtain ⟨before, behind, split, -⟩ := List.lookup_eq_some_iff.mp known
  rw [split]
  exact List.mem_append_right _ List.mem_cons_self

theorem not_mem_names {name : String} (unknown : record.members.lookup name = none) :
    name ∉ record.names := by
  intro listed
  obtain ⟨member, inside, rfl⟩ := List.mem_map.mp listed
  simpa using List.lookup_eq_none_iff.mp unknown member inside

/-- The walk finds the known members, and each under its name. -/
theorem walk_ofMembers {members : Fields} (once : (members.map Prod.fst).Nodup)
    (checks : ∀ name check, (name, check) ∈ record.members → ∀ v, (name, v) ∈ members →
      Decodes check v ())
    (seen : List (String × Node)) (fresh : ∀ name ∈ members.map Prod.fst, seen.lookup name = none) :
    ∃ found, record.walk (.start .value) seen (Node.ofMembers members) = .ok found ∧
      ∀ name ∈ record.names, found.lookup name =
        (seen.lookup name).or ((members.lookup name).map Node.ofJson) := by
  induction members generalizing seen with
  | nil => exact ⟨seen, rfl, fun name _ => by simp⟩
  | cons head rest ih =>
    obtain ⟨key, v⟩ := head
    obtain ⟨alone, later⟩ := List.nodup_cons.mp once
    obtain ⟨free, others⟩ := List.forall_mem_cons.mp fresh
    have checks' := fun name check listed w member =>
      checks name check listed w (List.mem_cons_of_mem _ member)
    rw [Node.ofMembers, walk]
    cases known : record.members.lookup key with
    | none =>
      obtain ⟨found, walked, under⟩ := ih later checks' seen others
      refine ⟨found, bind_eq_ok_iff.mpr ⟨key, rfl, ?_⟩, fun name listed => ?_⟩
      · rw [known]
        exact bind_eq_ok_iff.mpr ⟨(), skip_ofJson v, walked⟩
      · have other : name ≠ key := ne_of_mem_of_not_mem listed (not_mem_names known)
        rw [under name listed, lookup_cons_ne other]
    | some check =>
      -- The key is new to what was seen, and all others are new to it, as each comes once.
      have passed := checks key check (names_of_lookup known) v List.mem_cons_self
      have apart : ∀ name ∈ rest.map Prod.fst,
          ((key, Node.ofJson v) :: seen).lookup name = none := by
        intro name member
        rw [lookup_cons_ne (ne_of_mem_of_not_mem member alone), others name member]
      obtain ⟨found, walked, under⟩ := ih later checks' _ apart
      refine ⟨found, bind_eq_ok_iff.mpr ⟨key, rfl, ?_⟩, fun name listed => ?_⟩
      · rw [known, free]
        exact bind_eq_ok_iff.mpr ⟨(), passed, walked⟩
      · rw [under name listed]
        by_cases same : name = key
        · subst same
          rw [List.lookup_cons_self, List.lookup_cons_self, free]
          rfl
        · rw [lookup_cons_ne same, lookup_cons_ne same]

/-- An object whose members read as they should gives the record made of them. -/
theorem Reads.decodes {slots : Slots} (reads : record.Reads slots.given a)
    (once : slots.names.Nodup) (name : String) :
    Decodes (record.decoder name) (.object slots.present) a := by
  have keys : (slots.present.map Prod.fst).Nodup := once.sublist slots.present_sublist
  obtain ⟨seen, walked, under⟩ := walk_ofMembers keys
    (fun name check listed v member =>
      reads.checks name check listed v (Slots.given_of_mem once member)) [] (fun _ _ => rfl)
  have built := reads.builds
    ⟨fun name => seen.lookup name, fun name => ⟨.missing name, 0⟩, false⟩ fun name listed => by
      rw [← Slots.lookup_present once]
      exact under name listed
  simp only [Decodes, Node.ofJson, decoder, content]
  exact bind_eq_ok_iff.mpr ⟨_, rfl, bind_eq_ok_iff.mpr ⟨seen, walked, built⟩⟩

end Record
end PolicyLint.Document
