import PolicyLint.Proofs.Document.Shape
/-!
Records as documents give them. Main statement: a record whose members fit is read from an object that has
each of its names once at most, in any order and among other members, and from a list of its members' values,
and from nothing else.
-/
namespace PolicyLint.Document

/-! ### What is given -/

/-- What is given for the members of a record, and whether it is given as a list. -/
structure Given where
  listed : Bool
  find : String → Option Written

/-- The members of a record, from an object that has each name once at most or from a list that is not too
long. -/
def Written.given? (names : List String) : Written → Option Given
  | .object _ _ members =>
    (entries? members).bind fun entries =>
      if ∀ name ∈ names, (entries.map Prod.fst).count name ≤ 1 then
        some ⟨false, fun name => entries.lookup name⟩
      else none
  | .list _ _ items =>
    if items.length ≤ names.length then some ⟨true, fun name => (names.zip items).lookup name⟩ else none
  | .single .. => none

/-! ### Members -/

namespace Given

/-- A member that must be there. -/
def Needs (given : Given) (name : String) (P : Written → α → Prop) (a : α) : Prop :=
  ∃ w, given.find name = some w ∧ P w a

/-- A member that may be absent. -/
def Takes (given : Given) (name : String) (P : Written → α → Prop) (absent a : α) : Prop :=
  given.Needs name P a ∨ given.find name = none ∧ a = absent

/-- A member that may be absent from an object, though not from a list. -/
def Wants (given : Given) (name : String) (P : Written → α → Prop) (value : Option α) : Prop :=
  given.Needs name (Nullable P) value ∨ given.find name = none ∧ given.listed = false ∧ value = none

end Given

/-- What is found under each name stands for what is given there. -/
def Finds (names : List String) (find : String → Option Node) (given : String → Option Written) : Prop :=
  ∀ name ∈ names, Option.Rel (fun node w => Stands w node) (find name) (given name)

namespace Record

/-- The record is made as `P` says of what is given, and then the checks of its members are passed. -/
structure Fits (k : Nat) (record : Record α) (P : Given → α → Prop) : Prop where
  builds : ∀ depth, k ≤ depth → ∀ (found : Members) (given : Given), found.listed = given.listed →
    Finds record.names found.find given.find →
    ∀ a, record.build (.within depth) found = .ok a ↔ P given a
  checks : ∀ given a, P given a → ∀ name check, (name, check) ∈ record.members →
    ∀ w, given.find name = some w → ∀ depth, k ≤ depth → ∀ node, Stands w node →
    check (.within depth) node = .ok ()

namespace Fits

variable {k : Nat}

theorem congr {record : Record α} {P Q : Given → α → Prop} (fits : record.Fits k P)
    (same : ∀ given a, P given a ↔ Q given a) : record.Fits k Q := by
  obtain rfl : P = Q := funext fun given => funext fun a => propext (same given a)
  exact fits

theorem map (f : α → β) {record : Record α} {P : Given → α → Prop} (fits : record.Fits k P) :
    (f <$> record).Fits k fun given b => ∃ a, P given a ∧ f a = b where
  builds depth room found given same finds b := by
    have made : (f <$> record).build (.within depth) found = .ok b ↔
        ∃ a, record.build (.within depth) found = .ok a ∧ f a = b := map_eq_ok_iff
    simp only [made, fits.builds depth room found given same finds]
  checks given b := by
    rintro ⟨a, holds, -⟩
    exact fits.checks given a holds

theorem seq {make : Record (α → β)} {record : Record α} {P : Given → (α → β) → Prop}
    {Q : Given → α → Prop} (first : make.Fits k P) (second : record.Fits k Q) :
    (make <*> record).Fits k fun given b => ∃ g, P given g ∧ ∃ a, Q given a ∧ g a = b where
  builds depth room found given same finds b := by
    rw [names_seq] at finds
    have made : (make <*> record).build (.within depth) found = .ok b ↔
        ∃ g, make.build (.within depth) found = .ok g ∧
          ∃ a, record.build (.within depth) found = .ok a ∧ g a = b := by
      show (make.build (.within depth) found >>= fun g =>
        record.build (.within depth) found >>= fun a => pure (g a)) = .ok b ↔ _
      simp only [bind_eq_ok_iff]
      exact ⟨fun ⟨g, made, a, read, done⟩ => ⟨g, made, a, read, Except.ok.inj done⟩,
        fun ⟨g, made, a, read, same⟩ => ⟨g, made, a, read, congrArg _ same⟩⟩
    simp only [made,
      first.builds depth room found given same fun name listed => finds name (List.mem_append_left _ listed),
      second.builds depth room found given same fun name listed => finds name (List.mem_append_right _ listed)]
  checks given b := by
    rintro ⟨g, front, a, back, -⟩ name check member
    rcases List.mem_append.mp member with member | member
    · exact first.checks given g front name check member
    · exact second.checks given a back name check member

variable {name : String} {decoder : Decoder α} {P : Written → α → Prop}

theorem member (fits : Document.Fits k decoder P) {absent : Members → Except DecodeError α}
    {D : Bool → α → Prop} (default : ∀ found a, absent found = .ok a ↔ D found.listed a) :
    (member name decoder absent).Fits k fun given a =>
      given.Needs name P a ∨ given.find name = none ∧ D given.listed a where
  builds depth room found given same finds a := by
    have here := finds name (List.mem_singleton_self _)
    cases under : found.find name with
    | none =>
      cases has : given.find name with
      | none =>
        rw [build_member_none under, default, same]
        simp [Given.Needs, has]
      | some w =>
        rw [under, has] at here
        cases here
    | some node =>
      cases has : given.find name with
      | none =>
        rw [under, has] at here
        cases here
      | some w =>
        rw [under, has] at here
        obtain ⟨stands⟩ := here
        rw [build_member_some under, fits depth room w node stands a]
        simp [Given.Needs, has]
  checks given a := by
    rintro holds name' check listed w has depth room node stands
    obtain ⟨rfl, rfl⟩ := Prod.mk.inj (List.mem_singleton.mp listed)
    obtain ⟨w', has', read⟩ : given.Needs name' P a := by
      rcases holds with holds | ⟨lacks, -⟩
      · exact holds
      · rw [lacks] at has
        cases has
    obtain rfl := Option.some.inj (has'.symm.trans has)
    have done := (fits depth room w' node stands a).mpr read
    show (decoder (.within depth) node).map (fun _ => ()) = .ok ()
    rw [done]
    rfl

theorem needs (fits : Document.Fits k decoder P) :
    (needs name decoder).Fits k fun given a => given.Needs name P a := by
  have whole : (Record.needs name decoder).Fits k _ :=
    member (D := fun _ _ => False) fits fun found a => ⟨nofun, nofun⟩
  simpa only [and_false, or_false] using whole

theorem takes (fits : Document.Fits k decoder P) (absent : α) :
    (takes name decoder absent).Fits k fun given a => given.Takes name P absent a :=
  member (D := fun _ a => a = absent) fits fun found a => by simp [eq_comm]

theorem may (fits : Document.Fits k decoder P) (nonnull : ∀ w a, P w a → w.isNull = false) :
    (may name decoder).Fits k fun given value => given.Takes name (Nullable P) none value :=
  takes (fits.option nonnull) none

theorem wants (fits : Document.Fits k decoder P) (nonnull : ∀ w a, P w a → w.isNull = false) :
    (wants name decoder).Fits k fun given value => given.Wants name P value :=
  member (D := fun listed value => listed = false ∧ value = none) (fits.option nonnull) fun found a => by
    cases found.listed
    · simp [eq_comm]
    · simp

end Fits

/-! ### Objects -/

/-- A name that was there before does not come again, and another comes once at most. -/
def Once (names : List String) (before : String → Option Written) (entries : List (String × Written)) : Prop :=
  ∀ name ∈ names, (entries.map Prod.fst).count name ≤ if (before name).isSome then 0 else 1

theorem entries?_cons {label : Label} {w : Written} {members : List (Label × Written)}
    {entries : List (String × Written)} :
    Written.entries? ((label, w) :: members) = some entries ↔
      ∃ name rest, text? label.letters = some name ∧ Written.entries? members = some rest ∧
        entries = (name, w) :: rest := by
  unfold Written.entries?
  cases text : text? label.letters with
  | none => simp [text]
  | some name =>
    cases more : members.mapM fun member => (text? member.1.letters).map fun name => (name, member.2) with
    | none => simp [text, more]
    | some rest => simp [text, more, eq_comm]

/-- One name more that was there before. -/
def adding (name : String) (w : Written) (before : String → Option Written) (name' : String) :
    Option Written :=
  if name' = name then some w else before name'

theorem once_unknown {names : List String} {name : String} (unknown : name ∉ names)
    {before : String → Option Written} {w : Written} {entries : List (String × Written)} :
    Once names before ((name, w) :: entries) ↔ Once names before entries := by
  refine forall₂_congr fun name' listed => ?_
  have other : name ≠ name' := (ne_of_mem_of_not_mem listed unknown).symm
  rw [List.map_cons, List.count_cons_of_ne other]

theorem once_known {names : List String} {name : String} {before : String → Option Written}
    (new : before name = none) {w : Written} {entries : List (String × Written)} :
    Once names before ((name, w) :: entries) ↔ Once names (adding name w before) entries := by
  refine forall₂_congr fun name' listed => ?_
  by_cases same : name' = name
  · subst same
    simp [new, adding]
  · rw [List.map_cons, List.count_cons_of_ne (Ne.symm same), adding, if_neg same]

theorem finds_known {names : List String} {seen : List (String × Node)} {before : String → Option Written}
    (finds : Finds names (fun name => seen.lookup name) before) {w : Written} {node : Node}
    (stands : Stands w node) (name : String) :
    Finds names (fun name' => ((name, node) :: seen).lookup name') (adding name w before) := by
  intro name' listed
  by_cases same : name' = name
  · subst same
    simpa [adding] using stands
  · simpa only [lookup_cons_ne same, adding, if_neg same] using finds name' listed

theorem finds_none {names : List String} {seen : List (String × Node)} {before : String → Option Written}
    (finds : Finds names (fun name => seen.lookup name) before) {name : String} (listed : name ∈ names) :
    seen.lookup name = none ↔ before name = none := by
  have here : Option.Rel _ (seen.lookup name) (before name) := finds name listed
  cases found : seen.lookup name <;> cases given : before name <;> rw [found, given] at here
  · simp
  · cases here
  · cases here
  · simp

variable {record : Record α} {reading : Reading}

theorem walk_unknown {key : Key} {name : String} (named : orFault key.text = .ok name)
    (unknown : record.members.lookup name = none) (node : Node) (seen : List (String × Node))
    (nodes : List (Key × Node)) :
    record.walk reading seen ((key, node) :: nodes) =
      (skip node >>= fun _ => record.walk reading seen nodes) := by
  simp only [walk, named, bind, Except.bind, unknown]

theorem walk_known {key : Key} {name : String} (named : orFault key.text = .ok name) {check : Decoder Unit}
    (known : record.members.lookup name = some check) (node : Node) (seen : List (String × Node))
    (nodes : List (Key × Node)) :
    record.walk reading seen ((key, node) :: nodes) =
      if (seen.lookup name).isSome then .error ⟨.repeated name, key.next⟩
      else (check reading node >>= fun _ => record.walk reading ((name, node) :: seen) nodes) := by
  simp only [walk, named, bind, Except.bind, known]

/-- What the walk finds is what stands under the names of the record. -/
theorem walk_finds {members : List (Label × Written)} {nodes : List (Key × Node)}
    (stand : StandMembers members nodes) {seen found : List (String × Node)}
    {before : String → Option Written} (finds : Finds record.names (fun name => seen.lookup name) before)
    (walked : record.walk reading seen nodes = .ok found) :
    ∃ entries, Written.entries? members = some entries ∧ Once record.names before entries ∧
      Finds record.names (fun name => found.lookup name)
        (fun name => (before name).or (entries.lookup name)) := by
  induction members generalizing nodes seen before with
  | nil =>
    cases nodes with
    | nil =>
      obtain rfl := Except.ok.inj walked
      refine ⟨[], rfl, fun name _ => by simp, fun name listed => ?_⟩
      simpa using finds name listed
    | cons => exact stand.elim
  | cons member members ih =>
    obtain ⟨label, w⟩ := member
    cases nodes with
    | nil => exact stand.elim
    | cons pair nodes =>
      obtain ⟨key, node⟩ := pair
      obtain ⟨⟨keyed, stands⟩, stand⟩ := stand
      obtain ⟨name, named, -⟩ := bind_eq_ok_iff.mp walked
      have text : text? label.letters = some name := by
        rw [← keyed, toOption_eq_some_iff]
        exact mapError_eq_ok_iff.mp named
      cases known : record.members.lookup name with
      | none =>
        rw [walk_unknown named known] at walked
        obtain ⟨-, -, walked⟩ := bind_eq_ok_iff.mp walked
        obtain ⟨entries, given, once, under⟩ := ih stand finds walked
        refine ⟨(name, w) :: entries, entries?_cons.mpr ⟨name, entries, text, given, rfl⟩,
          (once_unknown (not_mem_names known)).mpr once, fun name' listed => ?_⟩
        have other : name' ≠ name := ne_of_mem_of_not_mem listed (not_mem_names known)
        simpa only [lookup_cons_ne other] using under name' listed
      | some check =>
        have listed : name ∈ record.names := List.mem_map_of_mem (names_of_lookup known)
        rw [walk_known named known] at walked
        split at walked
        · cases walked
        rename_i fresh
        have new : before name = none :=
          (finds_none finds listed).mp (Option.not_isSome_iff_eq_none.mp fresh)
        obtain ⟨-, -, walked⟩ := bind_eq_ok_iff.mp walked
        obtain ⟨entries, given, once, under⟩ := ih stand (finds_known finds stands name) walked
        refine ⟨(name, w) :: entries, entries?_cons.mpr ⟨name, entries, text, given, rfl⟩,
          (once_known new).mpr once, fun name' listed => ?_⟩
        have here := under name' listed
        by_cases same : name' = name
        · subst same
          simpa [new, adding] using here
        · simpa [lookup_cons_ne same, adding, same] using here

mutual

/-- Everything that is written may be skipped. -/
theorem skip_stands : ∀ (w : Written) {node : Node}, Stands w node → skip node = .ok ()
  | .single _ value, node, stands => by
    rcases Single.stands_cases (stands_single stands) with ⟨-, _, rfl⟩ | ⟨_, _, -, rfl⟩ |
      ⟨_, _, _, -, rfl, -⟩ | ⟨_, _, _, -, rfl, -⟩ <;> rfl
  | .list _ _ items, node, stands => by
    obtain ⟨span, nodes, rfl, stand⟩ := stands_list stands
    rw [skip, skipItems_stand items stand]
    rfl
  | .object _ _ members, node, stands => by
    obtain ⟨span, nodes, rfl, stand⟩ := stands_object stands
    rw [skip, skipMembers_stand members stand]
    rfl

theorem skipItems_stand : ∀ (items : List Written) {nodes : List Node}, StandItems items nodes →
    skipItems nodes = .ok ()
  | [], [], _ => rfl
  | w :: items, node :: nodes, ⟨stands, stand⟩ => by
    rw [skipItems, skip_stands w stands, skipItems_stand items stand]
    rfl

theorem skipMembers_stand : ∀ (members : List (Label × Written)) {nodes : List (Key × Node)},
    StandMembers members nodes → skipMembers nodes = .ok ()
  | [], [], _ => rfl
  | (_, w) :: members, (_, node) :: nodes, ⟨⟨_, stands⟩, stand⟩ => by
    rw [skipMembers, skip_stands w stands, skipMembers_stand members stand]
    rfl

end

/-- The walk goes through where names come once and what stands under them is let pass. -/
theorem walk_passes {members : List (Label × Written)} {nodes : List (Key × Node)}
    (stand : StandMembers members nodes) {entries : List (String × Written)}
    (given : Written.entries? members = some entries)
    (checks : ∀ name check, (name, check) ∈ record.members → ∀ w, (name, w) ∈ entries →
      ∀ node, Stands w node → check reading node = .ok ())
    {seen : List (String × Node)} {before : String → Option Written}
    (finds : Finds record.names (fun name => seen.lookup name) before)
    (once : Once record.names before entries) : ∃ found, record.walk reading seen nodes = .ok found := by
  induction members generalizing nodes entries seen before with
  | nil =>
    cases nodes with
    | nil => exact ⟨seen, rfl⟩
    | cons => exact stand.elim
  | cons member members ih =>
    obtain ⟨label, w⟩ := member
    cases nodes with
    | nil => exact stand.elim
    | cons pair nodes =>
      obtain ⟨key, node⟩ := pair
      obtain ⟨⟨keyed, stands⟩, stand⟩ := stand
      obtain ⟨name, rest, text, given', rfl⟩ := entries?_cons.mp given
      have named : orFault key.text = .ok name :=
        mapError_eq_ok_iff.mpr (toOption_eq_some_iff.mp (keyed.trans text))
      have checks' := fun name check listed w member =>
        checks name check listed w (List.mem_cons_of_mem _ member)
      cases known : record.members.lookup name with
      | none =>
        obtain ⟨found, walked⟩ :=
          ih stand given' checks' finds ((once_unknown (not_mem_names known)).mp once)
        rw [walk_unknown named known]
        exact ⟨found, bind_eq_ok_iff.mpr ⟨(), skip_stands w stands, walked⟩⟩
      | some check =>
        have listed : name ∈ record.names := List.mem_map_of_mem (names_of_lookup known)
        have new : before name = none := by
          have bound := once name listed
          rw [List.map_cons, List.count_cons_self] at bound
          by_contra present
          rw [if_pos (Option.isSome_iff_ne_none.mpr present)] at bound
          omega
        have fresh : ¬ (seen.lookup name).isSome = true := by
          simp [(finds_none finds listed).mpr new]
        obtain ⟨found, walked⟩ :=
          ih stand given' checks' (finds_known finds stands name) ((once_known new).mp once)
        have passed := checks name check (names_of_lookup known) w List.mem_cons_self node stands
        rw [walk_known named known, if_neg fresh]
        exact ⟨found, bind_eq_ok_iff.mpr ⟨(), passed, walked⟩⟩

/-! ### Lists -/

/-- Items go to the members in order; what is left over is behind the last of them. -/
theorem walkItems_finds {items : List Written} {nodes : List Node} (stand : StandItems items nodes)
    {members : List (String × Decoder Unit)} {seen : List (String × Node)} {left : List Node}
    (walked : walkItems reading members nodes = .ok (seen, left)) :
    left = nodes.drop members.length ∧ ∀ name, Option.Rel (fun node w => Stands w node)
      (seen.lookup name) (((members.map Prod.fst).zip items).lookup name) := by
  induction members generalizing items nodes seen left with
  | nil =>
    obtain ⟨rfl, rfl⟩ := Prod.mk.inj (Except.ok.inj walked)
    exact ⟨rfl, fun _ => .none⟩
  | cons member members ih =>
    obtain ⟨name, check⟩ := member
    cases items with
    | nil =>
      cases nodes with
      | nil =>
        obtain ⟨rfl, rfl⟩ := Prod.mk.inj (Except.ok.inj walked)
        exact ⟨rfl, fun _ => .none⟩
      | cons => exact stand.elim
    | cons w items =>
      cases nodes with
      | nil => exact stand.elim
      | cons node nodes =>
        obtain ⟨-, -, walked⟩ := bind_eq_ok_iff.mp walked
        obtain ⟨⟨seen', left'⟩, others, done⟩ := bind_eq_ok_iff.mp walked
        obtain ⟨rfl, rfl⟩ := Prod.mk.inj (Except.ok.inj done)
        obtain ⟨left, under⟩ := ih stand.2 others
        refine ⟨left, fun name' => ?_⟩
        rw [List.map_cons, List.zip_cons_cons]
        by_cases same : name' = name
        · subst same
          rw [List.lookup_cons_self, List.lookup_cons_self]
          exact .some stand.1
        · rw [lookup_cons_ne same, lookup_cons_ne same]
          exact under name'

theorem walkItems_passes {items : List Written} {nodes : List Node} (stand : StandItems items nodes)
    {members : List (String × Decoder Unit)}
    (checks : ∀ name check w, ((name, check), w) ∈ members.zip items →
      ∀ node, Stands w node → check reading node = .ok ()) :
    ∃ seen, walkItems reading members nodes = .ok (seen, nodes.drop members.length) := by
  induction members generalizing items nodes with
  | nil => exact ⟨[], rfl⟩
  | cons member members ih =>
    obtain ⟨name, check⟩ := member
    cases items with
    | nil =>
      cases nodes with
      | nil => exact ⟨[], rfl⟩
      | cons => exact stand.elim
    | cons w items =>
      cases nodes with
      | nil => exact stand.elim
      | cons node nodes =>
        have passed := checks name check w List.mem_cons_self node stand.1
        obtain ⟨seen, walked⟩ := ih stand.2 fun name check w member =>
          checks name check w (List.mem_cons_of_mem _ member)
        refine ⟨(name, node) :: seen, ?_⟩
        rw [walkItems, passed]
        exact bind_eq_ok_iff.mpr ⟨(), rfl, bind_eq_ok_iff.mpr ⟨_, walked, rfl⟩⟩

theorem lookup_zip {members : List (String × Decoder Unit)} (once : (members.map Prod.fst).Nodup)
    {items : List Written} {name : String} {check : Decoder Unit} {w : Written}
    (member : ((name, check), w) ∈ members.zip items) :
    ((members.map Prod.fst).zip items).lookup name = some w := by
  induction members generalizing items with
  | nil => cases member
  | cons first members ih =>
    obtain ⟨fresh, once⟩ := List.nodup_cons.mp once
    cases items with
    | nil => cases member
    | cons item items =>
      rw [List.map_cons, List.zip_cons_cons]
      rcases List.mem_cons.mp member with same | member
      · obtain ⟨rfl, rfl⟩ := Prod.mk.inj same
        exact List.lookup_cons_self
      · have listed : name ∈ members.map Prod.fst :=
          List.mem_map_of_mem (List.of_mem_zip member).1
        rw [lookup_cons_ne (ne_of_mem_of_not_mem listed fresh), ih once member]

theorem standItems_drop {items : List Written} {nodes : List Node} (stand : StandItems items nodes)
    (n : Nat) : StandItems (items.drop n) (nodes.drop n) :=
  standItems_iff.mpr (List.forall₂_drop n (standItems_iff.mp stand))

/-- Nothing may be left over behind the last member. -/
theorem closeItems_iff (depth count : Nat) {items : List Written} {nodes : List Node}
    (stand : StandItems items nodes) :
    closeItems (.within depth) count nodes none = .ok () ↔ items = [] := by
  cases items with
  | nil =>
    cases nodes with
    | nil => exact ⟨fun _ => rfl, fun _ => rfl⟩
    | cons => exact stand.elim
  | cons w items =>
    cases nodes with
    | nil => exact stand.elim
    | cons node nodes =>
      refine ⟨fun closed => ?_, nofun⟩
      rcases stands_cases stand.1 with ⟨_, rfl⟩ | ⟨_, _, rfl⟩ | ⟨_, _, rfl⟩ | ⟨_, _, rfl⟩ | ⟨_, _, rfl⟩ |
        ⟨_, _, rfl⟩ <;> cases closed

/-! ### Both -/

theorem lookup_of_once {names : List String} {entries : List (String × Written)}
    (once : Once names (fun _ => none) entries) {name : String} (listed : name ∈ names) {w : Written}
    (member : (name, w) ∈ entries) : entries.lookup name = some w := by
  induction entries with
  | nil => cases member
  | cons entry entries ih =>
    obtain ⟨key, w'⟩ := entry
    by_cases same : name = key
    · subst same
      have bound := once name listed
      rw [List.map_cons, List.count_cons_self] at bound
      have fresh : name ∉ entries.map Prod.fst := List.count_eq_zero.mp (by simpa using bound)
      rcases List.mem_cons.mp member with here | later
      · obtain ⟨-, rfl⟩ := Prod.mk.inj here
        exact List.lookup_cons_self
      · exact absurd (List.mem_map_of_mem later) fresh
    · rw [lookup_cons_ne same]
      refine ih (fun name' listed' => ?_) ?_
      · exact Nat.le_trans List.count_le_count_cons (once name' listed')
      · rcases List.mem_cons.mp member with here | later
        · exact absurd (Prod.mk.inj here).1 same
        · exact later

theorem decoder_array (record : Record α) (name : String) (depth : Nat) (span : Span) (nodes : List Node) :
    ∃ short, ∀ a, record.decoder name (.within (depth + 1)) (.array span nodes none) = .ok a ↔
      ∃ seen left, walkItems (.within depth) record.members nodes = .ok (seen, left) ∧
        record.build (.within depth) ⟨fun name => seen.lookup name, short, true⟩ = .ok a ∧
        closeItems (.within (depth + 1)) nodes.length left none = .ok () := by
  let short := fun missing : String =>
    (⟨.wrongLength ((record.members.map Prod.fst).idxOf missing)
      s!"struct {name} with {record.members.length} elements", span.stop⟩ : DecodeError)
  let few := nodes.length < record.members.length
  let rest := fun r : List (String × Node) × List Node =>
    record.build (.within depth) ⟨fun name => r.1.lookup name, short, true⟩ >>= fun value =>
      closeItems (.within (depth + 1)) nodes.length r.2 (if few then none else none) >>= fun _ => pure value
  -- Whether items are missing makes no difference, as the list is not cut off.
  have read : record.decoder name (.within (depth + 1)) (.array span nodes none) =
      (walkItems (.within depth) record.members nodes >>= fun r => if few then rest r else rest r) := rfl
  refine ⟨short, fun a => ?_⟩
  simp only [read, rest, ite_self, bind_eq_ok_iff]
  constructor
  · rintro ⟨⟨seen, left⟩, walked, value, built, ⟨⟩, closed, done⟩
    exact ⟨seen, left, walked, Except.ok.inj done ▸ built, closed⟩
  · rintro ⟨seen, left, walked, built, closed⟩
    exact ⟨⟨seen, left⟩, walked, a, built, (), closed, rfl⟩

theorem decoder_object (record : Record α) (name : String) (depth : Nat) (span : Span)
    (nodes : List (Key × Node)) (a : α) :
    record.decoder name (.within (depth + 1)) (.object span nodes none) = .ok a ↔
      ∃ seen, record.walk (.within depth) [] nodes = .ok seen ∧
        record.build (.within depth)
          ⟨fun name => seen.lookup name, fun name => ⟨.missing name, span.stop⟩, false⟩ = .ok a := by
  show (record.walk (.within depth) [] nodes >>= fun seen => record.build (.within depth)
    ⟨fun name => seen.lookup name, fun name => ⟨.missing name, span.stop⟩, false⟩) = .ok a ↔ _
  exact bind_eq_ok_iff

namespace Fits

variable {k : Nat} {record : Record α} {P : Given → α → Prop}

theorem decoder_list (fits : record.Fits k P) (once : record.names.Nodup) (name : String) {depth : Nat}
    (room : k ≤ depth) {items : List Written} {nodes : List Node} (stand : StandItems items nodes)
    (span : Span) (around : Around) (gap : Gap) (a : α) :
    record.decoder name (.within (depth + 1)) (.array span nodes none) = .ok a ↔
      ∃ given, (Written.list around gap items).given? record.names = some given ∧ P given a := by
  obtain ⟨short, read⟩ := decoder_array record name depth span nodes
  rw [read]
  constructor
  · rintro ⟨seen, left, walked, built, closed⟩
    obtain ⟨rfl, finds⟩ := walkItems_finds stand walked
    have few := (closeItems_iff _ _ (standItems_drop stand _)).mp closed
    refine ⟨⟨true, fun name => (record.names.zip items).lookup name⟩, ?_,
      (fits.builds depth room _ _ rfl (fun name _ => finds name) a).mp built⟩
    have short : items.length ≤ record.names.length := by
      rw [names, List.length_map]
      exact List.drop_eq_nil_iff.mp few
    rw [Written.given?, if_pos short]
  · rintro ⟨given, has, holds⟩
    rw [Written.given?] at has
    split at has
    · rename_i short'
      obtain rfl := Option.some.inj has
      have checks := fun name check w member => fits.checks _ a holds name check
        (List.of_mem_zip member).1 w (lookup_zip once member) depth room
      obtain ⟨seen, walked⟩ := walkItems_passes stand checks
      obtain ⟨-, finds⟩ := walkItems_finds stand walked
      have few : items.drop record.members.length = [] := by
        rw [names, List.length_map] at short'
        exact List.drop_eq_nil_iff.mpr short'
      exact ⟨seen, _, walked, (fits.builds depth room _ _ rfl (fun name _ => finds name) a).mpr holds,
        (closeItems_iff _ _ (standItems_drop stand _)).mpr few⟩
    · cases has

theorem decoder_members (fits : record.Fits k P) (name : String) {depth : Nat} (room : k ≤ depth)
    {members : List (Label × Written)} {nodes : List (Key × Node)} (stand : StandMembers members nodes)
    (span : Span) (around : Around) (gap : Gap) (a : α) :
    record.decoder name (.within (depth + 1)) (.object span nodes none) = .ok a ↔
      ∃ given, (Written.object around gap members).given? record.names = some given ∧ P given a := by
  have nothing : Finds record.names (fun name => ([] : List (String × Node)).lookup name)
      (fun _ => none) := fun _ _ => .none
  rw [decoder_object]
  constructor
  · rintro ⟨seen, walked, built⟩
    obtain ⟨entries, given, once, finds⟩ := walk_finds stand nothing walked
    simp only [Option.none_or] at finds
    refine ⟨⟨false, fun name => entries.lookup name⟩, ?_, (fits.builds depth room _ _ rfl finds a).mp built⟩
    have counts : ∀ name ∈ record.names, (entries.map Prod.fst).count name ≤ 1 := by
      simpa [Once] using once
    rw [Written.given?, given, Option.bind_some, if_pos counts]
  · rintro ⟨given, has, holds⟩
    obtain ⟨entries, named, has⟩ := Option.bind_eq_some_iff.mp has
    split at has
    · rename_i counts
      obtain rfl := Option.some.inj has
      have once : Once record.names (fun _ => none) entries := by
        simpa [Once] using counts
      have checks := fun name check listed w member => fits.checks _ a holds name check listed w
        (lookup_of_once once (List.mem_map_of_mem listed) member) depth room
      obtain ⟨seen, walked⟩ := walk_passes stand named checks nothing once
      obtain ⟨entries', named', -, finds⟩ := walk_finds stand nothing walked
      obtain rfl := Option.some.inj (named.symm.trans named')
      simp only [Option.none_or] at finds
      exact ⟨seen, walked, (fits.builds depth room _ _ rfl finds a).mpr holds⟩
    · cases has

/-- A record is read from what is given for its members. -/
theorem decoder (fits : record.Fits k P) (once : record.names.Nodup) (name : String) :
    Document.Fits (k + 1) (record.decoder name) fun w a =>
      ∃ given, w.given? record.names = some given ∧ P given a := by
  intro depth room w node stands a
  obtain ⟨inner, rfl, room'⟩ := exists_inner room
  cases w with
  | single around value =>
    rcases Single.stands_cases (stands_single stands) with ⟨rfl, span, rfl⟩ | ⟨b, span, rfl, rfl⟩ |
      ⟨n, span, read, rfl, rfl, counts⟩ | ⟨letters, span, read, rfl, rfl, -⟩
    all_goals exact ⟨nofun, nofun⟩
  | list around gap items =>
    obtain ⟨span, nodes, rfl, stand⟩ := stands_list stands
    exact fits.decoder_list once name room' stand span around gap a
  | object around gap members =>
    obtain ⟨span, nodes, rfl, stand⟩ := stands_object stands
    exact fits.decoder_members name room' stand span around gap a

end Fits

end Record

end PolicyLint.Document
