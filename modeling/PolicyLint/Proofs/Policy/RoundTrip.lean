import PolicyLint.PolicyFile
import PolicyLint.Proofs.Document.Yield
/-!
Policies and violations, written as JSON and read back. Main statement: each is read back as it was, with
the order of the keys in its maps, and whatever is read at all, from JSON or from YAML, can be written and
read again.
-/
namespace PolicyLint

open Document

/-! ### Members that are left out -/

theorem Document.Slots.present_cons (name : String) (value : Option Json) (slots : Slots) :
    present ((name, value) :: slots) = optionMember name value ++ present slots := by
  cases value <;> rfl

theorem optionMember_some (name : String) (v : Json) : optionMember name (some v) = [(name, v)] := rfl

theorem listMember_eq (name : String) (items : List String) :
    Selector.listMember name items =
      optionMember name (Slots.sparing items.isEmpty (Json.strings items)) := by
  unfold Selector.listMember Slots.sparing
  split <;> rfl

theorem textMember_eq (name text : String) :
    textMember name text = optionMember name (Slots.sparing (text = "") (.string text)) := by
  by_cases empty : text = "" <;> simp [textMember, Slots.sparing, empty, optionMember]

theorem mapMember_eq (name : String) (members : Fields) :
    mapMember name members = optionMember name (Slots.sparing members.isEmpty (.object members)) := by
  unfold mapMember Slots.sparing
  split <;> rfl

/-! ### Parts of a rule -/

namespace Selector

def slots (s : Selector) : Slots :=
  let texts := fun name items => (name, Slots.sparing items.isEmpty (Json.strings items))
  [texts "languages" s.languages, texts "include" s.included, texts "exclude" s.excluded,
    texts "branches" s.branches, texts "roles" s.roles, texts "tags" s.tags]

theorem toJson_eq (s : Selector) : s.toJson = .object s.slots.present := by
  simp only [toJson, slots, listMember_eq, Slots.present_cons, Slots.present_nil, List.append_assoc,
    List.append_nil]

theorem record_reads (s : Selector) : record.Reads s.slots.given s := by
  refine (((((Record.Reads.map mk ?_).seq ?_).seq ?_).seq ?_).seq ?_).seq ?_
  all_goals exact .takes_strings (by simp [slots])

theorem decodes_toJson (s : Selector) : Decodes decoder s.toJson s := by
  rw [toJson_eq]
  exact s.record_reads.decodes (by simp [slots, Slots.names]) "Selector"

end Selector

theorem Severity.decodes_word (s : Severity) : Decodes decoder (.string s.word) s := by
  cases s <;> rfl

theorem Payload.decodes_toJson {payload : Payload} (distinct : payload.fields.Distinct) :
    Decodes decoder payload.toJson payload :=
  map_eq_ok_iff.mpr ⟨payload.fields, decodes_fields distinct, rfl⟩

theorem Payload.decoder_yields : Yields decoder fun payload => payload.fields.Distinct := by
  intro reading node payload done
  obtain ⟨members, read, rfl⟩ := map_eq_ok_iff.mp done
  exact Yields.fields _ _ _ read

namespace Remedy

def slots (r : Remedy) : Slots :=
  [("autofix", some (.bool r.autofix)), ("tool", r.tool.map .string),
    ("config", Slots.sparing r.config.isEmpty (.object r.config))]

theorem toJson_eq (r : Remedy) : r.toJson = .object r.slots.present := by
  simp only [toJson, slots, mapMember_eq, Slots.present_cons, Slots.present_nil, optionMember_some,
    List.append_assoc, List.append_nil]

theorem decodes_toJson {r : Remedy} (distinct : r.config.Distinct) : Decodes decoder r.toJson r := by
  have reads : record.Reads r.slots.given r := by
    refine ((Record.Reads.map mk ?_).seq ?_).seq ?_
    · exact .takes (decodes_bool _) (.inl (by simp [slots]))
    · exact .may_string (by simp [slots])
    · exact .takes_fields distinct (by simp [slots])
  rw [toJson_eq]
  exact reads.decodes (by simp [slots, Slots.names]) "Remedy"

theorem decoder_yields : Yields decoder fun r => r.config.Distinct := by
  refine Record.Yields.decoder (((Record.Yields.map ?_ (.anything _)).seq (.anything _)).seq
    (.takes .fields Fields.distinct_nil)) "Remedy"
  exact fun _ _ _ _ _ distinct => distinct

end Remedy

/-! ### Rules and policies -/

/-- As every rule is whose maps have each key once. -/
structure Rule.WellFormed (r : Rule) : Prop where
  check : r.check.fields.Distinct
  remedy : ∀ remedy ∈ r.remedy, remedy.config.Distinct

namespace Rule

def slots (r : Rule) : Slots :=
  [("id", some (.string r.id)), ("enabled", some (.bool r.enabled)),
    ("category", some (.string r.category)), ("severity", some (.string r.severity.word)),
    ("desc", r.desc.map .string), ("when", r.selector.map Selector.toJson),
    ("check", some r.check.toJson), ("remedy", r.remedy.map Remedy.toJson),
    ("message", r.customMessage.map .string)]

theorem toJson_eq (r : Rule) : r.toJson = .object r.slots.present := by
  simp only [toJson, slots, Slots.present_cons, Slots.present_nil, optionMember_some,
    List.append_assoc, List.append_nil, List.cons_append, List.nil_append]

theorem decodes_toJson {r : Rule} (wellFormed : r.WellFormed) : Decodes decoder r.toJson r := by
  have reads : record.Reads r.slots.given r := by
    refine ((((((((Record.Reads.map mk ?id).seq ?enabled).seq ?category).seq ?severity).seq
      ?desc).seq ?selector).seq ?check).seq ?remedy).seq ?message
    case id => exact .needs (by simp [slots]) (decodes_string _)
    case enabled => exact .takes (decodes_bool _) (.inl (by simp [slots]))
    case category => exact .takes (decodes_string _) (.inl (by simp [slots]))
    case severity => exact .takes (Severity.decodes_word _) (.inl (by simp [slots]))
    case desc | message => exact .may_string (by simp [slots])
    case selector =>
      have under : r.slots.given "when" = r.selector.map Selector.toJson := by simp [slots]
      exact .may under fun selector _ => ⟨nofun, selector.decodes_toJson⟩
    case check => exact .takes (Payload.decodes_toJson wellFormed.check) (.inl (by simp [slots]))
    case remedy =>
      have under : r.slots.given "remedy" = r.remedy.map Remedy.toJson := by simp [slots]
      exact .may under fun remedy given =>
        ⟨nofun, Remedy.decodes_toJson (wellFormed.remedy remedy given)⟩
  rw [toJson_eq]
  exact reads.decodes (by simp [slots, Slots.names]) "Rule"

theorem decoder_yields : Yields decoder Rule.WellFormed := by
  refine Record.Yields.decoder (((((((((Record.Yields.map ?_ (.anything _)).seq (.anything _)).seq
    (.anything _)).seq (.anything _)).seq (.anything _)).seq (.anything _)).seq
    (.takes Payload.decoder_yields Fields.distinct_nil)).seq (.may Remedy.decoder_yields)).seq
    (.anything _)) "Rule"
  intro id _ enabled _ category _ severity _ desc _ selector _ check distinct remedy within message _
  exact ⟨distinct, within⟩

end Rule

def Policy.WellFormed (p : Policy) : Prop :=
  ∀ rule ∈ p.rules, rule.WellFormed

namespace Policy

def slots (p : Policy) : Slots :=
  [("version", some (.string p.version)), ("rules", some (.array (p.rules.map Rule.toJson)))]

theorem toJson_eq (p : Policy) : p.toJson = .object p.slots.present := rfl

theorem decodes_toJson {p : Policy} (wellFormed : p.WellFormed) : Decodes decoder p.toJson p := by
  have reads : record.Reads p.slots.given p := by
    refine (Record.Reads.map mk ?_).seq ?_
    · exact .takes (decodes_string _) (.inl (by simp [slots]))
    · have each : Decodes (list Rule.decoder) (.array (p.rules.map Rule.toJson)) p.rules :=
        decodes_list fun rule member => Rule.decodes_toJson (wellFormed rule member)
      exact .takes each (.inl (by simp [slots]))
  rw [toJson_eq]
  exact reads.decodes (by simp [slots, Slots.names]) "Policy"

theorem decoder_yields : Yields decoder Policy.WellFormed := by
  refine Record.Yields.decoder ((Record.Yields.map ?_ (.anything _)).seq
    (.takes (.list Rule.decoder_yields) (by simp))) "Policy"
  exact fun _ _ _ rules => rules

end Policy

/-! ### Violations -/

namespace Suggestion

def slots (s : Suggestion) : Slots :=
  [("desc", some (.string s.desc)), ("replacement", s.replacement.map .string),
    ("diff", s.diff.map .string)]

theorem toJson_eq (s : Suggestion) : s.toJson = .object s.slots.present := by
  simp only [toJson, slots, Slots.present_cons, Slots.present_nil, optionMember_some,
    List.append_assoc, List.append_nil]

theorem decodes_toJson (s : Suggestion) : Decodes decoder s.toJson s := by
  have reads : record.Reads s.slots.given s := by
    refine ((Record.Reads.map mk ?_).seq ?_).seq ?_
    · exact .needs (by simp [slots]) (decodes_string _)
    · exact .may_string (by simp [slots])
    · exact .may_string (by simp [slots])
  rw [toJson_eq]
  exact reads.decodes (by simp [slots, Slots.names]) "Suggestion"

end Suggestion

/-- As every violation is whose positions are words of 32 bits and whose map has each key once. -/
structure Violation.WellFormed (v : Violation) : Prop where
  line : v.line < Nat.pow 2 32
  column : v.column < Nat.pow 2 32
  endLine : ∀ n ∈ v.endLine, n < Nat.pow 2 32
  endColumn : ∀ n ∈ v.endColumn, n < Nat.pow 2 32
  context : v.context.Distinct

namespace Violation

def slots (v : Violation) : Slots :=
  [("file", some (.string v.file)), ("line", some (Json.ofNat v.line)),
    ("column", some (Json.ofNat v.column)), ("endLine", v.endLine.map Json.ofNat),
    ("endColumn", v.endColumn.map Json.ofNat), ("message", some (.string v.message)),
    ("severity", some (.string v.severity.word)), ("ruleId", some (.string v.ruleId)),
    ("category", Slots.sparing (v.category = "") (.string v.category)),
    ("suggestion", v.suggestion.map Suggestion.toJson),
    ("context", Slots.sparing v.context.isEmpty (.object v.context))]

theorem toJson_eq (v : Violation) : v.toJson = .object v.slots.present := by
  simp only [toJson, slots, textMember_eq, mapMember_eq, Slots.present_cons, Slots.present_nil,
    optionMember_some, List.append_assoc, List.append_nil, List.cons_append, List.nil_append]

theorem decodes_position {n : Nat} (bound : n < Nat.pow 2 32) :
    Decodes (natural 32) (Json.ofNat n) n := by
  have word : Number.IsWord n := by
    change n < 4294967296 at bound
    constructor <;> omega
  exact decodes_natural word bound

theorem may_position {given : String → Option Json} {name : String} {value : Option Nat}
    (bound : ∀ n ∈ value, n < Nat.pow 2 32) (here : given name = value.map Json.ofNat) :
    (Record.may name (natural 32)).Reads given value :=
  .may here fun n member => ⟨nofun, decodes_position (bound n member)⟩

theorem decodes_toJson {v : Violation} (wellFormed : v.WellFormed) : Decodes decoder v.toJson v := by
  have reads : record.Reads v.slots.given v := by
    refine ((((((((((Record.Reads.map mk ?file).seq ?line).seq ?column).seq ?endLine).seq
      ?endColumn).seq ?message).seq ?severity).seq ?ruleId).seq ?category).seq ?suggestion).seq ?context
    case file | message | ruleId => exact .needs (by simp [slots]) (decodes_string _)
    case line => exact .needs (by simp [slots]) (decodes_position wellFormed.line)
    case column => exact .needs (by simp [slots]) (decodes_position wellFormed.column)
    case endLine => exact may_position wellFormed.endLine (by simp [slots])
    case endColumn => exact may_position wellFormed.endColumn (by simp [slots])
    case severity => exact .needs (by simp [slots]) (Severity.decodes_word _)
    case category =>
      have under : v.slots.given "category" =
          Slots.sparing (v.category = "") (.string v.category) := by simp [slots]
      exact .takes_sparing under (decodes_string _) of_decide_eq_true
    case suggestion =>
      have under : v.slots.given "suggestion" = v.suggestion.map Suggestion.toJson := by simp [slots]
      exact .may under fun suggestion _ => ⟨nofun, suggestion.decodes_toJson⟩
    case context => exact .takes_fields wellFormed.context (by simp [slots])
  rw [toJson_eq]
  exact reads.decodes (by simp [slots, Slots.names]) "Violation"

theorem decoder_yields : Yields decoder Violation.WellFormed := by
  refine Record.Yields.decoder (((((((((((Record.Yields.map ?_ (.anything _)).seq
    (.needs (.natural 32))).seq (.needs (.natural 32))).seq (.may (.natural 32))).seq
    (.may (.natural 32))).seq (.anything _)).seq (.anything _)).seq (.anything _)).seq
    (.anything _)).seq (.anything _)).seq (.takes .fields Fields.distinct_nil)) "Violation"
  intro file _ line inLine column inColumn endLine inEndLine endColumn inEndColumn message _ severity _
    ruleId _ category _ suggestion _ context distinct
  exact ⟨inLine, inColumn, inEndLine, inEndColumn, distinct⟩

end Violation

/-! ### There and back -/

/-- Well-formed values are read back as they were written, and only well-formed ones are read, from a
document of whatever form. So reading what was read and written changes nothing, for every value that is
read as a document and for every text, and writing what was written and read changes nothing either. -/
structure RoundTrips (decoder : Decoder α) (encode : α → Json) (WellFormed : α → Prop) : Prop where
  undone : ∀ a, WellFormed a → decodeValue decoder (encode a) = .ok a
  sound : ∀ reading node a, decoder reading node = .ok a → WellFormed a
  read_again : ∀ v,
    (decodeValue decoder v >>= fun a => decodeValue decoder (encode a)) = decodeValue decoder v
  text_again : ∀ text a, decodeText decoder text = .ok a → decodeValue decoder (encode a) = .ok a
  written_again : ∀ a, WellFormed a → encode <$> decodeValue decoder (encode a) = .ok (encode a)

theorem RoundTrips.of_decodes {decoder : Decoder α} {encode : α → Json} {WellFormed : α → Prop}
    (decodes : ∀ a, WellFormed a → Decodes decoder (encode a) a) (yields : Yields decoder WellFormed) :
    RoundTrips decoder encode WellFormed where
  undone a wellFormed := decodeValue_eq_ok_iff.mpr (decodes a wellFormed)
  sound := yields
  read_again v := by
    cases read : decodeValue decoder v with
    | error mismatch => rfl
    | ok a =>
      have wellFormed := yields _ _ _ (decodeValue_eq_ok_iff.mp read)
      exact decodeValue_eq_ok_iff.mpr (decodes a wellFormed)
  text_again text a read := by
    exact decodeValue_eq_ok_iff.mpr (decodes a (yields.decodeText read))
  written_again a wellFormed := by
    rw [decodeValue_eq_ok_iff.mpr (decodes a wellFormed)]
    rfl

/-- What a policy file holds is well-formed, whether the file is JSON or YAML. -/
theorem Policy.read_wellFormed {isYaml : Bool} {text : String} {p : Policy}
    (done : Policy.read isYaml text = .ok p) : p.WellFormed := by
  unfold Policy.read at done
  split at done
  · obtain ⟨node, -, done⟩ := bind_eq_ok_iff.mp done
    exact decoder_yields _ _ _ (mapError_eq_ok_iff.mp done)
  · exact decoder_yields.decodeText (mapError_eq_ok_iff.mp done)

/-- Policies and violations are read back as they were written, with the keys of their maps in order and
hence with the same readings of their checks; a policy from a file, in JSON or in YAML, can be written and
read again. -/
theorem Policy.reads_back :
    RoundTrips Policy.decoder Policy.toJson Policy.WellFormed ∧
    RoundTrips Violation.decoder Violation.toJson Violation.WellFormed ∧
    ∀ isYaml text p, Policy.read isYaml text = .ok p → decodeValue Policy.decoder p.toJson = .ok p := by
  have policies : RoundTrips Policy.decoder Policy.toJson Policy.WellFormed :=
    .of_decodes (fun _ => Policy.decodes_toJson) Policy.decoder_yields
  refine ⟨policies, ?_, fun isYaml text p read => ?_⟩
  · exact .of_decodes (fun _ => Violation.decodes_toJson) Violation.decoder_yields
  · exact policies.undone p (Policy.read_wellFormed read)

/-- Two rules, one with an empty selector and an empty message, one with maps in maps. -/
def Policy.sample : Policy where
  version := "1"
  rules := [
    { id := "A", enabled := false, category := "", severity := .info, desc := some ""
      selector := some .empty, check := .empty, remedy := none, customMessage := some "" },
    { id := "B", enabled := true, category := "naming", severity := .warning, desc := none
      selector := none
      check := ⟨[("where", .object [("b", .array [.null]), ("a", .object [("eq", .string "x")])]),
        ("engine", .string "ast"), ("node", .string "Call")]⟩
      remedy := some ⟨true, none, [("tabs", .bool true), ("options", .object [])]⟩
      customMessage := none }]

theorem Policy.sample_reads_back : Policy.sample.WellFormed ∧
    decodeValue Policy.decoder Policy.sample.toJson = .ok Policy.sample := by
  have wellFormed : Policy.sample.WellFormed := by
    intro rule listed
    rcases List.mem_pair.mp listed with rfl | rfl
    · exact ⟨Fields.distinct_nil, by simp⟩
    · refine ⟨by simp [Json.Distinct.null, Json.Distinct.string], ?_⟩
      rintro _ ⟨⟩
      exact .object (by decide)
        (List.forall_mem_cons.mpr ⟨.bool true, List.forall_mem_singleton.mpr Fields.distinct_nil⟩)
  exact ⟨wellFormed, Policy.reads_back.1.undone Policy.sample wellFormed⟩

end PolicyLint
