import PolicyLint.Adapter
import PolicyLint.Proofs.Document.Canonical
/-!
Reports in JSON as a list of files with their findings, whatever an entry of a file is. Main statements: the
record of a file is read from what is given for its path and its entries, one file or one entry that is not
what it should be leaves no findings at all, and a report may stand behind other text.
-/
namespace PolicyLint.Tool

open Document Written

/-! ### Lists that are mapped -/

theorem forall₂_map_iff {P : α → β → Prop} {f : β → γ} {as : List α} {cs : List γ} :
    List.Forall₂ (fun a c => ∃ b, P a b ∧ c = f b) as cs ↔ ∃ bs, List.Forall₂ P as bs ∧ cs = bs.map f := by
  induction as generalizing cs with
  | nil => simp
  | cons a as ih =>
    rw [List.forall₂_cons_left_iff]
    constructor
    · rintro ⟨c, cs', ⟨b, holds, rfl⟩, rest, rfl⟩
      obtain ⟨bs, rest', rfl⟩ := ih.mp rest
      exact ⟨b :: bs, .cons holds rest', rfl⟩
    · rintro ⟨bs, each, rfl⟩
      obtain ⟨b, bs', holds, rest, rfl⟩ := List.forall₂_cons_left_iff.mp each
      exact ⟨f b, bs'.map f, ⟨b, holds, rfl⟩, ih.mpr ⟨bs', rest, rfl⟩, rfl⟩

theorem lists_map_iff {P : Written → β → Prop} {f : β → γ} {w : Written} {cs : List γ} :
    w.Lists (fun w c => ∃ b, P w b ∧ c = f b) cs ↔ ∃ bs, w.Lists P bs ∧ cs = bs.map f := by
  constructor
  · rintro ⟨items, listed, each⟩
    obtain ⟨bs, each', rfl⟩ := forall₂_map_iff.mp each
    exact ⟨bs, ⟨items, listed, each'⟩, rfl⟩
  · rintro ⟨bs, ⟨items, listed, each⟩, rfl⟩
    exact ⟨items, listed, forall₂_map_iff.mpr ⟨bs, each, rfl⟩⟩

theorem takes_map_iff {given : Given} {name : String} {P : Written → β → Prop} {Q : Written → γ → Prop}
    {f : β → γ} (through : ∀ w c, Q w c ↔ ∃ b, P w b ∧ c = f b) {a : β} {c : γ} :
    given.Takes name Q (f a) c ↔ ∃ b, given.Takes name P a b ∧ c = f b := by
  constructor
  · rintro (⟨w, here, holds⟩ | ⟨missing, rfl⟩)
    · obtain ⟨b, holds', rfl⟩ := (through w c).mp holds
      exact ⟨b, .inl ⟨w, here, holds'⟩, rfl⟩
    · exact ⟨a, .inr ⟨missing, rfl⟩, rfl⟩
  · rintro ⟨b, ⟨w, here, holds⟩ | ⟨missing, rfl⟩, rfl⟩
    · exact .inl ⟨w, here, (through w _).mpr ⟨b, holds, rfl⟩⟩
    · exact .inr ⟨missing, rfl⟩

/-! ### Files -/

/-- A file with its findings. Its path stands under one name, and a list of what was found in it under the
other. -/
def IsFile (path entries : String) (IsEntry : String → Written → Finding → Prop) (w : Written)
    (found : List Finding) : Prop :=
  ∃ given, w.given? [path, entries] = some given ∧ ∃ file,
    given.Needs path IsText file ∧ given.Takes entries (Lists (IsEntry file)) [] found

/-- A list of files with their findings, file by file. -/
def AreFiles (path entries : String) (IsEntry : String → Written → Finding → Prop) (w : Written)
    (found : List Finding) : Prop :=
  ∃ each, w.Lists (IsFile path entries IsEntry) each ∧ found = each.flatten

section Files

variable {path entries : String}

/-- A record of a file, whatever an entry is. -/
def fileRecord (path entries : String) (make : String → List E → R) (entry : Decoder E) : Record R :=
  make <$> Record.needs path string <*> Record.takes entries (list entry) []

/-- What the record of a file is read from. -/
def FileOf (path entries : String) (make : String → List E → R) (P : Written → E → Prop) (given : Given)
    (r : R) : Prop :=
  ∃ file es, given.Needs path IsText file ∧ given.Takes entries (Lists P) [] es ∧ make file es = r

theorem fileRecord_fits {k : Nat} {entry : Decoder E} {P : Written → E → Prop} (fits : Fits k entry P)
    (make : String → List E → R) :
    (fileRecord path entries make entry).Fits (k + 1) (FileOf path entries make P) := by
  have file : (Record.needs path string).Fits (k + 1) _ := .needs (Fits.string (k + 1))
  have listed : (Record.takes entries (list entry) []).Fits (k + 1) _ := .takes fits.list []
  refine ((file.map make).seq listed).congr fun given r => ?_
  constructor
  · rintro ⟨_, ⟨file, here, rfl⟩, es, found, rfl⟩
    exact ⟨file, es, here, found, rfl⟩
  · rintro ⟨file, es, here, found, rfl⟩
    exact ⟨make file, ⟨file, here, rfl⟩, es, found, rfl⟩

/-- A file that is read. -/
def ReadsFile (path entries : String) (make : String → List E → R) (P : Written → E → Prop) (w : Written)
    (r : R) : Prop :=
  ∃ given, w.given? [path, entries] = some given ∧ FileOf path entries make P given r

theorem files_fits {k : Nat} {entry : Decoder E} {P : Written → E → Prop} (fits : Fits k entry P)
    (other : path ≠ entries) (make : String → List E → R) (name : String) :
    Fits (k + 3) (list ((fileRecord path entries make entry).decoder name))
      (Lists (ReadsFile path entries make P)) := by
  have once : [path, entries].Nodup := by simpa using other
  exact ((fileRecord_fits fits make).decoder once name).list

variable {IsEntry : String → Written → Finding → Prop} {P : Written → E → Prop}
  {finding : String → E → Finding} {make : String → List E → R} {findings : R → List Finding}

theorem isFile_iff (entry : ∀ file w f, IsEntry file w f ↔ ∃ e, P w e ∧ f = finding file e)
    (made : ∀ file es, findings (make file es) = es.map (finding file)) {w : Written}
    {found : List Finding} :
    IsFile path entries IsEntry w found ↔ ∃ r, ReadsFile path entries make P w r ∧ found = findings r := by
  have listed (file : String) (w : Written) (fs : List Finding) :
      w.Lists (IsEntry file) fs ↔ ∃ es, w.Lists P es ∧ fs = es.map (finding file) := by
    simp only [funext₂ fun w f => propext (entry file w f), lists_map_iff]
  constructor
  · rintro ⟨given, has, file, here, taken⟩
    obtain ⟨es, read, rfl⟩ := (takes_map_iff (a := []) (listed file)).mp taken
    exact ⟨make file es, ⟨given, has, file, es, here, read, rfl⟩, (made file es).symm⟩
  · rintro ⟨_, ⟨given, has, file, es, here, read, rfl⟩, rfl⟩
    exact ⟨given, has, file, here, (takes_map_iff (listed file)).mpr ⟨es, read, made file es⟩⟩

theorem areFiles_iff (entry : ∀ file w f, IsEntry file w f ↔ ∃ e, P w e ∧ f = finding file e)
    (made : ∀ file es, findings (make file es) = es.map (finding file)) {w : Written}
    {found : List Finding} :
    AreFiles path entries IsEntry w found ↔
      ∃ rs, w.Lists (ReadsFile path entries make P) rs ∧ found = rs.flatMap findings := by
  have files : IsFile path entries IsEntry = fun w found =>
      ∃ r, ReadsFile path entries make P w r ∧ found = findings r :=
    funext fun w => funext fun found => propext (isFile_iff entry made)
  rw [AreFiles, files]
  constructor
  · rintro ⟨each, listed, rfl⟩
    obtain ⟨rs, read, rfl⟩ := lists_map_iff.mp listed
    exact ⟨rs, read, List.flatMap_def.symm⟩
  · rintro ⟨rs, listed, rfl⟩
    exact ⟨rs.map findings, lists_map_iff.mpr ⟨rs, listed, rfl⟩, List.flatMap_def⟩

/-! ### All or nothing -/

/-- One of the items of a list. -/
def Has (w part : Written) : Prop :=
  ∃ items, w.items? = some items ∧ part ∈ items

/-- An entry that a file lists. -/
def HasEntry (path entries : String) (file entry : Written) : Prop :=
  ∃ given, file.given? [path, entries] = some given ∧
    ∃ listed, given.find entries = some listed ∧ Has listed entry

/-- One file or one entry is not what it should be. -/
inductive Spoilt (path entries : String) (IsEntry : String → Written → Finding → Prop) (w : Written) :
    Prop where
  | file (part : Written) : Has w part → (∀ found, ¬ IsFile path entries IsEntry part found) →
    Spoilt path entries IsEntry w
  | entry (file part : Written) : Has w file → HasEntry path entries file part →
    (∀ under f, ¬ IsEntry under part f) → Spoilt path entries IsEntry w

theorem exists_of_lists {Q : Written → α → Prop} {w part : Written} {values : List α}
    (each : w.Lists Q values) (member : Has w part) : ∃ a, Q part a := by
  obtain ⟨items, listed, each⟩ := each
  obtain ⟨items', listed', member⟩ := member
  obtain rfl := Option.some.inj (listed.symm.trans listed')
  clear listed listed'
  induction each with
  | nil => cases member
  | cons holds _ ih =>
    rcases List.mem_cons.mp member with rfl | later
    · exact ⟨_, holds⟩
    · exact ih later

/-- What is spoilt makes no findings at all. -/
theorem not_areFiles {w : Written} (spoilt : Spoilt path entries IsEntry w) (found : List Finding) :
    ¬ AreFiles path entries IsEntry w found := by
  rintro ⟨each, listed, -⟩
  cases spoilt with
  | file part member unread =>
    obtain ⟨found, here⟩ := exists_of_lists listed member
    exact unread found here
  | entry file part member inside unread =>
    obtain ⟨found, given, has, under, -, taken⟩ := exists_of_lists listed member
    obtain ⟨given', has', listed', here', member'⟩ := inside
    obtain rfl := Option.some.inj (has.symm.trans has')
    rcases taken with ⟨list, here, read⟩ | ⟨absent, -⟩
    · obtain rfl := Option.some.inj (here.symm.trans here')
      obtain ⟨f, entry⟩ := exists_of_lists read member'
      exact unread under f entry
    · cases absent.symm.trans here'

/-- A document for a file, given how an entry is written. -/
def writtenFile (path entries : String) (write : E → Written) (file : String) (es : List E) : Written :=
  .ofMembers [(path, .ofText file), (entries, .ofList write es)]

theorem readsFile_written (other : path ≠ entries) {write : E → Written} {es : List E}
    (writes : ∀ e ∈ es, P (write e) e) (file : String) :
    ReadsFile path entries make P (writtenFile path entries write file es) (make file es) := by
  have once : [path, entries].Nodup := by simpa using other
  refine ⟨_, given?_ofMembers (by exact once) _, file, es, ⟨_, List.lookup_cons_self, isText_ofText file⟩,
    .inl ⟨_, ?_, lists_ofList writes⟩, rfl⟩
  show List.lookup entries _ = _
  rw [lookup_cons_ne other.symm, List.lookup_cons_self]

end Files

/-! ### Around a report -/

/-- White space around a report. -/
abbrev Blanks := { cs : List Char // ∀ c ∈ cs, Text.isBlank c = true }

theorem ofList_bare_ne (w : Written) : String.ofList w.bare.text ≠ "" := by
  intro same
  have empty : w.bare.text = [] := by simpa using congrArg String.toList same
  obtain ⟨c, first, -⟩ := w.flush_bare.1
  rw [empty] at first
  cases first

theorem trim_blanks (w : Written) (front behind : Blanks) :
    Text.trim (String.ofList (front.1 ++ (w.text ++ behind.1))) = String.ofList w.bare.text := by
  have empty : Text.dropBlanks (front.1 ++ w.around.before.1) = [] := by
    refine List.dropWhile_eq_nil_iff.mpr fun c member => ?_
    rcases List.mem_append.mp member with front' | gap
    · exact front.2 c front'
    · exact isBlank_of_isGap (w.around.before.2 c gap)
  rw [← String.toList_inj, trim_written w behind.2 front.1, empty, String.toList_ofList]
  rfl

/-- An object is found behind any text without its brace. -/
theorem from?_object (around : Around) (inner : Gap) (members : List (Label × Written)) {before : List Char}
    (free : '\x7b' ∉ before) (behind : Blanks) :
    Text.from? "\x7b" (Text.trim (String.ofList
      (before ++ ((Written.object around inner members).text ++ behind.1)))) =
        some (String.ofList (Written.object around inner members).bare.text) := by
  have free' : '\x7b' ∉ Text.dropBlanks (before ++ around.before.1) := by
    intro member
    rcases List.mem_append.mp ((List.dropWhile_suffix _).subset member) with before' | gap
    · exact free before'
    · exact absurd (around.before.2 _ gap) (by decide)
  have leads : ['\x7b'] <+: (Written.object around inner members).bare.text := ⟨_, rfl⟩
  rw [Text.from?, trim_written _ behind.2 before]
  show (Text.fromFirst? ['\x7b'] (Text.dropBlanks (before ++ around.before.1) ++ _)).map _ = _
  rw [Text.fromFirst?_append free', Text.fromFirst?_of_prefix leads]
  rfl

/-- The outcome is all that a report says, and an error where it says nothing. -/
structure AllOrNothing (tool : String) (outcome : Except Failure (List Finding))
    (Says : List Finding → Prop) : Prop where
  all : ∀ found, outcome = .ok found ↔ Says found
  nothing : (∀ found, ¬ Says found) → ∃ message, outcome = .error (.parse tool message)

theorem allOrNothing_of_ok {tool : String} {Says : List Finding → Prop} {found : List Finding}
    (only : ∀ found', Says found' ↔ found' = found) : AllOrNothing tool (.ok found) Says where
  all found' := by rw [only, Except.ok.injEq, eq_comm]
  nothing never := absurd ((only found).mpr rfl) (never found)

theorem allOrNothing_of_decoded {tool : String} {outcome : Except Failure (List Finding)}
    {Says : List Finding → Prop} {step : Except DecodeError R} {findings : R → List Finding}
    (decoded : ∀ found, (∃ r, step = .ok r ∧ found = findings r) ↔ Says found)
    (read : ∀ r, step = .ok r → outcome = .ok (findings r))
    (failed : ∀ e, step = .error e → ∃ message, outcome = .error (.parse tool message)) :
    AllOrNothing tool outcome Says := by
  cases step with
  | ok r =>
    rw [read r rfl]
    exact allOrNothing_of_ok fun found => by simp [← decoded]
  | error e =>
    obtain ⟨message, rfl⟩ := failed e rfl
    exact ⟨fun found => by simp [← decoded], fun _ => ⟨message, rfl⟩⟩

end PolicyLint.Tool
