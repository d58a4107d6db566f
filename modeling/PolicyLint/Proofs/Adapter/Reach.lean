import PolicyLint.Proofs.Adapter.Routing
import PolicyLint.Proofs.Evaluation.Run
import PolicyLint.Proofs.Language.Detection
/-!
Languages that adapters list, and the files by which a rule for them gets to an adapter. Main statement:
of the languages that the built-in adapters list, a rule can get to all but the five that Prettier lists
and no selector knows; a rule for one of these passes on whatever files.
-/
namespace PolicyLint

/-- The selector that asks for a language and for nothing else. -/
def Selector.speaking (language : String) : Selector :=
  { empty with languages := [language] }

theorem Selector.languages_speaking (language : String) :
    (speaking language).languages = [language] := rfl

/-- A rule for the language keeps the file, is evaluated for that very language, and finds an adapter. -/
structure AdapterRegistry.Reaches (registry : AdapterRegistry W) (category language path : String) :
    Prop where
  kept : Selector.keep (some (.speaking language)) [path] = [path]
  governing : Selector.language (some (.speaking language)) [path] = language
  found : ∃ adapter, registry.find language category = .ok adapter

/-! ### Files of a language -/

namespace Language

/-- Every language has files: such as are named by its first extension. -/
theorem exists_path : ∀ l ∈ all, ∃ path, ofPath? (Glob.toSlash path) = some l.name := by
  have named : ∀ l ∈ all,
      ofPath? (Glob.toSlash ("a." ++ l.extensions.headD "")) = some l.name := by
    decide +kernel
  exact fun l listed => ⟨_, named l listed⟩

theorem owns_unknown {name : String} (unknown : canonical? name = none) (path : String) :
    owns name path = false := by
  rw [← Bool.not_eq_true, owns_iff_ofPath?]
  rintro ⟨language, known, -⟩
  rw [unknown] at known
  cases known

end Language

namespace Selector

theorem keep_singleton_iff (s : Selector) (path : String) :
    keep (some s) [path] = [path] ↔ s.matchesFile path = true := by
  simp [keep]

/-- A selector whose only language is not known keeps nothing. -/
theorem keep_unknown {selector : Selector} {language : String}
    (only : selector.languages = [language]) (unknown : Language.canonical? language = none)
    (files : List String) : keep (some selector) files = [] := by
  refine List.filter_eq_nil_iff.mpr fun path _ => ?_
  simp [matchesFile, only, Language.owns_unknown unknown]

theorem language_speaking (language : String) (files : List String) :
    Selector.language (some (.speaking language)) files =
      (Language.canonical? language).getD (Language.normalized language) := rfl

end Selector

/-! ### Getting to an adapter -/

/-- Some file leads from a language to an adapter exactly when the language goes by its own name among
the known ones, and the registry has an adapter for it. -/
theorem AdapterRegistry.reaches_iff (registry : AdapterRegistry W) (category language : String) :
    (∃ path, registry.Reaches category language path) ↔
      Language.canonical? language = some language ∧
        ∃ adapter, registry.find language category = .ok adapter := by
  constructor
  · rintro ⟨path, kept, governing, found⟩
    refine ⟨?_, found⟩
    cases known : Language.canonical? language with
    | none =>
      rw [Selector.keep_unknown (Selector.languages_speaking language) known] at kept
      cases kept
    | some name =>
      rw [Selector.language_speaking, known, Option.getD_some] at governing
      rw [governing]
  · rintro ⟨known, found⟩
    obtain ⟨l, row, named⟩ := Option.map_eq_some_iff.mp known
    obtain ⟨path, taken⟩ := Language.exists_path l (Language.mem_of_find? row)
    rw [named] at taken
    refine ⟨path, ?_, ?_, found⟩
    · exact (Selector.keep_singleton_iff _ _).mpr
        ((Language.matchesFile_language_iff known path).mpr taken)
    · rw [Selector.language_speaking, known, Option.getD_some]

theorem Availability.ne_nil {adapter : Adapter W} {context : Context} {request : InstallRequest}
    {calls : List Exchange} {outcome : Except Failure Unit}
    (seen : Availability adapter context request calls outcome) : calls ≠ [] := by
  cases seen <;> exact List.cons_ne_nil _ _

theorem Course.ne_nil {adapter : Adapter W} {context : Context} {request : InstallRequest} {rule : Rule}
    {files : List String} {calls : List Exchange} {outcome : Except Failure (List Finding)}
    (course : Course adapter context request rule files calls outcome) : calls ≠ [] := by
  cases course with
  | unavailable seen => exact seen.ne_nil
  | unconfigured | unexecuted | read => exact List.append_ne_nil_of_right_ne_nil _ (List.cons_ne_nil _ _)

/-- On a file that leads there, the evaluation of a sound rule for the language does turn to an
adapter. -/
theorem AdapterRegistry.Reaches.consulted {registry : AdapterRegistry W} {language path : String}
    {evaluator : Evaluator W} (reaches : registry.Reaches evaluator.category language path)
    (adapters : evaluator.adapters = some registry) {rule : Rule} {spec : CheckSpec}
    (selector : rule.selector = some (.speaking language)) (reads : rule.spec = .ok spec)
    (engine : rule.engine = evaluator.engine) {context : Context} {suggestion : Option Suggestion}
    {entries : List (Adapter W × Exchange)} {outcome : Except Failure RuleResult}
    (evaluation : Evaluation evaluator context rule [path] none suggestion entries outcome) :
    entries ≠ [] := by
  have kept : Selector.keep rule.selector [path] = [path] := by rw [selector, reaches.kept]
  cases evaluation with
  | unconcerned empty => rw [kept] at empty; cases empty
  | failed _ _ _ course | completed _ _ _ _ course => simpa using course.ne_nil
  | unresolved keeps _ unresolved =>
    obtain ⟨adapter, found⟩ := reaches.found
    rw [kept] at keeps
    subst keeps
    rw [selector, reaches.governing] at unresolved
    generalize answered : Except.error _ = answer at unresolved
    cases unresolved with
    | uninitialized missing => simp [adapters] at missing
    | malformed _ faulty => simp [reads] at faulty
    | misdirected _ _ other => exact absurd engine other
    | named _ _ _ pinned => cases pinned
    | found known =>
      obtain rfl := Option.some.inj (adapters.symm.trans known)
      rw [found] at answered
      cases answered

/-- A rule that keeps no file passes, whoever evaluates it. -/
theorem Evaluator.run_unconcerned [Clock W] (evaluator : Evaluator W) (context : Context) {rule : Rule}
    {files : List String} (empty : Selector.keep rule.selector files = []) (pinned : Option String)
    (suggestion : Option Suggestion) (w : W) :
    evaluator.run context rule files pinned suggestion w =
      (.ok (.trivial rule.id evaluator.engine), (Clock.read w).2) := by
  rw [run_apply]
  simp only [empty, if_true]

/-! ### The built-in adapters -/

open Tool

/-- What Prettier formats beside scripts. -/
def Tool.Prettier.formats : List String :=
  ["css", "html", "json", "markdown", "yaml"]

/-- What each of the built-in adapters can do. -/
def Toolbox.offers : List Capabilities :=
  [Eslint.capabilities, Prettier.capabilities, Tsc.capabilities, Checkstyle.capabilities,
    Pmd.capabilities]

theorem Toolbox.map_capabilities (box : Toolbox) :
    box.adapters.adapters.map Adapter.capabilities = offers := rfl

theorem Toolbox.mem_languages_iff (box : Toolbox) {category language : String} :
    language ∈ box.adapters.languages category ↔
      ∃ offer ∈ offers, category ∈ offer.categories ∧ language ∈ offer.languages := by
  rw [AdapterRegistry.mem_languages_iff, ← box.map_capabilities]
  simp only [List.mem_map, exists_exists_and_eq_and]

/-- No selector knows Prettier's formats, and all know every other language by its own name. -/
theorem Toolbox.offers_known : ∀ offer ∈ offers, ∀ language ∈ offer.languages,
    (Language.canonical? language = some language ↔ language ∉ Prettier.formats) ∧
    (language ∈ Prettier.formats →
      offer.categories = ["style"] ∧ Language.canonical? language = none) := by
  decide +kernel

/-- The languages that the built-in adapters list for a category. For each but five there is a file that
a rule for it keeps, is evaluated for that language, and finds an adapter for. The five are Prettier's
formats: a selector whose only language is one of them keeps no file, so that a rule with it passes in
every evaluation. -/
theorem Toolbox.listed_reached_iff (box : Toolbox) {category language : String}
    (listed : language ∈ box.adapters.languages category) :
    ((∃ path, box.adapters.Reaches category language path) ↔ language ∉ Prettier.formats) ∧
    (language ∈ Prettier.formats → category = "style" ∧
      ∀ selector : Selector, selector.languages = [language] → ∀ files,
        Selector.keep (some selector) files = [] ∧
        ∀ (W : Type) [Clock W] (evaluator : Evaluator W) (context : Context) (rule : Rule)
          (pinned : Option String) (suggestion : Option Suggestion) (w : W),
          rule.selector = some selector →
          evaluator.run context rule files pinned suggestion w =
            (.ok (.trivial rule.id evaluator.engine), (Clock.read w).2)) := by
  obtain ⟨offer, offered, handled, spoken⟩ := box.mem_languages_iff.mp listed
  obtain ⟨known, format⟩ := offers_known offer offered language spoken
  constructor
  · have found : ∃ adapter, box.adapters.find language category = .ok adapter :=
      AdapterRegistry.find_isOk_iff.mpr ⟨language, listed, rfl⟩
    rw [AdapterRegistry.reaches_iff, known]
    exact and_iff_left found
  · intro member
    obtain ⟨style, unknown⟩ := format member
    rw [style, List.mem_singleton] at handled
    refine ⟨handled, fun selector only files => ?_⟩
    have empty := Selector.keep_unknown only unknown files
    refine ⟨empty, ?_⟩
    intro W _ evaluator context rule pinned suggestion w selected
    exact evaluator.run_unconcerned context (selected ▸ empty) pinned suggestion w

/-- Scripts with markup are among what a rule can be about, whether for formatting or for types. -/
theorem Toolbox.tsx_reached :
    let box : Toolbox := ⟨"/tools", .default⟩
    ∃ path, box.adapters.Reaches "typechecker" "tsx" path := by
  intro box
  have listed : "tsx" ∈ box.adapters.languages "typechecker" :=
    box.mem_languages_iff.mpr (by decide)
  exact (box.listed_reached_iff listed).1.mpr (by decide)

/-- JSON is listed for formatting and found there, but no file leads to it. -/
theorem Toolbox.json_unreached :
    let box : Toolbox := ⟨"/tools", .default⟩
    "json" ∈ box.adapters.languages "style" ∧
    (box.adapters.find "json" "style").isOk = true ∧
    Selector.keep (some (.speaking "json")) ["package.json"] = [] ∧
    ¬ ∃ path, box.adapters.Reaches "style" "json" path := by
  intro box
  refine ⟨box.mem_languages_iff.mpr (by decide), by decide +kernel, by decide +kernel, ?_⟩
  rw [AdapterRegistry.reaches_iff]
  rintro ⟨known, -⟩
  exact absurd known (by decide +kernel)

end PolicyLint
