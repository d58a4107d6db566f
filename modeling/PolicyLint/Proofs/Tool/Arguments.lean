import PolicyLint.Proofs.Host.Passage
import PolicyLint.Proofs.Text.Reading
import PolicyLint.Tool.Toolbox
/-!
What tools are told by their arguments. Arguments are read by convention: one that begins with a dash is
an option, unless it is the value of an option or stands behind `--`, and PMD takes its files in one
value, between commas. Nothing in the arguments keeps file names apart from options, or one name from
the next. Main statement: a tool is told the files it is run on exactly when no name among them reads as
something else, an option or, for PMD, more than one name.
-/
namespace PolicyLint

/-! ### Arguments by convention -/

def isOption (argument : String) : Bool :=
  Text.startsWith "-" argument

/-- What arguments say: options, with the values that are given to them, and operands. -/
structure Reading where
  options : List (String × Option String)
  operands : List String
deriving DecidableEq, Repr

namespace Reading

def withOptions (options : List (String × Option String)) (r : Reading) : Reading :=
  { r with options := options ++ r.options }

def withOperand (operand : String) (r : Reading) : Reading :=
  { r with operands := operand :: r.operands }

/-- Reads arguments from left to right. An option that takes a value takes the argument behind it,
whatever that begins with; behind `--` there are operands only. -/
def of (valued : List String) : List String → Reading
  | [] => ⟨[], []⟩
  | argument :: rest =>
    if argument = "--" then ⟨[], rest⟩
    else if isOption argument then
      if valued.contains argument then
        match rest with
        | [] => ⟨[(argument, none)], []⟩
        | value :: rest => (of valued rest).withOptions [(argument, some value)]
      else (of valued rest).withOptions [(argument, none)]
    else (of valued rest).withOperand argument

/-- Options as arguments, each in front of its value. -/
def written (options : List (String × Option String)) : List String :=
  options.flatMap fun option => option.1 :: option.2.toList

@[simp] theorem operands_withOptions (options : List (String × Option String)) (r : Reading) :
    (r.withOptions options).operands = r.operands := rfl

@[simp] theorem operands_withOperand (operand : String) (r : Reading) :
    (r.withOperand operand).operands = operand :: r.operands := rfl

variable (valued : List String)

/-- An option that is spelled like one, with a value just when it takes one. -/
def Fits (valued : List String) (option : String × Option String) : Prop :=
  option.1 ≠ "--" ∧ isOption option.1 = true ∧ (option.1 ∈ valued ↔ option.2.isSome = true)

/-- Options that fit are read back in front of anything. -/
theorem of_written {options : List (String × Option String)} (fit : ∀ option ∈ options, Fits valued option)
    (rest : List String) : of valued (written options ++ rest) = (of valued rest).withOptions options := by
  induction options with
  | nil => rfl
  | cons option options ih =>
    obtain ⟨⟨other, dashed, takes⟩, fits⟩ := List.forall_mem_cons.mp fit
    rcases option with ⟨name, _ | value⟩
    · have unlisted : name ∉ valued := by simpa using takes
      have here : written ((name, none) :: options) ++ rest = name :: (written options ++ rest) := rfl
      rw [here, of.eq_def]
      simp only [other, dashed, unlisted, List.contains_iff_mem, if_true, if_false, ih fits]
      rfl
    · have listed : name ∈ valued := by simpa using takes
      have here : written ((name, some value) :: options) ++ rest =
          name :: value :: (written options ++ rest) := rfl
      rw [here, of.eq_def]
      simp only [other, dashed, listed, List.contains_iff_mem, if_true, if_false, ih fits]
      rfl

theorem of_operands {files : List String} (plain : ∀ file ∈ files, isOption file = false) :
    of valued files = ⟨[], files⟩ := by
  fun_induction of valued files with
  | case1 => rfl
  | case2 rest => exact absurd (plain "--" List.mem_cons_self) (by decide)
  | case3 argument _ option | case4 argument _ option | case5 argument _ _ option =>
    have plain := plain argument List.mem_cons_self
    rw [option] at plain
    cases plain
  | case6 argument rest _ _ ih =>
    rw [ih fun file member => plain file (List.mem_cons_of_mem _ member)]
    rfl

theorem operands_le (arguments : List String) : (of valued arguments).operands.length ≤ arguments.length := by
  fun_induction of valued arguments <;> simp <;> omega

/-- Where there is an option, not every argument is an operand. -/
theorem operands_lt {arguments : List String} (optioned : ∃ argument ∈ arguments, isOption argument = true) :
    (of valued arguments).operands.length < arguments.length := by
  fun_induction of valued arguments with
  | case1 => simp at optioned
  | case2 rest => exact Nat.lt_succ_self _
  | case3 argument => exact Nat.zero_lt_succ _
  | case4 argument _ _ _ value rest =>
    have := operands_le valued rest
    simp only [operands_withOptions, List.length_cons]
    omega
  | case5 argument rest =>
    have := operands_le valued rest
    simp only [operands_withOptions, List.length_cons]
    omega
  | case6 argument rest _ plain ih =>
    simp only [List.exists_mem_cons_iff, plain, Bool.false_eq_true, false_or] at optioned
    exact Nat.succ_lt_succ (ih optioned)

theorem operands_eq_iff {files : List String} :
    of valued files = ⟨[], files⟩ ↔ ∀ file ∈ files, isOption file = false := by
  refine ⟨fun whole => ?_, of_operands valued⟩
  by_contra mixed
  push Not at mixed
  have fewer := operands_lt valued (by simpa using mixed : ∃ file ∈ files, isOption file = true)
  rw [whole] at fewer
  exact Nat.lt_irrefl _ fewer

end Reading

/-! ### What tools are asked -/

/-- What a tool is asked to do: words in front, options, and files. -/
structure Request where
  words : List String
  options : List (String × Option String)
  files : List String
deriving DecidableEq, Repr

/-- The ways in which tools with files among their arguments are called. A package that is fetched for
one run stands in front of its tool's arguments. -/
inductive Invocation where
  | eslint (fetched : Bool)
  | prettier (mode : Tool.Prettier.Mode)
  | checkstyle (jar : String)
  | pmd
deriving DecidableEq, Repr

namespace Invocation

def arguments (config : String) (files : List String) : Invocation → List String
  | eslint fetched => (if fetched then ["eslint@8"] else []) ++ Tool.Eslint.arguments config files
  | prettier mode => Tool.Prettier.arguments mode config files
  | checkstyle jar => Tool.Checkstyle.arguments jar config files
  | pmd => Tool.Pmd.arguments config files

/-- How many words stand in front: the package that is fetched, or PMD's command. -/
def wordCount : Invocation → Nat
  | eslint fetched => fetched.toNat
  | pmd => 1
  | prettier _ | checkstyle _ => 0

/-- The options that take a value. -/
def valued : Invocation → List String
  | eslint _ => ["--config", "--format"]
  | prettier _ => ["--config"]
  | checkstyle _ => ["-jar", "-c", "-f"]
  | pmd => ["-d", "-R", "-f"]

/-- PMD's files stand between commas in the values of one option, and may be operands too. -/
def fileOption : Invocation → Option String
  | pmd => some "-d"
  | eslint _ | prettier _ | checkstyle _ => none

/-- What arguments ask of a tool, by its convention. -/
def read (invocation : Invocation) (arguments : List String) : Request :=
  let reading := Reading.of invocation.valued (arguments.drop invocation.wordCount)
  let lists := reading.options.filter fun option => some option.1 = invocation.fileOption
  ⟨arguments.take invocation.wordCount,
    reading.options.filter fun option => some option.1 ≠ invocation.fileOption,
    lists.flatMap (fun option => option.2.toList.flatMap (Text.splitOn ',')) ++ reading.operands⟩

def words : Invocation → List String
  | eslint fetched => if fetched then ["eslint@8"] else []
  | pmd => ["check"]
  | prettier _ | checkstyle _ => []

def options (config : String) : Invocation → List (String × Option String)
  | eslint _ => [("--config", some config), ("--format", some "json"), ("--no-eslintrc", none)]
  | prettier mode => [("--config", some config), (mode.flag, none)]
  | checkstyle jar => [("-jar", some jar), ("-c", some config), ("-f", some "xml")]
  | pmd => [("-R", some config), ("-f", some "json"), ("--no-cache", none)]

/-- What an adapter means by its arguments. -/
def intended (config : String) (files : List String) (invocation : Invocation) : Request :=
  ⟨invocation.words, invocation.options config, files⟩

/-- A name that reads as one file: for PMD one without commas, else one that is no option. -/
def ReadsAsFile (file : String) : Invocation → Prop
  | pmd => ',' ∉ file.toList
  | eslint _ | prettier _ | checkstyle _ => isOption file = false

instance (file : String) : (invocation : Invocation) → Decidable (invocation.ReadsAsFile file)
  | pmd => inferInstanceAs (Decidable (',' ∉ file.toList))
  | eslint _ | prettier _ | checkstyle _ => inferInstanceAs (Decidable (isOption file = false))

theorem options_fit (config : String) (invocation : Invocation) :
    ∀ option ∈ invocation.options config, Reading.Fits invocation.valued option := by
  cases invocation with
  | eslint | checkstyle | pmd =>
    simp [options, Reading.Fits, valued]
    decide
  | prettier mode =>
    cases mode <;> simp [options, Reading.Fits, valued, Tool.Prettier.Mode.flag] <;> decide

theorem length_words (invocation : Invocation) : invocation.words.length = invocation.wordCount := by
  cases invocation with
  | eslint fetched => cases fetched <;> rfl
  | prettier | checkstyle | pmd => rfl

/-- Where files are operands, a tool is told them exactly when no name is an option. -/
theorem operands_read_iff {invocation : Invocation} (plain : invocation.fileOption = none)
    (config : String) (files : List String) :
    invocation.read (invocation.words ++ (Reading.written (invocation.options config) ++ files)) =
        invocation.intended config files ↔
      ∀ file ∈ files, isOption file = false := by
  rw [← Reading.operands_eq_iff invocation.valued]
  simp only [read, plain, List.take_left' invocation.length_words, List.drop_left' invocation.length_words,
    Reading.of_written _ (invocation.options_fit config), intended]
  generalize Reading.of invocation.valued files = reading
  cases reading
  simp [Reading.withOptions]

/-- PMD is told the pieces of the one value between its commas. -/
theorem pmd_read (config : String) (files : List String) :
    pmd.read (pmd.arguments config files) =
      pmd.intended config (Text.splitOn ',' (Text.join "," files)) := by
  have written : (pmd.arguments config files).drop 1 =
      Reading.written (("-d", some (Text.join "," files)) :: pmd.options config) ++ [] := rfl
  have fit : ∀ option ∈ ("-d", some (Text.join "," files)) :: pmd.options config,
      Reading.Fits pmd.valued option := by
    refine List.forall_mem_cons.mpr ⟨?_, pmd.options_fit config⟩
    simp [Reading.Fits, valued]
    decide
  have told := Reading.of_written pmd.valued fit []
  simp only [read, wordCount, written, told]
  simp [Reading.withOptions, Reading.of, fileOption, options, intended]
  rfl

/-- A tool is told the files and the options that its adapter means exactly when each name reads as a
file. -/
theorem read_arguments_iff (invocation : Invocation) (config : String) {files : List String}
    (nonempty : files ≠ []) :
    invocation.read (invocation.arguments config files) = invocation.intended config files ↔
      ∀ file ∈ files, invocation.ReadsAsFile file := by
  cases invocation with
  | eslint fetched => exact operands_read_iff rfl config files
  | prettier mode => exact operands_read_iff rfl config files
  | checkstyle jar => exact operands_read_iff rfl config files
  | pmd =>
    rw [pmd_read, intended, intended, Request.mk.injEq]
    have apart : Text.splitOn ',' (Text.join "," files) = files ↔
        ∀ file ∈ files, pmd.ReadsAsFile file := @Text.splitOn_join_iff ',' files nonempty
    simpa using apart

end Invocation

/-! ### Calls -/

/-- From one host to the other programs are called, all of them in an allowed way. -/
def Host.Calls (allowed : Call → Prop) (host after : Host) : Prop :=
  ∃ made, after.calls = host.calls ++ made ∧ ∀ call ∈ made, allowed call

theorem Host.calls_of_same {allowed : Call → Prop} {host after : Host} (same : after.calls = host.calls) :
    host.Calls allowed after :=
  ⟨[], by rw [same, List.append_nil], by simp⟩

theorem Host.Calls.trans {allowed : Call → Prop} {host after last : Host} (first : host.Calls allowed after)
    (second : after.Calls allowed last) : host.Calls allowed last := by
  obtain ⟨made, calls, here⟩ := first
  obtain ⟨more, calls', there⟩ := second
  refine ⟨made ++ more, by rw [calls', calls, List.append_assoc], fun call member => ?_⟩
  exact (List.mem_append.mp member).elim (here call) (there call)

namespace Action

/-- A step that calls programs in no other way than the allowed one. -/
def Makes (allowed : Call → Prop) (step : Action Host α) : Prop :=
  ∀ host : Host, host.Calls allowed (step host).2

variable {allowed : Call → Prop}

theorem makes_pure (a : α) : Makes allowed (pure a) :=
  fun _ => Host.calls_of_same rfl

theorem makes_fail (failure : Failure) : Makes allowed (fail failure : Action Host α) :=
  fun _ => Host.calls_of_same rfl

theorem Makes.bind {step : Action Host α} {next : α → Action Host β} (here : Makes allowed step)
    (there : ∀ a, Makes allowed (next a)) : Makes allowed (step >>= next) := by
  intro host
  have first := here host
  rw [bind_apply]
  rcases ran : step host with ⟨failure | a, after⟩
  · rw [ran] at first
    exact first
  · rw [ran] at first
    exact first.trans (there a after)

theorem makes_get {next : Host → Action Host α} (there : ∀ host, Makes allowed (next host)) :
    Makes allowed (get >>= next) :=
  Makes.bind (fun _ => Host.calls_of_same rfl) there

/-- Configuration files come and go without calls. -/
theorem Makes.withConfig {use : String → Action Host α} (makes : ∀ path, Makes allowed (use path))
    (directory lead tail content : String) :
    Makes allowed (Host.withConfig directory lead tail content use) := by
  intro host
  unfold Host.withConfig
  cases opened : host.openConfig directory lead tail content with
  | error error => exact Host.calls_of_same rfl
  | ok file =>
    obtain ⟨path, after⟩ := file
    have first : host.Calls allowed after := Host.calls_of_same (Host.quiet_openConfig opened).calls
    have last : (use path after).2.Calls allowed _ := Host.calls_of_same (Host.quiet_closeConfig _ path).calls
    exact (first.trans (makes path after)).trans last

end Action

open PolicyLint.Action

theorem Executor.prepare_arguments {executor : Executor} {context : Context} {program : String}
    {arguments : List String} {host : Host} {script : Script} {call : Call}
    (prepared : executor.prepare context program arguments host = .ok (script, call)) :
    call.arguments = arguments := by
  simp only [prepare, bind, Except.bind, pure, Except.pure] at prepared
  split at prepared
  · cases prepared
  split at prepared
  · cases prepared
  split at prepared
  · cases prepared
  · obtain ⟨-, rfl⟩ := Prod.mk.inj (Except.ok.inj prepared)
    rfl

/-- The executor calls its program with the arguments that it is given. -/
theorem Executor.execute_makes (executor : Executor) (context : Context) (program : String)
    (arguments : List String) :
    Makes (fun call => call.arguments = arguments) (executor.execute context program arguments) := by
  refine Makes.bind (fun _ => Host.calls_of_same rfl) fun now => ?_
  refine Makes.bind (fun _ => Host.calls_of_same rfl) fun _ => ?_
  intro host
  rw [bind_apply, get_apply]
  dsimp only
  cases prepared : executor.prepare context program arguments host with
  | error error => exact Host.calls_of_same rfl
  | ok ready =>
    obtain ⟨script, call⟩ := ready
    have given := Executor.prepare_arguments prepared
    by_cases traced : script.traced = true
    · exact ⟨[call], by simp [Executor.run, Executor.effect, traced], by simpa using given⟩
    · exact Host.calls_of_same (by simp [Executor.run, Executor.effect, traced])

/-! ### The tools that are run on files -/

/-- The built-in tools with files among their arguments. -/
inductive FileTool where
  | eslint
  | prettier (mode : Tool.Prettier.Mode)
  | checkstyle
  | pmd
deriving DecidableEq, Repr

namespace FileTool

variable (box : Toolbox)

def run : FileTool → Context → String → List String → Action Host Output
  | eslint => box.eslint.execute
  | prettier .check => box.prettier.execute
  | prettier .write => box.formatter.write
  | checkstyle => box.checkstyle.execute
  | pmd => box.pmd.execute

/-- How a tool may be called. -/
def invocations : FileTool → List Invocation
  | eslint => [.eslint false, .eslint true]
  | prettier mode => [.prettier mode]
  | checkstyle => [.checkstyle box.jarPath]
  | pmd => [.pmd]

/-- Calls of a tool on files, with some configuration. -/
def Allows (tool : FileTool) (files : List String) (call : Call) : Prop :=
  ∃ invocation ∈ tool.invocations box, ∃ config, call.arguments = invocation.arguments config files

variable {box} {tool : FileTool} {files : List String}

/-- A run of the executor with the arguments of one way to call the tool. -/
theorem execute_allowed (invocation : Invocation) (known : invocation ∈ tool.invocations box)
    (executor : Executor) (context : Context) (program config : String) (files : List String) :
    Makes (tool.Allows box files)
      (executor.execute context program (invocation.arguments config files)) := by
  intro host
  obtain ⟨made, calls, given⟩ := executor.execute_makes context program _ host
  exact ⟨made, calls, fun call member => ⟨invocation, known, config, given call member⟩⟩

theorem makes_accepted {allowed : Call → Prop} (tool : String) (accepts : Int → Bool) (output : Output) :
    Makes allowed (Toolbox.accepted tool accepts output) := by
  unfold Toolbox.accepted
  split
  · exact makes_pure output
  · exact makes_fail _

theorem makes_java {allowed : Call → Prop} : Makes allowed Toolbox.java := by
  refine makes_get fun host => ?_
  split
  · exact makes_pure _
  · exact makes_fail _

/-- A tool that is run on files makes no other calls than these. -/
theorem run_makes (box : Toolbox) (tool : FileTool) (context : Context) (config : String)
    {files : List String} (nonempty : files ≠ []) :
    Makes (tool.Allows box files) (tool.run box context config files) := by
  have full : files.isEmpty = false := by simpa using nonempty
  match tool with
  | eslint =>
    simp only [run, Toolbox.eslint, Toolbox.runEslint, full, Bool.false_eq_true, if_false]
    refine Makes.withConfig (fun path => makes_get fun host => ?_) _ _ _ _
    cases box.findTool? Tool.Eslint.name host with
    | some program =>
      exact (execute_allowed (.eslint false) (by simp [invocations]) _ _ _ path files).bind
        (makes_accepted _ _)
    | none =>
      exact (execute_allowed (.eslint true) (by simp [invocations]) _ _ _ path files).bind
        (makes_accepted _ _)
  | prettier .check | prettier .write =>
    simp only [run, Toolbox.prettier, Toolbox.formatter, Toolbox.runPrettier, full, Bool.false_eq_true,
      if_false]
    refine Makes.withConfig (fun path => makes_get fun host => ?_) _ _ _ _
    exact (execute_allowed (.prettier _) (by simp [invocations]) _ _ _ path files).bind (makes_accepted _ _)
  | checkstyle =>
    simp only [run, Toolbox.checkstyle, Toolbox.runCheckstyle, full, Bool.false_eq_true, if_false]
    refine makes_java.bind fun java => ?_
    refine Makes.withConfig (fun path => ?_) _ _ _ _
    exact execute_allowed (.checkstyle box.jarPath) (by simp [invocations]) _ _ _ path files
  | pmd =>
    simp only [run, Toolbox.pmd, Toolbox.runPmd, full, Bool.false_eq_true, if_false]
    refine makes_get fun host => ?_
    cases box.findPmd? host with
    | none => exact makes_fail _
    | some program =>
      refine Makes.withConfig (fun path => ?_) _ _ _ _
      exact (execute_allowed .pmd (by simp [invocations]) _ _ _ path files).bind (makes_accepted _ _)

/-- A tool that is run on files is called in its own ways only. However it is called, it is told those
files in their order, and the options that are meant, exactly when each name reads as a file; and lists
of such names give different arguments. -/
theorem files_told (box : Toolbox) (tool : FileTool) {files : List String} (nonempty : files ≠ []) :
    (∀ (context : Context) (config : String) (host : Host),
      host.Calls (tool.Allows box files) (tool.run box context config files host).2) ∧
    ∀ invocation ∈ tool.invocations box, ∀ config,
      (invocation.read (invocation.arguments config files) = invocation.intended config files ↔
        ∀ file ∈ files, invocation.ReadsAsFile file) ∧
      ∀ config' files', files' ≠ [] → (∀ file ∈ files ++ files', invocation.ReadsAsFile file) →
        invocation.arguments config files = invocation.arguments config' files' → files = files' := by
  refine ⟨fun context config => run_makes box tool context config nonempty, ?_⟩
  intro invocation _ config
  refine ⟨invocation.read_arguments_iff config nonempty, ?_⟩
  intro config' files' nonempty' plain same
  obtain ⟨here, there⟩ := List.forall_mem_append.mp plain
  have told := (invocation.read_arguments_iff config nonempty).mpr here
  have told' := (invocation.read_arguments_iff config' nonempty').mpr there
  rw [same, told'] at told
  exact (congrArg Request.files told).symm

theorem dashed_names_told :
    ["-x.java", "src/A.java"] ≠ [] ∧
    Invocation.pmd.read (Invocation.pmd.arguments "/rules.xml" ["-x.java", "src/A.java"]) =
      ⟨["check"], [("-R", some "/rules.xml"), ("-f", some "json"), ("--no-cache", none)],
        ["-x.java", "src/A.java"]⟩ :=
  ⟨by decide,
    (((files_told ⟨"/tools", .default⟩ .pmd (by decide)).2 .pmd (by decide) "/rules.xml").1).mpr (by decide)⟩

/-- A file that is named like an option is none for the tools that read their files as operands, and
to PMD a comma in a name makes two names of it. -/
theorem names_misread :
    (∀ invocation ∈ [Invocation.eslint false, .eslint true, .prettier .check, .checkstyle "/tools/a.jar"],
      (invocation.read (invocation.arguments "/config" ["-c.js", "a.js"])).files = ["a.js"]) ∧
    (Invocation.pmd.read (Invocation.pmd.arguments "/config" ["A,B.java"])).files = ["A", "B.java"] ∧
    Invocation.pmd.arguments "/config" ["A,B.java"] = Invocation.pmd.arguments "/config" ["A", "B.java"] := by
  decide

end FileTool
end PolicyLint
