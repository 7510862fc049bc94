import Mathlib.Data.List.Induction
import Mathlib.Data.List.Perm.Basic
import Stubwright.CommandLine.FileTree
import Stubwright.CommandLine.Options
import Stubwright.Proofs.Naming

/-!
# Options as pairs

The arguments of a command are options when they are pairs of a flag and a value that suits it. What
the options are is told by the last value of every flag, so neither the order of different flags nor
the values before the last one of a flag play a part. All of this takes for granted that a file
answers the same each time it is read.

## Main definitions

* `FileSystem.Answers` — what a file system answers, however much was read from it before
* `Options.spelled`, `Options.last` — pairs as arguments, and the last value of a flag
* `Flag.Takes` — the values that suit a flag
* `Options.ofLast` — the options that the last values of the flags make

## Main results

* `Options.read_yields` — which arguments are options, and which options they are
* `Options.read_pairs` — the same in terms of the pairs, with what follows for their order
-/

namespace Stubwright.CommandLine

variable {ω α β : Type}

/-! ## What files answer -/

/-- The world after files were read. -/
def FileSystem.afterReads (files : FileSystem (StateM ω)) (world : ω) (paths : List String) : ω :=
  paths.foldl (fun world path => ((files.read path).run world).2) world

/-- A file is answered in the same way, whatever was read before. -/
def FileSystem.Answers (files : FileSystem (StateM ω)) (world : ω)
    (answer : String → Except FileError String) : Prop :=
  ∀ paths path, ((files.read path).run (files.afterReads world paths)).1 = answer path

private theorem FileSystem.Answers.read {files : FileSystem (StateM ω)} {world : ω}
    {answer : String → Except FileError String} (h : files.Answers world answer) (path : String) :
    ((files.read path).run world).1 = answer path ∧
      files.Answers ((files.read path).run world).2 answer :=
  ⟨h [] path, fun paths => h (path :: paths)⟩

/-- Reading leaves a file tree as it is. -/
theorem FileTree.answers (tree : FileTree) : fileSystem.Answers tree tree.read := by
  intro paths path
  have hsame : fileSystem.afterReads tree paths = tree := by
    induction paths with
    | nil => rfl
    | cons first rest ih => exact ih
  rw [hsame]
  rfl

/-! ## Computations that read files -/

section Yields

variable {files : FileSystem (StateM ω)} {answer : String → Except FileError String}

/-- A computation that reads files comes to a value or fails, as the files answer, which then answer
in the same way as before. -/
def Yields (files : FileSystem (StateM ω)) (answer : String → Except FileError String)
    (step : ExceptT Failure (StateM ω) α) (found : Option α) : Prop :=
  ∀ world, files.Answers world answer →
    (step.run.run world).1.toOption = found ∧ files.Answers (step.run.run world).2 answer

namespace Yields

private theorem pure (value : α) : Yields files answer (pure value) (some value) :=
  fun _ h => ⟨rfl, h⟩

private theorem throw (failure : Failure) :
    Yields files answer (throw failure : ExceptT Failure (StateM ω) α) none :=
  fun _ h => ⟨rfl, h⟩

private theorem bind {step : ExceptT Failure (StateM ω) α} {next : α → ExceptT Failure (StateM ω) β}
    {found : Option α} {others : α → Option β} (h : Yields files answer step found)
    (hnext : ∀ value, Yields files answer (next value) (others value)) :
    Yields files answer (step >>= next) (found.bind others) := by
  intro world hworld
  obtain ⟨hfound, hafter⟩ := h world hworld
  have hrun : (step >>= next).run.run world = match step.run.run world with
      | (.ok value, after) => (next value).run.run after
      | (.error failure, after) => (.error failure, after) := by
    rw [ExceptT.run_bind, StateT.run_bind]
    rcases step.run.run world with ⟨failure | value, after⟩ <;> rfl
  rw [hrun, ← hfound]
  rcases hstep : step.run.run world with ⟨failure | value, after⟩ <;> rw [hstep] at hafter
  · exact ⟨rfl, hafter⟩
  · exact hnext value after hafter

/-- A computation for whose value nothing more is done than a change. -/
theorem andReturn {step : ExceptT Failure (StateM ω) α} {found : Option α}
    (h : Yields files answer step found) (f : α → β) :
    Yields files answer (step >>= fun value => Pure.pure (f value)) (found.map f) := by
  rw [Option.map_eq_bind]
  exact h.bind fun value => pure (f value)

private theorem orUsage {ε : Type} (message : ε → String) (result : Except ε α) :
    Yields files answer (Options.orUsage message result) result.toOption := by
  cases result with
  | ok value => exact pure value
  | error fault => exact throw _

private theorem read (path : String) (message : FileError → String) :
    Yields files answer
      (do Options.orUsage message (← files.read path) : ExceptT Failure (StateM ω) String)
      (answer path).toOption := by
  intro world hworld
  obtain ⟨hanswer, hafter⟩ := hworld.read path
  have hrun : ((do Options.orUsage message (← files.read path) :
      ExceptT Failure (StateM ω) String).run.run world) =
        (Options.orUsage message ((files.read path).run world).1 :
          ExceptT Failure (StateM ω) String).run.run ((files.read path).run world).2 := rfl
  rw [hrun, hanswer]
  exact orUsage message (answer path) _ hafter

end Yields

/-! ## Values of a flag -/

private theorem toOption_eq_some_iff {ε : Type} {result : Except ε α} {value : α} :
    result.toOption = some value ↔ result = .ok value := by
  cases result <;> simp [Except.toOption]

/-- The configuration that the file at a path holds. -/
def configAt (answer : String → Except FileError String) (path : String) :
    Option GeneratorConfig :=
  (answer path).toOption.bind fun text => (GeneratorConfig.read text).toOption

private theorem configAt_eq_some_iff {path : String} {config : GeneratorConfig} :
    configAt answer path = some config ↔
      ∃ text, answer path = .ok text ∧ GeneratorConfig.read text = .ok config := by
  simp only [configAt, Option.bind_eq_some_iff, toOption_eq_some_iff]

/-- A value suits a flag: a path leads to a configuration, and a framework or a level is known. -/
def Flag.Takes (answer : String → Except FileError String) : Flag → String → Prop
  | .config, path => ∃ config text, answer path = .ok text ∧ GeneratorConfig.read text = .ok config
  | .framework, value => ∃ framework, Framework.parse value = .ok framework
  | .logLevel, value => ∃ level, LogLevel.parse value = .ok level
  | .package, _ | .out, _ | .expectFingerprint, _ => True

/-- The values so far with that of one more flag, which has to suit it. -/
def Choices.take? (answer : String → Except FileError String) (choices : Choices) (flag : Flag)
    (value : String) : Option Choices :=
  match flag with
  | .config =>
    (configAt answer value).map fun config => { choices with config := some config }
  | .package => some { choices with package := some value }
  | .framework =>
    (Framework.parse value).toOption.map fun framework =>
      { choices with framework := some framework }
  | .out => some { choices with out := some value }
  | .expectFingerprint => some { choices with fingerprint := some value }
  | .logLevel =>
    (LogLevel.parse value).toOption.map fun level => { choices with level := some level }

namespace Options

private theorem readConfig_yields (path : String) :
    Yields files answer (readConfig files path) (configAt answer path) :=
  (Yields.read path _).bind fun text => .orUsage _ (GeneratorConfig.read text)

private theorem choose_yields (choices : Choices) (flag : Flag) (value : String) :
    Yields files answer (choose files choices flag value) (choices.take? answer flag value) := by
  cases flag with
  | config =>
    exact (readConfig_yields value).andReturn fun config => { choices with config := some config }
  | framework =>
    exact (Yields.orUsage GenError.display (Framework.parse value)).andReturn fun framework =>
      { choices with framework := some framework }
  | logLevel =>
    exact (Yields.orUsage LogLevel.unknownMessage (LogLevel.parse value)).andReturn fun level =>
      { choices with level := some level }
  | package | out | expectFingerprint => exact .pure _

private theorem readFlag_yields (text : String) :
    Yields files answer (readFlag text) (Flag.ofSpelling? text) := by
  unfold readFlag
  cases Flag.ofSpelling? text with
  | none => exact .throw _
  | some flag => exact .pure flag

/-! ## Arguments as pairs -/

/-- Pairs of a flag and a value as arguments. -/
def spelled (pairs : List (Flag × String)) : List String :=
  pairs.flatMap fun pair => [pair.1.spelling, pair.2]

/-- The pairs of a flag and a value that arguments are, if they are nothing else. -/
def pairs? : List String → Option (List (Flag × String))
  | [] => some []
  | [_] => none
  | text :: value :: rest => do
    let flag ← Flag.ofSpelling? text
    let pairs ← pairs? rest
    return (flag, value) :: pairs

private theorem ofSpelling?_eq_some_iff {text : String} {flag : Flag} :
    Flag.ofSpelling? text = some flag ↔ flag.spelling = text := by
  constructor
  · exact fun h => by simpa using List.find?_some h
  · rintro rfl
    exact flag.ofSpelling?_spelling

private theorem pairs?_eq_some_iff {args : List String} {pairs : List (Flag × String)} :
    pairs? args = some pairs ↔ args = spelled pairs := by
  induction args using pairs?.induct generalizing pairs with
  | case1 => cases pairs <;> simp [pairs?, spelled]
  | case2 text => rcases pairs with _ | ⟨pair, rest⟩ <;> simp [pairs?, spelled]
  | case3 text value rest ih =>
    rw [pairs?]
    simp only [Option.bind_eq_bind, Option.bind_eq_some_iff, ofSpelling?_eq_some_iff, ih,
      Option.pure_def, Option.some.injEq]
    constructor
    · rintro ⟨flag, rfl, others, rfl, rfl⟩
      rfl
    · rcases pairs with _ | ⟨⟨flag, value⟩, others⟩
      · exact nofun
      · intro h
        simp only [spelled, List.flatMap_cons, List.cons_append, List.nil_append,
          List.cons.injEq] at h
        obtain ⟨rfl, rfl, rfl⟩ := h
        exact ⟨flag, rfl, others, rfl, rfl⟩

/-- The values that the pairs give, if each of them suits its flag. -/
def takeAll? (answer : String → Except FileError String) (choices : Choices)
    (pairs : List (Flag × String)) : Option Choices :=
  pairs.foldlM (fun choices pair => choices.take? answer pair.1 pair.2) choices

/-- Arguments that are pairs are taken pair by pair, and others fail at some argument. -/
theorem readChoices_yields (choices : Choices) (args : List String) :
    Yields files answer (readChoices files choices args)
      ((pairs? args).bind (takeAll? answer choices)) := by
  induction args using pairs?.induct generalizing choices with
  | case1 => exact .pure choices
  | case2 text =>
    have hflag : Yields files answer (readFlag text) (Flag.ofSpelling? text) := readFlag_yields text
    rw [pairs?, Option.bind_none, ← Option.bind_fun_none (Flag.ofSpelling? text)]
    exact hflag.bind fun flag => .throw _
  | case3 text value rest ih =>
    have hsteps := (readFlag_yields text).bind fun flag =>
      (choose_yields choices flag value).bind fun chosen => ih chosen
    -- Whether the rest are pairs at all is asked last, though it is what pairs are made of.
    have hpairs : (pairs? (text :: value :: rest)).bind (takeAll? answer choices) =
        (Flag.ofSpelling? text).bind fun flag =>
          (choices.take? answer flag value).bind fun chosen =>
            (pairs? rest).bind (takeAll? answer chosen) := by
      rw [pairs?, Option.bind_eq_bind, Option.bind_assoc]
      refine Option.bind_congr fun flag _ => ?_
      rw [Option.bind_comm, Option.bind_eq_bind, Option.bind_assoc]
      rfl
    rw [hpairs]
    exact hsteps

/-! ## The last value of each flag -/

/-- The last value that pairs give with a flag. -/
def last (pairs : List (Flag × String)) (flag : Flag) : Option String :=
  ((pairs.filter (·.1 = flag)).map Prod.snd).getLast?

private theorem last_concat (pairs : List (Flag × String)) (flag : Flag) (value : String)
    (other : Flag) :
    last (pairs ++ [(flag, value)]) other =
      if flag = other then some value else last pairs other := by
  unfold last
  by_cases h : flag = other <;> simp [h]

private theorem mem_of_last {pairs : List (Flag × String)} {flag : Flag} {value : String}
    (h : last pairs flag = some value) : (flag, value) ∈ pairs := by
  obtain ⟨⟨other, _⟩, hpair, rfl⟩ := List.mem_map.1 (List.mem_of_getLast? h)
  obtain ⟨hmem, hflag⟩ := List.mem_filter.1 hpair
  obtain rfl : other = flag := by simpa using hflag
  exact hmem

/-- A flag that is given once has the value that it is given with. -/
theorem last_eq_some_iff {pairs : List (Flag × String)} (h : (pairs.map Prod.fst).Nodup)
    {flag : Flag} {value : String} : last pairs flag = some value ↔ (flag, value) ∈ pairs := by
  refine ⟨mem_of_last, fun hmem => ?_⟩
  rw [last, Naming.filter_eq_singleton h hmem]
  rfl

/-- The order of pairs with different flags leaves every flag its last value. -/
theorem last_perm {pairs others : List (Flag × String)} (h : pairs.Perm others)
    (hpairs : (pairs.map Prod.fst).Nodup) : last pairs = last others := by
  have hothers : (others.map Prod.fst).Nodup := (h.map Prod.fst).nodup hpairs
  funext flag
  apply Option.ext
  intro value
  rw [last_eq_some_iff hpairs, last_eq_some_iff hothers, h.mem_iff]

end Options

/-- The values that the last values of the flags make. -/
def Choices.ofLast (answer : String → Except FileError String) (last : Flag → Option String) :
    Choices where
  config := (last .config).bind (configAt answer)
  package := last .package
  framework := (last .framework).bind fun value => (Framework.parse value).toOption
  out := last .out
  fingerprint := last .expectFingerprint
  level := (last .logLevel).bind fun value => (LogLevel.parse value).toOption

namespace Options

/-- The options that the last values of the flags make. The package and the framework go before
those of the configuration. -/
def ofLast (answer : String → Except FileError String) (last : Flag → Option String) : Options :=
  let base := ((last .config).bind (configAt answer)).getD .standard
  let framework := (last .framework).bind fun value => (Framework.parse value).toOption
  { config :=
      { base with
        package := (last .package).getD base.package
        framework := framework.getD base.framework }
    out := last .out
    fingerprint := last .expectFingerprint
    level := ((last .logLevel).bind fun value => (LogLevel.parse value).toOption).getD .info }

private theorem toOptions_ofLast (last : Flag → Option String) :
    (Choices.ofLast answer last).toOptions = ofLast answer last := rfl

/-- A value that suits its flag becomes the last one of the flag. -/
theorem take?_ofLast (pairs : List (Flag × String)) (flag : Flag) (value : String)
    (chosen : Choices) :
    (Choices.ofLast answer (last pairs)).take? answer flag value = some chosen ↔
      flag.Takes answer value ∧
        chosen = Choices.ofLast answer (last (pairs ++ [(flag, value)])) := by
  have hread {γ : Type} (found : Option γ) (set : Option γ → Choices) :
      (found.map fun value => set (some value)) = some chosen ↔
        (∃ value, found = some value) ∧ chosen = set found := by
    cases found <;> simp [eq_comm]
  have hlast := last_concat pairs flag value
  cases flag with
  | config =>
    refine (hread (configAt answer value)
      fun config => { Choices.ofLast answer (last pairs) with config }).trans ?_
    simp [Flag.Takes, configAt_eq_some_iff, Choices.ofLast, hlast]
  | framework =>
    refine (hread (Framework.parse value).toOption
      fun framework => { Choices.ofLast answer (last pairs) with framework }).trans ?_
    simp [Flag.Takes, toOption_eq_some_iff, Choices.ofLast, hlast]
  | logLevel =>
    refine (hread (LogLevel.parse value).toOption
      fun level => { Choices.ofLast answer (last pairs) with level }).trans ?_
    simp [Flag.Takes, toOption_eq_some_iff, Choices.ofLast, hlast]
  | package | out | expectFingerprint =>
    simp [Flag.Takes, Choices.take?, Choices.ofLast, hlast, eq_comm]

/-- The values of all pairs are taken exactly when each suits its flag, and the last ones remain. -/
theorem takeAll?_none (pairs : List (Flag × String)) (chosen : Choices) :
    takeAll? answer .none pairs = some chosen ↔
      (∀ pair ∈ pairs, pair.1.Takes answer pair.2) ∧
        chosen = Choices.ofLast answer (last pairs) := by
  -- From the end, since the last pair is the one that replaces those with its flag.
  induction pairs using List.reverseRecOn generalizing chosen with
  | nil => simp [takeAll?, Choices.ofLast, last, Choices.none, eq_comm]
  | append_singleton pairs pair ih =>
    have hsplit : takeAll? answer .none (pairs ++ [pair]) =
        (takeAll? answer .none pairs).bind fun before => before.take? answer pair.1 pair.2 := by
      simp [takeAll?, List.foldlM_append]
    rw [hsplit, Option.bind_eq_some_iff]
    simp only [ih, and_assoc, exists_and_left, exists_eq_left, take?_ofLast,
      List.forall_mem_append, List.forall_mem_singleton]

/-! ## Reading -/

theorem read_yields (args : List String) : Yields files answer (read files args)
    (((pairs? args).bind (takeAll? answer .none)).map Choices.toOptions) :=
  (readChoices_yields .none args).andReturn Choices.toOptions

variable {world : ω}

/-- Arguments are options when they are pairs whose values suit their flags. -/
theorem read_eq_ok_iff (h : files.Answers world answer) {args : List String} {options : Options} :
    ((read files args).run.run world).1 = .ok options ↔
      ∃ pairs, args = spelled pairs ∧ (∀ pair ∈ pairs, pair.1.Takes answer pair.2) ∧
        options = ofLast answer (last pairs) := by
  rw [← toOption_eq_some_iff, (read_yields args world h).1]
  simp only [Option.map_eq_some_iff, Option.bind_eq_some_iff, pairs?_eq_some_iff, takeAll?_none]
  constructor
  · rintro ⟨_, ⟨pairs, hargs, htakes, rfl⟩, rfl⟩
    exact ⟨pairs, hargs, htakes, toOptions_ofLast _⟩
  · rintro ⟨pairs, hargs, htakes, rfl⟩
    exact ⟨_, ⟨pairs, hargs, htakes, rfl⟩, toOptions_ofLast _⟩

private theorem spelled_injective : Function.Injective spelled := by
  intro pairs others h
  have hpairs := pairs?_eq_some_iff.2 h
  rw [pairs?_eq_some_iff.2 rfl] at hpairs
  exact Option.some.inj hpairs

/-- Pairs are options when their values suit their flags. -/
theorem read_spelled_eq_ok_iff (h : files.Answers world answer) {pairs : List (Flag × String)}
    {options : Options} : ((read files (spelled pairs)).run.run world).1 = .ok options ↔
      (∀ pair ∈ pairs, pair.1.Takes answer pair.2) ∧ options = ofLast answer (last pairs) := by
  rw [read_eq_ok_iff h]
  constructor
  · rintro ⟨others, hargs, hoptions⟩
    rwa [spelled_injective hargs]
  · exact fun hoptions => ⟨pairs, rfl, hoptions⟩

/-- Where files answer the same each time, arguments are options exactly when they are pairs of a
flag and a value that suits it. What the options are is told by the last value of each flag alone:
the package and the framework go before those of a configuration, and pairs with different flags may
stand in any order. -/
theorem read_pairs (h : files.Answers world answer) :
    (∀ args, (∃ options, ((read files args).run.run world).1 = .ok options) ↔
      ∃ pairs, args = spelled pairs ∧ ∀ pair ∈ pairs, pair.1.Takes answer pair.2) ∧
    (∀ pairs options, ((read files (spelled pairs)).run.run world).1 = .ok options →
      options = ofLast answer (last pairs) ∧
      (∀ package, last pairs .package = some package → options.config.package = package) ∧
      ∀ value, last pairs .framework = some value →
        Framework.parse value = .ok options.config.framework) ∧
    ∀ pairs others, pairs.Perm others → (pairs.map Prod.fst).Nodup →
      ((read files (spelled pairs)).run.run world).1.toOption =
        ((read files (spelled others)).run.run world).1.toOption := by
  refine ⟨fun args => ?_, fun pairs options hoptions => ?_, fun pairs others hperm hpairs => ?_⟩
  · simp only [read_eq_ok_iff h]
    constructor
    · rintro ⟨_, pairs, hargs, htakes, -⟩
      exact ⟨pairs, hargs, htakes⟩
    · rintro ⟨pairs, hargs, htakes⟩
      exact ⟨_, pairs, hargs, htakes, rfl⟩
  · obtain ⟨htakes, rfl⟩ := (read_spelled_eq_ok_iff h).1 hoptions
    refine ⟨rfl, fun package hpackage => ?_, fun value hvalue => ?_⟩
    · simp [ofLast, hpackage]
    · obtain ⟨framework, hframework⟩ := htakes _ (mem_of_last hvalue)
      simp [ofLast, hvalue, hframework, Except.toOption]
  · -- With different flags there is one value for each, the last one in any order.
    apply Option.ext
    intro options
    rw [toOption_eq_some_iff, toOption_eq_some_iff, read_spelled_eq_ok_iff h,
      read_spelled_eq_ok_iff h, last_perm hperm hpairs]
    simp only [hperm.mem_iff]

/-- Flags on both sides of that for a configuration go before it, one with a value that looks like a
flag. The files count how often they are read, but answer the same. -/
theorem read_pairs_counted :
    let document := "\x7b\"package\":\"org.pets\",\"framework\":\"jaxrs\"\x7d"
    let answer (path : String) := if path = "api.json" then .ok document else .error .notFound
    let files : FileSystem (StateM Nat) :=
      ⟨fun path count => (answer path, count + 1), fun _ count => (.ok (), count),
        fun _ _ count => (.ok (), count)⟩
    let pairs : List (Flag × String) :=
      [(.framework, "jdk-http"), (.config, "api.json"), (.package, "--config")]
    files.Answers 0 answer ∧
    (∃ options, ((read files (spelled pairs)).run.run 0).1 = .ok options ∧
      options.config.package = "--config" ∧ options.config.framework = .jdkHttp) ∧
    ((read files (spelled pairs)).run.run 0).1.toOption =
      ((read files (spelled pairs.reverse)).run.run 0).1.toOption := by
  intro document answer files pairs
  have hanswers : files.Answers 0 answer := fun _ _ => rfl
  have hdocument : GeneratorConfig.read document = .ok ⟨"org.pets", .jaxrs, "Client", "Handler"⟩ :=
    toOption_eq_some_iff.1 (by decide +kernel)
  obtain ⟨hread, hlast, hperm⟩ := read_pairs hanswers
  have htakes : ∀ pair ∈ pairs, pair.1.Takes answer pair.2 := by
    simp only [pairs, List.forall_mem_cons]
    exact ⟨⟨_, Framework.parse_keyword .jdkHttp⟩, ⟨_, document, rfl, hdocument⟩, trivial, nofun⟩
  obtain ⟨options, hoptions⟩ := (hread _).2 ⟨pairs, rfl, htakes⟩
  obtain ⟨-, hpackage, hframework⟩ := hlast pairs options hoptions
  refine ⟨hanswers, ⟨options, hoptions, hpackage _ (by decide), ?_⟩,
    hperm pairs _ (List.reverse_perm pairs).symm (by decide)⟩
  have hkeyword := hframework "jdk-http" (by decide)
  exact (Except.ok.inj ((Framework.parse_keyword .jdkHttp).symm.trans hkeyword)).symm

end Options

end Yields

end Stubwright.CommandLine
