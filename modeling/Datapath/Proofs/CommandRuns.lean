import Mathlib
import Datapath.Cli.Machine
import Datapath.Cli.Run
import Datapath.Proofs.WellFormedness

/-!
# Runs of generator commands

Each shared setting of a generator command has one value: that of the option, else that of the
configuration, else a default; all other choices are made by options alone. `Cli.Requested` says so
without the order in which settings are read and refused.

A run delivers the text of the netlist that is requested, or it is refused and leaves nothing
behind: `Cli.run_delivers_or_refuses`. The text is delivered before the statistics are computed, so
this needs that every generated netlist has statistics, which is that it has no combinational loop.
-/

namespace Datapath

theorem Technology.provider_fits (technology : Technology) : technology.provider.Fits := by
  cases technology with
  | generic => exact Provider.Infers.fits (.inl rfl)
  | sky130 => exact CellLibrary.sky130_fits

namespace Cli

/-! ## What is requested -/

/-- The value is read from a text; without a text it is a default. -/
def HasValue {α ε : Type} (read : String → Except ε α) (text : Option String) (default value : α) :
    Prop :=
  match text with
  | some text => read text = .ok value
  | none => value = default

/-- The shared settings are those of the options, else of the configuration, else defaults. -/
structure Settings.Determined (given : Given) (config : Config) (settings : Settings) : Prop where
  width : HasValue readCount (given.find? "bits") (config.bits.getD 32) settings.width
  algorithm : HasValue Adder.Algorithm.ofName (given.find? "algorithm" <|> config.algorithm)
    (.tree .brentKung) settings.algorithm
  technology : HasValue Technology.ofName (given.find? "process" <|> config.process) .generic
    settings.technology
  powered : settings.powered =
    ((given.find? "powered").map (· == "true") <|> config.powered).getD false
  moduleName : settings.moduleName = given.find? "module_name"

/-- The netlist is the one that a generator command asks for. -/
inductive Requested (given : Given) (config : Config) : CommandName → Netlist → Prop where
  | adder {settings : Settings} {netlist : Netlist} (determined : settings.Determined given config)
      (generated : Adder.Options.generate {
          width := settings.width
          algorithm := settings.algorithm
          registerInput := given.isOn "register_input"
          registerOutput := given.isOn "register_output"
          powered := settings.powered
          moduleName := settings.moduleName } settings.technology.provider = .ok netlist) :
      Requested given config .adder netlist
  | multiplier {settings : Settings} {scheme : Multiplier.Scheme} {netlist : Netlist}
      (determined : settings.Determined given config)
      (named : HasValue Multiplier.Scheme.ofName (given.find? "partial_products") .booth scheme)
      (generated : Multiplier.Options.generate {
          width := settings.width
          scheme := scheme
          finalAdder := settings.algorithm
          multiplyAdd := given.isOn "multiply_add"
          registerInput := given.isOn "register_input"
          registerMiddle := given.isOn "register_middle"
          registerOutput := given.isOn "register_output"
          powered := settings.powered
          moduleName := settings.moduleName } settings.technology.provider = .ok netlist) :
      Requested given config .multiplier netlist

/-- Reads a value from a text, or words what is wrong with it; without a text takes a default. -/
def readOr {α ε : Type} (read : String → Except ε α) (wording : String → ε → String)
    (text : Option String) (default : α) : Except String α :=
  match text with
  | some text => (read text).mapError (wording text)
  | none => pure default

theorem readOr_eq_ok {α ε : Type} {read : String → Except ε α} {wording : String → ε → String}
    {text : Option String} {default value : α} :
    readOr read wording text default = .ok value ↔ HasValue read text default value := by
  cases text with
  | none => exact ⟨fun same => (Except.ok.inj same).symm, congrArg Except.ok ∘ Eq.symm⟩
  | some text => exact Netlist.mapError_eq_ok

namespace Settings

variable {given : Given} {config : Config}

/-- The settings are read one after the other. -/
theorem resolve_eq (given : Given) (config : Config) : resolve given config =
    readOr readCount (fun text error =>
        "invalid --bits value " ++ Text.quoted text ++ ": " ++ error.message)
      (given.find? "bits") (config.bits.getD 32) >>= fun width =>
    readOr Adder.Algorithm.ofName (fun _ => ConfigError.message)
      (given.find? "algorithm" <|> config.algorithm) (.tree .brentKung) >>= fun algorithm =>
    readOr Technology.ofName (fun _ => ConfigError.message)
      (given.find? "process" <|> config.process) .generic >>= fun technology =>
    pure {
      width := width
      algorithm := algorithm
      technology := technology
      powered := ((given.find? "powered").map (· == "true") <|> config.powered).getD false
      moduleName := given.find? "module_name" } := by
  have isWidth (text : String) : readWidth text = (readCount text).mapError fun error =>
      "invalid --bits value " ++ Text.quoted text ++ ": " ++ error.message := by
    rw [readWidth]
    cases readCount text <;> rfl
  rw [resolve]
  simp only [isWidth]
  cases given.find? "bits" <;> cases given.find? "algorithm" <|> config.algorithm <;>
    cases given.find? "process" <|> config.process <;> cases given.find? "powered" <;> rfl

theorem resolve_eq_ok {settings : Settings} :
    resolve given config = .ok settings ↔ settings.Determined given config := by
  simp only [resolve_eq, Except.bind_eq_ok, readOr_eq_ok]
  constructor
  · rintro ⟨width, isWidth, algorithm, isAlgorithm, technology, isTechnology, same⟩
    cases same
    exact ⟨isWidth, isAlgorithm, isTechnology, rfl, rfl⟩
  · rintro ⟨isWidth, isAlgorithm, isTechnology, isPowered, isName⟩
    refine ⟨_, isWidth, _, isAlgorithm, _, isTechnology, ?_⟩
    rw [← isPowered, ← isName]
    rfl

theorem scheme_eq_ok {chosen : Multiplier.Scheme} : scheme given = .ok chosen ↔
    HasValue Multiplier.Scheme.ofName (given.find? "partial_products") .booth chosen :=
  readOr_eq_ok

end Settings

/-- What is generated is what is requested. -/
theorem generate_eq_ok {command : CommandName} {given : Given} {config : Config}
    {netlist : Netlist} (isGenerator : command ≠ .version) :
    generate command given config = .ok netlist ↔ Requested given config command netlist := by
  rw [generate, Except.bind_eq_ok]
  simp only [Netlist.mapError_eq_ok, Settings.resolve_eq_ok]
  cases command with
  | version => exact absurd rfl isGenerator
  | adder =>
      constructor
      · rintro ⟨settings, determined, generated⟩
        exact .adder determined (Netlist.mapError_eq_ok.mp generated)
      · rintro ⟨determined, generated⟩
        exact ⟨_, determined, Netlist.mapError_eq_ok.mpr generated⟩
  | multiplier =>
      constructor
      · rintro ⟨settings, determined, rest⟩
        rcases Except.bind_eq_ok.mp rest with ⟨scheme, named, generated⟩
        exact .multiplier determined (Settings.scheme_eq_ok.mp (Netlist.mapError_eq_ok.mp named))
          (Netlist.mapError_eq_ok.mp generated)
      · rintro (_ | @⟨settings, scheme, _, determined, named, generated⟩)
        refine ⟨settings, determined, Except.bind_eq_ok.mpr ⟨scheme, ?_, ?_⟩⟩
        · exact Netlist.mapError_eq_ok.mpr (Settings.scheme_eq_ok.mpr named)
        · exact Netlist.mapError_eq_ok.mpr generated

theorem Requested.unique {command : CommandName} {given : Given} {config : Config}
    {netlist other : Netlist} (requested : Requested given config command netlist)
    (isOther : Requested given config command other) : netlist = other := by
  have isGenerator : command ≠ .version := by cases requested <;> exact nofun
  have generated := (generate_eq_ok isGenerator).mpr requested
  rw [(generate_eq_ok isGenerator).mpr isOther] at generated
  exact (Except.ok.inj generated).symm

/-- A command that gets no netlist is refused, unless a fault ends it. -/
theorem generate_eq_error {command : CommandName} {given : Given} {config : Config}
    {outcome : Outcome} (failed : generate command given config = .error outcome) :
    outcome = .fault ∨ outcome.exitCode = 1 ∧ outcome.stdout = "" := by
  have ofError (error : Error) : Outcome.ofError command error = .fault ∨
      (Outcome.ofError command error).exitCode = 1 ∧
        (Outcome.ofError command error).stdout = "" := by
    cases error with
    | fault cause => exact .inl rfl
    | config cause => exact .inr ⟨rfl, rfl⟩
    | netlist cause => exact .inr ⟨rfl, rfl⟩
  rcases Except.bind_eq_error failed with unresolved | ⟨settings, _, failed⟩
  · rcases Except.mapError_eq_error unresolved with ⟨message, rfl⟩
    exact .inr ⟨rfl, rfl⟩
  cases command with
  | multiplier =>
      rcases Except.bind_eq_error failed with unnamed | ⟨scheme, _, failed⟩
      · rcases Except.mapError_eq_error unnamed with ⟨message, rfl⟩
        exact .inr ⟨rfl, rfl⟩
      · rcases Except.mapError_eq_error failed with ⟨error, rfl⟩
        exact ofError error
  | _ =>
      rcases Except.mapError_eq_error failed with ⟨error, rfl⟩
      exact ofError error

/-- Two command lines with their configurations ask for the same, although one may ask for
statistics where the other does not: where an option gives a setting, the configurations may say
about it what they like. -/
structure SameRequest (given : Given) (config : Config) (otherGiven : Given) (other : Config) :
    Prop where
  options : ∀ name, name ≠ "stats" → otherGiven.find? name = given.find? name
  bits : given.find? "bits" = none → other.bits = config.bits
  algorithm : given.find? "algorithm" = none → other.algorithm = config.algorithm
  process : given.find? "process" = none → other.process = config.process
  powered : given.find? "powered" = none → other.powered = config.powered

namespace SameRequest

variable {given otherGiven : Given} {config other : Config}
  (same : SameRequest given config otherGiven other)

include same

theorem isOn_eq {name : String} (noStats : name ≠ "stats") :
    otherGiven.isOn name = given.isOn name := by
  rw [Given.isOn, Given.isOn, same.options name noStats]

theorem resolve_eq : Settings.resolve otherGiven other = Settings.resolve given config := by
  have orElse {α : Type} {first second third : Option α} (agree : first = none → second = third) :
      (first <|> second) = (first <|> third) := by
    cases first with
    | none => exact agree rfl
    | some value => rfl
  have width {wording : String → CountError → String} :
      readOr readCount wording (given.find? "bits") (other.bits.getD 32) =
        readOr readCount wording (given.find? "bits") (config.bits.getD 32) := by
    cases found : given.find? "bits" with
    | none => rw [same.bits found]
    | some text => rfl
  rw [Settings.resolve_eq, Settings.resolve_eq, same.options "bits" (by decide),
    same.options "algorithm" (by decide), same.options "process" (by decide),
    same.options "powered" (by decide), same.options "module_name" (by decide), width,
    orElse same.algorithm, orElse same.process,
    orElse fun none => same.powered (Option.map_eq_none_iff.mp none)]

/-- Nothing else has a say in what is generated. -/
theorem generate_eq (command : CommandName) :
    generate command otherGiven other = generate command given config := by
  have scheme : Settings.scheme otherGiven = Settings.scheme given := by
    rw [Settings.scheme, Settings.scheme, same.options "partial_products" (by decide)]
  have adder (settings : Settings) : settings.adder otherGiven = settings.adder given := by
    rw [Settings.adder, Settings.adder, same.isOn_eq (by decide), same.isOn_eq (by decide)]
  have multiplier (settings : Settings) (scheme : Multiplier.Scheme) :
      settings.multiplier scheme otherGiven = settings.multiplier scheme given := by
    rw [Settings.multiplier, Settings.multiplier, same.isOn_eq (by decide),
      same.isOn_eq (by decide), same.isOn_eq (by decide), same.isOn_eq (by decide)]
  rw [generate, generate, same.resolve_eq, scheme]
  simp only [adder, multiplier]

end SameRequest

/-! ## What is delivered -/

namespace Requested

variable {command : CommandName} {given : Given} {config : Config} {netlist : Netlist}

/-- What is requested is put together by a generator from cells that fit. -/
theorem exists_composed (requested : Requested given config command netlist) :
    ∃ technology : Technology, netlist.Composed technology.provider := by
  cases requested with
  | adder _ generated => exact ⟨_, Adder.Options.composed generated⟩
  | multiplier _ _ generated => exact ⟨_, Multiplier.Options.composed generated⟩

theorem exists_text (requested : Requested given config command netlist) :
    ∃ text, netlist.verilogText = .ok text := by
  rcases requested.exists_composed with ⟨technology, composed⟩
  rcases composed.textWellFormed technology.provider_fits with ⟨text, _, written, _⟩
  exact ⟨text, written⟩

/-- What is requested has no combinational loop, so its depth can be found. -/
theorem exists_summary (requested : Requested given config command netlist) :
    ∃ summary, netlist.summary = .ok summary := by
  rcases requested.exists_composed with ⟨_, composed⟩
  rcases composed.runnable.ordered with ⟨order, isOrder⟩
  rw [Netlist.summary, Netlist.depth, Netlist.signalDepths, isOrder]
  exact ⟨_, rfl⟩

end Requested

/-- What a run prints on standard error besides the text that it delivers. -/
def statistics (given : Given) (summary : Summary) : String :=
  if given.isOn "stats" then summary.json ++ "\n" else ""

theorem withStatistics_printed {command : CommandName} {given : Given} {netlist : Netlist}
    {summary : Summary} (summarized : netlist.summary = .ok summary) (text : String) :
    withStatistics command given netlist (.printed text) =
      { exitCode := 0, stdout := text, stderr := statistics given summary } := by
  rw [withStatistics, statistics, summarized]
  split <;> rfl

theorem Machine.run_write (machine : Machine) (path text : String) :
    (access.write path text).run machine =
      match machine.write path text with
      | .ok after => (.ok (), after)
      | .error error => (.error error, machine) := by
  have unfolded : access.write path text = get >>= fun machine : Machine =>
      match machine.write path text with
      | .ok after => set after >>= fun _ => pure (.ok ())
      | .error error => pure (.error error) := rfl
  rw [unfolded, StateT.run_bind]
  change StateT.run (match machine.write path text with
    | .ok after => _
    | .error error => _) machine = _
  cases machine.write path text <;> rfl

/-- A path to a name that is free takes any text. -/
theorem Machine.write_eq_ok (machine : Machine) {path name text : String} {place : Place}
    (walks : machine.walk path = .ok (.named place name false))
    (short : checkName name = .ok ()) (free : machine.entry? (place ++ [name]) = none) :
    machine.write path text = .ok (machine.writeFile (place ++ [name]) text) := by
  rw [write, walks]
  dsimp only [bind, Except.bind]
  rw [short]
  dsimp only
  rw [free]
  rfl

section Runs

variable {σ : Type} {files : Files (StateM σ)} {command : CommandName} {given : Given}
  {config : Config} {netlist : Netlist}

/-- The text is printed, or written to the file that is named. -/
theorem run_deliver {text : String} {summary : Summary} (written : netlist.verilogText = .ok text)
    (summarized : netlist.summary = .ok summary) (loaded : σ) :
    (deliver files command given netlist).run loaded =
      match given.find? "output" with
      | none => ({ exitCode := 0, stdout := text, stderr := statistics given summary }, loaded)
      | some path =>
        match (files.write path text).run loaded with
        | (.ok (), after) => ({ exitCode := 0, stderr := statistics given summary }, after)
        | (.error error, after) =>
          (.failedIn command ("failed to write " ++ path ++ ": " ++ error.message), after) := by
  rw [deliver, written]
  dsimp only
  cases given.find? "output" with
  | none =>
      dsimp only
      rw [withStatistics_printed summarized]
      rfl
  | some path =>
      dsimp only
      rw [withStatistics_printed summarized, StateT.run_bind]
      rcases (files.write path text).run loaded with ⟨_ | _, after⟩ <;> rfl

/-- The configuration that a run loads before anything else. -/
def Loads (files : Files (StateM σ)) (arguments : Arguments) (before : σ) (config : Config)
    (loaded : σ) : Prop :=
  match arguments.global.find? "config" with
  | none => config = {} ∧ loaded = before
  | some path => ∃ text, (files.read path).run before = (.ok text, loaded) ∧
      Config.parse text = .ok config

/-- A run is one of its command in the state that the configuration leaves. -/
theorem run_loaded {words : List String} {arguments : Arguments} {before loaded : σ}
    (parsed : Arguments.parse words = .ok arguments)
    (isCommand : arguments.command = some (command, given))
    (loads : Loads files arguments before config loaded) :
    (run files words).run before = (runCommand files config command given).run loaded := by
  have runsCommand (config : Config) :
      runWith files arguments config = runCommand files config command given := by
    rw [runWith, isCommand]
  rw [run, parsed]
  dsimp only
  rw [Loads] at loads
  cases named : arguments.global.find? "config" with
  | none =>
      rw [named] at loads
      rcases loads with ⟨rfl, rfl⟩
      exact congrArg (StateT.run · loaded) (runsCommand {})
  | some path =>
      rw [named] at loads
      rcases loads with ⟨text, isRead, isConfig⟩
      have isLoaded : (loadConfig files path).run before = (.ok config, loaded) := by
        rw [loadConfig, StateT.run_bind, isRead]
        dsimp only [bind]
        rw [isConfig]
        rfl
      dsimp only
      rw [StateT.run_bind, isLoaded]
      exact congrArg (StateT.run · loaded) (runsCommand config)

/-- The run has delivered the text: it has printed it, or it has written it to the file that is
named and printed nothing. -/
def Delivers (files : Files (StateM σ)) (given : Given) (text : String) (loaded : σ)
    (outcome : Outcome) (after : σ) : Prop :=
  outcome.exitCode = 0 ∧
    match given.find? "output" with
    | none => outcome.stdout = text ∧ after = loaded
    | some path => outcome.stdout = "" ∧ (files.write path text).run loaded = (.ok (), after)

/-- The run has been refused and has left nothing behind. -/
def Refuses (loaded : σ) (outcome : Outcome) (after : σ) : Prop :=
  outcome.exitCode = 1 ∧ outcome.stdout = "" ∧ after = loaded

theorem runCommand_eq (isGenerator : command ≠ .version) :
    runCommand files config command given =
      match generate command given config with
      | .error outcome => pure outcome
      | .ok netlist => deliver files command given netlist := by
  cases command with
  | version => exact absurd rfl isGenerator
  | _ => rfl

/-- What is requested is delivered, if it can be written. -/
theorem Requested.delivers (requested : Requested given config command netlist)
    (isGenerator : command ≠ .version) {text : String} (written : netlist.verilogText = .ok text)
    {loaded after : σ} {outcome : Outcome}
    (writable : ∀ path, given.find? "output" = some path →
      ((files.write path text).run loaded).1 = .ok ())
    (ran : (runCommand files config command given).run loaded = (outcome, after)) :
    Delivers files given text loaded outcome after := by
  -- The statistics come after the text, so a failure here would be one that has printed.
  rcases requested.exists_summary with ⟨summary, summarized⟩
  rw [runCommand_eq isGenerator, (generate_eq_ok isGenerator).mpr requested] at ran
  dsimp only at ran
  rw [run_deliver written summarized] at ran
  rw [Delivers]
  cases named : given.find? "output" with
  | none =>
      rw [named] at ran
      cases ran
      exact ⟨rfl, rfl, rfl⟩
  | some path =>
      have succeeds := writable path named
      rw [named] at ran
      dsimp only at ran
      rcases wrote : (files.write path text).run loaded with ⟨_ | _, last⟩
      · rw [wrote] at succeeds
        cases succeeds
      · rw [wrote] at ran
        cases ran
        exact ⟨rfl, rfl, wrote⟩

/-- Where nothing is requested the run is refused, unless a fault ends it. -/
theorem refuses_of_not_requested (isGenerator : command ≠ .version)
    (nothing : ∀ netlist, ¬ Requested given config command netlist) {loaded after : σ}
    {outcome : Outcome} (noFault : outcome.exitCode ≠ 101)
    (ran : (runCommand files config command given).run loaded = (outcome, after)) :
    Refuses loaded outcome after := by
  rw [runCommand_eq isGenerator] at ran
  cases generated : generate command given config with
  | ok netlist => exact absurd ((generate_eq_ok isGenerator).mp generated) (nothing netlist)
  | error refusal =>
      rw [generated] at ran
      cases ran
      rcases generate_eq_error generated with rfl | ⟨exitCode, stdout⟩
      · exact absurd rfl noFault
      · exact ⟨exitCode, stdout, rfl⟩

/-- Command lines that ask for the same lead to the same, apart from the statistics. -/
theorem SameRequest.exists_run {otherGiven : Given} {other : Config}
    (same : SameRequest given config otherGiven other) (isGenerator : command ≠ .version)
    {loaded after : σ} {outcome : Outcome}
    (ran : (runCommand files config command given).run loaded = (outcome, after)) :
    ∃ otherOutcome,
      (runCommand files other command otherGiven).run loaded = (otherOutcome, after) ∧
      otherOutcome.exitCode = outcome.exitCode ∧ otherOutcome.stdout = outcome.stdout ∧
      (otherGiven.find? "stats" = given.find? "stats" → otherOutcome = outcome) := by
  rw [runCommand_eq isGenerator] at ran
  rw [runCommand_eq isGenerator, same.generate_eq]
  cases generated : generate command given config with
  | error refusal =>
      rw [generated] at ran
      cases ran
      exact ⟨_, rfl, rfl, rfl, fun _ => rfl⟩
  | ok netlist =>
      have requested := (generate_eq_ok isGenerator).mp generated
      rcases requested.exists_text with ⟨text, written⟩
      rcases requested.exists_summary with ⟨summary, summarized⟩
      have statistics_eq (asked : otherGiven.find? "stats" = given.find? "stats") :
          statistics otherGiven summary = statistics given summary := by
        rw [statistics, statistics, Given.isOn, Given.isOn, asked]
      rw [generated] at ran
      dsimp only at ran ⊢
      rw [run_deliver written summarized] at ran
      rw [run_deliver written summarized, same.options "output" (by decide)]
      cases named : given.find? "output" with
      | none =>
          rw [named] at ran
          cases ran
          exact ⟨_, rfl, rfl, rfl, fun asked => by rw [statistics_eq asked]⟩
      | some path =>
          rw [named] at ran
          dsimp only at ran ⊢
          rcases wrote : (files.write path text).run loaded with ⟨_ | _, last⟩
          · rw [wrote] at ran
            cases ran
            exact ⟨_, rfl, rfl, rfl, fun _ => rfl⟩
          · rw [wrote] at ran
            cases ran
            exact ⟨_, rfl, rfl, rfl, fun asked => by rw [statistics_eq asked]⟩

/-- A run of a generator command that no fault ends and that can write delivers the text of the
netlist that is requested, or nothing is requested and the run is refused. A setting of the
configuration that an option overrides has no influence, and statistics none on what is printed,
written or returned. -/
theorem run_delivers_or_refuses {words : List String} {arguments : Arguments}
    {before loaded after : σ} {outcome : Outcome}
    (parsed : Arguments.parse words = .ok arguments)
    (isCommand : arguments.command = some (command, given)) (isGenerator : command ≠ .version)
    (loads : Loads files arguments before config loaded)
    (ran : (run files words).run before = (outcome, after)) (noFault : outcome.exitCode ≠ 101)
    (writable : ∀ path netlist text, given.find? "output" = some path →
      Requested given config command netlist → netlist.verilogText = .ok text →
        ((files.write path text).run loaded).1 = .ok ()) :
    ((∃ netlist text, Requested given config command netlist ∧ netlist.verilogText = .ok text ∧
        Delivers files given text loaded outcome after) ∨
      (∀ netlist, ¬ Requested given config command netlist) ∧ Refuses loaded outcome after) ∧
    ∀ (otherWords : List String) (otherArguments : Arguments) (otherGiven : Given)
      (other : Config) (start : σ),
      Arguments.parse otherWords = .ok otherArguments →
      otherArguments.command = some (command, otherGiven) →
      Loads files otherArguments start other loaded →
      SameRequest given config otherGiven other →
        ∃ otherOutcome, (run files otherWords).run start = (otherOutcome, after) ∧
          otherOutcome.exitCode = outcome.exitCode ∧ otherOutcome.stdout = outcome.stdout ∧
          (otherGiven.find? "stats" = given.find? "stats" → otherOutcome = outcome) := by
  rw [run_loaded parsed isCommand loads] at ran
  constructor
  · by_cases asked : ∃ netlist, Requested given config command netlist
    · rcases asked with ⟨netlist, requested⟩
      rcases requested.exists_text with ⟨text, written⟩
      refine .inl ⟨netlist, text, requested, written, ?_⟩
      exact requested.delivers isGenerator written
        (fun path named => writable path netlist text named requested written) ran
    · have nothing := not_exists.mp asked
      exact .inr ⟨nothing, refuses_of_not_requested isGenerator nothing noFault ran⟩
  · intro otherWords otherArguments otherGiven other start otherParsed isOther otherLoads same
    rw [run_loaded otherParsed isOther otherLoads]
    exact same.exists_run isGenerator ran

end Runs

/-- An adder of one bit: the configuration's algorithm, which does not exist, is overridden, its
rails are taken over, and the text is in the file that is named. -/
theorem run_delivers_or_refuses_overridden :
    ∃ netlist text outcome after,
      Adder.Options.generate { width := 1, algorithm := .tree .koggeStone, powered := true }
        .inferred = .ok netlist ∧
      netlist.verilogText = .ok text ∧
      (run Machine.access ["--config", "c", "adder", "--bits=1", "--algorithm", "koggestone",
        "--output", "o", "--stats", "true"]).run
          (.ofFiles [("c", "[generator]\nalgorithm = \"fastest\"\npowered = true\n")]) =
        (outcome, after) ∧
      outcome.exitCode = 0 ∧ outcome.stdout = "" ∧ after.workingFiles.lookup "o" = some text := by
  let settings := "[generator]\nalgorithm = \"fastest\"\npowered = true\n"
  let machine := Machine.ofFiles [("c", settings)]
  let config : Config := { algorithm := some "fastest", powered := some true }
  let given : Given :=
    [("bits", "1"), ("algorithm", "koggestone"), ("output", "o"), ("stats", "true")]
  let words := ["--config", "c", "adder", "--bits=1", "--algorithm", "koggestone", "--output", "o",
    "--stats", "true"]
  have parsed : Arguments.parse words = .ok ⟨[("config", "c")], some (.adder, given)⟩ := by
    decide +kernel
  have walk : machine.walk "c" = .ok (.named Machine.workingFolder "c" false) ∧
      machine.walk "o" = .ok (.named Machine.workingFolder "o" false) := by
    have splits : "c".splitOn "/" = ["c"] ∧ "o".splitOn "/" = ["o"] := ⟨by cbv, by cbv⟩
    rw [Machine.walk, Machine.walk, splits.1, splits.2]
    decide +kernel
  have loads : Loads Machine.access ⟨[("config", "c")], some (.adder, given)⟩ machine config
      machine := by
    have isRead : machine.read "c" = .ok settings := by
      rw [Machine.read, walk.1]
      decide +kernel
    refine ⟨settings, ?_, by decide +kernel⟩
    change (machine.read "c", machine) = _
    rw [isRead]
  have writes (text : String) : (Machine.access.write "o" text).run machine =
      (.ok (), machine.writeFile ["tmp", "work", "o"] text) := by
    rw [Machine.run_write, machine.write_eq_ok walk.2 (by decide +kernel) (by decide +kernel)]
    rfl
  have generates : (Adder.Options.generate
      { width := 1, algorithm := .tree .koggeStone, powered := true } .inferred).toOption.isSome =
        true := by
    decide +kernel
  cases generated : Adder.Options.generate
      { width := 1, algorithm := .tree .koggeStone, powered := true } .inferred with
  | error error =>
      rw [generated] at generates
      cases generates
  | ok netlist =>
      have determined :
          Settings.Determined given config ⟨1, .tree .koggeStone, .generic, true, none⟩ :=
        ⟨(by decide : readCount "1" = .ok 1),
          (by decide : Adder.Algorithm.ofName "koggestone" = .ok (.tree .koggeStone)),
          rfl, rfl, rfl⟩
      have requested : Requested given config .adder netlist := .adder determined generated
      have writable (text : String) : ∀ path, given.find? "output" = some path →
          ((Machine.access.write path text).run machine).1 = .ok () := by
        rintro _ ⟨⟩
        rw [writes]
      rcases ran : (run Machine.access words).run machine with ⟨outcome, after⟩
      have noFault : outcome.exitCode ≠ 101 := by
        rcases requested.exists_text with ⟨text, written⟩
        rw [run_loaded parsed rfl loads] at ran
        rw [(requested.delivers (by decide) written (writable text) ran).1]
        decide
      rcases (run_delivers_or_refuses parsed rfl (by decide) loads ran noFault
        fun path _ text named _ _ => writable text path named).1 with
        ⟨shown, text, isShown, written, exitCode, stdout, wrote⟩ | ⟨nothing, _⟩
      · cases isShown.unique requested
        rw [writes] at wrote
        cases wrote
        exact ⟨netlist, text, outcome, _, rfl, written, rfl, exitCode, stdout, rfl⟩
      · exact absurd requested (nothing netlist)

end Cli

end Datapath
