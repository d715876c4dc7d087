import NnetText.Command
import NnetText.Proofs.Encoding
import NnetText.Proofs.Layering

/-!
# How the command ends

The command ends well or it does not, and a caller that reads its output should be able to tell
which from the status alone. `Command.outcome_of_invocation` says when the status is zero, what
stands on the output then, and what the last words are when it is not.

What is asked for on the command line is settled by positions. An argument is taken as a path if
it stands right behind a `--config` that is not taken as a path itself (`Command.IsPath`); this
says nothing about the order of reading, and the options are described by it
(`Options.AskedBy`): a flag counts wherever it is not taken as a path, and of the paths the last
one counts. Reading the arguments from left to right finds just these
(`Command.askedBy_parse`).

The rest is said without the command too. The preferences load if their document can be read and
decoded and fits them (`Command.Loads`, `Command.Unloads`), and the run is that of the standard
input if the model is a dash, and that of a file otherwise (`Command.Runs`).
-/

namespace NnetText.Command

/-! ### Positions on the command line -/

/-- **Whether the argument at a position is taken as a path**: it stands right behind a `--config`
that is not taken as a path itself. -/
def IsPath (arguments : List String) : Nat → Prop
  | 0 => False
  | i + 1 => arguments[i]? = some "--config" ∧ ¬IsPath arguments i

/-- A path stands at a position. -/
def PathAt (arguments : List String) (i : Nat) (path : String) : Prop :=
  arguments[i]? = some path ∧ IsPath arguments i

/-- **A flag is given**: it stands somewhere where it is not taken as a path. -/
def Given (arguments : List String) (flag : String) : Prop :=
  ∃ i, arguments[i]? = some flag ∧ ¬IsPath arguments i

/-- **The last of the paths.** -/
def LastPath (arguments : List String) (path : String) : Prop :=
  ∃ i, PathAt arguments i path ∧ ∀ j other, i < j → ¬PathAt arguments j other

/-- **The options that an argument list asks for.** -/
structure Options.AskedBy (options : Options) (arguments : List String) : Prop where
  json : options.json = true ↔ Given arguments "--json"
  quiet : options.quiet = true ↔ Given arguments "--quiet"
  preferences : ∀ path, options.preferences = some path ↔ LastPath arguments path

section Positions

variable {first path flag : String} {rest : List String}

/-- Behind an argument that is no `--config`, positions count from the next. -/
theorem isPath_cons (h : first ≠ "--config") (i : Nat) :
    IsPath (first :: rest) (i + 1) ↔ IsPath rest i := by
  induction i with
  | zero => simp [IsPath, h]
  | succ i ih => rw [IsPath, ih, IsPath, List.getElem?_cons_succ]

/-- Behind a path, positions count from the next argument, even if the path looks like an
option. -/
theorem isPath_config (i : Nat) :
    IsPath ("--config" :: path :: rest) (i + 2) ↔ IsPath rest i := by
  induction i with
  | zero => simp [IsPath]
  | succ i ih => rw [IsPath, ih, IsPath, List.getElem?_cons_succ, List.getElem?_cons_succ]

theorem pathAt_cons (h : first = "--config" → rest = []) (i : Nat) :
    PathAt (first :: rest) (i + 1) path ↔ PathAt rest i path := by
  rw [PathAt, PathAt, List.getElem?_cons_succ]
  by_cases hfirst : first = "--config"
  · simp [h hfirst]
  · rw [isPath_cons hfirst]

theorem not_pathAt_zero (arguments : List String) : ¬PathAt arguments 0 path := And.right

theorem lastPath_cons (h : first = "--config" → rest = []) :
    LastPath (first :: rest) path ↔ LastPath rest path := by
  constructor
  · rintro ⟨_ | i, hi, hlast⟩
    · exact absurd hi (not_pathAt_zero _)
    · refine ⟨i, (pathAt_cons h i).mp hi, fun j other hj hother => ?_⟩
      exact hlast (j + 1) other (by omega) ((pathAt_cons h j).mpr hother)
  · rintro ⟨i, hi, hlast⟩
    refine ⟨i + 1, (pathAt_cons h i).mpr hi, ?_⟩
    rintro (_ | j) other hj hother
    · omega
    · exact hlast j other (by omega) ((pathAt_cons h j).mp hother)

theorem pathless_cons (h : first = "--config" → rest = []) :
    (∀ i path, ¬PathAt (first :: rest) i path) ↔ ∀ i path, ¬PathAt rest i path := by
  constructor
  · intro hnone i path hi
    exact hnone (i + 1) path ((pathAt_cons h i).mpr hi)
  · rintro hnone (_ | i) path hi
    · exact absurd hi (not_pathAt_zero _)
    · exact hnone i path ((pathAt_cons h i).mp hi)

theorem pathAt_config {other : String} (i : Nat) :
    PathAt ("--config" :: path :: rest) (i + 2) other ↔ PathAt rest i other := by
  rw [PathAt, PathAt, List.getElem?_cons_succ, List.getElem?_cons_succ, isPath_config]

theorem pathAt_config_one : PathAt ("--config" :: path :: rest) 1 path := ⟨rfl, rfl, id⟩

/-- Of a path and those behind it, the last is behind it if there is any there. -/
theorem lastPath_config {other : String} :
    LastPath ("--config" :: path :: rest) other ↔
      LastPath rest other ∨ (∀ i last, ¬PathAt rest i last) ∧ path = other := by
  constructor
  · rintro ⟨_ | _ | i, hi, hlast⟩
    · exact absurd hi (not_pathAt_zero _)
    · refine Or.inr ⟨fun j last hj => ?_, Option.some.inj hi.1⟩
      exact hlast (j + 2) last (by omega) ((pathAt_config j).mpr hj)
    · refine Or.inl ⟨i, (pathAt_config i).mp hi, fun j last hj hother => ?_⟩
      exact hlast (j + 2) last (by omega) ((pathAt_config j).mpr hother)
  · rintro (⟨i, hi, hlast⟩ | ⟨hnone, rfl⟩)
    · refine ⟨i + 2, (pathAt_config i).mpr hi, ?_⟩
      rintro (_ | _ | j) last hj hother
      · omega
      · omega
      · exact hlast j last (by omega) ((pathAt_config j).mp hother)
    · refine ⟨1, pathAt_config_one, ?_⟩
      rintro (_ | _ | j) last hj hother
      · omega
      · omega
      · exact hnone j last ((pathAt_config j).mp hother)

theorem given_cons (h : first = "--config" → rest = []) :
    Given (first :: rest) flag ↔ first = flag ∨ Given rest flag := by
  rw [Given, ← Nat.or_exists_add_one]
  refine or_congr ?_ (exists_congr fun i => ?_)
  · simp [IsPath]
  · rw [List.getElem?_cons_succ]
    by_cases hfirst : first = "--config"
    · simp [h hfirst]
    · rw [isPath_cons hfirst]

/-- What is taken as a path is no flag. -/
theorem given_config (hflag : flag ≠ "--config") :
    Given ("--config" :: path :: rest) flag ↔ Given rest flag := by
  constructor
  · rintro ⟨_ | _ | i, hi, hpath⟩
    · exact absurd (Option.some.inj hi).symm hflag
    · exact absurd ⟨rfl, id⟩ hpath
    · exact ⟨i, hi, fun h => hpath ((isPath_config i).mpr h)⟩
  · rintro ⟨i, hi, hpath⟩
    exact ⟨i + 2, hi, fun h => hpath ((isPath_config i).mp h)⟩

theorem not_given_nil : ¬Given [] flag := by
  rintro ⟨i, hi, -⟩
  cases hi

theorem not_pathAt_nil (i : Nat) : ¬PathAt [] i path := by
  rintro ⟨hi, -⟩
  cases hi

end Positions

/-! ### What reading the arguments finds -/

/-- **Reading finds the flags that are given and the last path**, on top of what has been read
before. -/
theorem read_iff (options : Options) (arguments : List String) :
    ((Options.read options arguments).1.json = true ↔
      options.json = true ∨ Given arguments "--json") ∧
    ((Options.read options arguments).1.quiet = true ↔
      options.quiet = true ∨ Given arguments "--quiet") ∧
    ∀ path, (Options.read options arguments).1.preferences = some path ↔
      LastPath arguments path ∨
        (∀ i other, ¬PathAt arguments i other) ∧ options.preferences = some path := by
  fun_induction Options.read options arguments with
  | case1 options =>
    refine ⟨by simp [not_given_nil], by simp [not_given_nil], fun path => ?_⟩
    have hlast : ¬LastPath [] path := by
      rintro ⟨i, hi, -⟩
      exact not_pathAt_nil i hi
    simp [hlast, not_pathAt_nil]
  | case2 options path rest ih =>
    obtain ⟨hjson, hquiet, hpreferences⟩ := ih
    refine ⟨?_, ?_, fun other => ?_⟩
    · rw [hjson, given_config (by decide)]
    · rw [hquiet, given_config (by decide)]
    · have hsome : ¬∀ i other, ¬PathAt ("--config" :: path :: rest) i other :=
        fun h => h 1 path pathAt_config_one
      rw [hpreferences, lastPath_config]
      simp [hsome]
  | case3 options rest _ ih =>
    have hfirst : "--json" = "--config" → rest = [] := fun h => absurd h (by decide)
    simpa [given_cons hfirst, lastPath_cons hfirst, pathless_cons hfirst] using ih
  | case4 options rest _ _ ih =>
    have hfirst : "--quiet" = "--config" → rest = [] := fun h => absurd h (by decide)
    simpa [given_cons hfirst, lastPath_cons hfirst, pathless_cons hfirst] using ih
  | case5 options argument rest h hjson hquiet _ options' warnings heq ih =>
    -- a `--config` without a path behind it is passed over like anything unknown
    have hfirst : argument = "--config" → rest = [] := by
      intro hconfig
      rcases rest with _ | ⟨path, rest⟩
      · rfl
      · exact (h path rest hconfig rfl).elim
    rw [heq] at ih
    simpa [given_cons hfirst, lastPath_cons hfirst, pathless_cons hfirst, hjson, hquiet] using ih

/-- **The options read are those asked for.** -/
theorem askedBy_parse (arguments : List String) :
    (Options.parse arguments).1.AskedBy arguments := by
  obtain ⟨hjson, hquiet, hpreferences⟩ := read_iff {} arguments
  refine ⟨?_, ?_, fun path => ?_⟩
  · rw [Options.parse, hjson]
    simp
  · rw [Options.parse, hquiet]
    simp
  · rw [Options.parse, hpreferences]
    simp

/-! ### What is printed -/

/-- The text of some lines, each with its line feed. -/
def printed (lines : List String) : String := String.join (lines.map (· ++ "\n"))

theorem printed_append (as bs : List String) : printed (as ++ bs) = printed as ++ printed bs := by
  simp [printed, String.join_append]

/-- The last words of a failure, as they are printed. -/
theorem printed_failure (message : String) (code : Code) :
    printed (failure message code) =
      "\nFAILED: " ++ message ++ "\n  Code: " ++ code.text ++ "\n" := by
  refine String.toList_inj.mp ?_
  simp [printed, failure]

/-! ### Why the command fails -/

variable {limits : Limits} {model : String} {options : Options} {s : Surroundings}

/-- **The preferences load**: either no document is named, or it can be read and decoded, and fits
the preferences. -/
def Loads (options : Options) (s : Surroundings) : Prop :=
  ∀ path, options.preferences = some path → ∃ text entries,
    (s.lookup path).text = .ok text ∧ s.decoder.decode text = .ok entries ∧
      FitsPreferences entries

/-- **Why the preferences do not load**, with the words for it: the document cannot be read, or it
cannot be decoded, or it does not fit. The words for the last two are the decoder's. -/
inductive Unloads (options : Options) (s : Surroundings) : String → Prop
  | unreadable {path reason : String} (h : options.preferences = some path)
      (error : (s.lookup path).text = .error reason) :
      Unloads options s ("Failed to read configuration file '" ++ path ++ "': " ++ reason)
  | undecodable {path reason : String} {text : List Char} (h : options.preferences = some path)
      (found : (s.lookup path).text = .ok text) (error : s.decoder.decode text = .error reason) :
      Unloads options s ("Invalid TOML in configuration file: " ++ reason)
  | unfit {path : String} {text : List Char} {entries : Toml.Entries}
      (h : options.preferences = some path) (found : (s.lookup path).text = .ok text)
      (decoded : s.decoder.decode text = .ok entries) (misfit : ¬FitsPreferences entries) :
      Unloads options s ("Invalid TOML in configuration file: " ++ s.decoder.misfit text)

theorem Unloads.not_loads {words : String} (h : Unloads options s words) : ¬Loads options s := by
  intro hloads
  cases h with
  | unreadable hpath herror =>
    obtain ⟨text, entries, hfound, -⟩ := hloads _ hpath
    cases hfound.symm.trans herror
  | undecodable hpath hfound herror =>
    obtain ⟨text, entries, hfound', hdecoded, -⟩ := hloads _ hpath
    obtain rfl := Except.ok.inj (hfound.symm.trans hfound')
    cases hdecoded.symm.trans herror
  | unfit hpath hfound hdecoded hmisfit =>
    obtain ⟨text, entries, hfound', hdecoded', hfits⟩ := hloads _ hpath
    obtain rfl := Except.ok.inj (hfound.symm.trans hfound')
    obtain rfl := Except.ok.inj (hdecoded.symm.trans hdecoded')
    exact hmisfit hfits

/-- **The run for a model**: a dash stands for the standard input, and all else for a file. -/
inductive Runs (limits : Limits) (s : Surroundings) : String → Run → Prop
  | input : Runs limits s "-" (Run.ofStream limits s.input)
  | file {path : String} (h : path ≠ "-") :
      Runs limits s path (Run.ofFile limits path (s.lookup path))

theorem runs_iff {r : Run} : Runs limits s model r ↔ r = run limits model s := by
  rw [run]
  constructor
  · intro h
    cases h with
    | input => rw [if_pos rfl]
    | file hpath => rw [if_neg hpath]
  · rintro rfl
    split
    · rename_i hdash
      exact hdash ▸ .input
    · rename_i hpath
      exact .file hpath

/-- **Why the command fails**, with the words and the code it fails with: the preferences do not
load, the log cannot be set up, or the model is not converted. -/
inductive Fails (limits : Limits) (model : String) (options : Options) (s : Surroundings) :
    String → Code → Prop
  | preferences {words : String} (h : Unloads options s words) :
      Fails limits model options s words .configurationError
  | setup {e : SetupError} (loads : Loads options s) (h : Setup.bufferFault? limits = some e) :
      Fails limits model options s e.message e.code
  | run {r : Run} {e : ConversionError} (loads : Loads options s)
      (ready : Setup.bufferFault? limits = none) (runs : Runs limits s model r)
      (h : r.outcome = .error e) : Fails limits model options s e.message e.code

theorem Fails.not_succeeds {message : String} {code : Code}
    (h : Fails limits model options s message code) (ready : Setup.bufferFault? limits = none) :
    ¬(Loads options s ∧ ∃ r c, Runs limits s model r ∧ r.conversion = .ok c) := by
  rintro ⟨hloads, r, c, hr, hc⟩
  cases h with
  | preferences hunloads => exact hunloads.not_loads hloads
  | setup _ hfault => cases ready.symm.trans hfault
  | run _ _ hruns herror =>
    rw [runs_iff.mp hr, ← runs_iff.mp hruns, Run.conversion, herror] at hc
    cases hc

/-- A document that is named is loaded, or there are words for why not. -/
theorem ofFile_cases {path : String} (hpath : options.preferences = some path) :
    (Loads options s ∧
      ∃ p, Preferences.ofFile s.decoder s.environment path (s.lookup path) = .ok p) ∨
    ∃ e, Preferences.ofFile s.decoder s.environment path (s.lookup path) = .error e ∧
      Unloads options s e.message := by
  rw [Preferences.ofFile]
  cases hfound : (s.lookup path).text with
  | error reason => exact Or.inr ⟨_, rfl, .unreadable hpath hfound⟩
  | ok text =>
    dsimp only
    rw [Preferences.ofDocument]
    cases hdecoded : s.decoder.decode text with
    | error reason => exact Or.inr ⟨_, rfl, .undecodable hpath hfound hdecoded⟩
    | ok entries =>
      dsimp only
      cases hentries : Preferences.ofEntries? s.environment entries with
      | none =>
        refine Or.inr ⟨_, rfl, .unfit hpath hfound hdecoded fun hfits => ?_⟩
        obtain ⟨p, hp⟩ := (Preferences.exists_ofEntries?_iff s.environment).mpr hfits
        cases hentries.symm.trans hp
      | some p =>
        refine Or.inl ⟨fun path' hpath' => ?_, p, rfl⟩
        obtain rfl := Option.some.inj (hpath.symm.trans hpath')
        exact ⟨text, entries, hfound, hdecoded,
          (Preferences.exists_ofEntries?_iff s.environment).mp ⟨p, hentries⟩⟩

theorem preferences_cases (options : Options) (s : Surroundings) :
    (Loads options s ∧ ∃ p, preferences options s = .ok p) ∨
    ∃ e, preferences options s = .error e ∧ Unloads options s e.message := by
  rw [preferences]
  cases hpath : options.preferences with
  | none =>
    refine Or.inl ⟨fun path h => ?_, _, rfl⟩
    cases hpath.symm.trans h
  | some path =>
    dsimp only
    rcases ofFile_cases hpath with ⟨hloads, p, hp⟩ | ⟨e, he, hunloads⟩
    · rw [hp]
      exact Or.inl ⟨hloads, _, rfl⟩
    · rw [he]
      exact Or.inr ⟨e, rfl, hunloads⟩

/-- The log is set up unless its room is unfit. -/
theorem snd_start (limits : Limits) : (Setup.start limits).2 = Setup.bufferFault? limits := by
  have hregistered : Setup.unregistered.isEmpty = true := by decide
  rw [Setup.start, Setup.install]
  rcases Setup.bufferFault? limits with _ | fault
  · simp [Setup.modelFiles, hregistered]
  · rfl

/-- **What comes of an invocation**: the command fails, with last words that name the cause, or
it ends well and prints its result. -/
theorem outcome_cases (limits : Limits) (program : String) (timing : Timing) (timestamp : String)
    {model : String} (hmodel : model ≠ "--help") (rest : List String) (s : Surroundings) :
    (∃ message code told, Fails limits model (Options.parse rest).1 s message code ∧
      (plan limits (model :: rest) s).outcome limits program timing timestamp =
        ⟨1, [], told ++ failure message code⟩) ∨
    ∃ c told, Loads (Options.parse rest).1 s ∧ Setup.bufferFault? limits = none ∧
      (run limits model s).conversion = .ok c ∧
      (plan limits (model :: rest) s).outcome limits program timing timestamp =
        ⟨0, result model (Options.parse rest).1 timing.total c, told⟩ := by
  rw [plan, if_neg hmodel]
  rcases Options.parse rest with ⟨options, warnings⟩
  dsimp only
  rcases preferences_cases options s with ⟨hloads, p, hp⟩ | ⟨e, he, hunloads⟩
  · rw [hp]
    have hstart := snd_start limits
    rcases hsetup : Setup.start limits with ⟨ready, _ | e⟩
    · rw [hsetup] at hstart
      let told := warnings.map Warning.message ++
        log p.log timestamp (ready ++ (run limits model s).events p timing)
      rcases hrun : (run limits model s).outcome with e | components
      · have hconversion : (run limits model s).conversion = .error e := by
          rw [Run.conversion, hrun]
          rfl
        refine Or.inl ⟨e.message, e.code, told, .run hloads hstart.symm (runs_iff.mpr rfl) hrun, ?_⟩
        simp only [Plan.outcome, hsetup, hconversion, told]
      · have hconversion : (run limits model s).conversion =
            .ok ⟨components, (run limits model s).file⟩ := by
          rw [Run.conversion, hrun]
          rfl
        refine Or.inr ⟨_, told, hloads, hstart.symm, hconversion, ?_⟩
        simp only [Plan.outcome, hsetup, hconversion, told]
    · rw [hsetup] at hstart
      refine Or.inl ⟨e.message, e.code, warnings.map Warning.message ++ log p.log timestamp ready,
        .setup hloads hstart.symm, ?_⟩
      simp only [Plan.outcome, hsetup]
  · rw [he]
    exact Or.inl ⟨e.message, e.code, _, .preferences hunloads, rfl⟩

/-- **How the command ends**, whatever its arguments, as long as the first does not ask for help.
Where the log has fitting room, the status is zero exactly if the preferences load and the run of
the standard input or of the file converts the model. With a status of zero and `--json`, the output
is the document of the converted model and a line feed. With any other status, which is one, there
is no output, and the last words name the cause. -/
theorem outcome_of_invocation (limits : Limits) (program : String) (timing : Timing)
    (timestamp : String) (model : String) (rest : List String) (s : Surroundings)
    (hmodel : model ≠ "--help") :
    let outcome := (plan limits (model :: rest) s).outcome limits program timing timestamp
    ∃ options : Options, options.AskedBy rest ∧
      (Setup.bufferFault? limits = none → (outcome.status = 0 ↔
        Loads options s ∧ ∃ r c, Runs limits s model r ∧ r.conversion = .ok c)) ∧
      (Setup.bufferFault? limits ≠ none → outcome.status = 1) ∧
      (outcome.status = 0 → options.json = true →
        ∃ r c, Runs limits s model r ∧ r.conversion = .ok c ∧
          printed outcome.output = c.json.pretty ++ "\n") ∧
      (outcome.status ≠ 0 → outcome.status = 1 ∧ printed outcome.output = "" ∧
        ∃ message code told, Fails limits model options s message code ∧
          printed outcome.errors =
            told ++ ("\nFAILED: " ++ message ++ "\n  Code: " ++ code.text ++ "\n")) := by
  intro outcome
  refine ⟨(Options.parse rest).1, askedBy_parse rest, ?_⟩
  rcases outcome_cases limits program timing timestamp hmodel rest s with
    ⟨message, code, told, hfails, houtcome⟩ | ⟨c, told, hloads, hready, hconversion, houtcome⟩
  · have hstatus : outcome.status = 1 := congrArg Outcome.status houtcome
    refine ⟨fun hready => ⟨fun h => ?_, fun h => ?_⟩, fun _ => hstatus, fun h => ?_,
      fun _ => ⟨hstatus, ?_, ?_⟩⟩
    · omega
    · exact absurd h (hfails.not_succeeds hready)
    · omega
    · rw [show outcome = _ from houtcome]
      rfl
    · refine ⟨message, code, printed told, hfails, ?_⟩
      rw [show outcome = _ from houtcome, ← printed_failure, ← printed_append]
  · have hstatus : outcome.status = 0 := congrArg Outcome.status houtcome
    have hruns : Runs limits s model (run limits model s) := runs_iff.mpr rfl
    refine ⟨fun _ => ⟨fun _ => ⟨hloads, _, c, hruns, hconversion⟩, fun _ => hstatus⟩,
      fun h => absurd hready h, fun _ hjson => ?_, fun h => absurd hstatus h⟩
    refine ⟨_, c, hruns, hconversion, ?_⟩
    rw [show outcome = _ from houtcome, result, if_pos hjson]
    simp [printed]

/-- A model on the standard input, and a document without any preferences at every path. -/
def quietFile : Surroundings where
  environment := fun _ => none
  input := (encodeUtf8 "<ComponentName> a <NoOpComponent> </NoOpComponent>\n".toList).map .ok
  lookup := fun path => .file ⟨path, 1, none, .ok (encodeUtf8 ['\n'])⟩
  decoder := Toml.decoder

/-- A path that looks like an option, an option that is none, and a flag behind them. -/
theorem outcome_of_invocation_swallowedFlag :
    let outcome := (plan .standard ["-", "--config", "--quiet", "--odd", "--json"]
      quietFile).outcome .standard "nnet" .zero ""
    "-" ≠ "--help" ∧ outcome.status = 0 ∧
      ∃ options : Options, options.AskedBy ["--config", "--quiet", "--odd", "--json"] ∧
        options.json = true ∧ Loads options quietFile ∧
        ∃ r c, Runs .standard quietFile "-" r ∧ r.conversion = .ok c ∧
          printed outcome.output = c.json.pretty ++ "\n" := by
  intro outcome
  have hmodel : "-" ≠ "--help" := by decide
  have hstatus : outcome.status = 0 := by decide +kernel
  have hgiven : Given ["--config", "--quiet", "--odd", "--json"] "--json" :=
    ⟨3, rfl, by simp [IsPath]⟩
  obtain ⟨options, hasked, hzero, -, hjson, -⟩ := outcome_of_invocation .standard "nnet" .zero ""
    "-" ["--config", "--quiet", "--odd", "--json"] quietFile hmodel
  have hoption := hasked.json.mpr hgiven
  have hloads := ((hzero rfl).mp hstatus).1
  exact ⟨hmodel, hstatus, options, hasked, hoption, hloads, hjson hstatus hoption⟩

end NnetText.Command
