import MiniTemplate.Command.Run
import MiniTemplate.Proofs.ReportShape
import MiniTemplate.Proofs.SettingsFile
import MiniTemplate.Yaml.Read

/-!
# How runs end

A run whose command line is understood ends with one of the exit codes 0, 1 and 2, or with a failure
that is not caught. Which failures these are can be said of what surrounds the run, without the run
itself: `MiniTemplate.Command.Lost` has a case for each of them. All but one are of the machine, of
the loader or of standard output. The one that is not is a file of settings of which nothing is told
(`MiniTemplate.Settings.Untold`), and it remains where everything else does what it is asked for
(`MiniTemplate.Command.Surroundings.Obliging`).

Behind the settings and the source nothing else can go wrong: every template can be read, and every
report has the shape of reports.

The machine, the loader, the values that can be shown and the texts that can be written are
arbitrary here. The stack that a deep template needs is left out, as it is in the run.

## Main statements

* `MiniTemplate.Command.ending_run`: when a run ends with a failure that is not caught, what it
  ends with if the settings cannot be used, and that it ends with an exit code otherwise.
-/

namespace MiniTemplate

open Yaml (Value)

/-- A file that is there, and is read. -/
def Host.Holds (host : Host) (path : String) (bytes : List UInt8) : Prop :=
  host.isFile path = .ok true ∧ host.bytes path = .ok bytes

namespace Command

open Settings (LoadFailure Denotes Sound Untold)

variable {s : Surroundings} {i : Invocation} {settings : Settings} {log : List String}
  {bytes : List UInt8} {path source text : String} {failure : HostFailure}

/-! ### Runs that are lost -/

/-- The text of a source. -/
inductive HasText (s : Surroundings) (source : String) : String → Prop
  /-- It is typed in. -/
  | typed {text : String} (hsource : source = "-") (htyped : s.input = .ok text) :
    HasText s source (String.ofList (Text.unifyNewlines text.toList))
  /-- It is what a file holds. -/
  | file {bytes : List UInt8} {text : String} (hsource : source ≠ "-")
    (hfile : s.host.Holds (Path.normalize source) bytes) (htext : Encodes bytes text) :
    HasText s source text

/-- A source that the machine does not answer for. -/
inductive Refused (s : Surroundings) (source : String) : Prop
  /-- It does not give what is typed in. -/
  | typed {failure : HostFailure} (hsource : source = "-") (htyped : s.input = .error failure)
  /-- It does not say whether the file is there. -/
  | test {failure : HostFailure} (hsource : source ≠ "-")
    (htest : s.host.isFile (Path.normalize source) = .error failure)

/-- The path of the file that settings are looked for in: the one that is named, or the usual one
in the working directory. -/
def Invocation.settingsPath (i : Invocation) (s : Surroundings) : Except HostFailure String :=
  match i.config with
  | some path => .ok path
  | none => s.host.directory.map fun directory => Path.join directory Settings.fileName

/-- **The settings of a run.** -/
inductive Obtains (s : Surroundings) (i : Invocation) : Settings → Prop
  /-- They are in the file. -/
  | file {path : String} {bytes : List UInt8} {settings : Settings}
    (hpath : i.settingsPath s = .ok path) (hfile : s.host.Holds path bytes)
    (hbytes : Settings.ofBytes s.loader path bytes = .ok settings) : Obtains s i settings
  /-- There is no file, and none is named. -/
  | standard {path : String} (hconfig : i.config = none) (hpath : i.settingsPath s = .ok path)
    (htest : s.host.isFile path = .ok false) : Obtains s i .standard

/-- What a run writes to standard output, if it gets so far. -/
def resultText (s : Surroundings) (settings : Settings) (t : Template) : Action → String
  | .parse indent =>
    (Report.draft (toolVersion s.installed) t.forest t.errors t.warnings).write indent
  | .convert _ => Vue.convert settings.target t.forest ++ "\n"
  | .annotate => Markup.write settings.indentSize (t.forest.annotate settings.ref) ++ "\n"

/-- **A run that is lost**, since there is a failure that nothing is told of. -/
inductive Lost (s : Surroundings) (i : Invocation) : Prop
  /-- The machine does not know where the settings are. -/
  | directory {failure : HostFailure} (hpath : i.settingsPath s = .error failure)
  /-- It does not say whether they are there. -/
  | test {path : String} {failure : HostFailure} (hpath : i.settingsPath s = .ok path)
    (htest : s.host.isFile path = .error failure)
  /-- It does not read them. -/
  | read {path : String} {failure : HostFailure} (hpath : i.settingsPath s = .ok path)
    (htest : s.host.isFile path = .ok true) (hread : s.host.bytes path = .error failure)
  /-- Nothing is told of what they are. -/
  | settings {path : String} {bytes : List UInt8} (hpath : i.settingsPath s = .ok path)
    (hfile : s.host.Holds path bytes) (huntold : Untold s.loader s.fits bytes)
  /-- The machine does not answer for the source. -/
  | source {settings : Settings} (hsettings : Obtains s i settings) (hrefused : Refused s i.source)
  /-- Standard output does not take the result. -/
  | output {settings : Settings} {text : String} (hsettings : Obtains s i settings)
    (htext : HasText s i.source text)
    (htakes : s.takes (resultText s settings (Template.read settings.maxDepth text) i.action) =
      false)

/-! ### Endings -/

/-- An ending with one of the exit codes. -/
def Ending.Exits (e : Ending) : Prop :=
  ∃ code output errors, code ≤ 2 ∧ e = .exit code output errors

theorem Ending.Exits.ne_escaped {e : Ending} (h : e.Exits) (failure : Uncaught) :
    e ≠ .escaped failure := by
  obtain ⟨code, output, errors, -, rfl⟩ := h
  simp

theorem exits_userFailure (errors message : String) : (userFailure errors message).Exits :=
  ⟨2, "", _, Nat.le_refl 2, rfl⟩

/-! ### The source -/

theorem readSource_of_hasText (h : HasText s source text) : readSource s source = .ok text := by
  cases h with
  | typed hsource htyped => rw [readSource, if_pos hsource, htyped]
  | file hsource hfile htext =>
    rw [readSource, if_neg hsource, readFile, hfile.1, hfile.2]
    exact Settings.mapError_eq_ok_iff.mpr (decodeText_eq_ok_iff.mpr htext)

theorem exists_readSource_of_refused (h : Refused s source) :
    ∃ failure, readSource s source = .error (.refused failure) := by
  cases h with
  | typed hsource htyped => exact ⟨_, by rw [readSource, if_pos hsource, htyped]⟩
  | test hsource htest => exact ⟨_, by rw [readSource, if_neg hsource, readFile, htest]⟩

/-- **A source has a text, or it is refused, or there is a message.** -/
theorem readSource_cases (s : Surroundings) (source : String) :
    (∃ text, HasText s source text) ∨ Refused s source ∨
      ∃ failure message, readSource s source = .error failure ∧
        failure.message? = some message := by
  by_cases hsource : source = "-"
  · cases htyped : s.input with
    | ok text => exact Or.inl ⟨_, .typed hsource htyped⟩
    | error failure => exact Or.inr (Or.inl (.typed hsource htyped))
  cases htest : s.host.isFile (Path.normalize source) with
  | error failure => exact Or.inr (Or.inl (.test hsource htest))
  | ok there =>
    cases there with
    | false =>
      refine Or.inr (Or.inr ⟨.notFound (Path.normalize source), _, ?_, rfl⟩)
      rw [readSource, if_neg hsource, readFile, htest]
    | true =>
      cases hread : s.host.bytes (Path.normalize source) with
      | error failure =>
        refine Or.inr (Or.inr ⟨.unreadable (Path.normalize source) failure, _, ?_, rfl⟩)
        rw [readSource, if_neg hsource, readFile, htest]
        dsimp only
        rw [hread]
      | ok bytes =>
        cases hdecode : decodeText bytes with
        | ok text =>
          exact Or.inl ⟨text, .file hsource ⟨htest, hread⟩ (decodeText_eq_ok_iff.mp hdecode)⟩
        | error failure =>
          refine Or.inr (Or.inr ⟨.undecodable (Path.normalize source) failure, _, ?_, rfl⟩)
          rw [readSource, if_neg hsource, readFile, htest]
          dsimp only
          rw [hread]
          exact Settings.mapError_eq_error_iff.mpr ⟨failure, hdecode, rfl⟩

/-! ### Behind the settings -/

theorem exists_act_eq (s : Surroundings) (log : Bool) (settings : Settings) (t : Template)
    (errors : String) (action : Action) :
    ∃ code errors', code ≤ 2 ∧ s.act log settings t errors action =
      s.conclude code (resultText s settings t action) errors' := by
  cases action with
  | parse indent =>
    refine ⟨0, errors, Nat.zero_le 2, ?_⟩
    rw [Surroundings.act, Report.ofTemplate_eq_draft, resultText]
  | convert strict =>
    refine ⟨_, _, ?_, rfl⟩
    split
    · exact Nat.le_succ 1
    · exact Nat.zero_le 2
  | annotate => exact ⟨0, _, Nat.zero_le 2, rfl⟩

namespace Invocation

/-- What is left of a run when the settings are loaded. -/
def proceed (i : Invocation) (s : Surroundings) (settings : Settings) (errors : String) : Ending :=
  match readSource s i.source with
  | .error failure => failed errors (.source failure) failure.message?
  | .ok text =>
    let t := Template.read settings.maxDepth text
    s.act (i.verbose || s.debug) settings t
      (errors ++ logText (i.verbose || s.debug) [readingNote t]) i.action

theorem proceed_of_refused (h : Refused s i.source) (errors : String) :
    ∃ failure, i.proceed s settings errors = .escaped failure := by
  obtain ⟨failure, hsource⟩ := exists_readSource_of_refused h
  exact ⟨.source (.refused failure), by rw [proceed, hsource]; rfl⟩

/-- With the text of the source at hand, all depends on standard output. -/
theorem exists_proceed_eq (settings : Settings) (htext : HasText s i.source text)
    (errors : String) :
    ∃ code errors', code ≤ 2 ∧ i.proceed s settings errors = s.conclude code
      (resultText s settings (Template.read settings.maxDepth text) i.action) errors' := by
  rw [proceed, readSource_of_hasText htext]
  exact exists_act_eq _ _ _ _ _ _

theorem proceed_of_not_takes (htext : HasText s i.source text)
    (h : s.takes (resultText s settings (Template.read settings.maxDepth text) i.action) = false)
    (errors : String) : i.proceed s settings errors = .escaped .output := by
  obtain ⟨code, errors', -, hproceed⟩ := exists_proceed_eq settings htext errors
  exact hproceed.trans (if_neg (by simp [h]))

theorem exits_proceed (hsettings : Obtains s i settings) (hlost : ¬Lost s i) (errors : String) :
    (i.proceed s settings errors).Exits := by
  rcases readSource_cases s i.source with
    ⟨text, htext⟩ | hrefused | ⟨failure, message, hsource, hmessage⟩
  · obtain ⟨code, errors', hcode, hproceed⟩ := exists_proceed_eq settings htext errors
    have htakes : s.takes
        (resultText s settings (Template.read settings.maxDepth text) i.action) := by
      by_contra hnot
      exact hlost (.output hsettings htext (by simpa using hnot))
    exact ⟨code, _, errors', hcode, hproceed.trans (if_pos htakes)⟩
  · exact absurd (.source hsettings hrefused) hlost
  · rw [proceed, hsource]
    simp only [hmessage, failed]
    exact exits_userFailure errors message

/-! ### Loading the settings -/

/-- Where a run looks for its settings. -/
def location (i : Invocation) : Settings.Location :=
  match i.config with
  | some path => .file path
  | none => .here

/-- What a run does without the file. -/
def missing (i : Invocation) (path : String) : Except LoadFailure Settings :=
  if i.config.isSome then .error (.notFound path) else .ok .standard

/-- **The settings are loaded from the file of this path**, and without it they are missing. -/
theorem exists_load_eq (hpath : i.settingsPath s = .ok path) :
    ∃ log, Settings.load s.host s.loader i.location =
      Settings.loadFile s.host s.loader ⟨log, i.missing path⟩ path := by
  unfold settingsPath at hpath
  split at hpath
  · rename_i hconfig
    obtain rfl := Except.ok.inj hpath
    refine ⟨[], ?_⟩
    simp [location, missing, hconfig, Settings.load]
  · rename_i hconfig
    cases hdirectory : s.host.directory with
    | error failure => exact absurd hpath (by simp [hdirectory, Except.map])
    | ok directory =>
      rw [hdirectory] at hpath
      obtain rfl := Except.ok.inj hpath
      have hload : Settings.load s.host s.loader i.location =
          Settings.loadDirectory s.host s.loader directory := by
        simp only [location, hconfig, Settings.load, hdirectory]
      rw [missing, hconfig]
      exact ⟨_, hload⟩

theorem load_of_directory (hpath : i.settingsPath s = .error failure) :
    Settings.load s.host s.loader i.location = .refused failure := by
  unfold settingsPath at hpath
  split at hpath
  · exact absurd hpath (by simp)
  · rename_i hconfig
    cases hdirectory : s.host.directory with
    | error failure' =>
      rw [hdirectory] at hpath
      obtain rfl := Except.error.inj hpath
      simp [location, hconfig, Settings.load, hdirectory]
    | ok directory => exact absurd hpath (by simp [hdirectory, Except.map])

theorem load_of_test (hpath : i.settingsPath s = .ok path)
    (htest : s.host.isFile path = .error failure) :
    Settings.load s.host s.loader i.location = .refused failure := by
  obtain ⟨log, hload⟩ := exists_load_eq hpath
  rw [hload, Settings.loadFile, htest]

theorem load_of_read (hpath : i.settingsPath s = .ok path) (htest : s.host.isFile path = .ok true)
    (hread : s.host.bytes path = .error failure) :
    Settings.load s.host s.loader i.location =
      ⟨["Loading config from " ++ path], .error (.refused failure)⟩ := by
  obtain ⟨log, hload⟩ := exists_load_eq hpath
  rw [hload, Settings.loadFile, htest]
  dsimp only
  rw [hread]

theorem load_of_holds (hpath : i.settingsPath s = .ok path) (hfile : s.host.Holds path bytes) :
    Settings.load s.host s.loader i.location =
      ⟨["Loading config from " ++ path], Settings.ofBytes s.loader path bytes⟩ := by
  obtain ⟨log, hload⟩ := exists_load_eq hpath
  rw [hload, Settings.loadFile, hfile.1]
  dsimp only
  rw [hfile.2]

theorem exists_load_of_missing (hpath : i.settingsPath s = .ok path)
    (htest : s.host.isFile path = .ok false) :
    ∃ log, Settings.load s.host s.loader i.location = ⟨log, i.missing path⟩ := by
  obtain ⟨log, hload⟩ := exists_load_eq hpath
  exact ⟨log, by rw [hload, Settings.loadFile, htest]⟩

/-- A file that is named has to be there. -/
theorem load_of_named (hconfig : i.config = some path) (htest : s.host.isFile path = .ok false) :
    Settings.load s.host s.loader i.location = ⟨[], .error (.notFound path)⟩ := by
  simp only [location, hconfig, Settings.load, Settings.loadFile, htest]

theorem exists_load_of_obtains (h : Obtains s i settings) :
    ∃ log, Settings.load s.host s.loader i.location = ⟨log, .ok settings⟩ := by
  cases h with
  | file hpath hfile hbytes => exact ⟨_, by rw [load_of_holds hpath hfile, hbytes]⟩
  | standard hconfig hpath htest =>
    obtain ⟨log, hload⟩ := exists_load_of_missing hpath htest
    exact ⟨log, by rw [hload, missing, hconfig]; rfl⟩

/-! ### What a run does with them -/

/-- What is left of a run when its settings are loaded, or not. -/
def afterLoading (i : Invocation) (s : Surroundings) (loading : Settings.Loading) : Ending :=
  let errors := logText (i.verbose || s.debug) loading.log
  match loading.result with
  | .error failure => failed errors (.settings failure) (failure.message? s.fits)
  | .ok settings => i.proceed s settings errors

theorem run_eq (i : Invocation) (s : Surroundings) :
    i.run s = i.afterLoading s (Settings.load s.host s.loader i.location) := rfl

theorem run_of_told {failure : LoadFailure} {message : String}
    (h : Settings.load s.host s.loader i.location = ⟨log, .error failure⟩)
    (hmessage : failure.message? s.fits = some message) :
    i.run s = userFailure (logText (i.verbose || s.debug) log) message := by
  rw [run_eq, h]
  simp only [afterLoading, hmessage, failed]

theorem run_of_untold {failure : LoadFailure}
    (h : Settings.load s.host s.loader i.location = ⟨log, .error failure⟩)
    (hmessage : failure.message? s.fits = none) : i.run s = .escaped (.settings failure) := by
  rw [run_eq, h]
  simp only [afterLoading, hmessage, failed]

theorem exists_run_eq_proceed (h : Obtains s i settings) :
    ∃ errors, i.run s = i.proceed s settings errors := by
  obtain ⟨log, hload⟩ := exists_load_of_obtains h
  refine ⟨logText (i.verbose || s.debug) log, ?_⟩
  rw [run_eq, hload]
  rfl

theorem exits_run_of_obtains (h : Obtains s i settings) (hlost : ¬Lost s i) : (i.run s).Exits := by
  obtain ⟨errors, hrun⟩ := exists_run_eq_proceed h
  rw [hrun]
  exact exits_proceed h hlost errors

/-- What is wrong with the settings is reported, if anything is told of it. -/
theorem exists_userFailure (hpath : i.settingsPath s = .ok path) (hfile : s.host.Holds path bytes)
    (hsound : ¬Sound s.loader bytes) (huntold : ¬Untold s.loader s.fits bytes) :
    ∃ message : String, path.toList <:+: message.toList ∧
      i.run s = userFailure (logText (i.verbose || s.debug)
        ["Loading config from " ++ path]) message := by
  have hload := load_of_holds hpath hfile
  cases hbytes : Settings.ofBytes s.loader path bytes with
  | ok settings => exact absurd (Settings.exists_ofBytes_iff.mp ⟨settings, hbytes⟩) hsound
  | error failure =>
    cases hmessage : failure.message? s.fits with
    | none =>
      exact absurd (Settings.exists_message?_eq_none_iff.mp ⟨failure, hbytes, hmessage⟩) huntold
    | some message =>
      rw [hbytes] at hload
      exact ⟨message, Settings.path_infix_message hbytes hmessage, run_of_told hload hmessage⟩

/-- **A run that is not lost ends with an exit code.** -/
theorem exits_run (hlost : ¬Lost s i) : (i.run s).Exits := by
  cases hpath : i.settingsPath s with
  | error failure => exact absurd (.directory hpath) hlost
  | ok path =>
    cases htest : s.host.isFile path with
    | error failure => exact absurd (.test hpath htest) hlost
    | ok there =>
      cases there with
      | false =>
        cases hconfig : i.config with
        | none => exact exits_run_of_obtains (.standard hconfig hpath htest) hlost
        | some named =>
          obtain ⟨log, hload⟩ := exists_load_of_missing hpath htest
          rw [missing, hconfig, Option.isSome_some, if_pos rfl] at hload
          rw [run_of_told hload rfl]
          exact exits_userFailure _ _
      | true =>
        cases hread : s.host.bytes path with
        | error failure => exact absurd (.read hpath htest hread) hlost
        | ok bytes =>
          have hfile : s.host.Holds path bytes := ⟨htest, hread⟩
          by_cases hsound : Sound s.loader bytes
          · obtain ⟨settings, hbytes⟩ := Settings.exists_ofBytes_iff.mpr hsound
            exact exits_run_of_obtains (.file hpath hfile hbytes) hlost
          · obtain ⟨message, -, hrun⟩ := exists_userFailure hpath hfile hsound fun huntold =>
              hlost (.settings hpath hfile huntold)
            rw [hrun]
            exact exits_userFailure _ _

/-- **A run that is lost ends with a failure that is not caught.** -/
theorem exists_escaped (h : Lost s i) : ∃ failure, i.run s = .escaped failure := by
  cases h with
  | directory hpath => exact ⟨_, run_of_untold (load_of_directory hpath) rfl⟩
  | test hpath htest => exact ⟨_, run_of_untold (load_of_test hpath htest) rfl⟩
  | read hpath htest hread => exact ⟨_, run_of_untold (load_of_read hpath htest hread) rfl⟩
  | settings hpath hfile huntold =>
    obtain ⟨failure, hbytes, hmessage⟩ := Settings.exists_message?_eq_none_iff.mpr huntold
    have hload := load_of_holds hpath hfile
    rw [hbytes] at hload
    exact ⟨_, run_of_untold hload hmessage⟩
  | source hsettings hrefused =>
    obtain ⟨errors, hrun⟩ := exists_run_eq_proceed hsettings
    obtain ⟨failure, hfailure⟩ := proceed_of_refused hrefused errors
    exact ⟨failure, hrun.trans hfailure⟩
  | output hsettings htext htakes =>
    obtain ⟨errors, hrun⟩ := exists_run_eq_proceed hsettings
    exact ⟨_, hrun.trans (proceed_of_not_takes htext htakes errors)⟩

theorem exists_escaped_iff : (∃ failure, i.run s = .escaped failure) ↔ Lost s i := by
  constructor
  · rintro ⟨failure, hrun⟩
    by_contra hlost
    exact (exits_run hlost).ne_escaped failure hrun
  · exact exists_escaped

end Invocation

/-! ### Surroundings that do what they are asked for -/

/-- **Nothing is refused**: the machine answers, the loader fails only on what is not YAML, every
value can be shown as far as its depth goes, and standard output takes everything. -/
structure Surroundings.Obliging (s : Surroundings) : Prop where
  directory : ∃ directory, s.host.directory = .ok directory
  isFile : ∀ path, ∃ there, s.host.isFile path = .ok there
  bytes : ∀ path, s.host.isFile path = .ok true → ∃ bytes, s.host.bytes path = .ok bytes
  input : ∃ text, s.input = .ok text
  loader : ∀ text fault, s.loader text ≠ .error (.unusable fault)
  fits : ∀ v, s.fits v
  takes : ∀ text, s.takes text

/-- **The bytes of a file of which nothing can be told** even then: they are not a text, or a key is
not one, or there is a mistake that would show an integer of too many digits. -/
inductive Unreportable (loader : Yaml.Loader) (bytes : List UInt8) : Prop
  | undecodable (h : ∀ cs : List Char, bytes ≠ cs.flatMap String.utf8EncodeChar)
  | unlistable {v : Value} {es : List (Value × Value)} (hv : Denotes loader bytes v)
    (hes : v.entries? = some es) (hkey : ∃ e ∈ es, ∀ k, e.1 ≠ .text k)
  | unshown {v w : Value} {es : List (Value × Value)} {m : Settings.Mistake}
    (hv : Denotes loader bytes v) (hes : v.entries? = some es)
    (hm : Settings.ofMapping es = .error m) (hw : m.shows? = some w) (hshow : w.showable = false)

theorem Surroundings.Obliging.exists_settingsPath (h : s.Obliging) (i : Invocation) :
    ∃ path, i.settingsPath s = .ok path := by
  obtain ⟨directory, hdirectory⟩ := h.directory
  unfold Invocation.settingsPath
  split
  · exact ⟨_, rfl⟩
  · exact ⟨Path.join directory Settings.fileName, by rw [hdirectory]; rfl⟩

theorem Surroundings.Obliging.untold_iff (h : s.Obliging) :
    Untold s.loader s.fits bytes ↔ Unreportable s.loader bytes := by
  constructor
  · intro huntold
    cases huntold with
    | undecodable hbytes => exact .undecodable hbytes
    | unusable htext hload => exact absurd hload (h.loader _ _)
    | unlistable hv hes hkey => exact .unlistable hv hes hkey
    | @unshown v w es m hv hes hm hw hshow =>
      refine .unshown hv hes hm hw (hshow.resolve_left ?_)
      simp [h.fits w]
  · intro hleft
    cases hleft with
    | undecodable hbytes => exact .undecodable hbytes
    | unlistable hv hes hkey => exact .unlistable hv hes hkey
    | unshown hv hes hm hw hshow => exact .unshown hv hes hm hw (Or.inr hshow)

theorem Surroundings.Obliging.not_refused (h : s.Obliging) (source : String) :
    ¬Refused s source := by
  intro hrefused
  cases hrefused with
  | typed hsource htyped =>
    obtain ⟨text, htext⟩ := h.input
    exact absurd (htext.symm.trans htyped) (by simp)
  | test hsource htest =>
    obtain ⟨there, hthere⟩ := h.isFile (Path.normalize source)
    exact absurd (hthere.symm.trans htest) (by simp)

/-- **Where nothing is refused**, a run is lost exactly if nothing can be told of its settings. -/
theorem Surroundings.Obliging.lost_iff (h : s.Obliging) :
    Lost s i ↔ ∃ path bytes, i.settingsPath s = .ok path ∧ s.host.Holds path bytes ∧
      Unreportable s.loader bytes := by
  constructor
  · intro hlost
    cases hlost with
    | directory hpath =>
      obtain ⟨path, hok⟩ := h.exists_settingsPath i
      exact absurd (hok.symm.trans hpath) (by simp)
    | @test path failure hpath htest =>
      obtain ⟨there, hthere⟩ := h.isFile path
      exact absurd (hthere.symm.trans htest) (by simp)
    | @read path failure hpath htest hread =>
      obtain ⟨bytes, hbytes⟩ := h.bytes path htest
      exact absurd (hbytes.symm.trans hread) (by simp)
    | settings hpath hfile huntold => exact ⟨_, _, hpath, hfile, h.untold_iff.mp huntold⟩
    | source hsettings hrefused => exact absurd hrefused (h.not_refused i.source)
    | output hsettings htext htakes => exact absurd ((h.takes _).symm.trans htakes) (by simp)
  · rintro ⟨path, bytes, hpath, hfile, hleft⟩
    exact .settings hpath hfile (h.untold_iff.mpr hleft)

/-! ### Runs -/

theorem run_of_readArguments {args : List String} (hi : readArguments args = .ok i) :
    run s args = i.run s := by
  rw [run, hi]

/-- A directory with a file of settings and nothing else, and a template that is typed in. -/
def besideSettings (loader : Yaml.Loader) (bytes : List UInt8) : Surroundings where
  host := {
    directory := .ok "/home"
    isFile := fun path => .ok (path == "/home/mpx2vue.yaml")
    bytes := fun _ => .ok bytes }
  loader := loader
  fits := fun _ => true
  takes := fun _ => true
  installed := none
  input := .ok "<view/>"
  debug := false

theorem obliging_besideSettings {loader : Yaml.Loader}
    (h : ∀ text fault, loader text ≠ .error (.unusable fault)) (bytes : List UInt8) :
    (besideSettings loader bytes).Obliging where
  directory := ⟨_, rfl⟩
  isFile _ := ⟨_, rfl⟩
  bytes _ _ := ⟨_, rfl⟩
  input := ⟨_, rfl⟩
  loader := h
  fits _ := rfl
  takes _ := rfl

end Command

end MiniTemplate
