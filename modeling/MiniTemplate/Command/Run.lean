import MiniTemplate.Command.Invocation
import MiniTemplate.Json.Write
import MiniTemplate.Markup.Write
import MiniTemplate.Report
import MiniTemplate.Settings.Load
import MiniTemplate.Vue.Convert

/-!
# Running the tool

A run is a function of what surrounds it: the arguments, the machine, what loads documents, what is
typed in, and whether a log is wanted. It loads the settings, reads the source, remarks on its
faults, and writes the result. What goes to standard error is in the order of the work: lines of
the log, and the remarks.

Failures that are the user's to mend end with a message and the exit code 2. The others are not
caught: those of settings that have no message, a machine that does not say whether the source is
there or does not give what is typed in, and a result that standard output does not take.

What a machine does with a template that is nested too deep for its stack is left out.
-/

namespace MiniTemplate.Command

/-- What surrounds a run. -/
structure Surroundings where
  host : Host
  /-- What loads the settings. -/
  loader : Yaml.Loader
  /-- Which values are not nested too deep to be shown? -/
  fits : Yaml.Value → Bool
  /-- Which texts can be made, and are taken by standard output? -/
  takes : String → Bool
  /-- The version that is installed. -/
  installed : Option String
  /-- What is typed in. -/
  input : Except HostFailure String
  /-- Is a log wanted, whatever the arguments say? -/
  debug : Bool

/-- Why a source cannot be read. -/
inductive SourceFailure where
  /-- The machine does not say whether there is such a file, or does not give what is typed in. -/
  | refused (failure : HostFailure)
  /-- There is no such file. -/
  | notFound (path : String)
  /-- There is one, and the machine does not read it. -/
  | unreadable (path : String) (failure : HostFailure)
  /-- The bytes of the file are not a text. -/
  | undecodable (path : String) (failure : Utf8.Failure)
  deriving Repr

/-- A failure that is not caught. -/
inductive Uncaught where
  /-- The settings cannot be loaded. -/
  | settings (failure : Settings.LoadFailure)
  /-- The source cannot be read. -/
  | source (failure : SourceFailure)
  /-- Standard output does not take the result. -/
  | output
  deriving Repr

/-- How a run ends. -/
inductive Ending where
  /-- With an exit code, and what was written to standard output and standard error. -/
  | exit (code : Nat) (output errors : String)
  /-- With a usage error, which is all that is shown. -/
  | usage (message : String)
  /-- With a failure that is not caught. -/
  | escaped (failure : Uncaught)
  /-- With a report that does not have the shape of reports. -/
  | invalidReport (issues : List Issue)

/-- A line of the log. -/
def logLine (message : String) : String := "[DEBUG] " ++ message ++ "\n"

/-- The lines of the log, if it is wanted. -/
def logText (wanted : Bool) (messages : List String) : String :=
  if wanted then String.join (messages.map logLine) else ""

/-- The remarks on a template. -/
def remarkText (t : Template) : String :=
  String.join (t.errors.map fun e => "error: " ++ e ++ "\n") ++
    String.join (t.warnings.map fun w => "warning: " ++ w ++ "\n")

/-- The wording for a source that is there and is not read. -/
def notRead (path reason : String) : String :=
  "Failed to read template file " ++ path ++ ": " ++ reason

/-- The text for the user. There is none for a machine that does not answer. -/
def SourceFailure.message? : SourceFailure → Option String
  | refused _ => none
  | notFound path => some ("Template file not found: " ++ path)
  | unreadable path failure => some (notRead path failure.message)
  | undecodable path failure => some (notRead path failure.message)

/-- The text of the file of a path. -/
def readFile (host : Host) (path : String) : Except SourceFailure String :=
  match host.isFile path with
  | .error failure => .error (.refused failure)
  | .ok false => .error (.notFound path)
  | .ok true =>
    match host.bytes path with
    | .error failure => .error (.unreadable path failure)
    | .ok bytes => (decodeText bytes).mapError (.undecodable path)

/-- The text of a source: a file, or what is typed in if it is a single dash. -/
def readSource (s : Surroundings) (source : String) : Except SourceFailure String :=
  if source = "-" then
    match s.input with
    | .error failure => .error (.refused failure)
    | .ok text => .ok (String.ofList (Text.unifyNewlines text.toList))
  else readFile s.host (Path.normalize source)

/-- The end of a run that fails with a message for the user. -/
def userFailure (errors message : String) : Ending :=
  .exit 2 "" (errors ++ Text.trimEnd message ++ "\n")

/-- The end of a run that fails: with the message for the user, if there is one. -/
def failed (errors : String) (failure : Uncaught) : Option String → Ending
  | some message => userFailure errors message
  | none => .escaped failure

/-- The end of a run that writes its result. -/
def Surroundings.conclude (s : Surroundings) (code : Nat) (output errors : String) : Ending :=
  if s.takes output then .exit code output errors else .escaped .output

/-- What a log says about a reading. -/
def readingNote (t : Template) : String :=
  "Parsed template into " ++ toString t.forest.length ++ " top-level nodes (" ++
    toString t.faults.length ++ " errors, " ++ toString t.cautions.length ++ " warnings)"

/-- What a log says about a conversion. -/
def conversionNotes (target : Vue.Target) (f : Forest) : List String :=
  (Vue.notes target f).map Vue.Note.message ++
    ["Converted " ++ toString f.length ++ " top-level nodes into " ++
      toString (Vue.lines target f).length ++ " lines"]

/-- What a log says about the refs. -/
def refNote (r : RefStyle) (f : Forest) : String :=
  "Annotated " ++ toString f.length ++ " top-level nodes with " ++ r.name

/-- Do what is asked for with a template; `errors` is what has been written to standard error
so far. -/
def Surroundings.act (s : Surroundings) (log : Bool) (settings : Settings) (t : Template)
    (errors : String) : Action → Ending
  | .parse indent =>
    match Report.ofTemplate (toolVersion s.installed) t with
    | .ok report => s.conclude 0 (report.write indent) errors
    | .error issues => .invalidReport issues
  | .convert strict =>
    let target := settings.target
    s.conclude (if strict && !t.ok then 1 else 0) (Vue.convert target t.forest ++ "\n")
      (errors ++ remarkText t ++ logText log (conversionNotes target t.forest))
  | .annotate =>
    let marked := t.forest.annotate settings.ref
    s.conclude 0 (Markup.write settings.indentSize marked ++ "\n")
      (errors ++ remarkText t ++ logText log [refNote settings.ref marked])

/-- Carry out what a command line asks for. -/
def Invocation.run (i : Invocation) (s : Surroundings) : Ending :=
  let log := i.verbose || s.debug
  let location := match i.config with
    | some path => Settings.Location.file path
    | none => .here
  let loading := Settings.load s.host s.loader location
  let errors := logText log loading.log
  match loading.result with
  | .error failure => failed errors (.settings failure) (failure.message? s.fits)
  | .ok settings =>
    match readSource s i.source with
    | .error failure => failed errors (.source failure) failure.message?
    | .ok text =>
      let t := Template.read settings.maxDepth text
      s.act log settings t (errors ++ logText log [readingNote t]) i.action

/-- The text of a usage error. -/
def usageText (command : Option Verb) (e : UsageError) : String :=
  title command ++ ": error: " ++ e.message

/-- What is shown to someone who asks for help. -/
def helpText : Option Verb → String
  | none =>
    "usage: mpx2vue [-h] [-v] [--config PATH] [--verbose] (parse | convert | annotate) ...\n"
  | some .parse => "usage: mpx2vue parse [-h] [--indent INDENT] source\n"
  | some .convert => "usage: mpx2vue convert [-h] [--strict] source\n"
  | some .annotate => "usage: mpx2vue annotate [-h] source\n"

/-- **A run of the tool.** -/
def run (s : Surroundings) (args : List String) : Ending :=
  match readArguments args with
  | .ok i => i.run s
  | .error .version => .exit 0 (toolName ++ " " ++ toolVersion s.installed ++ "\n") ""
  | .error (.help command) => .exit 0 (helpText command) ""
  | .error (.usage command e) => .usage (usageText command e)

/-- The paths of the files that a run may look at. -/
def paths (directory : Except HostFailure String) (args : List String) : List String :=
  match readArguments args with
  | .ok i =>
    let usual := directory.toOption.map fun d => Path.join d Settings.fileName
    (i.config.or usual).toList ++ [Path.normalize i.source]
  | .error _ => []

end MiniTemplate.Command
