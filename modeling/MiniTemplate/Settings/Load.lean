import MiniTemplate.Path
import MiniTemplate.Settings
import MiniTemplate.Text.Newline
import MiniTemplate.Text.Utf8

/-!
# Loading settings from a file

Settings are read from a file that is named, or from a file of a fixed name in the
working directory if there is one; without a file they are the standard ones. The file
is YAML, and an empty document is as good as an empty mapping.

The message about a mistake in a file names the file, unless the path of the file occurs
in it anyway.

The machine is given as what it answers, and it need not answer: it may not know its working
directory, a path may be one that it cannot test, and a file may be one that it cannot read.
What loads a document is given, too.
-/

namespace MiniTemplate

/-- What a machine says if it does not do what it was asked for. -/
structure HostFailure where
  message : String
  deriving DecidableEq, Repr

/-- **A machine**, as far as it is asked. -/
structure Host where
  /-- The working directory. -/
  directory : Except HostFailure String
  /-- Is there a file of this path? -/
  isFile : String → Except HostFailure Bool
  /-- What the file of this path holds. -/
  bytes : String → Except HostFailure (List UInt8)

/-- The text of bytes, its lines ending in newlines. -/
def decodeText (bytes : List UInt8) : Except Utf8.Failure String :=
  (Utf8.decode bytes).map fun cs => String.ofList (Text.unifyNewlines cs)

namespace Settings

/-- Where settings are looked for. -/
inductive Location where
  /-- In a file. -/
  | file (path : String)
  /-- In the usual file of a directory, if it is there. -/
  | directory (path : String)
  /-- In the usual file of the working directory, if it is there. -/
  | here
  deriving DecidableEq, Repr

/-- The usual name of a file of settings. -/
def fileName : String := "mpx2vue.yaml"

/-- Why settings cannot be loaded. -/
inductive LoadFailure where
  /-- The machine does not answer. -/
  | refused (failure : HostFailure)
  /-- There is no such file. -/
  | notFound (path : String)
  /-- The bytes of the file are not a text. -/
  | undecodable (failure : Utf8.Failure)
  /-- The text is not YAML; the loader says why. -/
  | malformed (path message : String)
  /-- The loader fails on something in the document. -/
  | unusable (fault : Yaml.Fault)
  /-- The document is not a mapping. -/
  | notMapping (path : String)
  /-- The mapping has a mistake in it. -/
  | mistaken (path : String) (mistake : Mistake)
  deriving Repr

/-- A message about a file, with the path of the file in front unless it occurs anyway. -/
def located (path message : String) : String :=
  if Text.occurs path.toList message.toList then message else path ++ ": " ++ message

/-- The text for the user. There is none for a machine that does not answer, for bytes that are not
a text, for what the loader fails on, and for mistakes that have none. -/
def LoadFailure.message? (fits : Yaml.Value → Bool) : LoadFailure → Option String
  | refused _ => none
  | notFound path => some ("Config file not found: " ++ path)
  | undecodable _ => none
  | malformed path message => some ("Invalid YAML in " ++ path ++ ": " ++ message)
  | unusable _ => none
  | notMapping path => some ("YAML must be a mapping: " ++ path)
  | mistaken path mistake => (mistake.message? fits).map (located path)

variable (host : Host) (loader : Yaml.Loader)

/-- The settings of a text, from a file of this path. -/
def ofText (path text : String) : Except LoadFailure Settings :=
  match loader text with
  | .error (.malformed message) => .error (.malformed path message)
  | .error (.unusable fault) => .error (.unusable fault)
  | .ok v =>
    if v.isEmptyish then .ok standard
    else
      match v.entries? with
      | some entries => (ofMapping entries).mapError (.mistaken path)
      | none => .error (.notMapping path)

/-- The settings of the bytes of a file. -/
def ofBytes (path : String) (bytes : List UInt8) : Except LoadFailure Settings :=
  match decodeText bytes with
  | .error failure => .error (.undecodable failure)
  | .ok text => ofText loader path text

/-- What loading gives, and what a log says about it. -/
structure Loading where
  log : List String
  result : Except LoadFailure Settings

/-- Loading stops since the machine does not answer. -/
def Loading.refused (failure : HostFailure) : Loading := ⟨[], .error (.refused failure)⟩

/-- Loading settings from a file; `missing` is what is given if it is not there. -/
def loadFile (missing : Loading) (path : String) : Loading :=
  match host.isFile path with
  | .error failure => .refused failure
  | .ok false => missing
  | .ok true =>
    ⟨["Loading config from " ++ path],
      match host.bytes path with
      | .error failure => .error (.refused failure)
      | .ok bytes => ofBytes loader path bytes⟩

/-- Loading settings from the usual file of a directory. -/
def loadDirectory (directory : String) : Loading :=
  loadFile host loader
    ⟨["No " ++ fileName ++ " in " ++ Path.normalize directory ++ ", using defaults"], .ok standard⟩
    (Path.join directory fileName)

/-- **Loading settings.** -/
def load : Location → Loading
  | .file path => loadFile host loader ⟨[], .error (.notFound path)⟩ path
  | .directory directory => loadDirectory host loader directory
  | .here =>
    match host.directory with
    | .error failure => .refused failure
    | .ok directory => loadDirectory host loader directory

end Settings

end MiniTemplate
