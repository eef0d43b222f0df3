import MiniTemplate.Path
import MiniTemplate.Command.Words

/-!
# Command lines of the tool

The tool has three commands, each on one source: a file, or standard input. In front of
the command stand the switches that all commands share; everything behind the name of the
command is for the command itself. What neither understands is gathered, and reported only
if nothing else is wrong.
-/

namespace MiniTemplate.Command

/-- The name of the tool. -/
def toolName : String := "mpx2vue"

/-- The switches in front of a command. -/
inductive Shared where
  | help
  | version
  | config
  | verbose
  deriving DecidableEq, Repr

/-- The switches of the commands. -/
inductive Special where
  | help
  | indent
  | strict
  deriving DecidableEq, Repr

/-- The switches in front of a command, with their names. -/
def sharedSwitches : List (Switch Shared) :=
  [⟨.help, ["-h", "--help"], false⟩, ⟨.version, ["-v", "--version"], false⟩,
    ⟨.config, ["--config"], true⟩, ⟨.verbose, ["--verbose"], false⟩]

/-- The commands. -/
inductive Verb where
  | parse
  | convert
  | annotate
  deriving DecidableEq, Repr

namespace Verb

/-- The commands, in the order they are listed. -/
def all : List Verb := [.parse, .convert, .annotate]

/-- The name of a command. -/
def name : Verb → String
  | parse => "parse"
  | convert => "convert"
  | annotate => "annotate"

/-- The command of a name. -/
def ofName? (name : String) : Option Verb := all.find? fun c => c.name == name

/-- The switches of a command, with their names. -/
def switches : Verb → List (Switch Special)
  | parse => [⟨.help, ["-h", "--help"], false⟩, ⟨.indent, ["--indent"], true⟩]
  | convert => [⟨.help, ["-h", "--help"], false⟩, ⟨.strict, ["--strict"], false⟩]
  | annotate => [⟨.help, ["-h", "--help"], false⟩]

end Verb

/-- Why a command line is not carried out. -/
inductive Stop where
  /-- It asks for the version. -/
  | version
  /-- It asks for help, on a command or on the tool. -/
  | help (command : Option Verb)
  /-- It is wrong, for a command or for the tool. -/
  | usage (command : Option Verb) (error : UsageError)
  deriving DecidableEq, Repr

/-- The tool, or one of its commands, as it calls itself. -/
def title : Option Verb → String
  | none => toolName
  | some c => toolName ++ " " ++ c.name

/-! ### In front of the command -/

/-- What the switches in front of a command say. -/
structure SharedOptions where
  config : Option String
  verbose : Bool
  deriving DecidableEq, Repr

/-- Carry out a switch without a value. -/
def SharedOptions.flag (o : SharedOptions) (s : Switch Shared) : Except Stop SharedOptions :=
  match s.id with
  | .help => .error (.help none)
  | .version => .error .version
  | .verbose => .ok { o with verbose := true }
  | .config => .ok o

/-- What stands in front of a command, and what stands behind its name. -/
structure Front where
  options : SharedOptions
  /-- The words that were not understood. -/
  leftover : List String
  /-- The word that should name a command. -/
  command : String
  /-- The words for the command. -/
  arguments : List String

/-- Read the words up to the name of the command. -/
def readFront (o : SharedOptions) (leftover : List String) :
    List (Word Shared) → Except Stop Front
  | [] => .error (.usage none (.missing ["cmd"]))
  | ⟨w, .plain⟩ :: ws => .ok ⟨o, leftover, w, ws.map (·.text)⟩
  | ⟨w, .separator⟩ :: ws =>
    -- with nothing behind it, a separator does not stand for a command
    if ws.isEmpty then .error (.usage none (.missing ["cmd"]))
    else .ok ⟨o, leftover, w, ws.map (·.text)⟩
  | ⟨w, .unknown⟩ :: ws => readFront o (leftover ++ [w]) ws
  | ⟨_, .switch s n v⟩ :: ws =>
    match request sharedSwitches s n v with
    | .error e => .error (.usage none e)
    | .ok r =>
      match r.flags.foldlM SharedOptions.flag o with
      | .error stop => .error stop
      | .ok o =>
        match r.valued with
        | none => readFront o leftover ws
        | some (_, some v) => readFront { o with config := some v } leftover ws
        | some (s, none) =>
          match ws with
          | ⟨v, .plain⟩ :: ws => readFront { o with config := some v } leftover ws
          | _ => .error (.usage none (.missingValue s.title))

/-! ### Behind the name of the command -/

/-- What the words behind the name of a command say. -/
structure SpecialOptions where
  source : Option String
  indent : Option Int
  strict : Bool
  /-- The words that were not understood. -/
  leftover : List String
  deriving DecidableEq, Repr

namespace SpecialOptions

/-- Carry out a switch without a value. -/
def flag (c : Verb) (o : SpecialOptions) (s : Switch Special) : Except Stop SpecialOptions :=
  match s.id with
  | .help => .error (.help (some c))
  | .strict => .ok { o with strict := true }
  | .indent => .ok o

/-- Carry out a switch with its value. -/
def value (c : Verb) (o : SpecialOptions) (s : Switch Special) (v : String) :
    Except Stop SpecialOptions :=
  match Number.readInt? v with
  | some n => .ok { o with indent := some n }
  | none => .error (.usage (some c) (.notInteger s.title v))

/-- A word that no one asked for. -/
def leave (o : SpecialOptions) (w : String) : SpecialOptions :=
  { o with leftover := o.leftover ++ [w] }

end SpecialOptions

/-- Read the words behind the name of a command. The first plain word is the source, and a
separator next to it is part of it. -/
def readBack (c : Verb) (o : SpecialOptions) :
    List (Word Special) → Except Stop SpecialOptions
  | [] => .ok o
  | ⟨w, .plain⟩ :: ws =>
    if o.source.isSome then readBack c (o.leave w) ws
    else
      match ws with
      | ⟨_, .separator⟩ :: ws => readBack c { o with source := some w } ws
      | ws => readBack c { o with source := some w } ws
  | ⟨w, .separator⟩ :: ws =>
    match ws with
    | ⟨v, .plain⟩ :: vs =>
      if o.source.isSome then readBack c (o.leave w) (⟨v, .plain⟩ :: vs)
      else readBack c { o with source := some v } vs
    | ws => readBack c (o.leave w) ws
  | ⟨w, .unknown⟩ :: ws => readBack c (o.leave w) ws
  | ⟨_, .switch s n v⟩ :: ws =>
    match request c.switches s n v with
    | .error e => .error (.usage (some c) e)
    | .ok r =>
      match r.flags.foldlM (SpecialOptions.flag c) o with
      | .error stop => .error stop
      | .ok o =>
        match r.valued with
        | none => readBack c o ws
        | some (s, some v) =>
          match o.value c s v with
          | .error stop => .error stop
          | .ok o => readBack c o ws
        | some (s, none) =>
          match ws with
          | ⟨v, .plain⟩ :: ws =>
            match o.value c s v with
            | .error stop => .error stop
            | .ok o => readBack c o ws
          | _ => .error (.usage (some c) (.missingValue s.title))

/-! ### The whole -/

/-- What is to be done with a source. -/
inductive Action where
  /-- Report on it as JSON, with an indentation if one is given. -/
  | parse (indent : Option Int)
  /-- Convert it; if strict, faults in it count as failure. -/
  | convert (strict : Bool)
  /-- Write it with refs. -/
  | annotate
  deriving DecidableEq, Repr

/-- **What a command line asks for.** -/
structure Invocation where
  /-- The path of a file of settings, if one is named. -/
  config : Option String
  verbose : Bool
  action : Action
  /-- The source, as written. -/
  source : String
  deriving DecidableEq, Repr

/-- The action of a command with its options. -/
def actionOf (c : Verb) (o : SpecialOptions) : Action :=
  match c with
  | .parse => .parse o.indent
  | .convert => .convert o.strict
  | .annotate => .annotate

/-- What the words behind the name of a command ask for. -/
def readCommand (front : Front) (c : Verb) : Except Stop Invocation :=
  match words c.switches front.arguments with
  | .error e => .error (.usage (some c) e)
  | .ok ws =>
    match readBack c ⟨none, none, false, []⟩ ws with
    | .error stop => .error stop
    | .ok o =>
      match o.source with
      | none => .error (.usage (some c) (.missing ["source"]))
      | some source =>
        let leftover := front.leftover ++ o.leftover
        if leftover.isEmpty then
          .ok ⟨front.options.config.map Path.normalize, front.options.verbose, actionOf c o, source⟩
        else .error (.usage none (.unrecognized leftover))

/-- **Reading a command line.** -/
def readArguments (args : List String) : Except Stop Invocation :=
  match words sharedSwitches args with
  | .error e => .error (.usage none e)
  | .ok ws =>
    match readFront ⟨none, false⟩ [] ws with
    | .error stop => .error stop
    | .ok front =>
      match Verb.ofName? front.command with
      | some c => readCommand front c
      | none =>
        .error (.usage none (.invalidChoice "cmd" front.command (Verb.all.map Verb.name)))

end MiniTemplate.Command
