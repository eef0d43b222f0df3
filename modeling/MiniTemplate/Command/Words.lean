import MiniTemplate.Number.Integer
import MiniTemplate.Text.Quoted
import MiniTemplate.Text.Split

/-!
# The words of a command line

A command has switches, each with one or more names, some of which take a value. Before
anything is done with a command line, each of its words is looked at on its own: it is a
switch if it is the name of one, or the beginning of the long name of exactly one; a value
may be joined to it with an equals sign. A word that begins like a switch and is none is
unknown. Everything else is plain: words without a dash in front, a single dash, negative
numbers, and every word with a blank in it that is no switch. Two dashes by themselves
are a separator, and behind it all words are plain.

A short switch may be followed by further short switches in the same word.
-/

namespace MiniTemplate.Command

/-- A switch of a command. -/
structure Switch (ι : Type) where
  /-- What it stands for. -/
  id : ι
  names : List String
  takesValue : Bool
  deriving DecidableEq, Repr

/-- How a switch is called in messages. -/
def Switch.title {ι : Type} (s : Switch ι) : String := "/".intercalate s.names

/-- What is wrong with a command line. -/
inductive UsageError where
  /-- A beginning of several names. -/
  | ambiguous (word : String) (names : List String)
  /-- A switch without the value it takes. -/
  | missingValue (title : String)
  /-- A value for a switch that takes none. -/
  | needlessValue (title value : String)
  /-- A value that is not an integer. -/
  | notInteger (title value : String)
  /-- A word that is none of the choices. -/
  | invalidChoice (title value : String) (choices : List String)
  /-- Arguments that are not there. -/
  | missing (titles : List String)
  /-- Words that no one asked for. -/
  | unrecognized (words : List String)
  deriving DecidableEq, Repr

/-- The wording of a usage error. -/
def UsageError.message : UsageError → String
  | ambiguous word names =>
    "ambiguous option: " ++ word ++ " could match " ++ ", ".intercalate names
  | missingValue title => "argument " ++ title ++ ": expected one argument"
  | needlessValue title value =>
    "argument " ++ title ++ ": ignored explicit argument " ++ Text.quoted value
  | notInteger title value =>
    "argument " ++ title ++ ": invalid int value: " ++ Text.quoted value
  | invalidChoice title value choices =>
    "argument " ++ title ++ ": invalid choice: " ++ Text.quoted value ++ " (choose from " ++
      ", ".intercalate (choices.map Text.quoted) ++ ")"
  | missing titles => "the following arguments are required: " ++ ", ".intercalate titles
  | unrecognized words => "unrecognized arguments: " ++ " ".intercalate words

/-- What a word is. -/
inductive Kind (ι : Type) where
  | plain
  | separator
  /-- A switch by one of its names, perhaps with a value joined to it. -/
  | switch (s : Switch ι) (name : String) (value : Option String)
  /-- Like a switch, but none. -/
  | unknown
  deriving DecidableEq, Repr

/-- A word, and what it is. -/
structure Word (ι : Type) where
  text : String
  kind : Kind ι
  deriving DecidableEq, Repr

variable {ι : Type}

/-- The switch of a name. -/
def named? (switches : List (Switch ι)) (name : String) : Option (Switch ι) :=
  switches.find? fun s => s.names.contains name

/-- All the names of the switches, each with its switch. -/
def allNames (switches : List (Switch ι)) : List (Switch ι × String) :=
  switches.flatMap fun s => s.names.map fun n => (s, n)

/-- The two sides of the first equals sign; nothing on the right if there is none. -/
def splitValue (cs : List Char) : List Char × Option String :=
  (cs.takeWhile (· != '='),
    match cs.dropWhile (· != '=') with
    | [] => none
    | _ :: v => some (String.ofList v))

/-- The switches that a word may be short for. -/
def matching (switches : List (Switch ι)) (cs : List Char) :
    List (Switch ι × String × Option String) :=
  if ['-', '-'].isPrefixOf cs then
    let (begins, value) := splitValue cs
    ((allNames switches).filter fun n => begins.isPrefixOf n.2.toList).map fun n =>
      (n.1, n.2, value)
  else
    (allNames switches).filterMap fun n =>
      if n.2.toList = cs.take 2 then some (n.1, n.2, some (String.ofList (cs.drop 2)))
      else if cs.isPrefixOf n.2.toList then some (n.1, n.2, none)
      else none

/-- Is it a number: digits, or a point with digits behind it? -/
def isNumber (cs : List Char) : Bool :=
  match cs.dropWhile fun c => (Number.digit? c).isSome with
  | [] => !cs.isEmpty
  | '.' :: ds => !ds.isEmpty && ds.all fun c => (Number.digit? c).isSome
  | _ => false

/-- Is it a number with a minus in front? A newline at the end does not matter. -/
def isNegativeNumber : List Char → Bool
  | '-' :: cs => isNumber (if cs.getLast? = some '\n' then cs.dropLast else cs)
  | _ => false

/-- What a word with a dash and something behind it is. -/
def classifyDashed (switches : List (Switch ι)) (word : String) : Except UsageError (Kind ι) :=
  let cs := word.toList
  let (name, value) := splitValue cs
  match named? switches word with
  | some s => .ok (.switch s word none)
  | none =>
    match named? switches (String.ofList name), value with
    | some s, some v => .ok (.switch s (String.ofList name) (some v))
    | _, _ =>
      match matching switches cs with
      | [(s, n, v)] => .ok (.switch s n v)
      | [] => .ok (if isNegativeNumber cs ∨ ' ' ∈ cs then .plain else .unknown)
      | several => .error (.ambiguous word (several.map fun m => m.2.1))

/-- What a word is, by itself. -/
def classify (switches : List (Switch ι)) (word : String) : Except UsageError (Kind ι) :=
  match word.toList with
  | '-' :: _ :: _ => classifyDashed switches word
  | _ => .ok .plain

/-- **The words of a command line.** -/
def words (switches : List (Switch ι)) : List String → Except UsageError (List (Word ι))
  | [] => .ok []
  | w :: ws =>
    if w = "--" then .ok (⟨w, .separator⟩ :: ws.map fun w => ⟨w, .plain⟩)
    else
      match classify switches w with
      | .error e => .error e
      | .ok kind => (words switches ws).map (⟨w, kind⟩ :: ·)

/-- What a written switch asks for. -/
structure Request (ι : Type) where
  /-- The switches without a value, in order. -/
  flags : List (Switch ι)
  /-- A switch with a value behind them, which may be for the next word to give. -/
  valued : Option (Switch ι × Option String)

/-- The requests of a short switch and of the letters behind it in the same word. -/
def expand (switches : List (Switch ι)) (s : Switch ι) :
    List Char → Except UsageError (Request ι)
  | [] => .ok (if s.takesValue then ⟨[], some (s, none)⟩ else ⟨[s], none⟩)
  | c :: cs =>
    if s.takesValue then .ok ⟨[], some (s, some (String.ofList (c :: cs)))⟩
    else
      match named? switches (String.ofList ['-', c]) with
      | none => .error (.needlessValue s.title (String.ofList (c :: cs)))
      | some t => (expand switches t cs).map fun r => { r with flags := s :: r.flags }

/-- The request of a written switch. -/
def request (switches : List (Switch ι)) (s : Switch ι) (name : String) :
    Option String → Except UsageError (Request ι)
  | none => expand switches s []
  | some v =>
    if s.takesValue then .ok ⟨[], some (s, some v)⟩
    else if v.isEmpty ∨ ['-', '-'].isPrefixOf name.toList then
      .error (.needlessValue s.title v)
    else expand switches s v.toList

end MiniTemplate.Command
