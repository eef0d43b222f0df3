import MiniTemplate.Reading.Template
import MiniTemplate.Ref
import MiniTemplate.Vue.Target
import MiniTemplate.Yaml.Value

/-!
# Settings

Settings say how deep templates may nest, how output is indented, which tags and
attributes are renamed beyond the built-in tables, which tags are void, and how refs are
written. They come as a mapping with seven known keys, each of which may be left out.

Checking goes in a fixed order, whatever the order of the mapping: first, that all keys
are known; then field by field. So of several mistakes it is always the same one that
is reported.
-/

namespace MiniTemplate

/-- The settings of the tool. -/
structure Settings where
  indentSize : Int
  maxDepth : Int
  tags : Table String
  attributes : Table String
  voidTags : List String
  ref : RefStyle
  deriving DecidableEq, Repr

namespace Settings

/-- The settings where nothing is said. -/
def standard : Settings := ⟨2, Template.defaultDepth, .empty, .empty, [], .standard⟩

/-- The known keys, in the order they are checked. -/
def knownKeys : List String :=
  ["indent_size", "max_depth", "tags", "attributes", "void_tags", "ref_attribute", "ref_prefix"]

/-- What the settings convert a template to: the built-in tables, with their own entries
put over them. -/
def target (s : Settings) : Vue.Target where
  indent := s.indentSize
  tags := Vue.tagTable.insertAll s.tags.entries
  attributes := Vue.attributeTable.insertAll s.attributes.entries
  voidTags := Vue.voidTags ++ s.voidTags

/-! ### Mistakes -/

/-- What is wrong with a mapping of settings. -/
inductive Mistake where
  /-- Keys that are not known, in order. -/
  | unknownKeys (keys : List String)
  /-- An unknown key that is not a text, and so cannot be listed. -/
  | unlistableKey
  /-- A field that is not an integer from zero on. -/
  | notNatural (field : String) (found : Yaml.Value)
  /-- A depth of zero. -/
  | zeroDepth
  /-- A field that is not a mapping. -/
  | notMapping (field : String)
  /-- An entry of a mapping that is not a text, or whose key is not. -/
  | notTextEntry (field : String) (key : Yaml.Value)
  /-- A field that is not a list of texts. -/
  | notTextList (field : String)
  /-- A field that is not a text, or empty. -/
  | notNonemptyText (field : String)
  deriving Repr

/-- **The wording of a mistake**, `fits` being the values that are not nested too deep to be shown.
There is none if the keys cannot be listed, or if what was found cannot be shown. -/
def Mistake.message? (fits : Yaml.Value → Bool) : Mistake → Option String
  | unknownKeys keys => some ("unknown config keys: " ++ ", ".intercalate keys)
  | unlistableKey => none
  | notNatural field found =>
    (found.display? fits).map fun shown =>
      field ++ ": expected a non-negative integer, got " ++ shown
  | zeroDepth => some "max_depth: must be positive"
  | notMapping field => some (field ++ ": expected a mapping")
  | notTextEntry field key =>
    (key.label? fits).map fun shown => field ++ "." ++ shown ++ ": expected a string value"
  | notTextList field => some (field ++ ": expected a list of strings")
  | notNonemptyText field => some (field ++ ": expected a non-empty string")

/-! ### Checking a mapping -/

/-- The value under a key, if the mapping has one. -/
def lookup (entries : List (Yaml.Value × Yaml.Value)) (key : String) : Option Yaml.Value :=
  (entries.find? fun e =>
    match e.1 with
    | .text k => k == key
    | _ => false).map (·.2)

/-- The text of a value that is one. -/
def text? : Yaml.Value → Option String
  | .text s => some s
  | _ => none

/-- Every key has to be known. -/
def checkKeys (entries : List (Yaml.Value × Yaml.Value)) : Except Mistake Unit :=
  let unknown := (entries.map (·.1)).filter fun k =>
    match k with
    | .text s => !knownKeys.contains s
    | _ => true
  if unknown.isEmpty then .ok ()
  else if unknown.all fun k => (text? k).isSome then
    .error (.unknownKeys ((unknown.filterMap text?).mergeSort (fun a b => a ≤ b)))
  else .error .unlistableKey

/-- An integer from zero on. -/
def natural (field : String) : Yaml.Value → Except Mistake Int
  | .int (.ofNat n) => .ok n
  | v => .error (.notNatural field v)

/-- An integer from one on. -/
def depth (v : Yaml.Value) : Except Mistake Int :=
  match natural "max_depth" v with
  | .ok 0 => .error .zeroDepth
  | r => r

/-- The entries of a mapping from texts to texts, a missing value counting as the empty
text. -/
def textEntries (field : String) :
    List (Yaml.Value × Yaml.Value) → Except Mistake (List (String × String))
  | [] => .ok []
  | (.text k, .text v) :: es =>
    match textEntries field es with
    | .ok rest => .ok ((k, v) :: rest)
    | .error m => .error m
  | (.text k, .null) :: es =>
    match textEntries field es with
    | .ok rest => .ok ((k, "") :: rest)
    | .error m => .error m
  | (k, _) :: _ => .error (.notTextEntry field k)

/-- A mapping from texts to texts; nothing counts as the empty one. -/
def textTable (field : String) : Yaml.Value → Except Mistake (Table String)
  | .null => .ok .empty
  | v =>
    match v.entries? with
    | none => .error (.notMapping field)
    | some entries =>
      match textEntries field entries with
      | .ok es => .ok (.ofList es)
      | .error m => .error m

/-- A list of texts. -/
def textList (field : String) : Yaml.Value → Except Mistake (List String)
  | .list items =>
    if items.all fun v => (text? v).isSome then .ok (items.filterMap text?)
    else .error (.notTextList field)
  | _ => .error (.notTextList field)

/-- A text that is not empty. -/
def nonemptyText (field : String) : Yaml.Value → Except Mistake String
  | .text s => if s.isEmpty then .error (.notNonemptyText field) else .ok s
  | _ => .error (.notNonemptyText field)

/-- The checked value under a key, or what stands for it if the key is not there. -/
def field {α : Type} (entries : List (Yaml.Value × Yaml.Value)) (key : String)
    (check : String → Yaml.Value → Except Mistake α) (absent : α) : Except Mistake α :=
  match lookup entries key with
  | some v => check key v
  | none => .ok absent

/-- **The settings of a mapping**, or the first mistake in it. -/
def ofMapping (entries : List (Yaml.Value × Yaml.Value)) : Except Mistake Settings := do
  checkKeys entries
  let indentSize ← field entries "indent_size" natural standard.indentSize
  let maxDepth ← field entries "max_depth" (fun _ => depth) standard.maxDepth
  let tags ← field entries "tags" textTable .empty
  let attributes ← field entries "attributes" textTable .empty
  let voidTags ← field entries "void_tags" textList []
  let name ← field entries "ref_attribute" nonemptyText standard.ref.name
  let stem ← field entries "ref_prefix" nonemptyText standard.ref.stem
  return ⟨indentSize, maxDepth, tags, attributes, voidTags, ⟨name, stem⟩⟩

/-! ### Settings as a mapping -/

/-- A table of texts as a mapping. -/
def tableValue (t : Table String) : Yaml.Value :=
  .mapping (t.entries.map fun e => (.text e.1, .text e.2))

/-- **The mapping of settings**, with every key. -/
def toMapping (s : Settings) : List (Yaml.Value × Yaml.Value) :=
  [(.text "indent_size", .int s.indentSize), (.text "max_depth", .int s.maxDepth),
    (.text "tags", tableValue s.tags), (.text "attributes", tableValue s.attributes),
    (.text "void_tags", .list (s.voidTags.map .text)), (.text "ref_attribute", .text s.ref.name),
    (.text "ref_prefix", .text s.ref.stem)]

end Settings

end MiniTemplate
