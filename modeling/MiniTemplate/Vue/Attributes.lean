import MiniTemplate.Attribute
import MiniTemplate.Markup.Value
import MiniTemplate.Vue.Expression
import MiniTemplate.Vue.Target

/-!
# Attributes of Vue

Every plain attribute and every directive of an element becomes at most one attribute
of Vue. Directives with a counterpart in Vue take its name; the handlers of events
become `@event`, with the modifiers of the directive; the two that name the variables
of a loop are taken up into the loop; and a directive that is not known passes
through as it is.

Two entries may come out under one name. The first then stays and the others are
dropped, so that no name is written twice.
-/

namespace MiniTemplate.Vue

/-- An attribute of Vue; without a value it is written by its name alone. -/
structure Binding where
  name : String
  value : Option String
  deriving DecidableEq, Repr

namespace Binding

/-- An attribute of Vue, as written. -/
def text (b : Binding) : String :=
  match b.value with
  | some value => Markup.assign b.name value
  | none => b.name

/-- The name under which two attributes of Vue are the same: what is written before
the first equals sign. -/
def key (b : Binding) : String := String.ofList (b.name.toList.takeWhile (· != '='))

end Binding

/-- The variables of a loop. -/
structure Loop where
  item : String
  index : String
  deriving DecidableEq, Repr

namespace Loop

/-- The variables of a loop that does not name them. -/
def standard : Loop := ⟨"item", "index"⟩

/-- The variable that a directive names, if it has a value. -/
def named (d : Option Directive) (default : String) : String :=
  match d with
  | some d => if d.value.isEmpty then default else unwrap d.value
  | none => default

/-- The variables that the directives of an element name. -/
def ofDirectives (ds : Table Directive) : Loop :=
  ⟨named (ds.get? "wx:for-item") standard.item, named (ds.get? "wx:for-index") standard.index⟩

end Loop

/-- A name with modifiers. -/
def withModifiers (name : String) (modifiers : List String) : String :=
  name ++ String.join (modifiers.map fun m => "." ++ m)

/-- The handler of an event. -/
def handler (event : String) (modifiers : List String) (value : String) : Binding :=
  ⟨"@" ++ withModifiers (eventTable.getD event event) modifiers, some value⟩

/-- A plain attribute; nothing if it is dropped. -/
def convertProp (t : Target) (name value : String) : Option Binding :=
  let renamed := t.attributes.getD name name
  if renamed.isEmpty then none else some ⟨renamed, some value⟩

/-- The handler that a directive stands for, if it binds an event. Catching an event
stops it, a tap apart. -/
def eventBinding? (name : String) (d : Directive) : Option Binding :=
  if name = "catchtap" then some (handler "tap" d.modifiers d.value)
  else
    match Text.after? "bind" name with
    | some event => some (handler event d.modifiers d.value)
    | none =>
      match Text.after? "catch" name with
      | some event => some (handler event ("stop" :: d.modifiers) d.value)
      | none =>
        match Text.after? "@" name with
        | some event => some (handler event d.modifiers d.value)
        | none => none

/-- What becomes of a directive. -/
inductive Rendering where
  /-- An attribute of Vue. -/
  | binding (b : Binding)
  /-- Nothing of its own. -/
  | absorbed
  /-- Not a known directive: it passes through as it is. -/
  | unknown (b : Binding)
  deriving DecidableEq, Repr

/-- What becomes of a directive of a name, on an element with these loop variables. -/
def render (name : String) (d : Directive) (loop : Loop) : Rendering :=
  match directiveTable.get? name with
  | some vue => .binding ⟨vue, some (unwrap d.value)⟩
  | none =>
    if name = "wx:else" then .binding ⟨"v-else", none⟩
    else if name = "wx:for" then
      .binding ⟨"v-for",
        some ("(" ++ loop.item ++ ", " ++ loop.index ++ ") in " ++ unwrap d.value)⟩
    else if name = "wx:for-item" ∨ name = "wx:for-index" then .absorbed
    else if name = "wx:key" then
      let key := unwrap d.value
      .binding ⟨":key", some (if key = "*this" then loop.item else key)⟩
    else if name = "wx:ref" then .binding ⟨"ref", some d.value⟩
    else
      match eventBinding? name d with
      | some b => .binding b
      | none => .unknown ⟨withModifiers name d.modifiers, some d.value⟩

/-- The attribute of Vue that a directive becomes, if any. -/
def Rendering.binding? : Rendering → Option Binding
  | .binding b | .unknown b => some b
  | .absorbed => none

/-- A directive; nothing if it is taken up elsewhere. -/
def convertDirective (name : String) (d : Directive) (loop : Loop) : Option Binding :=
  (render name d loop).binding?

/-- What the attributes of an element become one by one, the plain ones first. -/
def candidates (t : Target) (as : List Attribute) : List Binding :=
  let ds := Attribute.directives as
  (Attribute.props as).entries.filterMap (fun e => convertProp t e.1 e.2) ++
    ds.entries.filterMap fun e => convertDirective e.1 e.2 (Loop.ofDirectives ds)

/-- Keep the first of every key that is not among those seen. -/
def keepFirst (seen : List String) : List Binding → List Binding
  | [] => []
  | b :: bs => if b.key ∈ seen then keepFirst seen bs else b :: keepFirst (b.key :: seen) bs

/-- **The attributes of an element in Vue.** -/
def bindings (t : Target) (as : List Attribute) : List Binding :=
  keepFirst [] (candidates t as)

/-- The keys of the attributes that are dropped because their key came before. -/
def droppedKeys (seen : List String) : List Binding → List String
  | [] => []
  | b :: bs =>
    if b.key ∈ seen then b.key :: droppedKeys seen bs else droppedKeys (b.key :: seen) bs

/-- The names of the directives of an element that are not known. -/
def unknownDirectives (as : List Attribute) : List String :=
  let ds := Attribute.directives as
  ds.entries.filterMap fun e =>
    match render e.1 e.2 (Loop.ofDirectives ds) with
    | .unknown _ => some e.1
    | .binding _ | .absorbed => none

end MiniTemplate.Vue
