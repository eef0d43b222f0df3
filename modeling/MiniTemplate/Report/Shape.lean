import MiniTemplate.Json.Basic

/-!
# Shapes of JSON values

A shape says which JSON values are accepted, and what an accepted value is normalised
to. The shapes of a report are built from texts, integers, truth values, lists, tables
and *records*, which are objects with known fields. A field has a key; two fields may
also be given under a second name, if the key itself is not there. A field that may be
left out either has a value that stands for it or is optional, and then `null` is as good
as nothing; in the normal form every field stands under its key, in the order of the
record, with what was left out filled in and every `null` gone.

Checking collects everything that is wrong, at all levels, each issue with its path.

An integer and a truth value are always read as themselves. Whether other values are read as one,
such as a text of digits, is a matter of leniency, and left open: a `MiniTemplate.Leniency` says
it.
-/

namespace MiniTemplate

/-- The records of a report. -/
inductive Record where
  | span
  | directive
  /-- A directive whose name is said elsewhere. -/
  | directiveValue
  | attribute
  /-- The attributes of an element. -/
  | attributes
  | node
  | report
  deriving DecidableEq, Repr

/-- What a JSON value may be. -/
inductive Shape where
  | text
  | whole
  | truth
  /-- One of a few words. -/
  | word (words : List String)
  | list (item : Shape)
  /-- An object with any keys. -/
  | table (item : Shape)
  | record (r : Record)
  deriving DecidableEq, Repr

/-- What it means that a field is not there. -/
inductive Absence where
  /-- It has to be there. -/
  | refused
  /-- An empty list stands for it. -/
  | emptyList
  /-- An empty table stands for it. -/
  | emptyTable
  /-- It may be missing, or null. -/
  | allowed
  deriving DecidableEq, Repr

/-- A field of a record. -/
structure Field where
  /-- The key it stands under. -/
  key : String
  /-- Another name it may be given under. -/
  alternative : Option String
  shape : Shape
  absence : Absence
  deriving DecidableEq, Repr

namespace Field

/-- A field that has to be there. -/
def required (key : String) (shape : Shape) : Field := ⟨key, none, shape, .refused⟩

/-- A field that may be missing. -/
def optional (key : String) (shape : Shape) : Field := ⟨key, none, shape, .allowed⟩

/-- A list that is empty if it is missing. -/
def items (key : String) (shape : Shape) : Field := ⟨key, none, .list shape, .emptyList⟩

/-- A table that is empty if it is missing. -/
def entries (key : String) (shape : Shape) : Field := ⟨key, none, .table shape, .emptyTable⟩

end Field

/-- **The fields of a record**, in order. -/
def Record.fields : Record → List Field
  | .span =>
    [.required "start" .whole, .required "end" .whole, .required "line" .whole,
      .required "column" .whole]
  | .directive => [.required "name" .text, .required "value" .text, .items "modifiers" .text]
  | .directiveValue => [.required "value" .text, .items "modifiers" .text]
  | .attribute =>
    [.required "name" .text, .required "value" .text,
      ⟨"isDirective", some "is_directive", .truth, .refused⟩,
      .optional "directive" (.record .directive)]
  | .attributes =>
    [.entries "props" .text, .entries "directives" (.record .directiveValue),
      .items "all" (.record .attribute)]
  | .node =>
    [.required "type" (.word ["element", "text", "comment"]), .optional "name" .text,
      .optional "attributes" (.record .attributes),
      .optional "children" (.list (.record .node)),
      ⟨"selfClosing", some "self_closing", .truth, .allowed⟩,
      .optional "content" .text, .optional "position" (.record .span)]
  | .report =>
    [.required "version" .text, .required "ok" .truth, .items "tree" (.record .node),
      .items "errors" .text, .items "warnings" .text]

/-! ### Issues -/

/-- What is wrong with a value. -/
inductive IssueKind where
  | missing
  | extraForbidden
  | stringType
  | intType
  | boolType
  | listType
  | dictType
  | modelType
  | literalError
  deriving DecidableEq, Repr

/-- The name of a kind of issue. -/
def IssueKind.name : IssueKind → String
  | missing => "missing"
  | extraForbidden => "extra_forbidden"
  | stringType => "string_type"
  | intType => "int_type"
  | boolType => "bool_type"
  | listType => "list_type"
  | dictType => "dict_type"
  | modelType => "model_type"
  | literalError => "literal_error"

/-- Something that is wrong, and the path to it: keys, and the numbers of list items. -/
structure Issue where
  path : List String
  kind : IssueKind
  deriving DecidableEq, Repr

namespace Issue

/-- The same issue seen from one step further out. -/
def under (step : String) (i : Issue) : Issue := { i with path := step :: i.path }

/-- The path as a text. -/
def location (i : Issue) : String := ".".intercalate i.path

/-- The order in which issues are listed: by path, then by kind. -/
def le (i j : Issue) : Bool :=
  i.location < j.location || (i.location == j.location && i.kind.name ≤ j.kind.name)

end Issue

/-! ### Checking -/

/-- The outcome of checking a value: its normal form, and what is wrong with it. The
normal form only counts if nothing is. -/
structure Checked (α : Type) where
  value : α
  issues : List Issue
  deriving Repr

/-- What is read as an integer, and what as a truth value. -/
structure Leniency where
  whole? : Json → Option Int
  truth? : Json → Option Bool
  whole?_int : ∀ n, whole? (.int n) = some n
  truth?_bool : ∀ b, truth? (.bool b) = some b

/-- Only an integer is read as one, and only a truth value. -/
def Leniency.strict : Leniency where
  whole?
    | .int n => some n
    | _ => none
  truth?
    | .bool b => some b
    | _ => none
  whole?_int _ := rfl
  truth?_bool _ := rfl

namespace Shape

/-- What is wrong with a value that is not of a shape at all. -/
def mismatch : Shape → IssueKind
  | .text => .stringType
  | .whole => .intType
  | .truth => .boolType
  | .word _ => .literalError
  | .list _ => .listType
  | .table _ => .dictType
  | .record _ => .modelType

/-- What a value is read as where a scalar is asked for. -/
def scalar? (l : Leniency) : Shape → Json → Option Json
  | .text, .str s => some (.str s)
  | .whole, v => (l.whole? v).map .int
  | .truth, v => (l.truth? v).map .bool
  | .word words, .str s => if s ∈ words then some (.str s) else none
  | _, _ => none

end Shape

/-- Checking a value where a scalar is asked for, or where a scalar is given. -/
def Shape.checkScalar (l : Leniency) (s : Shape) (v : Json) : Checked Json :=
  match s.scalar? l v with
  | some w => ⟨w, []⟩
  | none => ⟨v, [⟨[], s.mismatch⟩]⟩

/-- The field that a key of an object stands for, given all the keys of the object. -/
def Record.field? (r : Record) (keys : List String) (key : String) : Option Field :=
  r.fields.find? fun f => f.key == key || (f.alternative == some key && !keys.contains f.key)

/-- The members of a normal form for one field, from the checked members of the object. -/
def Field.assemble (f : Field) (given : List (String × Option Json)) :
    Checked (List (String × Json)) :=
  match given.find? (fun g => g.1 == f.key) with
  | some (_, some v) => ⟨[(f.key, v)], []⟩
  | some (_, none) => ⟨[], []⟩
  | none =>
    match f.absence with
    | .refused => ⟨[], [⟨[f.key], .missing⟩]⟩
    | .emptyList => ⟨[(f.key, .arr [])], []⟩
    | .emptyTable => ⟨[(f.key, .obj [])], []⟩
    | .allowed => ⟨[], []⟩

/-- The normal form of a record from its checked members. -/
def Record.assemble (r : Record) (given : Checked (List (String × Option Json))) : Checked Json :=
  let parts := r.fields.map fun f => f.assemble given.value
  ⟨.obj (parts.flatMap (·.value)), given.issues ++ parts.flatMap (·.issues)⟩

mutual

/-- **Checking a value** against a shape. -/
def Shape.check (l : Leniency) : Shape → Json → Checked Json
  | .list item, .arr vs =>
    let items := checkItems l item 0 vs
    ⟨.arr items.value, items.issues⟩
  | .table item, .obj ms =>
    let entries := checkEntries l item ms
    ⟨.obj entries.value, entries.issues⟩
  | .record r, .obj ms => r.assemble (checkMembers l r (ms.map (·.1)) ms)
  | s, v => s.checkScalar l v

/-- Checking the items of a list, the first being number `i`. -/
def checkItems (l : Leniency) (item : Shape) (i : Nat) : List Json → Checked (List Json)
  | [] => ⟨[], []⟩
  | v :: vs =>
    let first := item.check l v
    let more := checkItems l item (i + 1) vs
    ⟨first.value :: more.value, first.issues.map (.under (toString i)) ++ more.issues⟩

/-- Checking the entries of a table. -/
def checkEntries (l : Leniency) (item : Shape) :
    List (String × Json) → Checked (List (String × Json))
  | [] => ⟨[], []⟩
  | (k, v) :: ms =>
    let first := item.check l v
    let more := checkEntries l item ms
    ⟨(k, first.value) :: more.value, first.issues.map (.under k) ++ more.issues⟩

/-- Checking the members of a record, whose object has these keys: for each field that
is given, its normal form, or nothing if it is null and may be. -/
def checkMembers (l : Leniency) (r : Record) (keys : List String) :
    List (String × Json) → Checked (List (String × Option Json))
  | [] => ⟨[], []⟩
  | (k, v) :: ms =>
    let more := checkMembers l r keys ms
    match r.field? keys k with
    | none => ⟨more.value, ⟨[k], .extraForbidden⟩ :: more.issues⟩
    | some f =>
      match f.absence, v with
      | .allowed, .null => ⟨(f.key, none) :: more.value, more.issues⟩
      | _, v =>
        let first := f.shape.check l v
        ⟨(f.key, some first.value) :: more.value, first.issues.map (.under f.key) ++ more.issues⟩

end

/-- **Validating a value**: its normal form, or everything that is wrong with it. -/
def Shape.validateWith (l : Leniency) (s : Shape) (v : Json) : Except (List Issue) Json :=
  let c := s.check l v
  if c.issues.isEmpty then .ok c.value else .error (c.issues.mergeSort Issue.le)

/-- Validating a value whose scalars are what they should be. -/
def Shape.validate (s : Shape) (v : Json) : Except (List Issue) Json := s.validateWith .strict v

end MiniTemplate
