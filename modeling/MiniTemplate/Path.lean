import MiniTemplate.Text.Split

/-!
# Paths

A path is normalised without asking what is there: empty parts and single dots are
dropped, so that `./a//b` is `a/b`. What is left of a path without parts is a dot. Two
slashes in front of a path are kept apart from one, three or more are one.
-/

namespace MiniTemplate.Path

/-- The slashes in front of a path. -/
def root (cs : List Char) : String :=
  match (cs.takeWhile (· == '/')).length with
  | 0 => ""
  | 2 => "//"
  | _ => "/"

/-- The parts of a path that say something. -/
def parts (cs : List Char) : List String :=
  let (first, more) := Text.split '/' cs
  (first :: more).filterMap fun p => if p.isEmpty ∨ p = ['.'] then none else some (String.ofList p)

/-- A path of its slashes in front and its parts. -/
def build (root : String) (parts : List String) : String :=
  if root.isEmpty ∧ parts.isEmpty then "." else root ++ "/".intercalate parts

/-- **A path without what says nothing.** -/
def normalize (path : String) : String := build (root path.toList) (parts path.toList)

/-- A file in a directory. -/
def join (directory file : String) : String :=
  build (root directory.toList) (parts directory.toList ++ parts file.toList)

end MiniTemplate.Path
