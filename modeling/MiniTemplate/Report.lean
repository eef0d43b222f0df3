import MiniTemplate.Reading.Template
import MiniTemplate.Report.Shape
import MiniTemplate.Report.Tree

/-!
# The report on a template

A report is the JSON of a reading: the version of the tool, whether there were no
faults, the tree, and the texts of all remarks. It is validated against its own shape
before it is given out, so that nothing reaches a reader of reports that the shape does
not promise. What is reported on need not have been read: any forest will do, and any texts.

The JSON of a tree is made by recursion on it, and so are its validation and its text. A machine
ends such a recursion at some depth; that limit is left out here, and a tree of any depth is
reported on.
-/

namespace MiniTemplate

/-- The version of the tool: the one that is installed, if there is one. -/
def toolVersion (installed : Option String) : String := installed.getD "0.0.0"

namespace Report

/-- A report as it is put together. -/
def draft (version : String) (f : Forest) (errors warnings : List String) : Json :=
  .obj [("version", .str version), ("ok", .bool errors.isEmpty),
    ("tree", .arr (Node.listJson f)), ("errors", .strings errors),
    ("warnings", .strings warnings)]

/-- **The report on a forest** with the texts of the remarks on it, validated. -/
def make (l : Leniency) (version : String) (f : Forest) (errors warnings : List String) :
    Except (List Issue) Json :=
  (Shape.record .report).validateWith l (draft version f errors warnings)

/-- The report on a template. -/
def ofTemplate (version : String) (t : Template) : Except (List Issue) Json :=
  make .strict version t.forest t.errors t.warnings

end Report

end MiniTemplate
