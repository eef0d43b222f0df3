/-!
# Attribute values in quotes

A value is written between double quotes; a value that has double quotes in it,
between single ones. A value that has both kinds is written between double quotes,
and its own double quotes as `&quot;`.
-/

namespace MiniTemplate.Markup

/-- A value with its double quotes written as `&quot;`. -/
def maskQuotes (value : String) : String :=
  String.ofList (value.toList.flatMap fun c => if c = '"' then "&quot;".toList else [c])

/-- A value between quotes. -/
def quoteValue (value : String) : String :=
  if '"' ∈ value.toList then
    if '\'' ∈ value.toList then "\"" ++ maskQuotes value ++ "\""
    else "'" ++ value ++ "'"
  else "\"" ++ value ++ "\""

/-- **An attribute with its value**, as written. -/
def assign (name value : String) : String := name ++ "=" ++ quoteValue value

end MiniTemplate.Markup
