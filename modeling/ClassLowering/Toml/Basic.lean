/-!
# TOML values

A document is a table of named values. What a table was made by decides how it may be extended
later: a table with a header of its own is complete, a table that only appears in the path of a
header may still get one, and a table that was made by dotted keys grows by dotted keys. Tables
written in braces are values like any other. Numbers and dates keep their spelling.
-/

set_option autoImplicit false

namespace ClassLowering

inductive Toml.Origin where
  /-- The table has a header, or is the document itself. -/
  | header
  /-- The table stands in the path of a header. -/
  | path
  /-- The table stands in a dotted key. -/
  | dotted
  deriving DecidableEq, Repr

inductive Toml where
  | string (s : String)
  | integer (n : Int)
  | float (literal : String)
  | boolean (b : Bool)
  | datetime (literal : String)
  | array (items : List Toml)
  | braced (entries : List (String × Toml))
  | table (origin : Toml.Origin) (entries : List (String × Toml))
  | tables (items : List (List (String × Toml)))

namespace Toml

abbrev Entries := List (String × Toml)

instance : Inhabited Toml := ⟨.boolean false⟩

def Entries.set (key : String) (v : Toml) : Entries → Entries
  | [] => [(key, v)]
  | first :: rest => if first.1 = key then (key, v) :: rest else first :: Entries.set key v rest

end Toml

end ClassLowering
