import ClassLowering.Text

/-!
# Names in the lowered program

A class `C` is lowered to a record `__C` and a dispatch table `__C_VT`. The marker `__` keeps the
generated names apart from those of the source program.
-/

set_option autoImplicit false

namespace ClassLowering.Naming

def noParent : String := "null"

def receiver : String := "__this"

def marker : String := "__"

def record (className : String) : String := marker ++ className

def table (className : String) : String := marker ++ className ++ "_VT"

/-- The path of the record of a class: its last segment is marked. -/
def recordPath (path : String) : String :=
  match Text.cutScope path.toList with
  | some (scope, name) => String.ofList scope ++ "::" ++ marker ++ String.ofList name
  | none => marker ++ path

end ClassLowering.Naming
