import ClassLowering.Json.Basic

/-!
# Records in JSON

A record is written as an object, with its members in any order, or as the array of its values in
the order of its fields, where values at the end may be left out. Members that the record does not
have are passed over; a member it has may be given once only.
-/

set_option autoImplicit false

namespace ClassLowering.Json

/-- The members of a record with the given fields, from either notation. -/
def record? (fields : List String) : Json → Option (List (String × Json))
  | obj members =>
    let known := members.filter fun m => fields.contains m.1
    if (known.map Prod.fst).Nodup then some known else none
  | arr items => if items.length ≤ fields.length then some (fields.zip items) else none
  | _ => none

def required {α : Type} (decode : Json → Option α) (key : String)
    (members : List (String × Json)) : Option α := do
  decode (← members.lookup key)

/-- A field that stands for the empty list when it is left out. -/
def optional {α : Type} (decode : Json → Option (List α)) (key : String)
    (members : List (String × Json)) : Option (List α) :=
  match members.lookup key with
  | some j => decode j
  | none => some []

def listOf {α : Type} (decode : Json → Option α) (j : Json) : Option (List α) := do
  (← j.items?).mapM decode

def texts : Json → Option (List String) := listOf text?

end ClassLowering.Json
