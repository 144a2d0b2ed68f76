import ClassLowering.Codec.Record
import ClassLowering.Tree.Basic

/-!
# Trees in JSON

A tree is the record of its `name` and its `children`; an empty slot is `null`, text is a string,
and a nested tree is a record again. The contents of a slot are taken over whole before they are
understood, so every part of them has to denote something and has to fit into the room that is left
for nesting; elsewhere only what is read counts.
-/

set_option autoImplicit false

namespace ClassLowering

namespace Tree

def fieldNames : List String := ["name", "children"]

mutual

def toJson : Tree → Json
  | mk label slots => .obj [("name", .str label), ("children", .arr (slotsToJson slots))]

def slotsToJson : List (Slot Tree) → List Json
  | [] => []
  | s :: rest => slotToJson s :: slotsToJson rest

def slotToJson : Slot Tree → Json
  | .absent => .null
  | .text s => .str s
  | .node t => toJson t

end

/-- What has been read of a tree that is written as an object. -/
structure Draft where
  label : Option String := none
  slots : Option (List (Slot Tree)) := none

def Draft.setLabel (d : Draft) (label : String) : Option Draft :=
  if d.label.isSome then none else some { d with label }

def Draft.setSlots (d : Draft) (slots : List (Slot Tree)) : Option Draft :=
  if d.slots.isSome then none else some { d with slots }

def Draft.finish (d : Draft) : Option Tree :=
  d.label.map fun label => Tree.mk label (d.slots.getD [])

mutual

/-- The contents of a slot that have been taken over whole. -/
def slotOfWhole? : Json → Option (Slot Tree)
  | .null => some .absent
  | .str s => some (.text s)
  | .arr [.str label] => some (.node (mk label []))
  | .arr [.str label, .arr items] => do return .node (mk label (← slotsOfWhole? items))
  | .obj members => do return .node (← (← draftOf? members {}).finish)
  | _ => none

def slotsOfWhole? : List Json → Option (List (Slot Tree))
  | [] => some []
  | j :: rest => do
    let slot ← slotOfWhole? j
    return slot :: (← slotsOfWhole? rest)

def draftOf? : List (String × Json) → Draft → Option Draft
  | [], d => some d
  | (key, j) :: rest, d =>
    if key = "name" then do
      draftOf? rest (← d.setLabel (← j.text?))
    else if key = "children" then do
      draftOf? rest (← d.setSlots (← slotListOfWhole? j))
    else draftOf? rest d

def slotListOfWhole? : Json → Option (List (Slot Tree))
  | .arr items => slotsOfWhole? items
  | _ => none

end

def slotOfJson? (room : Nat) (j : Json) : Option (Slot Tree) :=
  if j.fits room then slotOfWhole? j else none

def ofJson? (room : Nat) (j : Json) : Option Tree := do
  let members ← j.record? fieldNames
  let label ← Json.required Json.text? "name" members
  let slots ← Json.optional (Json.listOf (slotOfJson? (room - 2))) "children" members
  return mk label slots

end Tree

end ClassLowering
