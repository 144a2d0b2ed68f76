import ClassLowering.Hierarchy.Lineage
import ClassLowering.Tree.Build

/-!
# Dispatch tables

A dispatch table has one slot for each instance method that a class has, inherited or declared.
Slots come from the root down: a method with the name and the parameter types of an earlier slot
takes that slot over in its place, and any other instance method gets a new slot at the end. So a
table begins with the slots of the parent's table, with other implementors. Static methods have no
slot.
-/

set_option autoImplicit false

namespace ClassLowering

structure DispatchSlot where
  name : String
  result : Tree
  /-- The declared parameter types, without the receiver. -/
  parameterTypes : List Tree
  /-- The class whose definition the slot refers to. -/
  implementor : String
  deriving DecidableEq

namespace DispatchSlot

def ofMethod (implementor : String) (m : MethodDecl) : DispatchSlot :=
  { name := m.name, result := m.result, parameterTypes := m.parameterTypes, implementor }

def sharesWith (a b : DispatchSlot) : Bool :=
  a.name = b.name && a.parameterTypes = b.parameterTypes

/-- The slots after a method is added: the first slot that it matches is taken over. -/
def place (slot : DispatchSlot) : List DispatchSlot → List DispatchSlot
  | [] => [slot]
  | first :: rest => if first.sharesWith slot then slot :: rest else first :: place slot rest

end DispatchSlot

structure DispatchTable where
  owner : ClassDecl
  slots : List DispatchSlot

namespace DispatchTable

def extend (slots : List DispatchSlot) (c : ClassDecl) : List DispatchSlot :=
  (c.methods.filter (!·.isStatic)).foldl
    (fun slots m => (DispatchSlot.ofMethod c.name m).place slots) slots

def of (m : ClassMap) (c : ClassDecl) : Except Fault DispatchTable := do
  return { owner := c, slots := (← m.lineage c).foldl extend [] }

def entry (t : DispatchTable) (slot : DispatchSlot) : Tree :=
  .node .vtableEntry [
    .node slot.result, .text slot.name,
    .node (.group .parameterTypes (.typeRef t.owner.name 0 :: slot.parameterTypes)),
    .text slot.implementor]

/-- The lowered declaration of a table. Every slot takes the owner as its receiver. -/
def declaration (t : DispatchTable) : Tree :=
  .node .vtableDeclaration [.text t.owner.name, .node (.group .vtableEntries (t.slots.map t.entry))]

end DispatchTable

end ClassLowering
