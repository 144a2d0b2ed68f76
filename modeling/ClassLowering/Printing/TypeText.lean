import ClassLowering.Naming
import ClassLowering.Settings
import ClassLowering.Tree.Basic

/-!
# Text of types and class references

A type is written with the names that the target library declares: primitives by their fixed width,
qualified names with `::` between the segments, and one array type around the base for each
dimension. A class reference is written as the path of the record of the class.
-/

set_option autoImplicit false

namespace ClassLowering

def primitiveText : String → String
  | "int" => "int32_t"
  | "long" => "int64_t"
  | "short" => "int16_t"
  | "byte" => "int8_t"
  | "boolean" => "bool"
  | other => other

/-- The segments of a qualified name, joined by `::`; every slot has to hold one. -/
def Row.qualifiedText {α : Type} (r : Row α) : Except Fault String := do
  let segments ← (List.range r.slots.length).mapM fun i => r.text i "identifier segment"
  return Text.joinWith "::" segments

def RuntimeSettings.arrayOf (runtime : RuntimeSettings) (base : String) : Nat → String
  | 0 => base
  | dims + 1 => runtime.arrayType ++ "<" ++ runtime.arrayOf base dims ++ ">"

def typeRule (runtime : RuntimeSettings) (r : Row (Tree × Except Fault String)) :
    Except Fault String := do
  match r.kind with
  | .voidType => return "void"
  | .primitiveType => return primitiveText (← r.text 0 "primitive name")
  | .qualifiedIdentifier => r.qualifiedText
  | .type =>
    let base ← (← r.child 0 "base type").2
    match ← r.child? 1 "dimensions" with
    | some (dimensions, _) => return runtime.arrayOf base dimensions.slots.length
    | none => return base
  | _ => throw (.unexpectedKind "a type" r.label)

def Tree.typeText (runtime : RuntimeSettings) : Tree → Except Fault String :=
  Tree.fold (typeRule runtime)

def recordRule (r : Row (Tree × Except Fault String)) : Except Fault String := do
  match r.kind with
  | .type => (← r.child 0 "base type").2
  | .qualifiedIdentifier => return Naming.recordPath (← r.qualifiedText)
  | .primaryIdentifier => return Naming.recordPath (← r.text 0 "name")
  | _ => throw (.unexpectedKind "a class reference" r.label)

def Tree.recordText : Tree → Except Fault String :=
  Tree.fold recordRule

end ClassLowering
