import ClassLowering.Bundle
import ClassLowering.Codec.Tree
import ClassLowering.Fault
import ClassLowering.Json.Reader
import ClassLowering.Json.Writer

/-!
# Classes, hierarchies and bundles in JSON

Each record is written with all its fields in a fixed order. A hierarchy lists its classes as an
object in the order of registration. Reading starts with room for `nestingLimit` levels.
-/

set_option autoImplicit false

namespace ClassLowering

/-- How deep arrays and objects may be nested in a text that is read. -/
def nestingLimit : Nat := 127

open Json (required optional listOf texts ofStrings)

def NameSet.toJson (set : NameSet) : Json := ofStrings set.toList

namespace FieldDecl

def fieldNames : List String := ["modifiers", "field_type", "declarators"]

def toJson (f : FieldDecl) : Json :=
  .obj [
    ("modifiers", f.modifiers.toJson),
    ("field_type", f.type.toJson),
    ("declarators", ofStrings f.names)]

def ofJson? (room : Nat) (j : Json) : Option FieldDecl := do
  let r ← j.record? fieldNames
  let modifiers ← optional texts "modifiers" r
  let type ← required (Tree.ofJson? (room - 1)) "field_type" r
  let names ← required texts "declarators" r
  return { modifiers := .ofList modifiers, type, names }

end FieldDecl

namespace MethodDecl

def fieldNames : List String :=
  ["modifiers", "return_type", "name", "parameters", "parameter_types"]

def toJson (m : MethodDecl) : Json :=
  .obj [
    ("modifiers", m.modifiers.toJson),
    ("return_type", m.result.toJson),
    ("name", .str m.name),
    ("parameters", ofStrings m.parameters),
    ("parameter_types", .ofList Tree.toJson m.parameterTypes)]

def ofJson? (room : Nat) (j : Json) : Option MethodDecl := do
  let r ← j.record? fieldNames
  let modifiers ← optional texts "modifiers" r
  let result ← required (Tree.ofJson? (room - 1)) "return_type" r
  let name ← required Json.text? "name" r
  let parameters ← optional texts "parameters" r
  let parameterTypes ← optional (listOf (Tree.ofJson? (room - 2))) "parameter_types" r
  return { modifiers := .ofList modifiers, result, name, parameters, parameterTypes }

end MethodDecl

namespace ConstructorDecl

def fieldNames : List String := ["modifiers", "parameters", "parameter_types"]

def toJson (c : ConstructorDecl) : Json :=
  .obj [
    ("modifiers", c.modifiers.toJson),
    ("parameters", ofStrings c.parameters),
    ("parameter_types", .ofList Tree.toJson c.parameterTypes)]

def ofJson? (room : Nat) (j : Json) : Option ConstructorDecl := do
  let r ← j.record? fieldNames
  let modifiers ← optional texts "modifiers" r
  let parameters ← optional texts "parameters" r
  let parameterTypes ← optional (listOf (Tree.ofJson? (room - 2))) "parameter_types" r
  return { modifiers := .ofList modifiers, parameters, parameterTypes }

end ConstructorDecl

namespace ClassDecl

def fieldNames : List String :=
  ["class_name", "parent_class_name", "fields", "methods", "constructors"]

def toJson (c : ClassDecl) : Json :=
  .obj [
    ("class_name", .str c.name),
    ("parent_class_name", .str c.parent),
    ("fields", .ofList FieldDecl.toJson c.fields),
    ("methods", .ofList MethodDecl.toJson c.methods),
    ("constructors", .ofList ConstructorDecl.toJson c.constructors)]

def ofJson? (room : Nat) (j : Json) : Option ClassDecl := do
  let r ← j.record? fieldNames
  let name ← required Json.text? "class_name" r
  let parent ← required Json.text? "parent_class_name" r
  let fields ← optional (listOf (FieldDecl.ofJson? (room - 2))) "fields" r
  let methods ← optional (listOf (MethodDecl.ofJson? (room - 2))) "methods" r
  let constructors ← optional (listOf (ConstructorDecl.ofJson? (room - 2))) "constructors" r
  return { name, parent, fields, methods, constructors }

end ClassDecl

namespace ClassMap

def toJson (m : ClassMap) : Json := .obj (m.entries.map fun (key, c) => (key, c.toJson))

def ofJson? (room : Nat) (j : Json) : Option ClassMap := do
  let entries ← (← j.members?).mapM fun (key, c) => do
    return (key, ← ClassDecl.ofJson? (room - 1) c)
  return .ofEntries entries

end ClassMap

namespace Hierarchy

def fieldNames : List String := ["classes", "packages"]

def toJson (h : Hierarchy) : Json :=
  .obj [("classes", h.classes.toJson), ("packages", ofStrings h.packages)]

def ofJson? (room : Nat) (j : Json) : Option Hierarchy := do
  let r ← j.record? fieldNames
  let classes ← required (ClassMap.ofJson? (room - 1)) "classes" r
  let packages ← optional texts "packages" r
  return { classes, packages }

end Hierarchy

namespace Bundle

def fieldNames : List String := ["packages", "classes", "units", "lowered"]

def toJson (b : Bundle) : Json :=
  .obj [
    ("packages", ofStrings b.packages),
    ("classes", .ofList ClassDecl.toJson b.classes),
    ("units", .ofList Tree.toJson b.units),
    ("lowered", .ofList Tree.toJson b.lowered)]

def ofJson? (room : Nat) (j : Json) : Option Bundle := do
  let r ← j.record? fieldNames
  let packages ← optional texts "packages" r
  let classes ← optional (listOf (ClassDecl.ofJson? (room - 2))) "classes" r
  let units ← optional (listOf (Tree.ofJson? (room - 2))) "units" r
  let lowered ← optional (listOf (Tree.ofJson? (room - 2))) "lowered" r
  return { packages, classes, units, lowered }

def read (text : String) : Except Fault Bundle :=
  match (Json.parse? text).bind (ofJson? nestingLimit) with
  | some b => .ok b
  | none => .error .badBundle

end Bundle

end ClassLowering
