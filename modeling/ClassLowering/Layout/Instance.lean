import ClassLowering.Hierarchy.Lineage
import ClassLowering.Tree.Build

/-!
# The layout of instances

An instance starts with a pointer to the dispatch table. Then come the instance fields of the
ancestors, root first, and the fields of the class, so that a class begins as its parent does.
Static fields stay with the class that declares them. `InstanceLayout.declaration` is the lowered
declaration of a class: its layout, a constructor that sets the pointer, and a static function for
each constructor and method, which takes the receiver as its first parameter.
-/

set_option autoImplicit false

namespace ClassLowering

structure InstanceLayout where
  owner : ClassDecl
  /-- The fields after the pointer to the dispatch table. -/
  fields : List FieldDecl

namespace InstanceLayout

def of (m : ClassMap) (c : ClassDecl) : Except Fault InstanceLayout := do
  let chain ← m.lineage c
  let inherited := (chain.dropLast.flatMap ClassDecl.fields).filter (!·.isStatic)
  return { owner := c, fields := inherited ++ c.fields }

def selfType (l : InstanceLayout) : Tree := .typeRef l.owner.name 0

def receiver (l : InstanceLayout) : Tree × String := (l.selfType, Naming.receiver)

def staticMethod (result : Tree) (name : String) (parameters : List (Tree × String)) : Tree :=
  .node .methodDeclaration [
    .node (.modifiers ["static"]), .absent, .node result, .text name,
    .node (.formalParameters parameters), .absent, .absent, .absent]

def tablePointer (l : InstanceLayout) : Tree :=
  .fieldDeclaration [] (.typeRef (Naming.table l.owner.name ++ "*") 0) ["__vptr"]

def tableField (l : InstanceLayout) : Tree :=
  .fieldDeclaration ["static"] (.typeRef (Naming.table l.owner.name) 0) ["__vtable"]

def fieldMember (f : FieldDecl) : Tree :=
  .fieldDeclaration (if f.isStatic then ["static"] else []) f.type f.names

def defaultConstructor (l : InstanceLayout) : Tree :=
  .node .constructorDeclaration [
    .absent, .absent, .text l.owner.name, .absent,
    .node (.group .initializations [.node .initialization [.text "__vptr", .text "&__vtable"]]),
    .node (.node .block [])]

def initFunction (l : InstanceLayout) (k : ConstructorDecl) : Tree :=
  staticMethod l.selfType "__init" (l.receiver :: k.parameterTypes.zip k.parameters)

def methodMember (l : InstanceLayout) (m : MethodDecl) : Tree :=
  let declared := m.parameterTypes.zip m.parameters
  staticMethod m.result m.name (if m.isStatic then declared else l.receiver :: declared)

def classAccessor : Tree := staticMethod (.typeRef "Class" 0) "__class" []

def members (l : InstanceLayout) : List Tree :=
  l.tablePointer :: l.fields.map fieldMember
    ++ l.defaultConstructor :: l.owner.constructors.map l.initFunction
    ++ l.owner.methods.map l.methodMember
    ++ [classAccessor, l.tableField]

def declaration (l : InstanceLayout) : Tree :=
  .node .classDeclaration [
    .absent, .text l.owner.name, .absent, .absent, .absent, .node (.group .classBody l.members)]

end InstanceLayout

end ClassLowering
