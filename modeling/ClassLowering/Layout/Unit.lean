import ClassLowering.Layout.Dispatch
import ClassLowering.Layout.Instance

/-!
# Compilation units

The trees of the three generated files. The header declares every class; the implementation holds
the lowered definitions and the class objects; the entry point holds `main`. Packages become nested
namespaces.
-/

set_option autoImplicit false

namespace ClassLowering

/-- Trees inside one namespace for each package, the first package outermost. -/
def inNamespaces (packages : List String) (members : List Tree) : List Tree :=
  packages.foldr (fun package inner =>
    [.node .namespaceDeclaration (.text package :: inner.map .node)]) members

def qualifiedName (packages : List String) (className mark : String) : String :=
  Text.joinWith mark (packages ++ [className])

namespace ClassDecl

def forwardDeclarations (c : ClassDecl) : List Tree :=
  [Naming.record c.name, Naming.table c.name].map fun name =>
    .node .forwardDeclaration [.text "struct", .text name]

def typeAlias (c : ClassDecl) : Tree :=
  .node .typeSpecifier [.text "typedef", .text (Naming.record c.name ++ "*"), .text c.name]

def classObject (c : ClassDecl) (packages : List String) : Tree :=
  .node .classMethodDefinition [.text (qualifiedName packages c.name "."), .text c.parent]

def declarations (m : ClassMap) (c : ClassDecl) : Except Fault (List Tree) := do
  let layout ← InstanceLayout.of m c
  let table ← DispatchTable.of m c
  return [layout.declaration, table.declaration]

end ClassDecl

def entryPointUnit (mainClass : String) (packages : List String) : Tree :=
  .group .compilationUnit [.leaf .mainMethodDefinition (qualifiedName packages mainClass "::")]

def Tree.isPreface (t : Tree) : Bool := t.is .packageDeclaration || t.is .importDeclaration

/-- What a lowered unit contributes to the implementation. -/
def Tree.definitions (unit : Tree) : List Tree :=
  if unit.is .compilationUnit then unit.children.filter (!·.isPreface) else [unit]

namespace Hierarchy

def wrapped (h : Hierarchy) (members : List Tree) : Tree :=
  .group .compilationUnit (inNamespaces h.packages members)

def headerUnit (h : Hierarchy) : Except Fault Tree := do
  let classes ← h.classes.ordered
  let declarations ← classes.mapM (ClassDecl.declarations h.classes)
  return h.wrapped (
    .group .forwardDeclarations (classes.flatMap ClassDecl.forwardDeclarations)
    :: .group .typeSpecifiers (classes.map ClassDecl.typeAlias)
    :: declarations.flatten)

def implementationUnit (h : Hierarchy) (lowered : List Tree) : Except Fault Tree := do
  let classes ← h.classes.ordered
  return h.wrapped (lowered.flatMap Tree.definitions ++ classes.map (·.classObject h.packages))

def entryUnit (h : Hierarchy) (mainClass : String) : Except Fault Tree :=
  if h.classes.contains mainClass then .ok (entryPointUnit mainClass h.packages)
  else .error (.unknownClass mainClass)

end Hierarchy

end ClassLowering
