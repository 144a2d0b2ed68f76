import ClassLowering.Naming
import ClassLowering.Tree.Basic

/-!
# Building trees

Constructors for the trees that the library makes itself. Each fills every slot that its kind
defines and leaves the unused ones empty.
-/

set_option autoImplicit false

namespace ClassLowering.Tree

def node (k : Kind) (slots : List (Slot Tree)) : Tree := mk k.label slots

def leaf (k : Kind) (s : String) : Tree := node k [.text s]

def group (k : Kind) (trees : List Tree) : Tree := node k (trees.map .node)

@[simp] theorem kind_node (k : Kind) (slots : List (Slot Tree)) : (node k slots).kind = k :=
  Kind.ofLabel_label k

def push (t : Tree) (s : Slot Tree) : Tree := mk t.label (t.slots ++ [s])

def wrap (t : Tree) (label : String) : Tree := mk label [.node t]

def primitives : List String :=
  ["byte", "short", "int", "long", "char", "boolean", "float", "double"]

/-- The type with the given name and number of array dimensions. A name that is not primitive is
qualified by dots. -/
def typeRef (name : String) (dimensions : Nat) : Tree :=
  if name = "void" then node .voidType []
  else
    let base := if primitives.contains name then leaf .primitiveType name
      else node .qualifiedIdentifier ((Text.splitOn '.' name).map .text)
    node .type [.node base,
      if dimensions = 0 then .absent
      else .node (node .dimensions (List.replicate dimensions (.text "[")))]

def modifiers (names : List String) : Tree := group .modifiers (names.map (leaf .modifier))

def declarator (name : String) (initializer : Option Tree) : Tree :=
  node .declarator [.text name, .absent, .ofOption initializer]

def fieldDeclaration (modifierNames : List String) (type : Tree) (names : List String) : Tree :=
  node .fieldDeclaration [
    .node (modifiers modifierNames),
    .node type,
    .node (group .declarators (names.map (declarator · none)))]

def formalParameter (type : Tree) (name : String) : Tree :=
  node .formalParameter [.node (modifiers []), .node type, .absent, .text name, .absent]

def formalParameters (parameters : List (Tree × String)) : Tree :=
  group .formalParameters (parameters.map fun (type, name) => formalParameter type name)

end ClassLowering.Tree
