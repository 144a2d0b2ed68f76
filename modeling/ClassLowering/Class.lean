import ClassLowering.Naming
import ClassLowering.NameSet
import ClassLowering.Tree.Basic

/-!
# Classes

What is known of a class before it is lowered: its parent, and the types and names of its members.
Parameter names and parameter types are two lists, which correspond as far as both go.
-/

set_option autoImplicit false

namespace ClassLowering

structure FieldDecl where
  modifiers : NameSet := .empty
  type : Tree
  names : List String
  deriving DecidableEq

structure MethodDecl where
  modifiers : NameSet := .empty
  result : Tree
  name : String
  parameters : List String := []
  parameterTypes : List Tree := []
  deriving DecidableEq

structure ConstructorDecl where
  modifiers : NameSet := .empty
  parameters : List String := []
  parameterTypes : List Tree := []
  deriving DecidableEq

structure ClassDecl where
  name : String
  /-- The name of the parent, which is `Naming.noParent` for a root. -/
  parent : String
  fields : List FieldDecl := []
  methods : List MethodDecl := []
  constructors : List ConstructorDecl := []
  deriving DecidableEq

namespace FieldDecl

def isStatic (f : FieldDecl) : Bool := f.modifiers.contains "static"

end FieldDecl

namespace MethodDecl

def isStatic (m : MethodDecl) : Bool := m.modifiers.contains "static"

def addParameter (m : MethodDecl) (name : String) (type : Tree) : MethodDecl :=
  { m with parameters := m.parameters ++ [name], parameterTypes := m.parameterTypes ++ [type] }

end MethodDecl

namespace ConstructorDecl

def addParameter (c : ConstructorDecl) (name : String) (type : Tree) : ConstructorDecl :=
  { c with parameters := c.parameters ++ [name], parameterTypes := c.parameterTypes ++ [type] }

end ConstructorDecl

namespace ClassDecl

def root (name : String) : ClassDecl := { name, parent := Naming.noParent }

def parent? (c : ClassDecl) : Option String :=
  if c.parent = Naming.noParent then none else some c.parent

def addField (c : ClassDecl) (f : FieldDecl) : ClassDecl := { c with fields := c.fields ++ [f] }

def addMethod (c : ClassDecl) (m : MethodDecl) : ClassDecl := { c with methods := c.methods ++ [m] }

def addConstructor (c : ClassDecl) (k : ConstructorDecl) : ClassDecl :=
  { c with constructors := c.constructors ++ [k] }

end ClassDecl

end ClassLowering
