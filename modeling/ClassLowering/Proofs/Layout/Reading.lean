import ClassLowering.Layout.Unit
import ClassLowering.Printing.Declaration
import ClassLowering.Proofs.Outcome
import Mathlib.Data.List.Basic

/-!
# Reading lowered declarations

The layout makes trees, and later stages see nothing but those trees. Here is what can be read off
them by slot number alone: the declarations of a unit, the members of a class body, the fields
and methods among those, and the entries of a dispatch table. A tree of another shape gives
`none`. Each tree that the layout makes reads back as what it was made from.
-/

set_option autoImplicit false

namespace ClassLowering

theorem Row.children_map {α β : Type} (f : α → β) (r : Row α) :
    (r.map f).children = r.children.map f := by
  simp only [Row.map, Row.children, List.filterMap_map, List.map_filterMap]
  congr 1
  funext s
  cases s <;> rfl

namespace Tree

def subtree? (t : Tree) (index : Nat) : Option Tree := (t.slots[index]?).bind Slot.node?

def word? (t : Tree) (index : Nat) : Option String := (t.slots[index]?).bind Slot.text?

theorem subtree?_eq_some {t c : Tree} {index : Nat} :
    t.subtree? index = some c ↔ t.slots[index]? = some (.node c) := by
  rcases h : t.slots[index]? with _ | _ | _ | b <;> simp [subtree?, h, Slot.node?]

theorem word?_eq_some {t : Tree} {index : Nat} {s : String} :
    t.word? index = some s ↔ t.slots[index]? = some (.text s) := by
  rcases h : t.slots[index]? with _ | _ | _ | b <;> simp [word?, h, Slot.text?]

@[simp] theorem slots_node (k : Kind) (slots : List (Slot Tree)) : (node k slots).slots = slots :=
  rfl

@[simp] theorem subtree?_node (k : Kind) (slots : List (Slot Tree)) (index : Nat) :
    (node k slots).subtree? index = (slots[index]?).bind Slot.node? := rfl

@[simp] theorem word?_node (k : Kind) (slots : List (Slot Tree)) (index : Nat) :
    (node k slots).word? index = (slots[index]?).bind Slot.text? := rfl

@[simp] theorem is_node (k other : Kind) (slots : List (Slot Tree)) :
    (node k slots).is other = decide (k = other) := by
  simp [is]

theorem filterMap_node (trees : List Tree) :
    (trees.map Slot.node).filterMap Slot.node? = trees := by
  simp [List.filterMap_map, Function.comp_def, Slot.node?]

@[simp] theorem children_group (k : Kind) (trees : List Tree) : (group k trees).children = trees :=
  filterMap_node trees

theorem children_namespace (package : String) (members : List Tree) :
    (node .namespaceDeclaration (.text package :: members.map .node)).children = members :=
  filterMap_node members

/-! ## Units -/

/-- The declarations of a unit, with the namespaces around them opened. -/
def declarations : Tree → List Tree :=
  fold fun r => r.children.flatMap fun p => if p.1.is .namespaceDeclaration then p.2 else [p.1]

theorem declarations_eq (t : Tree) : t.declarations =
    t.children.flatMap fun s => if s.is .namespaceDeclaration then s.declarations else [s] := by
  rw [declarations, fold_eq, Row.children_map, List.flatMap_map]
  rfl

theorem declarations_of_children {t : Tree} {packages : List String} {members : List Tree}
    (ht : t.children = inNamespaces packages members)
    (hm : ∀ s ∈ members, s.is .namespaceDeclaration = false) : t.declarations = members := by
  rw [declarations_eq, ht]
  clear ht
  induction packages with
  | nil =>
    have same : ∀ s ∈ members,
        (if s.is .namespaceDeclaration then s.declarations else [s]) = [s] := fun s hs => by
      simp [hm s hs]
    rw [inNamespaces, List.foldr_nil, List.flatMap_congr same, List.flatMap_singleton']
  | cons package rest ih =>
    have hd := declarations_eq (node .namespaceDeclaration
      (.text package :: (inNamespaces rest members).map .node))
    rw [children_namespace, ih] at hd
    simpa [inNamespaces] using hd

def declaresClass (name : String) (t : Tree) : Bool :=
  t.is .classDeclaration && t.word? 1 = some name

def declaresTable (name : String) (t : Tree) : Bool :=
  t.is .vtableDeclaration && t.word? 0 = some name

def classesNamed (unit : Tree) (name : String) : List Tree :=
  unit.declarations.filter (declaresClass name)

def tablesNamed (unit : Tree) (name : String) : List Tree :=
  unit.declarations.filter (declaresTable name)

/-! ## Members of a class -/

def bodyMembers (t : Tree) : List Tree := ((t.subtree? 5).map children).getD []

def isStaticMember (t : Tree) : Bool := (t.subtree? 0).any hasStatic

def asField? (t : Tree) : Option (Tree × List String) := do
  let type ← t.subtree? 1
  let declarators ← t.subtree? 2
  return (type, ← declarators.children.mapM (·.word? 0))

def fieldEntries? (t : Tree) (static : Bool) : Option (List (Tree × List String)) :=
  (t.bodyMembers.filter fun s => s.is .fieldDeclaration && s.isStaticMember == static).mapM
    asField?

structure MethodEntry where
  result : Tree
  name : String
  parameterTypes : List Tree
  deriving DecidableEq

def asMethod? (t : Tree) : Option MethodEntry :=
  if t.is .methodDeclaration then do
    let result ← t.subtree? 2
    let name ← t.word? 3
    let parameters ← t.subtree? 4
    return { result, name, parameterTypes := ← parameters.children.mapM (·.subtree? 1) }
  else none

/-! ## Entries of a table -/

def tableEntries (t : Tree) : List Tree := ((t.subtree? 1).map children).getD []

def asSlot? (t : Tree) : Option DispatchSlot :=
  if t.is .vtableEntry then do
    let result ← t.subtree? 0
    let name ← t.word? 1
    let types ← t.subtree? 2
    let implementor ← t.word? 3
    return { name, result, parameterTypes := types.children, implementor }
  else none

/-! ## What built trees read as -/

theorem hasStatic_modifiers (names : List String) :
    (modifiers names).hasStatic = names.contains "static" := by
  rw [hasStatic, modifiers, children_group, List.any_map, List.contains_eq_any_beq]
  congr 1
  funext name
  by_cases h : "static" = name
  · subst h
    rfl
  · have h' : ¬name = "static" := fun e => h e.symm
    simp [leaf, Slot.text?, h, h']

theorem asField?_fieldDeclaration (modifierNames : List String) (type : Tree)
    (names : List String) :
    (fieldDeclaration modifierNames type names).asField? = some (type, names) := by
  have hn : (names.map (declarator · none)).mapM (·.word? 0) = some (names.map id) :=
    mapM_built (declarator · none) id (fun _ => rfl) names
  rw [List.map_id] at hn
  simp [asField?, fieldDeclaration, Slot.node?, hn, -List.mapM_map]

theorem isStaticMember_fieldDeclaration (modifierNames : List String) (type : Tree)
    (names : List String) : (fieldDeclaration modifierNames type names).isStaticMember =
      modifierNames.contains "static" :=
  hasStatic_modifiers modifierNames

end Tree

namespace FieldDecl

def entry (f : FieldDecl) : Tree × List String := (f.type, f.names)

end FieldDecl

namespace InstanceLayout

theorem bodyMembers_declaration (l : InstanceLayout) : l.declaration.bodyMembers = l.members :=
  Tree.children_group .classBody l.members

theorem isStaticMember_fieldMember (f : FieldDecl) :
    (fieldMember f).isStaticMember = f.isStatic := by
  rw [fieldMember, Tree.isStaticMember_fieldDeclaration]
  cases f.isStatic <;> rfl

theorem asField?_fieldMember (f : FieldDecl) : (fieldMember f).asField? = some f.entry :=
  Tree.asField?_fieldDeclaration _ _ _

theorem is_staticMethod (result : Tree) (name : String) (parameters : List (Tree × String)) :
    (staticMethod result name parameters).is .fieldDeclaration = false :=
  Tree.is_node _ _ _

/-- The fields in a class body: the pointer to the table first, the declared fields in order, and
the table last. Functions stand between the two and are no fields. -/
theorem filter_fields (l : InstanceLayout) (static : Bool) :
    (l.members.filter fun s => s.is .fieldDeclaration && s.isStaticMember == static) =
      (if static then [] else [l.tablePointer])
        ++ (l.fields.filter (·.isStatic == static)).map fieldMember
        ++ (if static then [l.tableField] else []) := by
  have pointer : l.tablePointer.is .fieldDeclaration = true ∧
      l.tablePointer.isStaticMember = false :=
    ⟨Tree.is_node _ _ _, Tree.isStaticMember_fieldDeclaration _ _ _⟩
  have table : l.tableField.is .fieldDeclaration = true ∧ l.tableField.isStaticMember = true :=
    ⟨Tree.is_node _ _ _, Tree.isStaticMember_fieldDeclaration _ _ _⟩
  have constructor : l.defaultConstructor.is .fieldDeclaration = false := Tree.is_node _ _ _
  have accessor : classAccessor.is .fieldDeclaration = false := is_staticMethod _ _ _
  have fields : (l.fields.map fieldMember).filter
      (fun s => s.is .fieldDeclaration && s.isStaticMember == static) =
        (l.fields.filter (·.isStatic == static)).map fieldMember := by
    rw [List.filter_map]
    congr 2
    funext f
    have hf : (fieldMember f).is .fieldDeclaration = true := Tree.is_node _ _ _
    simp [hf, isStaticMember_fieldMember]
  have inits : (l.owner.constructors.map l.initFunction).filter
      (fun s => s.is .fieldDeclaration && s.isStaticMember == static) = [] := by
    simp [initFunction, is_staticMethod]
  have methods : (l.owner.methods.map l.methodMember).filter
      (fun s => s.is .fieldDeclaration && s.isStaticMember == static) = [] := by
    simp [methodMember, is_staticMethod]
  simp only [members, List.cons_append, List.filter_append, List.filter_cons, fields, inits,
    methods, pointer, table, constructor, accessor]
  cases static <;> simp

theorem fieldEntries?_instance (l : InstanceLayout) :
    l.declaration.fieldEntries? false =
      some ((.typeRef (Naming.table l.owner.name ++ "*") 0, ["__vptr"])
        :: (l.fields.filter (!·.isStatic)).map FieldDecl.entry) := by
  have hf := mapM_built fieldMember FieldDecl.entry asField?_fieldMember
    (l.fields.filter (·.isStatic == false))
  simp only [beq_false] at hf
  rw [Tree.fieldEntries?, bodyMembers_declaration, filter_fields]
  simp [List.mapM_cons, tablePointer, Tree.asField?_fieldDeclaration, hf, -List.mapM_map]

theorem fieldEntries?_static (l : InstanceLayout) :
    l.declaration.fieldEntries? true =
      some ((l.fields.filter (·.isStatic)).map FieldDecl.entry
        ++ [(.typeRef (Naming.table l.owner.name) 0, ["__vtable"])]) := by
  have hf := mapM_built fieldMember FieldDecl.entry asField?_fieldMember
    (l.fields.filter (·.isStatic == true))
  simp only [beq_true] at hf
  rw [Tree.fieldEntries?, bodyMembers_declaration, filter_fields]
  simp [List.mapM_append, tableField, Tree.asField?_fieldDeclaration, hf, -List.mapM_map]

theorem asMethod?_staticMethod (result : Tree) (name : String)
    (parameters : List (Tree × String)) :
    (staticMethod result name parameters).asMethod? =
      some ⟨result, name, parameters.map Prod.fst⟩ := by
  have types : (Tree.formalParameters parameters).children.mapM (·.subtree? 1) =
      some (parameters.map Prod.fst) := by
    rw [Tree.formalParameters, Tree.children_group]
    apply mapM_built
    intro p
    rfl
  simp [Tree.asMethod?, staticMethod, Slot.node?, Slot.text?, types]

theorem asMethod?_methodMember (l : InstanceLayout) {f : MethodDecl} (hs : f.isStatic = false)
    (hp : f.parameters.length = f.parameterTypes.length) :
    (l.methodMember f).asMethod? =
      some ⟨f.result, f.name, .typeRef l.owner.name 0 :: f.parameterTypes⟩ := by
  rw [methodMember, asMethod?_staticMethod]
  simp [hs, receiver, selfType, List.map_fst_zip, hp]

end InstanceLayout

namespace DispatchTable

theorem tableEntries_declaration (t : DispatchTable) :
    t.declaration.tableEntries = t.slots.map t.entry :=
  Tree.children_group .vtableEntries _

theorem asSlot?_entry (t : DispatchTable) (slot : DispatchSlot) :
    (t.entry slot).asSlot? = some { slot with
      parameterTypes := .typeRef t.owner.name 0 :: slot.parameterTypes } := by
  simp [Tree.asSlot?, entry, Slot.node?, Slot.text?]

end DispatchTable

end ClassLowering
