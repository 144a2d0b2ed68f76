import ClassLowering.Printing.Render
import ClassLowering.Proofs.Layout.Header
import ClassLowering.Proofs.Printing.TypeText

/-!
# What the header prints

The printer reads slots by number, and the layout fills them by position. For each declaration that
the layout makes there is an equation for what it prints in the header: the only steps left in it
that can fail are the texts of the types that the classes were given. So a header is printed
unless one of those types has no text, and the fault is then the fault of that type.
-/

set_option autoImplicit false

namespace ClassLowering

open Text (joinWith concat)

-- reading a slot of a known node is a computation
attribute [local simp] Row.text Row.child Row.child? Row.slot Slot.map Part.tree Part.print

namespace Tree

@[simp] theorem row_node (k : Kind) (slots : List (Slot Tree)) :
    (node k slots).row = ⟨k.label, slots⟩ := rfl

theorem print_node (k : Kind) (slots : List (Slot Tree)) :
    (node k slots).print = printRule (rowWith print k slots) :=
  fold_node printRule k slots

theorem children_rowWith (k : Kind) (slots : List (Slot Tree)) :
    (rowWith print k slots).children = (node k slots).children.map fun t => (t, t.print) :=
  Row.children_map (fun t : Tree => (t, t.print)) (node k slots).row

theorem printChildren_rowWith (k : Kind) (slots : List (Slot Tree)) (pos : Position)
    (ctx : Context) : (rowWith print k slots).printChildren pos ctx =
      (node k slots).children.mapM fun t => t.print pos (ctx.inside k) := by
  rw [Row.printChildren, children_rowWith, List.mapM_map, kind_rowWith]
  rfl

def listEnd : Kind → Option String
  | .compilationUnit | .classBody => some ""
  | .forwardDeclarations | .typeSpecifiers => some "\n"
  | _ => none

theorem print_group {k : Kind} {tail : String} (hk : listEnd k = some tail) (trees : List Tree)
    (ctx : Context) : (group k trees).print .item ctx = (do
      return concat (← trees.mapM fun t => t.print .item (ctx.inside k)) ++ tail) := by
  have items : itemsText (rowWith print k (trees.map .node)) ctx = (do
      return concat (← trees.mapM fun t => t.print .item (ctx.inside k))) := by
    rw [itemsText, printChildren_rowWith, ← group, children_group]
  unfold listEnd at hk
  split at hk <;> cases hk <;> simp [group, print_node, printRule, itemText, items]

theorem print_namespace (package : String) (members : List Tree) (ctx : Context) :
    (node .namespaceDeclaration (.text package :: members.map .node)).print .item ctx = (do
      let texts ← members.mapM fun t => t.print .item (ctx.deeper.inside .namespaceDeclaration)
      return ctx.lines ["namespace " ++ package ++ " \x7b", ""] ++ concat texts
        ++ ctx.lines ["\x7d", ""]) := by
  simp only [print_node, printRule, itemText, kind_rowWith]
  simp [namespaceText, itemsText, printChildren_rowWith, children_namespace]

end Tree

/-! ## Members of a class -/

section Members

variable {ctx : Context} (header : ctx.artifact = .header)

theorem parametersText_formalParameters (runtime : RuntimeSettings)
    (parameters : List (Tree × String)) :
    parametersText runtime (.formalParameters parameters) = (do
      let texts ← parameters.mapM fun p => do return (← p.1.typeText runtime) ++ " " ++ p.2
      return "(" ++ joinWith ", " texts ++ ")") := by
  rw [parametersText, Tree.formalParameters, Tree.children_group, List.mapM_map]
  rfl

include header in
theorem print_staticMethod (result : Tree) (name : String) (parameters : List (Tree × String)) :
    (InstanceLayout.staticMethod result name parameters).print .item ctx = (do
      let type ← result.typeText ctx.runtime
      let list ← parametersText ctx.runtime (.formalParameters parameters)
      return ctx.line ("static " ++ type ++ " " ++ name ++ list ++ ";")) := by
  simp only [InstanceLayout.staticMethod, Tree.print_node, printRule, itemText, Tree.kind_rowWith]
  simp [methodText, header, staticLead, Tree.hasStatic_modifiers]

theorem mapM_declarator (names : List String) :
    (names.map (Tree.declarator · none)).mapM (fun d => d.row.text 0 "declarator name") =
      .ok names := by
  rw [mapM_built (Tree.declarator · none) id fun name => ?_, List.map_id]
  · rfl
  · rfl

include header in
theorem print_fieldDeclaration (member : ctx.isMember = true) (modifiers : List String)
    (type : Tree) (names : List String) :
    (Tree.fieldDeclaration modifiers type names).print .item ctx = (do
      let text ← type.typeText ctx.runtime
      return ctx.line ((if modifiers.contains "static" then "static " else "") ++ text ++ " "
        ++ joinWith ", " names ++ ";")) := by
  simp only [Tree.fieldDeclaration, Tree.print_node, printRule, itemText, Tree.kind_rowWith]
  simp [fieldText, member, memberFieldText, header, staticLead, Tree.hasStatic_modifiers,
    mapM_declarator, -List.mapM_map, -Row.text]

include header in
theorem print_defaultConstructor (l : InstanceLayout) :
    l.defaultConstructor.print .item ctx = .ok (ctx.indentation ++ Naming.recordPath l.owner.name
      ++ "()" ++ " : __vptr(&__vtable)" ++ " \x7b\x7d" ++ "\n\n") := by
  simp only [InstanceLayout.defaultConstructor, Tree.print_node, printRule, itemText,
    Tree.kind_rowWith]
  simp [constructorText, header, Tree.print_node, printRule, bracesText, initializationsText,
    initializationText, joinWith]

include header in
theorem print_classDeclaration (l : InstanceLayout) :
    l.declaration.print .item ctx = (do
      let members ← l.members.mapM fun t =>
        t.print .item ((ctx.inside .classDeclaration).deeper.inside .classBody)
      return ctx.line ("struct " ++ Naming.recordPath l.owner.name ++ " \x7b") ++ concat members
        ++ ctx.lines ["\x7d;", ""]) := by
  simp only [InstanceLayout.declaration, Tree.print_node, printRule, itemText, Tree.kind_rowWith]
  simp [classText, header, Tree.print_group (k := .classBody) rfl]

end Members

/-! ## Tables and introductions -/

def DispatchSlot.shown (slot : DispatchSlot) (className result : String) (types : List String) :
    SlotText :=
  let parameters := joinWith ", " types
  let cast := if slot.implementor = className then ""
    else "(" ++ result ++ "(*)(" ++ parameters ++ ")) "
  { member := result ++ " (*" ++ slot.name ++ ")(" ++ parameters ++ ");"
    initializer := slot.name ++ "(" ++ cast ++ "&" ++ Naming.recordPath slot.implementor ++ "::"
      ++ slot.name ++ ")" }

theorem slotText_entry (runtime : RuntimeSettings) (className : String) (t : DispatchTable)
    (slot : DispatchSlot) :
    slotText runtime className (t.entry slot).row = (do
      let result ← slot.result.typeText runtime
      let types ← (.typeRef t.owner.name 0 :: slot.parameterTypes).mapM (Tree.typeText runtime)
      return slot.shown className result types) := by
  simp only [DispatchTable.entry, slotText]
  simp [DispatchSlot.shown, -List.mapM_cons]

theorem print_tableDeclaration {ctx : Context} (header : ctx.artifact = .header)
    (t : DispatchTable) :
    t.declaration.print .item ctx = (do
      let slots ← t.slots.mapM fun slot => slotText ctx.runtime t.owner.name (t.entry slot).row
      let record := Naming.recordPath t.owner.name
      let initializers := ("__is_a(" ++ record ++ "::__class())") :: slots.map SlotText.initializer
      return ctx.line ("struct " ++ record ++ "_VT \x7b")
        ++ ctx.deeper.lines (["Class __is_a;"] ++ slots.map SlotText.member
          ++ ["", record ++ "_VT()"] ++ initializerLines ": " initializers ++ ["\x7b", "\x7d"])
        ++ ctx.lines ["\x7d;", ""]) := by
  simp only [DispatchTable.declaration, Tree.print_node, printRule, itemText, Tree.kind_rowWith]
  simp [dispatchTableText, header, Function.comp_def]

theorem print_forwardDeclaration (ctx : Context) (keyword name : String) :
    (Tree.node .forwardDeclaration [.text keyword, .text name]).print .item ctx =
      .ok (ctx.line (keyword ++ " " ++ name ++ ";")) := by
  simp only [Tree.print_node, printRule, itemText, Tree.kind_rowWith]
  simp [forwardDeclarationText]

theorem print_typeAlias (ctx : Context) (c : ClassDecl) :
    c.typeAlias.print .item ctx = .ok (ctx.line
      ("typedef" ++ " " ++ (Naming.record c.name ++ "*") ++ " " ++ c.name ++ ";")) := by
  simp only [ClassDecl.typeAlias, Tree.print_node, printRule, itemText, Tree.kind_rowWith]
  simp [typeSpecifierText]

/-! ## Faults -/

def ClassDecl.typeTrees (c : ClassDecl) : List Tree :=
  c.fields.map FieldDecl.type
    ++ c.methods.flatMap (fun f => f.result :: f.parameterTypes)
    ++ c.constructors.flatMap ConstructorDecl.parameterTypes

theorem ClassDecl.field_type_mem (c : ClassDecl) {f : FieldDecl} (hf : f ∈ c.fields) :
    f.type ∈ c.typeTrees := by
  simp only [typeTrees, List.mem_append]
  exact .inl (.inl (List.mem_map.mpr ⟨f, hf, rfl⟩))

theorem ClassDecl.method_type_mem (c : ClassDecl) {f : MethodDecl} (hf : f ∈ c.methods)
    {type : Tree} (ht : type ∈ f.result :: f.parameterTypes) : type ∈ c.typeTrees := by
  simp only [typeTrees, List.mem_append]
  exact .inl (.inr (List.mem_flatMap.mpr ⟨f, hf, ht⟩))

theorem ClassDecl.constructor_type_mem (c : ClassDecl) {k : ConstructorDecl}
    (hk : k ∈ c.constructors) {type : Tree} (ht : type ∈ k.parameterTypes) :
    type ∈ c.typeTrees := by
  simp only [typeTrees, List.mem_append]
  exact .inr (List.mem_flatMap.mpr ⟨k, hk, ht⟩)

namespace FailsWithin

variable {E : Fault → Prop} {ctx : Context}

theorem typeRef (runtime : RuntimeSettings) (name : String) (dimensions : Nat) :
    FailsWithin E ((Tree.typeRef name dimensions).typeText runtime) := by
  rw [Tree.typeText_typeRef]
  exact ok _

theorem group {k : Kind} {tail : String} (hk : Tree.listEnd k = some tail) {trees : List Tree}
    (h : ∀ t ∈ trees, FailsWithin E (t.print .item (ctx.inside k))) :
    FailsWithin E ((Tree.group k trees).print .item ctx) := by
  rw [Tree.print_group hk]
  exact (mapM h).bind fun _ => ok _

theorem inNamespaces {members : List Tree} (packages : List String)
    (header : ctx.artifact = .header)
    (h : ∀ ctx' : Context, ctx'.artifact = .header → ctx'.settings = ctx.settings →
      ∀ t ∈ members, FailsWithin E (t.print .item ctx')) :
    ∀ t ∈ ClassLowering.inNamespaces packages members, FailsWithin E (t.print .item ctx) := by
  induction packages generalizing ctx with
  | nil => exact h ctx header rfl
  | cons package rest ih =>
    intro t ht
    obtain rfl := List.mem_singleton.mp ht
    rw [Tree.print_namespace]
    apply bind _ fun _ => ok _
    apply mapM
    intro t ht
    have inner : (ctx.deeper.inside .namespaceDeclaration).artifact = .header := header
    exact ih inner h t ht

section Declarations

variable (header : ctx.artifact = .header)

include header in
theorem staticMethod {result : Tree} (name : String) {parameters : List (Tree × String)}
    (hr : FailsWithin E (result.typeText ctx.runtime))
    (hp : ∀ p ∈ parameters, FailsWithin E (p.1.typeText ctx.runtime)) :
    FailsWithin E ((InstanceLayout.staticMethod result name parameters).print .item ctx) := by
  rw [print_staticMethod header, parametersText_formalParameters]
  have texts : FailsWithin E (parameters.mapM fun p => do
      return (← p.1.typeText ctx.runtime) ++ " " ++ p.2) := by
    apply mapM
    intro p h
    exact (hp p h).bind fun _ => ok _
  exact hr.bind fun _ => (texts.bind fun _ => ok _).bind fun _ => ok _

include header in
theorem fieldDeclaration (member : ctx.isMember = true) (modifiers : List String) {type : Tree}
    (names : List String) (ht : FailsWithin E (type.typeText ctx.runtime)) :
    FailsWithin E ((Tree.fieldDeclaration modifiers type names).print .item ctx) := by
  rw [print_fieldDeclaration header member]
  exact ht.bind fun _ => ok _

include header in
/-- Everything that the layout adds to the members of a class has a text; the rest is as good as
the types of the class and of the fields that it inherits. -/
theorem members (member : ctx.isMember = true) (l : InstanceLayout)
    (fields : ∀ f ∈ l.fields, FailsWithin E (f.type.typeText ctx.runtime))
    (own : ∀ t ∈ l.owner.typeTrees, FailsWithin E (t.typeText ctx.runtime)) :
    ∀ t ∈ l.members, FailsWithin E (t.print .item ctx) := by
  have self : FailsWithin E (l.receiver.1.typeText ctx.runtime) := typeRef _ _ _
  intro t ht
  simp only [InstanceLayout.members, List.cons_append, List.append_assoc, List.mem_cons,
    List.mem_append, List.mem_map, List.not_mem_nil, or_false] at ht
  rcases ht with rfl | ⟨f, hf, rfl⟩ | rfl | ⟨k, hk, rfl⟩ | ⟨f, hf, rfl⟩ | rfl | rfl
  · exact fieldDeclaration header member _ _ (typeRef _ _ _)
  · exact fieldDeclaration header member _ _ (fields f hf)
  · rw [print_defaultConstructor header]
    exact ok _
  · apply staticMethod header _ self
    intro p hp
    rcases List.mem_cons.mp hp with rfl | hp
    · exact self
    · exact own _ (l.owner.constructor_type_mem hk (List.of_mem_zip hp).1)
  · have declared : ∀ p ∈ f.parameterTypes.zip f.parameters,
        FailsWithin E (p.1.typeText ctx.runtime) := fun p hp =>
      own _ (l.owner.method_type_mem hf (.tail _ (List.of_mem_zip hp).1))
    apply staticMethod header _ (own _ (l.owner.method_type_mem hf (.head _)))
    intro p hp
    -- only an instance method has the receiver before its declared parameters
    split at hp
    · exact declared p hp
    · rcases List.mem_cons.mp hp with rfl | hp
      · exact self
      · exact declared p hp
  · exact staticMethod header _ (typeRef _ _ _) (by simp)
  · exact fieldDeclaration header member _ _ (typeRef _ _ _)

include header in
theorem classDeclaration (l : InstanceLayout)
    (fields : ∀ f ∈ l.fields, FailsWithin E (f.type.typeText ctx.runtime))
    (own : ∀ t ∈ l.owner.typeTrees, FailsWithin E (t.typeText ctx.runtime)) :
    FailsWithin E (l.declaration.print .item ctx) := by
  rw [print_classDeclaration header]
  apply bind _ fun _ => ok _
  apply mapM
  have inner : ((ctx.inside .classDeclaration).deeper.inside .classBody).artifact = .header :=
    header
  exact members inner (by simp [Context.isMember, Context.inside]) l fields own

include header in
theorem tableDeclaration (t : DispatchTable)
    (types : ∀ s ∈ t.slots, ∀ type ∈ s.result :: s.parameterTypes,
      FailsWithin E (type.typeText ctx.runtime)) :
    FailsWithin E (t.declaration.print .item ctx) := by
  rw [print_tableDeclaration header]
  apply bind _ fun _ => ok _
  apply mapM
  intro s hs
  rw [slotText_entry]
  have all : FailsWithin E
      ((.typeRef t.owner.name 0 :: s.parameterTypes).mapM (Tree.typeText ctx.runtime)) := by
    apply mapM
    intro type h
    rcases List.mem_cons.mp h with rfl | h
    · exact typeRef _ _ _
    · exact types s hs type (.tail _ h)
  exact (types s hs _ (.head _)).bind fun _ => all.bind fun _ => ok _

end Declarations

section Units

variable {m : ClassMap}

theorem introductions (sorted : List ClassDecl) :
    ∀ t ∈ ClassMap.introductions sorted, FailsWithin E (t.print .item ctx) := by
  intro t ht
  simp only [ClassMap.introductions, List.mem_cons, List.not_mem_nil, or_false] at ht
  rcases ht with rfl | rfl
  · apply group rfl
    intro t ht
    obtain ⟨c, -, ht⟩ := List.mem_flatMap.mp ht
    obtain ⟨name, -, rfl⟩ := List.mem_map.mp ht
    rw [print_forwardDeclaration]
    exact ok _
  · apply group rfl
    intro t ht
    obtain ⟨c, -, rfl⟩ := List.mem_map.mp ht
    rw [print_typeAlias]
    exact ok _

theorem declared {c : ClassDecl} {chain : List ClassDecl} (header : ctx.artifact = .header)
    (hl : m.lineage c = .ok chain)
    (types : ∀ k ∈ chain, ∀ t ∈ k.typeTrees, FailsWithin E (t.typeText ctx.runtime)) :
    ∀ t ∈ m.declared c, FailsWithin E (t.print .item ctx) := by
  have hc := ClassMap.mem_lineage_self hl
  intro t ht
  simp only [ClassMap.declared, List.mem_cons, List.not_mem_nil, or_false] at ht
  rcases ht with rfl | rfl
  · apply classDeclaration header _ _ (types c hc)
    intro f hf
    rw [ClassMap.layoutOf, ClassMap.chainOf_eq hl] at hf
    -- a field is inherited from a class above, or the own one of `c`
    rcases List.mem_append.mp hf with hf | hf
    · obtain ⟨k, hk, hf⟩ := List.mem_flatMap.mp (List.mem_of_mem_filter hf)
      exact types k (List.dropLast_subset _ hk) _ (k.field_type_mem hf)
    · exact types c hc _ (c.field_type_mem hf)
  · apply tableDeclaration header
    intro slot hslot type ht
    rw [ClassMap.tableOf, ClassMap.chainOf_eq hl] at hslot
    obtain ⟨i, hr, hi⟩ := DispatchTable.resolve_slot hslot
    obtain ⟨f, hf, -, rfl⟩ := ClassDecl.mem_candidates_iff.mp hi
    exact types i (ClassDecl.mem_of_resolve hr) _ (i.method_type_mem hf ht)

theorem render_headerUnit {h : Hierarchy} {unit : Tree} (settings : Settings)
    (hu : h.headerUnit = .ok unit)
    (types : ∀ c ∈ h.classes.classes, ∀ t ∈ c.typeTrees,
      FailsWithin E (t.typeText settings.runtime)) :
    FailsWithin E (render settings .header unit) := by
  obtain ⟨sorted, hs, rfl⟩ := Hierarchy.headerUnit_eq_ok_iff.mp hu
  apply bind _ fun _ => ok _
  apply group rfl
  apply inNamespaces h.packages rfl
  intro ctx header hset t ht
  rcases List.mem_append.mp ht with ht | ht
  · exact introductions sorted t ht
  · obtain ⟨c, hc, ht⟩ := List.mem_flatMap.mp ht
    have hl := ClassMap.lineage_of_ordered hs hc
    apply declared header hl _ t ht
    intro k hk
    rw [Context.runtime, hset]
    have hk' := Hierarchy.mem_ordered_of_lineage hs hc hl hk
    exact types k ((ClassMap.ordered_perm hs).mem_iff.mp hk')

end Units

end FailsWithin

namespace Hierarchy

/-- A header is printed if the types that its classes were given have a text. Its fault, if it has
one, is that of one of those types: nothing that the layout adds has a fault of its own, for any
names of classes, packages and parameters. -/
theorem render_header_faults {h : Hierarchy} {unit : Tree} (settings : Settings)
    (hu : h.headerUnit = .ok unit) :
    ((∀ c ∈ h.classes.classes, ∀ t ∈ c.typeTrees, ∃ s, t.typeText settings.runtime = .ok s) →
      ∃ text, render settings .header unit = .ok text) ∧
    ∀ e, render settings .header unit = .error e →
      ∃ c ∈ h.classes.classes, ∃ t ∈ c.typeTrees, t.typeText settings.runtime = .error e := by
  constructor
  · intro types
    have never : FailsWithin (fun _ => False) (render settings .header unit) := by
      apply FailsWithin.render_headerUnit settings hu
      intro c hc t ht
      constructor
      intro e he
      obtain ⟨s, hs⟩ := types c hc t ht
      rw [hs] at he
      cases he
    cases hr : render settings .header unit with
    | ok text => exact ⟨text, rfl⟩
    | error e => exact (never.of_error e hr).elim
  · apply FailsWithin.of_error
    apply FailsWithin.render_headerUnit settings hu
    intro c hc t ht
    constructor
    intro e he
    exact ⟨c, hc, t, ht, he⟩

end Hierarchy

namespace Shapes

def nothing : ClassDecl where
  name := "void"
  parent := Naming.noParent
  fields := [{ type := int, names := [] }, { type := .node .block [], names := ["x"] }]
  constructors := [{ parameterTypes := [int] }]

def broken : Hierarchy := .ofClasses [nothing] [""]

theorem headers_print : (∃ unit, hierarchy.headerUnit = .ok unit ∧
      ∃ text, render {} .header unit = .ok text) ∧
    ∃ unit, broken.headerUnit = .ok unit ∧
      render {} .header unit = .error (.unexpectedKind "a type" "Block") ∧
      ∃ c ∈ broken.classes.classes, ∃ t ∈ c.typeTrees,
        t.typeText {} = .error (.unexpectedKind "a type" "Block") := by
  constructor
  · obtain ⟨unit, hu⟩ := headerUnit_hierarchy
    have types : ∀ c ∈ hierarchy.classes.classes, ∀ t ∈ c.typeTrees, t = int := by decide +kernel
    refine ⟨unit, hu, (Hierarchy.render_header_faults {} hu).1 ?_⟩
    intro c hc t ht
    rw [types c hc t ht]
    exact ⟨_, Tree.typeText_typeRef _ _ _⟩
  · have sorted : broken.classes.ordered = .ok [nothing] := by decide +kernel
    have hu := Hierarchy.headerUnit_eq_ok_iff.mpr ⟨[nothing], sorted, rfl⟩
    have failed : render {} .header (broken.wrapped (broken.classes.headerMembers [nothing])) =
        .error (.unexpectedKind "a type" "Block") := by decide +kernel
    exact ⟨_, hu, failed, (Hierarchy.render_header_faults {} hu).2 _ failed⟩

end Shapes

end ClassLowering
