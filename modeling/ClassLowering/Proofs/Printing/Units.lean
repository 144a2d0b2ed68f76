import ClassLowering.Proofs.Printing.Brackets
import ClassLowering.Proofs.Printing.Locality
import ClassLowering.Proofs.Printing.Names

/-!
# How lowered trees are grouped

Lowered trees come in units, and a unit may hold units. In the implementation a unit prints what it
holds and adds nothing, and a package or import declaration prints nothing. What a node prints does
change with the nodes around it, but a unit and a namespace look alike to the nodes in them: neither
is the body of a class or a block. So the implementation is the same for all groupings of the same
nodes, and it can be written out from the nodes that are left when all units are opened.
-/

set_option autoImplicit false

namespace ClassLowering

open Text (concat)
open Surroundings (ofKinds ofKinds_cons)

/-! ## Opening units -/

namespace Tree

/-- What a tree comes to when it is replaced by the nodes in it, if it is a unit, and these in turn,
until none of them is a unit. -/
def opened : Tree → List Tree :=
  fold fun r => if r.kind = .compilationUnit then r.children.flatMap Prod.snd
    else [ofRow (r.map Prod.fst)]

theorem opened_eq (t : Tree) :
    t.opened = if t.is .compilationUnit then t.children.flatMap opened else [t] := by
  rw [opened, fold_eq, Row.children_map, List.flatMap_map, Row.map_eq_mapSlots,
    Row.map_mapSlots_cancel fun _ _ => rfl, ofRow_row]
  simp only [is, decide_eq_true_eq]
  rfl

/-- What is left of a list of trees when all units in it are opened and the package and import
declarations are dropped. -/
def standing (trees : List Tree) : List Tree := (trees.flatMap opened).filter (!·.isPreface)

end Tree

/-! ## Trees one after another -/

def printAll (trees : List Tree) (ctx : Context) : Except Fault String := do
  return concat (← trees.mapM fun t => t.print .item ctx)

section PrintAll

variable {ctx : Context} {trees others : List Tree}

theorem printAll_nil (ctx : Context) : printAll [] ctx = .ok "" := rfl

theorem printAll_append (trees others : List Tree) (ctx : Context) :
    printAll (trees ++ others) ctx = (do
      let first ← printAll trees ctx
      let rest ← printAll others ctx
      return first ++ rest) := by
  rw [printAll, List.mapM_append]
  cases htrees : trees.mapM fun t => t.print .item ctx with
  | error e => simp [printAll, htrees]
  | ok texts =>
    cases hothers : others.mapM fun t => t.print .item ctx with
    | error e => simp [printAll, htrees, hothers]
    | ok more => simp [printAll, htrees, hothers, Text.concat_append]

theorem printAll_singleton (t : Tree) (ctx : Context) : printAll [t] ctx = t.print .item ctx := by
  rw [printAll, List.mapM_cons, List.mapM_nil]
  cases t.print .item ctx <;> simp [concat]

theorem printAll_flatMap {f : Tree → List Tree}
    (h : ∀ t ∈ trees, printAll (f t) ctx = t.print .item ctx) :
    printAll (trees.flatMap f) ctx = printAll trees ctx := by
  induction trees with
  | nil => rfl
  | cons t trees ih =>
    rw [List.flatMap_cons, printAll_append, ih fun s hs => h s (by simp [hs]), h t (by simp),
      ← List.singleton_append, printAll_append, printAll_singleton]

theorem printAll_filter {p : Tree → Bool} (h : ∀ t, p t = false → t.print .item ctx = .ok "") :
    printAll (trees.filter p) ctx = printAll trees ctx := by
  induction trees with
  | nil => rfl
  | cons t trees ih =>
    rw [← List.singleton_append, List.filter_append, printAll_append, printAll_append, ih]
    cases hp : p t with
    | true => simp [hp]
    | false => simp [hp, printAll_nil, printAll_singleton, h t hp]

end PrintAll

/-! ## What units print -/

theorem print_preface {t : Tree} (h : t.isPreface = true) (ctx : Context) :
    t.print .item ctx = .ok "" := by
  have kinds : t.kind = .packageDeclaration ∨ t.kind = .importDeclaration := by
    simpa [Tree.isPreface, Tree.is] using h
  rw [Tree.print_eq, printRule, itemText, Row.kind_map]
  rcases kinds with hk | hk
  · rw [show t.row.kind = _ from hk]
    rfl
  · rw [show t.row.kind = _ from hk]
    rfl

def Kind.isTransparent : Kind → Bool
  | .compilationUnit | .classBody | .unknown => true
  | _ => false

theorem print_transparent {t : Tree} (h : t.kind.isTransparent = true) (ctx : Context) :
    t.print .item ctx = printAll t.children (ctx.inside t.kind) := by
  have items : t.print .item ctx = itemsText t.parts ctx := by
    rw [Tree.print_eq]
    change itemText t.parts ctx = _
    unfold itemText
    rw [Tree.kind_parts]
    generalize t.kind = k at h
    cases k <;> cases h <;> rfl
  rw [items, itemsText, Row.printChildren, Tree.parts, Row.children_map, List.mapM_map]
  rfl

theorem print_unit {t : Tree} (h : t.is .compilationUnit = true) (ctx : Context) :
    t.print .item ctx = printAll t.children (ctx.inside .compilationUnit) := by
  have hk : t.kind = .compilationUnit := of_decide_eq_true h
  rw [print_transparent (by rw [hk]; rfl), hk]

/-- The context of a node that stands neither in the body of a class nor in or below a block. -/
def Context.Loose (ctx : Context) : Prop := ofKinds ctx.outer = ofKinds []

theorem printAll_around {ctx : Context} {outer : List Kind} (h : ofKinds outer = ofKinds ctx.outer)
    (trees : List Tree) : printAll trees (ctx.around outer) = printAll trees ctx := by
  have each (t : Tree) : t.print .item (ctx.around outer) = t.print .item ctx :=
    t.print_congr_outer h
  simp only [printAll, each]

theorem printAll_inside_unit {ctx : Context} (loose : ctx.Loose) (trees : List Tree) :
    printAll trees (ctx.inside .compilationUnit) = printAll trees ctx := by
  apply printAll_around
  rw [ofKinds_cons, loose]
  rfl

section Loose

variable {ctx : Context} (loose : ctx.Loose)

include loose

theorem printAll_opened (t : Tree) : printAll t.opened ctx = t.print .item ctx := by
  induction t using Tree.induction with
  | step t ih =>
    rw [Tree.opened_eq]
    cases hu : t.is .compilationUnit with
    | false => exact printAll_singleton t ctx
    | true =>
      rw [if_pos rfl, print_unit hu, printAll_inside_unit loose]
      apply printAll_flatMap
      intro c hc
      obtain ⟨i, hi⟩ := List.mem_iff_getElem?.mp (Row.mem_children.mp hc)
      exact ih i c hi

theorem printAll_definitions (t : Tree) : printAll t.definitions ctx = t.print .item ctx := by
  unfold Tree.definitions
  cases hu : t.is .compilationUnit with
  | false => exact printAll_singleton t ctx
  | true =>
    rw [if_pos rfl, print_unit hu, printAll_inside_unit loose]
    apply printAll_filter
    intro c hc
    exact print_preface (by simpa using hc) ctx

/-- The definitions that the implementation takes from the units print what is left when all units
are opened: both print what the units print. -/
theorem printAll_standing (trees : List Tree) :
    printAll (trees.flatMap Tree.definitions) ctx = printAll (Tree.standing trees) ctx := by
  rw [printAll_flatMap fun t _ => printAll_definitions loose t, Tree.standing, printAll_filter,
    printAll_flatMap fun t _ => printAll_opened loose t]
  intro c hc
  exact print_preface (by simpa using hc) ctx

end Loose

/-! ## The implementation -/

theorem loose_inPackages (artifact : Artifact) (settings : Settings) (packages : List String) :
    ((Context.inside { artifact, settings } .compilationUnit).inPackages packages).Loose := by
  rw [Hierarchy.start_inPackages]
  rcases packages with _ | ⟨first, _ | ⟨second, rest⟩⟩ <;> rfl

namespace Lowering

def regrouped (t : Lowering) (lowered : List Tree) : Lowering :=
  { t with bundle := { t.bundle with lowered } }

def memberContext (t : Lowering) : Context :=
  { artifact := .implementation, settings := t.settings, depth := t.bundle.packages.length }

theorem printAll_objects (t : Lowering) (sorted : List ClassDecl) :
    printAll (sorted.map (·.classObject t.bundle.packages)) t.memberContext =
      .ok (concat (sorted.map fun c => c.supportText t.memberContext t.bundle.packages)) := by
  have texts : (sorted.map (·.classObject t.bundle.packages)).mapM
      (fun s => s.print .item t.memberContext) =
        .ok (sorted.map fun c => c.supportText t.memberContext t.bundle.packages) := by
    apply mapM_map_ok
    intro c _
    exact print_support (by simp [memberContext]) c t.bundle.packages
  rw [printAll, texts]
  rfl

theorem printAll_members (t : Lowering) (trees : List Tree) :
    printAll trees ((Context.inside { artifact := .implementation, settings := t.settings }
      .compilationUnit).inPackages t.bundle.packages) = printAll trees t.memberContext := by
  have loose := loose_inPackages .implementation t.settings t.bundle.packages
  rw [Hierarchy.start_inPackages] at loose ⊢
  have same : Surroundings.ofKinds _ = Surroundings.ofKinds t.memberContext.outer := loose
  exact printAll_around same trees

theorem printAll_wrapped (h : Hierarchy) (members : List Tree) (ctx : Context) :
    (h.wrapped members).print .item ctx = (do
      return ctx.enclosed h.packages
        (← printAll members ((ctx.inside .compilationUnit).inPackages h.packages))) := by
  rw [Hierarchy.print_wrapped, printAll]
  simp

theorem implementationText_eq (t : Lowering) : t.implementationText = (do
    let sorted ← t.hierarchy.classes.ordered
    let lowered ← printAll (Tree.standing t.bundle.lowered) t.memberContext
    return preamble .implementation t.settings
      ++ Context.enclosed { artifact := .implementation, settings := t.settings } t.bundle.packages
        (lowered
          ++ concat (sorted.map fun c => c.supportText t.memberContext t.bundle.packages))) := by
  rw [implementationText, implementationTree, Hierarchy.implementationUnit]
  cases t.hierarchy.classes.ordered with
  | error e => rfl
  | ok sorted =>
    have loose : t.memberContext.Loose := rfl
    let start : Context := { artifact := .implementation, settings := t.settings }
    let members := t.bundle.lowered.flatMap Tree.definitions
      ++ sorted.map (·.classObject t.bundle.packages)
    have printed : render t.settings .implementation (t.hierarchy.wrapped members) = (do
        return preamble .implementation t.settings
          ++ start.enclosed t.bundle.packages (← printAll members t.memberContext)) := by
      rw [render, printAll_wrapped, ← printAll_members]
      simp only [bind_assoc, pure_bind]
      rfl
    show render t.settings .implementation (t.hierarchy.wrapped members) = _
    rw [printed, printAll_append, printAll_standing loose, printAll_objects]
    simp [start]

/-- The implementation does not depend on how the lowered trees are grouped: it has the same text,
or fails in the same way, for all lists of trees that come to the same nodes. The text is made of
the opening lines, one namespace for each package, the texts of these nodes at the depth of the
innermost one, and the generated definitions of all classes in their order. -/
theorem regrouping_keeps_implementation (t : Lowering) (lowered : List Tree)
    (same : Tree.standing lowered = Tree.standing t.bundle.lowered) :
    (t.regrouped lowered).implementationText = t.implementationText ∧
    t.implementationText = (do
      let sorted ← t.hierarchy.classes.ordered
      let nodes ← printAll (Tree.standing t.bundle.lowered) t.memberContext
      return preamble .implementation t.settings
        ++ Context.enclosed { artifact := .implementation, settings := t.settings }
          t.bundle.packages (nodes
            ++ concat (sorted.map fun c => c.supportText t.memberContext t.bundle.packages))) := by
  refine ⟨?_, t.implementationText_eq⟩
  rw [implementationText_eq, implementationText_eq]
  simp only [regrouped, same]
  rfl

end Lowering

namespace Samples

def nestedUnits : Lowering where
  bundle := {
    packages := ["geo"]
    classes := [.root "Shape"]
    lowered := [
      .group .compilationUnit [.node .packageDeclaration [],
        .group .compilationUnit [.node .importDeclaration [], looseStatement],
        .node .emptyStatement []],
      .node .importDeclaration []] }

theorem nestedUnits_flat :
    Tree.standing [looseStatement, .node .emptyStatement []] =
      Tree.standing nestedUnits.bundle.lowered ∧
    (nestedUnits.regrouped [looseStatement, .node .emptyStatement []]).implementationText =
      nestedUnits.implementationText ∧
    nestedUnits.implementationText = .ok ("#include <iostream>\n#include \"output.h\"\n\n"
      ++ "using namespace java::lang;\n\nnamespace geo \x7b\n\n    (\x7b\n    \x7d)\n    ;\n"
      ++ "    Class __Shape::__class() \x7b\n        static Class k = new __Class("
      ++ "__rt::literal(\"geo.Shape\"), __Object::__class());\n        return k;\n    \x7d\n\n"
      ++ "    __Shape_VT __Shape::__vtable;\n\n\x7d\n\n") := by
  have same : Tree.standing [looseStatement, .node .emptyStatement []] =
      Tree.standing nestedUnits.bundle.lowered := by decide +kernel
  have kept := Lowering.regrouping_keeps_implementation nestedUnits _ same
  exact ⟨same, kept.1, by decide +kernel⟩

end Samples

end ClassLowering
