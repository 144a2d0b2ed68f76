import ClassLowering.Proofs.Codec.RoundTrip
import ClassLowering.Proofs.Layout.Header
import Mathlib.Data.List.TakeDrop

/-!
# The parameters of declared functions

A class gives the names and the types of parameters as two lists. The body of its record declares a
function for each constructor and each method, with a parameter for each pair from the two lists, so
a type without a name is lost. The entry of the method in the dispatch table is made from the types
alone and has all of them, so that it does not fit the function any more.
-/

set_option autoImplicit false

namespace ClassLowering

def Tree.functions (t : Tree) : List MethodEntry := t.bodyMembers.filterMap asMethod?

namespace ClassDecl

/-- The functions for the constructors of a class, for its methods, and for its class object. Of the
parameter types each has those that `kept` takes, given the names, after the receiver. -/
def functionEntries (c : ClassDecl) (kept : List String → List Tree → List Tree) :
    List Tree.MethodEntry :=
  let self := Tree.typeRef c.name 0
  c.constructors.map (fun k => ⟨self, "__init", self :: kept k.parameters k.parameterTypes⟩)
    ++ c.methods.map (fun f => ⟨f.result, f.name,
      (if f.isStatic then [] else [self]) ++ kept f.parameters f.parameterTypes⟩)
    ++ [⟨.typeRef "Class" 0, "__class", []⟩]

def named (names : List String) (types : List Tree) : List Tree := types.take names.length

def declared (_ : List String) (types : List Tree) : List Tree := types

/-- No constructor and no method has more parameter types than names. -/
structure NamesParameters (c : ClassDecl) : Prop where
  constructors : ∀ k ∈ c.constructors, k.parameterTypes.length ≤ k.parameters.length
  methods : ∀ f ∈ c.methods, f.parameterTypes.length ≤ f.parameters.length

theorem named_eq_iff {names : List String} {types : List Tree} :
    named names types = declared names types ↔ types.length ≤ names.length :=
  List.take_eq_self_iff types

theorem functionEntries_named_iff {c : ClassDecl} :
    c.functionEntries named = c.functionEntries declared ↔ c.NamesParameters := by
  have lists {a b a' b' z : List Tree.MethodEntry} (h : a.length = a'.length) :
      a ++ b ++ z = a' ++ b' ++ z ↔ a = a' ∧ b = b' := by
    rw [List.append_left_inj]
    exact ⟨fun e => List.append_inj e h, fun e => by rw [e.1, e.2]⟩
  unfold functionEntries
  rw [lists (by simp), List.map_inj_left, List.map_inj_left]
  simp only [Tree.MethodEntry.mk.injEq, true_and, List.cons.injEq, List.append_cancel_left_eq,
    named_eq_iff]
  exact ⟨fun h => ⟨h.1, h.2⟩, fun h => ⟨h.constructors, h.methods⟩⟩

end ClassDecl

theorem map_fst_zip_eq_take (types : List Tree) (names : List String) :
    (types.zip names).map Prod.fst = types.take names.length := by
  induction types generalizing names with
  | nil => simp
  | cons type types ih =>
    cases names with
    | nil => rfl
    | cons name names => simp [ih]

namespace InstanceLayout

theorem asMethod?_initFunction (l : InstanceLayout) (k : ConstructorDecl) :
    (l.initFunction k).asMethod? = some ⟨l.selfType, "__init",
      l.selfType :: ClassDecl.named k.parameters k.parameterTypes⟩ := by
  rw [initFunction, asMethod?_staticMethod, List.map_cons, map_fst_zip_eq_take]
  rfl

theorem asMethod?_methodMember_named (l : InstanceLayout) (f : MethodDecl) :
    (l.methodMember f).asMethod? = some ⟨f.result, f.name,
      (if f.isStatic then [] else [l.selfType])
        ++ ClassDecl.named f.parameters f.parameterTypes⟩ := by
  rw [methodMember, asMethod?_staticMethod]
  cases f.isStatic <;> simp [map_fst_zip_eq_take, ClassDecl.named, receiver]

theorem functions_declaration (l : InstanceLayout) :
    l.declaration.functions = l.owner.functionEntries ClassDecl.named := by
  have other {k : Kind} (slots : List (Slot Tree)) (h : k ≠ .methodDeclaration) :
      (Tree.node k slots).asMethod? = none := by
    simp [Tree.asMethod?, h]
  have fields : (l.fields.map fieldMember).filterMap Tree.asMethod? = [] := by
    rw [List.filterMap_map, List.filterMap_eq_nil_iff]
    intro f _
    exact other _ (by decide)
  have inits : (l.owner.constructors.map l.initFunction).filterMap Tree.asMethod? =
      l.owner.constructors.map fun k => ⟨l.selfType, "__init",
        l.selfType :: ClassDecl.named k.parameters k.parameterTypes⟩ := by
    rw [List.filterMap_map, ← List.filterMap_eq_map]
    exact List.filterMap_congr fun k _ => l.asMethod?_initFunction k
  have methods : (l.owner.methods.map l.methodMember).filterMap Tree.asMethod? =
      l.owner.methods.map fun f => ⟨f.result, f.name, (if f.isStatic then [] else [l.selfType])
        ++ ClassDecl.named f.parameters f.parameterTypes⟩ := by
    rw [List.filterMap_map, ← List.filterMap_eq_map]
    exact List.filterMap_congr fun f _ => l.asMethod?_methodMember_named f
  have pointer : l.tablePointer.asMethod? = none := other _ (by decide)
  have constructor : l.defaultConstructor.asMethod? = none := other _ (by decide)
  have accessor : classAccessor.asMethod? = some ⟨.typeRef "Class" 0, "__class", []⟩ :=
    asMethod?_staticMethod _ _ _
  have table : l.tableField.asMethod? = none := other _ (by decide)
  rw [Tree.functions, bodyMembers_declaration, members]
  simp only [List.cons_append, List.filterMap_append, List.filterMap_cons, List.filterMap_nil,
    pointer, fields, constructor, inits, methods, accessor, table, List.nil_append]
  rfl

end InstanceLayout

namespace Hierarchy

/-- The functions that a class is declared with: of the parameter types they keep those that have a
name, and so all of them exactly if there are enough names. -/
theorem functions_keep_parameters_iff {b : Bundle} {unit : Tree} {c : ClassDecl}
    (hu : b.hierarchy.headerUnit = .ok unit) (hc : c ∈ b.hierarchy.classes.classes) :
    ∃ decl, unit.classesNamed c.name = [decl] ∧
      decl.functions = c.functionEntries ClassDecl.named ∧
      (decl.functions = c.functionEntries ClassDecl.declared ↔ c.NamesParameters) := by
  obtain ⟨sorted, hs, rfl⟩ := headerUnit_eq_ok_iff.mp hu
  have hk := ClassMap.keyed_ofClasses b.classes
  have hc' := (ClassMap.ordered_perm hs).mem_iff.mpr hc
  have functions := (b.hierarchy.classes.layoutOf c).functions_declaration
  refine ⟨_, classesNamed_eq hk hs hc', functions, ?_⟩
  rw [functions]
  exact ClassDecl.functionEntries_named_iff

end Hierarchy

namespace Shapes

def bundle : Bundle := { classes := [disc, shape, circle] }

theorem disc_functions : ∃ unit, bundle.hierarchy.headerUnit = .ok unit ∧
    disc ∈ bundle.hierarchy.classes.classes ∧ disc.NamesParameters ∧
    ∃ decl, unit.classesNamed "Disc" = [decl] ∧ decl.functions = [⟨int, "area", []⟩,
      ⟨int, "area", [.typeRef "Disc" 0, int]⟩, ⟨.typeRef "Class" 0, "__class", []⟩] := by
  obtain ⟨unit, hu⟩ : ∃ unit, bundle.hierarchy.headerUnit = .ok unit := by
    apply Hierarchy.exists_headerUnit
    decide +kernel
  have hd : disc ∈ bundle.hierarchy.classes.classes := disc_registered
  have names : disc.NamesParameters := ⟨by decide +kernel, by decide +kernel⟩
  obtain ⟨decl, hdecl, -, kept⟩ := Hierarchy.functions_keep_parameters_iff hu hd
  refine ⟨unit, hu, hd, names, decl, hdecl, (kept.mpr names).trans ?_⟩
  decide +kernel

def gauge : ClassDecl where
  name := "Gauge"
  parent := Naming.noParent
  methods := [{ result := int, name := "set", parameterTypes := [int] }]
  constructors := [{ parameterTypes := [int] }]

def gauges : Bundle := { classes := [gauge] }

/-- The bundle is read, and its header declares both functions without the parameter, which the
entry of the method in the table still has. -/
theorem gauge_parameters_lost : Bundle.read gauges.toJson.compact = .ok gauges ∧
    ∃ unit, gauges.hierarchy.headerUnit = .ok unit ∧ gauge ∈ gauges.hierarchy.classes.classes ∧
      ∃ decl table, unit.classesNamed "Gauge" = [decl] ∧ unit.tablesNamed "Gauge" = [table] ∧
        decl.functions = [⟨.typeRef "Gauge" 0, "__init", [.typeRef "Gauge" 0]⟩,
          ⟨int, "set", [.typeRef "Gauge" 0]⟩, ⟨.typeRef "Class" 0, "__class", []⟩] ∧
        decl.functions ≠ gauge.functionEntries ClassDecl.declared ∧
        table.tableEntries.map Tree.asSlot? =
          [some ⟨"set", int, [.typeRef "Gauge" 0, int], "Gauge"⟩] := by
  constructor
  · obtain ⟨levels, nesting, read⟩ :=
      Bundle.readsWithin (Bundle.restores.readsBack (by decide) gauges).1
    have depth : levels = gauges.toJson.depth := by
      have written := (Bundle.restores.textual gauges).writes_compact
      rw [written.nesting?_eq] at nesting
      exact (Option.some.inj nesting).symm
    have small : gauges.toJson.depth ≤ 127 := by decide +kernel
    rw [read, if_pos (depth ▸ small)]
  · obtain ⟨unit, hu⟩ : ∃ unit, gauges.hierarchy.headerUnit = .ok unit := by
      apply Hierarchy.exists_headerUnit
      decide +kernel
    have registered : gauge ∈ gauges.hierarchy.classes.classes := by decide +kernel
    obtain ⟨sorted, hs, rfl⟩ := Hierarchy.headerUnit_eq_ok_iff.mp hu
    have keyed := ClassMap.keyed_ofClasses gauges.classes
    have ordered := (ClassMap.ordered_perm hs).mem_iff.mpr registered
    refine ⟨_, hu, registered, _, _, Hierarchy.classesNamed_eq keyed hs ordered,
      Hierarchy.tablesNamed_eq keyed hs ordered, ?_, ?_, ?_⟩
    · rw [InstanceLayout.functions_declaration]
      decide +kernel
    · rw [InstanceLayout.functions_declaration]
      decide +kernel
    · rw [DispatchTable.tableEntries_declaration, List.map_map]
      decide +kernel

end Shapes

end ClassLowering
