import ClassLowering.Proofs.Hierarchy.Stages
import ClassLowering.Proofs.Printing.Spelling

/-!
# Generated names in the three files

The texts of the three files are written out with the generated names spelled out: the header and
the implementation inside one namespace for each package, and the entry point with the path through
these namespaces to the record of the main class. Each file is shown to be that text.
-/

set_option autoImplicit false

namespace ClassLowering

open Text (joinWith concat)
open Naming (IsClassName)

/-! ## Packages -/

def Context.enclosed (ctx : Context) : List String → String → String
  | [], text => text
  | package :: rest, text => ctx.lines ["namespace " ++ package ++ " \x7b", ""]
      ++ ctx.deeper.enclosed rest text ++ ctx.lines ["\x7d", ""]

def Context.inPackages (ctx : Context) (packages : List String) : Context :=
  { ctx with
    depth := ctx.depth + packages.length
    outer := List.replicate packages.length .namespaceDeclaration ++ ctx.outer }

theorem Context.enclosed_inside (ctx : Context) (k : Kind) (packages : List String)
    (text : String) :
    (ctx.inside k).enclosed packages text = ctx.enclosed packages text := by
  induction packages generalizing ctx with
  | nil => rfl
  | cons package rest ih =>
    have inner := ih ctx.deeper
    rw [enclosed, enclosed, ← inner]
    rfl

theorem concat_inNamespaces (packages : List String) (members : List Tree) (ctx : Context) :
    (do return concat (← (inNamespaces packages members).mapM fun t => t.print .item ctx) :
      Except Fault String) = (do
        let texts ← members.mapM fun t => t.print .item (ctx.inPackages packages)
        return ctx.enclosed packages (concat texts)) := by
  induction packages generalizing ctx with
  | nil => simp [inNamespaces, Context.inPackages, Context.enclosed]
  | cons package rest ih =>
    have inner := ih (ctx.deeper.inside .namespaceDeclaration)
    have same : (ctx.deeper.inside .namespaceDeclaration).inPackages rest =
        ctx.inPackages (package :: rest) := by
      simp [Context.inPackages, Context.inside, Context.deeper, List.replicate_succ',
        Nat.add_comm, Nat.add_left_comm]
    simp only [same, Context.enclosed_inside] at inner
    have around := congrArg (· >>= fun body => (pure
      (ctx.lines ["namespace " ++ package ++ " \x7b", ""] ++ body ++ ctx.lines ["\x7d", ""]) :
        Except Fault String)) inner
    simp only [bind_assoc, pure_bind] at around
    rw [inNamespaces, List.foldr_cons, ← inNamespaces, List.mapM_cons, List.mapM_nil,
      Tree.print_namespace]
    simpa [concat, Context.enclosed] using around

theorem Hierarchy.print_wrapped (h : Hierarchy) (members : List Tree) (ctx : Context) :
    (h.wrapped members).print .item ctx = (do
      let texts ← members.mapM fun t =>
        t.print .item ((ctx.inside .compilationUnit).inPackages h.packages)
      return ctx.enclosed h.packages (concat texts)) := by
  have inner := concat_inNamespaces h.packages members (ctx.inside .compilationUnit)
  simp only [Context.enclosed_inside] at inner
  rw [wrapped, Tree.print_group rfl]
  simpa using inner

/-! ## Files -/

def ClassDecl.supportText (c : ClassDecl) (ctx : Context) (packages : List String) : String :=
  let name := qualifiedName packages c.name "."
  let record := Naming.recordPath (Text.afterLast '.' name)
  let parent := if c.parent = Naming.noParent then "__Object" else Naming.recordPath c.parent
  ctx.line ("Class " ++ record ++ "::__class() \x7b")
    ++ ctx.deeper.lines [
      "static Class k = new __Class(" ++ ctx.runtime.literal ++ "(\"" ++ name ++ "\"), "
        ++ parent ++ "::__class());",
      "return k;"]
    ++ ctx.lines ["\x7d", "", record ++ "_VT " ++ record ++ "::__vtable;", ""]

def ClassDecl.objectText (c : ClassDecl) (ctx : Context) (packages : List String) : String :=
  ctx.line ("Class __" ++ c.name ++ "::__class() \x7b")
    ++ ctx.deeper.lines [
      "static Class k = new __Class(" ++ ctx.runtime.literal ++ "(\""
        ++ joinWith "." (packages ++ [c.name]) ++ "\"), "
        ++ (match c.parent? with
          | some parent => "__" ++ parent
          | none => "__Object") ++ "::__class());",
      "return k;"]
    ++ ctx.lines ["\x7d", "", "__" ++ c.name ++ "_VT __" ++ c.name ++ "::__vtable;", ""]

def ClassMap.structsOf (m : ClassMap) (ctx : Context) (c : ClassDecl) : String :=
  (m.layoutOf c).structText ctx ++ (m.tableOf c).structText ctx

namespace Hierarchy

variable (h : Hierarchy) (settings : Settings) (sorted : List ClassDecl)

def file (artifact : Artifact) (members : Context → String) : String :=
  preamble artifact settings
    ++ Context.enclosed { artifact, settings } h.packages
      (members { artifact, settings, depth := h.packages.length })

def declarationFile : String :=
  h.file settings .header fun ctx => introductionText ctx sorted
    ++ concat (sorted.map (h.classes.structsOf ctx))

def headerFile : String :=
  h.file settings .header fun ctx => introductionText ctx sorted
    ++ concat (sorted.map fun c =>
      (h.classes.layoutOf c).recordText ctx ++ (h.classes.tableOf c).tableText ctx)

def implementationFile (lowered : String) : String :=
  h.file settings .implementation fun ctx =>
    lowered ++ concat (sorted.map fun c => c.objectText ctx h.packages)

def entryFile (name : String) : String :=
  let start : Context := { artifact := .entryPoint, settings }
  preamble .entryPoint settings
    ++ (start.line "int main(int argc, char* argv[]) \x7b"
      ++ start.deeper.lines [
        settings.runtime.arrayType ++ "<String> args = new " ++ settings.runtime.arrayTemplate
          ++ "<String>(argc - 1);",
        "",
        "for (int32_t i = 1; i < argc; i++) \x7b"]
      ++ start.deeper.deeper.line ("(*args)[i - 1] = " ++ settings.runtime.literal ++ "(argv[i]);")
      ++ start.deeper.lines [
        "\x7d",
        "",
        joinWith "::" (h.packages ++ ["__" ++ name]) ++ "::main(args);",
        "",
        "return 0;"]
      ++ start.line "\x7d")

end Hierarchy

section Generated

-- reading a slot of a known node is a computation
attribute [local simp] Row.text Row.child Row.child? Row.slot Slot.map

theorem print_support {ctx : Context} (implementation : ctx.artifact ≠ .header) (c : ClassDecl)
    (packages : List String) :
    (c.classObject packages).print .item ctx = .ok (c.supportText ctx packages) := by
  simp only [ClassDecl.classObject, Tree.print_node, printRule, itemText, Tree.kind_rowWith]
  simp [classObjectText, implementation, ClassDecl.supportText]

theorem ClassDecl.supportText_eq {c : ClassDecl} (name : IsClassName c.name)
    (parent : ∀ p, c.parent? = some p → IsClassName p) (ctx : Context) (packages : List String) :
    c.supportText ctx packages = c.objectText ctx packages := by
  have record : Naming.recordPath (Text.afterLast '.' (joinWith "." (packages ++ [c.name]))) =
      "__" ++ c.name := by
    rw [← qualifiedName, Naming.afterLast_qualified name, Naming.recordPath_eq name]
  have parentRecord : (if c.parent = Naming.noParent then "__Object"
      else Naming.recordPath c.parent) = (match c.parent? with
        | some parent => "__" ++ parent
        | none => "__Object") := by
    by_cases hp : c.parent = Naming.noParent
    · simp [ClassDecl.parent?, hp]
    · have named := Naming.recordPath_eq (parent c.parent (by simp [ClassDecl.parent?, hp]))
      simp [ClassDecl.parent?, hp, named]
  have opening : "Class " ++ ("__" ++ c.name) ++ "::__class() \x7b" =
      "Class __" ++ c.name ++ "::__class() \x7b" := by
    simp [← String.toList_inj]
  have storage : "__" ++ c.name ++ "_VT " ++ ("__" ++ c.name) ++ "::__vtable;" =
      "__" ++ c.name ++ "_VT __" ++ c.name ++ "::__vtable;" := by
    simp [← String.toList_inj]
  simp [supportText, objectText, qualifiedName, record, parentRecord, opening, storage]

theorem print_main (settings : Settings) (h : Hierarchy) {name : String} (hn : IsClassName name) :
    render settings .entryPoint (entryPointUnit name h.packages) =
      .ok (h.entryFile settings name) := by
  rw [render, entryPointUnit, Tree.print_group rfl, Tree.leaf, List.mapM_cons, List.mapM_nil,
    Tree.print_node]
  simp only [printRule, itemText, Tree.kind_rowWith]
  simp [mainText, Naming.recordPath_qualified hn, concat]
  rfl

end Generated

namespace Hierarchy

variable {h : Hierarchy} {sorted : List ClassDecl}

theorem exists_parent (keyed : h.classes.Keyed) (hs : h.classes.ordered = .ok sorted)
    {c : ClassDecl} (hc : c ∈ sorted) {p : String} (hp : c.parent? = some p) :
    ∃ q ∈ sorted, q.name = p := by
  obtain ⟨lineage, above, hl⟩ := ClassMap.lineage_eq_ok_iff.mp (ClassMap.lineage_of_ordered hs hc)
  rw [← hl] at lineage
  obtain ⟨-, q, -, hq⟩ := lineage.parent_above hp
  have registered : (p, q) ∈ h.classes.entries := ClassMap.get?_eq_some_iff.mp hq
  refine ⟨q, ?_, (keyed _ registered).symm⟩
  exact (ClassMap.ordered_perm hs).mem_iff.mpr (List.mem_map_of_mem registered)

def HasClassNames (h : Hierarchy) : Prop := ∀ c ∈ h.classes.classes, IsClassName c.name

namespace HasClassNames

variable (names : h.HasClassNames) (hs : h.classes.ordered = .ok sorted) {c : ClassDecl}
  (hc : c ∈ sorted)

include names hs hc

theorem name : IsClassName c.name := names c ((ClassMap.ordered_perm hs).mem_iff.mp hc)

theorem parent (keyed : h.classes.Keyed) {p : String} (hp : c.parent? = some p) :
    IsClassName p := by
  obtain ⟨q, hq, rfl⟩ := exists_parent keyed hs hc hp
  exact names.name hs hq

theorem implementor {slot : DispatchSlot} (hslot : slot ∈ (h.classes.tableOf c).slots) :
    IsClassName slot.implementor := by
  have hl := ClassMap.lineage_of_ordered hs hc
  rw [ClassMap.tableOf] at hslot
  obtain ⟨i, hr, hi⟩ := DispatchTable.resolve_slot hslot
  obtain ⟨f, -, -, rfl⟩ := ClassDecl.mem_candidates_iff.mp hi
  exact names.name hs (mem_ordered_of_lineage hs hc hl (ClassDecl.mem_of_resolve hr))

end HasClassNames

theorem printsAs_headerMembers (m : ClassMap) (sorted : List ClassDecl) {ctx : Context}
    (header : ctx.artifact = .header) :
    PrintsAs ctx (m.headerMembers sorted)
      (introductionText ctx sorted ++ concat (sorted.map (m.structsOf ctx))) := by
  apply (printsAs_introductions ctx sorted).append
  apply PrintsAs.flatMap
  intro c _
  have record := yields_struct header (m.layoutOf c)
  have table := yields_tableStruct header (m.tableOf c)
  exact (PrintsAs.single record).append (PrintsAs.single table)

theorem start_inPackages (artifact : Artifact) (settings : Settings) (packages : List String) :
    (Context.inside { artifact, settings } .compilationUnit).inPackages packages =
      { artifact, settings, depth := packages.length,
        outer := List.replicate packages.length .namespaceDeclaration ++ [.compilationUnit] } := by
  simp [Context.inPackages, Context.inside]

theorem yields_declarations (h : Hierarchy) (sorted : List ClassDecl) (settings : Settings) :
    Yields (render settings .header (h.wrapped (h.classes.headerMembers sorted)))
      (h.declarationFile settings sorted) := by
  let inner := (Context.inside { artifact := .header, settings } .compilationUnit).inPackages
    h.packages
  have header : inner.artifact = .header := rfl
  have text := (printsAs_headerMembers h.classes sorted header).yields fun body =>
    preamble .header settings ++ Context.enclosed { artifact := .header, settings } h.packages body
  rw [render, print_wrapped]
  simp only [bind_assoc, pure_bind]
  apply text.of_eq
  simp only [inner, start_inPackages]
  rfl

theorem declarationFile_eq (names : h.HasClassNames) (hs : h.classes.ordered = .ok sorted)
    (settings : Settings) : h.declarationFile settings sorted = h.headerFile settings sorted := by
  have spelled (ctx : Context) : sorted.map (h.classes.structsOf ctx) = sorted.map fun c =>
      (h.classes.layoutOf c).recordText ctx ++ (h.classes.tableOf c).tableText ctx := by
    apply List.map_congr_left
    intro c hc
    have owner : IsClassName c.name := names.name hs hc
    have record := InstanceLayout.structText_eq (l := h.classes.layoutOf c) owner ctx
    have table := DispatchTable.structText_eq (t := h.classes.tableOf c) owner ctx fun slot hslot =>
      names.implementor hs hc hslot
    rw [ClassMap.structsOf, record, table]
  simp only [declarationFile, headerFile, spelled]

theorem yields_header (names : h.HasClassNames) (hs : h.classes.ordered = .ok sorted)
    (settings : Settings) :
    Yields (render settings .header (h.wrapped (h.classes.headerMembers sorted)))
      (h.headerFile settings sorted) :=
  (yields_declarations h sorted settings).of_eq (declarationFile_eq names hs settings)

/-- The header is the text above, unless one of the types that the classes were given has none. -/
theorem header_eq_or_error (names : h.HasClassNames) (hs : h.classes.ordered = .ok sorted)
    (settings : Settings) :
    (do render settings .header (← h.headerUnit)) = .ok (h.headerFile settings sorted) ∨
      ∃ c ∈ sorted, ∃ t ∈ c.typeTrees, ∃ e, t.typeText settings.runtime = .error e ∧
        (do render settings .header (← h.headerUnit)) = .error e := by
  have hu : h.headerUnit = .ok (h.wrapped (h.classes.headerMembers sorted)) :=
    headerUnit_eq_ok_iff.mpr ⟨sorted, hs, rfl⟩
  have faults : FailsWithin (fun e => ∃ c ∈ sorted, ∃ t ∈ c.typeTrees,
      t.typeText settings.runtime = .error e)
        (render settings .header (h.wrapped (h.classes.headerMembers sorted))) := by
    apply FailsWithin.render_headerUnit settings hu
    intro c hc t ht
    constructor
    intro e he
    exact ⟨c, (ClassMap.ordered_perm hs).mem_iff.mpr hc, t, ht, he⟩
  rw [hu, ok_bind]
  cases hr : render settings .header (h.wrapped (h.classes.headerMembers sorted)) with
  | ok text => exact .inl (by rw [yields_header names hs settings text hr])
  | error e =>
    obtain ⟨c, hc, t, ht, he⟩ := faults.of_error e hr
    exact .inr ⟨c, hc, t, ht, e, he, rfl⟩

theorem implementation_eq (keyed : h.classes.Keyed) (names : h.HasClassNames)
    (hs : h.classes.ordered = .ok sorted) (settings : Settings) (lowered : List Tree) :
    (do render settings .implementation (← h.implementationUnit lowered)) = (do
      let texts ← (lowered.flatMap Tree.definitions).mapM fun t => t.print .item
        ((Context.inside { artifact := .implementation, settings } .compilationUnit).inPackages
          h.packages)
      return h.implementationFile settings sorted (concat texts)) := by
  let inner :=
    (Context.inside { artifact := .implementation, settings } .compilationUnit).inPackages
      h.packages
  have objects : (sorted.map (·.classObject h.packages)).mapM (fun t => t.print .item inner) =
      .ok (sorted.map (·.objectText inner h.packages)) := by
    apply mapM_map_ok
    intro c hc
    have spelled := ClassDecl.supportText_eq (names.name hs hc)
      (fun p hp => names.parent hs hc keyed hp) inner h.packages
    rw [print_support (by simp [inner, Context.inPackages, Context.inside]), spelled]
  rw [implementationUnit, hs, ok_bind, pure_def, ok_bind, render, print_wrapped, List.mapM_append,
    objects]
  simp only [bind_assoc, pure_bind, ok_bind, Text.concat_append, inner, start_inPackages]
  rfl

theorem entry_eq (keyed : h.classes.Keyed) (names : h.HasClassNames) (settings : Settings)
    {c : ClassDecl} (hc : c ∈ h.classes.classes) :
    (do render settings .entryPoint (← h.entryUnit c.name)) =
      .ok (h.entryFile settings c.name) := by
  have registered : h.classes.contains c.name = true := by
    rw [ClassMap.contains, ClassMap.get?_name keyed hc]
    rfl
  rw [entryUnit, if_pos registered, ok_bind]
  exact print_main settings h (names c hc)

theorem headerFile_at (settings : Settings) {c : ClassDecl} (hc : c ∈ sorted) :
    ∃ before after : Context → String, h.headerFile settings sorted =
      h.file settings .header fun ctx => before ctx
        ++ ((h.classes.layoutOf c).recordText ctx ++ (h.classes.tableOf c).tableText ctx)
        ++ after ctx := by
  obtain ⟨first, rest, rfl⟩ := List.append_of_mem hc
  refine ⟨fun ctx => introductionText ctx (first ++ c :: rest) ++ concat (first.map fun d =>
      (h.classes.layoutOf d).recordText ctx ++ (h.classes.tableOf d).tableText ctx),
    fun ctx => concat (rest.map fun d =>
      (h.classes.layoutOf d).recordText ctx ++ (h.classes.tableOf d).tableText ctx), ?_⟩
  simp only [headerFile, List.map_append, List.map_cons, Text.concat_append, concat,
    String.append_assoc]

theorem implementationFile_at (settings : Settings) (lowered : String) {c : ClassDecl}
    (hc : c ∈ sorted) :
    ∃ before after : Context → String, h.implementationFile settings sorted lowered =
      h.file settings .implementation fun ctx =>
        before ctx ++ c.objectText ctx h.packages ++ after ctx := by
  obtain ⟨first, rest, rfl⟩ := List.append_of_mem hc
  refine ⟨fun ctx => lowered ++ concat (first.map fun d => d.objectText ctx h.packages),
    fun ctx => concat (rest.map fun d => d.objectText ctx h.packages), ?_⟩
  simp only [implementationFile, List.map_append, List.map_cons, Text.concat_append, concat,
    String.append_assoc]

/-- Each of the three files is a text that is made from the names of the classes. For every class
`C` the header has its record `__C` and its table inside the packages, the implementation has its
class object there, which refers to a parent by the name of a class among these, and the entry point
calls `main` of `__C` on the path through the packages. -/
theorem generated_names_agree (keyed : h.classes.Keyed) (names : h.HasClassNames)
    (hs : h.classes.ordered = .ok sorted) (settings : Settings) :
    ((do render settings .header (← h.headerUnit)) = .ok (h.headerFile settings sorted) ∨
      ∃ c ∈ sorted, ∃ t ∈ c.typeTrees, ∃ e, t.typeText settings.runtime = .error e ∧
        (do render settings .header (← h.headerUnit)) = .error e) ∧
    (∀ lowered, (do render settings .implementation (← h.implementationUnit lowered)) = (do
      let texts ← (lowered.flatMap Tree.definitions).mapM fun t => t.print .item
        ((Context.inside { artifact := .implementation, settings } .compilationUnit).inPackages
          h.packages)
      return h.implementationFile settings sorted (concat texts))) ∧
    ∀ c ∈ sorted,
      (∃ before after : Context → String, h.headerFile settings sorted =
        h.file settings .header fun ctx => before ctx
          ++ ((h.classes.layoutOf c).recordText ctx ++ (h.classes.tableOf c).tableText ctx)
          ++ after ctx) ∧
      (∀ lowered, ∃ before after : Context → String,
        h.implementationFile settings sorted lowered = h.file settings .implementation fun ctx =>
          before ctx ++ c.objectText ctx h.packages ++ after ctx) ∧
      (∀ p, c.parent? = some p → ∃ q ∈ sorted, q.name = p) ∧
      (do render settings .entryPoint (← h.entryUnit c.name)) =
        .ok (h.entryFile settings c.name) := by
  refine ⟨header_eq_or_error names hs settings, ?_, ?_⟩
  · intro lowered
    exact implementation_eq keyed names hs settings lowered
  · intro c hc
    refine ⟨headerFile_at settings hc, ?_, ?_, ?_⟩
    · intro lowered
      exact implementationFile_at settings lowered hc
    · intro p hp
      exact exists_parent keyed hs hc hp
    · exact entry_eq keyed names settings ((ClassMap.ordered_perm hs).mem_iff.mp hc)

end Hierarchy

namespace Shapes

def discEntry : String :=
  "#include \"output.h\"\n\nusing namespace java::lang;\n\n"
    ++ "int main(int argc, char* argv[]) \x7b\n"
    ++ "    __rt::Array<String> args = new __rt::__Array<String>(argc - 1);\n\n"
    ++ "    for (int32_t i = 1; i < argc; i++) \x7b\n"
    ++ "        (*args)[i - 1] = __rt::literal(argv[i]);\n    \x7d\n\n"
    ++ "    geo::flat::__Disc::main(args);\n\n    return 0;\n\x7d\n"

theorem disc_spelled : hierarchy.classes.Keyed ∧ hierarchy.HasClassNames ∧
    ∃ sorted, hierarchy.classes.ordered = .ok sorted ∧
      (do render {} .header (← hierarchy.headerUnit)) = .ok (hierarchy.headerFile {} sorted) ∧
      (∃ q ∈ sorted, q.name = disc.parent) ∧
      (do render {} .entryPoint (← hierarchy.entryUnit "Disc")) = .ok discEntry := by
  have keyed : hierarchy.classes.Keyed := ClassMap.keyed_ofClasses [disc, shape, circle]
  have names : hierarchy.HasClassNames := by
    unfold Hierarchy.HasClassNames
    decide +kernel
  have all : ∀ c ∈ hierarchy.classes.classes,
      hierarchy.classes.lineage c = .ok (hierarchy.classes.chainOf c) := by decide +kernel
  have types : ∀ c ∈ hierarchy.classes.classes, ∀ t ∈ c.typeTrees, t = int := by decide +kernel
  have registered : disc ∈ hierarchy.classes.classes := by decide +kernel
  obtain ⟨sorted, hs⟩ := ClassMap.exists_ordered fun c hc => ⟨_, all c hc⟩
  obtain ⟨header, -, each⟩ := Hierarchy.generated_names_agree keyed names hs {}
  obtain ⟨-, -, parent, entry⟩ := each disc ((ClassMap.ordered_perm hs).mem_iff.mpr registered)
  have text : hierarchy.entryFile {} "Disc" = discEntry := by decide +kernel
  rw [← text]
  refine ⟨keyed, names, sorted, hs, header.resolve_right ?_, parent _ rfl, entry⟩
  rintro ⟨c, hc, t, ht, e, he, -⟩
  rw [types c ((ClassMap.ordered_perm hs).mem_iff.mp hc) t ht, int, Tree.typeText_typeRef] at he
  cases he

end Shapes

end ClassLowering
