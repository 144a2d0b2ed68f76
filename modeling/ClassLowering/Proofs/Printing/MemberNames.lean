import ClassLowering.Proofs.Printing.Names
import Mathlib.Data.List.Flatten

/-!
# Names of members

The record of a class declares the pointer to its table, the instance fields of its ancestors, its
own fields and the table itself, and the table declares one function pointer for each slot. Names
of several classes meet there. A field that hides an inherited one is declared beside it, and an
overload gets a slot of its own beside the method with its name. These are the only ways for two
members to have one name: the data members have distinct names exactly when no field is hidden, and
the function pointers exactly when no method is overloaded along the lineage.
-/

set_option autoImplicit false

namespace ClassLowering

open Text (concat)

/-- A name that cannot be taken for a generated one. -/
def Naming.IsPlain (name : String) : Prop := ¬marker.toList <+: name.toList

instance : DecidablePred Naming.IsPlain := fun _ => inferInstanceAs (Decidable (¬_))

namespace ClassDecl

def ownNames (c : ClassDecl) : List String := c.fields.flatMap FieldDecl.names

def instanceNames (c : ClassDecl) : List String :=
  (c.fields.filter (!·.isStatic)).flatMap FieldDecl.names

/-- No name clashes among the members that the class declares itself. -/
structure IsTidy (c : ClassDecl) : Prop where
  fields : c.ownNames.Nodup
  methods : (c.methods.map fun f => (f.name, f.parameterTypes)).Nodup
  plain : ∀ name ∈ c.ownNames ++ c.methods.map MethodDecl.name, Naming.IsPlain name

instance (c : ClassDecl) : Decidable c.IsTidy :=
  decidable_of_iff (c.ownNames.Nodup ∧ (c.methods.map fun f => (f.name, f.parameterTypes)).Nodup ∧
      ∀ name ∈ c.ownNames ++ c.methods.map MethodDecl.name, Naming.IsPlain name)
    ⟨fun h => ⟨h.1, h.2.1, h.2.2⟩, fun h => ⟨h.fields, h.methods, h.plain⟩⟩

/-- No class gives a field the name of an instance field above it. The static fields of ancestors
are not laid out, so only the class at the bottom counts with all its fields. -/
def HidesNoField (above : List ClassDecl) (c : ClassDecl) : Prop :=
  above.Pairwise (fun a b => a.instanceNames.Disjoint b.instanceNames) ∧
    ∀ a ∈ above, a.instanceNames.Disjoint c.ownNames

/-- Instance methods with the same name have the same parameter types. -/
def OverloadsNothing (chain : List ClassDecl) : Prop :=
  ∀ a ∈ chain, ∀ f ∈ a.methods, f.isStatic = false →
    ∀ b ∈ chain, ∀ g ∈ b.methods, g.isStatic = false →
      f.name = g.name → f.parameterTypes = g.parameterTypes

theorem instanceNames_sublist (c : ClassDecl) : c.instanceNames.Sublist c.ownNames :=
  List.filter_sublist.flatMap FieldDecl.names

end ClassDecl

/-! ## Data members -/

/-- The names that the record of a class declares data under. -/
def InstanceLayout.memberNames (l : InstanceLayout) : List String :=
  l.dataMembers.flatMap FieldDecl.names

namespace ClassMap

variable {m : ClassMap} {c : ClassDecl} {above : List ClassDecl}

theorem memberNames_layoutOf (hl : m.lineage c = .ok (above ++ [c])) :
    (m.layoutOf c).memberNames =
      "__vptr" :: (above.flatMap ClassDecl.instanceNames ++ c.ownNames ++ ["__vtable"]) := by
  have inherited : ((above.flatMap ClassDecl.fields).filter (!·.isStatic)).flatMap FieldDecl.names =
      above.flatMap ClassDecl.instanceNames := by
    rw [List.filter_flatMap, List.flatMap_assoc]
    rfl
  simp [InstanceLayout.memberNames, InstanceLayout.dataMembers, InstanceLayout.pointerField,
    InstanceLayout.tableStorage, layoutOf, chainOf_eq hl, inherited, ClassDecl.ownNames]

theorem nodup_laidOut_iff (tidy : ∀ a ∈ above ++ [c], a.IsTidy) :
    (above.flatMap ClassDecl.instanceNames ++ c.ownNames).Nodup ↔
      ClassDecl.HidesNoField above c := by
  have each : ∀ a ∈ above, a.instanceNames.Nodup := fun a ha =>
    (tidy a (by simp [ha])).fields.sublist a.instanceNames_sublist
  have own : c.ownNames.Nodup := (tidy c (by simp)).fields
  rw [List.nodup_append', List.nodup_flatMap]
  constructor
  · rintro ⟨⟨-, apart⟩, -, below⟩
    refine ⟨apart, ?_⟩
    intro a ha name inherited
    exact below (List.mem_flatMap.mpr ⟨a, ha, inherited⟩)
  · rintro ⟨apart, below⟩
    refine ⟨⟨each, apart⟩, own, ?_⟩
    intro name inherited
    obtain ⟨a, ha, hn⟩ := List.mem_flatMap.mp inherited
    exact below a ha hn

theorem nodup_memberNames_iff (hl : m.lineage c = .ok (above ++ [c]))
    (tidy : ∀ a ∈ above ++ [c], a.IsTidy) :
    (m.layoutOf c).memberNames.Nodup ↔ ClassDecl.HidesNoField above c := by
  have plain : ∀ name ∈ above.flatMap ClassDecl.instanceNames ++ c.ownNames,
      Naming.IsPlain name := by
    intro name hn
    rcases List.mem_append.mp hn with hn | hn
    · obtain ⟨a, ha, hn⟩ := List.mem_flatMap.mp hn
      have declared := a.instanceNames_sublist.subset hn
      exact (tidy a (by simp [ha])).plain name (by simp [declared])
    · exact (tidy c (by simp)).plain name (by simp [hn])
  -- the two generated names are marked, so they clash with no field
  have pointer : "__vptr" ∉ above.flatMap ClassDecl.instanceNames ++ c.ownNames := fun hn =>
    plain _ hn (by decide)
  have storage : "__vtable" ∉ above.flatMap ClassDecl.instanceNames ++ c.ownNames := fun hn =>
    plain _ hn (by decide)
  rw [memberNames_layoutOf hl, ← nodup_laidOut_iff tidy]
  generalize above.flatMap ClassDecl.instanceNames ++ c.ownNames = names at pointer storage ⊢
  simp [List.nodup_append', pointer, storage]

end ClassMap

/-! ## Function pointers -/

/-- The names that the table of a class declares function pointers under. -/
def DispatchTable.functionNames (t : DispatchTable) : List String := t.slots.map DispatchSlot.name

theorem DispatchTable.functionNames_eq (t : DispatchTable) :
    t.functionNames = (t.slots.map DispatchSlot.key).map Prod.fst := by
  rw [List.map_map]
  rfl

namespace ClassMap

variable {m : ClassMap} {c : ClassDecl} {chain : List ClassDecl}

theorem mem_keys_tableOf (hl : m.lineage c = .ok chain) (k : String × List Tree) :
    k ∈ (m.tableOf c).slots.map DispatchSlot.key ↔
      ∃ a ∈ chain, ∃ f ∈ a.methods, f.isStatic = false ∧ k = (f.name, f.parameterTypes) := by
  rw [tableOf, chainOf_eq hl, DispatchSlot.mem_keys_placeAll]
  simp only [List.map_nil, List.not_mem_nil, false_or, List.mem_map, List.mem_flatMap,
    ClassDecl.mem_candidates_iff]
  constructor
  · rintro ⟨_, ⟨a, ha, f, hf, hs, rfl⟩, rfl⟩
    exact ⟨a, ha, f, hf, hs, rfl⟩
  · rintro ⟨a, ha, f, hf, hs, rfl⟩
    exact ⟨_, ⟨a, ha, f, hf, hs, rfl⟩, rfl⟩

theorem nodup_functionNames_iff (hl : m.lineage c = .ok chain) :
    (m.tableOf c).functionNames.Nodup ↔ ClassDecl.OverloadsNothing chain := by
  have keys : ((m.tableOf c).slots.map DispatchSlot.key).Nodup :=
    DispatchSlot.keys_placeAll_nodup _ List.nodup_nil
  rw [DispatchTable.functionNames_eq, List.nodup_map_iff_inj_on keys]
  constructor
  · intro inj a ha f hf hfs b hb g hg hgs same
    have first := (mem_keys_tableOf hl _).mpr ⟨a, ha, f, hf, hfs, rfl⟩
    have second := (mem_keys_tableOf hl _).mpr ⟨b, hb, g, hg, hgs, rfl⟩
    exact (Prod.mk.inj (inj _ first _ second same)).2
  · intro single k hk k' hk' same
    obtain ⟨a, ha, f, hf, hfs, rfl⟩ := (mem_keys_tableOf hl k).mp hk
    obtain ⟨b, hb, g, hg, hgs, rfl⟩ := (mem_keys_tableOf hl k').mp hk'
    exact Prod.ext same (single a ha f hf hfs b hb g hg hgs same)

theorem isPlain_functionNames (hl : m.lineage c = .ok chain) (tidy : ∀ a ∈ chain, a.IsTidy) :
    ∀ name ∈ (m.tableOf c).functionNames, Naming.IsPlain name := by
  intro name hn
  rw [DispatchTable.functionNames_eq] at hn
  obtain ⟨k, hk, rfl⟩ := List.mem_map.mp hn
  obtain ⟨a, ha, f, hf, -, rfl⟩ := (mem_keys_tableOf hl k).mp hk
  exact (tidy a ha).plain f.name (by simp [List.mem_map_of_mem hf])

end ClassMap

/-! ## In the header -/

theorem Text.infix_concat {s : String} {texts : List String} (h : s ∈ texts) :
    s.toList <:+: (concat texts).toList := by
  obtain ⟨before, after, rfl⟩ := List.append_of_mem h
  rw [Text.concat_append, concat, String.toList_append, String.toList_append]
  exact ⟨_, _, List.append_assoc ..⟩

theorem Context.infix_enclosed (ctx : Context) (packages : List String) (text : String) :
    text.toList <:+: (ctx.enclosed packages text).toList := by
  induction packages generalizing ctx with
  | nil => exact List.infix_rfl
  | cons package rest ih =>
    rw [enclosed, String.toList_append, String.toList_append]
    exact (ih ctx.deeper).trans ⟨_, _, rfl⟩

namespace Hierarchy

variable {h : Hierarchy} {unit : Tree}

theorem infix_declarationFile {sorted : List ClassDecl} (settings : Settings) {c : ClassDecl}
    (hc : c ∈ sorted) :
    (h.classes.structsOf { artifact := .header, settings, depth := h.packages.length } c).toList
      <:+: (h.declarationFile settings sorted).toList := by
  have inMembers := Text.infix_concat (List.mem_map_of_mem (f := h.classes.structsOf
    { artifact := .header, settings, depth := h.packages.length }) hc)
  have inBody := inMembers.trans (List.suffix_append (introductionText
    { artifact := .header, settings, depth := h.packages.length } sorted).toList _).isInfix
  rw [← String.toList_append] at inBody
  have inPackages := inBody.trans (Context.infix_enclosed { artifact := .header, settings }
    h.packages _)
  rw [declarationFile, file, String.toList_append]
  exact inPackages.trans (List.suffix_append _ _).isInfix

/-- Where no class has clashing members of its own, the data members of the record that the header
declares for a class have distinct names exactly when no field is hidden, and the function pointers
of its table exactly when no method is overloaded. -/
theorem member_names_distinct_iff (laid : h.headerUnit = .ok unit)
    (tidy : ∀ c ∈ h.classes.classes, c.IsTidy) {c : ClassDecl} (hc : c ∈ h.classes.classes) :
    ∃ above layout table, h.classes.lineage c = .ok (above ++ [c]) ∧
      InstanceLayout.of h.classes c = .ok layout ∧ DispatchTable.of h.classes c = .ok table ∧
      (∀ settings text, render settings .header unit = .ok text →
        let ctx : Context := { artifact := .header, settings, depth := h.packages.length }
        (layout.structText ctx ++ table.structText ctx).toList <:+: text.toList) ∧
      (layout.memberNames.Nodup ↔ ClassDecl.HidesNoField above c) ∧
      (table.functionNames.Nodup ↔ ClassDecl.OverloadsNothing (above ++ [c])) ∧
      "__is_a" ∉ table.functionNames := by
  obtain ⟨sorted, hs, rfl⟩ := headerUnit_eq_ok_iff.mp laid
  have hcs : c ∈ sorted := (ClassMap.ordered_perm hs).mem_iff.mpr hc
  have hl := ClassMap.lineage_of_ordered hs hcs
  obtain ⟨-, above, ends⟩ := ClassMap.lineage_eq_ok_iff.mp hl
  rw [← ends] at hl
  have chainTidy : ∀ a ∈ above ++ [c], a.IsTidy := by
    intro a ha
    have listed := mem_ordered_of_lineage hs hcs hl ha
    exact tidy a ((ClassMap.ordered_perm hs).mem_iff.mp listed)
  refine ⟨above, h.classes.layoutOf c, h.classes.tableOf c, hl, ClassMap.layout_eq_ok hl,
    ClassMap.table_eq_ok hl, ?_, ClassMap.nodup_memberNames_iff hl chainTidy,
    ClassMap.nodup_functionNames_iff hl, ?_⟩
  · intro settings text printed
    rw [yields_declarations h sorted settings text printed]
    exact infix_declarationFile settings hcs
  · intro generated
    exact ClassMap.isPlain_functionNames hl chainTidy _ generated (by decide)

end Hierarchy

theorem Shapes.disc_members : ∃ unit layout table, hierarchy.headerUnit = .ok unit ∧
    InstanceLayout.of hierarchy.classes disc = .ok layout ∧
    DispatchTable.of hierarchy.classes disc = .ok table ∧
    layout.memberNames.Nodup ∧ ¬table.functionNames.Nodup := by
  have all : ∀ c ∈ hierarchy.classes.classes,
      hierarchy.classes.lineage c = .ok (hierarchy.classes.chainOf c) := by decide +kernel
  have tidy : ∀ c ∈ hierarchy.classes.classes, c.IsTidy := by decide +kernel
  have registered : disc ∈ hierarchy.classes.classes := by decide +kernel
  obtain ⟨unit, laid⟩ := Hierarchy.exists_headerUnit all
  obtain ⟨above, layout, table, hl, hlayout, htable, -, data, functions, -⟩ :=
    Hierarchy.member_names_distinct_iff laid tidy registered
  have chain : above ++ [disc] = [shape, circle] ++ [disc] :=
    Except.ok.inj (hl.symm.trans lineage_disc)
  obtain rfl := List.append_cancel_right chain
  have unhidden : ClassDecl.HidesNoField [shape, circle] disc := by
    have upper : shape.instanceNames = ["id"] := by decide +kernel
    have lower : circle.instanceNames = ["x", "y"] := by decide +kernel
    have own : disc.ownNames = [] := rfl
    simp [ClassDecl.HidesNoField, upper, lower, own]
  have overloaded : ¬ClassDecl.OverloadsNothing ([shape, circle] ++ [disc]) := by
    intro single
    have same := single circle (by simp) area (by simp [circle]) (by decide +kernel) disc (by simp)
      (area.addParameter "scale" int) (by simp [disc]) (by decide +kernel) rfl
    exact absurd same (by decide +kernel)
  exact ⟨unit, layout, table, laid, hlayout, htable, data.mpr unhidden,
    fun distinct => overloaded (functions.mp distinct)⟩

/-! ## Two classes -/

namespace Points

open Shapes (int)

def move : MethodDecl := { result := int, name := "move" }

def point : ClassDecl where
  name := "Point"
  parent := Naming.noParent
  fields := [{ type := int, names := ["x"] }]
  methods := [move]

def pixel : ClassDecl where
  name := "Pixel"
  parent := "Point"
  fields := [{ type := int, names := ["x"] }]
  methods := [move.addParameter "by" int]

def hierarchy : Hierarchy := .ofClasses [point, pixel] []

/-- Each class alone has no clash, and still the record that the header declares for `Pixel` has two
members `x`, and its table has two function pointers `move`. -/
theorem pixel_members_clash : (∀ c ∈ hierarchy.classes.classes, c.IsTidy) ∧
    ∃ unit text layout table, hierarchy.headerUnit = .ok unit ∧
      render {} .header unit = .ok text ∧
      InstanceLayout.of hierarchy.classes pixel = .ok layout ∧
      DispatchTable.of hierarchy.classes pixel = .ok table ∧
      (layout.structText { artifact := .header, settings := {} }
        ++ table.structText { artifact := .header, settings := {} }).toList <:+: text.toList ∧
      layout.memberNames = ["__vptr", "x", "x", "__vtable"] ∧
      table.functionNames = ["move", "move"] := by
  have all : ∀ c ∈ hierarchy.classes.classes,
      hierarchy.classes.lineage c = .ok (hierarchy.classes.chainOf c) := by decide +kernel
  have names : hierarchy.HasClassNames := by
    unfold Hierarchy.HasClassNames
    decide +kernel
  have types : ∀ c ∈ hierarchy.classes.classes, ∀ t ∈ c.typeTrees, t = int := by decide +kernel
  have registered : pixel ∈ hierarchy.classes.classes := by decide +kernel
  have lineage : hierarchy.classes.lineage pixel = .ok ([point] ++ [pixel]) := by decide +kernel
  obtain ⟨sorted, hs⟩ := ClassMap.exists_ordered fun c hc => ⟨_, all c hc⟩
  have laid := Hierarchy.headerUnit_eq_ok_iff.mpr ⟨sorted, hs, rfl⟩
  have printed : render {} .header (hierarchy.wrapped (hierarchy.classes.headerMembers sorted)) =
      .ok (hierarchy.headerFile {} sorted) := by
    have outcome := Hierarchy.header_eq_or_error names hs {}
    rw [laid, ok_bind] at outcome
    apply outcome.resolve_right
    rintro ⟨c, hc, t, ht, e, he, -⟩
    rw [types c ((ClassMap.ordered_perm hs).mem_iff.mp hc) t ht, int, Tree.typeText_typeRef] at he
    cases he
  have listed : pixel ∈ sorted := (ClassMap.ordered_perm hs).mem_iff.mpr registered
  have declared := Hierarchy.infix_declarationFile (h := hierarchy) {} listed
  rw [Hierarchy.declarationFile_eq names hs] at declared
  refine ⟨by decide +kernel, _, _, _, _, laid, printed, ClassMap.layout_eq_ok lineage,
    ClassMap.table_eq_ok lineage, declared, ?_, by decide +kernel⟩
  rw [ClassMap.memberNames_layoutOf lineage]
  decide +kernel

end Points

end ClassLowering
