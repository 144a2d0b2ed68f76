import ClassLowering.Proofs.Layout.Dispatch
import ClassLowering.Proofs.Layout.Reading

/-!
# The header as a whole

A header is built exactly when the classes can be ordered. It then declares every class once, each
followed by its table and after its ancestors. The fields read off a class declaration are those of
the lineage, so the declaration of an ancestor begins with the same fields. Every entry of a
table names a class declared before the table, whose body declares the function that the entry
refers to, with that class for the receiver.
-/

set_option autoImplicit false

namespace ClassLowering

theorem filter_eq_singleton {α β : Type} [DecidableEq β] {f : α → β} {l : List α}
    (hn : (l.map f).Nodup) {a : α} (ha : a ∈ l) : l.filter (fun x => f x = f a) = [a] := by
  induction l with
  | nil => simp at ha
  | cons x rest ih =>
    obtain ⟨hx, hr⟩ := List.nodup_cons.mp hn
    rcases List.mem_cons.mp ha with rfl | ha
    · have none_left : rest.filter (fun y => f y = f a) = [] := by
        apply List.filter_eq_nil_iff.mpr
        intro y hy e
        apply hx
        exact List.mem_map.mpr ⟨y, hy, by simpa using e⟩
      simp [none_left]
    · have hne : ¬f x = f a := fun e => hx (e ▸ List.mem_map.mpr ⟨a, ha, rfl⟩)
      simp [hne, ih hr ha]

/-! ## The layout of one class -/

namespace ClassDecl

def instanceEntries (c : ClassDecl) : List (Tree × List String) :=
  (c.fields.filter (!·.isStatic)).map FieldDecl.entry

def staticEntries (c : ClassDecl) : List (Tree × List String) :=
  (c.fields.filter (·.isStatic)).map FieldDecl.entry

def pointerEntry (c : ClassDecl) : Tree × List String :=
  (.typeRef (Naming.table c.name ++ "*") 0, ["__vptr"])

def tableEntry (c : ClassDecl) : Tree × List String :=
  (.typeRef (Naming.table c.name) 0, ["__vtable"])

end ClassDecl

namespace ClassMap

variable {m : ClassMap} {c : ClassDecl} {chain : List ClassDecl}

def layoutOf (m : ClassMap) (c : ClassDecl) : InstanceLayout where
  owner := c
  fields := ((m.chainOf c).dropLast.flatMap ClassDecl.fields).filter (!·.isStatic) ++ c.fields

def tableOf (m : ClassMap) (c : ClassDecl) : DispatchTable where
  owner := c
  slots := DispatchSlot.placeAll ((m.chainOf c).flatMap ClassDecl.candidates) []

def declared (m : ClassMap) (c : ClassDecl) : List Tree :=
  [(m.layoutOf c).declaration, (m.tableOf c).declaration]

theorem layout_eq_ok (h : m.lineage c = .ok chain) :
    InstanceLayout.of m c = .ok (m.layoutOf c) :=
  bind_eq_ok.mpr ⟨chain, h, by simp [layoutOf, chainOf_eq h]⟩

theorem table_eq_ok (h : m.lineage c = .ok chain) : DispatchTable.of m c = .ok (m.tableOf c) :=
  DispatchTable.of_eq_ok_iff.mpr ⟨chain, h, by simp [tableOf, chainOf_eq h]⟩

theorem declarations_eq_ok (h : m.lineage c = .ok chain) :
    c.declarations m = .ok (m.declared c) :=
  bind_eq_ok.mpr ⟨_, layout_eq_ok h, bind_eq_ok.mpr ⟨_, table_eq_ok h, rfl⟩⟩

/-- Ancestors give their instance fields and the class gives all of its own, so the instance fields
are those of the whole lineage. -/
theorem fieldEntries?_layoutOf (h : m.lineage c = .ok chain) :
    (m.layoutOf c).declaration.fieldEntries? false =
      some (c.pointerEntry :: chain.flatMap ClassDecl.instanceEntries) := by
  obtain ⟨-, above, rfl⟩ := lineage_eq_ok_iff.mp h
  have inherited : ((above.flatMap ClassDecl.fields).filter (!·.isStatic)).map FieldDecl.entry =
      above.flatMap ClassDecl.instanceEntries := by
    rw [List.filter_flatMap, List.map_flatMap]
    rfl
  rw [InstanceLayout.fieldEntries?_instance]
  simp [layoutOf, chainOf_eq h, inherited, ClassDecl.pointerEntry]
  rfl

theorem fieldEntries?_layoutOf_static (m : ClassMap) (c : ClassDecl) :
    (m.layoutOf c).declaration.fieldEntries? true = some (c.staticEntries ++ [c.tableEntry]) := by
  rw [InstanceLayout.fieldEntries?_static]
  simp [layoutOf, ClassDecl.staticEntries, ClassDecl.tableEntry]

def introductions (sorted : List ClassDecl) : List Tree :=
  [.group .forwardDeclarations (sorted.flatMap ClassDecl.forwardDeclarations),
    .group .typeSpecifiers (sorted.map ClassDecl.typeAlias)]

def headerMembers (m : ClassMap) (sorted : List ClassDecl) : List Tree :=
  introductions sorted ++ sorted.flatMap m.declared

theorem is_namespace_headerMembers {sorted : List ClassDecl} {t : Tree}
    (ht : t ∈ m.headerMembers sorted) : t.is .namespaceDeclaration = false := by
  simp only [headerMembers, introductions, declared, List.mem_append, List.mem_cons,
    List.mem_flatMap, List.not_mem_nil, or_false] at ht
  rcases ht with (rfl | rfl) | ⟨c, -, rfl | rfl⟩ <;> exact Tree.is_node _ _ _

theorem filter_declared {p : Tree → Bool} {q : ClassDecl → Bool} {g : ClassDecl → Tree}
    (h : ∀ c, (m.declared c).filter p = if q c then [g c] else []) (sorted : List ClassDecl) :
    (sorted.flatMap m.declared).filter p = (sorted.filter q).map g := by
  induction sorted with
  | nil => rfl
  | cons c rest ih =>
    rw [List.flatMap_cons, List.filter_append, ih, h, List.filter_cons]
    split <;> rfl

theorem filter_declaresClass (m : ClassMap) (sorted : List ClassDecl) (name : String) :
    (m.headerMembers sorted).filter (Tree.declaresClass name) =
      (sorted.filter (·.name = name)).map fun c => (m.layoutOf c).declaration := by
  have single (c : ClassDecl) : (m.declared c).filter (Tree.declaresClass name) =
      if decide (c.name = name) then [(m.layoutOf c).declaration] else [] := by
    simp [declared, List.filter_cons, Tree.declaresClass, InstanceLayout.declaration,
      DispatchTable.declaration, Slot.text?, layoutOf]
  rw [← filter_declared single]
  simp [headerMembers, introductions, Tree.group, Tree.declaresClass]

theorem filter_declaresTable (m : ClassMap) (sorted : List ClassDecl) (name : String) :
    (m.headerMembers sorted).filter (Tree.declaresTable name) =
      (sorted.filter (·.name = name)).map fun c => (m.tableOf c).declaration := by
  have single (c : ClassDecl) : (m.declared c).filter (Tree.declaresTable name) =
      if decide (c.name = name) then [(m.tableOf c).declaration] else [] := by
    simp [declared, List.filter_cons, Tree.declaresTable, InstanceLayout.declaration,
      DispatchTable.declaration, Slot.text?, tableOf]
  rw [← filter_declared single]
  simp [headerMembers, introductions, Tree.group, Tree.declaresTable]

end ClassMap

namespace Hierarchy

variable {h : Hierarchy} {unit : Tree}

theorem headerUnit_eq_ok_iff : h.headerUnit = .ok unit ↔
    ∃ sorted, h.classes.ordered = .ok sorted ∧
      unit = h.wrapped (h.classes.headerMembers sorted) := by
  have declared {sorted : List ClassDecl} (hs : h.classes.ordered = .ok sorted) :
      sorted.mapM (ClassDecl.declarations h.classes) = .ok (sorted.map h.classes.declared) :=
    mapM_ok _ fun c hc => ClassMap.declarations_eq_ok (ClassMap.lineage_of_ordered hs hc)
  simp only [headerUnit, bind_eq_ok, pure_eq_ok]
  constructor
  · rintro ⟨sorted, hs, decls, hd, rfl⟩
    obtain rfl := Except.ok.inj ((declared hs).symm.trans hd)
    exact ⟨sorted, hs, rfl⟩
  · rintro ⟨sorted, hs, rfl⟩
    exact ⟨sorted, hs, _, declared hs, rfl⟩

theorem exists_headerUnit
    (all : ∀ c ∈ h.classes.classes, h.classes.lineage c = .ok (h.classes.chainOf c)) :
    ∃ unit, h.headerUnit = .ok unit :=
  ⟨_, headerUnit_eq_ok_iff.mpr ⟨_, ClassMap.ordered_eq_ok_iff.mpr ⟨all, rfl⟩, rfl⟩⟩

theorem declarations_headerUnit {sorted : List ClassDecl} :
    (h.wrapped (h.classes.headerMembers sorted)).declarations = h.classes.headerMembers sorted :=
  Tree.declarations_of_children (Tree.children_group _ _) fun _ =>
    ClassMap.is_namespace_headerMembers

section Declared

variable {sorted : List ClassDecl} {c : ClassDecl}

theorem filter_name_eq (hk : h.classes.Keyed) (hs : h.classes.ordered = .ok sorted)
    (hc : c ∈ sorted) : sorted.filter (·.name = c.name) = [c] := by
  have names : (sorted.map ClassDecl.name).Nodup :=
    ((ClassMap.ordered_perm hs).map _).nodup_iff.mpr (ClassMap.names_nodup hk)
  exact filter_eq_singleton names hc

theorem classesNamed_eq (hk : h.classes.Keyed) (hs : h.classes.ordered = .ok sorted)
    (hc : c ∈ sorted) : (h.wrapped (h.classes.headerMembers sorted)).classesNamed c.name =
      [(h.classes.layoutOf c).declaration] := by
  rw [Tree.classesNamed, declarations_headerUnit, ClassMap.filter_declaresClass,
    filter_name_eq hk hs hc]
  rfl

theorem tablesNamed_eq (hk : h.classes.Keyed) (hs : h.classes.ordered = .ok sorted)
    (hc : c ∈ sorted) : (h.wrapped (h.classes.headerMembers sorted)).tablesNamed c.name =
      [(h.classes.tableOf c).declaration] := by
  rw [Tree.tablesNamed, declarations_headerUnit, ClassMap.filter_declaresTable,
    filter_name_eq hk hs hc]
  rfl

theorem mem_ordered_of_lineage {a : ClassDecl} {chain : List ClassDecl}
    (hs : h.classes.ordered = .ok sorted) (hc : c ∈ sorted) (hl : h.classes.lineage c = .ok chain)
    (ha : a ∈ chain) : a ∈ sorted := by
  rcases ClassMap.eq_or_registered hl ha with rfl | hr
  · exact hc
  · exact (ClassMap.ordered_perm hs).mem_iff.mpr hr

end Declared

/-- In the header every class is declared once, with the instance fields of its lineage from the
root on and with its own static fields. An ancestor is declared with a first part of the same
instance fields. -/
theorem upcast_keeps_fields {classes : List ClassDecl} {packages : List String} {d : ClassDecl}
    (hu : (ofClasses classes packages).headerUnit = .ok unit)
    (hd : d ∈ (ClassMap.ofClasses classes).classes) :
    ∃ chain, (ClassMap.ofClasses classes).lineage d = .ok chain ∧
      (∃ decl, unit.classesNamed d.name = [decl] ∧
        decl.fieldEntries? false =
          some (d.pointerEntry :: chain.flatMap ClassDecl.instanceEntries) ∧
        decl.fieldEntries? true = some (d.staticEntries ++ [d.tableEntry])) ∧
      ∀ a ∈ chain, ∃ decl fields, unit.classesNamed a.name = [decl] ∧
        decl.fieldEntries? false = some (a.pointerEntry :: fields) ∧
        fields <+: chain.flatMap ClassDecl.instanceEntries := by
  obtain ⟨sorted, hs, rfl⟩ := headerUnit_eq_ok_iff.mp hu
  have hk := ClassMap.keyed_ofClasses classes
  have hd' := (ClassMap.ordered_perm hs).mem_iff.mpr hd
  have hl := ClassMap.lineage_of_ordered hs hd'
  refine ⟨_, hl, ⟨_, classesNamed_eq hk hs hd', ClassMap.fieldEntries?_layoutOf hl,
    ClassMap.fieldEntries?_layoutOf_static _ _⟩, ?_⟩
  intro a ha
  have ha' := mem_ordered_of_lineage hs hd' hl ha
  obtain ⟨above, below, hc⟩ := List.append_of_mem ha
  rw [hc] at hl ⊢
  have hup := ClassMap.lineage_upper hl
  refine ⟨_, _, classesNamed_eq hk hs ha', ClassMap.fieldEntries?_layoutOf hup,
    below.flatMap ClassDecl.instanceEntries, ?_⟩
  simp

end Hierarchy

namespace Shapes

def hierarchy : Hierarchy := .ofClasses [disc, shape, circle] ["geo", "flat"]

theorem headerUnit_hierarchy : ∃ unit, hierarchy.headerUnit = .ok unit := by
  apply Hierarchy.exists_headerUnit
  decide +kernel

theorem disc_registered : disc ∈ registered.classes := by
  decide +kernel

theorem disc_keeps_fields : ∃ unit, hierarchy.headerUnit = .ok unit ∧ disc ∈ registered.classes ∧
    ∃ decl, unit.classesNamed "Disc" = [decl] ∧
      decl.fieldEntries? false = some [disc.pointerEntry, (int, ["id"]), (int, ["x", "y"])] ∧
      decl.fieldEntries? true = some [disc.tableEntry] := by
  obtain ⟨unit, hu⟩ := headerUnit_hierarchy
  obtain ⟨chain, hl, ⟨decl, hd, hi, hs⟩, -⟩ := Hierarchy.upcast_keeps_fields hu disc_registered
  obtain rfl := Except.ok.inj (lineage_disc.symm.trans hl)
  exact ⟨unit, hu, disc_registered, decl, hd, hi, hs⟩

end Shapes

namespace Hierarchy

variable {h : Hierarchy}

/-- Where the declaration of a table stands: directly after that of its class, and so after those
of all classes in the lineage. -/
theorem exists_split_at_table {sorted : List ClassDecl} {c : ClassDecl}
    (hs : h.classes.ordered = .ok sorted) (hc : c ∈ sorted) :
    ∃ before after, h.classes.headerMembers sorted =
        before ++ (h.classes.tableOf c).declaration :: after ∧
      ∀ chain, h.classes.lineage c = .ok chain → ∀ a ∈ chain,
        (h.classes.layoutOf a).declaration ∈ before := by
  obtain ⟨front, back, rfl⟩ := List.append_of_mem hc
  refine ⟨ClassMap.introductions (front ++ c :: back) ++ front.flatMap h.classes.declared
      ++ [(h.classes.layoutOf c).declaration],
    back.flatMap h.classes.declared, ?_, ?_⟩
  · simp [ClassMap.headerMembers, ClassMap.declared]
  · intro chain hl a ha
    rcases ClassMap.eq_or_ordered_before hs hl ha with rfl | hb
    · simp
    · have hm : (h.classes.layoutOf a).declaration ∈ front.flatMap h.classes.declared :=
        List.mem_flatMap.mpr ⟨a, hb, by simp [ClassMap.declared]⟩
      simp [hm]

end Hierarchy

namespace ClassMap

/-- What an entry of a table refers to: the function of a class in the lineage, declared in the
body of that class with the class itself for the receiver. -/
theorem exists_method_of_slot {m : ClassMap} {c : ClassDecl} {chain : List ClassDecl}
    (hl : m.lineage c = .ok chain)
    (hp : ∀ k ∈ chain, ∀ f ∈ k.methods, f.parameters.length = f.parameterTypes.length)
    {slot : DispatchSlot} (hslot : slot ∈ (m.tableOf c).slots) :
    ∃ i ∈ chain, slot.implementor = i.name ∧ ∃ f ∈ (m.layoutOf i).declaration.bodyMembers,
      f.asMethod? =
        some ⟨slot.result, slot.name, .typeRef i.name 0 :: slot.parameterTypes⟩ := by
  rw [tableOf, chainOf_eq hl] at hslot
  obtain ⟨i, hr, hi⟩ := DispatchTable.resolve_slot hslot
  have hic := ClassDecl.mem_of_resolve hr
  obtain ⟨f, hf, hs, rfl⟩ := ClassDecl.mem_candidates_iff.mp hi
  refine ⟨i, hic, rfl, (m.layoutOf i).methodMember f, ?_,
    InstanceLayout.asMethod?_methodMember _ hs (hp i hic f hf)⟩
  rw [InstanceLayout.bodyMembers_declaration]
  simp only [InstanceLayout.members, List.mem_append]
  exact .inl (.inr (List.mem_map.mpr ⟨f, hf, rfl⟩))

theorem exists_entry_of_method {m : ClassMap} {c : ClassDecl} {chain : List ClassDecl}
    (hl : m.lineage c = .ok chain) {f : MethodDecl} (hf : f ∈ c.methods) (hs : f.isStatic = false) :
    ∃ entry, (m.tableOf c).declaration.tableEntries.filter (fun e =>
      e.asSlot?.map DispatchSlot.key = some (f.name, .typeRef c.name 0 :: f.parameterTypes)) =
        [entry] := by
  have hc := mem_lineage_self hl
  have hk : (f.name, f.parameterTypes) ∈ (m.tableOf c).slots.map DispatchSlot.key := by
    rw [tableOf, chainOf_eq hl, DispatchSlot.mem_keys_placeAll]
    refine .inr (List.mem_map.mpr ⟨.ofMethod c.name f, List.mem_flatMap.mpr ⟨c, hc, ?_⟩, rfl⟩)
    exact ClassDecl.mem_candidates_iff.mpr ⟨f, hf, hs, rfl⟩
  obtain ⟨slot, hslot, hkey⟩ := List.mem_map.mp hk
  have distinct : ((m.tableOf c).slots.map DispatchSlot.key).Nodup :=
    DispatchSlot.keys_placeAll_nodup _ (by simp)
  have same : ((fun e : Tree => decide (e.asSlot?.map DispatchSlot.key =
      some (f.name, .typeRef c.name 0 :: f.parameterTypes))) ∘ (m.tableOf c).entry) =
        fun s => decide (s.key = slot.key) := by
    funext s
    rw [hkey]
    simp [DispatchTable.asSlot?_entry, DispatchSlot.key, tableOf]
  refine ⟨(m.tableOf c).entry slot, ?_⟩
  rw [DispatchTable.tableEntries_declaration, List.filter_map, same,
    filter_eq_singleton distinct hslot]
  rfl

end ClassMap

namespace Hierarchy

/-- Every entry of a table refers to a function that is declared before the table: its first
parameter is the owner of the table, and the class that it names, which is declared once, declares
a function with the same result, name and further parameters. Every instance method of a class has
exactly one entry in the table of the class. -/
theorem entries_declared_before {unit : Tree} {classes : List ClassDecl} {packages : List String}
    {c : ClassDecl} (hu : (ofClasses classes packages).headerUnit = .ok unit)
    (hp : ∀ k ∈ (ClassMap.ofClasses classes).classes, ∀ f ∈ k.methods,
      f.parameters.length = f.parameterTypes.length)
    (hc : c ∈ (ClassMap.ofClasses classes).classes) :
    ∃ chain before table after, (ClassMap.ofClasses classes).lineage c = .ok chain ∧
      unit.declarations = before ++ table :: after ∧ unit.tablesNamed c.name = [table] ∧
      (∀ entry ∈ table.tableEntries, ∃ slot types, entry.asSlot? = some slot ∧
        slot.parameterTypes = .typeRef c.name 0 :: types ∧
        ∃ i ∈ chain, slot.implementor = i.name ∧
        ∃ decl ∈ before, unit.classesNamed i.name = [decl] ∧
        ∃ f ∈ decl.bodyMembers,
          f.asMethod? = some ⟨slot.result, slot.name, .typeRef i.name 0 :: types⟩) ∧
      ∀ f ∈ c.methods, f.isStatic = false →
        ∃ entry, table.tableEntries.filter (fun e => e.asSlot?.map DispatchSlot.key =
          some (f.name, .typeRef c.name 0 :: f.parameterTypes)) = [entry] := by
  obtain ⟨sorted, hs, rfl⟩ := headerUnit_eq_ok_iff.mp hu
  have hk := ClassMap.keyed_ofClasses classes
  have hc' := (ClassMap.ordered_perm hs).mem_iff.mpr hc
  have hl := ClassMap.lineage_of_ordered hs hc'
  obtain ⟨before, after, hm, hb⟩ := exists_split_at_table hs hc'
  refine ⟨_, before, _, after, hl, declarations_headerUnit.trans hm, tablesNamed_eq hk hs hc', ?_,
    fun f hf hs => ClassMap.exists_entry_of_method hl hf hs⟩
  intro entry he
  rw [DispatchTable.tableEntries_declaration] at he
  obtain ⟨slot, hslot, rfl⟩ := List.mem_map.mp he
  have ordered {a : ClassDecl} (ha : a ∈ (ClassMap.ofClasses classes).chainOf c) : a ∈ sorted :=
    mem_ordered_of_lineage hs hc' hl ha
  obtain ⟨i, hi, hn, f, hf, hfe⟩ := ClassMap.exists_method_of_slot hl
    (fun k hk => hp k ((ClassMap.ordered_perm hs).mem_iff.mp (ordered hk))) hslot
  exact ⟨_, slot.parameterTypes, DispatchTable.asSlot?_entry _ _, rfl, i, hi, hn, _,
    hb _ hl i hi, classesNamed_eq hk hs (ordered hi), f, hf, hfe⟩

end Hierarchy

namespace Shapes

theorem circle_entries_declared : ∃ unit, hierarchy.headerUnit = .ok unit ∧
    (∀ k ∈ registered.classes, ∀ f ∈ k.methods,
      f.parameters.length = f.parameterTypes.length) ∧
    circle ∈ registered.classes ∧ ∃ table, unit.tablesNamed "Circle" = [table] ∧
      ∀ f ∈ circle.methods, ∃ entry, table.tableEntries.filter (fun e =>
        e.asSlot?.map DispatchSlot.key = some (f.name, [.typeRef "Circle" 0])) = [entry] := by
  obtain ⟨unit, hu⟩ := headerUnit_hierarchy
  have hp : ∀ k ∈ registered.classes, ∀ f ∈ k.methods,
      f.parameters.length = f.parameterTypes.length := by decide +kernel
  have hc : circle ∈ registered.classes := by decide +kernel
  obtain ⟨_, _, table, _, -, -, ht, -, he⟩ := Hierarchy.entries_declared_before hu hp hc
  refine ⟨unit, hu, hp, hc, table, ht, ?_⟩
  intro f hf
  have plain : ∀ f ∈ circle.methods, f.isStatic = false ∧ f.parameterTypes = [] := by
    decide +kernel
  have hf' := he f hf (plain f hf).1
  rwa [(plain f hf).2] at hf'

end Shapes

end ClassLowering
