import Mathlib.Data.List.Nodup
import ClassLowering.Lowering
import ClassLowering.Proofs.Layout.Header

/-!
# What the order of the classes decides

A name that is registered again keeps its first place and takes the last class. When every
registered class has a lineage, the classes are sorted by the lengths of their lineages, and equally
deep classes stay as they were registered; a parent is one step less deep than its child and so
comes before it. Otherwise the order has the fault of the first class without a lineage.

The header and the implementation look up nothing that the order has not looked up before. They are
built whenever the classes can be ordered, and otherwise they have the fault of the order.
-/

set_option autoImplicit false

namespace ClassLowering

namespace ClassMap

variable {m : ClassMap}

/-! ## First place, last class -/

theorem lookup_cons (e : String × ClassDecl) (rest : List (String × ClassDecl)) (name : String) :
    (e :: rest).lookup name = if name = e.1 then some e.2 else rest.lookup name := by
  obtain ⟨key, c⟩ := e
  rw [List.lookup_cons]
  by_cases h : name = key
  · simp [h]
  · have h' : (name == key) = false := by simpa using h
    simp [h, h']

theorem lookup_put (key name : String) (c : ClassDecl) (entries : List (String × ClassDecl)) :
    (put key c entries).lookup name = if name = key then some c else entries.lookup name := by
  induction entries with
  | nil => rw [put, lookup_cons]
  | cons first rest ih =>
    rw [put]
    split
    · next hk =>
      rw [lookup_cons, lookup_cons, hk]
      split <;> rfl
    · next hk =>
      rw [lookup_cons, lookup_cons, ih]
      by_cases h : name = first.1
      · have h' : ¬name = key := fun e => hk (h.symm.trans e)
        rw [if_pos h, if_neg h', if_pos h]
      · rw [if_neg h, if_neg h]

theorem ofClasses_concat (classes : List ClassDecl) (c : ClassDecl) :
    ofClasses (classes ++ [c]) = (ofClasses classes).insert c.name c := by
  simp [ofClasses]

theorem keys_ofClasses (classes : List ClassDecl) :
    (ofClasses classes).entries.map Prod.fst = (classes.map ClassDecl.name).eraseDups := by
  induction classes using List.reverseRecOn with
  | nil => rfl
  | append_singleton classes c ih =>
    rw [ofClasses_concat, insert, keys_put, ih, List.map_append, List.map_singleton,
      eraseDups_concat]
    simp only [List.mem_eraseDups]

theorem get?_ofClasses (classes : List ClassDecl) (name : String) :
    (ofClasses classes).get? name = classes.reverse.find? (·.name = name) := by
  induction classes using List.reverseRecOn with
  | nil => rfl
  | append_singleton classes c ih =>
    rw [ofClasses_concat, get?, insert, lookup_put, ← get?, ih, List.reverse_concat,
      List.find?_cons]
    by_cases h : c.name = name
    · simp [h]
    · have h' : ¬name = c.name := fun e => h e.symm
      simp [h, h']

theorem get?_eq_some_iff {key : String} {c : ClassDecl} :
    m.get? key = some c ↔ (key, c) ∈ m.entries := by
  rw [get?, List.lookup_eq_some_iff]
  constructor
  · rintro ⟨before, after, hm, -⟩
    simp [hm]
  · intro he
    obtain ⟨before, after, hm⟩ := List.append_of_mem he
    refine ⟨before, after, hm, ?_⟩
    intro first hf
    have distinct := m.distinct
    rw [hm, List.map_append, List.nodup_append] at distinct
    have ne := distinct.2.2 first.1 (List.mem_map_of_mem hf) key (by simp)
    simpa using ne.symm

theorem get?_name (h : m.Keyed) {c : ClassDecl} (hc : c ∈ m.classes) : m.get? c.name = some c := by
  obtain ⟨e, he, rfl⟩ := List.mem_map.mp hc
  rw [get?_eq_some_iff, ← h e he]
  exact he

/-! ## A stable order, parents first -/

structure IsStableOrder (m : ClassMap) (sorted : List ClassDecl) : Prop where
  perm : sorted.Perm m.classes
  nodup : sorted.Nodup
  ascending : sorted.Pairwise fun a b => m.depth a ≤ m.depth b
  stable : ∀ n, sorted.filter (m.depth · = n) = m.classes.filter (m.depth · = n)
  parent_before : ∀ before c after p, sorted = before ++ c :: after → m.IsParent p c → p ∈ before

theorem parent_mem_lineage {p c : ClassDecl} {chain : List ClassDecl} (hl : m.lineage c = .ok chain)
    (hp : m.IsParent p c) : p ∈ chain ∧ p ≠ c := by
  obtain ⟨name, hn, hg⟩ := hp
  obtain ⟨h, above, rfl⟩ := lineage_eq_ok_iff.mp hl
  obtain ⟨rest, q, rfl, hq⟩ := h.parent_above hn
  obtain rfl : p = q := by simpa [hg] using hq
  refine ⟨by simp, ?_⟩
  rintro rfl
  have distinct := h.distinct
  simp [List.nodup_append] at distinct

/-- The classes of one depth are a sorted part of the registered classes, which a stable sort
keeps. -/
theorem ordered_filter_depth {sorted : List ClassDecl} (h : m.ordered = .ok sorted) (n : Nat) :
    sorted.filter (m.depth · = n) = m.classes.filter (m.depth · = n) := by
  have hperm := ordered_perm h
  rw [(ordered_eq_ok_iff.mp h).2] at hperm ⊢
  have level : (m.classes.filter (m.depth · = n)).Pairwise
      fun a b => decide (m.depth a ≤ m.depth b) = true := by
    apply List.pairwise_of_forall_mem_list
    intro a ha b hb
    have hda := (List.mem_filter.mp ha).2
    have hdb := (List.mem_filter.mp hb).2
    simp only [decide_eq_true_eq] at *
    omega
  have kept := List.sublist_mergeSort m.depth_le_trans m.depth_le_total level List.filter_sublist
  have same := kept.filter (m.depth · = n)
  rw [List.filter_filter] at same
  simp only [Bool.and_self] at same
  exact (same.eq_of_length (hperm.filter _).length_eq.symm).symm

theorem isStableOrder_of_ordered (hk : m.Keyed) {sorted : List ClassDecl}
    (h : m.ordered = .ok sorted) : m.IsStableOrder sorted where
  perm := ordered_perm h
  nodup := (ordered_perm h).nodup_iff.mpr ((names_nodup hk).of_map _)
  ascending := ordered_pairwise h
  stable := ordered_filter_depth h
  parent_before := by
    rintro before c after p rfl hp
    have hl := lineage_of_ordered h (c := c) (by simp)
    obtain ⟨hm, hne⟩ := parent_mem_lineage hl hp
    exact (eq_or_ordered_before h hl hm).resolve_left hne

/-! ## The first fault -/

/-- The fault of the first registered class that has no lineage. -/
def FirstFault (m : ClassMap) (e : Fault) : Prop :=
  ∃ before c after, m.classes = before ++ c :: after ∧
    (∀ b ∈ before, ∃ chain, m.lineage b = .ok chain) ∧ m.lineage c = .error e

theorem ordered_eq_error_iff {e : Fault} : m.ordered = .error e ↔ m.FirstFault e := by
  have ranks : m.ordered = .error e ↔ m.classes.mapM m.ranked = .error e := by
    change (m.classes.mapM m.ranked >>= _) = _ ↔ _
    cases m.classes.mapM m.ranked <;> simp
  have ok (c : ClassDecl) : (∃ rank, m.ranked c = .ok rank) ↔ ∃ chain, m.lineage c = .ok chain := by
    unfold ranked
    cases m.lineage c <;> simp
  have error (c : ClassDecl) : m.ranked c = .error e ↔ m.lineage c = .error e := by
    unfold ranked
    cases m.lineage c <;> simp
  simp only [ranks, mapM_eq_error, ok, error, FirstFault]

theorem exists_ordered (all : ∀ c ∈ m.classes, ∃ chain, m.lineage c = .ok chain) :
    ∃ sorted, m.ordered = .ok sorted := by
  refine ⟨_, ordered_eq_ok_iff.mpr ⟨?_, rfl⟩⟩
  intro c hc
  obtain ⟨chain, hl⟩ := all c hc
  rw [chainOf_eq hl, hl]

end ClassMap

/-! ## Header and implementation -/

namespace Hierarchy

variable (h : Hierarchy)

theorem headerUnit_eq : h.headerUnit =
    (do return h.wrapped (h.classes.headerMembers (← h.classes.ordered))) := by
  cases ho : h.classes.ordered with
  | error e => simp [headerUnit, ho]
  | ok sorted => exact headerUnit_eq_ok_iff.mpr ⟨sorted, ho, rfl⟩

theorem implementationUnit_eq (lowered : List Tree) : h.implementationUnit lowered =
    (do return h.wrapped (lowered.flatMap Tree.definitions
      ++ (← h.classes.ordered).map (·.classObject h.packages))) := rfl

end Hierarchy

namespace Lowering

/-- Classes are registered by name, in the order of their first mention and as last mentioned. If
all of them have a lineage, they are ordered, and the header and the implementation can be built; if
not, all three fail as the first class that has none. -/
theorem order_decides_stages (t : Lowering) :
    let m := t.hierarchy.classes
    (m.classes.map ClassDecl.name = (t.bundle.classes.map ClassDecl.name).eraseDups ∧
      ∀ c ∈ m.classes, t.bundle.classes.reverse.find? (·.name = c.name) = some c) ∧
    ((∀ c ∈ m.classes, ∃ chain, m.lineage c = .ok chain) →
      ∃ sorted header implementation, m.ordered = .ok sorted ∧ m.IsStableOrder sorted ∧
        t.headerTree = .ok header ∧ t.implementationTree = .ok implementation) ∧
    ((∃ c ∈ m.classes, ∃ e, m.lineage c = .error e) →
      ∃ e, m.FirstFault e ∧ m.ordered = .error e ∧
        t.headerTree = .error e ∧ t.implementationTree = .error e) := by
  have hk : t.hierarchy.classes.Keyed := ClassMap.keyed_ofClasses t.bundle.classes
  have header := t.hierarchy.headerUnit_eq
  have implementation := t.hierarchy.implementationUnit_eq t.bundle.lowered
  refine ⟨⟨?_, ?_⟩, ?_, ?_⟩
  · rw [ClassMap.names_eq_keys hk]
    exact ClassMap.keys_ofClasses t.bundle.classes
  · intro c hc
    rw [← ClassMap.get?_ofClasses]
    exact ClassMap.get?_name hk hc
  · intro all
    obtain ⟨sorted, ho⟩ := ClassMap.exists_ordered all
    rw [ho] at header implementation
    exact ⟨sorted, _, _, ho, ClassMap.isStableOrder_of_ordered hk ho, header, implementation⟩
  · rintro ⟨c, hc, e, he⟩
    cases ho : t.hierarchy.classes.ordered with
    | ok sorted =>
      have hl := (ClassMap.ordered_eq_ok_iff.mp ho).1 c hc
      rw [he] at hl
      cases hl
    | error e' =>
      rw [ho] at header implementation
      exact ⟨e', ClassMap.ordered_eq_error_iff.mp ho, rfl, header, implementation⟩

end Lowering

end ClassLowering
