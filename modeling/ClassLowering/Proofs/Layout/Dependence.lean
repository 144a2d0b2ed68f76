import ClassLowering.Proofs.Hierarchy.Walk

/-!
# What the layout of a class depends on

The layout of a class is made from its lineage, and the walk that finds the lineage looks up the
parent names of the classes that it visits. Another map that gives the same answers to these
look-ups leads the walk through the same classes to the same end, whatever else is registered in it
and in whatever order. So the record and the table of a class, or the fault in their place, follow
from these answers alone.
-/

set_option autoImplicit false

namespace ClassLowering.ClassMap

variable {m other : ClassMap} {c d : ClassDecl} {n : Nat} {name key : String}

/-- The walk from `c` looks up `name`: it is the parent name of a class that is visited. -/
def LooksUp (m : ClassMap) (c : ClassDecl) (name : String) : Prop :=
  ∃ n d, m.Visits c n d ∧ d.parent? = some name

/-! ## Two walks -/

section Agreement

variable (agree : ∀ name, m.LooksUp c name → other.get? name = m.get? name)

include agree

theorem Visits.parentOf_eq (v : m.Visits c n d) : other.parentOf d = m.parentOf d := by
  unfold parentOf
  cases h : d.parent? with
  | none => rfl
  | some name => exact agree name ⟨n, d, v, h⟩

theorem Visits.of_agree (v : m.Visits c n d) :
    other.Visits c n d ∧ other.upTo c n = m.upTo c n := by
  induction n generalizing d with
  | zero =>
    obtain rfl := Option.some.inj v.ancestor
    exact ⟨visits_zero other c, rfl⟩
  | succ n ih =>
    obtain ⟨e, ve, hp, new⟩ := visits_succ.mp v
    obtain ⟨before, same⟩ := ih ve
    have next : other.Visits c (n + 1) d := by
      apply visits_succ.mpr
      refine ⟨e, before, ?_, ?_⟩
      · rw [ve.parentOf_eq agree, hp]
      · rwa [same]
    exact ⟨next, by rw [upTo_succ next.ancestor, upTo_succ v.ancestor, same]⟩

theorem Ends.of_agree {outcome : Except Fault (List ClassDecl)} (h : m.Ends c outcome) :
    other.Ends c outcome := by
  cases h with
  | root v hr =>
    obtain ⟨v', same⟩ := v.of_agree agree
    rw [← same]
    exact .root v' hr
  | unresolved v hn unknown =>
    exact .unresolved (v.of_agree agree).1 hn (by rw [agree _ ⟨_, _, v, hn⟩, unknown])
  | cyclic v hp met =>
    obtain ⟨v', same⟩ := v.of_agree agree
    rw [← same] at met
    exact .cyclic v' (by rw [v.parentOf_eq agree, hp]) met

theorem lineage_of_agree : other.lineage c = m.lineage c :=
  lineage_eq_iff.mpr ((lineage_eq_iff.mp rfl).of_agree agree)

end Agreement

theorem looksUp_iff {chain : List ClassDecl} (h : m.lineage c = .ok chain) :
    m.LooksUp c name ↔ ∃ d ∈ chain, d.parent? = some name := by
  cases lineage_eq_iff.mp h with
  | @root n top v hr =>
    simp only [List.mem_reverse, mem_upTo]
    constructor
    · rintro ⟨k, d, vd, hd⟩
      refine ⟨d, ⟨k, ?_, vd.ancestor⟩, hd⟩
      -- there is no step beyond the root
      by_contra beyond
      obtain ⟨p, vp⟩ := vd.earlier (k := n + 1) (by omega)
      have ha := vp.ancestor
      rw [ancestor, v.ancestor, Option.bind_some, parentOf, hr] at ha
      cases ha
    · rintro ⟨d, ⟨k, le, hk⟩, hd⟩
      obtain ⟨e, ve⟩ := v.earlier le
      obtain rfl := Option.some.inj (ve.ancestor.symm.trans hk)
      exact ⟨k, e, ve, hd⟩

/-! ## Maps that agree -/

theorem get?_perm (h : other.entries.Perm m.entries) (key : String) :
    other.get? key = m.get? key := by
  ext d
  rw [get?_eq_some_iff, get?_eq_some_iff, h.mem_iff]

theorem get?_insert_ne (m : ClassMap) (d : ClassDecl) (h : name ≠ key) :
    (m.insert key d).get? name = m.get? name := by
  rw [get?, insert, lookup_put, if_neg h, ← get?]

def without (m : ClassMap) (key : String) : ClassMap where
  entries := m.entries.filter (·.1 ≠ key)
  distinct := m.distinct.sublist (List.filter_sublist.map _)

theorem get?_without_ne (m : ClassMap) (h : name ≠ key) :
    (m.without key).get? name = m.get? name := by
  ext d
  rw [get?_eq_some_iff, get?_eq_some_iff]
  simp [without, h]

/-! ## Layouts -/

/-- Two maps give a class the same lineage, layout, table and declarations, or the same faults. -/
structure SameLayout (m other : ClassMap) (c : ClassDecl) : Prop where
  lineage : m.lineage c = other.lineage c
  layout : InstanceLayout.of m c = InstanceLayout.of other c
  table : DispatchTable.of m c = DispatchTable.of other c
  declarations : c.declarations m = c.declarations other

theorem sameLayout_of_lineage (h : other.lineage c = m.lineage c) : other.SameLayout m c := by
  have layout : InstanceLayout.of other c = InstanceLayout.of m c := by
    rw [InstanceLayout.of, InstanceLayout.of, h]
  have table : DispatchTable.of other c = DispatchTable.of m c := by
    rw [DispatchTable.of, DispatchTable.of, h]
  refine ⟨h, layout, table, ?_⟩
  rw [ClassDecl.declarations, ClassDecl.declarations, layout, table]

/-- A class has the same layout in any map that answers its look-ups in the same way. In particular
the order of registration does not matter, nor does any class that is registered, replaced or
removed under a name that is not looked up. -/
theorem layout_follows_lookups (m : ClassMap) (c : ClassDecl) :
    (∀ other : ClassMap, (∀ name, m.LooksUp c name → other.get? name = m.get? name) →
      other.SameLayout m c) ∧
    (∀ other : ClassMap, other.entries.Perm m.entries → other.SameLayout m c) ∧
    ∀ key, ¬m.LooksUp c key →
      (∀ d, (m.insert key d).SameLayout m c) ∧ (m.without key).SameLayout m c := by
  have general (other : ClassMap)
      (agree : ∀ name, m.LooksUp c name → other.get? name = m.get? name) :
      other.SameLayout m c := sameLayout_of_lineage (lineage_of_agree agree)
  refine ⟨general, ?_, ?_⟩
  · intro other perm
    apply general
    intro name _
    exact get?_perm perm name
  · intro key unseen
    have ne {name : String} (h : m.LooksUp c name) : name ≠ key := by
      rintro rfl
      exact unseen h
    constructor
    · intro d
      apply general
      intro name h
      exact get?_insert_ne m d (ne h)
    · apply general
      intro name h
      exact get?_without_ne m (ne h)

end ClassLowering.ClassMap

namespace ClassLowering.Shapes

def coin : ClassDecl where
  name := "Coin"
  parent := "Disc"
  methods := [area]

theorem disc_without_coin : ¬registered.LooksUp disc "Coin" ∧
    (registered.insert "Coin" coin).SameLayout registered disc ∧
    (ClassMap.ofClasses [circle, disc, shape]).SameLayout registered disc ∧
    ∃ t, DispatchTable.of (registered.insert "Coin" coin) disc = .ok t := by
  obtain ⟨-, reordered, outside⟩ := ClassMap.layout_follows_lookups registered disc
  have unseen : ¬registered.LooksUp disc "Coin" := by
    rw [ClassMap.looksUp_iff lineage_disc]
    decide +kernel
  have same := (outside "Coin" unseen).1 coin
  have perm : (ClassMap.ofClasses [circle, disc, shape]).entries.Perm registered.entries := by
    decide +kernel
  have table := DispatchTable.of_eq_ok_iff.mpr ⟨_, lineage_disc, rfl⟩
  exact ⟨unseen, same, reordered _ perm, _, same.table.trans table⟩

end ClassLowering.Shapes
