import Mathlib.Data.List.Chain
import ClassLowering.Hierarchy.Lineage
import ClassLowering.Proofs.Outcome

/-!
# Chains of ancestors

`IsLineage` says what a lineage is without the walk that finds it: the first class is a root, each
later one names the class before it as its parent, and no two classes have the same name. The walk
succeeds exactly on these chains. A chain cut off below one of its classes is again a chain, so an
ancestor has a lineage whenever a descendant has one, and it is the upper part of that one.
-/

set_option autoImplicit false

namespace ClassLowering.ClassMap

variable {m : ClassMap}

def IsParent (m : ClassMap) (p c : ClassDecl) : Prop :=
  ∃ name, c.parent? = some name ∧ m.get? name = some p

structure IsLineage (m : ClassMap) (chain : List ClassDecl) : Prop where
  rooted : ∀ c ∈ chain.head?, c.parent? = none
  linked : chain.IsChain m.IsParent
  distinct : (chain.map ClassDecl.name).Nodup

namespace IsLineage

variable {above below : List ClassDecl} {c : ClassDecl}

theorem upper (h : m.IsLineage (above ++ c :: below)) : m.IsLineage (above ++ [c]) where
  rooted := by
    have hr := h.rooted
    cases above with
    | nil => simpa using hr
    | cons a above => simpa using hr
  linked := (List.isChain_split.mp h.linked).1
  distinct := by
    have part : (above ++ [c]).Sublist (above ++ c :: below) := by simp
    exact h.distinct.sublist (part.map _)

theorem eq_nil_of_root (h : m.IsLineage (above ++ c :: below)) (hc : c.parent? = none) :
    above = [] := by
  rcases List.eq_nil_or_concat above with rfl | ⟨rest, p, rfl⟩
  · rfl
  · have hl := h.linked
    rw [List.concat_eq_append, List.append_assoc, List.singleton_append,
      List.isChain_append_cons_cons] at hl
    obtain ⟨name, hn, -⟩ := hl.2.1
    simp [hc] at hn

theorem parent_above (h : m.IsLineage (above ++ c :: below)) {name : String}
    (hc : c.parent? = some name) : ∃ rest p, above = rest ++ [p] ∧ m.get? name = some p := by
  rcases List.eq_nil_or_concat above with rfl | ⟨rest, p, rfl⟩
  · have hr := h.rooted c (by simp)
    simp [hc] at hr
  · have hl := h.linked
    rw [List.concat_eq_append, List.append_assoc, List.singleton_append,
      List.isChain_append_cons_cons] at hl
    obtain ⟨other, ho, hp⟩ := hl.2.1
    obtain rfl : other = name := by simpa [hc] using ho.symm
    exact ⟨rest, p, by simp, hp⟩

end IsLineage

/-- The walk adds exactly what completes a chain. Its own test for names that were met keeps the
names distinct. -/
theorem climb_eq_ok_iff {current : ClassDecl} {below chain : List ClassDecl}
    (hl : (current :: below).IsChain m.IsParent)
    (hd : ((current :: below).map ClassDecl.name).Nodup) :
    m.climb current below = .ok chain ↔ m.IsLineage chain ∧ current :: below <:+ chain := by
  fun_induction m.climb current below with
  | case1 current below hc =>
    constructor
    · intro h
      obtain rfl := Except.ok.inj h
      exact ⟨⟨by simpa using hc, hl, hd⟩, List.suffix_refl _⟩
    · rintro ⟨h, above, rfl⟩
      rw [h.eq_nil_of_root hc]
      rfl
  | case2 current below name hc hp =>
    apply iff_of_false (by simp)
    rintro ⟨h, above, rfl⟩
    obtain ⟨rest, p, -, hg⟩ := h.parent_above hc
    simp [hp] at hg
  | case3 current below name hc parent hp hm =>
    -- a chain would hold the name of this parent twice
    apply iff_of_false (by simp)
    rintro ⟨h, above, rfl⟩
    obtain ⟨rest, p, rfl, hg⟩ := h.parent_above hc
    obtain rfl : parent = p := by simpa [hp] using hg
    have hd' := h.distinct
    rw [List.append_assoc, List.map_append, List.nodup_append] at hd'
    exact (List.nodup_cons.mp hd'.2.1).1 hm
  | case4 current below name hc parent hp hm ih =>
    rw [ih (.cons_cons ⟨name, hc, hp⟩ hl) (List.nodup_cons.mpr ⟨hm, hd⟩)]
    apply and_congr_right
    intro h
    constructor
    · exact (List.suffix_cons _ _).trans
    · -- the class above `current` in a chain can only be the parent
      rintro ⟨above, rfl⟩
      obtain ⟨rest, p, rfl, hg⟩ := h.parent_above hc
      obtain rfl : parent = p := by simpa [hp] using hg
      exact ⟨rest, by simp⟩

theorem lineage_eq_ok_iff {c : ClassDecl} {chain : List ClassDecl} :
    m.lineage c = .ok chain ↔ m.IsLineage chain ∧ [c] <:+ chain :=
  climb_eq_ok_iff (.singleton c) (by simp)

theorem mem_lineage_self {c : ClassDecl} {chain : List ClassDecl} (h : m.lineage c = .ok chain) :
    c ∈ chain := by
  apply (lineage_eq_ok_iff.mp h).2.subset
  simp

/-- An ancestor's lineage is the part of the descendant's that ends with the ancestor. -/
theorem lineage_upper {above below : List ClassDecl} {c d : ClassDecl}
    (h : m.lineage d = .ok (above ++ c :: below)) : m.lineage c = .ok (above ++ [c]) :=
  lineage_eq_ok_iff.mpr ⟨(lineage_eq_ok_iff.mp h).1.upper, List.suffix_append _ _⟩

end ClassLowering.ClassMap
