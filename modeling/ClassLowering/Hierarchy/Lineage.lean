import ClassLowering.Fault
import ClassLowering.Hierarchy.ClassMap

/-!
# Lineage and order

The lineage of a class is the chain of its ancestors, root first, ending with the class. Ancestors
are looked up by name; the class itself need not be registered. The walk ends because every step
meets a registered class whose name it has not met before, or fails.
-/

set_option autoImplicit false

namespace ClassLowering.ClassMap

def unmet (m : ClassMap) (met : List String) : Nat :=
  m.classes.countP fun c => c.name ∉ met

theorem unmet_cons_lt {m : ClassMap} {c : ClassDecl} {met : List String}
    (hc : c ∈ m.classes) (hn : c.name ∉ met) : m.unmet (c.name :: met) < m.unmet met := by
  unfold unmet
  generalize m.classes = classes at hc
  induction classes with
  | nil => simp at hc
  | cons first rest ih =>
    have le : rest.countP (fun d => d.name ∉ c.name :: met) ≤ rest.countP fun d => d.name ∉ met :=
      List.countP_mono_left fun d _ hd => by simp_all
    rcases List.mem_cons.mp hc with rfl | hc
    · rw [List.countP_cons_of_neg (by simp), List.countP_cons_of_pos (by simpa using hn)]
      omega
    · have lt := ih hc
      simp only [List.countP_cons]
      have : (if decide (first.name ∉ c.name :: met) = true then 1 else 0) ≤
          if decide (first.name ∉ met) = true then 1 else 0 := by
        by_cases h : first.name ∈ met <;> simp [h]
        split <;> simp
      omega

/-- Continues a lineage upwards from `current`, where `below` leads down to the class asked for. -/
def climb (m : ClassMap) (current : ClassDecl) (below : List ClassDecl) :
    Except Fault (List ClassDecl) :=
  match current.parent? with
  | none => .ok (current :: below)
  | some name =>
    match _h : m.get? name with
    | none => .error (.unresolvedParent current.name name)
    | some parent =>
      if parent.name ∈ (current :: below).map ClassDecl.name then
        .error (.cyclicHierarchy parent.name)
      else m.climb parent (current :: below)
termination_by m.unmet ((current :: below).map ClassDecl.name)
decreasing_by
  next hn => exact unmet_cons_lt (mem_classes_of_get? _h) hn

def lineage (m : ClassMap) (c : ClassDecl) : Except Fault (List ClassDecl) := m.climb c []

/-- All registered classes, each after its ancestors; of equally deep ones the first registered is
first. -/
def ordered (m : ClassMap) : Except Fault (List ClassDecl) := do
  let ranked ← m.classes.mapM fun c => do return ((← m.lineage c).length, c)
  return (ranked.mergeSort fun a b => a.1 ≤ b.1).map Prod.snd

end ClassLowering.ClassMap
