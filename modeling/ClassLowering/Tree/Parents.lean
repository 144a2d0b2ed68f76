import ClassLowering.Tree.Basic

/-!
# Occurrences and their parents

Trees have no links upwards, and equal subtrees may stand at several places. A place in a tree is
the path of slot indexes that leads to it from the root, and an `Occurrence` is a node at a place.
`ParentTable.build` goes through a tree once and records for every occurrence below the root the
occurrence that it stands in.
-/

set_option autoImplicit false

namespace ClassLowering

abbrev Path := List Nat

def Tree.at? (t : Tree) : Path → Option Tree
  | [] => some t
  | i :: rest =>
    match t.slots[i]? with
    | some (.node child) => child.at? rest
    | _ => none

structure Occurrence where
  path : Path
  tree : Tree

namespace Occurrence

def slotChildren (path : Path) : Nat → List (Slot Tree) → List Occurrence
  | _, [] => []
  | i, .node t :: rest => ⟨path ++ [i], t⟩ :: slotChildren path (i + 1) rest
  | i, _ :: rest => slotChildren path (i + 1) rest

def children (o : Occurrence) : List Occurrence := slotChildren o.path 0 o.tree.slots

def totalSize (os : List Occurrence) : Nat := Tree.total (os.map fun o => o.tree.size)

theorem totalSize_slotChildren (path : Path) (i : Nat) (slots : List (Slot Tree)) :
    totalSize (slotChildren path i slots) =
      Tree.total ((slots.filterMap Slot.node?).map Tree.size) := by
  induction slots generalizing i with
  | nil => rfl
  | cons s rest ih =>
    cases s with
    | absent => exact ih (i + 1)
    | text s => exact ih (i + 1)
    | node t =>
      have h := ih (i + 1)
      simp only [totalSize] at h
      simp [slotChildren, Slot.node?, totalSize, Tree.total, h]

theorem size_eq_totalSize_children (o : Occurrence) : o.tree.size = totalSize o.children + 1 := by
  rw [children, totalSize_slotChildren, Tree.size, Tree.fold_eq]
  simp only [Row.children, Row.map, List.filterMap_map, List.map_filterMap]
  rw [Nat.add_comm]
  congr 3
  funext s
  cases s <;> rfl

end Occurrence

structure ParentTable where
  /-- For each recorded place the occurrence around it. -/
  entries : List (Path × Occurrence)

namespace ParentTable

/-- The entries for everything below the occurrences on the stack. -/
def collect : List Occurrence → List (Path × Occurrence)
  | [] => []
  | parent :: stack =>
    parent.children.map (fun child => (child.path, parent)) ++ collect (parent.children ++ stack)
termination_by stack => Occurrence.totalSize stack
decreasing_by
  have h := parent.size_eq_totalSize_children
  simp only [Occurrence.totalSize] at h ⊢
  simp only [List.map_append, List.map_cons, Tree.total_append, Tree.total]
  omega

def build (root : Tree) : ParentTable := ⟨collect [⟨[], root⟩]⟩

def size (table : ParentTable) : Nat := table.entries.length

def parent? (table : ParentTable) (path : Path) : Option Occurrence :=
  table.entries.lookup path

def grandparent? (table : ParentTable) (path : Path) : Option Occurrence := do
  table.parent? (← table.parent? path).path

end ParentTable

end ClassLowering
