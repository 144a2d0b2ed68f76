import ClassLowering.Printing.TypeText
import ClassLowering.Proofs.Outcome
import ClassLowering.Tree.Build
import Mathlib.Data.List.Basic

/-!
# The text of a type given by its name

A rule of a fold sees one node with the values of its subtrees beside them, which is
`Tree.rowWith`. Types that are built from a name always have a text, whatever the name: an array
type for each dimension, around the primitive type or around the segments of the name.
-/

set_option autoImplicit false

namespace ClassLowering

namespace Tree

variable {β : Type} (value : Tree → β)

def rowWith (k : Kind) (slots : List (Slot Tree)) : Row (Tree × β) :=
  ⟨k.label, slots.map (Slot.map fun t => (t, value t))⟩

@[simp] theorem kind_rowWith (k : Kind) (slots : List (Slot Tree)) :
    (rowWith value k slots).kind = k :=
  Kind.ofLabel_label k

@[simp] theorem slots_rowWith (k : Kind) (slots : List (Slot Tree)) :
    (rowWith value k slots).slots = slots.map (Slot.map fun t => (t, value t)) := rfl

theorem fold_node (rule : Row (Tree × β) → β) (k : Kind) (slots : List (Slot Tree)) :
    fold rule (node k slots) = rule (rowWith (fold rule) k slots) :=
  fold_eq rule (node k slots)

end Tree

theorem Row.text_eq {α : Type} {r : Row α} {index : Nat} {s : String}
    (h : r.slots[index]? = some (.text s)) (what : String) : r.text index what = .ok s := by
  simp [Row.text, Row.slot, h]

theorem Row.qualifiedText_eq {α : Type} {r : Row α} {segments : List String}
    (h : r.slots = segments.map .text) :
    r.qualifiedText = .ok (Text.joinWith "::" segments) := by
  have read : ∀ i ∈ List.range segments.length,
      r.text i "identifier segment" = .ok (segments.getD i "") := by
    intro i hi
    apply Row.text_eq
    simp [h, List.getElem?_eq_getElem (List.mem_range.mp hi)]
  have all : (List.range segments.length).map (fun i => segments.getD i "") = segments := by
    apply List.ext_getElem
    · simp
    · intro i _ hi
      simp [List.getElem?_eq_getElem hi]
  rw [Row.qualifiedText, h, List.length_map, mapM_ok _ read, all]
  rfl

def RuntimeSettings.typeName (runtime : RuntimeSettings) (name : String) (dimensions : Nat) :
    String :=
  if name = "void" then "void"
  else runtime.arrayOf
    (if Tree.primitives.contains name then primitiveText name
      else Text.joinWith "::" (Text.splitOn '.' name)) dimensions

namespace Tree

attribute [local simp] Row.text Row.child Row.child? Row.slot Slot.map

variable (runtime : RuntimeSettings)

theorem typeText_node (k : Kind) (slots : List (Slot Tree)) :
    (node k slots).typeText runtime = typeRule runtime (rowWith (typeText runtime) k slots) :=
  fold_node (typeRule runtime) k slots

theorem typeText_primitive (name : String) :
    (leaf .primitiveType name).typeText runtime = .ok (primitiveText name) := by
  rw [leaf, typeText_node]
  simp [typeRule]

theorem typeText_qualified (segments : List String) :
    (node .qualifiedIdentifier (segments.map .text)).typeText runtime
      = .ok (Text.joinWith "::" segments) := by
  rw [typeText_node]
  simp only [typeRule, kind_rowWith]
  apply Row.qualifiedText_eq
  simp

theorem typeText_array {base : Tree} {text : String} (h : base.typeText runtime = .ok text)
    (dimensions : Nat) :
    (node .type [.node base, if dimensions = 0 then .absent
      else .node (node .dimensions (List.replicate dimensions (.text "[")))]).typeText runtime
      = .ok (runtime.arrayOf text dimensions) := by
  rw [typeText_node]
  by_cases hd : dimensions = 0
  · simp [typeRule, h, hd, RuntimeSettings.arrayOf]
  · simp [typeRule, h, hd, slots, row, node]

/-- A type that is built from a name has a text, for every name. -/
theorem typeText_typeRef (name : String) (dimensions : Nat) :
    (typeRef name dimensions).typeText runtime = .ok (runtime.typeName name dimensions) := by
  by_cases hv : name = "void"
  · simp only [typeRef, RuntimeSettings.typeName, hv, if_true]
    rw [typeText_node]
    simp [typeRule]
  · simp only [typeRef, RuntimeSettings.typeName, hv, if_false]
    apply typeText_array
    by_cases hp : primitives.contains name = true
    · rw [if_pos hp, if_pos hp, typeText_primitive]
    · rw [if_neg hp, if_neg hp, typeText_qualified]

end Tree

end ClassLowering
