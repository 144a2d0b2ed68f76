import ClassLowering.Fault
import ClassLowering.Tree.Kind

/-!
# Labelled trees with positional slots

A `Tree` is a label with a list of slots. A slot is empty, holds a piece of text, or holds another
tree; what slot `i` means is fixed by the kind of the label. `Row` is one level of such a tree, with
anything in the place of the nested trees. Slots are read on rows, so one set of accessors serves
trees and the values that are computed from them: `Tree.fold` replaces a tree, level by level, by
the value that a rule gives for a row of subtrees with their values.
-/

set_option autoImplicit false

namespace ClassLowering

inductive Slot (α : Type) where
  | absent
  | text (s : String)
  | node (a : α)
  deriving DecidableEq, Repr

namespace Slot

def map {α β : Type} (f : α → β) : Slot α → Slot β
  | absent => absent
  | text s => text s
  | node a => node (f a)

def node? {α : Type} : Slot α → Option α
  | node a => some a
  | _ => none

def text? {α : Type} : Slot α → Option String
  | text s => some s
  | _ => none

def isAbsent {α : Type} : Slot α → Bool
  | absent => true
  | _ => false

def ofOption {α : Type} : Option α → Slot α
  | some a => node a
  | none => absent

end Slot

structure Row (α : Type) where
  label : String
  slots : List (Slot α)

namespace Row

variable {α β : Type}

def kind (r : Row α) : Kind := Kind.ofLabel r.label

def map (f : α → β) (r : Row α) : Row β := ⟨r.label, r.slots.map (Slot.map f)⟩

def children (r : Row α) : List α := r.slots.filterMap Slot.node?

def slot (r : Row α) (index : Nat) (what : String) : Except Fault (Slot α) :=
  match r.slots[index]? with
  | some s => .ok s
  | none => .error (.missingSlot r.label index what)

/-- The value in a slot that may be empty but must not hold text. -/
def child? (r : Row α) (index : Nat) (what : String) : Except Fault (Option α) := do
  match ← r.slot index what with
  | .absent => return none
  | .node a => return some a
  | .text _ => throw (.slotMismatch r.label index .node)

def child (r : Row α) (index : Nat) (what : String) : Except Fault α := do
  match ← r.child? index what with
  | some a => return a
  | none => throw (.missingSlot r.label index what)

def text (r : Row α) (index : Nat) (what : String) : Except Fault String := do
  match ← r.slot index what with
  | .text s => return s
  | .absent => throw (.missingSlot r.label index what)
  | .node _ => throw (.slotMismatch r.label index .scalar)

def text? (r : Row α) (index : Nat) : Except Fault (Option String) :=
  match r.slots[index]? with
  | none | some .absent => .ok none
  | some (.text s) => .ok (some s)
  | some (.node _) => .error (.slotMismatch r.label index .scalar)

end Row

inductive Tree where
  | mk (label : String) (slots : List (Slot Tree))

namespace Tree

instance : Inhabited Tree := ⟨.mk "" []⟩

def row : Tree → Row Tree
  | mk label slots => ⟨label, slots⟩

def ofRow (r : Row Tree) : Tree := mk r.label r.slots

def label (t : Tree) : String := t.row.label

def slots (t : Tree) : List (Slot Tree) := t.row.slots

def kind (t : Tree) : Kind := t.row.kind

def is (t : Tree) (k : Kind) : Bool := t.kind = k

def children (t : Tree) : List Tree := t.row.children

@[simp] theorem row_mk (label : String) (slots : List (Slot Tree)) :
    (mk label slots).row = ⟨label, slots⟩ := rfl

@[simp] theorem ofRow_row (t : Tree) : ofRow t.row = t := by
  cases t; rfl

/-! ## Computing over a tree -/

section Fold

variable {β : Type} (rule : Row (Tree × β) → β)

mutual

/-- The value of a tree, where `rule` gives the value of a row from the subtrees in it and their
values. -/
def fold : Tree → β
  | mk label slots => rule ⟨label, foldSlots slots⟩

def foldSlots : List (Slot Tree) → List (Slot (Tree × β))
  | [] => []
  | s :: rest => foldSlot s :: foldSlots rest

def foldSlot : Slot Tree → Slot (Tree × β)
  | .absent => .absent
  | .text s => .text s
  | .node t => .node (t, fold t)

end

theorem foldSlot_eq_map (s : Slot Tree) : foldSlot rule s = s.map fun t => (t, fold rule t) := by
  cases s <;> rfl

theorem foldSlots_eq_map (slots : List (Slot Tree)) :
    foldSlots rule slots = slots.map (Slot.map fun t => (t, fold rule t)) := by
  induction slots with
  | nil => rfl
  | cons s rest ih => simp only [foldSlots, foldSlot_eq_map, ih, List.map_cons]

theorem fold_eq (t : Tree) : fold rule t = rule (t.row.map fun s => (s, fold rule s)) := by
  cases t
  simp only [fold, foldSlots_eq_map, row_mk, Row.map]

end Fold

def total : List Nat → Nat
  | [] => 0
  | n :: rest => n + total rest

theorem total_append (ms ns : List Nat) : total (ms ++ ns) = total ms + total ns := by
  induction ms with
  | nil => simp [total]
  | cons m ms ih => simp [total, ih, Nat.add_assoc]

def size : Tree → Nat :=
  fold fun r => 1 + total (r.children.map Prod.snd)

/-! ## Equality -/

mutual

def decEq : (s t : Tree) → Decidable (s = t)
  | mk l ss, mk m ts =>
    if hl : l = m then
      match decEqSlots ss ts with
      | isTrue hs => isTrue (by rw [hl, hs])
      | isFalse hs => isFalse fun h => hs (by injection h)
    else isFalse fun h => hl (by injection h)

def decEqSlots : (ss ts : List (Slot Tree)) → Decidable (ss = ts)
  | [], [] => isTrue rfl
  | [], _ :: _ => isFalse (by simp)
  | _ :: _, [] => isFalse (by simp)
  | s :: ss, t :: ts =>
    match decEqSlot s t with
    | isTrue h =>
      match decEqSlots ss ts with
      | isTrue hs => isTrue (by rw [h, hs])
      | isFalse hs => isFalse fun e => hs (by injection e)
    | isFalse h => isFalse fun e => h (by injection e)

def decEqSlot : (s t : Slot Tree) → Decidable (s = t)
  | .absent, .absent => isTrue rfl
  | .text a, .text b =>
    if h : a = b then isTrue (by rw [h]) else isFalse fun e => h (by injection e)
  | .node a, .node b =>
    match decEq a b with
    | isTrue h => isTrue (by rw [h])
    | isFalse h => isFalse fun e => h (by injection e)
  | .absent, .text _ | .absent, .node _ | .text _, .absent | .text _, .node _
  | .node _, .absent | .node _, .text _ => isFalse (by simp)

end

instance : DecidableEq Tree := decEq

end Tree

end ClassLowering
