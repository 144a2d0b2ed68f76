import ClassLowering.Printing.TypeText
import ClassLowering.Proofs.Outcome

/-!
# Reading rows

The slots of a row are read by number, and what is read does not depend on what the nested values
are, only on where they stand. So reading commutes with a map over the nested values, and another
value in one slot is seen only by who reads that slot as a node.
-/

set_option autoImplicit false

namespace ClassLowering.Row

variable {α β : Type}

section Map

variable (f : α → β) (r : Row α)

@[simp] theorem kind_map : (r.map f).kind = r.kind := rfl

@[simp] theorem label_map : (r.map f).label = r.label := rfl

theorem slot_map (index : Nat) (what : String) :
    (r.map f).slot index what = Slot.map f <$> r.slot index what := by
  simp only [slot, map, List.getElem?_map]
  cases r.slots[index]? <;> rfl

@[simp] theorem text_map (index : Nat) (what : String) :
    (r.map f).text index what = r.text index what := by
  simp only [text, slot_map]
  cases r.slot index what with
  | error e => rfl
  | ok s => cases s <;> rfl

@[simp] theorem child?_map (index : Nat) (what : String) :
    (r.map f).child? index what = Option.map f <$> r.child? index what := by
  simp only [child?, slot_map]
  cases r.slot index what with
  | error e => rfl
  | ok s => cases s <;> rfl

@[simp] theorem child_map (index : Nat) (what : String) :
    (r.map f).child index what = f <$> r.child index what := by
  simp only [child, child?_map]
  cases r.child? index what with
  | error e => rfl
  | ok a => cases a <;> rfl

@[simp] theorem node?_map (index : Nat) :
    ((r.map f).slots[index]?).bind Slot.node? = ((r.slots[index]?).bind Slot.node?).map f := by
  simp only [map, List.getElem?_map]
  rcases r.slots[index]? with _ | _ | _ | _ <;> rfl

@[simp] theorem qualifiedText_map : (r.map f).qualifiedText = r.qualifiedText := by
  have same : (r.map f).slots.length = r.slots.length := by simp [map]
  simp [qualifiedText, same]

end Map

theorem child_eq_ok {r : Row α} {index : Nat} {what : String} {a : α} :
    r.child index what = .ok a ↔ r.slots[index]? = some (.node a) := by
  rcases h : r.slots[index]? with _ | _ | _ | b <;> simp [child, child?, slot, h]

theorem exists_of_child_map {f : α → β} {r : Row α} {index : Nat} {what : String} {b : β}
    (h : (r.map f).child index what = .ok b) : ∃ a, r.slots[index]? = some (.node a) ∧ b = f a := by
  rw [child_map, map_eq_bind] at h
  obtain ⟨a, ha, h⟩ := bind_eq_ok.mp h
  exact ⟨a, child_eq_ok.mp ha, (Except.ok.inj h).symm⟩

theorem text_eq_ok {r : Row α} {index : Nat} {what s : String} :
    r.text index what = .ok s ↔ r.slots[index]? = some (.text s) := by
  rcases h : r.slots[index]? with _ | _ | _ | b <;> simp [text, slot, h]

theorem mem_children {r : Row α} {a : α} : a ∈ r.children ↔ Slot.node a ∈ r.slots := by
  simp only [children, List.mem_filterMap]
  constructor
  · rintro ⟨s, hs, ha⟩
    cases s with
    | absent => cases ha
    | text u => cases ha
    | node b =>
      obtain rfl : b = a := Option.some.inj ha
      exact hs
  · intro h
    exact ⟨_, h, rfl⟩

theorem child_of_child? {r : Row α} {index : Nat} {what : String} {a : α}
    (h : r.child? index what = .ok (some a)) : r.child index what = .ok a := by
  simp [child, h]

theorem child_of_node? {r : Row α} {index : Nat} {a : α}
    (h : (r.slots[index]?).bind Slot.node? = some a) (what : String) :
    r.child index what = .ok a := by
  obtain ⟨s, hs, ha⟩ := Option.bind_eq_some_iff.mp h
  cases s with
  | absent => cases ha
  | text s => cases ha
  | node b =>
    obtain rfl : b = a := Option.some.inj ha
    exact child_eq_ok.mpr hs

def nodeIndexesFrom : Nat → List (Slot α) → List Nat
  | _, [] => []
  | index, .node _ :: rest => index :: nodeIndexesFrom (index + 1) rest
  | index, _ :: rest => nodeIndexesFrom (index + 1) rest

def nodeIndexes (r : Row α) : List Nat := nodeIndexesFrom 0 r.slots

theorem nodeIndexesFrom_map (f : α → β) (index : Nat) (slots : List (Slot α)) :
    nodeIndexesFrom index (slots.map (Slot.map f)) = nodeIndexesFrom index slots := by
  induction slots generalizing index with
  | nil => rfl
  | cons s rest ih => cases s <;> simp [nodeIndexesFrom, Slot.map, ih]

@[simp] theorem nodeIndexes_map (f : α → β) (r : Row α) :
    (r.map f).nodeIndexes = r.nodeIndexes :=
  nodeIndexesFrom_map f 0 r.slots

theorem le_of_mem_nodeIndexesFrom {index i : Nat} {slots : List (Slot α)}
    (h : i ∈ nodeIndexesFrom index slots) : index ≤ i := by
  induction slots generalizing index with
  | nil => cases h
  | cons s rest ih =>
    cases s with
    | absent => exact Nat.le_of_succ_le (ih h)
    | text s => exact Nat.le_of_succ_le (ih h)
    | node a =>
      rcases List.mem_cons.mp h with rfl | later
      · exact Nat.le_refl _
      · exact Nat.le_of_succ_le (ih later)

theorem nodeIndexesFrom_ascending (index : Nat) (slots : List (Slot α)) :
    (nodeIndexesFrom index slots).Pairwise (· < ·) := by
  induction slots generalizing index with
  | nil => exact .nil
  | cons s rest ih =>
    cases s with
    | absent => exact ih (index + 1)
    | text s => exact ih (index + 1)
    | node a => exact .cons (fun i hi => le_of_mem_nodeIndexesFrom hi) (ih (index + 1))

theorem nodeIndexes_ascending (r : Row α) : r.nodeIndexes.Pairwise (· < ·) :=
  nodeIndexesFrom_ascending 0 r.slots

theorem mapM_nodeIndexes (r : Row α) (what : String) :
    r.nodeIndexes.mapM (fun index => r.child index what) = .ok r.children := by
  have from_index : ∀ before slots, r.slots = before ++ slots →
      (nodeIndexesFrom before.length slots).mapM (fun index => r.child index what) =
        .ok (slots.filterMap Slot.node?) := by
    intro before slots h
    induction slots generalizing before with
    | nil => rfl
    | cons s rest ih =>
      have tail := ih (before ++ [s]) (by simp [h])
      rw [List.length_append, List.length_singleton] at tail
      cases s with
      | absent => exact tail
      | text s => exact tail
      | node a =>
        have head : r.child before.length what = .ok a := child_eq_ok.mpr (by simp [h])
        simp [nodeIndexesFrom, head, tail, Slot.node?]
  exact from_index [] r.slots rfl

theorem mapM_nodeIndexes_bind (r : Row α) (what : String) (f : α → Except Fault β) :
    r.nodeIndexes.mapM (fun index => r.child index what >>= f) = r.children.mapM f := by
  have read := r.mapM_nodeIndexes what
  generalize r.nodeIndexes = indexes at read
  generalize r.children = values at read
  induction indexes generalizing values with
  | nil =>
    obtain rfl : [] = values := by simpa using read
    rfl
  | cons index indexes ih =>
    rw [List.mapM_cons] at read
    obtain ⟨a, ha, read⟩ := bind_eq_ok.mp read
    obtain ⟨others, ho, read⟩ := bind_eq_ok.mp read
    rw [← pure_eq_ok.mp read]
    simp [ha, ih others ho]

/-! ## Maps that know the slot -/

def mapSlots (f : Nat → α → β) (r : Row α) : Row β :=
  ⟨r.label, r.slots.mapIdx fun index s => s.map (f index)⟩

theorem slots_mapSlots (f : Nat → α → β) (r : Row α) (index : Nat) :
    (r.mapSlots f).slots[index]? = r.slots[index]?.map (Slot.map (f index)) := by
  simp [mapSlots]

theorem slots_map (f : α → β) (r : Row α) (index : Nat) :
    (r.map f).slots[index]? = r.slots[index]?.map (Slot.map f) := by
  simp [map]

theorem ext_slots {r₁ r₂ : Row α} (label : r₁.label = r₂.label)
    (slots : ∀ index : Nat, r₁.slots[index]? = r₂.slots[index]?) : r₁ = r₂ := by
  obtain ⟨label₁, slots₁⟩ := r₁
  obtain ⟨label₂, slots₂⟩ := r₂
  obtain rfl : label₁ = label₂ := label
  obtain rfl : slots₁ = slots₂ := List.ext_getElem? slots
  rfl

theorem map_eq_mapSlots (f : α → β) (r : Row α) : r.map f = r.mapSlots fun _ => f := by
  refine ext_slots rfl fun index => ?_
  rw [slots_map, slots_mapSlots]

theorem mapSlots_map {γ : Type} (f : α → β) (g : Nat → β → γ) (r : Row α) :
    (r.map f).mapSlots g = r.mapSlots fun index a => g index (f a) := by
  refine ext_slots rfl fun index => ?_
  rw [slots_mapSlots, slots_mapSlots, slots_map]
  rcases r.slots[index]? with _ | _ | _ | a <;> rfl

theorem map_mapSlots_cancel {f : Nat → α → β} {g : β → α} (h : ∀ index a, g (f index a) = a)
    (r : Row α) : (r.mapSlots f).map g = r := by
  refine ext_slots rfl fun index => ?_
  rw [slots_map, slots_mapSlots]
  rcases r.slots[index]? with _ | _ | _ | a <;> simp [Slot.map, h]

/-- What is computed from each nested value is the same if it is the same for the value in each
slot. -/
theorem map_mapSlots_congr {γ : Type} {f : Nat → α → β} {g : β → γ} {g' : α → γ} {r : Row α}
    (h : ∀ index a, r.slots[index]? = some (.node a) → g (f index a) = g' a) :
    (r.mapSlots f).map g = r.map g' := by
  refine ext_slots rfl fun index => ?_
  rw [slots_map, slots_mapSlots, slots_map]
  rcases hs : r.slots[index]? with _ | _ | _ | a
  · rfl
  · rfl
  · rfl
  · simp [Slot.map, h index a hs]

theorem shape_mapSlots (f : Nat → α → β) (r : Row α) :
    (r.mapSlots f).map (fun _ => ()) = r.map fun _ => () :=
  map_mapSlots_congr fun _ _ _ => rfl

@[simp] theorem kind_mapSlots (f : Nat → α → β) (r : Row α) : (r.mapSlots f).kind = r.kind := rfl

@[simp] theorem label_mapSlots (f : Nat → α → β) (r : Row α) : (r.mapSlots f).label = r.label := rfl

@[simp] theorem text_mapSlots (f : Nat → α → β) (r : Row α) (index : Nat) (what : String) :
    (r.mapSlots f).text index what = r.text index what := by
  rw [← text_map (fun _ => ()), shape_mapSlots, text_map]

@[simp] theorem nodeIndexes_mapSlots (f : Nat → α → β) (r : Row α) :
    (r.mapSlots f).nodeIndexes = r.nodeIndexes := by
  rw [← nodeIndexes_map (fun _ => ()), shape_mapSlots, nodeIndexes_map]

@[simp] theorem qualifiedText_mapSlots (f : Nat → α → β) (r : Row α) :
    (r.mapSlots f).qualifiedText = r.qualifiedText := by
  rw [← qualifiedText_map (fun _ => ()), shape_mapSlots, qualifiedText_map]

theorem child?_mapSlots (f : Nat → α → β) (r : Row α) (index : Nat) (what : String) :
    (r.mapSlots f).child? index what = Option.map (f index) <$> r.child? index what := by
  simp only [child?, slot, slots_mapSlots]
  rcases r.slots[index]? with _ | _ | _ | a <;> rfl

theorem child_mapSlots (f : Nat → α → β) (r : Row α) (index : Nat) (what : String) :
    (r.mapSlots f).child index what = f index <$> r.child index what := by
  simp only [child, child?, slot, slots_mapSlots]
  rcases r.slots[index]? with _ | _ | _ | a <;> rfl

/-! ## Another value in a slot -/

def put (r : Row α) (index : Nat) (a : α) : Row α := ⟨r.label, r.slots.set index (.node a)⟩

@[simp] theorem label_put (r : Row α) (index : Nat) (a : α) : (r.put index a).label = r.label := rfl

@[simp] theorem kind_put (r : Row α) (index : Nat) (a : α) : (r.put index a).kind = r.kind := rfl

@[simp] theorem length_put (r : Row α) (index : Nat) (a : α) :
    (r.put index a).slots.length = r.slots.length := by
  simp [put]

theorem slots_put_ne {r : Row α} {index j : Nat} {a : α} (h : j ≠ index) :
    (r.put index a).slots[j]? = r.slots[j]? :=
  List.getElem?_set_ne h.symm

theorem child?_put_ne {r : Row α} {index j : Nat} {a : α} (h : j ≠ index) (what : String) :
    (r.put index a).child? j what = r.child? j what := by
  simp [child?, slot, slots_put_ne h]

theorem child_put_ne {r : Row α} {index j : Nat} {a : α} (h : j ≠ index) (what : String) :
    (r.put index a).child j what = r.child j what := by
  simp [child, child?_put_ne h]

section Put

variable {r : Row α} {index : Nat} {a : α} (h : r.slots[index]? = some (.node a)) (b : α)

include h

theorem slots_put_self : (r.put index b).slots[index]? = some (.node b) := by
  have inside : index < r.slots.length := (List.getElem?_eq_some_iff.mp h).1
  simp [put, inside]

theorem shape_put (f : α → β) (same : f a = f b) : (r.put index b).map f = r.map f := by
  refine ext_slots rfl fun j => ?_
  rw [slots_map, slots_map]
  by_cases hj : j = index
  · subst hj
    simp [slots_put_self h, h, Slot.map, same]
  · rw [slots_put_ne hj]

theorem text_put (j : Nat) (what : String) : (r.put index b).text j what = r.text j what := by
  rw [← text_map (fun _ => ()), shape_put h b _ rfl, text_map]

theorem nodeIndexes_put : (r.put index b).nodeIndexes = r.nodeIndexes := by
  rw [← nodeIndexes_map (fun _ => ()), shape_put h b _ rfl, nodeIndexes_map]

end Put

end ClassLowering.Row
