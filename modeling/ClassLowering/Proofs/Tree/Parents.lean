import ClassLowering.Tree.Parents

/-!
# Places in a tree

A place below the root is the place of its parent with one more slot index, so the parent of an
occurrence can be read off its path. `ParentTable.build` records exactly these pairs, and each
place once as far as a look-up can tell: two entries for one place name the same parent.
-/

set_option autoImplicit false

namespace ClassLowering

namespace Tree

/-- To prove something of every tree, assume it of the nodes in its slots. -/
theorem induction {P : Tree → Prop}
    (step : ∀ t : Tree, (∀ (i : Nat) (c : Tree), t.slots[i]? = some (.node c) → P c) → P t)
    (t : Tree) : P t :=
  @Tree.rec P (fun slots => ∀ (i : Nat) (c : Tree), slots[i]? = some (.node c) → P c)
    (fun s => ∀ c : Tree, s = .node c → P c)
    (fun label slots below => step (mk label slots) below)
    (fun i c h => by simp at h)
    (fun s rest head tail i c h => by
      cases i with
      | zero => exact head c (by simpa using h)
      | succ i => exact tail i c (by simpa using h))
    (fun c h => by cases h)
    (fun s c h => by cases h)
    (fun a ha c h => by
      cases h
      exact ha)
    t

theorem at?_append (t : Tree) (p q : Path) : t.at? (p ++ q) = (t.at? p).bind (·.at? q) := by
  induction p generalizing t with
  | nil => rfl
  | cons i rest ih =>
    simp only [List.cons_append, at?]
    split
    · exact ih _
    · rfl

theorem at?_singleton {t c : Tree} {i : Nat} :
    t.at? [i] = some c ↔ t.slots[i]? = some (.node c) := by
  rcases h : t.slots[i]? with _ | _ | _ | a <;> simp [at?, h]

theorem at?_concat {root t c : Tree} {p : Path} {i : Nat} (ht : root.at? p = some t)
    (hc : t.slots[i]? = some (.node c)) : root.at? (p ++ [i]) = some c := by
  rw [at?_append, ht]
  exact at?_singleton.mpr hc

end Tree

namespace Occurrence

theorem mem_slotChildren {path : Path} {i : Nat} {slots : List (Slot Tree)} {o : Occurrence} :
    o ∈ slotChildren path i slots ↔
      ∃ j, slots[j]? = some (.node o.tree) ∧ o.path = path ++ [i + j] := by
  induction slots generalizing i with
  | nil => simp [slotChildren]
  | cons s rest ih =>
    have split : (∃ j, (s :: rest)[j]? = some (.node o.tree) ∧ o.path = path ++ [i + j]) ↔
        (s = .node o.tree ∧ o.path = path ++ [i]) ∨ o ∈ slotChildren path (i + 1) rest := by
      rw [ih]
      constructor
      · rintro ⟨j, hs, hp⟩
        cases j with
        | zero => exact .inl ⟨by simpa using hs, hp⟩
        | succ j => exact .inr ⟨j, by simpa using hs, by rw [hp, Nat.add_right_comm, Nat.add_assoc]⟩
      · rintro (⟨hs, hp⟩ | ⟨j, hs, hp⟩)
        · exact ⟨0, by simp [hs], hp⟩
        · exact ⟨j + 1, by simpa using hs, by rw [hp, Nat.add_right_comm, Nat.add_assoc]⟩
    rw [split]
    cases s with
    | absent => simp [slotChildren]
    | text s => simp [slotChildren]
    | node t =>
      obtain ⟨path', t'⟩ := o
      simp [slotChildren, and_comm, eq_comm]

theorem mem_children {o c : Occurrence} :
    c ∈ o.children ↔ ∃ i, o.tree.slots[i]? = some (.node c.tree) ∧ c.path = o.path ++ [i] := by
  rw [children, mem_slotChildren]
  simp only [Nat.zero_add]

def IsIn (root : Tree) (o : Occurrence) : Prop := root.at? o.path = some o.tree

theorem IsIn.of_mem_children {root : Tree} {o c : Occurrence} (h : o.IsIn root)
    (hc : c ∈ o.children) : c.IsIn root := by
  obtain ⟨i, hs, hp⟩ := mem_children.mp hc
  rw [IsIn, hp]
  exact Tree.at?_concat h hs

theorem IsIn.parent_unique {root : Tree} {o p c d : Occurrence} (ho : o.IsIn root)
    (hp : p.IsIn root) (hc : c ∈ o.children) (hd : d ∈ p.children) (same : c.path = d.path) :
    o = p := by
  obtain ⟨i, -, hi⟩ := mem_children.mp hc
  obtain ⟨j, -, hj⟩ := mem_children.mp hd
  have path : o.path = p.path := by
    rw [hi, hj] at same
    exact (List.append_inj' same rfl).1
  have tree : o.tree = p.tree := by
    rw [IsIn, path] at ho
    exact Option.some.inj (ho.symm.trans hp)
  cases o
  cases p
  simp_all

end Occurrence

namespace ParentTable

/-- What is recorded as a parent is the node of the tree one step above. -/
theorem collect_sound {root : Tree} {stack : List Occurrence} (h : ∀ o ∈ stack, o.IsIn root)
    {path : Path} {parent : Occurrence} (hm : (path, parent) ∈ collect stack) :
    parent.IsIn root ∧ ∃ c ∈ parent.children, c.path = path := by
  induction stack using collect.induct with
  | case1 => simp [collect] at hm
  | case2 o stack ih =>
    rw [collect, List.mem_append] at hm
    rcases hm with here | below
    · obtain ⟨c, hc, heq⟩ := List.mem_map.mp here
      obtain ⟨rfl, rfl⟩ := Prod.mk.inj heq
      exact ⟨h _ List.mem_cons_self, c, hc, rfl⟩
    · apply ih _ below
      intro c hc
      rcases List.mem_append.mp hc with child | waiting
      · exact (h o (by simp)).of_mem_children child
      · exact h c (by simp [waiting])

/-- Every node below the stack is recorded with its parent. -/
theorem collect_complete {stack : List Occurrence} {o : Occurrence} (ho : o ∈ stack) {q : Path}
    {t : Tree} (ht : o.tree.at? q = some t) {c : Occurrence}
    (hc : c ∈ Occurrence.children ⟨o.path ++ q, t⟩) :
    (c.path, ⟨o.path ++ q, t⟩) ∈ collect stack := by
  induction stack using collect.induct generalizing o q with
  | case1 => cases ho
  | case2 first stack ih =>
    rw [collect, List.mem_append]
    rcases List.mem_cons.mp ho with rfl | waiting
    · cases q with
      | nil =>
        obtain rfl : o.tree = t := Option.some.inj ht
        rw [List.append_nil] at hc ⊢
        exact .inl (List.mem_map.mpr ⟨c, hc, rfl⟩)
      | cons i rest =>
        rw [← List.singleton_append, Tree.at?_append] at ht
        obtain ⟨child, hchild, ht⟩ := Option.bind_eq_some_iff.mp ht
        have below : ⟨o.path ++ [i], child⟩ ∈ o.children :=
          Occurrence.mem_children.mpr ⟨i, Tree.at?_singleton.mp hchild, rfl⟩
        have step : o.path ++ i :: rest = o.path ++ [i] ++ rest := by simp
        rw [step] at hc ⊢
        exact .inr (ih (List.mem_append_left stack below) ht hc)
    · exact .inr (ih (List.mem_append_right first.children waiting) ht hc)

theorem parent?_eq_some {root : Tree} {path : Path} {o : Occurrence} :
    (build root).parent? path = some o ↔ o.IsIn root ∧ ∃ c ∈ o.children, c.path = path := by
  have start : ∀ o ∈ [Occurrence.mk [] root], o.IsIn root := by simp [Occurrence.IsIn, Tree.at?]
  have found : ∀ p, (build root).parent? path = some p →
      p.IsIn root ∧ ∃ c ∈ p.children, c.path = path := by
    intro p h
    obtain ⟨before, after, split, -⟩ := List.lookup_eq_some_iff.mp h
    have recorded : (path, p) ∈ collect [⟨[], root⟩] := by
      rw [show collect _ = _ from split]
      simp
    exact collect_sound start recorded
  refine ⟨found o, ?_⟩
  rintro ⟨ho, c, hc, hp⟩
  have recorded : (path, o) ∈ (build root).entries := by
    rw [← hp]
    have root_waits : Occurrence.mk [] root ∈ [Occurrence.mk [] root] := List.mem_cons_self
    exact collect_complete root_waits ho hc
  obtain ⟨p, hp'⟩ := Option.isSome_iff_exists.mp
    (List.lookup_isSome_iff.mpr ⟨_, recorded, beq_self_eq_true path⟩)
  obtain ⟨hin, d, hd, same⟩ := found p hp'
  rw [ho.parent_unique hin hc hd (hp.trans same.symm)]
  exact hp'

@[simp] theorem parent?_nil (root : Tree) : (build root).parent? [] = none := by
  refine Option.eq_none_iff_forall_ne_some.mpr fun o h => ?_
  obtain ⟨-, c, hc, hp⟩ := parent?_eq_some.mp h
  obtain ⟨i, -, hi⟩ := Occurrence.mem_children.mp hc
  simp [hp] at hi

@[simp] theorem grandparent?_nil (root : Tree) : (build root).grandparent? [] = none := by
  simp [grandparent?]

section Below

variable {root t c : Tree} {p : Path} {i : Nat}

theorem parent?_concat (ht : root.at? p = some t) (hc : t.slots[i]? = some (.node c)) :
    (build root).parent? (p ++ [i]) = some ⟨p, t⟩ :=
  parent?_eq_some.mpr ⟨ht, ⟨p ++ [i], c⟩, Occurrence.mem_children.mpr ⟨i, hc, rfl⟩, rfl⟩

theorem grandparent?_concat (ht : root.at? p = some t) (hc : t.slots[i]? = some (.node c)) :
    (build root).grandparent? (p ++ [i]) = (build root).parent? p := by
  simp [grandparent?, parent?_concat ht hc]

end Below

end ParentTable

end ClassLowering
