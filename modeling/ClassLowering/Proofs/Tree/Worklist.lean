import ClassLowering.Proofs.Tree.Parents
import ClassLowering.Tree.Build
import Mathlib.Data.Set.Card

/-!
# Recording every place once

The table of parents is filled by a loop over a list of pending occurrences. One turn takes any of
them, records its children and puts them among the pending ones. Whatever order is chosen, the loop
ends after one turn for each node, with the same entries up to their order: what a turn leaves alone
is the entries made so far together with those that are due below the pending occurrences.

The entries name every place below the root once, also where equal trees stand at several places,
because the place of a child is longer than that of its parent and begins with it.
-/

set_option autoImplicit false

namespace ClassLowering

theorem Tree.total_perm {ms ns : List Nat} (h : ms.Perm ns) : total ms = total ns := by
  induction h with
  | nil => rfl
  | cons m _ ih => simp [total, ih]
  | swap m n rest => simp [total, Nat.add_left_comm]
  | trans _ _ first second => exact first.trans second

namespace Occurrence

theorem totalSize_append (os ps : List Occurrence) :
    totalSize (os ++ ps) = totalSize os + totalSize ps := by
  simp [totalSize, Tree.total_append]

theorem totalSize_cons (o : Occurrence) (os : List Occurrence) :
    totalSize (o :: os) = totalSize o.children + totalSize os + 1 := by
  have own := o.size_eq_totalSize_children
  simp only [totalSize, List.map_cons, Tree.total] at own ⊢
  omega

theorem totalSize_perm {os ps : List Occurrence} (h : os.Perm ps) : totalSize os = totalSize ps :=
  Tree.total_perm (h.map _)

theorem slotChildren_nodup (path : Path) (i : Nat) (slots : List (Slot Tree)) :
    ((slotChildren path i slots).map Occurrence.path).Nodup := by
  induction slots generalizing i with
  | nil => exact .nil
  | cons s rest ih =>
    cases s with
    | absent => exact ih (i + 1)
    | text s => exact ih (i + 1)
    | node t =>
      refine List.nodup_cons.mpr ⟨fun again => ?_, ih (i + 1)⟩
      obtain ⟨o, ho, same⟩ := List.mem_map.mp again
      obtain ⟨j, -, place⟩ := mem_slotChildren.mp ho
      have index : i + 1 + j = i := by simpa [place] using same
      omega

theorem children_nodup (o : Occurrence) : (o.children.map Occurrence.path).Nodup :=
  slotChildren_nodup o.path 0 o.tree.slots

end Occurrence

namespace ParentTable

/-! ## What is recorded below an occurrence -/

theorem collect_append (a b : List Occurrence) : collect (a ++ b) = collect a ++ collect b := by
  induction a using collect.induct with
  | case1 => simp [collect]
  | case2 o a ih =>
    rw [List.append_assoc] at ih
    rw [List.cons_append, collect, collect, ih, List.append_assoc]

theorem collect_eq_flatMap (stack : List Occurrence) :
    collect stack = stack.flatMap fun o => collect [o] := by
  induction stack with
  | nil => simp [collect]
  | cons o rest ih => rw [← List.singleton_append, collect_append, ih]; simp

theorem collect_perm {a b : List Occurrence} (h : a.Perm b) : (collect a).Perm (collect b) := by
  rw [collect_eq_flatMap a, collect_eq_flatMap b]
  exact h.flatMap_right _

theorem collect_single (o : Occurrence) :
    collect [o] = o.children.map (fun c => (c.path, o)) ++ collect o.children := by
  rw [collect, List.append_nil]

def places (entries : List (Path × Occurrence)) : List Path := entries.map Prod.fst

theorem mem_places_collect {t : Tree} {path place : Path}
    (h : place ∈ places (collect [⟨path, t⟩])) : ∃ i rest, place = path ++ i :: rest := by
  induction t using Tree.induction generalizing path with
  | step t ih =>
    rw [places, collect_single, List.map_append, List.mem_append, List.map_map] at h
    rcases h with here | below
    · obtain ⟨c, hc, rfl⟩ := List.mem_map.mp here
      obtain ⟨i, -, hi⟩ := Occurrence.mem_children.mp hc
      exact ⟨i, [], hi⟩
    · rw [collect_eq_flatMap] at below
      obtain ⟨entry, he, rfl⟩ := List.mem_map.mp below
      obtain ⟨c, hc, he⟩ := List.mem_flatMap.mp he
      obtain ⟨i, hs, hi⟩ := Occurrence.mem_children.mp hc
      obtain ⟨j, rest, hj⟩ := ih i c.tree hs (List.mem_map_of_mem he)
      exact ⟨i, j :: rest, by rw [hj, hi]; simp⟩

theorem places_collect_nodup (t : Tree) (path : Path) :
    (places (collect [⟨path, t⟩])).Nodup := by
  induction t using Tree.induction generalizing path with
  | step t ih =>
    have own : (List.map Occurrence.path (Occurrence.children ⟨path, t⟩)).Nodup :=
      Occurrence.children_nodup _
    have place {c : Occurrence} (hc : c ∈ Occurrence.children ⟨path, t⟩) :
        ∃ i, t.slots[i]? = some (.node c.tree) ∧ c.path = path ++ [i] :=
      Occurrence.mem_children.mp hc
    rw [places, collect_single, List.map_append, List.map_map, collect_eq_flatMap,
      List.map_flatMap]
    refine List.nodup_append.mpr ⟨own, List.nodup_flatMap.mpr ⟨?_, ?_⟩, ?_⟩
    · intro c hc
      obtain ⟨i, hs, -⟩ := place hc
      exact ih i c.tree hs c.path
    · -- places below different children differ where the children do
      refine List.Pairwise.imp_of_mem ?_ (List.pairwise_map.mp own)
      intro c d hc hd different q hq hq'
      obtain ⟨i, -, hi⟩ := place hc
      obtain ⟨j, -, hj⟩ := place hd
      obtain ⟨k, rest, hk⟩ := mem_places_collect hq
      obtain ⟨k', rest', hk'⟩ := mem_places_collect hq'
      rw [hk, hi, hj, List.append_assoc, List.append_assoc] at hk'
      have index : i = j := (List.cons_eq_cons.mp (List.append_cancel_left hk')).1
      exact different (by rw [hi, hj, index])
    · rintro p hp q hq rfl
      obtain ⟨c, hc, rfl⟩ := List.mem_map.mp hp
      obtain ⟨d, hd, hq⟩ := List.mem_flatMap.mp hq
      obtain ⟨i, -, hi⟩ := place hc
      obtain ⟨j, -, hj⟩ := place hd
      obtain ⟨k, rest, hk⟩ := mem_places_collect hq
      have length := congrArg List.length (hi.symm.trans hk)
      simp [hj] at length

/-! ## The loop -/

/-- The occurrences whose children are still to be recorded, and the entries made so far. -/
structure Loop where
  pending : List Occurrence
  entries : List (Path × Occurrence)

namespace Loop

def start (root : Tree) : Loop := ⟨[⟨[], root⟩], []⟩

/-- One turn takes a pending occurrence, whichever it is, and puts its children anywhere among the
others. -/
inductive Turn : Loop → Loop → Prop
  | take {before after next : List Occurrence} {o : Occurrence}
      {entries : List (Path × Occurrence)} :
      next.Perm (before ++ o.children ++ after) →
      Turn ⟨before ++ o :: after, entries⟩ ⟨next, entries ++ o.children.map fun c => (c.path, o)⟩

/-- The turn of a stack, which takes the last pending occurrence and leaves its children last. -/
theorem Turn.last (before : List Occurrence) (o : Occurrence) (entries : List (Path × Occurrence)) :
    Turn ⟨before ++ [o], entries⟩
      ⟨before ++ o.children, entries ++ o.children.map fun c => (c.path, o)⟩ :=
  .take (by rw [List.append_nil])

inductive Turns (first : Loop) : Nat → Loop → Prop
  | none : Turns first 0 first
  | more {n : Nat} {w w' : Loop} : Turns first n w → Turn w w' → Turns first (n + 1) w'

def due (w : Loop) : List (Path × Occurrence) := w.entries ++ collect w.pending

theorem Turn.due_perm {w w' : Loop} (h : Turn w w') : w'.due.Perm w.due := by
  obtain ⟨placed⟩ := h
  rename_i before after next o entries
  have pending : (before ++ o :: after).Perm (o :: (before ++ after)) := List.perm_middle
  have children : next.Perm (o.children ++ (before ++ after)) := by
    refine placed.trans ?_
    rw [List.append_assoc]
    exact List.perm_append_comm_assoc before o.children after
  have rest := collect_perm pending
  rw [collect] at rest
  simp only [due]
  rw [List.append_assoc]
  exact ((collect_perm children).append_left _ |>.trans rest.symm).append_left entries

theorem Turn.totalSize_pending {w w' : Loop} (h : Turn w w') :
    Occurrence.totalSize w.pending = Occurrence.totalSize w'.pending + 1 := by
  obtain ⟨placed⟩ := h
  rw [Occurrence.totalSize_perm placed]
  simp only [Occurrence.totalSize_append, Occurrence.totalSize_cons]
  omega

variable {root : Tree} {n : Nat} {w : Loop}

theorem Turns.due_perm (h : Turns (start root) n w) : w.due.Perm (build root).entries := by
  induction h with
  | none => exact .refl _
  | more _ turn ih => exact turn.due_perm.trans ih

/-- Each turn takes one node away from those that are pending or below. -/
theorem Turns.count (h : Turns (start root) n w) :
    n + Occurrence.totalSize w.pending = root.size := by
  induction h with
  | none => simp [start, Occurrence.totalSize, Tree.total]
  | more _ turn ih =>
    rw [turn.totalSize_pending] at ih
    omega

theorem exists_turn (h : w.pending ≠ []) : ∃ w', Turn w w' := by
  obtain ⟨pending, entries⟩ := w
  cases pending with
  | nil => exact absurd rfl h
  | cons o rest => exact ⟨_, Turn.take (.refl ([] ++ o.children ++ rest))⟩

theorem pending_eq_nil : w.pending = [] ↔ Occurrence.totalSize w.pending = 0 := by
  cases h : w.pending with
  | nil => simp [Occurrence.totalSize, Tree.total]
  | cons o rest => simp [Occurrence.totalSize_cons]

end Loop

/-! ## Look-ups by place -/

section Places

variable (root : Tree)

theorem parent?_place (p : Path) (i : Nat) : (build root).parent? (p ++ [i]) =
    if (root.at? (p ++ [i])).isSome then (root.at? p).map (Occurrence.mk p) else none := by
  cases hc : root.at? (p ++ [i]) with
  | none =>
    refine Option.eq_none_iff_forall_ne_some.mpr fun o h => ?_
    obtain ⟨ho, c, hchild, place⟩ := parent?_eq_some.mp h
    have there : root.at? c.path = some c.tree := ho.of_mem_children hchild
    rw [place, hc] at there
    cases there
  | some c =>
    rw [Tree.at?_append] at hc
    obtain ⟨t, ht, hc⟩ := Option.bind_eq_some_iff.mp hc
    rw [parent?_concat ht (Tree.at?_singleton.mp hc), ht]
    rfl

theorem grandparent?_place (p : Path) (i j : Nat) : (build root).grandparent? (p ++ [i, j]) =
    if (root.at? (p ++ [i, j])).isSome then (root.at? p).map (Occurrence.mk p) else none := by
  have split : p ++ [i, j] = p ++ [i] ++ [j] := by simp
  rw [grandparent?, split, parent?_place]
  cases hc : root.at? (p ++ [i] ++ [j]) with
  | none => rfl
  | some c =>
    rw [Tree.at?_append] at hc
    obtain ⟨t, ht, -⟩ := Option.bind_eq_some_iff.mp hc
    rw [ht]
    change (build root).parent? (p ++ [i]) = _
    rw [parent?_place, ht]
    rfl

theorem mem_places_build {root : Tree} {p : Path} :
    p ∈ places (build root).entries ↔ p ≠ [] ∧ (root.at? p).isSome := by
  have recorded : p ∈ places (build root).entries ↔ ((build root).parent? p).isSome := by
    rw [parent?, List.lookup_isSome_iff, places, List.mem_map]
    simp only [beq_iff_eq]
    exact exists_congr fun entry => and_congr_right fun _ => eq_comm
  rw [recorded]
  rcases List.eq_nil_or_concat p with rfl | ⟨q, i, hp⟩
  · simp
  · rw [List.concat_eq_append] at hp
    subst hp
    rw [parent?_place, Tree.at?_append]
    cases root.at? q with
    | none => simp
    | some t => cases h : t.at? [i] <;> simp [h]

end Places

/-- The loop that fills the table ends, whichever pending occurrence each turn takes, and always
with the entries of the table. These are one for each place of a node but the root, and no other.
The parent of an occurrence is the one at its place without the last step, and the grandparent the
one at its place without the last two. -/
theorem records_each_place_once (root : Tree) :
    (∀ (n : Nat) (w : Loop), Loop.Turns (.start root) n w →
      n ≤ root.size ∧ (n < root.size → ∃ w', Loop.Turn w w') ∧
        (n = root.size → w.pending = [] ∧ w.entries.Perm (build root).entries)) ∧
    (places (build root).entries).Nodup ∧
    (∀ p, p ∈ places (build root).entries ↔ p ≠ [] ∧ (root.at? p).isSome) ∧
    {p | (root.at? p).isSome}.ncard = (build root).size + 1 ∧
    (build root).parent? [] = none ∧
    (∀ p i, (build root).parent? (p ++ [i]) =
      if (root.at? (p ++ [i])).isSome then (root.at? p).map (Occurrence.mk p) else none) ∧
    (build root).grandparent? [] = none ∧
    (∀ i, (build root).grandparent? [i] = none) ∧
    ∀ p i j, (build root).grandparent? (p ++ [i, j]) =
      if (root.at? (p ++ [i, j])).isSome then (root.at? p).map (Occurrence.mk p) else none := by
  have once : (places (build root).entries).Nodup := places_collect_nodup root []
  have all : {p | (root.at? p).isSome} = insert [] {p | p ∈ places (build root).entries} := by
    ext p
    rw [Set.mem_insert_iff, Set.mem_ofPred_eq, Set.mem_ofPred_eq, mem_places_build]
    by_cases h : p = [] <;> simp [h, Tree.at?]
  refine ⟨?_, once, fun p => mem_places_build, ?_, parent?_nil root, parent?_place root,
    grandparent?_nil root, ?_, grandparent?_place root⟩
  · intro n w turns
    have count := turns.count
    refine ⟨by omega, fun early => Loop.exists_turn fun h => ?_, fun late => ?_⟩
    · rw [Loop.pending_eq_nil.mp h] at count
      omega
    · have empty : w.pending = [] := Loop.pending_eq_nil.mpr (by omega)
      have due := turns.due_perm
      rw [Loop.due, empty, collect, List.append_nil] at due
      exact ⟨empty, due⟩
  · have new : [] ∉ {p | p ∈ places (build root).entries} := by simp [mem_places_build]
    have finite : {p | p ∈ places (build root).entries}.Finite := List.finite_toSet _
    have listed : {p | p ∈ places (build root).entries} =
        ((places (build root).entries).toFinset : Set Path) := by
      ext p
      simp
    rw [all, Set.ncard_insert_of_notMem new finite, listed, Set.ncard_coe_finset,
      List.toFinset_card_of_nodup once]
    simp [places, size]
  · intro i
    have top := parent?_place root [] i
    rw [List.nil_append] at top
    rw [grandparent?, top]
    cases root.at? [i] <;> simp [Tree.at?]

end ParentTable

namespace Samples

def smallBlock : Tree := .group .block [.node .thisExpression []]

def twinBlocks : Tree := .group .compilationUnit [smallBlock, smallBlock]

open ParentTable (build Loop)

theorem twinBlocks_recorded :
    ∃ w, Loop.Turns (.start twinBlocks) 5 w ∧ w.pending = [] ∧
      w.entries.Perm (build twinBlocks).entries ∧
      (build twinBlocks).parent? [0, 0] = some ⟨[0], smallBlock⟩ ∧
      (build twinBlocks).parent? [1, 0] = some ⟨[1], smallBlock⟩ := by
  let leaf : Tree := .node .thisExpression []
  let left : Occurrence := ⟨[0], smallBlock⟩
  let right : Occurrence := ⟨[1], smallBlock⟩
  have one : Loop.Turns (.start twinBlocks) 1 _ := .more .none (.last [] ⟨[], twinBlocks⟩ [])
  have two : Loop.Turns (.start twinBlocks) 2 _ := .more one (.last [left] right _)
  have three : Loop.Turns (.start twinBlocks) 3 _ := .more two (.last [left] ⟨[1, 0], leaf⟩ _)
  have four : Loop.Turns (.start twinBlocks) 4 _ := .more three (.last [] left _)
  have five : Loop.Turns (.start twinBlocks) 5 _ := .more four (.last [] ⟨[0, 0], leaf⟩ _)
  obtain ⟨ends, -, -, -, -, parent, -⟩ := ParentTable.records_each_place_once twinBlocks
  obtain ⟨done, same⟩ := (ends 5 _ five).2.2 rfl
  exact ⟨_, five, done, same, parent [0] 0, parent [1] 0⟩

end Samples

end ClassLowering
