import ClassLowering.Proofs.Printing.Occasions
import ClassLowering.Proofs.Printing.Units
import ClassLowering.Proofs.Tree.Worklist

/-!
# Nodes of unknown kind in a block

A node of unknown kind prints the nodes in it as items and adds nothing. A node that is wrapped up
in one stands no longer in the block itself, and the nodes in it are no longer two below the block.
Of this only a statement block takes notice, and only of being two below a block. So where neither
the wrapped node nor a node directly in it is a statement block, the wrapper is not seen.
-/

set_option autoImplicit false

namespace ClassLowering

open Surroundings (ofKinds ofKinds_cons)

namespace Tree

/-! ## What a node that is no statement block can see -/

section Outer

variable {ctx : Context} {outer : List Kind}

theorem print_congr_parent {t : Tree} (hk : t.kind ≠ .statementBlock)
    (member : (ofKinds outer).inClassBody = (ofKinds ctx.outer).inClassBody)
    (block : (ofKinds outer).inBlock = (ofKinds ctx.outer).inBlock) (pos : Position) :
    t.print pos (ctx.around outer) = t.print pos ctx := by
  rw [print_eq_run, print_eq_run, script, script_around member fun h => absurd h hk, script, parts,
    Row.map_eq_mapSlots]
  refine Script.run_mapSlots_congr (fun index c pos' shift _ => ?_) _
  have facts : ofKinds (t.kind :: outer) = ofKinds ((ctx.inside t.kind).moved shift).outer := by
    rw [Context.outer_moved, Context.inside, ofKinds_cons, ofKinds_cons, Surroundings.below, block]
    rfl
  rw [Context.moved_around]
  exact print_congr_outer c facts

theorem print_congr_member {t : Tree} (hk : t.kind ≠ .statementBlock)
    (below : ∀ c ∈ t.children, c.kind ≠ .statementBlock)
    (member : (ofKinds outer).inClassBody = (ofKinds ctx.outer).inClassBody) (pos : Position) :
    t.print pos (ctx.around outer) = t.print pos ctx := by
  rw [print_eq_run, print_eq_run, script, script_around member fun h => absurd h hk, script, parts,
    Row.map_eq_mapSlots]
  refine Script.run_mapSlots_congr (fun index c pos' shift hc => ?_) _
  have other : c.kind ≠ .statementBlock :=
    below c (Row.mem_children.mpr (List.mem_of_getElem? hc))
  rw [Context.moved_around]
  apply print_congr_parent other
  · rw [Context.outer_moved]
    rfl
  · rw [Context.outer_moved]
    rfl

end Outer

/-! ## A wrapper in a block -/

/-- A node of unknown kind prints the only node in it, if that does not see the difference. -/
theorem print_wrapper {w x : Tree} (wraps : w.kind = .unknown) (only : w.children = [x])
    (own : x.kind ≠ .statementBlock) (below : ∀ c ∈ x.children, c.kind ≠ .statementBlock)
    {ctx : Context} (loose : ctx.isMember = false) : w.print .item ctx = x.print .item ctx := by
  have moved : ctx.inside w.kind = ctx.around (w.kind :: ctx.outer) := rfl
  rw [print_transparent (by rw [wraps]; rfl), only, printAll_singleton, moved]
  apply print_congr_member own below
  have outside : (ofKinds ctx.outer).inClassBody = false := loose
  rw [outside, wraps]
  rfl

theorem print_block {b : Tree} (block : b.kind = .block) (ctx : Context) :
    b.print .item ctx = (do return ctx.indentation ++ (← b.print .braces ctx) ++ "\n") := by
  rw [print_eq]
  change itemText b.parts ctx = (do return _ ++ (← bracesText b.parts ctx) ++ _)
  have kind : b.parts.kind = .block := block
  simp only [itemText, kind, Kind.isStatement, statementText, if_pos]

section Block

variable {b x w : Tree} {i : Nat} (block : b.kind = .block)
  (slot : b.slots[i]? = some (.node x)) (wraps : w.kind = .unknown) (only : w.children = [x])
  (own : x.kind ≠ .statementBlock) (below : ∀ c ∈ x.children, c.kind ≠ .statementBlock)

include block slot wraps only own below

theorem print_braces_put (ctx : Context) : (b.put i w).print .braces ctx = b.print .braces ctx := by
  have same : (b.put i w).script ctx .braces = b.script ctx .braces := bracesScript_put slot
  rw [print_eq_run, print_eq_run, same, parts_put]
  apply Script.run_congr
  intro index what pos shift printed
  obtain ⟨rfl, rfl⟩ := mem_bracesScript printed
  by_cases here : index = i
  · subst here
    have old : b.parts.child index what = .ok (x, x.print) := child_parts slot what
    have new : (b.parts.put index (w, w.print)).child index what = .ok (w, w.print) := by
      rw [← parts_put]
      exact child_parts (Row.slots_put_self slot w) what
    rw [old, new]
    apply print_wrapper wraps only own below
    simp [Context.isMember, Context.moved, Context.deeper, Context.inside, block]
  · rw [Row.child_put_ne here, Row.kind_put]

theorem print_item_put (ctx : Context) : (b.put i w).print .item ctx = b.print .item ctx := by
  have kept : (b.put i w).kind = .block := block
  rw [print_block kept, print_block block, print_braces_put block slot wraps only own below]

end Block

end Tree

/-! ## The wrapper in a whole tree -/

namespace ParentTable

section Replace

variable (root new : Tree)

theorem parent?_replaceAt (p q : Path) :
    ((build (root.replaceAt (p ++ q) new)).parent? p).map (·.tree.kind) =
      ((build root).parent? p).map (·.tree.kind) := by
  rcases List.eq_nil_or_concat p with rfl | ⟨r, i, hp⟩
  · simp
  · rw [List.concat_eq_append] at hp
    subst hp
    have split : r ++ [i] ++ q = r ++ i :: q := by simp
    rw [parent?_place, parent?_place, Tree.at?_replaceAt, split, Tree.at?_replaceAt]
    cases root.at? (r ++ [i]) with
    | none => rfl
    | some c => cases root.at? r <;> rfl

theorem grandparent?_replaceAt {p : Path} (there : (root.at? p).isSome) :
    ((build (root.replaceAt p new)).grandparent? p).map (·.tree.kind) =
      ((build root).grandparent? p).map (·.tree.kind) := by
  rcases List.eq_nil_or_concat p with rfl | ⟨r, i, hp⟩
  · simp
  · rw [List.concat_eq_append] at hp
    subst hp
    obtain ⟨c, hc⟩ := Option.isSome_iff_exists.mp there
    have hnew := root.at?_replaceAt (r ++ [i]) [] new
    rw [List.append_nil, hc] at hnew
    rw [Tree.at?_append] at hc hnew
    obtain ⟨t, ht, hc⟩ := Option.bind_eq_some_iff.mp hc
    obtain ⟨t', ht', hc'⟩ := Option.bind_eq_some_iff.mp hnew
    rw [grandparent?_concat ht (Tree.at?_singleton.mp hc),
      grandparent?_concat ht' (Tree.at?_singleton.mp hc')]
    exact parent?_replaceAt root new r [i]

theorem kindsAround_replaceAt {p : Path} (there : (root.at? p).isSome) :
    (build (root.replaceAt p new)).kindsAround p = (build root).kindsAround p := by
  have kinds (table : ParentTable) : table.kindsAround p =
      ((table.parent? p).map (·.tree.kind)).toList
        ++ ((table.grandparent? p).map (·.tree.kind)).toList := by
    simp only [kindsAround, Option.toList_map]
  have parent := parent?_replaceAt root new p []
  rw [List.append_nil] at parent
  rw [kinds, kinds, parent, grandparent?_replaceAt root new there]

end Replace

end ParentTable

/-- A node in a block can be wrapped up in a node of unknown kind. Wherever the block is printed, by
itself or as the body of another node, it prints the same text or fails in the same way, as long as
the wrapped node is no statement block and has none directly in it. This holds in every context, and
for a printer that looks up parents in the table of the whole tree with the wrapper in it. -/
theorem wrapped_prints_same {b x w : Tree} {i : Nat} (block : b.kind = .block)
    (slot : b.slots[i]? = some (.node x)) (wraps : w.kind = .unknown) (only : w.children = [x])
    (own : x.kind ≠ .statementBlock) (below : ∀ c ∈ x.children, c.kind ≠ .statementBlock) :
    (∀ ctx : Context, (b.put i w).print .item ctx = b.print .item ctx ∧
      (b.put i w).print .braces ctx = b.print .braces ctx) ∧
    ∀ (root : Tree) (path : Path) (pos : Position) (ctx : Context), root.at? path = some b →
      pos = .item ∨ pos = .braces →
      (b.put i w).printLooking (ParentTable.build (root.replaceAt path (b.put i w))) path pos ctx =
        b.printLooking (ParentTable.build root) path pos ctx := by
  have items := Tree.print_item_put block slot wraps only own below
  have braces := Tree.print_braces_put block slot wraps only own below
  refine ⟨fun ctx => ⟨items ctx, braces ctx⟩, ?_⟩
  intro root path pos ctx there position
  have new : (root.replaceAt path (b.put i w)).at? path = some (b.put i w) := by
    have found := root.at?_replaceAt path [] (b.put i w)
    rwa [List.append_nil, there] at found
  have around := ParentTable.kindsAround_replaceAt root (b.put i w) (by rw [there]; rfl)
  rw [Tree.printLooking_eq_print new, Tree.printLooking_eq_print there, around]
  rcases position with rfl | rfl
  · exact items _
  · exact braces _

namespace Samples

theorem wrapped_return :
    let value : Tree := .group .returnStatement [.node .thisExpression []]
    let wrapper : Tree := .mk "Labelled" [.text "from", .node value, .absent, .text "here"]
    let block : Tree := .node .block [.text "a", .node value, .node (.node .emptyStatement [])]
    let start : Context := { artifact := .implementation, settings := {} }
    block.print .item start = .ok "\x7b\n    return __this;\n    ;\n\x7d\n" ∧
      (block.put 1 wrapper).print .item start = block.print .item start := by
  refine ⟨rfl, ?_⟩
  exact ((wrapped_prints_same rfl rfl rfl rfl (by decide) (by decide)).1 _).1

end Samples

end ClassLowering
