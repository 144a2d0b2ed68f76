import ClassLowering.Proofs.Printing.Reach

/-!
# How far a node looks

A rule asks its context only whether the node stands in the body of a class, and whether the node
around it stands in a block. To answer this for nodes below, it is enough to know of a node whether
its parent is the body of a class or a block and whether its grandparent is a block: three facts,
which pass from a node to the nodes in its slots.

`Tree.printLooking` is a printer that looks both parents up in a table for the whole tree each time,
by the place of the node, and `Tree.printCarrying` is one that only hands the three facts down. Both
print what `Tree.print` prints.
-/

set_option autoImplicit false

namespace ClassLowering

def Context.around (ctx : Context) (outer : List Kind) : Context := { ctx with outer }

namespace Surroundings

def below (s : Surroundings) (k : Kind) : Surroundings where
  inClassBody := k = .classBody
  inBlock := k = .block
  twoBelowBlock := s.inBlock

def kinds (s : Surroundings) : List Kind :=
  [if s.inClassBody then .classBody else if s.inBlock then .block else .unknown,
    if s.twoBelowBlock then .block else .unknown]

theorem ofKinds_cons (k : Kind) (outer : List Kind) :
    ofKinds (k :: outer) = (ofKinds outer).below k := by
  simp [ofKinds, below]

theorem ofKinds_kinds (outer : List Kind) : ofKinds (ofKinds outer).kinds = ofKinds outer := by
  by_cases hc : outer[0]? = some .classBody <;> by_cases hb : outer[0]? = some .block <;>
    by_cases hg : outer[1]? = some .block <;> simp_all [ofKinds, kinds]

end Surroundings

open Surroundings (ofKinds ofKinds_cons ofKinds_kinds)

/-! ## What a script asks of its context -/

section Facts

variable {ctx : Context} {outer : List Kind} (h : ofKinds outer = ofKinds ctx.outer)

include h

theorem isMember_around : (ctx.around outer).isMember = ctx.isMember :=
  congrArg Surroundings.inClassBody h

theorem isTwoBelowBlock_around : (ctx.around outer).isTwoBelowBlock = ctx.isTwoBelowBlock :=
  congrArg Surroundings.twoBelowBlock h

end Facts

section Scripts

variable {ctx : Context} {outer : List Kind} {r : Row Tree}
  (member : (ctx.around outer).isMember = ctx.isMember)
  (block : r.kind = .statementBlock → (ctx.around outer).isTwoBelowBlock = ctx.isTwoBelowBlock)

include block in
theorem inlineScript_around : inlineScript r (ctx.around outer) = inlineScript r ctx := by
  unfold inlineScript
  cases hk : r.kind
  case statementBlock =>
    simp only [statementBlockScript, block hk]
    rfl
  all_goals rfl

include block in
theorem shiftedScript_around : shiftedScript r (ctx.around outer) = shiftedScript r ctx := by
  unfold shiftedScript
  rw [inlineScript_around block]

include member in
theorem fieldScript_around : fieldScript r (ctx.around outer) = fieldScript r ctx := by
  unfold fieldScript
  rw [member]
  rfl

include member block in
theorem itemScript_around : itemScript r (ctx.around outer) = itemScript r ctx := by
  unfold itemScript
  rw [inlineScript_around block, fieldScript_around member]
  rfl

include member block in
/-- A script asks whether the node is a member of a class, and only that of a statement block asks
whether it stands two below a block. -/
theorem script_around (pos : Position) : r.script (ctx.around outer) pos = r.script ctx pos := by
  cases pos
  case item => exact itemScript_around member block
  case inline => exact inlineScript_around block
  case shifted => exact shiftedScript_around block
  all_goals rfl

end Scripts

/-! ## What a run asks of its context -/

theorem Script.run_mapSlots_congr {t : Tree} {f₁ f₂ : Nat → Tree → Part} {ctx₁ ctx₂ : Context}
    (h : ∀ index c pos shift, t.slots[index]? = some (.node c) →
      (f₁ index c).print pos ((ctx₁.inside t.kind).moved shift) =
        (f₂ index c).print pos ((ctx₂.inside t.kind).moved shift)) (steps : Script) :
    run (t.row.mapSlots f₁) ctx₁ steps = run (t.row.mapSlots f₂) ctx₂ steps := by
  apply run_congr
  intro index what pos shift _
  rw [Row.child_mapSlots, Row.child_mapSlots]
  cases hc : t.row.child index what with
  | error e => rfl
  | ok c => exact h index c pos shift (Row.child_eq_ok.mp hc)

theorem Context.moved_around (ctx : Context) (outer : List Kind) (k : Kind) (shift : Shift) :
    ((ctx.around outer).inside k).moved shift =
      ((ctx.inside k).moved shift).around (k :: outer) := by
  cases shift <;> rfl

namespace Tree

/-- What a node prints depends on the nodes around it through the three facts only. -/
theorem print_congr_outer (t : Tree) {pos : Position} {ctx : Context} {outer : List Kind}
    (h : ofKinds outer = ofKinds ctx.outer) : t.print pos (ctx.around outer) = t.print pos ctx := by
  induction t using Tree.induction generalizing pos ctx outer with
  | step t ih =>
    rw [print_eq_run, print_eq_run, script,
      script_around (isMember_around h) fun _ => isTwoBelowBlock_around h, script, parts,
      Row.map_eq_mapSlots]
    refine Script.run_mapSlots_congr (fun index c pos' shift hc => ?_) _
    have facts : ofKinds (t.kind :: outer) =
        ofKinds ((ctx.inside t.kind).moved shift).outer := by
      rw [Context.outer_moved, Context.inside, ofKinds_cons, ofKinds_cons, h]
    rw [Context.moved_around]
    exact ih index c hc facts

end Tree

/-! ## Looking up and handing down -/

def ParentTable.kindsAround (table : ParentTable) (path : Path) : List Kind :=
  (table.parent? path).toList.map (·.tree.kind)
    ++ (table.grandparent? path).toList.map (·.tree.kind)

theorem ParentTable.ofKinds_kindsAround (table : ParentTable) (path : Path) :
    ofKinds (table.kindsAround path) = table.surroundings path := by
  cases hp : table.parent? path with
  | none => simp [kindsAround, surroundings, ofKinds, grandparent?, hp]
  | some o =>
    cases hg : table.grandparent? path <;>
      simp [kindsAround, surroundings, ofKinds, hp, hg, Tree.is]

theorem ParentTable.surroundings_concat {root t c : Tree} {p : Path} {i : Nat}
    (ht : root.at? p = some t) (hc : t.slots[i]? = some (.node c)) :
    (build root).surroundings (p ++ [i]) = ((build root).surroundings p).below t.kind := by
  simp [surroundings, Surroundings.below, parent?_concat ht hc, grandparent?_concat ht hc, Tree.is]

namespace Tree

/-- Prints the node at a place, and looks up in the table what is around it. -/
def printLooking (table : ParentTable) : Tree → Path → Printer :=
  Tree.fold fun r path pos ctx =>
    printRule (r.mapSlots fun index p => (p.1, p.2 (path ++ [index]))) pos
      (ctx.around (table.kindsAround path))

/-- Prints a node of which the three facts hold, and hands them down to the nodes in it. -/
def printCarrying : Tree → Surroundings → Printer :=
  Tree.fold fun r facts pos ctx =>
    printRule (r.map fun p => (p.1, p.2 (facts.below r.kind))) pos (ctx.around facts.kinds)

theorem printLooking_eq_run (table : ParentTable) (t : Tree) (path : Path) (pos : Position)
    (ctx : Context) :
    t.printLooking table path pos ctx =
      (t.script (ctx.around (table.kindsAround path)) pos).run
        (t.row.mapSlots fun index c => (c, c.printLooking table (path ++ [index])))
        (ctx.around (table.kindsAround path)) := by
  rw [printLooking, fold_eq, printRule_eq_run, Row.mapSlots_map]
  rw [Row.map_mapSlots_cancel fun _ _ => rfl]
  rfl

theorem printCarrying_eq_run (t : Tree) (facts : Surroundings) (pos : Position) (ctx : Context) :
    t.printCarrying facts pos ctx =
      (t.script (ctx.around facts.kinds) pos).run
        (t.row.mapSlots fun _ c => (c, c.printCarrying (facts.below t.kind)))
        (ctx.around facts.kinds) := by
  rw [printCarrying, fold_eq, printRule_eq_run, Row.map_eq_mapSlots, Row.mapSlots_map]
  rw [Row.map_mapSlots_cancel fun _ _ => rfl]
  rfl

/-- The look-ups in the table of the whole tree find what the context carries. -/
theorem printLooking_eq_print {root t : Tree} {path : Path} (ht : root.at? path = some t)
    (pos : Position) (ctx : Context) :
    t.printLooking (ParentTable.build root) path pos ctx =
      t.print pos (ctx.around ((ParentTable.build root).kindsAround path)) := by
  induction t using Tree.induction generalizing path pos ctx with
  | step t ih =>
    rw [printLooking_eq_run, print_eq_run, parts, Row.map_eq_mapSlots]
    refine Script.run_mapSlots_congr (fun index c pos' shift hc => ?_) _
    have facts : ofKinds ((ParentTable.build root).kindsAround (path ++ [index])) =
        ofKinds (t.kind :: (ParentTable.build root).kindsAround path) := by
      rw [ofKinds_cons, ParentTable.ofKinds_kindsAround, ParentTable.ofKinds_kindsAround,
        ParentTable.surroundings_concat ht hc]
    simp only [Part.print]
    rw [ih index c hc (at?_concat ht hc)]
    apply print_congr_outer
    rw [facts, Context.outer_moved]
    rfl

/-- The three facts are all that a node needs. -/
theorem printCarrying_eq_print (t : Tree) (outer : List Kind) (pos : Position) (ctx : Context) :
    t.printCarrying (ofKinds outer) pos ctx = t.print pos (ctx.around outer) := by
  induction t using Tree.induction generalizing outer pos ctx with
  | step t ih =>
    have here : t.print pos (ctx.around outer) = t.print pos (ctx.around (ofKinds outer).kinds) :=
      (print_congr_outer t (ofKinds_kinds outer)).symm
    rw [here, printCarrying_eq_run, print_eq_run, parts, Row.map_eq_mapSlots]
    refine Script.run_mapSlots_congr (fun index c pos' shift hc => ?_) _
    have facts : (ofKinds outer).below t.kind = ofKinds (t.kind :: (ofKinds outer).kinds) := by
      rw [ofKinds_cons, ofKinds_kinds]
    simp only [Part.print]
    rw [facts, ih index c hc]
    apply print_congr_outer
    rw [Context.outer_moved]
    rfl

end Tree

/-- Printing is local. A node that is reached in two trees prints the same, or fails in the same
way, where the depth, the scope and the three facts are the same. And a file is what the printer
prints that looks parents up in the table of the whole tree, which at every node does the same as
the one that only carries the three facts. -/
theorem print_local (settings : Settings) (artifact : Artifact) :
    (∀ (root₁ root₂ : Tree) (before₁ before₂ : String) (o₁ o₂ : Occurrence) (pos : Position)
      (ctx₁ ctx₂ : Context),
      Reaches root₁ { artifact, settings } before₁ o₁ pos ctx₁ →
      Reaches root₂ { artifact, settings } before₂ o₂ pos ctx₂ →
      o₁.tree = o₂.tree → ctx₁.depth = ctx₂.depth → ctx₁.scope = ctx₂.scope →
      (ParentTable.build root₁).surroundings o₁.path =
        (ParentTable.build root₂).surroundings o₂.path →
      o₁.tree.print pos ctx₁ = o₂.tree.print pos ctx₂) ∧
    ∀ root : Tree,
      (render settings artifact root = do
        let text ← root.printLooking (ParentTable.build root) [] .item { artifact, settings }
        return preamble artifact settings ++ text) ∧
      ∀ (path : Path) (t : Tree), root.at? path = some t → ∀ (pos : Position) (ctx : Context),
        t.printLooking (ParentTable.build root) path pos ctx =
          t.printCarrying ((ParentTable.build root).surroundings path) pos ctx := by
  refine ⟨?_, fun root => ⟨?_, ?_⟩⟩
  · intro root₁ root₂ before₁ before₂ o₁ o₂ pos ctx₁ ctx₂ h₁ h₂ tree depth scope facts
    rw [h₁.surroundings_eq rfl, h₂.surroundings_eq rfl] at facts
    have same : ctx₂ = ctx₁.around ctx₂.outer := by
      obtain ⟨a, s, d, sc, out⟩ := ctx₁
      obtain ⟨a', s', d', sc', out'⟩ := ctx₂
      have hs := h₁.settings_eq.trans h₂.settings_eq.symm
      have ha := h₁.artifact_eq.trans h₂.artifact_eq.symm
      simp_all [Context.around]
    rw [same, ← tree]
    exact (Tree.print_congr_outer o₁.tree facts.symm).symm
  · rw [Tree.printLooking_eq_print rfl]
    simp [render, ParentTable.kindsAround, Context.around]
  · intro path t ht pos ctx
    rw [Tree.printLooking_eq_print ht, ← ParentTable.ofKinds_kindsAround]
    exact (Tree.printCarrying_eq_print t _ pos ctx).symm

namespace Samples

def unitWithBlock : Tree := .group .compilationUnit [statementInBlock]

theorem looseStatement_in_unit :
    looseStatement.print .item
        { artifact := .header, settings := {}, depth := 1, outer := [.block] } =
      looseStatement.print .item
        { artifact := .header, settings := {}, depth := 1,
          outer := [.block, .compilationUnit] } := by
  have unit : unitWithBlock.script { artifact := .header, settings := {} } .item =
      [] ++ .print 0 "" .item .level :: [] := rfl
  have block : statementInBlock.script
      { artifact := .header, settings := {}, outer := [.compilationUnit] } .item =
      [.write "", .write "\x7b\n"] ++ .print 0 "" .item .deeper ::
        [.write "\x7d", .write "\n"] := rfl
  have inUnit := Reaches.nested (.nested .root unit rfl rfl) block rfl rfl
  have facts : (ParentTable.build statementInBlock).surroundings [0] =
      (ParentTable.build unitWithBlock).surroundings [0, 0] := by decide +kernel
  exact (print_local {} .header).1 _ _ _ _ _ _ _ _ _ reaches_looseStatement inUnit rfl rfl rfl facts

end Samples

end ClassLowering
