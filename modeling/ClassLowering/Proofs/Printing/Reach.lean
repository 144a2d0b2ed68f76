import ClassLowering.Proofs.Printing.Run
import ClassLowering.Proofs.Tree.Parents
import ClassLowering.Tree.Build

/-!
# What printing reaches

Printing a tree carries out the script of the root, and within it the scripts of the nodes that it
prints. `Reaches` follows that run down to one occurrence and keeps what has been written on the
way. Two facts hold of everything that is reached: in a text that is printed to the end, the text of
the occurrence stands right after what was written before it, and the context carries the kinds of
the nodes around it, which are those that the `ParentTable` of the whole tree records.
-/

set_option autoImplicit false

namespace ClassLowering

namespace Tree

theorem print_around {t c : Tree} {pos pos' : Position} {ctx : Context} {first rest : Script}
    {index : Nat} {what : String} {shift : Shift}
    (steps : t.script ctx pos = first ++ .print index what pos' shift :: rest)
    (hc : t.slots[index]? = some (.node c)) : t.print pos ctx = (do
      let before ← first.run t.parts ctx
      let own ← c.print pos' ((ctx.inside t.kind).moved shift)
      let after ← rest.run t.parts ctx
      return before ++ own ++ after) := by
  rw [print_eq_run, steps, Script.run_append, Script.run, child_parts hc what]
  simp [Part.print, String.append_assoc]

end Tree

theorem render_eq_ok {settings : Settings} {artifact : Artifact} {root : Tree} {text : String} :
    render settings artifact root = .ok text ↔
      ∃ body, root.print .item { artifact, settings } = .ok body ∧
        preamble artifact settings ++ body = text := by
  rw [render, bind_eq_ok]
  simp only [pure_eq_ok]

/-- Printing `root` from the context `start` comes to an occurrence, which it prints at a position
and in a context after the text `before`. -/
inductive Reaches (root : Tree) (start : Context) :
    (before : String) → Occurrence → Position → Context → Prop
  | root : Reaches root start "" ⟨[], root⟩ .item start
  | nested {before written what : String} {o : Occurrence} {pos pos' : Position} {ctx : Context}
      {first rest : Script} {index : Nat} {shift : Shift} {child : Tree} :
      Reaches root start before o pos ctx →
      o.tree.script ctx pos = first ++ .print index what pos' shift :: rest →
      first.run o.tree.parts ctx = .ok written →
      o.tree.slots[index]? = some (.node child) →
      Reaches root start (before ++ written) ⟨o.path ++ [index], child⟩ pos'
        ((ctx.inside o.tree.kind).moved shift)

/-- What a node can ask about the nodes around it. -/
structure Surroundings where
  inClassBody : Bool
  inBlock : Bool
  twoBelowBlock : Bool
  deriving DecidableEq

def ParentTable.surroundings (table : ParentTable) (path : Path) : Surroundings where
  inClassBody := (table.parent? path).any (·.tree.is .classBody)
  inBlock := (table.parent? path).any (·.tree.is .block)
  twoBelowBlock := (table.grandparent? path).any (·.tree.is .block)

def Surroundings.ofKinds (outer : List Kind) : Surroundings where
  inClassBody := outer[0]? = some .classBody
  inBlock := outer[0]? = some .block
  twoBelowBlock := outer[1]? = some .block

namespace Context

@[simp] theorem outer_moved (ctx : Context) (shift : Shift) :
    (ctx.moved shift).outer = ctx.outer := by
  cases shift <;> rfl

@[simp] theorem artifact_moved (ctx : Context) (shift : Shift) :
    (ctx.moved shift).artifact = ctx.artifact := by
  cases shift <;> rfl

@[simp] theorem settings_moved (ctx : Context) (shift : Shift) :
    (ctx.moved shift).settings = ctx.settings := by
  cases shift <;> rfl

end Context

namespace Reaches

variable {root : Tree} {start ctx : Context} {before : String} {o : Occurrence} {pos : Position}

theorem isIn (h : Reaches root start before o pos ctx) : o.IsIn root := by
  induction h with
  | root => rfl
  | nested _ _ _ hc ih => exact Tree.at?_concat ih hc

theorem artifact_eq (h : Reaches root start before o pos ctx) : ctx.artifact = start.artifact := by
  induction h with
  | root => rfl
  | nested _ _ _ _ ih => simpa [Context.inside] using ih

theorem settings_eq (h : Reaches root start before o pos ctx) : ctx.settings = start.settings := by
  induction h with
  | root => rfl
  | nested _ _ _ _ ih => simpa [Context.inside] using ih

/-- What is reached prints its text after what was written before it. -/
theorem text_eq (h : Reaches root start before o pos ctx) {text : String}
    (printed : root.print .item start = .ok text) :
    ∃ own after, o.tree.print pos ctx = .ok own ∧ text = before ++ own ++ after := by
  induction h with
  | root => exact ⟨text, "", printed, by simp⟩
  | nested _ steps ran hc ih =>
    obtain ⟨own, after, hown, htext⟩ := ih
    rw [Tree.print_around steps hc] at hown
    obtain ⟨written, hw, hown⟩ := bind_eq_ok.mp hown
    obtain ⟨inner, hinner, hown⟩ := bind_eq_ok.mp hown
    obtain ⟨tail, -, hown⟩ := bind_eq_ok.mp hown
    obtain rfl := Except.ok.inj (ran.symm.trans hw)
    refine ⟨inner, tail ++ after, hinner, ?_⟩
    rw [htext, ← pure_eq_ok.mp hown]
    simp [String.append_assoc]

theorem error_eq (h : Reaches root start before o pos ctx) {e : Fault}
    (failed : o.tree.print pos ctx = .error e) : root.print .item start = .error e := by
  induction h with
  | root => exact failed
  | nested _ steps ran hc ih =>
    apply ih
    rw [Tree.print_around steps hc, ran, ok_bind, failed, error_bind]

/-- The context carries what the table of parents of the whole tree records. -/
theorem outer_eq (h : Reaches root start before o pos ctx) (outermost : start.outer = []) :
    ctx.outer[0]? = ((ParentTable.build root).parent? o.path).map (·.tree.kind) ∧
      ctx.outer[1]? = ((ParentTable.build root).grandparent? o.path).map (·.tree.kind) := by
  induction h with
  | root => simp [outermost]
  | nested reached _ _ hc ih =>
    rw [ParentTable.parent?_concat reached.isIn hc, ParentTable.grandparent?_concat reached.isIn hc]
    exact ⟨by simp [Context.inside], by simpa [Context.inside] using ih.1⟩

theorem surroundings_eq (h : Reaches root start before o pos ctx) (outermost : start.outer = []) :
    (ParentTable.build root).surroundings o.path = Surroundings.ofKinds ctx.outer := by
  obtain ⟨hp, hg⟩ := h.outer_eq outermost
  rw [ParentTable.surroundings, Surroundings.ofKinds, hp, hg]
  cases (ParentTable.build root).parent? o.path <;>
    cases (ParentTable.build root).grandparent? o.path <;> simp [Tree.is]

end Reaches

namespace Samples

def emptyStatementBlock : Tree := .node .statementBlock []

def looseStatement : Tree := .group .expressionStatement [emptyStatementBlock]

def statementInBlock : Tree := .group .block [looseStatement]

theorem reaches_looseStatement :
    Reaches statementInBlock { artifact := .header, settings := {} } "\x7b\n" ⟨[0], looseStatement⟩
      .item { artifact := .header, settings := {}, depth := 1, outer := [.block] } := by
  have steps : statementInBlock.script { artifact := .header, settings := {} } .item =
      [.write "", .write "\x7b\n"] ++ .print 0 "" .item .deeper ::
        [.write "\x7d", .write "\n"] := rfl
  exact .nested .root steps rfl rfl

end Samples

end ClassLowering
