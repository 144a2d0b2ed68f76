import ClassLowering.Printing.Expression

/-!
# Statements

A statement is printed on lines of its own, indented by the depth of its context. The bodies of
loops and alternatives are always braced. A statement block that ends a statement brings its own
terminator, so that none is added after it.
-/

set_option autoImplicit false

namespace ClassLowering

open Text (joinWith concat)

variable (r : Row Part) (ctx : Context)

/-- The nested items, one level deeper, in braces. A node without slots is written `{}`. -/
def bracesText : Except Fault String := do
  if r.slots.isEmpty then return "\x7b\x7d"
  let body ← r.printChildren .item ctx.deeper
  return "\x7b\n" ++ concat body ++ ctx.indentation ++ "\x7d"

def Part.terminated (p : Part) (ctx : Context) : Except Fault String := do
  let text ← p.print .inline ctx
  return if p.tree.is .statementBlock then text else text ++ ";"

/-- The body of a loop or of an alternative, braced in any case. -/
def Part.branch (p : Part) (ctx : Context) : Except Fault String := do
  if p.tree.is .block then p.print .braces ctx
  else return "\x7b\n" ++ (← p.print .item ctx.deeper) ++ ctx.indentation ++ "\x7d"

def alternativeText : Except Fault String := do
  let inner := ctx.inside r.kind
  let condition ← r.operand ctx 0 "condition"
  let consequence ← (← r.child 1 "consequence").branch inner
  let rest ← match (r.slots[2]?).bind Slot.node? with
    | some p => do
      let text ← if p.tree.is .conditionalStatement then p.print .alternative inner
        else p.branch inner
      pure (" else " ++ text)
    | none => pure ""
  return "if (" ++ condition ++ ") " ++ consequence ++ rest

def declaratorText : Except Fault String := do
  let name ← r.text 0 "declarator name"
  match ← r.child? 2 "initializer" with
  | some value => return name ++ " = " ++ (← value.print .inline (ctx.inside r.kind))
  | none => return name

def declaratorsText : Except Fault String := do
  return joinWith ", " (← r.printChildren .declarator ctx)

def definitionsText (lead : String) : Except Fault String := do
  let names ← r.printChildren .declarator ctx
  return concat (names.map fun name => ctx.indentation ++ lead ++ name ++ ";\n")

def Row.loopClause (index : Nat) (what : String) : Except Fault String := do
  match ← r.child? index what with
  | some p => return " " ++ (← p.print .inline (ctx.inside r.kind))
  | none => return ""

/-- `start; condition; update`, where the start declares variables or is an expression. -/
def loopHeadText : Except Fault String := do
  let inner := ctx.inside r.kind
  let start ← match ← r.child? 1 "variable type" with
    | some type => do
      let type ← type.tree.typeText ctx.runtime
      pure (type ++ " " ++ (← (← r.child 2 "declarators").print .declarators inner))
    | none => do
      match ← r.child? 2 "initializer" with
      | some p => p.print .inline inner
      | none => pure ""
  let condition ← r.loopClause ctx 3 "condition"
  let update ← r.loopClause ctx 4 "update"
  return start ++ ";" ++ condition ++ ";" ++ update

def variablesText : Except Fault String := do
  let type ← (← r.child 1 "variable type").tree.typeText ctx.runtime
  let names ← (← r.child 2 "declarators").print .declarators (ctx.inside r.kind)
  return type ++ " " ++ names

def statementText : Except Fault String := do
  let inner := ctx.inside r.kind
  match r.kind with
  | .block => return ctx.indentation ++ (← bracesText r ctx) ++ "\n"
  | .expressionStatement =>
    return ctx.indentation ++ (← (← r.child 0 "expression").terminated inner) ++ "\n"
  | .returnStatement =>
    match (r.slots[0]?).bind Slot.node? with
    | some value => return ctx.indentation ++ "return " ++ (← value.terminated inner) ++ "\n"
    | none => return ctx.indentation ++ "return;\n"
  | .conditionalStatement => return ctx.indentation ++ (← alternativeText r ctx) ++ "\n"
  | .whileStatement =>
    let condition ← r.operand ctx 0 "loop condition"
    let body ← (← r.child 1 "loop body").branch inner
    return ctx.indentation ++ "while (" ++ condition ++ ") " ++ body ++ "\n"
  | .forStatement =>
    let head ← (← r.child 0 "loop control").print .loopHead inner
    let body ← (← r.child 1 "loop body").branch inner
    return ctx.indentation ++ "for (" ++ head ++ ") " ++ body ++ "\n"
  | .breakStatement => return ctx.line "break;"
  | .continueStatement => return ctx.line "continue;"
  | .emptyStatement => return ctx.line ";"
  | _ => throw (.unexpectedKind "a statement" r.label)

end ClassLowering
