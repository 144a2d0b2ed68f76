import ClassLowering.Naming
import ClassLowering.Printing.Context
import ClassLowering.Printing.TypeText

/-!
# Expressions

The text of a node within a line. Operands are written as they are: nothing is put in brackets that
is not in brackets in the tree.
-/

set_option autoImplicit false

namespace ClassLowering

open Text (joinWith concat)

variable (r : Row Part) (ctx : Context)

def Row.operand (index : Nat) (what : String) : Except Fault String := do
  (← r.child index what).print .inline (ctx.inside r.kind)

def Row.commaSeparated : Except Fault String := do
  return joinWith ", " (← r.printChildren .inline ctx)

def printingText : Except Fault String := do
  let items ← match ← r.child? 0 "printed items" with
    | some items => items.print .shifted (ctx.inside r.kind)
    | none => pure ""
  let ending := if (← r.text 1 "print variant") = "println" then " << std::endl" else ""
  return "std::cout" ++ items ++ ending

def newArrayText : Except Fault String := do
  let element ← (← r.child 0 "element type").tree.typeText ctx.runtime
  let dimensions ← r.child 1 "dimensions"
  let count := dimensions.tree.slots.length
  let bounds ← dimensions.print .bounds (ctx.inside r.kind)
  return "new " ++ Text.replicate count (ctx.runtime.arrayTemplate ++ "<") ++ element
    ++ Text.replicate count ">" ++ bounds

/-- Statements in the place of an expression. The terminator is written here if the statement
around the expression stands directly in a block. -/
def statementBlockText : Except Fault String := do
  let body ← r.printChildren .item ctx.deeper
  let terminator := if ctx.isTwoBelowBlock then ";" else ""
  return "(\x7b\n" ++ concat body ++ ctx.indentation ++ "\x7d)" ++ terminator

def inlineText : Except Fault String := do
  match r.kind with
  | .expression | .additiveExpression | .multiplicativeExpression | .relationalExpression
  | .equalityExpression | .logicalAndExpression | .logicalOrExpression =>
    let left ← r.operand ctx 0 "left operand"
    let operator ← r.text 1 "operator"
    let right ← r.operand ctx 2 "right operand"
    return left ++ " " ++ operator ++ " " ++ right
  | .conditionalExpression =>
    let condition ← r.operand ctx 0 "condition"
    let consequence ← r.operand ctx 1 "consequence"
    let alternative ← r.operand ctx 2 "alternative"
    return condition ++ " ? " ++ consequence ++ " : " ++ alternative
  | .prefixExpression =>
    let operator ← r.text 1 "operator"
    return operator ++ (← r.operand ctx 0 "operand")
  | .postfixExpression =>
    let operand ← r.operand ctx 0 "operand"
    return operand ++ (← r.text 1 "operator")
  | .unaryExpression =>
    let operator ← r.text 0 "operator"
    return operator ++ (← r.operand ctx 1 "operand")
  | .logicalNegationExpression => return "!" ++ (← r.operand ctx 0 "operand")
  | .castExpression =>
    let type ← (← r.child 0 "cast type").tree.typeText ctx.runtime
    return "(" ++ type ++ ") " ++ (← r.operand ctx 1 "cast operand")
  | .thisExpression => return Naming.receiver
  | .primaryIdentifier => r.text 0 "identifier"
  | .qualifiedIdentifier => r.qualifiedText
  | .type | .voidType | .primitiveType => (Tree.ofRow (r.map Part.tree)).typeText ctx.runtime
  | .selectionExpression =>
    let object ← r.operand ctx 0 "selected object"
    return object ++ "->" ++ (← r.text 1 "field name")
  | .staticSelectionExpression =>
    let record ← (← r.child 0 "class").tree.recordText
    return record ++ "::" ++ (← r.text 1 "field name")
  | .subscriptExpression =>
    let array ← r.operand ctx 0 "array"
    let index ← r.operand ctx 1 "index"
    return "(*" ++ array ++ ")[" ++ index ++ "]"
  | .callExpression =>
    let receiver ← match ← r.child? 0 "receiver" with
      | some p => do pure ((← p.print .inline (ctx.inside r.kind)) ++ "->")
      | none => pure ""
    let name ← r.text 2 "method name"
    return receiver ++ name ++ (← r.operand ctx 3 "arguments")
  | .staticCallExpression =>
    let owner ← match ← r.child? 0 "class" with
      | some p => do pure ((← p.tree.recordText) ++ "::")
      | none => pure ""
    let name ← r.text 2 "method name"
    return owner ++ name ++ (← r.operand ctx 3 "arguments")
  | .arguments => return "(" ++ (← r.commaSeparated ctx) ++ ")"
  | .expressionList => r.commaSeparated ctx
  | .printingExpression => printingText r ctx
  | .newClassExpression =>
    let record ← (← r.child 2 "class type").tree.recordText
    return record ++ "::__init" ++ (← r.operand ctx 3 "arguments")
  | .cppNewClassExpression =>
    return "new " ++ Naming.recordPath (← r.text 0 "class name") ++ "()"
  | .newArrayExpression => newArrayText r ctx
  | .newCastExpression =>
    let cast ← r.text 2 "cast prefix"
    return cast ++ (← r.operand ctx 3 "cast operand")
  | .statementBlock => statementBlockText r ctx
  | .stringLiteral => return ctx.runtime.literal ++ "(" ++ (← r.text 0 "string") ++ ")"
  | .nullLiteral => return "NULL"
  | .integerLiteral | .floatingPointLiteral | .characterLiteral | .booleanLiteral =>
    r.text 0 "literal"
  | .unknown => return concat (← r.printChildren .inline ctx)
  | _ => throw (.unexpectedKind "an expression" r.label)

/-- The operands of a stream of shifts: the members of a list, or the node itself. -/
def shiftedText : Except Fault String := do
  let items ← if r.kind = .expressionList then r.printChildren .inline ctx
    else do pure [← inlineText r ctx]
  return concat (items.map (" << " ++ ·))

def boundsText : Except Fault String := do
  return concat ((← r.printChildren .inline ctx).map fun bound => "(" ++ bound ++ ")")

end ClassLowering
