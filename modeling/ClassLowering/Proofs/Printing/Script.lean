import ClassLowering.Printing.Render
import ClassLowering.Proofs.Tree.Row

/-!
# Printing as a script

What a node prints is decided from its own slots alone: some texts, and in between the places where
a nested node is printed, each at a position and in a context. `Row.script` is that decision as a
list of steps, with nothing printed yet. A script ends early at a slot that cannot be read, and the
step that stands there is the fault.

A nested node is named by its slot, and its context is the context inside the node, moved by a
`Shift`. So a script says nothing about what the nested nodes are, beyond the few questions that a
rule asks of them.
-/

set_option autoImplicit false

namespace ClassLowering

open Text (joinWith)

/-- How the context of a nested node differs from the context directly inside the node. -/
inductive Shift where
  | level
  | deeper
  | defining (className : String)
  deriving DecidableEq

def Context.moved (ctx : Context) : Shift → Context
  | .level => ctx
  | .deeper => ctx.deeper
  | .defining className => ctx.defining className

inductive Step where
  | write (s : String)
  | fail (e : Fault)
  /-- Prints the node in a slot, which is there or missed under the name `what`. -/
  | print (index : Nat) (what : String) (pos : Position) (shift : Shift)
  deriving DecidableEq

def Step.operand (index : Nat) (what : String) : Step := .print index what .inline .level

abbrev Script := List Step

namespace Script

def reading {α : Type} (x : Except Fault α) (rest : α → Script) : Script :=
  match x with
  | .ok a => rest a
  | .error e => [.fail e]

def writing (x : Except Fault String) : Script := reading x fun s => [.write s]

end Script

namespace Row

def quiet (r : Row Tree) : Row Part := r.map fun t => (t, fun _ _ => .ok "")

end Row

section Scripts

open Script

variable (r : Row Tree) (ctx : Context)

def Row.printSteps (pos : Position) (shift : Shift) : Script :=
  r.nodeIndexes.map fun index => .print index "" pos shift

def Row.commaSteps (pos : Position) : Script :=
  (r.printSteps pos .level).intersperse (.write ", ")

/-! ## Expressions -/

def printingScript : Script :=
  .write "std::cout" :: (reading (r.child? 0 "printed items") fun
      | some _ => [.print 0 "printed items" .shifted .level]
      | none => [])
    ++ reading (r.text 1 "print variant") fun variant =>
      [.write (if variant = "println" then " << std::endl" else "")]

def newArrayScript : Script :=
  reading (do (← r.child 0 "element type").typeText ctx.runtime) fun element =>
  reading (r.child 1 "dimensions") fun dimensions =>
    let count := dimensions.slots.length
    [.write ("new " ++ Text.replicate count (ctx.runtime.arrayTemplate ++ "<") ++ element
        ++ Text.replicate count ">"),
      .print 1 "dimensions" .bounds .level]

def statementBlockScript : Script :=
  .write "(\x7b\n" :: r.printSteps .item .deeper
    ++ [.write (ctx.indentation ++ "\x7d)" ++ if ctx.isTwoBelowBlock then ";" else "")]

def staticOwnerScript : Script :=
  reading (r.child? 0 "class") fun
    | some t => reading t.recordText fun record => [.write (record ++ "::")]
    | none => []

def inlineScript : Script :=
  match r.kind with
  | .expression | .additiveExpression | .multiplicativeExpression | .relationalExpression
  | .equalityExpression | .logicalAndExpression | .logicalOrExpression =>
    .operand 0 "left operand" :: reading (r.text 1 "operator") fun operator =>
      [.write (" " ++ operator ++ " "), .operand 2 "right operand"]
  | .conditionalExpression =>
    [.operand 0 "condition", .write " ? ", .operand 1 "consequence", .write " : ",
      .operand 2 "alternative"]
  | .prefixExpression =>
    reading (r.text 1 "operator") fun operator => [.write operator, .operand 0 "operand"]
  | .postfixExpression =>
    .operand 0 "operand" :: writing (r.text 1 "operator")
  | .unaryExpression =>
    reading (r.text 0 "operator") fun operator => [.write operator, .operand 1 "operand"]
  | .logicalNegationExpression => [.write "!", .operand 0 "operand"]
  | .castExpression =>
    reading (do (← r.child 0 "cast type").typeText ctx.runtime) fun type =>
      [.write ("(" ++ type ++ ") "), .operand 1 "cast operand"]
  | .thisExpression => [.write Naming.receiver]
  | .primaryIdentifier => writing (r.text 0 "identifier")
  | .qualifiedIdentifier => writing r.qualifiedText
  | .type | .voidType | .primitiveType => writing ((Tree.ofRow r).typeText ctx.runtime)
  | .selectionExpression =>
    [.operand 0 "selected object", .write "->"] ++ writing (r.text 1 "field name")
  | .staticSelectionExpression =>
    reading (do (← r.child 0 "class").recordText) fun record =>
      .write (record ++ "::") :: writing (r.text 1 "field name")
  | .subscriptExpression =>
    [.write "(*", .operand 0 "array", .write ")[", .operand 1 "index", .write "]"]
  | .callExpression =>
    (reading (r.child? 0 "receiver") fun
      | some _ => [.operand 0 "receiver", .write "->"]
      | none => [])
    ++ writing (r.text 2 "method name") ++ [.operand 3 "arguments"]
  | .staticCallExpression =>
    staticOwnerScript r ++ writing (r.text 2 "method name") ++ [.operand 3 "arguments"]
  | .arguments => .write "(" :: r.commaSteps .inline ++ [.write ")"]
  | .expressionList => r.commaSteps .inline
  | .printingExpression => printingScript r
  | .newClassExpression =>
    reading (do (← r.child 2 "class type").recordText) fun record =>
      [.write (record ++ "::__init"), .operand 3 "arguments"]
  | .cppNewClassExpression =>
    reading (r.text 0 "class name") fun name => [.write ("new " ++ Naming.recordPath name ++ "()")]
  | .newArrayExpression => newArrayScript r ctx
  | .newCastExpression =>
    writing (r.text 2 "cast prefix") ++ [.operand 3 "cast operand"]
  | .statementBlock => statementBlockScript r ctx
  | .stringLiteral =>
    reading (r.text 0 "string") fun s => [.write (ctx.runtime.literal ++ "(" ++ s ++ ")")]
  | .nullLiteral => [.write "NULL"]
  | .integerLiteral | .floatingPointLiteral | .characterLiteral | .booleanLiteral =>
    writing (r.text 0 "literal")
  | .unknown => r.printSteps .inline .level
  | _ => [.fail (.unexpectedKind "an expression" r.label)]

def shiftedScript : Script :=
  if r.kind = .expressionList then
    (r.printSteps .inline .level).flatMap fun item => [.write " << ", item]
  else .write " << " :: inlineScript r ctx

def boundsScript : Script :=
  (r.printSteps .inline .level).flatMap fun bound => [.write "(", bound, .write ")"]

/-! ## Statements -/

def bracesScript : Script :=
  if r.slots.isEmpty then [.write "\x7b\x7d"]
  else .write "\x7b\n" :: r.printSteps .item .deeper ++ [.write (ctx.indentation ++ "\x7d")]

def Tree.terminatorSteps (expression : Tree) : Script :=
  if expression.is .statementBlock then [] else [.write ";"]

def Tree.branchSteps (body : Tree) (index : Nat) (what : String) : Script :=
  if body.is .block then [.print index what .braces .level]
  else [.write "\x7b\n", .print index what .item .deeper, .write (ctx.indentation ++ "\x7d")]

def Context.elseSteps : Option Tree → Script
  | some rest => .write " else " ::
    if rest.is .conditionalStatement then [.print 2 "" .alternative .level]
    else rest.branchSteps ctx 2 ""
  | none => []

def alternativeScript : Script :=
  [.write "if (", .operand 0 "condition", .write ") "]
    ++ reading (r.child 1 "consequence") fun consequence =>
      consequence.branchSteps ctx 1 "consequence"
      ++ ctx.elseSteps ((r.slots[2]?).bind Slot.node?)

def declaratorScript : Script :=
  reading (r.text 0 "declarator name") fun name =>
  reading (r.child? 2 "initializer") fun
    | some _ => [.write (name ++ " = "), .operand 2 "initializer"]
    | none => [.write name]

def definitionsScript (lead : String) : Script :=
  (r.printSteps .declarator .level).flatMap fun name =>
    [.write (ctx.indentation ++ lead), name, .write ";\n"]

def Row.loopClauseSteps (index : Nat) (what : String) : Script :=
  reading (r.child? index what) fun
    | some _ => [.write " ", .operand index what]
    | none => []

def loopStartScript : Script :=
  reading (r.child? 1 "variable type") fun
    | some type => reading (type.typeText ctx.runtime) fun text =>
      [.write (text ++ " "), .print 2 "declarators" .declarators .level]
    | none => reading (r.child? 2 "initializer") fun
      | some _ => [.operand 2 "initializer"]
      | none => []

def loopHeadScript : Script :=
  loopStartScript r ctx
    ++ .write ";" :: r.loopClauseSteps 3 "condition"
    ++ .write ";" :: r.loopClauseSteps 4 "update"

def variablesScript : Script :=
  reading (do (← r.child 1 "variable type").typeText ctx.runtime) fun type =>
    [.write (type ++ " "), .print 2 "declarators" .declarators .level]

def Context.returnSteps : Option Tree → Script
  | some value =>
    [.write (ctx.indentation ++ "return "), .operand 0 ""] ++ value.terminatorSteps ++ [.write "\n"]
  | none => [.write (ctx.indentation ++ "return;\n")]

def statementScript : Script :=
  match r.kind with
  | .block => .write ctx.indentation :: bracesScript r ctx ++ [.write "\n"]
  | .expressionStatement =>
    .write ctx.indentation :: reading (r.child 0 "expression") fun expression =>
      .operand 0 "expression" :: expression.terminatorSteps ++ [.write "\n"]
  | .returnStatement => ctx.returnSteps ((r.slots[0]?).bind Slot.node?)
  | .conditionalStatement => .write ctx.indentation :: alternativeScript r ctx ++ [.write "\n"]
  | .whileStatement =>
    [.write (ctx.indentation ++ "while ("), .operand 0 "loop condition", .write ") "]
      ++ reading (r.child 1 "loop body") fun body =>
        body.branchSteps ctx 1 "loop body" ++ [.write "\n"]
  | .forStatement =>
    [.write (ctx.indentation ++ "for ("), .print 0 "loop control" .loopHead .level, .write ") "]
      ++ reading (r.child 1 "loop body") fun body =>
        body.branchSteps ctx 1 "loop body" ++ [.write "\n"]
  | .breakStatement => [.write (ctx.line "break;")]
  | .continueStatement => [.write (ctx.line "continue;")]
  | .emptyStatement => [.write (ctx.line ";")]
  | _ => [.fail (.unexpectedKind "a statement" r.label)]

/-! ## Declarations -/

def namespaceScript : Script :=
  reading (r.text 0 "name") fun name =>
    .write (ctx.lines ["namespace " ++ name ++ " \x7b", ""]) :: r.printSteps .item .deeper
      ++ [.write (ctx.lines ["\x7d", ""])]

def classScript : Script :=
  reading (r.text 1 "class name") fun name =>
  reading (r.child 5 "class body") fun _ =>
    match ctx.artifact with
    | .header => [.write (ctx.line ("struct " ++ Naming.recordPath name ++ " \x7b")),
        .print 5 "class body" .item .deeper, .write (ctx.lines ["\x7d;", ""])]
    | .implementation => [.print 5 "class body" .item (.defining name)]
    | .entryPoint => []

def memberFieldScript : Script :=
  reading (r.child? 0 "modifiers") fun modifiers =>
  reading (do (← r.child 1 "field type").typeText ctx.runtime) fun type =>
  reading (r.child 2 "declarators") fun declarators =>
    let isStatic := modifiers.any Tree.hasStatic
    match ctx.artifact with
    | .header =>
      reading (declarators.children.mapM fun d => d.row.text 0 "declarator name") fun names =>
        [.write (ctx.line ((if isStatic then "static " else "") ++ type ++ " "
          ++ joinWith ", " names ++ ";"))]
    | .implementation =>
      if isStatic then
        reading (scopePath ctx) fun path =>
          [.print 2 "declarators" (.definitions (type ++ " " ++ path ++ "::")) .level]
      else []
    | .entryPoint => []

def fieldScript : Script :=
  if ctx.isMember then memberFieldScript r ctx
  else .write ctx.indentation :: variablesScript r ctx ++ [.write ";\n"]

def Row.constructorBodySteps : Script :=
  reading (r.child? 5 "constructor body") fun
    | some _ => [.write " ", .print 5 "constructor body" .braces .level]
    | none => [.write ";"]

def constructorScript : Script :=
  if ctx.artifact ≠ .header then []
  else
    reading (r.text 2 "constructor name") fun name =>
    reading (r.child? 3 "parameters") fun parameters =>
    reading (match parameters with
      | some t => parametersText ctx.runtime t
      | none => .ok "()") fun parameters =>
    reading (r.child? 4 "initializations") fun initializations =>
    reading (match initializations with
      | some t => initializationsText t
      | none => .ok "") fun initializations =>
      .write (ctx.indentation ++ Naming.recordPath name ++ parameters ++ initializations)
        :: r.constructorBodySteps ++ [.write "\n\n"]

def Row.methodSteps (result name parameters : String) : Script :=
  reading (r.child? 7 "method body") fun body =>
    match ctx.artifact with
    | .header =>
      reading (r.child? 0 "modifiers") fun modifiers =>
        [.write (ctx.line ((if modifiers.any Tree.hasStatic then "static " else "") ++ result ++ " "
          ++ name ++ parameters ++ ";"))]
    | .implementation =>
      match body with
      | some _ =>
        reading (scopePath ctx) fun path =>
          [.write (ctx.indentation ++ result ++ " " ++ path ++ "::" ++ name ++ parameters ++ " "),
            .print 7 "method body" .braces .level, .write "\n\n"]
      | none => []
    | .entryPoint => []

def methodScript : Script :=
  reading (do (← r.child 2 "return type").typeText ctx.runtime) fun result =>
  reading (r.text 3 "method name") fun name =>
  reading (do parametersText ctx.runtime (← r.child 4 "parameters")) fun parameters =>
    r.methodSteps ctx result name parameters

def itemScript : Script :=
  match r.kind with
  | .compilationUnit | .classBody | .unknown => r.printSteps .item .level
  | .forwardDeclarations | .typeSpecifiers => r.printSteps .item .level ++ [.write "\n"]
  | .packageDeclaration | .importDeclaration | .modifiers | .modifier => []
  | .namespaceDeclaration => namespaceScript r ctx
  | .forwardDeclaration => writing (forwardDeclarationText r.quiet ctx)
  | .typeSpecifier => writing (typeSpecifierText r.quiet ctx)
  | .classDeclaration => classScript r ctx
  | .vtableDeclaration => writing (dispatchTableText r.quiet ctx)
  | .fieldDeclaration => fieldScript r ctx
  | .constructorDeclaration => constructorScript r ctx
  | .methodDeclaration => methodScript r ctx
  | .mainMethodDefinition => writing (mainText r.quiet ctx)
  | .classMethodDefinition => writing (classObjectText r.quiet ctx)
  | kind =>
    if kind.isStatement then statementScript r ctx
    else .write ctx.indentation :: inlineScript r ctx ++ [.write "\n"]

/-- The steps of printing a node. -/
def Row.script : Position → Script
  | .item => itemScript r ctx
  | .inline => inlineScript r ctx
  | .braces => bracesScript r ctx
  | .alternative => alternativeScript r ctx
  | .loopHead => loopHeadScript r ctx
  | .declarator => declaratorScript r
  | .declarators => r.commaSteps .declarator
  | .definitions lead => definitionsScript r ctx lead
  | .shifted => shiftedScript r ctx
  | .bounds => boundsScript r

end Scripts

end ClassLowering
