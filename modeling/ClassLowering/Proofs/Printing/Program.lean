import ClassLowering.Printing.Render
import ClassLowering.Proofs.Tree.Row

/-!
# Printing as a program

A printer that writes as it goes has three things to change: what has been written, the depth, and
the class whose members are being defined. `Row.program` is what it does for one node, as a list of
instructions that change one of them each. Nothing changes the depth or the class but the
instructions that say so, and nothing takes such a change back but another instruction: the depth
goes up before the items of a block and down after the last of them, and the class is replaced
before the body of a class and put back after it.

Instructions do not know the depth. They name a line, and the indentation is that of the moment.
-/

set_option autoImplicit false

namespace ClassLowering

open Text (joinWith)

inductive Instruction where
  | push (s : String)
  /-- Writes the indentation and then a text. -/
  | write (s : String)
  /-- Writes a whole line; an empty one is not indented. -/
  | line (s : String)
  | indent
  | outdent
  /-- Replaces the class whose members are being defined, and keeps the one before. -/
  | define (className : String)
  | restore
  | fail (e : Fault)
  /-- Prints the node in a slot, which is there or missed under the name `what`. -/
  | visit (index : Nat) (what : String) (pos : Position)
  deriving DecidableEq

def Instruction.operand (index : Nat) (what : String) : Instruction := .visit index what .inline

abbrev Program := List Instruction

namespace Program

def reading {α : Type} (x : Except Fault α) (rest : α → Program) : Program :=
  match x with
  | .ok a => rest a
  | .error e => [.fail e]

def pushing (x : Except Fault String) : Program := reading x fun s => [.push s]

end Program

section Programs

open Program Instruction

variable (r : Row Tree) (ctx : Context)

def Row.visits (pos : Position) : Program := r.nodeIndexes.map fun index => visit index "" pos

def Row.commaVisits (pos : Position) : Program := (r.visits pos).intersperse (push ", ")

/-! ## Expressions -/

def printingProgram : Program :=
  push "std::cout" :: (reading (r.child? 0 "printed items") fun
      | some _ => [visit 0 "printed items" .shifted]
      | none => [])
    ++ reading (r.text 1 "print variant") fun variant =>
      if variant = "println" then [push " << std::endl"] else []

def newArrayProgram : Program :=
  reading (do (← r.child 0 "element type").typeText ctx.runtime) fun element =>
  reading (r.child 1 "dimensions") fun dimensions =>
    let count := dimensions.slots.length
    [push "new ", push (Text.replicate count (ctx.runtime.arrayTemplate ++ "<")), push element,
      push (Text.replicate count ">"), visit 1 "dimensions" .bounds]

def statementBlockProgram : Program :=
  [push "(\x7b\n", indent] ++ r.visits .item ++ [outdent, write "\x7d)"]
    ++ if ctx.isTwoBelowBlock then [push ";"] else []

def staticOwnerProgram : Program :=
  reading (r.child? 0 "class") fun
    | some t => reading t.recordText fun record => [push record, push "::"]
    | none => []

def inlineProgram : Program :=
  match r.kind with
  | .expression | .additiveExpression | .multiplicativeExpression | .relationalExpression
  | .equalityExpression | .logicalAndExpression | .logicalOrExpression =>
    operand 0 "left operand" :: reading (r.text 1 "operator") fun operator =>
      [push (" " ++ operator ++ " "), operand 2 "right operand"]
  | .conditionalExpression =>
    [operand 0 "condition", push " ? ", operand 1 "consequence", push " : ",
      operand 2 "alternative"]
  | .prefixExpression =>
    reading (r.text 1 "operator") fun operator => [push operator, operand 0 "operand"]
  | .postfixExpression =>
    operand 0 "operand" :: pushing (r.text 1 "operator")
  | .unaryExpression =>
    reading (r.text 0 "operator") fun operator => [push operator, operand 1 "operand"]
  | .logicalNegationExpression => [push "!", operand 0 "operand"]
  | .castExpression =>
    reading (do (← r.child 0 "cast type").typeText ctx.runtime) fun type =>
      [push ("(" ++ type ++ ") "), operand 1 "cast operand"]
  | .thisExpression => [push Naming.receiver]
  | .primaryIdentifier => pushing (r.text 0 "identifier")
  | .qualifiedIdentifier => pushing r.qualifiedText
  | .type | .voidType | .primitiveType => pushing ((Tree.ofRow r).typeText ctx.runtime)
  | .selectionExpression =>
    [operand 0 "selected object", push "->"] ++ pushing (r.text 1 "field name")
  | .staticSelectionExpression =>
    reading (do (← r.child 0 "class").recordText) fun record =>
      [push record, push "::"] ++ pushing (r.text 1 "field name")
  | .subscriptExpression =>
    [push "(*", operand 0 "array", push ")[", operand 1 "index", push "]"]
  | .callExpression =>
    (reading (r.child? 0 "receiver") fun
      | some _ => [operand 0 "receiver", push "->"]
      | none => [])
    ++ pushing (r.text 2 "method name") ++ [operand 3 "arguments"]
  | .staticCallExpression =>
    staticOwnerProgram r ++ pushing (r.text 2 "method name") ++ [operand 3 "arguments"]
  | .arguments => push "(" :: r.commaVisits .inline ++ [push ")"]
  | .expressionList => r.commaVisits .inline
  | .printingExpression => printingProgram r
  | .newClassExpression =>
    reading (do (← r.child 2 "class type").recordText) fun record =>
      [push record, push "::__init", operand 3 "arguments"]
  | .cppNewClassExpression =>
    reading (r.text 0 "class name") fun name => [push ("new " ++ Naming.recordPath name ++ "()")]
  | .newArrayExpression => newArrayProgram r ctx
  | .newCastExpression =>
    pushing (r.text 2 "cast prefix") ++ [operand 3 "cast operand"]
  | .statementBlock => statementBlockProgram r ctx
  | .stringLiteral =>
    reading (r.text 0 "string") fun s => [push (ctx.runtime.literal ++ "(" ++ s ++ ")")]
  | .nullLiteral => [push "NULL"]
  | .integerLiteral | .floatingPointLiteral | .characterLiteral | .booleanLiteral =>
    pushing (r.text 0 "literal")
  | .unknown => r.visits .inline
  | _ => [fail (.unexpectedKind "an expression" r.label)]

def shiftedProgram : Program :=
  if r.kind = .expressionList then
    (r.visits .inline).flatMap fun item => [push " << ", item]
  else push " << " :: inlineProgram r ctx

def boundsProgram : Program :=
  (r.visits .inline).flatMap fun bound => [push "(", bound, push ")"]

/-! ## Statements -/

def bracesProgram : Program :=
  if r.slots.isEmpty then [push "\x7b\x7d"]
  else [push "\x7b\n", indent] ++ r.visits .item ++ [outdent, write "\x7d"]

def Tree.terminatorProgram (expression : Tree) : Program :=
  if expression.is .statementBlock then [] else [push ";"]

def Tree.branchProgram (body : Tree) (index : Nat) (what : String) : Program :=
  if body.is .block then [visit index what .braces]
  else [push "\x7b\n", indent, visit index what .item, outdent, write "\x7d"]

def elseProgram : Option Tree → Program
  | some rest => push " else " ::
    if rest.is .conditionalStatement then [visit 2 "" .alternative] else rest.branchProgram 2 ""
  | none => []

def alternativeProgram : Program :=
  [push "if (", operand 0 "condition", push ") "]
    ++ reading (r.child 1 "consequence") fun consequence =>
      consequence.branchProgram 1 "consequence" ++ elseProgram ((r.slots[2]?).bind Slot.node?)

def declaratorProgram : Program :=
  reading (r.text 0 "declarator name") fun name =>
    push name :: reading (r.child? 2 "initializer") fun
      | some _ => [push " = ", operand 2 "initializer"]
      | none => []

def definitionsProgram (lead : String) : Program :=
  (r.visits .declarator).flatMap fun name => [write lead, name, push ";\n"]

def Row.loopClauseProgram (index : Nat) (what : String) : Program :=
  reading (r.child? index what) fun
    | some _ => [push " ", .operand index what]
    | none => []

def loopStartProgram : Program :=
  reading (r.child? 1 "variable type") fun
    | some type => reading (type.typeText ctx.runtime) fun text =>
      [push text, push " ", visit 2 "declarators" .declarators]
    | none => reading (r.child? 2 "initializer") fun
      | some _ => [operand 2 "initializer"]
      | none => []

def loopHeadProgram : Program :=
  loopStartProgram r ctx
    ++ push ";" :: r.loopClauseProgram 3 "condition"
    ++ push ";" :: r.loopClauseProgram 4 "update"

def variablesProgram : Program :=
  reading (do (← r.child 1 "variable type").typeText ctx.runtime) fun type =>
    [push type, push " ", visit 2 "declarators" .declarators]

def returnProgram : Option Tree → Program
  | some value => [push " ", operand 0 ""] ++ value.terminatorProgram
  | none => [push ";"]

def statementProgram : Program :=
  match r.kind with
  | .block => write "" :: bracesProgram r ++ [push "\n"]
  | .expressionStatement =>
    reading (r.child 0 "expression") fun expression =>
      [write "", operand 0 "expression"] ++ expression.terminatorProgram ++ [push "\n"]
  | .returnStatement =>
    write "return" :: returnProgram ((r.slots[0]?).bind Slot.node?) ++ [push "\n"]
  | .conditionalStatement => write "" :: alternativeProgram r ++ [push "\n"]
  | .whileStatement =>
    [write "while (", operand 0 "loop condition", push ") "]
      ++ reading (r.child 1 "loop body") fun body =>
        body.branchProgram 1 "loop body" ++ [push "\n"]
  | .forStatement =>
    [write "for (", visit 0 "loop control" .loopHead, push ") "]
      ++ reading (r.child 1 "loop body") fun body =>
        body.branchProgram 1 "loop body" ++ [push "\n"]
  | .breakStatement => [line "break;"]
  | .continueStatement => [line "continue;"]
  | .emptyStatement => [line ";"]
  | _ => [fail (.unexpectedKind "a statement" r.label)]

/-! ## Declarations -/

def namespaceProgram : Program :=
  reading (r.text 0 "name") fun name =>
    [line ("namespace " ++ name ++ " \x7b"), line "", indent] ++ r.visits .item
      ++ [outdent, line "\x7d", line ""]

def forwardDeclarationProgram : Program :=
  reading (r.text 0 "keyword") fun keyword =>
  reading (r.text 1 "name") fun name => [line (keyword ++ " " ++ name ++ ";")]

def typeSpecifierProgram : Program :=
  reading (r.text 0 "keyword") fun keyword =>
  reading (r.text 1 "target type") fun target =>
  reading (r.text 2 "alias") fun name => [line (keyword ++ " " ++ target ++ " " ++ name ++ ";")]

def classProgram : Program :=
  reading (r.text 1 "class name") fun name =>
  reading (r.child 5 "class body") fun _ =>
    match ctx.artifact with
    | .header => [line ("struct " ++ Naming.recordPath name ++ " \x7b"), indent,
        visit 5 "class body" .item, outdent, line "\x7d;", line ""]
    | .implementation => [define name, visit 5 "class body" .item, restore]
    | .entryPoint => []

def tableProgram (record : String) (slots : List SlotText) : Program :=
  [line ("struct " ++ record ++ "_VT \x7b"), indent, line "Class __is_a;"]
    ++ (slots.map SlotText.member).map line ++ [line "", line (record ++ "_VT()")]
    ++ (initializerLines ": "
      (("__is_a(" ++ record ++ "::__class())") :: slots.map SlotText.initializer)).map line
    ++ [line "\x7b", line "\x7d", outdent, line "\x7d;", line ""]

def dispatchTableProgram : Program :=
  if ctx.artifact ≠ .header then []
  else
    reading (r.text 0 "class name") fun className =>
    reading (r.child 1 "vtable entries") fun entries =>
    reading (entries.children.mapM fun entry => slotText ctx.runtime className entry.row)
      fun slots => tableProgram (Naming.recordPath className) slots

def memberFieldProgram : Program :=
  reading (r.child? 0 "modifiers") fun modifiers =>
  reading (do (← r.child 1 "field type").typeText ctx.runtime) fun type =>
  reading (r.child 2 "declarators") fun declarators =>
    let isStatic := modifiers.any Tree.hasStatic
    match ctx.artifact with
    | .header =>
      reading (declarators.children.mapM fun d => d.row.text 0 "declarator name") fun names =>
        [line ((if isStatic then "static " else "") ++ type ++ " " ++ joinWith ", " names ++ ";")]
    | .implementation =>
      if isStatic then
        reading (scopePath ctx) fun path =>
          [visit 2 "declarators" (.definitions (type ++ " " ++ path ++ "::"))]
      else []
    | .entryPoint => []

def fieldProgram : Program :=
  if ctx.isMember then memberFieldProgram r ctx
  else write "" :: variablesProgram r ctx ++ [push ";\n"]

def Row.constructorBodyProgram : Program :=
  reading (r.child? 5 "constructor body") fun
    | some _ => [push " ", visit 5 "constructor body" .braces, push "\n"]
    | none => [push ";\n"]

def constructorProgram : Program :=
  if ctx.artifact ≠ .header then []
  else
    reading (r.text 2 "constructor name") fun name =>
    reading (r.child? 3 "parameters") fun parameters =>
    reading (match parameters with
      | some t => parametersText ctx.runtime t
      | none => .ok "()") fun parameters =>
      write (Naming.recordPath name ++ parameters)
        :: reading (r.child? 4 "initializations") fun initializations =>
          reading (match initializations with
            | some t => initializationsText t
            | none => .ok "") fun initializations =>
            push initializations :: r.constructorBodyProgram ++ [line ""]

def Row.methodProgram (result name parameters : String) : Program :=
  reading (r.child? 7 "method body") fun body =>
    match ctx.artifact with
    | .header =>
      reading (r.child? 0 "modifiers") fun modifiers =>
        [line ((if modifiers.any Tree.hasStatic then "static " else "") ++ result ++ " "
          ++ name ++ parameters ++ ";")]
    | .implementation =>
      match body with
      | some _ =>
        reading (scopePath ctx) fun path =>
          [write (result ++ " " ++ path ++ "::" ++ name ++ parameters ++ " "),
            visit 7 "method body" .braces, push "\n", line ""]
      | none => []
    | .entryPoint => []

def methodProgram : Program :=
  reading (do (← r.child 2 "return type").typeText ctx.runtime) fun result =>
  reading (r.text 3 "method name") fun name =>
  reading (do parametersText ctx.runtime (← r.child 4 "parameters")) fun parameters =>
    r.methodProgram ctx result name parameters

def mainProgram : Program :=
  reading (r.text 0 "main class location") fun location =>
    let runtime := ctx.runtime
    [line "int main(int argc, char* argv[]) \x7b", indent,
      line (runtime.arrayType ++ "<String> args = new " ++ runtime.arrayTemplate
        ++ "<String>(argc - 1);"),
      line "", line "for (int32_t i = 1; i < argc; i++) \x7b", indent,
      line ("(*args)[i - 1] = " ++ runtime.literal ++ "(argv[i]);"),
      outdent, line "\x7d", line "", line (Naming.recordPath location ++ "::main(args);"),
      line "", line "return 0;", outdent, line "\x7d"]

def classObjectProgram : Program :=
  if ctx.artifact = .header then []
  else
    reading (r.text 0 "qualified class name") fun qualified =>
    reading (r.text 1 "parent class name") fun parent =>
      let record := Naming.recordPath (Text.afterLast '.' qualified)
      let parentRecord := if parent = Naming.noParent then "__Object" else Naming.recordPath parent
      [line ("Class " ++ record ++ "::__class() \x7b"), indent,
        line ("static Class k = new __Class(" ++ ctx.runtime.literal ++ "(\"" ++ qualified
          ++ "\"), " ++ parentRecord ++ "::__class());"),
        line "return k;", outdent, line "\x7d", line "",
        line (record ++ "_VT " ++ record ++ "::__vtable;"), line ""]

def itemProgram : Program :=
  match r.kind with
  | .compilationUnit | .classBody | .unknown => r.visits .item
  | .forwardDeclarations | .typeSpecifiers => r.visits .item ++ [line ""]
  | .packageDeclaration | .importDeclaration | .modifiers | .modifier => []
  | .namespaceDeclaration => namespaceProgram r
  | .forwardDeclaration => forwardDeclarationProgram r
  | .typeSpecifier => typeSpecifierProgram r
  | .classDeclaration => classProgram r ctx
  | .vtableDeclaration => dispatchTableProgram r ctx
  | .fieldDeclaration => fieldProgram r ctx
  | .constructorDeclaration => constructorProgram r ctx
  | .methodDeclaration => methodProgram r ctx
  | .mainMethodDefinition => mainProgram r ctx
  | .classMethodDefinition => classObjectProgram r ctx
  | kind =>
    if kind.isStatement then statementProgram r
    else write "" :: inlineProgram r ctx ++ [push "\n"]

/-- What a node does where it is printed. -/
def Row.program : Position → Program
  | .item => itemProgram r ctx
  | .inline => inlineProgram r ctx
  | .braces => bracesProgram r
  | .alternative => alternativeProgram r
  | .loopHead => loopHeadProgram r ctx
  | .declarator => declaratorProgram r
  | .declarators => r.commaVisits .declarator
  | .definitions lead => definitionsProgram r lead
  | .shifted => shiftedProgram r ctx
  | .bounds => boundsProgram r

end Programs

end ClassLowering
