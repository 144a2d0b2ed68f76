import ClassLowering.Printing.Statement

/-!
# Declarations and generated definitions

What a declaration prints depends on the artifact. The header declares every member of a class; the
implementation defines the methods that have a body, the static fields, and the generated parts of
each class; the entry point defines `main`.
-/

set_option autoImplicit false

namespace ClassLowering

open Text (joinWith concat)

variable (r : Row Part) (ctx : Context)

def itemsText : Except Fault String := do
  return concat (← r.printChildren .item ctx)

def namespaceText : Except Fault String := do
  let name ← r.text 0 "name"
  let members ← itemsText r ctx.deeper
  return ctx.lines ["namespace " ++ name ++ " \x7b", ""] ++ members ++ ctx.lines ["\x7d", ""]

def forwardDeclarationText : Except Fault String := do
  let keyword ← r.text 0 "keyword"
  let name ← r.text 1 "name"
  return ctx.line (keyword ++ " " ++ name ++ ";")

def typeSpecifierText : Except Fault String := do
  let keyword ← r.text 0 "keyword"
  let target ← r.text 1 "target type"
  let name ← r.text 2 "alias"
  return ctx.line (keyword ++ " " ++ target ++ " " ++ name ++ ";")

def classText : Except Fault String := do
  let inner := ctx.inside r.kind
  let name ← r.text 1 "class name"
  let body ← r.child 5 "class body"
  match ctx.artifact with
  | .header =>
    let members ← body.print .item inner.deeper
    return ctx.line ("struct " ++ Naming.recordPath name ++ " \x7b") ++ members
      ++ ctx.lines ["\x7d;", ""]
  | .implementation => body.print .item (inner.defining name)
  | .entryPoint => return ""

structure SlotText where
  member : String
  initializer : String

/-- A slot taken from another class is cast to the receiver type of the table's own class. -/
def slotText (runtime : RuntimeSettings) (className : String) (entry : Row Tree) :
    Except Fault SlotText := do
  let result ← (← entry.child 0 "return type").typeText runtime
  let name ← entry.text 1 "slot name"
  let types ← (← entry.child 2 "parameter types").children.mapM (Tree.typeText runtime)
  let implementor ← entry.text 3 "implementing class"
  let parameters := joinWith ", " types
  let cast := if implementor = className then ""
    else "(" ++ result ++ "(*)(" ++ parameters ++ ")) "
  return {
    member := result ++ " (*" ++ name ++ ")(" ++ parameters ++ ");"
    initializer := name ++ "(" ++ cast ++ "&" ++ Naming.recordPath implementor ++ "::" ++ name
      ++ ")" }

/-- The lines of an initializer list: a colon before the first, a comma after all but the last. -/
def initializerLines (lead : String) : List String → List String
  | [] => []
  | [last] => [lead ++ last]
  | first :: rest => (lead ++ first ++ ",") :: initializerLines "  " rest

def dispatchTableText : Except Fault String := do
  if ctx.artifact ≠ .header then return ""
  let className ← r.text 0 "class name"
  let entries ← r.child 1 "vtable entries"
  let slots ← entries.tree.children.mapM fun entry => slotText ctx.runtime className entry.row
  let record := Naming.recordPath className
  let initializers := ("__is_a(" ++ record ++ "::__class())") :: slots.map SlotText.initializer
  return ctx.line ("struct " ++ record ++ "_VT \x7b")
    ++ ctx.deeper.lines (["Class __is_a;"] ++ slots.map SlotText.member
      ++ ["", record ++ "_VT()"] ++ initializerLines ": " initializers ++ ["\x7b", "\x7d"])
    ++ ctx.lines ["\x7d;", ""]

def Tree.hasStatic (modifiers : Tree) : Bool :=
  modifiers.children.any fun m => (m.slots[0]?).bind Slot.text? = some "static"

def staticLead (modifiers : Option Part) : String :=
  if modifiers.any (·.tree.hasStatic) then "static " else ""

def scopePath : Except Fault String :=
  match ctx.scope with
  | some name => .ok (Naming.recordPath name)
  | none =>
    .error (.unexpectedKind "a member inside a class declaration" "member outside any class")

/-- A field of a class. In the implementation only a static field has a definition. -/
def memberFieldText : Except Fault String := do
  let modifiers ← r.child? 0 "modifiers"
  let type ← (← r.child 1 "field type").tree.typeText ctx.runtime
  let declarators ← r.child 2 "declarators"
  match ctx.artifact with
  | .header =>
    let names ← declarators.tree.children.mapM fun d => d.row.text 0 "declarator name"
    return ctx.line (staticLead modifiers ++ type ++ " " ++ joinWith ", " names ++ ";")
  | .implementation =>
    if modifiers.any (·.tree.hasStatic) then
      let path ← scopePath ctx
      declarators.print (.definitions (type ++ " " ++ path ++ "::")) (ctx.inside r.kind)
    else return ""
  | .entryPoint => return ""

def fieldText : Except Fault String := do
  if ctx.isMember then memberFieldText r ctx
  else return ctx.indentation ++ (← variablesText r ctx) ++ ";\n"

def parameterText (runtime : RuntimeSettings) (parameter : Row Tree) : Except Fault String := do
  let type ← (← parameter.child 1 "parameter type").typeText runtime
  return type ++ " " ++ (← parameter.text 3 "parameter name")

def parametersText (runtime : RuntimeSettings) (parameters : Tree) : Except Fault String := do
  let texts ← parameters.children.mapM fun p => parameterText runtime p.row
  return "(" ++ joinWith ", " texts ++ ")"

def initializationText (initialization : Row Tree) : Except Fault String := do
  let member ← initialization.text 0 "initialized member"
  let value ← initialization.text 1 "initial value"
  return member ++ "(" ++ value ++ ")"

def initializationsText (initializations : Tree) : Except Fault String := do
  let texts ← initializations.children.mapM fun i => initializationText i.row
  return if texts.isEmpty then "" else " : " ++ joinWith ", " texts

def constructorText : Except Fault String := do
  if ctx.artifact ≠ .header then return ""
  let name ← r.text 2 "constructor name"
  let parameters ← match ← r.child? 3 "parameters" with
    | some p => parametersText ctx.runtime p.tree
    | none => pure "()"
  let initializations ← match ← r.child? 4 "initializations" with
    | some p => initializationsText p.tree
    | none => pure ""
  let body ← match ← r.child? 5 "constructor body" with
    | some p => do pure (" " ++ (← p.print .braces (ctx.inside r.kind)))
    | none => pure ";"
  return ctx.indentation ++ Naming.recordPath name ++ parameters ++ initializations ++ body
    ++ "\n\n"

def methodText : Except Fault String := do
  let result ← (← r.child 2 "return type").tree.typeText ctx.runtime
  let name ← r.text 3 "method name"
  let parameters ← parametersText ctx.runtime (← r.child 4 "parameters").tree
  let body ← r.child? 7 "method body"
  match ctx.artifact with
  | .header =>
    let modifiers ← r.child? 0 "modifiers"
    return ctx.line (staticLead modifiers ++ result ++ " " ++ name ++ parameters ++ ";")
  | .implementation =>
    match body with
    | some body =>
      let path ← scopePath ctx
      let text ← body.print .braces (ctx.inside r.kind)
      return ctx.indentation ++ result ++ " " ++ path ++ "::" ++ name ++ parameters ++ " " ++ text
        ++ "\n\n"
    | none => return ""
  | .entryPoint => return ""

def mainText : Except Fault String := do
  let location ← r.text 0 "main class location"
  let runtime := ctx.runtime
  return ctx.line "int main(int argc, char* argv[]) \x7b"
    ++ ctx.deeper.lines [
      runtime.arrayType ++ "<String> args = new " ++ runtime.arrayTemplate ++ "<String>(argc - 1);",
      "",
      "for (int32_t i = 1; i < argc; i++) \x7b"]
    ++ ctx.deeper.deeper.line ("(*args)[i - 1] = " ++ runtime.literal ++ "(argv[i]);")
    ++ ctx.deeper.lines [
      "\x7d",
      "",
      Naming.recordPath location ++ "::main(args);",
      "",
      "return 0;"]
    ++ ctx.line "\x7d"

def classObjectText : Except Fault String := do
  if ctx.artifact = .header then return ""
  let qualified ← r.text 0 "qualified class name"
  let parent ← r.text 1 "parent class name"
  let record := Naming.recordPath (Text.afterLast '.' qualified)
  let parentRecord := if parent = Naming.noParent then "__Object" else Naming.recordPath parent
  return ctx.line ("Class " ++ record ++ "::__class() \x7b")
    ++ ctx.deeper.lines [
      "static Class k = new __Class(" ++ ctx.runtime.literal ++ "(\"" ++ qualified ++ "\"), "
        ++ parentRecord ++ "::__class());",
      "return k;"]
    ++ ctx.lines ["\x7d", "", record ++ "_VT " ++ record ++ "::__vtable;", ""]

def itemText : Except Fault String := do
  match r.kind with
  | .compilationUnit | .classBody | .unknown => itemsText r ctx
  | .forwardDeclarations | .typeSpecifiers => return (← itemsText r ctx) ++ "\n"
  | .packageDeclaration | .importDeclaration | .modifiers | .modifier => return ""
  | .namespaceDeclaration => namespaceText r ctx
  | .forwardDeclaration => forwardDeclarationText r ctx
  | .typeSpecifier => typeSpecifierText r ctx
  | .classDeclaration => classText r ctx
  | .vtableDeclaration => dispatchTableText r ctx
  | .fieldDeclaration => fieldText r ctx
  | .constructorDeclaration => constructorText r ctx
  | .methodDeclaration => methodText r ctx
  | .mainMethodDefinition => mainText r ctx
  | .classMethodDefinition => classObjectText r ctx
  | kind =>
    if kind.isStatement then statementText r ctx
    else return ctx.indentation ++ (← inlineText r ctx) ++ "\n"

end ClassLowering
