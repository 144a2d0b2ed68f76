/-!
# Kinds of tree nodes

A node carries a label, and the label decides how its slots are read. The labels that have a
meaning form a closed list; every other label is of kind `unknown`, and what handles nodes by kind
passes through those to the nodes inside. `Kind.ofLabel` undoes `Kind.label`.
-/

set_option autoImplicit false

namespace ClassLowering

inductive Kind where
  | compilationUnit | packageDeclaration | importDeclaration | namespaceDeclaration
  | forwardDeclarations | forwardDeclaration | typeSpecifiers | typeSpecifier
  | classDeclaration | classBody | fieldDeclaration | constructorDeclaration | methodDeclaration
  | modifiers | modifier | formalParameters | formalParameter | declarators | declarator
  | initializations | initialization | vtableDeclaration | vtableEntries | vtableEntry
  | parameterTypes
  | type | voidType | primitiveType | qualifiedIdentifier | dimensions
  | block | expressionStatement | returnStatement | conditionalStatement | whileStatement
  | forStatement | basicForControl | breakStatement | continueStatement | emptyStatement
  | expression | additiveExpression | multiplicativeExpression | relationalExpression
  | equalityExpression | logicalAndExpression | logicalOrExpression | conditionalExpression
  | prefixExpression | postfixExpression | unaryExpression | logicalNegationExpression
  | castExpression | thisExpression | primaryIdentifier | selectionExpression
  | staticSelectionExpression | subscriptExpression | callExpression | staticCallExpression
  | arguments | expressionList | printingExpression | newClassExpression | cppNewClassExpression
  | newArrayExpression | concreteDimensions | newCastExpression | statementBlock
  | integerLiteral | floatingPointLiteral | stringLiteral | characterLiteral | booleanLiteral
  | nullLiteral
  | mainMethodDefinition | classMethodDefinition
  | unknown
  deriving DecidableEq, Repr

namespace Kind

def label : Kind → String
  | compilationUnit => "CompilationUnit"
  | packageDeclaration => "PackageDeclaration"
  | importDeclaration => "ImportDeclaration"
  | namespaceDeclaration => "NamespaceDeclaration"
  | forwardDeclarations => "ForwardDeclarations"
  | forwardDeclaration => "ForwardDeclaration"
  | typeSpecifiers => "TypeSpecifiers"
  | typeSpecifier => "TypeSpecifier"
  | classDeclaration => "ClassDeclaration"
  | classBody => "ClassBody"
  | fieldDeclaration => "FieldDeclaration"
  | constructorDeclaration => "ConstructorDeclaration"
  | methodDeclaration => "MethodDeclaration"
  | modifiers => "Modifiers"
  | modifier => "Modifier"
  | formalParameters => "FormalParameters"
  | formalParameter => "FormalParameter"
  | declarators => "Declarators"
  | declarator => "Declarator"
  | initializations => "Initializations"
  | initialization => "Initialization"
  | vtableDeclaration => "VTableDeclaration"
  | vtableEntries => "VTableEntries"
  | vtableEntry => "VTableEntry"
  | parameterTypes => "ParameterTypes"
  | type => "Type"
  | voidType => "VoidType"
  | primitiveType => "PrimitiveType"
  | qualifiedIdentifier => "QualifiedIdentifier"
  | dimensions => "Dimensions"
  | block => "Block"
  | expressionStatement => "ExpressionStatement"
  | returnStatement => "ReturnStatement"
  | conditionalStatement => "ConditionalStatement"
  | whileStatement => "WhileStatement"
  | forStatement => "ForStatement"
  | basicForControl => "BasicForControl"
  | breakStatement => "BreakStatement"
  | continueStatement => "ContinueStatement"
  | emptyStatement => "EmptyStatement"
  | expression => "Expression"
  | additiveExpression => "AdditiveExpression"
  | multiplicativeExpression => "MultiplicativeExpression"
  | relationalExpression => "RelationalExpression"
  | equalityExpression => "EqualityExpression"
  | logicalAndExpression => "LogicalAndExpression"
  | logicalOrExpression => "LogicalOrExpression"
  | conditionalExpression => "ConditionalExpression"
  | prefixExpression => "PrefixExpression"
  | postfixExpression => "PostfixExpression"
  | unaryExpression => "UnaryExpression"
  | logicalNegationExpression => "LogicalNegationExpression"
  | castExpression => "CastExpression"
  | thisExpression => "ThisExpression"
  | primaryIdentifier => "PrimaryIdentifier"
  | selectionExpression => "SelectionExpression"
  | staticSelectionExpression => "StaticSelectionExpression"
  | subscriptExpression => "SubscriptExpression"
  | callExpression => "CallExpression"
  | staticCallExpression => "StaticCallExpression"
  | arguments => "Arguments"
  | expressionList => "ExpressionList"
  | printingExpression => "PrintingExpression"
  | newClassExpression => "NewClassExpression"
  | cppNewClassExpression => "CppNewClassExpression"
  | newArrayExpression => "NewArrayExpression"
  | concreteDimensions => "ConcreteDimensions"
  | newCastExpression => "NewCastExpression"
  | statementBlock => "CBlock"
  | integerLiteral => "IntegerLiteral"
  | floatingPointLiteral => "FloatingPointLiteral"
  | stringLiteral => "StringLiteral"
  | characterLiteral => "CharacterLiteral"
  | booleanLiteral => "BooleanLiteral"
  | nullLiteral => "NullLiteral"
  | mainMethodDefinition => "MainMethodDefinition"
  | classMethodDefinition => "ClassMethodDefinition"
  | unknown => "Unknown"

def ofLabel : String → Kind
  | "CompilationUnit" => compilationUnit
  | "PackageDeclaration" => packageDeclaration
  | "ImportDeclaration" => importDeclaration
  | "NamespaceDeclaration" => namespaceDeclaration
  | "ForwardDeclarations" => forwardDeclarations
  | "ForwardDeclaration" => forwardDeclaration
  | "TypeSpecifiers" => typeSpecifiers
  | "TypeSpecifier" => typeSpecifier
  | "ClassDeclaration" => classDeclaration
  | "ClassBody" => classBody
  | "FieldDeclaration" => fieldDeclaration
  | "ConstructorDeclaration" => constructorDeclaration
  | "MethodDeclaration" => methodDeclaration
  | "Modifiers" => modifiers
  | "Modifier" => modifier
  | "FormalParameters" => formalParameters
  | "FormalParameter" => formalParameter
  | "Declarators" => declarators
  | "Declarator" => declarator
  | "Initializations" => initializations
  | "Initialization" => initialization
  | "VTableDeclaration" => vtableDeclaration
  | "VTableEntries" => vtableEntries
  | "VTableEntry" => vtableEntry
  | "ParameterTypes" => parameterTypes
  | "Type" => type
  | "VoidType" => voidType
  | "PrimitiveType" => primitiveType
  | "QualifiedIdentifier" => qualifiedIdentifier
  | "Dimensions" => dimensions
  | "Block" => block
  | "ExpressionStatement" => expressionStatement
  | "ReturnStatement" => returnStatement
  | "ConditionalStatement" => conditionalStatement
  | "WhileStatement" => whileStatement
  | "ForStatement" => forStatement
  | "BasicForControl" => basicForControl
  | "BreakStatement" => breakStatement
  | "ContinueStatement" => continueStatement
  | "EmptyStatement" => emptyStatement
  | "Expression" => expression
  | "AdditiveExpression" => additiveExpression
  | "MultiplicativeExpression" => multiplicativeExpression
  | "RelationalExpression" => relationalExpression
  | "EqualityExpression" => equalityExpression
  | "LogicalAndExpression" => logicalAndExpression
  | "LogicalOrExpression" => logicalOrExpression
  | "ConditionalExpression" => conditionalExpression
  | "PrefixExpression" => prefixExpression
  | "PostfixExpression" => postfixExpression
  | "UnaryExpression" => unaryExpression
  | "LogicalNegationExpression" => logicalNegationExpression
  | "CastExpression" => castExpression
  | "ThisExpression" => thisExpression
  | "PrimaryIdentifier" => primaryIdentifier
  | "SelectionExpression" => selectionExpression
  | "StaticSelectionExpression" => staticSelectionExpression
  | "SubscriptExpression" => subscriptExpression
  | "CallExpression" => callExpression
  | "StaticCallExpression" => staticCallExpression
  | "Arguments" => arguments
  | "ExpressionList" => expressionList
  | "PrintingExpression" => printingExpression
  | "NewClassExpression" => newClassExpression
  | "CppNewClassExpression" => cppNewClassExpression
  | "NewArrayExpression" => newArrayExpression
  | "ConcreteDimensions" => concreteDimensions
  | "NewCastExpression" => newCastExpression
  | "CBlock" => statementBlock
  | "IntegerLiteral" => integerLiteral
  | "FloatingPointLiteral" => floatingPointLiteral
  | "StringLiteral" => stringLiteral
  | "CharacterLiteral" => characterLiteral
  | "BooleanLiteral" => booleanLiteral
  | "NullLiteral" => nullLiteral
  | "MainMethodDefinition" => mainMethodDefinition
  | "ClassMethodDefinition" => classMethodDefinition
  | _ => unknown

def isBinary : Kind → Bool
  | expression | additiveExpression | multiplicativeExpression | relationalExpression
  | equalityExpression | logicalAndExpression | logicalOrExpression => true
  | _ => false

/-- Nodes that take a line of their own inside a block. -/
def isStatement : Kind → Bool
  | block | expressionStatement | returnStatement | conditionalStatement | whileStatement
  | forStatement | breakStatement | continueStatement | emptyStatement | fieldDeclaration => true
  | _ => false

private theorem ofLabel_label_ofNat : ∀ n < 78, ofLabel (Kind.ofNat n).label = Kind.ofNat n := by
  decide +kernel

@[simp] theorem ofLabel_label (k : Kind) : ofLabel k.label = k := by
  have h := ofLabel_label_ofNat k.ctorIdx (by cases k <;> decide)
  rwa [Kind.ofNat_ctorIdx] at h

end Kind

end ClassLowering
