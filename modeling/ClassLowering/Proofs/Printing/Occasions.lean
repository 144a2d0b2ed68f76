import ClassLowering.Proofs.Printing.Replace

/-!
# The occasions of printing a nested node

A rule has a node in one of its slots printed on one of a few occasions: as an operand, as an item
of a list, as a body in braces, and so on. `Occasion` lists them, each with the kinds of nodes and
the position that it belongs to, and `occasion_of_mem` says that there are no others. An invariant
of the nodes that are printed is then shown for one occasion after the other, with no rule opened.
-/

set_option autoImplicit false

namespace ClassLowering

open Script

/-- The kinds of the nodes around a node, innermost first, each with the slot that leads inwards. -/
abbrev Trail := List (Kind × Nat)

def Position.takesExpression : Position → Bool
  | .item | .inline | .shifted => true
  | _ => false

def Kind.hasOperands : Kind → Bool
  | .expression | .additiveExpression | .multiplicativeExpression | .relationalExpression
  | .equalityExpression | .logicalAndExpression | .logicalOrExpression | .conditionalExpression
  | .prefixExpression | .postfixExpression | .unaryExpression | .logicalNegationExpression
  | .castExpression | .selectionExpression | .subscriptExpression | .callExpression
  | .staticCallExpression | .arguments | .expressionList | .newClassExpression | .newCastExpression
  | .unknown => true
  | _ => false

def Kind.hasExpression : Kind → Bool
  | .expressionStatement | .returnStatement | .conditionalStatement | .whileStatement => true
  | _ => false

def Kind.hasItems : Kind → Bool
  | .compilationUnit | .classBody | .unknown | .forwardDeclarations | .typeSpecifiers => true
  | _ => false

def Kind.hasNestedItems : Kind → Bool
  | .namespaceDeclaration | .block => true
  | _ => false

def Kind.hasBranches (k : Kind) : Position → Bool
  | .item => k = .conditionalStatement || k = .whileStatement || k = .forStatement
  | .alternative => true
  | _ => false

theorem Kind.hasBranches_eq_true {k : Kind} {pos : Position} : k.hasBranches pos = true ↔
    pos = .item ∧ (k = .conditionalStatement ∨ k = .whileStatement ∨ k = .forStatement) ∨
      pos = .alternative := by
  cases pos <;> simp [hasBranches, or_assoc]

theorem Position.takesExpression_eq_true {pos : Position} :
    pos.takesExpression = true ↔ pos = .item ∨ pos = .inline ∨ pos = .shifted := by
  cases pos <;> simp [takesExpression]

/-- The node `r`, printed at a position, has the node `c` in a slot printed at another position and
in a context that is moved by a `Shift`. -/
inductive Occasion (r : Row Tree) (ctx : Context) :
    Position → (index : Nat) → (c : Tree) → Position → Shift → Prop
  | operand {pos : Position} {index : Nat} {c : Tree} :
      r.kind.hasOperands = true → pos.takesExpression = true →
      Occasion r ctx pos index c .inline .level
  | expression {c : Tree} : r.kind.hasExpression = true → Occasion r ctx .item 0 c .inline .level
  | condition {c : Tree} : Occasion r ctx .alternative 0 c .inline .level
  | clause {index : Nat} {c : Tree} : index ∈ [2, 3, 4] →
      Occasion r ctx .loopHead index c .inline .level
  | initializer {c : Tree} : Occasion r ctx .declarator 2 c .inline .level
  | bound {index : Nat} {c : Tree} : Occasion r ctx .bounds index c .inline .level
  | item {index : Nat} {c : Tree} : r.kind.hasItems = true →
      Occasion r ctx .item index c .item .level
  | nestedItem {index : Nat} {c : Tree} : r.kind.hasNestedItems = true →
      Occasion r ctx .item index c .item .deeper
  | bracedItem {index : Nat} {c : Tree} : Occasion r ctx .braces index c .item .deeper
  | statement {pos : Position} {index : Nat} {c : Tree} :
      r.kind = .statementBlock → pos.takesExpression = true →
      Occasion r ctx pos index c .item .deeper
  | declaredMembers {c : Tree} : r.kind = .classDeclaration → ctx.artifact = .header →
      Occasion r ctx .item 5 c .item .deeper
  | definedMembers {name : String} {c : Tree} :
      r.kind = .classDeclaration → ctx.artifact = .implementation →
      r.text 1 "class name" = .ok name → Occasion r ctx .item 5 c .item (.defining name)
  | branch {pos : Position} {index : Nat} {c : Tree} :
      r.kind.hasBranches pos = true → index ∈ [1, 2] → c.kind ≠ .block →
      Occasion r ctx pos index c .item .deeper
  | bracedBranch {pos : Position} {index : Nat} {c : Tree} :
      r.kind.hasBranches pos = true → index ∈ [1, 2] → c.kind = .block →
      Occasion r ctx pos index c .braces .level
  | alternative {pos : Position} {c : Tree} :
      r.kind.hasBranches pos = true → c.kind = .conditionalStatement →
      Occasion r ctx pos 2 c .alternative .level
  | constructorBody {c : Tree} : r.kind = .constructorDeclaration → ctx.artifact = .header →
      Occasion r ctx .item 5 c .braces .level
  | methodBody {c : Tree} : r.kind = .methodDeclaration → ctx.artifact = .implementation →
      Occasion r ctx .item 7 c .braces .level
  | loopHead {c : Tree} : r.kind = .forStatement → Occasion r ctx .item 0 c .loopHead .level
  | declaredNames {c : Tree} : r.kind = .fieldDeclaration → ctx.isMember = false →
      Occasion r ctx .item 2 c .declarators .level
  | loopNames {c : Tree} : Occasion r ctx .loopHead 2 c .declarators .level
  | definitions {lead : String} {c : Tree} :
      r.kind = .fieldDeclaration → ctx.isMember = true → ctx.artifact = .implementation →
      Occasion r ctx .item 2 c (.definitions lead) .level
  | declarator {index : Nat} {c : Tree} : Occasion r ctx .declarators index c .declarator .level
  | definition {lead : String} {index : Nat} {c : Tree} :
      Occasion r ctx (.definitions lead) index c .declarator .level
  | shifted {pos : Position} {c : Tree} :
      r.kind = .printingExpression → pos.takesExpression = true →
      Occasion r ctx pos 0 c .shifted .level
  | bounds {pos : Position} {c : Tree} :
      r.kind = .newArrayExpression → pos.takesExpression = true →
      Occasion r ctx pos 1 c .bounds .level

section Printed

variable {r : Row Tree} {ctx : Context} {index : Nat} {what : String} {pos pos' : Position}
  {shift : Shift} {c : Tree}

/-! ## The steps of a list -/

theorem Row.mem_printSteps {shift' : Shift}
    (printed : Step.print index what pos' shift' ∈ r.printSteps pos shift) :
    pos' = pos ∧ shift' = shift := by
  obtain ⟨_, -, same⟩ := List.mem_map.mp printed
  cases same
  exact ⟨rfl, rfl⟩

theorem Row.mem_flatMap_printSteps {around : Step → Script} {shift' : Shift}
    (marks : ∀ step, Step.print index what pos' shift' ∈ around step →
      Step.print index what pos' shift' = step)
    (printed : Step.print index what pos' shift' ∈ (r.printSteps pos shift).flatMap around) :
    pos' = pos ∧ shift' = shift := by
  obtain ⟨step, hs, here⟩ := List.mem_flatMap.mp printed
  rw [← marks step here] at hs
  exact Row.mem_printSteps hs

theorem Script.mem_intersperse {mark : String} {steps : Script}
    (printed : Step.print index what pos shift ∈ steps.intersperse (.write mark)) :
    Step.print index what pos shift ∈ steps := by
  induction steps with
  | nil => cases printed
  | cons step rest ih =>
    cases rest with
    | nil => exact printed
    | cons next rest =>
      rw [List.intersperse_cons_cons] at printed
      rcases List.mem_cons.mp printed with rfl | later
      · exact List.mem_cons_self
      · exact List.mem_cons_of_mem _ (ih (by simpa using later))

theorem Row.mem_commaSteps (printed : Step.print index what pos' shift ∈ r.commaSteps pos) :
    pos' = pos ∧ shift = .level :=
  Row.mem_printSteps (Script.mem_intersperse printed)

/-! ## Expressions -/

theorem not_mem_staticOwner : Step.print index what pos shift ∉ staticOwnerScript r := by
  intro printed
  have here := mem_indexes.mpr ⟨what, pos, shift, printed⟩
  rw [indexes_staticOwner] at here
  cases here

theorem mem_inlineScript (operands : r.kind.hasOperands = true)
    (printed : Step.print index what pos shift ∈ inlineScript r ctx) :
    pos = .inline ∧ shift = .level := by
  unfold inlineScript at printed
  generalize r.kind = k at operands printed
  cases k <;> cases operands
  case arguments => exact Row.mem_commaSteps (by simpa using printed)
  case expressionList => exact Row.mem_commaSteps printed
  case unknown => exact Row.mem_printSteps printed
  all_goals grind [mem_reading, not_mem_writing, not_mem_staticOwner, Step.operand]

theorem occasion_of_inline (expression : pos.takesExpression = true)
    (printed : Step.print index what pos' shift ∈ inlineScript r ctx) :
    Occasion r ctx pos index c pos' shift := by
  by_cases operands : r.kind.hasOperands = true
  · obtain ⟨rfl, rfl⟩ := mem_inlineScript operands printed
    exact .operand operands expression
  · unfold inlineScript at printed
    cases hk : r.kind <;> simp only [hk] at operands printed
    case printingExpression =>
      unfold printingScript at printed
      have here : index = 0 ∧ pos' = .shifted ∧ shift = .level := by
        grind [mem_reading]
      obtain ⟨rfl, rfl, rfl⟩ := here
      exact .shifted hk expression
    case newArrayExpression =>
      obtain ⟨_, -, here⟩ := mem_reading.mp printed
      obtain ⟨_, -, here⟩ := mem_reading.mp here
      obtain ⟨rfl, -, rfl, rfl⟩ : index = 1 ∧ _ ∧ pos' = .bounds ∧ shift = .level := by
        simpa using here
      exact .bounds hk expression
    case statementBlock =>
      obtain ⟨rfl, rfl⟩ := Row.mem_printSteps (by simpa [statementBlockScript] using printed)
      exact .statement hk expression
    all_goals simp [Kind.hasOperands, mem_reading, not_mem_writing] at operands printed

theorem occasion_of_shifted (printed : Step.print index what pos' shift ∈ shiftedScript r ctx) :
    Occasion r ctx .shifted index c pos' shift := by
  unfold shiftedScript at printed
  split at printed
  case isTrue list =>
    obtain ⟨rfl, rfl⟩ := Row.mem_flatMap_printSteps (by simp) printed
    exact .operand (by rw [list]; rfl) rfl
  case isFalse => exact occasion_of_inline rfl (by simpa using printed)

theorem occasion_of_bounds (printed : Step.print index what pos' shift ∈ boundsScript r) :
    Occasion r ctx .bounds index c pos' shift := by
  obtain ⟨rfl, rfl⟩ := Row.mem_flatMap_printSteps (by simp) printed
  exact .bound

/-! ## Statements -/

theorem mem_bracesScript (printed : Step.print index what pos shift ∈ bracesScript r ctx) :
    pos = .item ∧ shift = .deeper := by
  unfold bracesScript at printed
  split at printed
  · simp at printed
  · exact Row.mem_printSteps (by simpa using printed)

theorem not_mem_terminatorSteps {expression : Tree} :
    Step.print index what pos shift ∉ expression.terminatorSteps := by
  unfold Tree.terminatorSteps
  split <;> simp

theorem occasion_of_branch {j : Nat} {what' : String} (branches : r.kind.hasBranches pos = true)
    (hj : j ∈ [1, 2]) (hc : r.slots[index]? = some (.node c)) {body : Tree}
    (read : r.slots[j]? = some (.node body))
    (printed : Step.print index what pos' shift ∈ body.branchSteps ctx j what') :
    Occasion r ctx pos index c pos' shift := by
  unfold Tree.branchSteps at printed
  split at printed
  case isTrue block =>
    obtain ⟨rfl, -, rfl, rfl⟩ : index = j ∧ _ ∧ pos' = .braces ∧ shift = .level := by
      simpa using printed
    obtain rfl : c = body := by simpa using hc.symm.trans read
    exact .bracedBranch branches hj (by simpa [Tree.is] using block)
  case isFalse block =>
    obtain ⟨rfl, -, rfl, rfl⟩ : index = j ∧ _ ∧ pos' = .item ∧ shift = .deeper := by
      simpa using printed
    obtain rfl : c = body := by simpa using hc.symm.trans read
    exact .branch branches hj (by simpa [Tree.is] using block)

theorem occasion_of_else (branches : r.kind.hasBranches pos = true)
    (hc : r.slots[index]? = some (.node c))
    (printed : Step.print index what pos' shift ∈ ctx.elseSteps ((r.slots[2]?).bind Slot.node?)) :
    Occasion r ctx pos index c pos' shift := by
  cases read : (r.slots[2]?).bind Slot.node? with
  | none => simp [read, Context.elseSteps] at printed
  | some rest =>
    have slot : r.slots[2]? = some (.node rest) :=
      Row.child_eq_ok.mp (Row.child_of_node? read "")
    rw [read, Context.elseSteps] at printed
    by_cases chained : rest.is .conditionalStatement = true
    · obtain ⟨rfl, -, rfl, rfl⟩ : index = 2 ∧ _ ∧ pos' = .alternative ∧ shift = .level := by
        simpa [chained] using printed
      obtain rfl : c = rest := by simpa using hc.symm.trans slot
      exact .alternative branches (by simpa [Tree.is] using chained)
    · exact occasion_of_branch branches (by simp) hc slot (by simpa [chained] using printed)

theorem occasion_of_alternative (branches : r.kind.hasBranches pos = true)
    (condition : Occasion r ctx pos 0 c .inline .level) (hc : r.slots[index]? = some (.node c))
    (printed : Step.print index what pos' shift ∈ alternativeScript r ctx) :
    Occasion r ctx pos index c pos' shift := by
  rcases List.mem_append.mp printed with first | later
  · obtain ⟨rfl, -, rfl, rfl⟩ : index = 0 ∧ _ ∧ pos' = .inline ∧ shift = .level := by
      simpa [Step.operand] using first
    exact condition
  · obtain ⟨consequence, read, here⟩ := mem_reading.mp later
    rcases List.mem_append.mp here with first | rest
    · exact occasion_of_branch branches (by simp) hc (Row.child_eq_ok.mp read) first
    · exact occasion_of_else branches hc rest

theorem occasion_of_declarator (printed : Step.print index what pos' shift ∈ declaratorScript r) :
    Occasion r ctx .declarator index c pos' shift := by
  obtain ⟨name, -, here⟩ := mem_reading.mp printed
  obtain ⟨value, -, here⟩ := mem_reading.mp here
  cases value with
  | none => simp at here
  | some value =>
    obtain ⟨rfl, -, rfl, rfl⟩ : index = 2 ∧ _ ∧ pos' = .inline ∧ shift = .level := by
      simpa [Step.operand] using here
    exact .initializer

theorem occasion_of_definitions {lead : String}
    (printed : Step.print index what pos' shift ∈ definitionsScript r ctx lead) :
    Occasion r ctx (.definitions lead) index c pos' shift := by
  obtain ⟨rfl, rfl⟩ := Row.mem_flatMap_printSteps (by simp) printed
  exact .definition

theorem mem_loopClauseSteps {j : Nat} {clause : String}
    (printed : Step.print index what pos shift ∈ r.loopClauseSteps j clause) :
    index = j ∧ pos = .inline ∧ shift = .level := by
  obtain ⟨value, -, here⟩ := mem_reading.mp printed
  cases value with
  | none => simp at here
  | some value =>
    obtain ⟨rfl, -, rfl, rfl⟩ : index = j ∧ _ ∧ pos = .inline ∧ shift = .level := by
      simpa [Step.operand] using here
    exact ⟨rfl, rfl, rfl⟩

theorem occasion_of_loopStart (printed : Step.print index what pos' shift ∈ loopStartScript r ctx) :
    Occasion r ctx .loopHead index c pos' shift := by
  obtain ⟨type, -, here⟩ := mem_reading.mp printed
  cases type with
  | some type =>
    obtain ⟨text, -, here⟩ := mem_reading.mp here
    obtain ⟨rfl, -, rfl, rfl⟩ : index = 2 ∧ _ ∧ pos' = .declarators ∧ shift = .level := by
      simpa using here
    exact .loopNames
  | none =>
    obtain ⟨value, -, here⟩ := mem_reading.mp here
    cases value with
    | none => simp at here
    | some value =>
      obtain ⟨rfl, -, rfl, rfl⟩ : index = 2 ∧ _ ∧ pos' = .inline ∧ shift = .level := by
        simpa [Step.operand] using here
      exact .clause (by simp)

theorem occasion_of_loopHead (printed : Step.print index what pos' shift ∈ loopHeadScript r ctx) :
    Occasion r ctx .loopHead index c pos' shift := by
  have parts : Step.print index what pos' shift ∈ loopStartScript r ctx ∨
      Step.print index what pos' shift ∈ r.loopClauseSteps 3 "condition" ∨
      Step.print index what pos' shift ∈ r.loopClauseSteps 4 "update" := by
    simpa [loopHeadScript, or_assoc] using printed
  rcases parts with start | condition | update
  · exact occasion_of_loopStart start
  · obtain ⟨rfl, rfl, rfl⟩ := mem_loopClauseSteps condition
    exact .clause (by simp)
  · obtain ⟨rfl, rfl, rfl⟩ := mem_loopClauseSteps update
    exact .clause (by simp)

theorem occasion_of_statement (hc : r.slots[index]? = some (.node c))
    (printed : Step.print index what pos' shift ∈ statementScript r ctx) :
    Occasion r ctx .item index c pos' shift := by
  unfold statementScript at printed
  cases hk : r.kind <;> simp only [hk] at printed
  case block =>
    obtain ⟨rfl, rfl⟩ := mem_bracesScript (by simpa using printed)
    exact .nestedItem (by rw [hk]; rfl)
  case expressionStatement =>
    obtain ⟨expression, -, here⟩ := mem_reading.mp (by simpa using printed)
    obtain ⟨rfl, -, rfl, rfl⟩ : index = 0 ∧ _ ∧ pos' = .inline ∧ shift = .level := by
      simpa [Step.operand, not_mem_terminatorSteps] using here
    exact .expression (by rw [hk]; rfl)
  case returnStatement =>
    cases value : (r.slots[0]?).bind Slot.node? with
    | none => simp [value, Context.returnSteps] at printed
    | some value' =>
      obtain ⟨rfl, -, rfl, rfl⟩ : index = 0 ∧ _ ∧ pos' = .inline ∧ shift = .level := by
        simpa [value, Context.returnSteps, Step.operand, not_mem_terminatorSteps] using printed
      exact .expression (by rw [hk]; rfl)
  case conditionalStatement =>
    exact occasion_of_alternative (by rw [hk]; rfl) (.expression (by rw [hk]; rfl)) hc
      (by simpa using printed)
  case whileStatement =>
    rcases List.mem_append.mp printed with first | later
    · obtain ⟨rfl, -, rfl, rfl⟩ : index = 0 ∧ _ ∧ pos' = .inline ∧ shift = .level := by
        simpa [Step.operand] using first
      exact .expression (by rw [hk]; rfl)
    · obtain ⟨body, read, here⟩ := mem_reading.mp later
      exact occasion_of_branch (by rw [hk]; rfl) (by simp) hc (Row.child_eq_ok.mp read)
        (by simpa using here)
  case forStatement =>
    rcases List.mem_append.mp printed with first | later
    · obtain ⟨rfl, -, rfl, rfl⟩ : index = 0 ∧ _ ∧ pos' = .loopHead ∧ shift = .level := by
        simpa using first
      exact .loopHead hk
    · obtain ⟨body, read, here⟩ := mem_reading.mp later
      exact occasion_of_branch (by rw [hk]; rfl) (by simp) hc (Row.child_eq_ok.mp read)
        (by simpa using here)
  all_goals simp at printed

/-! ## Declarations -/

theorem occasion_of_class (hk : r.kind = .classDeclaration)
    (printed : Step.print index what pos' shift ∈ classScript r ctx) :
    Occasion r ctx .item index c pos' shift := by
  obtain ⟨name, hn, here⟩ := mem_reading.mp printed
  obtain ⟨body, -, here⟩ := mem_reading.mp here
  cases ha : ctx.artifact with
  | header =>
    obtain ⟨rfl, -, rfl, rfl⟩ : index = 5 ∧ _ ∧ pos' = .item ∧ shift = .deeper := by
      simpa [ha] using here
    exact .declaredMembers hk ha
  | implementation =>
    obtain ⟨rfl, -, rfl, rfl⟩ : index = 5 ∧ _ ∧ pos' = .item ∧ shift = .defining name := by
      simpa [ha] using here
    exact .definedMembers hk ha hn
  | entryPoint => simp [ha] at here

theorem occasion_of_memberField (hk : r.kind = .fieldDeclaration) (member : ctx.isMember = true)
    (printed : Step.print index what pos' shift ∈ memberFieldScript r ctx) :
    Occasion r ctx .item index c pos' shift := by
  obtain ⟨modifiers, -, here⟩ := mem_reading.mp printed
  obtain ⟨type, -, here⟩ := mem_reading.mp here
  obtain ⟨declarators, -, here⟩ := mem_reading.mp here
  cases ha : ctx.artifact with
  | header => simp [ha, mem_reading] at here
  | implementation =>
    by_cases static : modifiers.any Tree.hasStatic = true
    · simp only [ha, static, if_true] at here
      obtain ⟨path, -, here⟩ := mem_reading.mp here
      obtain ⟨rfl, -, rfl, rfl⟩ : index = 2 ∧ _ ∧
          pos' = .definitions (type ++ " " ++ path ++ "::") ∧ shift = .level := by simpa using here
      exact .definitions hk member ha
    · simp [ha, static] at here
  | entryPoint => simp [ha] at here

theorem occasion_of_field (hk : r.kind = .fieldDeclaration)
    (printed : Step.print index what pos' shift ∈ fieldScript r ctx) :
    Occasion r ctx .item index c pos' shift := by
  unfold fieldScript at printed
  split at printed
  case isTrue member => exact occasion_of_memberField hk member printed
  case isFalse inBody =>
    obtain ⟨type, -, here⟩ := mem_reading.mp (by simpa [variablesScript] using printed)
    obtain ⟨rfl, -, rfl, rfl⟩ : index = 2 ∧ _ ∧ pos' = .declarators ∧ shift = .level := by
      simpa using here
    exact .declaredNames hk (by simpa using inBody)

theorem occasion_of_constructor (hk : r.kind = .constructorDeclaration)
    (printed : Step.print index what pos' shift ∈ constructorScript r ctx) :
    Occasion r ctx .item index c pos' shift := by
  unfold constructorScript at printed
  split at printed
  case isTrue => cases printed
  case isFalse header =>
    obtain ⟨name, -, here⟩ := mem_reading.mp printed
    obtain ⟨parameters, -, here⟩ := mem_reading.mp here
    obtain ⟨parametersText, -, here⟩ := mem_reading.mp here
    obtain ⟨initializations, -, here⟩ := mem_reading.mp here
    obtain ⟨initializationsText, -, here⟩ := mem_reading.mp here
    obtain ⟨body, -, here⟩ := mem_reading.mp (by simpa [Row.constructorBodySteps] using here)
    cases body with
    | none => simp at here
    | some body =>
      obtain ⟨rfl, -, rfl, rfl⟩ : index = 5 ∧ _ ∧ pos' = .braces ∧ shift = .level := by
        simpa using here
      exact .constructorBody hk (by simpa using header)

theorem occasion_of_method (hk : r.kind = .methodDeclaration)
    (printed : Step.print index what pos' shift ∈ methodScript r ctx) :
    Occasion r ctx .item index c pos' shift := by
  obtain ⟨result, -, here⟩ := mem_reading.mp printed
  obtain ⟨name, -, here⟩ := mem_reading.mp here
  obtain ⟨parameters, -, here⟩ := mem_reading.mp here
  obtain ⟨body, -, here⟩ := mem_reading.mp here
  cases ha : ctx.artifact with
  | header => simp [ha, mem_reading] at here
  | implementation =>
    cases body with
    | none => simp [ha] at here
    | some body =>
      simp only [ha] at here
      obtain ⟨path, -, here⟩ := mem_reading.mp here
      obtain ⟨rfl, -, rfl, rfl⟩ : index = 7 ∧ _ ∧ pos' = .braces ∧ shift = .level := by
        simpa using here
      exact .methodBody hk ha
  | entryPoint => simp [ha] at here

theorem occasion_of_item (hc : r.slots[index]? = some (.node c))
    (printed : Step.print index what pos' shift ∈ itemScript r ctx) :
    Occasion r ctx .item index c pos' shift := by
  unfold itemScript at printed
  cases hk : r.kind <;> simp only [hk] at printed
  case compilationUnit | classBody | unknown =>
    obtain ⟨rfl, rfl⟩ := Row.mem_printSteps printed
    exact .item (by rw [hk]; rfl)
  case forwardDeclarations | typeSpecifiers =>
    obtain ⟨rfl, rfl⟩ := Row.mem_printSteps (by simpa using printed)
    exact .item (by rw [hk]; rfl)
  case packageDeclaration | importDeclaration | modifiers | modifier => cases printed
  case namespaceDeclaration =>
    obtain ⟨name, -, here⟩ := mem_reading.mp printed
    obtain ⟨rfl, rfl⟩ := Row.mem_printSteps (by simpa using here)
    exact .nestedItem (by rw [hk]; rfl)
  case forwardDeclaration | typeSpecifier | vtableDeclaration | mainMethodDefinition
      | classMethodDefinition => exact absurd printed not_mem_writing
  case classDeclaration => exact occasion_of_class hk printed
  case fieldDeclaration => exact occasion_of_field hk printed
  case constructorDeclaration => exact occasion_of_constructor hk printed
  case methodDeclaration => exact occasion_of_method hk printed
  case block | expressionStatement | returnStatement | conditionalStatement | whileStatement
      | forStatement | breakStatement | continueStatement | emptyStatement =>
    exact occasion_of_statement hc printed
  -- Every other kind is a line with an expression.
  all_goals exact occasion_of_inline rfl (by simpa [Kind.isStatement] using printed)

/-- A nested node is printed on one of the occasions. -/
theorem occasion_of_mem (hc : r.slots[index]? = some (.node c))
    (printed : Step.print index what pos' shift ∈ r.script ctx pos) :
    Occasion r ctx pos index c pos' shift := by
  cases pos with
  | item => exact occasion_of_item hc printed
  | inline => exact occasion_of_inline rfl printed
  | braces =>
    obtain ⟨rfl, rfl⟩ := mem_bracesScript printed
    exact .bracedItem
  | alternative => exact occasion_of_alternative rfl .condition hc printed
  | loopHead => exact occasion_of_loopHead printed
  | declarator => exact occasion_of_declarator printed
  | declarators =>
    obtain ⟨rfl, rfl⟩ := Row.mem_commaSteps printed
    exact .declarator
  | definitions lead => exact occasion_of_definitions printed
  | shifted => exact occasion_of_shifted printed
  | bounds => exact occasion_of_bounds printed

theorem Tree.occasion {t : Tree} {first rest : Script}
    (steps : t.script ctx pos = first ++ .print index what pos' shift :: rest)
    (hc : t.slots[index]? = some (.node c)) : Occasion t.row ctx pos index c pos' shift := by
  have printed : Step.print index what pos' shift ∈ t.script ctx pos := by simp [steps]
  exact occasion_of_mem hc printed

end Printed

end ClassLowering
