import ClassLowering.Proofs.Printing.Script

/-!
# Running a script

`Script.run` carries out the steps of a script, where every nested node prints as its part says.
Each printing rule is the run of its script: the two read the same slots in the same order, so
they write the same text or have the same fault. From here on a question about what a node
prints is a question about its script.
-/

set_option autoImplicit false

namespace ClassLowering

open Text (joinWith concat)

namespace Script

def run (r : Row Part) (ctx : Context) : Script → Except Fault String
  | [] => .ok ""
  | .write s :: rest => do return s ++ (← run r ctx rest)
  | .fail e :: _ => .error e
  | .print index what pos shift :: rest => do
    let text ← (← r.child index what).print pos ((ctx.inside r.kind).moved shift)
    return text ++ (← run r ctx rest)

variable (r : Row Part) (ctx : Context)

theorem run_append (a b : Script) : run r ctx (a ++ b) = (do
    let s ← run r ctx a
    return s ++ (← run r ctx b)) := by
  induction a with
  | nil => simp [run]
  | cons step a ih => cases step <;> simp [run, ih, String.append_assoc]

/-- Two runs of one script agree if they agree wherever it prints a nested node. -/
theorem run_congr {r₁ r₂ : Row Part} {ctx₁ ctx₂ : Context} {steps : Script}
    (h : ∀ index what pos shift, Step.print index what pos shift ∈ steps →
      (do (← r₁.child index what).print pos ((ctx₁.inside r₁.kind).moved shift)) =
        (do (← r₂.child index what).print pos ((ctx₂.inside r₂.kind).moved shift))) :
    run r₁ ctx₁ steps = run r₂ ctx₂ steps := by
  induction steps with
  | nil => rfl
  | cons step rest ih =>
    have later := ih fun index what pos shift hm =>
      h index what pos shift (List.mem_cons_of_mem _ hm)
    cases step with
    | write s => simp [run, later]
    | fail e => rfl
    | print index what pos shift =>
      have here := h index what pos shift List.mem_cons_self
      simp only [run, ← bind_assoc, later, here]

theorem run_cons (step : Step) (rest : Script) : run r ctx (step :: rest) = (do
    let s ← run r ctx [step]
    return s ++ (← run r ctx rest)) :=
  run_append r ctx [step] rest

theorem run_reading {α : Type} (x : Except Fault α) (rest : α → Script) :
    run r ctx (reading x rest) = x >>= fun a => run r ctx (rest a) := by
  cases x <;> rfl

theorem run_writing (x : Except Fault String) : run r ctx (writing x) = x := by
  cases x <;> simp [writing, reading, run]

theorem run_ite (c : Prop) [Decidable c] (a b : Script) :
    run r ctx (if c then a else b) = if c then run r ctx a else run r ctx b := by
  split <;> rfl

theorem run_operand (index : Nat) (what : String) (rest : Script) :
    run r ctx (.operand index what :: rest) = (do
      let text ← r.operand ctx index what
      return text ++ (← run r ctx rest)) := by
  simp [Step.operand, run, Row.operand, Context.moved]

/-! ## Many steps of one form -/

theorem run_eq_mapM (steps : Script) :
    run r ctx steps = (do return concat (← steps.mapM fun step => run r ctx [step])) := by
  induction steps with
  | nil => rfl
  | cons step steps ih =>
    rw [run_cons, ih]
    simp [concat]

theorem run_intersperse (mark : String) (steps : Script) :
    run r ctx (steps.intersperse (.write mark)) =
      (do return joinWith mark (← steps.mapM fun step => run r ctx [step])) := by
  induction steps with
  | nil => rfl
  | cons step steps ih =>
    cases steps with
    | nil => simp [joinWith]
    | cons next rest =>
      rw [List.intersperse_cons_cons, run_cons, run, ih, List.mapM_cons]
      simp [joinWith, String.append_assoc]

theorem run_flatMap {around : Step → Script} {f : String → String}
    (h : ∀ step, run r ctx (around step) = (do return f (← run r ctx [step]))) (steps : Script) :
    run r ctx (steps.flatMap around) =
      (do return concat ((← steps.mapM fun step => run r ctx [step]).map f)) := by
  induction steps with
  | nil => rfl
  | cons step steps ih =>
    rw [List.flatMap_cons, run_append, ih, h, List.mapM_cons]
    simp [concat]

theorem mapM_printSteps (pos : Position) (shift : Shift) :
    ((r.map Part.tree).printSteps pos shift).mapM (fun step => run r ctx [step]) =
      r.children.mapM fun p => p.print pos ((ctx.inside r.kind).moved shift) := by
  rw [Row.printSteps, Row.nodeIndexes_map, List.mapM_map, ← r.mapM_nodeIndexes_bind ""]
  congr 1
  funext index
  simp [run]

theorem run_printSteps (pos : Position) (shift : Shift) :
    run r ctx ((r.map Part.tree).printSteps pos shift) =
      (do return concat (← r.children.mapM fun p =>
        p.print pos ((ctx.inside r.kind).moved shift))) := by
  rw [run_eq_mapM, mapM_printSteps]

theorem run_commaSteps (pos : Position) :
    run r ctx ((r.map Part.tree).commaSteps pos) =
      (do return joinWith ", " (← r.printChildren pos ctx)) := by
  rw [Row.commaSteps, run_intersperse, mapM_printSteps]
  rfl

end Script

section Rules

open Script

variable (r : Row Part) (ctx : Context)

attribute [local simp] run run_append run_reading run_writing run_operand run_printSteps
  run_commaSteps String.append_assoc

/-! ## Expressions -/

theorem printingText_eq_run :
    printingText r ctx = run r ctx (printingScript (r.map Part.tree)) := by
  simp only [printingText, printingScript]
  cases h : r.child? 0 "printed items" with
  | error e => simp [h]
  | ok items =>
    cases items with
    | none => simp [h]
    | some p => simp [h, Row.child_of_child? h, Context.moved]

theorem newArrayText_eq_run :
    newArrayText r ctx = run r ctx (newArrayScript (r.map Part.tree) ctx) := by
  simp only [newArrayText, newArrayScript]
  cases h : r.child 1 "dimensions" with
  | error e => simp [h]
  | ok p => simp [h, Context.moved]

theorem statementBlockText_eq_run :
    statementBlockText r ctx = run r ctx (statementBlockScript (r.map Part.tree) ctx) := by
  simp [statementBlockText, statementBlockScript, Row.printChildren]
  rfl

theorem inlineText_eq_run : inlineText r ctx = run r ctx (inlineScript (r.map Part.tree) ctx) := by
  simp only [inlineText, inlineScript, Row.kind_map]
  generalize hk : r.kind = k
  cases k
  case callExpression =>
    cases h : r.child? 0 "receiver" with
    | error e => simp [h]
    | ok receiver =>
      cases receiver with
      | none => simp [h]
      | some p => simp [h, Row.operand, Row.child_of_child? h, hk]
  case staticCallExpression =>
    cases h : r.child? 0 "class" with
    | error e => simp [staticOwnerScript, h]
    | ok owner => cases owner <;> simp [staticOwnerScript, h]
  case printingExpression => exact printingText_eq_run r ctx
  case newArrayExpression => exact newArrayText_eq_run r ctx
  case statementBlock => exact statementBlockText_eq_run r ctx
  case arguments => simp [Row.commaSeparated]
  case expressionList => simp [Row.commaSeparated]
  case unknown => simp [Row.printChildren, Context.moved]
  all_goals simp

theorem shiftedText_eq_run :
    shiftedText r ctx = run r ctx (shiftedScript (r.map Part.tree) ctx) := by
  unfold shiftedText shiftedScript
  by_cases h : r.kind = .expressionList
  · rw [if_pos h, Row.kind_map, if_pos h]
    rw [run_flatMap r ctx (f := (" << " ++ ·)) fun _ => rfl, mapM_printSteps]
    rfl
  · simp [h, inlineText_eq_run, concat]

theorem boundsText_eq_run : boundsText r ctx = run r ctx (boundsScript (r.map Part.tree)) := by
  have around : ∀ step, run r ctx [.write "(", step, .write ")"] =
      (do return "(" ++ (← run r ctx [step]) ++ ")") := by
    intro step
    cases step <;> simp
  rw [boundsText, boundsScript, run_flatMap r ctx around, mapM_printSteps]
  rfl

/-! ## Statements -/

theorem bracesText_eq_run : bracesText r ctx = run r ctx (bracesScript (r.map Part.tree) ctx) := by
  have same : (r.map Part.tree).slots.isEmpty = r.slots.isEmpty := by simp [Row.map]
  unfold bracesText bracesScript
  rw [same]
  split
  · simp
  · simp [Row.printChildren]
    rfl

theorem terminated_eq_run {p : Part} {index : Nat} {what : String} (h : r.child index what = .ok p)
    (rest : Script) :
    run r ctx (.operand index what :: (p.tree.terminatorSteps ++ rest)) = (do
      let text ← p.terminated (ctx.inside r.kind)
      return text ++ (← run r ctx rest)) := by
  unfold Tree.terminatorSteps Part.terminated
  split <;> simp [Row.operand, h]

theorem branch_eq_run {p : Part} {index : Nat} {what : String} (h : r.child index what = .ok p) :
    run r ctx (p.tree.branchSteps ctx index what) = p.branch (ctx.inside r.kind) := by
  unfold Tree.branchSteps Part.branch
  split
  · simp [h, Context.moved]
  · simp [h, Context.moved]
    rfl

theorem alternativeText_eq_run :
    alternativeText r ctx = run r ctx (alternativeScript (r.map Part.tree) ctx) := by
  simp only [alternativeText, alternativeScript, Context.elseSteps]
  cases hc : r.child 1 "consequence" with
  | error e => simp [hc]
  | ok consequence =>
    cases hr : (r.slots[2]?).bind Slot.node? with
    | none => simp [hc, hr, branch_eq_run r ctx hc]
    | some rest =>
      have hrest := Row.child_of_node? hr ""
      by_cases hk : rest.tree.is .conditionalStatement = true
      · simp [hc, hr, branch_eq_run r ctx hc, hk, hrest, Context.moved]
      · simp [hc, hr, branch_eq_run r ctx hc, hk, branch_eq_run r ctx hrest]

theorem declaratorText_eq_run :
    declaratorText r ctx = run r ctx (declaratorScript (r.map Part.tree)) := by
  simp only [declaratorText, declaratorScript]
  cases h : r.child? 2 "initializer" with
  | error e => simp [h]
  | ok value =>
    cases value with
    | none => simp [h]
    | some p => simp [h, Row.operand, Row.child_of_child? h]

theorem definitionsText_eq_run (lead : String) :
    definitionsText r ctx lead = run r ctx (definitionsScript (r.map Part.tree) ctx lead) := by
  have around : ∀ step, run r ctx [.write (ctx.indentation ++ lead), step, .write ";\n"] =
      (do return ctx.indentation ++ lead ++ (← run r ctx [step]) ++ ";\n") := by
    intro step
    cases step <;> simp
  rw [definitionsText, definitionsScript, run_flatMap r ctx around, mapM_printSteps]
  rfl

theorem loopClause_eq_run (index : Nat) (what : String) :
    run r ctx ((r.map Part.tree).loopClauseSteps index what) = r.loopClause ctx index what := by
  unfold Row.loopClause Row.loopClauseSteps
  cases h : r.child? index what with
  | error e => simp [h]
  | ok clause =>
    cases clause with
    | none => simp [h]
    | some p => simp [h, Row.operand, Row.child_of_child? h]

theorem loopHeadText_eq_run :
    loopHeadText r ctx = run r ctx (loopHeadScript (r.map Part.tree) ctx) := by
  simp only [loopHeadText, loopHeadScript, loopStartScript]
  cases ht : r.child? 1 "variable type" with
  | error e => simp [ht]
  | ok type =>
    cases type with
    | some type => simp [ht, loopClause_eq_run, Context.moved]
    | none =>
      cases hi : r.child? 2 "initializer" with
      | error e => simp [ht, hi]
      | ok start =>
        cases start with
        | none => simp [ht, hi, loopClause_eq_run]
        | some p => simp [ht, hi, loopClause_eq_run, Row.operand, Row.child_of_child? hi]

theorem variablesText_eq_run :
    variablesText r ctx = run r ctx (variablesScript (r.map Part.tree) ctx) := by
  simp [variablesText, variablesScript, Context.moved]

theorem statementText_eq_run :
    statementText r ctx = run r ctx (statementScript (r.map Part.tree) ctx) := by
  simp only [statementText, statementScript, Row.kind_map]
  generalize hk : r.kind = k
  cases k
  case block => simp [bracesText_eq_run]
  case expressionStatement =>
    cases h : r.child 0 "expression" with
    | error e => simp [h]
    | ok p =>
      have printed := terminated_eq_run r ctx h [.write "\n"]
      rw [hk] at printed
      simp [h, -run_operand, -run_append, printed]
  case returnStatement =>
    cases h : (r.slots[0]?).bind Slot.node? with
    | none => simp [h, Context.returnSteps]
    | some p =>
      have printed := terminated_eq_run r ctx (Row.child_of_node? h "") [.write "\n"]
      rw [hk] at printed
      simp [h, Context.returnSteps, -run_operand, -run_append, printed]
  case conditionalStatement => simp [alternativeText_eq_run]
  case whileStatement =>
    cases h : r.child 1 "loop body" with
    | error e => simp [h]
    | ok body => simp [h, branch_eq_run r ctx h, hk]
  case forStatement =>
    cases h : r.child 1 "loop body" with
    | error e => simp [h, Context.moved, hk]
    | ok body => simp [h, branch_eq_run r ctx h, Context.moved, hk]
  all_goals simp

/-! ## Declarations -/

theorem namespaceText_eq_run :
    namespaceText r ctx = run r ctx (namespaceScript (r.map Part.tree) ctx) := by
  simp [namespaceText, namespaceScript, itemsText, Row.printChildren]
  rfl

theorem classText_eq_run : classText r ctx = run r ctx (classScript (r.map Part.tree) ctx) := by
  simp only [classText, classScript]
  cases h : r.child 5 "class body" with
  | error e => simp [h]
  | ok body => cases ctx.artifact <;> simp [h, Context.moved]

theorem any_hasStatic (modifiers : Option Part) :
    (modifiers.map Part.tree).any Tree.hasStatic = modifiers.any (·.tree.hasStatic) := by
  cases modifiers <;> rfl

theorem memberFieldText_eq_run :
    memberFieldText r ctx = run r ctx (memberFieldScript (r.map Part.tree) ctx) := by
  simp only [memberFieldText, memberFieldScript]
  cases h : r.child 2 "declarators" with
  | error e => simp [h]
  | ok declarators =>
    cases ctx.artifact with
    | header => simp [h, staticLead, any_hasStatic]
    | implementation => simp [h, any_hasStatic, run_ite, Context.moved]
    | entryPoint => simp [h]

theorem fieldText_eq_run : fieldText r ctx = run r ctx (fieldScript (r.map Part.tree) ctx) := by
  unfold fieldText fieldScript
  split
  · exact memberFieldText_eq_run r ctx
  · simp [variablesText_eq_run]

theorem constructorText_eq_run :
    constructorText r ctx = run r ctx (constructorScript (r.map Part.tree) ctx) := by
  unfold constructorText constructorScript Row.constructorBodySteps
  split
  · rfl
  · cases hp : r.child? 3 "parameters" with
    | error e => simp [hp]
    | ok parameters =>
      cases hi : r.child? 4 "initializations" with
      | error e => cases parameters <;> simp [hp, hi]
      | ok initializations =>
        cases hb : r.child? 5 "constructor body" with
        | error e => cases parameters <;> cases initializations <;> simp [hp, hi, hb]
        | ok body =>
          cases body with
          | none => cases parameters <;> cases initializations <;> simp [hp, hi, hb]
          | some p =>
            cases parameters <;> cases initializations <;>
              simp [hp, hi, hb, Row.child_of_child? hb, Context.moved]

theorem methodText_eq_run : methodText r ctx = run r ctx (methodScript (r.map Part.tree) ctx) := by
  simp only [methodText, methodScript, Row.methodSteps]
  cases hb : r.child? 7 "method body" with
  | error e => simp [hb]
  | ok body =>
    cases ctx.artifact with
    | header => simp [hb, staticLead, any_hasStatic]
    | implementation =>
      cases body with
      | none => simp [hb]
      | some p => simp [hb, Row.child_of_child? hb, Context.moved]
    | entryPoint => simp [hb]

theorem itemText_eq_run : itemText r ctx = run r ctx (itemScript (r.map Part.tree) ctx) := by
  simp only [itemText, itemScript, Row.kind_map]
  generalize hk : r.kind = k
  cases k
  case namespaceDeclaration => exact namespaceText_eq_run r ctx
  case classDeclaration => exact classText_eq_run r ctx
  case fieldDeclaration => exact fieldText_eq_run r ctx
  case constructorDeclaration => exact constructorText_eq_run r ctx
  case methodDeclaration => exact methodText_eq_run r ctx
  case forwardDeclaration => simp [forwardDeclarationText, Row.quiet]
  case typeSpecifier => simp [typeSpecifierText, Row.quiet]
  case vtableDeclaration => simp [dispatchTableText, Row.quiet, Part.tree]
  case mainMethodDefinition => simp [mainText, Row.quiet]
  case classMethodDefinition => simp [classObjectText, Row.quiet]
  case compilationUnit => simp [itemsText, Row.printChildren, Context.moved]
  case classBody => simp [itemsText, Row.printChildren, Context.moved]
  case unknown => simp [itemsText, Row.printChildren, Context.moved]
  case forwardDeclarations => simp [itemsText, Row.printChildren, Context.moved]
  case typeSpecifiers => simp [itemsText, Row.printChildren, Context.moved]
  all_goals simp [Kind.isStatement, statementText_eq_run, inlineText_eq_run]

/-- A node prints what the run of its script prints. -/
theorem printRule_eq_run (pos : Position) :
    printRule r pos ctx = run r ctx ((r.map Part.tree).script ctx pos) := by
  cases pos with
  | item => exact itemText_eq_run r ctx
  | inline => exact inlineText_eq_run r ctx
  | braces => exact bracesText_eq_run r ctx
  | alternative => exact alternativeText_eq_run r ctx
  | loopHead => exact loopHeadText_eq_run r ctx
  | declarator => exact declaratorText_eq_run r ctx
  | declarators => exact (run_commaSteps r ctx .declarator).symm
  | definitions lead => exact definitionsText_eq_run r ctx lead
  | shifted => exact shiftedText_eq_run r ctx
  | bounds => exact boundsText_eq_run r ctx

end Rules

namespace Tree

def parts (t : Tree) : Row Part := t.row.map fun s => (s, s.print)

@[simp] theorem kind_parts (t : Tree) : t.parts.kind = t.kind := rfl

theorem child_parts {t c : Tree} {index : Nat} (h : t.slots[index]? = some (.node c))
    (what : String) : t.parts.child index what = .ok (c, c.print) := by
  have read : t.row.child index what = .ok c := Row.child_eq_ok.mpr h
  simp [parts, read]

theorem eq_of_child_parts {t : Tree} {index : Nat} {what : String} {p : Part}
    (h : t.parts.child index what = .ok p) :
    ∃ c, t.slots[index]? = some (.node c) ∧ p = (c, c.print) :=
  Row.exists_of_child_map h

theorem map_tree_parts (t : Tree) : t.parts.map Part.tree = t.row := by
  rw [parts, Row.map_eq_mapSlots fun s : Tree => (s, s.print),
    Row.map_mapSlots_cancel fun _ _ => rfl]

def script (t : Tree) (ctx : Context) (pos : Position) : Script := t.row.script ctx pos

theorem print_eq_run (t : Tree) (pos : Position) (ctx : Context) :
    t.print pos ctx = (t.script ctx pos).run t.parts ctx := by
  rw [print_eq, printRule_eq_run]
  congr 1
  exact congrArg (Row.script · ctx pos) t.map_tree_parts

end Tree

/-! ## Expressions by position -/

/-- A kind that has no rule of its own among items, where a node of it is a line with its text as an
expression. -/
def Kind.isInline (k : Kind) : Bool :=
  match k with
  | .compilationUnit | .classBody | .unknown | .forwardDeclarations | .typeSpecifiers
  | .packageDeclaration | .importDeclaration | .modifiers | .modifier | .namespaceDeclaration
  | .forwardDeclaration | .typeSpecifier | .classDeclaration | .vtableDeclaration
  | .fieldDeclaration | .constructorDeclaration | .methodDeclaration | .mainMethodDefinition
  | .classMethodDefinition | .expressionList => false
  | k => !k.isStatement

/-- What a position that takes an expression has before and after it. -/
def Position.frame? (ctx : Context) : Position → Option (String × String)
  | .inline => some ("", "")
  | .item => some (ctx.indentation, "\n")
  | .shifted => some (" << ", "")
  | _ => none

theorem Tree.print_framed {t : Tree} (hk : t.kind.isInline = true) {pos : Position} {ctx : Context}
    {opening closing : String} (hf : pos.frame? ctx = some (opening, closing)) :
    t.print pos ctx = (do return opening ++ (← t.print .inline ctx) ++ closing) := by
  rw [print_eq]
  unfold Position.frame? at hf
  split at hf <;> cases hf
  · simp [printRule]
  · change itemText t.parts ctx = do return _ ++ (← inlineText t.parts ctx) ++ _
    unfold itemText
    rw [kind_parts]
    generalize t.kind = k at hk
    cases k <;> simp_all [Kind.isInline, Kind.isStatement]
  · have list : t.kind ≠ .expressionList := by
      intro h
      rw [h] at hk
      cases hk
    change shiftedText t.parts ctx = do return _ ++ (← inlineText t.parts ctx) ++ _
    simp [shiftedText, list, concat]

end ClassLowering
