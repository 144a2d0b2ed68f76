import ClassLowering.Proofs.Printing.Script

/-!
# The slots that a script prints

A script prints nodes in the order of their slots, so no slot is printed twice. Where a rule reads
other slots as types, names or modifiers, its lemma says which slots it has printed.
-/

set_option autoImplicit false

namespace ClassLowering

open Script

def Script.indexes (steps : Script) : List Nat :=
  steps.filterMap fun
    | .print index _ _ _ => some index
    | _ => none

namespace Script

theorem mem_indexes {steps : Script} {index : Nat} : index ∈ steps.indexes ↔
    ∃ what pos shift, Step.print index what pos shift ∈ steps := by
  constructor
  · intro h
    obtain ⟨step, hm, hs⟩ := List.mem_filterMap.mp h
    cases step with
    | write s => cases hs
    | fail e => cases hs
    | print i what pos shift =>
      cases hs
      exact ⟨what, pos, shift, hm⟩
  · rintro ⟨what, pos, shift, hm⟩
    exact List.mem_filterMap.mpr ⟨_, hm, rfl⟩

@[simp] theorem indexes_nil : indexes [] = [] := rfl

@[simp] theorem indexes_write (s : String) (rest : Script) :
    indexes (.write s :: rest) = indexes rest := rfl

@[simp] theorem indexes_fail (e : Fault) (rest : Script) :
    indexes (.fail e :: rest) = indexes rest := rfl

@[simp] theorem indexes_print (index : Nat) (what : String) (pos : Position) (shift : Shift)
    (rest : Script) : indexes (.print index what pos shift :: rest) = index :: indexes rest := rfl

@[simp] theorem indexes_operand (index : Nat) (what : String) (rest : Script) :
    indexes (.operand index what :: rest) = index :: indexes rest := rfl

@[simp] theorem indexes_append (a b : Script) : indexes (a ++ b) = indexes a ++ indexes b :=
  List.filterMap_append

@[simp] theorem indexes_writing (x : Except Fault String) : indexes (writing x) = [] := by
  cases x <;> rfl

theorem indexes_reading {α : Type} {P : List Nat → Prop} (stops : P []) (x : Except Fault α)
    {rest : α → Script} (goesOn : ∀ a, P (rest a).indexes) : P (reading x rest).indexes := by
  cases x with
  | error e => exact stops
  | ok a => exact goesOn a

theorem reading_sublist {α : Type} {slots : List Nat} (x : Except Fault α) {rest : α → Script}
    (goesOn : ∀ a, (rest a).indexes.Sublist slots) : (reading x rest).indexes.Sublist slots :=
  indexes_reading (P := (·.Sublist slots)) (List.nil_sublist slots) x goesOn

end Script

theorem indexes_printSteps (r : Row Tree) (pos : Position) (shift : Shift) :
    (r.printSteps pos shift).indexes = r.nodeIndexes := by
  rw [Row.printSteps, Script.indexes, List.filterMap_map]
  exact List.filterMap_some

theorem indexes_flatMap {around : Step → Script}
    (h : ∀ step, (around step).indexes = indexes [step]) (steps : Script) :
    indexes (steps.flatMap around) = steps.indexes := by
  induction steps with
  | nil => rfl
  | cons step rest ih =>
    rw [List.flatMap_cons, indexes_append, h, ih, ← indexes_append]
    rfl

theorem indexes_intersperse (mark : String) (steps : Script) :
    indexes (steps.intersperse (.write mark)) = steps.indexes := by
  induction steps with
  | nil => rfl
  | cons step rest ih =>
    cases rest with
    | nil => rfl
    | cons next rest =>
      rw [List.intersperse_cons_cons, ← List.singleton_append, indexes_append, indexes_write, ih,
        ← indexes_append]
      rfl

section Ascending

variable (r : Row Tree) (ctx : Context)

theorem indexes_terminatorSteps (e : Tree) : e.terminatorSteps.indexes = [] := by
  unfold Tree.terminatorSteps
  split <;> rfl

theorem indexes_branchSteps (body : Tree) (index : Nat) (what : String) :
    (body.branchSteps ctx index what).indexes = [index] := by
  unfold Tree.branchSteps
  split <;> rfl

theorem indexes_staticOwner : (staticOwnerScript r).indexes = [] := by
  unfold staticOwnerScript
  rcases r.child? 0 "class" with _ | _ | t
  · rfl
  · rfl
  · cases h : t.recordText <;> simp [reading, h]

attribute [local simp] indexes_printSteps Row.nodeIndexes_ascending Row.commaSteps
  indexes_intersperse indexes_terminatorSteps indexes_branchSteps

theorem inlineScript_ascending : (inlineScript r ctx).indexes.Pairwise (· < ·) := by
  unfold inlineScript
  cases r.kind
  case expression | additiveExpression | multiplicativeExpression | relationalExpression
      | equalityExpression | logicalAndExpression | logicalOrExpression =>
    cases r.text 1 "operator" <;> simp [reading]
  case prefixExpression => cases r.text 1 "operator" <;> simp [reading]
  case unaryExpression => cases r.text 0 "operator" <;> simp [reading]
  case castExpression => exact indexes_reading .nil _ fun _ => by simp
  case staticSelectionExpression => exact indexes_reading .nil _ fun _ => by simp
  case callExpression =>
    rcases r.child? 0 "receiver" with _ | _ | _ <;> simp [reading]
  case staticCallExpression => simp [indexes_staticOwner]
  case printingExpression =>
    unfold printingScript
    rcases r.child? 0 "printed items" with _ | _ | _ <;> cases r.text 1 "print variant" <;>
      simp [reading]
  case newClassExpression => exact indexes_reading .nil _ fun _ => by simp
  case cppNewClassExpression => exact indexes_reading .nil _ fun _ => by simp
  case newArrayExpression =>
    exact indexes_reading .nil _ fun _ => indexes_reading .nil _ fun _ => by simp
  case stringLiteral => exact indexes_reading .nil _ fun _ => by simp
  case statementBlock => simp [statementBlockScript]
  all_goals simp

theorem shiftedScript_ascending : (shiftedScript r ctx).indexes.Pairwise (· < ·) := by
  unfold shiftedScript
  split
  · have around : ∀ step, indexes [.write " << ", step] = indexes [step] := fun _ => rfl
    rw [indexes_flatMap around]
    simp
  · exact inlineScript_ascending r ctx

theorem boundsScript_ascending : (boundsScript r).indexes.Pairwise (· < ·) := by
  have around : ∀ step, indexes [.write "(", step, .write ")"] = indexes [step] := by
    intro step
    cases step <;> rfl
  rw [boundsScript, indexes_flatMap around]
  simp

theorem definitionsScript_ascending (lead : String) :
    (definitionsScript r ctx lead).indexes.Pairwise (· < ·) := by
  have around : ∀ step, indexes [.write (ctx.indentation ++ lead), step, .write ";\n"] =
      indexes [step] := by
    intro step
    cases step <;> rfl
  rw [definitionsScript, indexes_flatMap around]
  simp

theorem bracesScript_ascending : (bracesScript r ctx).indexes.Pairwise (· < ·) := by
  unfold bracesScript
  split <;> simp

theorem alternativeScript_ascending : (alternativeScript r ctx).indexes.Pairwise (· < ·) := by
  unfold alternativeScript
  cases r.child 1 "consequence" with
  | error e => simp [reading]
  | ok consequence =>
    cases (r.slots[2]?).bind Slot.node? with
    | none => simp [reading, Context.elseSteps]
    | some rest =>
      by_cases h : rest.is .conditionalStatement = true <;> simp [reading, Context.elseSteps, h]

theorem declaratorScript_ascending : (declaratorScript r).indexes.Pairwise (· < ·) := by
  refine indexes_reading .nil _ fun _ => indexes_reading .nil _ fun value => ?_
  cases value <;> simp

theorem indexes_loopClauseSteps (index : Nat) (what : String) :
    (r.loopClauseSteps index what).indexes.Sublist [index] := by
  unfold Row.loopClauseSteps
  rcases r.child? index what with _ | _ | _ <;> simp [reading]

theorem indexes_loopStart : (loopStartScript r ctx).indexes.Sublist [2] := by
  unfold loopStartScript
  rcases r.child? 1 "variable type" with _ | _ | type
  · simp [reading]
  · rcases r.child? 2 "initializer" with _ | _ | _ <;> simp [reading]
  · cases h : type.typeText ctx.runtime <;> simp [reading, h]

theorem indexes_loopHead : (loopHeadScript r ctx).indexes.Sublist [2, 3, 4] := by
  rw [loopHeadScript, indexes_append, indexes_append, indexes_write, indexes_write]
  exact ((indexes_loopStart r ctx).append (indexes_loopClauseSteps r 3 _)).append
    (indexes_loopClauseSteps r 4 _)

theorem loopHeadScript_ascending : (loopHeadScript r ctx).indexes.Pairwise (· < ·) :=
  List.Pairwise.sublist (indexes_loopHead r ctx) (by decide)

theorem statementScript_ascending : (statementScript r ctx).indexes.Pairwise (· < ·) := by
  unfold statementScript
  cases r.kind
  case block => simpa using bracesScript_ascending r ctx
  case expressionStatement => cases r.child 0 "expression" <;> simp [reading]
  case returnStatement => cases (r.slots[0]?).bind Slot.node? <;> simp [Context.returnSteps]
  case conditionalStatement => simpa using alternativeScript_ascending r ctx
  case whileStatement => cases r.child 1 "loop body" <;> simp [reading]
  case forStatement => cases r.child 1 "loop body" <;> simp [reading]
  all_goals simp

theorem indexes_variables : (variablesScript r ctx).indexes.Sublist [2] :=
  reading_sublist _ fun _ => by simp

theorem indexes_memberField : (memberFieldScript r ctx).indexes.Sublist
    (if ctx.artifact = .implementation then [2] else []) := by
  refine reading_sublist _ fun modifiers => reading_sublist _ fun type =>
    reading_sublist _ fun declarators => ?_
  cases ctx.artifact with
  | header => exact reading_sublist _ fun _ => by simp
  | implementation =>
    by_cases h : modifiers.any Tree.hasStatic = true
    · simp only [h, if_true]
      exact reading_sublist _ fun _ => by simp
    · simp [h]
  | entryPoint => exact List.nil_sublist _

theorem indexes_constructor : (constructorScript r ctx).indexes.Sublist [5] := by
  unfold constructorScript
  split
  · exact List.nil_sublist _
  · refine reading_sublist _ fun _ => reading_sublist _ fun _ => reading_sublist _ fun _ =>
      reading_sublist _ fun _ => reading_sublist _ fun _ => ?_
    unfold Row.constructorBodySteps
    rcases r.child? 5 "constructor body" with _ | _ | _ <;> simp [reading]

theorem indexes_method : (methodScript r ctx).indexes.Sublist [7] := by
  refine reading_sublist _ fun _ => reading_sublist _ fun _ => reading_sublist _ fun _ =>
    reading_sublist _ fun body => ?_
  cases ctx.artifact with
  | header => exact reading_sublist _ fun _ => by simp
  | implementation =>
    cases body with
    | none => exact List.nil_sublist _
    | some _ => exact reading_sublist _ fun _ => by simp
  | entryPoint => exact List.nil_sublist _

theorem itemScript_ascending : (itemScript r ctx).indexes.Pairwise (· < ·) := by
  unfold itemScript
  generalize hk : r.kind = k
  cases k
  case namespaceDeclaration => exact indexes_reading .nil _ fun _ => by simp
  case classDeclaration =>
    refine indexes_reading .nil _ fun _ => indexes_reading .nil _ fun _ => ?_
    cases ctx.artifact <;> simp
  case fieldDeclaration =>
    show (fieldScript r ctx).indexes.Pairwise (· < ·)
    unfold fieldScript
    split
    · refine List.Pairwise.sublist (indexes_memberField r ctx) ?_
      split <;> decide
    · simpa using List.Pairwise.sublist (indexes_variables r ctx) (by decide)
  case constructorDeclaration => exact List.Pairwise.sublist (indexes_constructor r ctx) (by decide)
  case methodDeclaration => exact List.Pairwise.sublist (indexes_method r ctx) (by decide)
  all_goals simp [Kind.isStatement, inlineScript_ascending r ctx, statementScript_ascending r ctx]

/-- No slot is printed twice. -/
theorem script_ascending (pos : Position) : (r.script ctx pos).indexes.Pairwise (· < ·) := by
  cases pos with
  | item => exact itemScript_ascending r ctx
  | inline => exact inlineScript_ascending r ctx
  | braces => exact bracesScript_ascending r ctx
  | alternative => exact alternativeScript_ascending r ctx
  | loopHead => exact loopHeadScript_ascending r ctx
  | declarator => exact declaratorScript_ascending r
  | declarators => simp [Row.script]
  | definitions lead => exact definitionsScript_ascending r ctx lead
  | shifted => exact shiftedScript_ascending r ctx
  | bounds => exact boundsScript_ascending r

end Ascending

end ClassLowering
