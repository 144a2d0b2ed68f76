import ClassLowering.Proofs.Printing.Reach
import ClassLowering.Proofs.Printing.Slots

/-!
# Another node in the place of a printed one

A rule reads some of the nodes in its slots as types, names or modifiers, and has others printed. No
rule does both to one slot, and none prints a slot twice. So where a printed node is exchanged for
one that answers the same questions, the script stays the same, and the text changes in one place:
what was the text of the node is the text of the other one.
-/

set_option autoImplicit false

namespace ClassLowering

open Script

/-- The questions that a rule asks of a node that it prints at a position. -/
structure Alike (pos : Position) (a b : Tree) : Prop where
  block : a.is .block = b.is .block
  statementBlock : a.is .statementBlock = b.is .statementBlock
  conditional : a.is .conditionalStatement = b.is .conditionalStatement
  count : pos = .bounds → a.slots.length = b.slots.length

/-! ## Scripts do not see the nodes that they print -/

section Put

variable {r : Row Tree} {index : Nat} {a b : Tree} (h : r.slots[index]? = some (.node a))

include h

theorem reading_child_put {f : Tree → Script} (same : f a = f b) (j : Nat) (what : String) :
    reading ((r.put index b).child j what) f = reading (r.child j what) f := by
  by_cases hj : j = index
  · subst hj
    rw [Row.child_eq_ok.mpr h, Row.child_eq_ok.mpr (Row.slots_put_self h b)]
    exact same.symm
  · rw [Row.child_put_ne hj]

theorem reading_child?_put {f : Option Tree → Script} (same : f (some a) = f (some b)) (j : Nat)
    (what : String) :
    reading ((r.put index b).child? j what) f = reading (r.child? j what) f := by
  by_cases hj : j = index
  · subst hj
    have before : r.child? j what = .ok (some a) := by simp [Row.child?, Row.slot, h]
    have after : (r.put j b).child? j what = .ok (some b) := by
      simp [Row.child?, Row.slot, Row.slots_put_self h b]
    rw [before, after]
    exact same.symm
  · rw [Row.child?_put_ne hj]

theorem node?_put {f : Option Tree → Script} (same : f (some a) = f (some b)) (j : Nat) :
    f (((r.put index b).slots[j]?).bind Slot.node?) = f ((r.slots[j]?).bind Slot.node?) := by
  by_cases hj : j = index
  · subst hj
    rw [h, Row.slots_put_self h b]
    exact same.symm
  · rw [Row.slots_put_ne hj]

theorem printSteps_put (pos : Position) (shift : Shift) :
    (r.put index b).printSteps pos shift = r.printSteps pos shift := by
  rw [Row.printSteps, Row.nodeIndexes_put h, Row.printSteps]

theorem commaSteps_put (pos : Position) :
    (r.put index b).commaSteps pos = r.commaSteps pos := by
  rw [Row.commaSteps, printSteps_put h, Row.commaSteps]

end Put

namespace Alike

variable {pos : Position} {a b : Tree} (alike : Alike pos a b)

include alike

theorem terminatorSteps_eq : a.terminatorSteps = b.terminatorSteps := by
  rw [Tree.terminatorSteps, alike.statementBlock, Tree.terminatorSteps]

theorem branchSteps_eq (ctx : Context) (index : Nat) (what : String) :
    a.branchSteps ctx index what = b.branchSteps ctx index what := by
  rw [Tree.branchSteps, alike.block, Tree.branchSteps]

end Alike

theorem Script.mem_reading {α : Type} {x : Except Fault α} {rest : α → Script} {index : Nat}
    {what : String} {pos : Position} {shift : Shift} :
    Step.print index what pos shift ∈ reading x rest ↔
      ∃ a, x = .ok a ∧ Step.print index what pos shift ∈ rest a := by
  cases x <;> simp [reading]

theorem Script.not_mem_writing {x : Except Fault String} {index : Nat} {what : String}
    {pos : Position} {shift : Shift} : Step.print index what pos shift ∉ writing x := by
  cases x <;> simp [writing, reading]

theorem Script.printed_at {steps : Script} {j index : Nat} {what : String} {pos : Position}
    {shift : Shift} (slots : steps.indexes.Sublist [j])
    (printed : Step.print index what pos shift ∈ steps) : index = j := by
  have here := slots.subset (mem_indexes.mpr ⟨what, pos, shift, printed⟩)
  exact List.mem_singleton.mp here

section Exchange

variable {r : Row Tree} {ctx : Context} {index : Nat} {what : String} {pos : Position}
  {shift : Shift} {a b : Tree} (h : r.slots[index]? = some (.node a)) (alike : Alike pos a b)

include h alike

theorem newArrayScript_put (printed : Step.print index what pos shift ∈ newArrayScript r ctx) :
    newArrayScript (r.put index b) ctx = newArrayScript r ctx := by
  unfold newArrayScript at printed ⊢
  obtain ⟨_, -, here⟩ := mem_reading.mp printed
  obtain ⟨_, -, here⟩ := mem_reading.mp here
  obtain ⟨rfl, -, rfl, -⟩ : index = 1 ∧ _ ∧ pos = .bounds ∧ _ := by simpa using here
  rw [Row.child_put_ne (by decide)]
  congr 1
  funext element
  exact reading_child_put h (by rw [alike.count rfl]) _ _

theorem inlineScript_put (printed : Step.print index what pos shift ∈ inlineScript r ctx) :
    inlineScript (r.put index b) ctx = inlineScript r ctx := by
  unfold inlineScript at printed ⊢
  rw [Row.kind_put]
  generalize r.kind = k at printed ⊢
  cases k
  case expression | additiveExpression | multiplicativeExpression | relationalExpression
      | equalityExpression | logicalAndExpression | logicalOrExpression | prefixExpression
      | postfixExpression | unaryExpression | primaryIdentifier | selectionExpression
      | cppNewClassExpression | newCastExpression | stringLiteral | integerLiteral
      | floatingPointLiteral | characterLiteral | booleanLiteral =>
    simp only [Row.text_put h]
  case castExpression =>
    obtain ⟨_, -, here⟩ := mem_reading.mp printed
    obtain ⟨rfl, -⟩ : index = 1 ∧ _ := by simpa [Step.operand] using here
    simp only [Row.child_put_ne (show 0 ≠ 1 by decide)]
  case qualifiedIdentifier => exact absurd printed not_mem_writing
  case type | voidType | primitiveType => exact absurd printed not_mem_writing
  case staticSelectionExpression =>
    obtain ⟨_, -, here⟩ := mem_reading.mp printed
    simp [not_mem_writing] at here
  case callExpression =>
    simp only [Row.text_put h]
    congr 2
    exact reading_child?_put h (by rfl) _ _
  case staticCallExpression =>
    obtain rfl : index = 3 := by
      simpa [indexes_staticOwner] using mem_indexes.mpr ⟨what, pos, shift, printed⟩
    simp only [staticOwnerScript, Row.child?_put_ne (show 0 ≠ 3 by decide), Row.text_put h]
  case arguments | expressionList => simp only [commaSteps_put h]
  case printingExpression =>
    simp only [printingScript, Row.text_put h]
    congr 2
    exact reading_child?_put h (by rfl) _ _
  case newClassExpression =>
    obtain ⟨_, -, here⟩ := mem_reading.mp printed
    obtain ⟨rfl, -⟩ : index = 3 ∧ _ := by simpa [Step.operand] using here
    simp only [Row.child_put_ne (show 2 ≠ 3 by decide)]
  case newArrayExpression => exact newArrayScript_put h alike printed
  case statementBlock => simp only [statementBlockScript, printSteps_put h]
  case unknown => exact printSteps_put h _ _
  all_goals rfl

theorem shiftedScript_put (printed : Step.print index what pos shift ∈ shiftedScript r ctx) :
    shiftedScript (r.put index b) ctx = shiftedScript r ctx := by
  unfold shiftedScript at printed ⊢
  rw [Row.kind_put, printSteps_put h]
  split at printed
  · rw [if_pos ‹_›, if_pos ‹_›]
  · rw [if_neg ‹_›, if_neg ‹_›, inlineScript_put h alike (by simpa using printed)]

omit alike in
theorem bracesScript_put : bracesScript (r.put index b) ctx = bracesScript r ctx := by
  have same : (r.put index b).slots.isEmpty = r.slots.isEmpty := by
    rw [Bool.eq_iff_iff, List.isEmpty_iff, List.isEmpty_iff]
    simp [Row.put]
  rw [bracesScript, same, printSteps_put h, bracesScript]

theorem elseSteps_put : ctx.elseSteps (((r.put index b).slots[2]?).bind Slot.node?) =
    ctx.elseSteps ((r.slots[2]?).bind Slot.node?) := by
  apply node?_put h
  rw [Context.elseSteps, alike.conditional, alike.branchSteps_eq, Context.elseSteps]

theorem alternativeScript_put :
    alternativeScript (r.put index b) ctx = alternativeScript r ctx := by
  unfold alternativeScript
  rw [elseSteps_put h alike]
  congr 1
  exact reading_child_put h (by rw [alike.branchSteps_eq]) _ _

omit alike in
theorem declaratorScript_put : declaratorScript (r.put index b) = declaratorScript r := by
  unfold declaratorScript
  rw [Row.text_put h]
  congr 1
  funext name
  exact reading_child?_put h (by rfl) _ _

omit alike in
theorem loopClauseSteps_put (j : Nat) (clause : String) :
    (r.put index b).loopClauseSteps j clause = r.loopClauseSteps j clause :=
  reading_child?_put h (by rfl) _ _

omit alike in
theorem loopHeadScript_put (printed : Step.print index what pos shift ∈ loopHeadScript r ctx) :
    loopHeadScript (r.put index b) ctx = loopHeadScript r ctx := by
  have other : 1 ≠ index := by
    have later := (indexes_loopHead r ctx).subset (mem_indexes.mpr ⟨what, pos, shift, printed⟩)
    rintro rfl
    simp at later
  have start : loopStartScript (r.put index b) ctx = loopStartScript r ctx := by
    unfold loopStartScript
    rw [Row.child?_put_ne other]
    congr 1
    funext type
    cases type with
    | some type => rfl
    | none => exact reading_child?_put h (by rfl) _ _
  rw [loopHeadScript, start, loopClauseSteps_put h, loopClauseSteps_put h, loopHeadScript]

theorem statementScript_put : statementScript (r.put index b) ctx = statementScript r ctx := by
  unfold statementScript
  rw [Row.kind_put]
  cases r.kind
  case block => simp only [bracesScript_put h]
  case expressionStatement =>
    exact congrArg (List.cons _) (reading_child_put h (by rw [alike.terminatorSteps_eq]) _ _)
  case returnStatement =>
    apply node?_put (f := ctx.returnSteps) h
    simp only [Context.returnSteps, alike.terminatorSteps_eq]
  case conditionalStatement => simp only [alternativeScript_put h alike]
  case whileStatement | forStatement =>
    exact congrArg (List.append _) (reading_child_put h (by rw [alike.branchSteps_eq]) _ _)
  all_goals rfl

omit alike in
theorem variablesScript_put (printed : Step.print index what pos shift ∈ variablesScript r ctx) :
    variablesScript (r.put index b) ctx = variablesScript r ctx := by
  obtain rfl : index = 2 := printed_at (indexes_variables r ctx) printed
  rw [variablesScript, Row.child_put_ne (by decide), variablesScript]

omit alike in
theorem memberFieldScript_put
    (printed : Step.print index what pos shift ∈ memberFieldScript r ctx) :
    memberFieldScript (r.put index b) ctx = memberFieldScript r ctx := by
  have slots := indexes_memberField r ctx
  by_cases defines : ctx.artifact = .implementation
  · rw [if_pos defines] at slots
    obtain rfl : index = 2 := printed_at slots printed
    unfold memberFieldScript
    rw [Row.child?_put_ne (by decide), Row.child_put_ne (by decide)]
    congr 1
    funext modifiers
    congr 1
    funext type
    exact reading_child_put h (by rw [defines]) _ _
  · rw [if_neg defines] at slots
    have here := slots.subset (mem_indexes.mpr ⟨what, pos, shift, printed⟩)
    cases here

omit alike in
theorem constructorScript_put
    (printed : Step.print index what pos shift ∈ constructorScript r ctx) :
    constructorScript (r.put index b) ctx = constructorScript r ctx := by
  have body : (r.put index b).constructorBodySteps = r.constructorBodySteps :=
    reading_child?_put h (by rfl) _ _
  obtain rfl : index = 5 := printed_at (indexes_constructor r ctx) printed
  unfold constructorScript
  rw [Row.text_put h, Row.child?_put_ne (by decide), Row.child?_put_ne (by decide), body]

omit alike in
theorem methodScript_put (printed : Step.print index what pos shift ∈ methodScript r ctx) :
    methodScript (r.put index b) ctx = methodScript r ctx := by
  obtain rfl : index = 7 := printed_at (indexes_method r ctx) printed
  have signature : ∀ result name parameters, (r.put 7 b).methodSteps ctx result name parameters =
      r.methodSteps ctx result name parameters := by
    intro result name parameters
    unfold Row.methodSteps
    rw [Row.child?_put_ne (show 0 ≠ 7 by decide)]
    exact reading_child?_put h (by rfl) _ _
  unfold methodScript
  rw [Row.text_put h, Row.child_put_ne (by decide), Row.child_put_ne (by decide)]
  simp only [signature]

omit alike in
theorem fieldScript_put (printed : Step.print index what pos shift ∈ fieldScript r ctx) :
    fieldScript (r.put index b) ctx = fieldScript r ctx := by
  unfold fieldScript at printed ⊢
  split at printed
  · rw [if_pos ‹_›, if_pos ‹_›]
    exact memberFieldScript_put h printed
  · rw [if_neg ‹_›, if_neg ‹_›, variablesScript_put h (by simpa using printed)]

theorem itemScript_put (printed : Step.print index what pos shift ∈ itemScript r ctx) :
    itemScript (r.put index b) ctx = itemScript r ctx := by
  unfold itemScript at printed ⊢
  rw [Row.kind_put]
  generalize r.kind = k at printed ⊢
  cases k
  case compilationUnit | classBody | unknown => exact printSteps_put h _ _
  case forwardDeclarations | typeSpecifiers => simp only [printSteps_put h]
  case namespaceDeclaration => simp only [namespaceScript, Row.text_put h, printSteps_put h]
  case forwardDeclaration | typeSpecifier | vtableDeclaration | mainMethodDefinition
      | classMethodDefinition => exact absurd printed not_mem_writing
  case classDeclaration =>
    simp only [classScript, Row.text_put h]
    congr 1
    funext name
    exact reading_child_put h (by rfl) _ _
  case fieldDeclaration => exact fieldScript_put h printed
  case constructorDeclaration => exact constructorScript_put h printed
  case methodDeclaration => exact methodScript_put h printed
  case packageDeclaration | importDeclaration | modifiers | modifier => rfl
  case block | expressionStatement | returnStatement | conditionalStatement | whileStatement
      | forStatement | breakStatement | continueStatement | emptyStatement =>
    exact statementScript_put h alike
  -- Every other kind is a line with an expression.
  all_goals
    have inner : Step.print index what pos shift ∈ inlineScript r ctx := by
      simpa [Kind.isStatement] using printed
    simp only [statementScript_put h alike, inlineScript_put h alike inner]

/-- A script does not see what it prints. -/
theorem script_put {at' : Position} (printed : Step.print index what pos shift ∈ r.script ctx at') :
    (r.put index b).script ctx at' = r.script ctx at' := by
  cases at' with
  | item => exact itemScript_put h alike printed
  | inline => exact inlineScript_put h alike printed
  | braces => exact bracesScript_put h
  | alternative => exact alternativeScript_put h alike
  | loopHead => exact loopHeadScript_put h printed
  | declarator => exact declaratorScript_put h
  | declarators => exact commaSteps_put h _
  | definitions lead => simp only [Row.script, definitionsScript, printSteps_put h]
  | shifted => exact shiftedScript_put h alike printed
  | bounds => simp only [Row.script, boundsScript, printSteps_put h]

end Exchange

/-! ## Exchanging a node anywhere in a tree -/

theorem Script.run_put {r : Row Part} {ctx : Context} {index : Nat} {p : Part} {steps : Script}
    (h : index ∉ steps.indexes) : run (r.put index p) ctx steps = run r ctx steps := by
  apply run_congr
  intro j what pos shift printed
  have other : j ≠ index := by
    rintro rfl
    exact h (mem_indexes.mpr ⟨what, pos, shift, printed⟩)
  rw [Row.child_put_ne other, Row.kind_put]

namespace Tree

def put (t : Tree) (index : Nat) (new : Tree) : Tree := ofRow (t.row.put index new)

def replaceAt (t : Tree) : Path → Tree → Tree
  | [], new => new
  | index :: rest, new =>
    mk t.label (t.slots.modify index (Slot.map fun c => c.replaceAt rest new))

theorem replaceAt_cons {t c new : Tree} {index : Nat} {rest : Path}
    (h : t.slots[index]? = some (.node c)) :
    t.replaceAt (index :: rest) new = t.put index (c.replaceAt rest new) := by
  have slots : t.slots.modify index (Slot.map fun c => c.replaceAt rest new) =
      t.slots.set index (.node (c.replaceAt rest new)) := by
    apply List.ext_getElem?
    intro j
    by_cases hj : index = j
    · subst hj
      obtain ⟨inside, value⟩ := List.getElem?_eq_some_iff.mp h
      simp [inside, value, Slot.map]
    · simp [hj]
  rw [replaceAt, slots]
  rfl

theorem replaceAt_concat {root t c new : Tree} {path : Path} {index : Nat}
    (ht : root.at? path = some t) (hc : t.slots[index]? = some (.node c)) :
    root.replaceAt (path ++ [index]) new = root.replaceAt path (t.put index new) := by
  induction path generalizing root with
  | nil =>
    obtain rfl : root = t := Option.some.inj ht
    exact replaceAt_cons hc
  | cons i rest ih =>
    rw [← List.singleton_append, at?_append] at ht
    obtain ⟨child, hchild, ht⟩ := Option.bind_eq_some_iff.mp ht
    have slot := at?_singleton.mp hchild
    rw [List.cons_append, replaceAt_cons slot, replaceAt_cons slot, ih ht]

theorem at?_replaceAt (t : Tree) (p q : Path) (new : Tree) :
    (t.replaceAt (p ++ q) new).at? p = (t.at? p).map (·.replaceAt q new) := by
  induction p generalizing t with
  | nil => rfl
  | cons i rest ih =>
    have slots : (t.replaceAt (i :: (rest ++ q)) new).slots =
        t.slots.modify i (Slot.map fun c => c.replaceAt (rest ++ q) new) := rfl
    rw [List.cons_append, at?, slots, List.getElem?_modify_eq, at?]
    rcases t.slots[i]? with _ | _ | _ | c
    case some.node => exact ih c
    all_goals rfl

theorem parts_put (t : Tree) (index : Nat) (b : Tree) :
    (t.put index b).parts = t.parts.put index (b, b.print) := by
  simp [parts, put, Row.map, Row.put, ofRow, Slot.map]

theorem alike_put (t : Tree) (index : Nat) (b : Tree) (pos : Position) :
    Alike pos t (t.put index b) where
  block := rfl
  statementBlock := rfl
  conditional := rfl
  count _ := (Row.length_put t.row index b).symm

theorem print_put {t a b : Tree} {pos pos' : Position} {ctx : Context} {first rest : Script}
    {index : Nat} {what : String} {shift : Shift}
    (steps : t.script ctx pos = first ++ .print index what pos' shift :: rest)
    (h : t.slots[index]? = some (.node a)) (alike : Alike pos' a b) :
    (t.put index b).print pos ctx = (do
      let before ← first.run t.parts ctx
      let own ← b.print pos' ((ctx.inside t.kind).moved shift)
      let after ← rest.run t.parts ctx
      return before ++ own ++ after) := by
  have once := script_ascending t.row ctx pos
  rw [show t.row.script ctx pos = _ from steps, indexes_append, indexes_print,
    List.pairwise_append] at once
  obtain ⟨-, later, earlier⟩ := once
  have first_same : first.run (t.parts.put index (b, b.print)) ctx = first.run t.parts ctx := by
    apply run_put
    intro hm
    exact Nat.lt_irrefl _ (earlier index hm index List.mem_cons_self)
  have rest_same : rest.run (t.parts.put index (b, b.print)) ctx = rest.run t.parts ctx := by
    apply run_put
    intro hm
    exact Nat.lt_irrefl _ ((List.pairwise_cons.mp later).1 index hm)
  have printed : Step.print index what pos' shift ∈ t.row.script ctx pos := by
    rw [show t.row.script ctx pos = _ from steps]
    simp
  have same : (t.put index b).script ctx pos = first ++ .print index what pos' shift :: rest :=
    (script_put h alike printed).trans steps
  have slot : (t.put index b).slots[index]? = some (.node b) := Row.slots_put_self h b
  rw [print_around same slot, parts_put, first_same, rest_same]
  rfl

end Tree

/-- What is reached can be exchanged: the text around it stays as it is. -/
theorem Reaches.print_replaceAt {root : Tree} {start ctx : Context} {before : String}
    {o : Occurrence} {pos : Position} (h : Reaches root start before o pos ctx) {text : String}
    (printed : root.print .item start = .ok text) :
    ∃ own after, o.tree.print pos ctx = .ok own ∧ text = before ++ own ++ after ∧
      ∀ (new : Tree) (own' : String), Alike pos o.tree new → new.print pos ctx = .ok own' →
        (root.replaceAt o.path new).print .item start = .ok (before ++ own' ++ after) := by
  induction h with
  | root =>
    refine ⟨text, "", printed, by simp, ?_⟩
    intro new own' _ hnew
    simpa [Tree.replaceAt] using hnew
  | nested reached steps ran hc ih =>
    rename_i before written what o pos pos' ctx first rest index shift child
    obtain ⟨own, after, hown, rfl, exchange⟩ := ih
    rw [Tree.print_around steps hc, ran, ok_bind] at hown
    obtain ⟨inner, hinner, hown⟩ := bind_eq_ok.mp hown
    obtain ⟨tail, htail, hown⟩ := bind_eq_ok.mp hown
    refine ⟨inner, tail ++ after, hinner, ?_, ?_⟩
    · rw [← pure_eq_ok.mp hown]
      simp [String.append_assoc]
    · intro new own' alike hnew
      have node : (o.tree.put index new).print pos ctx = .ok (written ++ own' ++ tail) := by
        rw [Tree.print_put steps hc alike, ran]
        simp [hnew, htail]
      rw [Tree.replaceAt_concat reached.isIn hc,
        exchange _ _ (o.tree.alike_put index new pos) node]
      simp [String.append_assoc]

end ClassLowering
