import ClassLowering.Proofs.Layout.Reading
import ClassLowering.Proofs.Printing.Replace

/-!
# What a script sees of the nested nodes

The script of a node follows from its own slots and from little else: the label of a nested node,
the number of its slots, and the text that it has as a type or as the name of a class. Declarations
also read what a nested node lists. Where other nodes stand in the slots that look the same in this
sense, the script is the same.
-/

set_option autoImplicit false

namespace ClassLowering

open Script

namespace Tree

/-- What any rule can see of a nested node. -/
structure LooksLike (a b : Tree) : Prop where
  label : a.label = b.label
  count : a.slots.length = b.slots.length
  typeText : ∀ runtime, a.typeText runtime = b.typeText runtime
  recordText : a.recordText = b.recordText

/-- What a declaration can see of a nested node that lists its parts. -/
structure ListsLike (a b : Tree) : Prop where
  hasStatic : a.hasStatic = b.hasStatic
  names : (a.children.mapM fun d => d.row.text 0 "declarator name") =
    b.children.mapM fun d => d.row.text 0 "declarator name"
  parameters : ∀ runtime, parametersText runtime a = parametersText runtime b
  initializations : initializationsText a = initializationsText b

/-- What a dispatch table can see of the node that lists its entries. -/
def EntriesLike (a b : Tree) : Prop :=
  ∀ runtime className, (a.children.mapM fun e => slotText runtime className e.row) =
    b.children.mapM fun e => slotText runtime className e.row

theorem LooksLike.alike {a b : Tree} (h : a.LooksLike b) (pos : Position) : Alike pos a b := by
  have kinds : a.kind = b.kind := congrArg Kind.ofLabel h.label
  constructor <;> simp [is, kinds, h.count]

end Tree

section MapSlots

variable {r : Row Tree} {f : Nat → Tree → Tree} {j : Nat}

theorem bind_child_mapSlots {β : Type} {g : Tree → Except Fault β}
    (same : ∀ c, r.slots[j]? = some (.node c) → g (f j c) = g c) (what : String) :
    ((r.mapSlots f).child j what >>= g) = (r.child j what >>= g) := by
  rw [Row.child_mapSlots]
  cases h : r.child j what with
  | error e => rfl
  | ok c => exact same c (Row.child_eq_ok.mp h)

theorem reading_child_mapSlots {g : Tree → Script}
    (same : ∀ c, r.slots[j]? = some (.node c) → g (f j c) = g c) (what : String) :
    reading ((r.mapSlots f).child j what) g = reading (r.child j what) g := by
  rw [Row.child_mapSlots]
  cases h : r.child j what with
  | error e => rfl
  | ok c => exact same c (Row.child_eq_ok.mp h)

theorem reading_child?_mapSlots {g : Option Tree → Script}
    (same : ∀ c, r.slots[j]? = some (.node c) → g (some (f j c)) = g (some c)) (what : String) :
    reading ((r.mapSlots f).child? j what) g = reading (r.child? j what) g := by
  rw [Row.child?_mapSlots]
  cases h : r.child? j what with
  | error e => rfl
  | ok c =>
    cases c with
    | none => rfl
    | some c => exact same c (Row.child_eq_ok.mp (Row.child_of_child? h))

theorem node?_mapSlots {g : Option Tree → Script}
    (same : ∀ c, r.slots[j]? = some (.node c) → g (some (f j c)) = g (some c)) :
    g (((r.mapSlots f).slots[j]?).bind Slot.node?) = g ((r.slots[j]?).bind Slot.node?) := by
  rw [Row.slots_mapSlots]
  rcases h : r.slots[j]? with _ | _ | _ | c
  · rfl
  · rfl
  · rfl
  · exact same c h

@[simp] theorem printSteps_mapSlots (pos : Position) (shift : Shift) :
    (r.mapSlots f).printSteps pos shift = r.printSteps pos shift := by
  rw [Row.printSteps, Row.nodeIndexes_mapSlots, Row.printSteps]

@[simp] theorem commaSteps_mapSlots (pos : Position) :
    (r.mapSlots f).commaSteps pos = r.commaSteps pos := by
  rw [Row.commaSteps, printSteps_mapSlots, Row.commaSteps]

end MapSlots

section Alike

variable {r : Row Tree} {ctx : Context} {f : Nat → Tree → Tree}
  (alike : ∀ index c, r.slots[index]? = some (.node c) → (f index c).LooksLike c)

include alike

theorem bind_typeText_mapSlots (runtime : RuntimeSettings) (j : Nat) (what : String) :
    (do (← (r.mapSlots f).child j what).typeText runtime) =
      (do (← r.child j what).typeText runtime) :=
  bind_child_mapSlots (fun c hc => (alike j c hc).typeText runtime) what

theorem recordText_mapSlots :
    (Tree.ofRow (r.mapSlots f)).recordText = (Tree.ofRow r).recordText := by
  rw [Tree.recordText, Tree.fold_eq, Tree.fold_eq, ← Tree.recordText]
  change recordRule ((r.mapSlots f).map _) = recordRule (r.map _)
  unfold recordRule
  rw [Row.kind_map, Row.kind_map, Row.kind_mapSlots]
  cases r.kind
  case type =>
    simp only [Row.child_map, Row.child_mapSlots]
    cases h : r.child 0 "base type" with
    | error e => rfl
    | ok base => simp [(alike 0 base (Row.child_eq_ok.mp h)).recordText]
  all_goals simp

theorem bind_recordText_mapSlots (j : Nat) (what : String) :
    (do (← (r.mapSlots f).child j what).recordText) = (do (← r.child j what).recordText) :=
  bind_child_mapSlots (fun c hc => (alike j c hc).recordText) what

theorem typeText_mapSlots (runtime : RuntimeSettings) :
    (Tree.ofRow (r.mapSlots f)).typeText runtime = (Tree.ofRow r).typeText runtime := by
  rw [Tree.typeText, Tree.fold_eq, Tree.fold_eq, ← Tree.typeText]
  change typeRule runtime ((r.mapSlots f).map _) = typeRule runtime (r.map _)
  unfold typeRule
  rw [Row.kind_map, Row.kind_map, Row.kind_mapSlots]
  cases r.kind
  case type =>
    simp only [Row.child_map, Row.child?_map, Row.child_mapSlots, Row.child?_mapSlots]
    cases h : r.child 0 "base type" with
    | error e => rfl
    | ok base =>
      have same := (alike 0 base (Row.child_eq_ok.mp h)).typeText runtime
      rcases h' : r.child? 1 "dimensions" with _ | _ | dimensions
      · simp [same]
      · simp [same]
      · simp [same, (alike 1 dimensions (Row.child_eq_ok.mp (Row.child_of_child? h'))).count]
  all_goals simp

/-! ## Expressions -/

theorem newArrayScript_mapSlots : newArrayScript (r.mapSlots f) ctx = newArrayScript r ctx := by
  unfold newArrayScript
  rw [bind_typeText_mapSlots alike]
  congr 1
  funext element
  exact reading_child_mapSlots (fun c hc => by rw [(alike 1 c hc).count]) _

theorem staticOwnerScript_mapSlots : staticOwnerScript (r.mapSlots f) = staticOwnerScript r :=
  reading_child?_mapSlots (fun c hc => by simp only [(alike 0 c hc).recordText]) _

theorem inlineScript_mapSlots : inlineScript (r.mapSlots f) ctx = inlineScript r ctx := by
  unfold inlineScript
  rw [Row.kind_mapSlots]
  cases r.kind
  case castExpression => simp only [bind_typeText_mapSlots alike]
  case type | voidType | primitiveType => simp only [typeText_mapSlots alike]
  case staticSelectionExpression | newClassExpression =>
    simp only [bind_recordText_mapSlots alike, Row.text_mapSlots]
  case callExpression =>
    simp only [Row.text_mapSlots]
    congr 2
    exact reading_child?_mapSlots (fun _ _ => rfl) _
  case staticCallExpression => simp only [staticOwnerScript_mapSlots alike, Row.text_mapSlots]
  case printingExpression =>
    simp only [printingScript, Row.text_mapSlots]
    congr 2
    exact reading_child?_mapSlots (fun _ _ => rfl) _
  case newArrayExpression => exact newArrayScript_mapSlots alike
  case statementBlock => simp [statementBlockScript]
  all_goals simp

theorem shiftedScript_mapSlots : shiftedScript (r.mapSlots f) ctx = shiftedScript r ctx := by
  rw [shiftedScript, Row.kind_mapSlots, printSteps_mapSlots, inlineScript_mapSlots alike,
    shiftedScript]

/-! ## Statements -/

omit alike in
theorem bracesScript_mapSlots : bracesScript (r.mapSlots f) ctx = bracesScript r ctx := by
  have same : (r.mapSlots f).slots.isEmpty = r.slots.isEmpty := by
    rw [Bool.eq_iff_iff, List.isEmpty_iff, List.isEmpty_iff]
    simp [Row.mapSlots]
  rw [bracesScript, same, printSteps_mapSlots, bracesScript]

theorem alternativeScript_mapSlots :
    alternativeScript (r.mapSlots f) ctx = alternativeScript r ctx := by
  have rest : ctx.elseSteps (((r.mapSlots f).slots[2]?).bind Slot.node?) =
      ctx.elseSteps ((r.slots[2]?).bind Slot.node?) := by
    apply node?_mapSlots
    intro c hc
    have same := (alike 2 c hc).alike .item
    rw [Context.elseSteps, same.conditional, same.branchSteps_eq, Context.elseSteps]
  unfold alternativeScript
  rw [rest]
  congr 1
  refine reading_child_mapSlots (fun c hc => ?_) _
  rw [((alike 1 c hc).alike .item).branchSteps_eq]

omit alike in
theorem declaratorScript_mapSlots : declaratorScript (r.mapSlots f) = declaratorScript r := by
  unfold declaratorScript
  rw [Row.text_mapSlots]
  congr 1
  funext name
  exact reading_child?_mapSlots (fun _ _ => rfl) _

theorem loopHeadScript_mapSlots : loopHeadScript (r.mapSlots f) ctx = loopHeadScript r ctx := by
  have start : loopStartScript (r.mapSlots f) ctx = loopStartScript r ctx := by
    unfold loopStartScript
    refine (reading_child?_mapSlots (fun c hc => ?_) _).trans ?_
    · simp only [(alike 1 c hc).typeText]
    · congr 1
      funext type
      cases type with
      | some type => rfl
      | none => exact reading_child?_mapSlots (fun _ _ => rfl) _
  rw [loopHeadScript, start, Row.loopClauseSteps, reading_child?_mapSlots (fun _ _ => rfl),
    Row.loopClauseSteps, reading_child?_mapSlots (fun _ _ => rfl)]
  rfl

theorem statementScript_mapSlots : statementScript (r.mapSlots f) ctx = statementScript r ctx := by
  unfold statementScript
  rw [Row.kind_mapSlots]
  cases r.kind
  case block => simp only [bracesScript_mapSlots]
  case expressionStatement =>
    refine congrArg (List.cons _) (reading_child_mapSlots (fun c hc => ?_) _)
    rw [((alike 0 c hc).alike .item).terminatorSteps_eq]
  case returnStatement =>
    apply node?_mapSlots (g := ctx.returnSteps)
    intro c hc
    rw [Context.returnSteps, ((alike 0 c hc).alike .item).terminatorSteps_eq, Context.returnSteps]
  case conditionalStatement => simp only [alternativeScript_mapSlots alike]
  case whileStatement | forStatement =>
    refine congrArg (List.append _) (reading_child_mapSlots (fun c hc => ?_) _)
    rw [((alike 1 c hc).alike .item).branchSteps_eq]
  all_goals rfl

/-! ## Declarations -/

omit alike in
theorem namespaceScript_mapSlots : namespaceScript (r.mapSlots f) ctx = namespaceScript r ctx := by
  simp [namespaceScript]

omit alike in
theorem classScript_mapSlots : classScript (r.mapSlots f) ctx = classScript r ctx := by
  unfold classScript
  rw [Row.text_mapSlots]
  congr 1
  funext name
  exact reading_child_mapSlots (fun _ _ => rfl) _

theorem variablesScript_mapSlots : variablesScript (r.mapSlots f) ctx = variablesScript r ctx := by
  rw [variablesScript, bind_typeText_mapSlots alike, variablesScript]

end Alike

section Lists

variable {r : Row Tree} {ctx : Context} {f : Nat → Tree → Tree}
  (alike : ∀ index c, r.slots[index]? = some (.node c) → (f index c).LooksLike c)
  (lists : ∀ index c, r.slots[index]? = some (.node c) → (f index c).ListsLike c)

include alike lists

theorem memberFieldScript_mapSlots :
    memberFieldScript (r.mapSlots f) ctx = memberFieldScript r ctx := by
  unfold memberFieldScript
  refine (reading_child?_mapSlots (fun c hc => ?_) _).trans ?_
  · simp only [Option.any_some, (lists 0 c hc).hasStatic]
  · congr 1
    funext modifiers
    rw [bind_typeText_mapSlots alike]
    congr 1
    funext type
    exact reading_child_mapSlots (fun c hc => by simp only [(lists 2 c hc).names]) _

theorem fieldScript_mapSlots : fieldScript (r.mapSlots f) ctx = fieldScript r ctx := by
  rw [fieldScript, memberFieldScript_mapSlots alike lists, variablesScript_mapSlots alike,
    fieldScript]

omit alike in
theorem constructorScript_mapSlots :
    constructorScript (r.mapSlots f) ctx = constructorScript r ctx := by
  have body : (r.mapSlots f).constructorBodySteps = r.constructorBodySteps :=
    reading_child?_mapSlots (fun _ _ => rfl) _
  unfold constructorScript
  rw [Row.text_mapSlots, body]
  congr 2
  funext name
  refine (reading_child?_mapSlots (fun c hc => ?_) _).trans ?_
  · simp only [(lists 3 c hc).parameters]
  · congr 1
    funext parameters
    congr 1
    funext text
    exact reading_child?_mapSlots (fun c hc => by simp only [(lists 4 c hc).initializations]) _

omit alike in
theorem methodSteps_mapSlots (result name parameters : String) :
    (r.mapSlots f).methodSteps ctx result name parameters =
      r.methodSteps ctx result name parameters := by
  unfold Row.methodSteps
  refine (reading_child?_mapSlots (fun _ _ => rfl) _).trans ?_
  congr 1
  funext body
  cases ctx.artifact with
  | header =>
    refine reading_child?_mapSlots (fun c hc => ?_) _
    simp only [Option.any_some, (lists 0 c hc).hasStatic]
  | implementation => rfl
  | entryPoint => rfl

theorem methodScript_mapSlots : methodScript (r.mapSlots f) ctx = methodScript r ctx := by
  have parameters : (do parametersText ctx.runtime (← (r.mapSlots f).child 4 "parameters")) =
      (do parametersText ctx.runtime (← r.child 4 "parameters")) :=
    bind_child_mapSlots (fun c hc => (lists 4 c hc).parameters ctx.runtime) _
  unfold methodScript
  rw [bind_typeText_mapSlots alike, Row.text_mapSlots, parameters]
  simp only [methodSteps_mapSlots lists]

omit alike lists in
theorem dispatchTableText_mapSlots
    (entries : ∀ c, r.slots[1]? = some (.node c) → (f 1 c).EntriesLike c) :
    dispatchTableText (r.mapSlots f).quiet ctx = dispatchTableText r.quiet ctx := by
  unfold dispatchTableText
  simp only [Row.quiet, Row.text_map, Row.child_map, Row.text_mapSlots, Row.child_mapSlots]
  cases h : r.child 1 "vtable entries" with
  | error e => rfl
  | ok list =>
    simp only [map_eq_bind, ok_bind, Part.tree]
    simp only [entries list (Row.child_eq_ok.mp h) ctx.runtime]

end Lists

def Kind.readsLists : Kind → Bool
  | .fieldDeclaration | .constructorDeclaration | .methodDeclaration => true
  | _ => false

section Scripts

variable {r : Row Tree} {ctx : Context} {f : Nat → Tree → Tree}
  (alike : ∀ index c, r.slots[index]? = some (.node c) → (f index c).LooksLike c)

include alike

theorem itemScript_mapSlots (lists : r.kind.readsLists = true →
      ∀ index c, r.slots[index]? = some (.node c) → (f index c).ListsLike c)
    (entries : r.kind = .vtableDeclaration →
      ∀ c, r.slots[1]? = some (.node c) → (f 1 c).EntriesLike c) :
    itemScript (r.mapSlots f) ctx = itemScript r ctx := by
  unfold itemScript
  rw [Row.kind_mapSlots]
  generalize r.kind = k at lists entries
  cases k
  case namespaceDeclaration => exact namespaceScript_mapSlots
  case classDeclaration => exact classScript_mapSlots
  case vtableDeclaration => exact congrArg writing (dispatchTableText_mapSlots (entries rfl))
  case fieldDeclaration => exact fieldScript_mapSlots alike (lists rfl)
  case constructorDeclaration => exact constructorScript_mapSlots (lists rfl)
  case methodDeclaration => exact methodScript_mapSlots alike (lists rfl)
  case forwardDeclaration | typeSpecifier | mainMethodDefinition | classMethodDefinition =>
    simp [forwardDeclarationText, typeSpecifierText, mainText, classObjectText, Row.quiet]
  all_goals simp [statementScript_mapSlots alike, inlineScript_mapSlots alike]

/-- Where the nested nodes look alike, the script is the same. -/
theorem script_mapSlots {pos : Position} (lists : pos = .item → r.kind.readsLists = true →
      ∀ index c, r.slots[index]? = some (.node c) → (f index c).ListsLike c)
    (entries : pos = .item → r.kind = .vtableDeclaration →
      ∀ c, r.slots[1]? = some (.node c) → (f 1 c).EntriesLike c) :
    (r.mapSlots f).script ctx pos = r.script ctx pos := by
  cases pos with
  | item => exact itemScript_mapSlots alike (lists rfl) (entries rfl)
  | inline => exact inlineScript_mapSlots alike
  | braces => exact bracesScript_mapSlots
  | alternative => exact alternativeScript_mapSlots alike
  | loopHead => exact loopHeadScript_mapSlots alike
  | declarator => exact declaratorScript_mapSlots
  | declarators => exact commaSteps_mapSlots _
  | definitions lead => simp only [Row.script, definitionsScript, printSteps_mapSlots]
  | shifted => exact shiftedScript_mapSlots alike
  | bounds => simp only [Row.script, boundsScript, printSteps_mapSlots]

end Scripts

end ClassLowering
