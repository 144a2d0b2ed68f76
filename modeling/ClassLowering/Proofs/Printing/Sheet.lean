import ClassLowering.Proofs.Printing.Program
import ClassLowering.Proofs.Printing.Run
import ClassLowering.Proofs.Tree.Parents

/-!
# A printer that writes as it goes

All nodes share one `Sheet`, which holds what has been written, the depth, and the class whose
members are being defined. A node is called with the sheet as it is, carries out its instructions
on it one after the other, and hands it back as it is then: what the instructions of a nested node
leave behind is there for all that follows. To leave a level where there is none stops the printer.

Every program adds what its rule prints and leaves depth and class as it found them. So the printer
writes the same file, or stops at the same fault, and at no level that it has not entered.
-/

set_option autoImplicit false

namespace ClassLowering

open Text (joinWith concat)

structure Sheet where
  output : String
  depth : Nat
  scope : Option String

inductive Stop where
  | fault (e : Fault)
  /-- A level is left where there is none. -/
  | outermost

def Stop.reading {α β : Type} (x : Except Fault α) (rest : α → Except Stop β) : Except Stop β :=
  match x with
  | .ok a => rest a
  | .error e => .error (.fault e)

namespace Sheet

def push (s : Sheet) (text : String) : Sheet := { s with output := s.output ++ text }

def indentation (s : Sheet) : String := Text.replicate s.depth "    "

def receive (s : Sheet) (x : Except Fault String) : Except Stop Sheet :=
  Stop.reading x fun text => .ok (s.push text)

end Sheet

/-- What a node has in hand: the sheet, and the class that it has replaced. -/
structure Frame where
  sheet : Sheet
  replaced : Option String

namespace Frame

def push (f : Frame) (text : String) : Frame := { f with sheet := f.sheet.push text }

def indented (f : Frame) : Frame := { f with sheet := { f.sheet with depth := f.sheet.depth + 1 } }

end Frame

/-- How a node is written onto a sheet, at a position and inside nodes of some kinds. -/
abbrev Drawing := Position → List Kind → Sheet → Except Stop Sheet

def Instruction.run (r : Row (Tree × Drawing)) (outer : List Kind) (f : Frame) :
    Instruction → Except Stop Frame
  | .push s => .ok (f.push s)
  | .write s => .ok (f.push (f.sheet.indentation ++ s))
  | .line s => .ok (f.push (if s = "" then "\n" else f.sheet.indentation ++ s ++ "\n"))
  | .indent => .ok f.indented
  | .outdent =>
    match f.sheet.depth with
    | 0 => .error .outermost
    | depth + 1 => .ok { f with sheet := { f.sheet with depth } }
  | .define className =>
    .ok { sheet := { f.sheet with scope := some className }, replaced := f.sheet.scope }
  | .restore => .ok { sheet := { f.sheet with scope := f.replaced }, replaced := none }
  | .fail e => .error (.fault e)
  | .visit index what pos =>
    Stop.reading (r.child index what) fun nested => do
      return { f with sheet := ← nested.2 pos (r.kind :: outer) f.sheet }

def Program.run (r : Row (Tree × Drawing)) (outer : List Kind) : Program → Frame → Except Stop Frame
  | [], f => .ok f
  | instruction :: rest, f => do run r outer rest (← instruction.run r outer f)

-- nothing is put back by itself, and a level that was not entered cannot be left
example (r : Row (Tree × Drawing)) (outer : List Kind) :
    Program.run r outer [.indent] ⟨⟨"", 0, none⟩, none⟩ = .ok ⟨⟨"", 1, none⟩, none⟩ ∧
      Program.run r outer [.outdent] ⟨⟨"", 0, none⟩, none⟩ = .error .outermost :=
  ⟨rfl, rfl⟩

section Drawing

variable (artifact : Artifact) (settings : Settings)

def Sheet.context (s : Sheet) (outer : List Kind) : Context :=
  { artifact, settings, depth := s.depth, scope := s.scope, outer }

/-- What a program can see of that, which is all but the depth. -/
def Sheet.station (s : Sheet) (outer : List Kind) : Context :=
  { artifact, settings, scope := s.scope, outer }

def drawRule (r : Row (Tree × Drawing)) : Drawing := fun pos outer s => do
  let program := (r.map Prod.fst).program (s.station artifact settings outer) pos
  return (← program.run r outer ⟨s, none⟩).sheet

def Tree.draw : Tree → Drawing := Tree.fold (drawRule artifact settings)

def Tree.drawings (t : Tree) : Row (Tree × Drawing) :=
  t.row.map fun c => (c, c.draw artifact settings)

def Row.adding (r : Row Part) : Row (Tree × Drawing) :=
  r.map fun p => (p.tree, fun pos outer s =>
    s.receive (p.print pos (s.context artifact settings outer)))

end Drawing

/-! ## Carrying out instructions -/

namespace Stop

variable {α β γ : Type}

@[simp] theorem reading_ok (a : α) (rest : α → Except Stop β) : reading (.ok a) rest = rest a := rfl

@[simp] theorem reading_error (e : Fault) (rest : α → Except Stop β) :
    reading (.error e) rest = .error (.fault e) := rfl

@[simp] theorem reading_bind (x : Except Fault α) (next : α → Except Fault β)
    (rest : β → Except Stop γ) :
    reading (x >>= next) rest = reading x fun a => reading (next a) rest := by
  cases x <;> rfl

theorem reading_ite (c : Prop) [Decidable c] (x y : Except Fault α) (rest : α → Except Stop β) :
    reading (if c then x else y) rest = if c then reading x rest else reading y rest := by
  split <;> rfl

theorem bind_reading (x : Except Fault α) (next : α → Except Stop β) (rest : β → Except Stop γ) :
    reading x next >>= rest = reading x fun a => next a >>= rest := by
  cases x <;> rfl

end Stop

namespace Program

/-- A program on a sheet that stands in a context, where the nested nodes add what they print. -/
def runAt (r : Row Part) (replaced : Option String) (ctx : Context) (output : String)
    (program : Program) : Except Stop Frame :=
  program.run (r.adding ctx.artifact ctx.settings) ctx.outer
    ⟨⟨output, ctx.depth, ctx.scope⟩, replaced⟩

section Steps

variable (r : Row Part) (replaced : Option String) (ctx : Context) (output : String)
  (rest : Program)

-- Each equation holds by computation. In parentheses `rfl` leaves them to be used as rewriting, as
-- the kernel would otherwise compute with the whole program at every step.
theorem runAt_push (s : String) : runAt r replaced ctx output (.push s :: rest) =
    runAt r replaced ctx (output ++ s) rest := (rfl)

theorem runAt_write (s : String) : runAt r replaced ctx output (.write s :: rest) =
    runAt r replaced ctx (output ++ (ctx.indentation ++ s)) rest := (rfl)

theorem runAt_line (s : String) : runAt r replaced ctx output (.line s :: rest) =
    runAt r replaced ctx (output ++ ctx.line s) rest := (rfl)

theorem runAt_indent : runAt r replaced ctx output (.indent :: rest) =
    runAt r replaced ctx.deeper output rest := (rfl)

theorem runAt_outdent : runAt r replaced ctx.deeper output (.outdent :: rest) =
    runAt r replaced ctx output rest := (rfl)

theorem runAt_fail (e : Fault) :
    runAt r replaced ctx output (.fail e :: rest) = .error (.fault e) := (rfl)

theorem runAt_visit (index : Nat) (what : String) (pos : Position) :
    runAt r replaced ctx output (.visit index what pos :: rest) =
      Stop.reading (do (← r.child index what).print pos (ctx.inside r.kind)) fun text =>
        runAt r replaced ctx (output ++ text) rest := by
  have nested : (r.adding ctx.artifact ctx.settings).child index what =
      (r.child index what >>= fun p => .ok (p.tree, fun pos outer s =>
        s.receive (p.print pos (s.context ctx.artifact ctx.settings outer)))) := by
    simp [Row.adding]
  simp only [runAt, run, Instruction.run, nested, Stop.reading_bind, Stop.bind_reading,
    Stop.reading_ok, Sheet.receive]
  rfl

theorem runAt_reading {α : Type} (x : Except Fault α) (next : α → Program) :
    runAt r replaced ctx output (reading x next ++ rest) =
      Stop.reading x fun a => runAt r replaced ctx output (next a ++ rest) := by
  cases x <;> rfl

theorem runAt_pushing (x : Except Fault String) :
    runAt r replaced ctx output (pushing x ++ rest) =
      Stop.reading x fun s => runAt r replaced ctx (output ++ s) rest :=
  runAt_reading r replaced ctx output rest x _

theorem runAt_operand (index : Nat) (what : String) :
    runAt r replaced ctx output (.operand index what :: rest) =
      Stop.reading (r.operand ctx index what) fun text =>
        runAt r replaced ctx (output ++ text) rest :=
  runAt_visit r replaced ctx output rest index what .inline

theorem runAt_ite (c : Prop) [Decidable c] (a b : Program) :
    runAt r replaced ctx output ((if c then a else b) ++ rest) =
      if c then runAt r replaced ctx output (a ++ rest)
      else runAt r replaced ctx output (b ++ rest) := by
  split <;> rfl

theorem runAt_pushIf (c : Prop) [Decidable c] (s : String) :
    runAt r replaced ctx output ((if c then [.push s] else []) ++ rest) =
      runAt r replaced ctx (output ++ if c then s else "") rest := by
  split <;> simp [runAt_push]

end Steps

/-- A program adds a text in a context, and leads back to that context. -/
def Adds (r : Row Part) (ctx : Context) (program : Program) (x : Except Fault String) : Prop :=
  ∀ output rest, runAt r none ctx output (program ++ rest) =
    Stop.reading x fun text => runAt r none ctx (output ++ text) rest

variable {r : Row Part} {ctx : Context}

theorem Adds.run {program : Program} {x : Except Fault String} (h : Adds r ctx program x)
    (output : String) (rest : Program) : runAt r none ctx output (program ++ rest) =
      Stop.reading x fun text => runAt r none ctx (output ++ text) rest :=
  h output rest

theorem adds_visit (index : Nat) (what : String) (pos : Position) :
    Adds r ctx [.visit index what pos] (do (← r.child index what).print pos (ctx.inside r.kind)) :=
  fun output rest => runAt_visit r none ctx output rest index what pos

/-! ## Loops -/

theorem adds_flatMap {piece : Nat → Program} {x : Nat → Except Fault String} {f : String → String}
    (h : ∀ i, Adds r ctx (piece i) (do return f (← x i))) (indexes : List Nat) :
    Adds r ctx (indexes.flatMap piece) (do return concat ((← indexes.mapM x).map f)) := by
  intro output rest
  induction indexes generalizing output with
  | nil => simp [concat]
  | cons i indexes ih =>
    rw [List.flatMap_cons, List.append_assoc, (h i).run]
    simp [ih, concat, String.append_assoc]

theorem adds_intersperse {instruction : Nat → Instruction} {x : Nat → Except Fault String}
    (h : ∀ i, Adds r ctx [instruction i] (x i)) (mark : String) (indexes : List Nat) :
    Adds r ctx ((indexes.map instruction).intersperse (.push mark))
      (do return joinWith mark (← indexes.mapM x)) := by
  intro output rest
  induction indexes generalizing output with
  | nil => simp [joinWith]
  | cons i indexes ih =>
    have first := fun rest => (h i).run output rest
    cases indexes with
    | nil => simpa [joinWith] using first rest
    | cons j indexes =>
      rw [List.map_cons] at ih
      rw [List.map_cons, List.map_cons, List.intersperse_cons_cons, List.cons_append,
        List.cons_append, ← List.singleton_append, first, List.mapM_cons]
      simp [runAt_push, ih, joinWith, String.append_assoc]

variable (r ctx)

theorem mapM_visits (pos : Position) :
    r.nodeIndexes.mapM (fun index => do (← r.child index "").print pos (ctx.inside r.kind)) =
      r.printChildren pos ctx :=
  r.mapM_nodeIndexes_bind "" _

theorem visits_flatMap_adds (pos : Position) {around : Instruction → Program} {f : String → String}
    (h : ∀ index, Adds r ctx (around (.visit index "" pos))
      (do return f (← (← r.child index "").print pos (ctx.inside r.kind)))) :
    Adds r ctx (((r.map Part.tree).visits pos).flatMap around)
      (do return concat ((← r.printChildren pos ctx).map f)) := by
  rw [Row.visits, Row.nodeIndexes_map, List.flatMap_map, ← mapM_visits]
  refine adds_flatMap (fun index => ?_) r.nodeIndexes
  rw [bind_assoc]
  exact h index

theorem visits_adds (pos : Position) : Adds r ctx ((r.map Part.tree).visits pos)
    (do return concat (← r.printChildren pos ctx)) := by
  have each : Adds r ctx (((r.map Part.tree).visits pos).flatMap fun visit => [visit])
      (do return concat ((← r.printChildren pos ctx).map id)) :=
    visits_flatMap_adds r ctx pos fun index => by simpa using adds_visit index "" pos
  simpa [← List.map_eq_flatMap] using each

theorem commaVisits_adds (pos : Position) : Adds r ctx ((r.map Part.tree).commaVisits pos)
    (do return joinWith ", " (← r.printChildren pos ctx)) := by
  rw [Row.commaVisits, Row.visits, Row.nodeIndexes_map, ← mapM_visits]
  exact adds_intersperse (fun index => adds_visit index "" pos) ", " r.nodeIndexes

end Program

section Rules

open Program

variable (r : Row Part) (ctx : Context)

attribute [local simp] runAt_push runAt_write runAt_line runAt_indent runAt_outdent runAt_fail
  runAt_visit runAt_reading runAt_pushing runAt_operand runAt_pushIf String.append_assoc

/-! ## Expressions -/

theorem printingProgram_adds :
    Adds r ctx (printingProgram (r.map Part.tree)) (printingText r ctx) := by
  intro output rest
  simp only [printingText, printingProgram]
  cases h : r.child? 0 "printed items" with
  | error e => simp [h]
  | ok items =>
    cases items with
    | none => simp [h]
    | some p => simp [h, Row.child_of_child? h]

theorem newArrayProgram_adds :
    Adds r ctx (newArrayProgram (r.map Part.tree) ctx) (newArrayText r ctx) := by
  intro output rest
  simp only [newArrayText, newArrayProgram]
  cases h : r.child 1 "dimensions" with
  | error e => simp [h]
  | ok p => simp [h]

theorem statementBlockProgram_adds :
    Adds r ctx (statementBlockProgram (r.map Part.tree) ctx) (statementBlockText r ctx) := by
  intro output rest
  simp [statementBlockText, statementBlockProgram, (visits_adds r ctx.deeper .item).run]

theorem inlineProgram_adds :
    Adds r ctx (inlineProgram (r.map Part.tree) ctx) (inlineText r ctx) := by
  intro output rest
  simp only [inlineText, inlineProgram, Row.kind_map]
  generalize hk : r.kind = k
  cases k
  case callExpression =>
    cases h : r.child? 0 "receiver" with
    | error e => simp [h]
    | ok receiver =>
      cases receiver with
      | none => simp [h]
      | some p => simp [h, Row.operand, Row.child_of_child? h, hk]
  case staticCallExpression =>
    cases h : r.child? 0 "class" with
    | error e => simp [staticOwnerProgram, h]
    | ok owner => cases owner <;> simp [staticOwnerProgram, h]
  case printingExpression => exact printingProgram_adds r ctx output rest
  case newArrayExpression => exact newArrayProgram_adds r ctx output rest
  case statementBlock => exact statementBlockProgram_adds r ctx output rest
  case arguments => simp [Row.commaSeparated, (commaVisits_adds r ctx .inline).run]
  case expressionList => exact commaVisits_adds r ctx .inline output rest
  case unknown => exact visits_adds r ctx .inline output rest
  all_goals simp

theorem shiftedProgram_adds :
    Adds r ctx (shiftedProgram (r.map Part.tree) ctx) (shiftedText r ctx) := by
  unfold shiftedText shiftedProgram
  by_cases h : r.kind = .expressionList
  · rw [if_pos h, Row.kind_map, if_pos h]
    refine visits_flatMap_adds r ctx .inline fun index output rest => ?_
    simp
  · intro output rest
    simp [h, (inlineProgram_adds r ctx).run, concat]

theorem boundsProgram_adds : Adds r ctx (boundsProgram (r.map Part.tree)) (boundsText r ctx) := by
  refine visits_flatMap_adds r ctx .inline fun index output rest => ?_
  simp

/-! ## Statements -/

theorem bracesProgram_adds : Adds r ctx (bracesProgram (r.map Part.tree)) (bracesText r ctx) := by
  have same : (r.map Part.tree).slots.isEmpty = r.slots.isEmpty := by simp [Row.map]
  intro output rest
  unfold bracesText bracesProgram
  rw [same]
  split
  · simp
  · simp [(visits_adds r ctx.deeper .item).run]

theorem terminatorProgram_adds {p : Part} {index : Nat} {what : String}
    (h : r.child index what = .ok p) :
    Adds r ctx (.operand index what :: p.tree.terminatorProgram)
      (p.terminated (ctx.inside r.kind)) := by
  intro output rest
  unfold Tree.terminatorProgram Part.terminated
  split <;> simp [Row.operand, h]

theorem branchProgram_adds {p : Part} {index : Nat} {what : String}
    (h : r.child index what = .ok p) :
    Adds r ctx (p.tree.branchProgram index what) (p.branch (ctx.inside r.kind)) := by
  intro output rest
  unfold Tree.branchProgram Part.branch
  split
  · simp [h]
  · simp [h]
    rfl

theorem alternativeProgram_adds :
    Adds r ctx (alternativeProgram (r.map Part.tree)) (alternativeText r ctx) := by
  intro output rest
  simp only [alternativeText, alternativeProgram, elseProgram]
  cases hc : r.child 1 "consequence" with
  | error e => simp [hc]
  | ok consequence =>
    cases hr : (r.slots[2]?).bind Slot.node? with
    | none => simp [hc, hr, (branchProgram_adds r ctx hc).run]
    | some other =>
      have ho := Row.child_of_node? hr ""
      by_cases hk : other.tree.is .conditionalStatement = true
      · simp [hc, hr, (branchProgram_adds r ctx hc).run, hk, ho]
      · simp [hc, hr, (branchProgram_adds r ctx hc).run, hk, (branchProgram_adds r ctx ho).run]

theorem declaratorProgram_adds :
    Adds r ctx (declaratorProgram (r.map Part.tree)) (declaratorText r ctx) := by
  intro output rest
  simp only [declaratorText, declaratorProgram]
  cases h : r.child? 2 "initializer" with
  | error e => simp [h]
  | ok value =>
    cases value with
    | none => simp [h]
    | some p => simp [h, Row.operand, Row.child_of_child? h]

theorem definitionsProgram_adds (lead : String) :
    Adds r ctx (definitionsProgram (r.map Part.tree) lead) (definitionsText r ctx lead) := by
  refine visits_flatMap_adds r ctx .declarator fun index output rest => ?_
  simp

theorem loopClauseProgram_adds (index : Nat) (what : String) :
    Adds r ctx ((r.map Part.tree).loopClauseProgram index what) (r.loopClause ctx index what) := by
  intro output rest
  unfold Row.loopClause Row.loopClauseProgram
  cases h : r.child? index what with
  | error e => simp [h]
  | ok clause =>
    cases clause with
    | none => simp [h]
    | some p => simp [h, Row.operand, Row.child_of_child? h]

theorem loopHeadProgram_adds :
    Adds r ctx (loopHeadProgram (r.map Part.tree) ctx) (loopHeadText r ctx) := by
  have clause := fun index what => (loopClauseProgram_adds r ctx index what).run
  intro output rest
  simp only [loopHeadText, loopHeadProgram, loopStartProgram]
  cases ht : r.child? 1 "variable type" with
  | error e => simp [ht]
  | ok type =>
    cases type with
    | some type => simp [ht, clause]
    | none =>
      cases hi : r.child? 2 "initializer" with
      | error e => simp [ht, hi]
      | ok start =>
        cases start with
        | none => simp [ht, hi, clause]
        | some p => simp [ht, hi, clause, Row.operand, Row.child_of_child? hi]

theorem variablesProgram_adds :
    Adds r ctx (variablesProgram (r.map Part.tree) ctx) (variablesText r ctx) := by
  intro output rest
  simp [variablesText, variablesProgram]

theorem statementProgram_adds :
    Adds r ctx (statementProgram (r.map Part.tree)) (statementText r ctx) := by
  intro output rest
  simp only [statementText, statementProgram, Row.kind_map]
  generalize hk : r.kind = k
  cases k
  case block => simp [(bracesProgram_adds r ctx).run]
  case expressionStatement =>
    cases h : r.child 0 "expression" with
    | error e => simp [h]
    | ok p =>
      have printed := (terminatorProgram_adds r ctx h).run
      simp only [hk, List.cons_append] at printed
      simp [h, -runAt_operand, printed]
  case returnStatement =>
    cases h : (r.slots[0]?).bind Slot.node? with
    | none => simp [h, returnProgram]
    | some p =>
      have printed := (terminatorProgram_adds r ctx (Row.child_of_node? h "")).run
      simp only [hk, List.cons_append] at printed
      simp [h, returnProgram, -runAt_operand, printed]
  case conditionalStatement => simp [(alternativeProgram_adds r ctx).run]
  case whileStatement =>
    cases h : r.child 1 "loop body" with
    | error e => simp [h]
    | ok body => simp [h, (branchProgram_adds r ctx h).run, hk]
  case forStatement =>
    cases h : r.child 1 "loop body" with
    | error e => simp [h, hk]
    | ok body => simp [h, (branchProgram_adds r ctx h).run, hk]
  all_goals simp

/-! ## Declarations -/

theorem namespaceProgram_adds :
    Adds r ctx (namespaceProgram (r.map Part.tree)) (namespaceText r ctx) := by
  intro output rest
  simp [namespaceText, namespaceProgram, itemsText, (visits_adds r ctx.deeper .item).run,
    Context.lines, concat]

theorem classProgram_adds :
    Adds r ctx (classProgram (r.map Part.tree) ctx) (classText r ctx) := by
  -- in the implementation the class goes into the hand of the node, and back from there
  have defined (name : String) (output : String) (rest : Program) :
      runAt r none ctx output (.define name :: rest) =
        runAt r ctx.scope (ctx.defining name) output rest := rfl
  have restored (name : String) (output : String) (rest : Program) :
      runAt r ctx.scope (ctx.defining name) output (.restore :: rest) =
        runAt r none ctx output rest := rfl
  intro output rest
  simp only [classText, classProgram]
  cases h : r.child 5 "class body" with
  | error e => simp [h]
  | ok body =>
    cases ctx.artifact with
    | header =>
      simp [h, Context.lines, concat]
      rfl
    | implementation =>
      simp [h, defined, restored]
      rfl
    | entryPoint => simp [h]

theorem runAt_lines (replaced : Option String) (output : String) (texts : List String)
    (rest : Program) : runAt r replaced ctx output (texts.map .line ++ rest) =
      runAt r replaced ctx (output ++ ctx.lines texts) rest := by
  induction texts generalizing output with
  | nil => simp [Context.lines, concat]
  | cons s texts ih => simp [ih, Context.lines, concat]

theorem tableProgram_adds (record : String) (slots : List SlotText) :
    Adds r ctx (tableProgram record slots) (.ok (ctx.line ("struct " ++ record ++ "_VT \x7b")
      ++ ctx.deeper.lines (["Class __is_a;"] ++ slots.map SlotText.member
        ++ ["", record ++ "_VT()"]
        ++ initializerLines ": "
          (("__is_a(" ++ record ++ "::__class())") :: slots.map SlotText.initializer)
        ++ ["\x7b", "\x7d"])
      ++ ctx.lines ["\x7d;", ""])) := by
  intro output rest
  simp [tableProgram, runAt_lines, Context.lines, concat, Text.concat_append, -List.map_map]

theorem dispatchTableProgram_adds :
    Adds r ctx (dispatchTableProgram (r.map Part.tree) ctx) (dispatchTableText r ctx) := by
  intro output rest
  unfold dispatchTableText dispatchTableProgram
  split
  · simp
  · cases h : r.child 1 "vtable entries" with
    | error e => simp [h]
    | ok entries => simp [h, (tableProgram_adds r ctx _ _).run]

theorem memberFieldProgram_adds :
    Adds r ctx (memberFieldProgram (r.map Part.tree) ctx) (memberFieldText r ctx) := by
  intro output rest
  simp only [memberFieldText, memberFieldProgram]
  cases h : r.child 2 "declarators" with
  | error e => simp [h]
  | ok declarators =>
    cases ctx.artifact with
    | header => simp [h, staticLead, any_hasStatic]
    | implementation => simp [h, any_hasStatic, runAt_ite, Stop.reading_ite]
    | entryPoint => simp [h]

theorem fieldProgram_adds :
    Adds r ctx (fieldProgram (r.map Part.tree) ctx) (fieldText r ctx) := by
  intro output rest
  unfold fieldText fieldProgram
  split
  · exact memberFieldProgram_adds r ctx output rest
  · simp [(variablesProgram_adds r ctx).run]

theorem line_empty : ctx.line "" = "\n" := rfl

theorem constructorProgram_adds :
    Adds r ctx (constructorProgram (r.map Part.tree) ctx) (constructorText r ctx) := by
  intro output rest
  unfold constructorText constructorProgram Row.constructorBodyProgram
  split
  · simp
  · cases hp : r.child? 3 "parameters" with
    | error e => simp [hp]
    | ok parameters =>
      cases hi : r.child? 4 "initializations" with
      | error e => cases parameters <;> simp [hp, hi]
      | ok initializations =>
        cases hb : r.child? 5 "constructor body" with
        | error e => cases parameters <;> cases initializations <;> simp [hp, hi, hb]
        | ok body =>
          cases body with
          | none => cases parameters <;> cases initializations <;> simp [hp, hi, hb, line_empty]
          | some p =>
            cases parameters <;> cases initializations <;>
              simp [hp, hi, hb, Row.child_of_child? hb, line_empty]

theorem methodProgram_adds :
    Adds r ctx (methodProgram (r.map Part.tree) ctx) (methodText r ctx) := by
  intro output rest
  simp only [methodText, methodProgram, Row.methodProgram]
  cases hb : r.child? 7 "method body" with
  | error e => simp [hb]
  | ok body =>
    cases ctx.artifact with
    | header => simp [hb, staticLead, any_hasStatic]
    | implementation =>
      cases body with
      | none => simp [hb]
      | some p => simp [hb, Row.child_of_child? hb, line_empty]
    | entryPoint => simp [hb]

theorem mainProgram_adds : Adds r ctx (mainProgram (r.map Part.tree) ctx) (mainText r ctx) := by
  intro output rest
  simp [mainText, mainProgram, Context.lines, concat]

theorem classObjectProgram_adds :
    Adds r ctx (classObjectProgram (r.map Part.tree) ctx) (classObjectText r ctx) := by
  intro output rest
  unfold classObjectText classObjectProgram
  split
  · simp
  · simp [Context.lines, concat]

theorem itemProgram_adds : Adds r ctx (itemProgram (r.map Part.tree) ctx) (itemText r ctx) := by
  have items := visits_adds r ctx .item
  intro output rest
  simp only [itemText, itemProgram, Row.kind_map]
  generalize hk : r.kind = k
  cases k
  case namespaceDeclaration => exact namespaceProgram_adds r ctx output rest
  case classDeclaration => exact classProgram_adds r ctx output rest
  case vtableDeclaration => exact dispatchTableProgram_adds r ctx output rest
  case fieldDeclaration => exact fieldProgram_adds r ctx output rest
  case constructorDeclaration => exact constructorProgram_adds r ctx output rest
  case methodDeclaration => exact methodProgram_adds r ctx output rest
  case mainMethodDefinition => exact mainProgram_adds r ctx output rest
  case classMethodDefinition => exact classObjectProgram_adds r ctx output rest
  case forwardDeclaration => simp [forwardDeclarationText, forwardDeclarationProgram]
  case typeSpecifier => simp [typeSpecifierText, typeSpecifierProgram]
  case compilationUnit | classBody | unknown => exact items output rest
  case forwardDeclarations | typeSpecifiers => simp [itemsText, items.run, line_empty]
  all_goals
    simp [Kind.isStatement, (statementProgram_adds r ctx).run, (inlineProgram_adds r ctx).run]

/-- The program of a node adds what the node prints. -/
theorem Row.program_adds (pos : Position) :
    Adds r ctx ((r.map Part.tree).program ctx pos) (printRule r pos ctx) := by
  cases pos with
  | item => exact itemProgram_adds r ctx
  | inline => exact inlineProgram_adds r ctx
  | braces => exact bracesProgram_adds r ctx
  | alternative => exact alternativeProgram_adds r ctx
  | loopHead => exact loopHeadProgram_adds r ctx
  | declarator => exact declaratorProgram_adds r ctx
  | declarators => exact commaVisits_adds r ctx .declarator
  | definitions lead => exact definitionsProgram_adds r ctx lead
  | shifted => exact shiftedProgram_adds r ctx
  | bounds => exact boundsProgram_adds r ctx

end Rules

/-! ## Whole trees -/

section Trees

variable {artifact : Artifact} {settings : Settings}

theorem Row.program_station (r : Row Tree) (s : Sheet) (outer : List Kind) (pos : Position) :
    r.program (s.station artifact settings outer) pos =
      r.program (s.context artifact settings outer) pos := by
  cases pos <;> rfl

namespace Tree

theorem draw_eq (t : Tree) : t.draw artifact settings =
    drawRule artifact settings (t.drawings artifact settings) :=
  fold_eq (drawRule artifact settings) t

theorem map_fst_drawings (t : Tree) : (t.drawings artifact settings).map Prod.fst = t.row := by
  rw [drawings, Row.map_eq_mapSlots fun c : Tree => (c, c.draw artifact settings),
    Row.map_mapSlots_cancel fun _ _ => rfl]

def program (t : Tree) (artifact : Artifact) (settings : Settings) (s : Sheet) (outer : List Kind)
    (pos : Position) : Program :=
  t.row.program (s.station artifact settings outer) pos

theorem draw_eq_run (t : Tree) (pos : Position) (outer : List Kind) (s : Sheet) :
    t.draw artifact settings pos outer s = (do
      let f ← (t.program artifact settings s outer pos).run (t.drawings artifact settings) outer
        ⟨s, none⟩
      return f.sheet) := by
  rw [draw_eq, drawRule, map_fst_drawings, program]

/-- A node adds what it prints to a sheet, and leaves the depth and the class on it as they were. -/
theorem draw_eq_receive (t : Tree) (pos : Position) (outer : List Kind) (s : Sheet) :
    t.draw artifact settings pos outer s =
      s.receive (t.print pos (s.context artifact settings outer)) := by
  induction t using Tree.induction generalizing pos outer s with
  | step t ih =>
    -- by induction the nested trees are written in the way that the programs are proved with
    have nested : t.drawings artifact settings = t.parts.adding artifact settings := by
      rw [drawings, parts, Row.adding, Row.map_eq_mapSlots fun c : Tree => (c, c.print)]
      refine (Row.map_mapSlots_congr fun index c hc => ?_).symm
      exact congrArg (Prod.mk c) (funext fun pos => funext fun outer => funext fun s =>
        (ih index c hc pos outer s).symm)
    have added := Row.program_adds t.parts (s.context artifact settings outer) pos s.output []
    rw [map_tree_parts, List.append_nil] at added
    have ran : (t.row.program (s.context artifact settings outer) pos).run
        (t.parts.adding artifact settings) outer ⟨s, none⟩ =
          Stop.reading (printRule t.parts pos (s.context artifact settings outer)) fun text =>
            .ok ⟨s.push text, none⟩ := added
    rw [draw_eq_run, program, Row.program_station, nested, ran, Stop.bind_reading, print_eq]
    rfl

end Tree

def Sheet.opening (artifact : Artifact) (settings : Settings) : Sheet :=
  ⟨preamble artifact settings, 0, none⟩

theorem draw_opening (root : Tree) :
    root.draw artifact settings .item [] (.opening artifact settings) =
      Stop.reading (render settings artifact root) fun text => .ok ⟨text, 0, none⟩ := by
  rw [root.draw_eq_receive, render]
  change Sheet.receive _ (root.print .item { artifact, settings }) = _
  cases root.print .item { artifact, settings } <;> rfl

end Trees

end ClassLowering
