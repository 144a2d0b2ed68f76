import ClassLowering.Proofs.Printing.Brackets
import ClassLowering.Proofs.Printing.Program

/-!
# Brackets, levels and lines along a program

The two brackets of a pair are written by different instructions of a program, with nested nodes
printed in between, and so are the instructions that enter and leave a level. `Program.Ensures`
follows a meter, the depth and the line ends through the instructions, on the assumption that a
nested node leaves what is open as it was. Where a nested node is printed, the depth has to be the
number of open braces, and the line before has to be ended if the node stands on lines of its own.
All programs keep to this, for every meter whose marks are missing from the tree and the settings.
-/

set_option autoImplicit false

namespace ClassLowering

open Text (joinWith concat)
open Brackets (isBracket)

/-! ## Lines -/

def EndsLine (s : String) : Prop := s.toList.getLast? = some '\n'

instance (s : String) : Decidable (EndsLine s) := inferInstanceAs (Decidable (_ = _))

theorem EndsLine.append (s : String) {t : String} (h : EndsLine t) : EndsLine (s ++ t) := by
  unfold EndsLine at h ⊢
  simp [h]

/-- A line is ended after a text, where it is ended before if `ended` holds. -/
def LineAfter (ended : Prop) (s : String) : Prop := EndsLine s ∨ s = "" ∧ ended

def Position.HasLines : Position → Prop
  | .item | .definitions _ => True
  | _ => False

/-! ## Names that are handed down -/

def Position.Lacks (marks : Char → Bool) : Position → Prop
  | .definitions lead => Brackets.Lacks marks lead
  | _ => True

structure Context.Lacks (marks : Char → Bool) (ctx : Context) : Prop where
  settings : ∀ s ∈ ctx.settings.strings, Brackets.Lacks marks s
  scope : ∀ className ∈ ctx.scope, Brackets.Lacks marks className

namespace Context.Lacks

variable {marks : Char → Bool} {ctx : Context} (h : ctx.Lacks marks)

include h

theorem arrayType : Brackets.Lacks marks ctx.runtime.arrayType :=
  h.settings _ (by simp [Settings.strings, Context.runtime])

theorem arrayTemplate : Brackets.Lacks marks ctx.runtime.arrayTemplate :=
  h.settings _ (by simp [Settings.strings, Context.runtime])

theorem literal : Brackets.Lacks marks ctx.runtime.literal :=
  h.settings _ (by simp [Settings.strings, Context.runtime])

theorem scopePath (only : ∀ c, marks c = true → isBracket c = true) {path : String}
    (hp : scopePath ctx = .ok path) : Brackets.Lacks marks path := by
  unfold ClassLowering.scopePath at hp
  split at hp
  · next name hs =>
    obtain rfl := Except.ok.inj hp
    exact Brackets.lacks_recordPath only (h.scope name (by simp [hs]))
  · cases hp

end Context.Lacks

namespace Row.Lacks

variable {σ : Type} {m : Meter σ} {r : Row Tree} (hr : r.Lacks m.marks) {index : Nat}
  {what s : String}

include hr

theorem keeps_text (hs : r.text index what = .ok s) : m.Keeps s :=
  Meter.keeps_of_lacks (hr.text hs)

theorem keeps_recordPath (hs : r.text index what = .ok s) : m.Keeps (Naming.recordPath s) :=
  Meter.keeps_of_lacks (Brackets.lacks_recordPath m.only (hr.text hs))

theorem keeps_recordText (hs : (do (← r.child index what).recordText) = .ok s) : m.Keeps s :=
  Meter.keeps_of_lacks (hr.recordText m.only hs)

theorem keeps_typeText {ctx : Context} (hc : ctx.Lacks m.marks)
    (hs : (do (← r.child index what).typeText ctx.runtime) = .ok s) : m.Keeps s :=
  Meter.keeps_of_lacks (hr.typeText m.only hc.arrayType hs)

end Row.Lacks

/-! ## Along a program -/

/-- What is known between two instructions: the depth, what is open, and if the line is ended. -/
structure Spot (σ : Type) where
  depth : Nat
  opened : σ
  ended : Prop

structure Spot.Fits {σ : Type} (m : Meter σ) (pos : Position) (a : Spot σ) : Prop where
  level : (a.depth : Int) = m.level a.opened
  line : pos.HasLines → a.ended
  position : pos.Lacks m.marks

theorem Spot.fits_iff {σ : Type} {m : Meter σ} {pos : Position} {a : Spot σ} :
    a.Fits m pos ↔ (a.depth : Int) = m.level a.opened ∧ (pos.HasLines → a.ended) ∧
      pos.Lacks m.marks :=
  ⟨fun h => ⟨h.level, h.line, h.position⟩, fun h => ⟨h.1, h.2.1, h.2.2⟩⟩

namespace Program

variable {σ : Type} (m : Meter σ)

/-- The instructions can be carried out from a spot, and `Q` holds where they lead. -/
def Ensures (Q : Spot σ → Prop) : Program → Spot σ → Prop
  | [], a => Q a
  | .push s :: rest, a => ∃ opened, m.read a.opened s = some opened ∧
      Ensures Q rest { a with opened, ended := LineAfter a.ended s }
  | .write s :: rest, a => ∃ opened, m.read a.opened s = some opened ∧
      Ensures Q rest { a with opened, ended := EndsLine s }
  | .line s :: rest, a => ∃ opened, m.read a.opened s = some opened ∧
      Ensures Q rest { a with opened, ended := True }
  | .indent :: rest, a => Ensures Q rest { a with depth := a.depth + 1 }
  | .outdent :: rest, a => ∃ depth, a.depth = depth + 1 ∧ Ensures Q rest { a with depth }
  | .define className :: rest, a => Brackets.Lacks m.marks className ∧ Ensures Q rest a
  | .restore :: rest, a => Ensures Q rest a
  | .fail _ :: _, _ => True
  -- that the node in between leaves all else as it was is left to the induction on the tree
  | .visit _ _ pos :: rest, a => a.Fits m pos ∧ Ensures Q rest { a with ended := pos.HasLines }

/-- The program leads back to where it started. It is at the end of a line afterwards if `after`
holds, and relies on that at the beginning if `before` does. -/
def Keeps (before after : Prop) (program : Program) : Prop :=
  ∀ (depth : Nat) opened ended Q, (depth : Int) = m.level opened → (before → ended) →
    (∀ ended, (after → ended) → Q ⟨depth, opened, ended⟩) →
    Ensures m Q program ⟨depth, opened, ended⟩

variable {m}

theorem ensures_append {Q : Spot σ → Prop} {first rest : Program} {a : Spot σ} :
    Ensures m Q (first ++ rest) a ↔ Ensures m (Ensures m Q rest) first a := by
  induction first generalizing a with
  | nil => rfl
  | cons instruction first ih => cases instruction <;> simp [Ensures, ih]

theorem ensures_reading {α : Type} {Q : Spot σ → Prop} {x : Except Fault α} {rest : α → Program}
    {a : Spot σ} :
    Ensures m Q (reading x rest) a ↔ ∀ v, x = .ok v → Ensures m Q (rest v) a := by
  cases x <;> simp [reading, Ensures]

variable {before between after : Prop}

theorem keeps_nil : Keeps m before before [] := fun _ _ ended _ _ line done => done ended line

theorem Keeps.append {first rest : Program} (hf : Keeps m before between first)
    (hr : Keeps m between after rest) : Keeps m before after (first ++ rest) := by
  intro depth opened ended Q level line done
  rw [ensures_append]
  exact hf depth opened ended _ level line fun ended line =>
    hr depth opened ended Q level line done

theorem keeps_reading {α : Type} {x : Except Fault α} {rest : α → Program}
    (h : ∀ v, x = .ok v → Keeps m before after (rest v)) :
    Keeps m before after (reading x rest) := by
  intro depth opened ended Q level line done
  rw [ensures_reading]
  exact fun v hv => h v hv depth opened ended Q level line done

theorem keeps_flatMap {α : Type} {xs : List α} {f : α → Program}
    (h : ∀ x ∈ xs, Keeps m before before (f x)) : Keeps m before before (xs.flatMap f) := by
  induction xs with
  | nil => exact keeps_nil
  | cons x xs ih => exact (h x (by simp)).append (ih fun y hy => h y (by simp [hy]))

theorem keeps_visit (index : Nat) (what : String) (pos : Position) (hp : pos.Lacks m.marks) :
    Keeps m pos.HasLines pos.HasLines [.visit index what pos] :=
  fun _ _ _ _ level line done => ⟨⟨level, line, hp⟩, done _ id⟩

theorem keeps_line {s : String} (h : m.Keeps s) : Keeps m before after [.line s] :=
  fun _ opened _ _ _ _ done => ⟨opened, h opened, done _ fun _ => trivial⟩

theorem keeps_write {s : String} (h : m.Keeps s) : Keeps m before False [.write s] :=
  fun _ opened _ _ _ _ done => ⟨opened, h opened, done _ False.elim⟩

theorem keeps_push {s : String} (h : m.Keeps s) : Keeps m before False [.push s] :=
  fun _ opened _ _ _ _ done => ⟨opened, h opened, done _ False.elim⟩

theorem keeps_plain {s : String} (h : Brackets.Lacks isBracket s) :
    Keeps m before False [.push s] :=
  keeps_push (Meter.keeps_plain h)

theorem keeps_pushing {x : Except Fault String}
    (h : ∀ s, x = .ok s → Brackets.Lacks m.marks s) : Keeps m before False (pushing x) :=
  keeps_reading fun s hs => keeps_push (Meter.keeps_of_lacks (h s hs))

theorem keeps_lineEnd : Keeps m before after [.push "\n"] :=
  fun _ opened _ _ _ _ done => ⟨opened, Meter.keeps_plain (by decide) opened,
    done _ fun _ => .inl (by decide)⟩

theorem Keeps.line {program : Program} (h : Keeps m False False program) :
    Keeps m before after (.write "" :: program ++ [.push "\n"]) :=
  have indented : Keeps m before False [.write ""] := keeps_write fun _ => rfl
  (indented.append h).append keeps_lineEnd

end Program

section Programs

open Program

variable {σ : Type} {m : Meter σ} {r : Row Tree} {ctx : Context}

-- what a program opens and closes itself is found by computation
attribute [local simp] Ensures ensures_append ensures_reading Meter.read Meter.Keeps.chars
  Meter.open_round Meter.close_round Meter.open_curly Meter.close_curly Meter.level_round
  Meter.level_curly Meter.step_of_not_bracket isBracket LineAfter EndsLine Spot.fits_iff
  Position.HasLines Position.Lacks Instruction.operand

theorem visits_keep (r : Row Tree) (pos : Position) (hp : pos.Lacks m.marks) :
    Keeps m pos.HasLines pos.HasLines (r.visits pos) := by
  rw [Row.visits, List.map_eq_flatMap]
  exact keeps_flatMap fun index _ => keeps_visit index "" pos hp

theorem commaVisits_keep (r : Row Tree) (pos : Position) (hl : pos.HasLines = False)
    (hp : pos.Lacks m.marks) : Keeps m False False (r.commaVisits pos) := by
  have visit (index : Nat) : Keeps m False False [.visit index "" pos] :=
    hl ▸ keeps_visit index "" pos hp
  have comma : Keeps m False False [.push ", "] := keeps_plain (by decide)
  unfold Row.commaVisits Row.visits
  generalize r.nodeIndexes = indexes
  induction indexes with
  | nil => exact keeps_nil
  | cons index rest ih =>
    cases rest with
    | nil => exact visit index
    | cons next rest => exact ((visit index).append comma).append ih

/-! ## Expressions -/

theorem operand_keeps (index : Nat) (what : String) : Keeps m False False [.operand index what] :=
  keeps_visit index what .inline trivial

theorem printingProgram_keeps (r : Row Tree) : Keeps m False False (printingProgram r) := by
  have stream : Keeps m False False [.push "std::cout"] := keeps_plain (by decide)
  unfold printingProgram
  refine (stream.append (?_ : Keeps m False False _)).append ?_
  · apply keeps_reading
    intro items _
    cases items with
    | none => exact keeps_nil
    | some items => exact keeps_visit 0 _ .shifted trivial
  · apply keeps_reading
    intro variant _
    split
    · exact keeps_plain (by decide)
    · exact keeps_nil

/-- Items one level deeper, between instructions that open and close a brace. -/
theorem items_keep {before after : Prop} (r : Row Tree) {first last : Program} {within : σ → σ}
    (same : ∀ opened, m.level (within opened) = m.level opened)
    (opening : ∀ depth opened ended Q,
      (∀ ended, ended → Q ⟨depth + 1, m.curly (within opened), ended⟩) →
      Ensures m Q first ⟨depth, opened, ended⟩)
    (closing : ∀ depth opened ended Q, (∀ ended, (after → ended) → Q ⟨depth, opened, ended⟩) →
      Ensures m Q last ⟨depth + 1, m.curly (within opened), ended⟩) :
    Keeps m before after (first ++ r.visits .item ++ last) := by
  intro depth opened ended Q level _ done
  rw [ensures_append, ensures_append]
  refine opening depth opened ended _ fun ended line => ?_
  refine visits_keep r .item trivial (depth + 1) _ ended _ ?_ (fun _ => line) fun ended _ => ?_
  · simp [level, same]
  · exact closing depth opened ended Q done

theorem statementBlockProgram_keeps (r : Row Tree) (ctx : Context) :
    Keeps m False False (statementBlockProgram r ctx) := by
  unfold statementBlockProgram
  refine Keeps.append (?_ : Keeps m False False _) ?_
  · apply items_keep r m.level_round
    · intro depth opened ended Q done
      simp [done]
    · intro depth opened ended Q done
      simp [done]
  · split
    · exact keeps_plain (by decide)
    · exact keeps_nil

variable (hr : r.Lacks m.marks) (hc : ctx.Lacks m.marks)

include hr hc in
theorem newArrayProgram_keeps : Keeps m False False (newArrayProgram r ctx) := by
  apply keeps_reading
  intro element he
  apply keeps_reading
  intro dimensions _ depth opened ended Q level _ done
  have template : Brackets.Lacks m.marks (ctx.runtime.arrayTemplate ++ "<") :=
    Brackets.lacks_append.mpr ⟨hc.arrayTemplate, m.lacks (by decide)⟩
  have templates := Brackets.lacks_replicate dimensions.slots.length template
  have ends := Brackets.lacks_replicate dimensions.slots.length
    (m.lacks (by decide : Brackets.Lacks isBracket ">"))
  simp [Meter.keeps_of_lacks templates, Meter.keeps_of_lacks ends, hr.keeps_typeText hc he, level,
    done]

include hr in
theorem staticOwnerProgram_keeps : Keeps m False False (staticOwnerProgram r) := by
  apply keeps_reading
  intro owner ho
  cases owner with
  | none => exact keeps_nil
  | some t =>
    apply keeps_reading
    intro record hs depth opened ended Q level _ done
    have record' := Tree.lacks_recordText m.only (hr.child? ho) hs
    simp [Meter.keeps_of_lacks record', done]

include hr hc in
theorem inlineProgram_keeps : Keeps m False False (inlineProgram r ctx) := by
  have named (index : Nat) (what : String) : Keeps m False False (pushing (r.text index what)) :=
    keeps_pushing fun s hs => hr.text hs
  unfold inlineProgram
  cases r.kind
  case expression | additiveExpression | multiplicativeExpression | relationalExpression
      | equalityExpression | logicalAndExpression | logicalOrExpression =>
    apply Keeps.append (operand_keeps 0 _)
    apply keeps_reading
    intro operator ho depth opened ended Q level _ done
    simp [hr.keeps_text ho, level, done]
  case prefixExpression | unaryExpression =>
    apply keeps_reading
    intro operator ho depth opened ended Q level _ done
    simp [hr.keeps_text ho, level, done]
  case postfixExpression => exact (operand_keeps 0 _).append (named 1 _)
  case castExpression =>
    apply keeps_reading
    intro type ht depth opened ended Q level _ done
    simp [hr.keeps_typeText hc ht, level, done]
  case primaryIdentifier | integerLiteral | floatingPointLiteral | characterLiteral
      | booleanLiteral => exact named 0 _
  case qualifiedIdentifier => exact keeps_pushing fun s hs => hr.qualifiedText m.only hs
  case type | voidType | primitiveType =>
    exact keeps_pushing fun s hs => Tree.lacks_typeText m.only hc.arrayType hr.ofRow hs
  case selectionExpression =>
    refine Keeps.append ?_ (named 1 _)
    intro depth opened ended Q level _ done
    simp [level, done]
  case staticSelectionExpression =>
    apply keeps_reading
    intro record hs
    refine Keeps.append ?_ (named 1 _)
    intro depth opened ended Q level _ done
    simp [hr.keeps_recordText hs, done]
  case callExpression =>
    refine ((keeps_reading fun receiver _ => ?_).append (named 2 _)).append (operand_keeps 3 _)
    intro depth opened ended Q level _ done
    cases receiver <;> simp [level, done]
  case staticCallExpression =>
    exact ((staticOwnerProgram_keeps hr).append (named 2 _)).append (operand_keeps 3 _)
  case arguments =>
    intro depth opened ended Q level _ done
    refine ⟨m.round opened, by simp, ensures_append.mpr ?_⟩
    have level' : (depth : Int) = m.level (m.round opened) := by simp [level]
    refine commaVisits_keep r .inline rfl trivial depth _ _ _ level' False.elim fun ended _ => ?_
    simp [done]
  case expressionList => exact commaVisits_keep r .inline rfl trivial
  case printingExpression => exact printingProgram_keeps r
  case newClassExpression =>
    apply keeps_reading
    intro record hs depth opened ended Q level _ done
    simp [hr.keeps_recordText hs, level, done]
  case cppNewClassExpression =>
    apply keeps_reading
    intro name hn depth opened ended Q level _ done
    simp [hr.keeps_recordPath hn, done]
  case newArrayExpression => exact newArrayProgram_keeps hr hc
  case newCastExpression => exact (named 2 _).append (operand_keeps 3 _)
  case statementBlock => exact statementBlockProgram_keeps r ctx
  case stringLiteral =>
    apply keeps_reading
    intro s hs depth opened ended Q level _ done
    simp [hr.keeps_text hs, Meter.keeps_of_lacks hc.literal, done]
  case unknown => exact visits_keep r .inline trivial
  all_goals
    intro depth opened ended Q level _ done
    simp [Naming.receiver, level, done]

include hr hc in
theorem shiftedProgram_keeps : Keeps m False False (shiftedProgram r ctx) := by
  unfold shiftedProgram
  have mark : Keeps m False False [.push " << "] := keeps_plain (by decide)
  split
  · rw [Row.visits, List.flatMap_map]
    exact keeps_flatMap fun index _ => mark.append (operand_keeps index "")
  · exact mark.append (inlineProgram_keeps hr hc)

theorem boundsProgram_keeps (r : Row Tree) : Keeps m False False (boundsProgram r) := by
  rw [boundsProgram, Row.visits, List.flatMap_map]
  apply keeps_flatMap
  intro index _ depth opened ended Q level _ done
  simp [level, done]

/-! ## Statements -/

theorem bracesProgram_keeps (r : Row Tree) : Keeps m False False (bracesProgram r) := by
  unfold bracesProgram
  split
  · intro depth opened ended Q level _ done
    simp [done]
  · apply items_keep r (fun _ => rfl)
    · intro depth opened ended Q done
      simp [done]
    · intro depth opened ended Q done
      simp [done]

theorem terminatorProgram_keeps (expression : Tree) :
    Keeps m False False expression.terminatorProgram := by
  unfold Tree.terminatorProgram
  split
  · exact keeps_nil
  · exact keeps_plain (by decide)

theorem branchProgram_keeps (body : Tree) (index : Nat) (what : String) :
    Keeps m False False (body.branchProgram index what) := by
  unfold Tree.branchProgram
  split
  · exact keeps_visit index what .braces trivial
  · intro depth opened ended Q level _ done
    simp [level, done]

theorem elseProgram_keeps (rest : Option Tree) : Keeps m False False (elseProgram rest) := by
  cases rest with
  | none => exact keeps_nil
  | some rest =>
    have lead : Keeps m False False [.push " else "] := keeps_plain (by decide)
    rw [elseProgram]
    split
    · exact lead.append (keeps_visit 2 "" .alternative trivial)
    · exact lead.append (branchProgram_keeps rest 2 "")

theorem alternativeProgram_keeps (r : Row Tree) : Keeps m False False (alternativeProgram r) := by
  refine Keeps.append (?_ : Keeps m False False _) ?_
  · intro depth opened ended Q level _ done
    simp [level, done]
  · apply keeps_reading
    intro consequence _
    exact (branchProgram_keeps consequence 1 _).append (elseProgram_keeps _)

include hr in
theorem declaratorProgram_keeps : Keeps m False False (declaratorProgram r) := by
  apply keeps_reading
  intro name hn
  apply Keeps.append (keeps_push (hr.keeps_text hn))
  apply keeps_reading
  intro value _ depth opened ended Q level _ done
  cases value <;> simp [level, done]

theorem definitionsProgram_keeps (r : Row Tree) {lead : String} (hl : Brackets.Lacks m.marks lead) :
    Keeps m True True (definitionsProgram r lead) := by
  rw [definitionsProgram, Row.visits, List.flatMap_map]
  apply keeps_flatMap
  intro index _ depth opened ended Q level _ done
  simp [Meter.keeps_of_lacks hl, level, done]

theorem loopClauseProgram_keeps (r : Row Tree) (index : Nat) (what : String) :
    Keeps m False False (r.loopClauseProgram index what) := by
  apply keeps_reading
  intro clause _ depth opened ended Q level _ done
  cases clause <;> simp [level, done]

include hr hc in
theorem loopStartProgram_keeps : Keeps m False False (loopStartProgram r ctx) := by
  apply keeps_reading
  intro type ht
  cases type with
  | some type =>
    apply keeps_reading
    intro text hs depth opened ended Q level _ done
    have text' := Tree.lacks_typeText m.only hc.arrayType (hr.child? ht) hs
    simp [Meter.keeps_of_lacks text', level, done]
  | none =>
    apply keeps_reading
    intro start _ depth opened ended Q level _ done
    cases start <;> simp [level, done]

include hr hc in
theorem loopHeadProgram_keeps : Keeps m False False (loopHeadProgram r ctx) := by
  have separator : Keeps m False False [.push ";"] := keeps_plain (by decide)
  have condition := separator.append (loopClauseProgram_keeps r 3 "condition")
  have update := separator.append (loopClauseProgram_keeps r 4 "update")
  exact ((loopStartProgram_keeps hr hc).append condition).append update

include hr hc in
theorem variablesProgram_keeps : Keeps m False False (variablesProgram r ctx) := by
  apply keeps_reading
  intro type ht depth opened ended Q level _ done
  simp [hr.keeps_typeText hc ht, level, done]

theorem returnProgram_keeps (value : Option Tree) : Keeps m False False (returnProgram value) := by
  cases value with
  | none => exact keeps_plain (by decide)
  | some value =>
    refine Keeps.append ?_ (terminatorProgram_keeps value)
    intro depth opened ended Q level _ done
    simp [level, done]

theorem loopBody_keeps (r : Row Tree) (what : String) :
    Keeps m False True (reading (r.child 1 what) fun body =>
      body.branchProgram 1 what ++ [.push "\n"]) :=
  keeps_reading fun body _ => (branchProgram_keeps body 1 what).append keeps_lineEnd

theorem statementProgram_keeps (r : Row Tree) : Keeps m True True (statementProgram r) := by
  unfold statementProgram
  cases r.kind
  case block => exact (bracesProgram_keeps r).line
  case expressionStatement =>
    apply keeps_reading
    intro expression _
    exact ((operand_keeps 0 _).append (terminatorProgram_keeps expression)).line
  case returnStatement =>
    have lead : Keeps m True False [.write "return"] :=
      keeps_write (Meter.keeps_plain (by decide))
    exact (lead.append (returnProgram_keeps _)).append keeps_lineEnd
  case conditionalStatement => exact (alternativeProgram_keeps r).line
  case whileStatement | forStatement =>
    refine Keeps.append ?_ (loopBody_keeps r _)
    intro depth opened ended Q level _ done
    simp [level, done]
  case breakStatement | continueStatement | emptyStatement =>
    exact keeps_line (Meter.keeps_plain (by decide))
  all_goals
    intro depth opened ended Q level _ done
    simp

/-! ## Texts of declarations -/

section Texts

variable {runtime : RuntimeSettings} (ha : Brackets.Lacks m.marks runtime.arrayType)

theorem keeps_joinComma {texts : List String} (h : ∀ s ∈ texts, m.Keeps s) :
    m.Keeps (joinWith ", " texts) :=
  Meter.Keeps.joinWith (Meter.keeps_plain (by decide)) h

include ha in
theorem keeps_parametersText {t : Tree} (ht : t.Lacks m.marks) {s : String}
    (h : parametersText runtime t = .ok s) : m.Keeps s := by
  obtain ⟨texts, hm, h⟩ := bind_eq_ok.mp h
  have each : ∀ text ∈ texts, m.Keeps text := by
    intro text hx
    obtain ⟨p, hp, hx⟩ := exists_of_mem_mapM hm hx
    obtain ⟨child, hchild, hx⟩ := bind_eq_ok.mp hx
    obtain ⟨type, htype, hx⟩ := bind_eq_ok.mp hx
    obtain ⟨name, hname, hx⟩ := bind_eq_ok.mp hx
    have row := (ht.children hp).row
    have type' := Meter.keeps_of_lacks (Tree.lacks_typeText m.only ha (row.child hchild) htype)
    rw [← pure_eq_ok.mp hx]
    intro opened
    simp [type', row.keeps_text hname]
  rw [← pure_eq_ok.mp h]
  intro opened
  simp [keeps_joinComma each]

theorem keeps_initializationsText {t : Tree} (ht : t.Lacks m.marks) {s : String}
    (h : initializationsText t = .ok s) : m.Keeps s := by
  obtain ⟨texts, hm, h⟩ := bind_eq_ok.mp h
  have each : ∀ text ∈ texts, m.Keeps text := by
    intro text hx
    obtain ⟨i, hi, hx⟩ := exists_of_mem_mapM hm hx
    obtain ⟨member, hmember, hx⟩ := bind_eq_ok.mp hx
    obtain ⟨value, hvalue, hx⟩ := bind_eq_ok.mp hx
    have row := (ht.children hi).row
    rw [← pure_eq_ok.mp hx]
    intro opened
    simp [row.keeps_text hmember, row.keeps_text hvalue]
  rw [← pure_eq_ok.mp h]
  intro opened
  split
  · rfl
  · simp [keeps_joinComma each]

include ha in
theorem keeps_slotText {className : String} {entry : Row Tree} (he : entry.Lacks m.marks)
    {slot : SlotText} (h : slotText runtime className entry = .ok slot) :
    m.Keeps slot.member ∧ m.Keeps slot.initializer := by
  obtain ⟨child, hchild, h⟩ := bind_eq_ok.mp h
  obtain ⟨result, hresult, h⟩ := bind_eq_ok.mp h
  obtain ⟨name, hname, h⟩ := bind_eq_ok.mp h
  obtain ⟨list, hlist, h⟩ := bind_eq_ok.mp h
  obtain ⟨types, htypes, h⟩ := bind_eq_ok.mp h
  obtain ⟨implementor, himplementor, h⟩ := bind_eq_ok.mp h
  have each : ∀ type ∈ types, m.Keeps type := by
    intro type hx
    obtain ⟨t, ht, hx⟩ := exists_of_mem_mapM htypes hx
    exact Meter.keeps_of_lacks (Tree.lacks_typeText m.only ha ((he.child hlist).children ht) hx)
  have types' := keeps_joinComma each
  have result' := Meter.keeps_of_lacks (Tree.lacks_typeText m.only ha (he.child hchild) hresult)
  have name' := he.keeps_text hname
  have path' := he.keeps_recordPath himplementor
  rw [← pure_eq_ok.mp h]
  constructor <;> intro opened
  · simp [result', name', types']
  · dsimp only
    split <;> simp [result', name', types', path']

theorem keeps_initializerLines {lead : String} (hl : m.Keeps lead) {texts : List String}
    (h : ∀ s ∈ texts, m.Keeps s) : ∀ s ∈ initializerLines lead texts, m.Keeps s := by
  fun_induction initializerLines lead texts with
  | case1 => simp
  | case2 lead last => simpa using hl.append (h last (by simp))
  | case3 lead first rest _ ih =>
    have plain {s : String} (hs : Brackets.Lacks isBracket s) : m.Keeps s :=
      Meter.keeps_plain hs
    intro s hs
    rcases List.mem_cons.mp hs with rfl | hs
    · exact (hl.append (h first (by simp))).append (plain (by decide))
    · exact ih (plain (by decide)) (fun s hs => h s (by simp [hs])) s hs

end Texts

/-! ## Declarations -/

theorem lines_keep {texts : List String} (h : ∀ s ∈ texts, m.Keeps s) :
    Keeps m True True (texts.map .line) := by
  rw [List.map_eq_flatMap]
  exact keeps_flatMap fun s hs => keeps_line (h s hs)

include hr in
theorem namespaceProgram_keeps : Keeps m True True (namespaceProgram r) := by
  apply keeps_reading
  intro name hn
  apply items_keep r (fun _ => rfl)
  · intro depth opened ended Q done
    simp [hr.keeps_text hn, done]
  · intro depth opened ended Q done
    simp [done]

include hr in
theorem forwardDeclarationProgram_keeps : Keeps m True True (forwardDeclarationProgram r) := by
  apply keeps_reading
  intro keyword hk
  apply keeps_reading
  intro name hn depth opened ended Q level _ done
  simp [hr.keeps_text hk, hr.keeps_text hn, done]

include hr in
theorem typeSpecifierProgram_keeps : Keeps m True True (typeSpecifierProgram r) := by
  apply keeps_reading
  intro keyword hk
  apply keeps_reading
  intro target ht
  apply keeps_reading
  intro name hn depth opened ended Q level _ done
  simp [hr.keeps_text hk, hr.keeps_text ht, hr.keeps_text hn, done]

include hr in
theorem classProgram_keeps : Keeps m True True (classProgram r ctx) := by
  apply keeps_reading
  intro name hn
  apply keeps_reading
  intro body _ depth opened ended Q level line done
  cases ctx.artifact with
  | header => simp [hr.keeps_recordPath hn, level, done]
  | implementation => simp [hr.text hn, level, line, done]
  | entryPoint => exact done ended line

theorem tableProgram_keeps {record : String} {slots : List SlotText}
    (hrecord : m.Keeps record)
    (each : ∀ slot ∈ slots, m.Keeps slot.member ∧ m.Keeps slot.initializer) :
    Keeps m True True (tableProgram record slots) := by
  have members : Keeps m True True ((slots.map SlotText.member).map .line) := by
    apply lines_keep
    simpa using fun slot hs => (each slot hs).1
  have bindings : Keeps m True True ((initializerLines ": "
      (("__is_a(" ++ record ++ "::__class())") :: slots.map SlotText.initializer)).map .line) := by
    apply lines_keep
    apply keeps_initializerLines (Meter.keeps_plain (by decide))
    intro s hs
    rcases List.mem_cons.mp hs with rfl | hs
    · intro opened
      simp [hrecord]
    · obtain ⟨slot, hm, rfl⟩ := List.mem_map.mp hs
      exact (each slot hm).2
  intro depth opened ended Q level _ done
  have level' : ((depth + 1 : Nat) : Int) = m.level (m.curly opened) := by simp [level]
  simp only [tableProgram, ensures_append]
  refine ⟨m.curly opened, by simp [hrecord], m.curly opened, by simp, ?_⟩
  refine members _ _ _ _ level' (fun _ => trivial) fun ended _ => ?_
  refine ⟨m.curly opened, by simp, m.curly opened, by simp [hrecord], ?_⟩
  refine bindings _ _ _ _ level' (fun _ => trivial) fun ended _ => ?_
  simp [done]

include hr hc in
theorem dispatchTableProgram_keeps : Keeps m True True (dispatchTableProgram r ctx) := by
  unfold dispatchTableProgram
  split
  · exact keeps_nil
  apply keeps_reading
  intro className hn
  apply keeps_reading
  intro entries he
  apply keeps_reading
  intro slots hslots
  apply tableProgram_keeps
  · exact hr.keeps_recordPath hn
  · intro slot hs
    obtain ⟨entry, hm, hs⟩ := exists_of_mem_mapM hslots hs
    exact keeps_slotText hc.arrayType ((hr.child he).children hm).row hs

include hr hc in
theorem memberFieldProgram_keeps : Keeps m True True (memberFieldProgram r ctx) := by
  apply keeps_reading
  intro modifiers _
  apply keeps_reading
  intro type ht
  apply keeps_reading
  intro declarators hd
  have type' := hr.typeText m.only hc.arrayType ht
  cases ctx.artifact with
  | header =>
    apply keeps_reading
    intro names hm
    have each : ∀ name ∈ names, m.Keeps name := by
      intro name hn
      obtain ⟨d, hd', hn⟩ := exists_of_mem_mapM hm hn
      exact Meter.keeps_of_lacks (((hr.child hd).children hd').row.text hn)
    apply keeps_line
    intro opened
    split <;> simp [Meter.keeps_of_lacks type', keeps_joinComma each]
  | implementation =>
    dsimp only
    split
    · apply keeps_reading
      intro path hp
      have lead : Brackets.Lacks m.marks (type ++ " " ++ path ++ "::") := by
        simp only [Brackets.lacks_append]
        exact ⟨⟨⟨type', m.lacks (by decide)⟩, hc.scopePath m.only hp⟩, m.lacks (by decide)⟩
      exact keeps_visit 2 _ (.definitions _) lead
    · exact keeps_nil
  | entryPoint => exact keeps_nil

include hr hc in
theorem fieldProgram_keeps : Keeps m True True (fieldProgram r ctx) := by
  unfold fieldProgram
  split
  · exact memberFieldProgram_keeps hr hc
  · have indented : Keeps m True False [.write ""] := keeps_write fun _ => rfl
    refine (indented.append (variablesProgram_keeps hr hc)).append ?_
    intro depth opened ended Q level _ done
    simp [done]

theorem constructorBodyProgram_keeps (r : Row Tree) :
    Keeps m False True r.constructorBodyProgram := by
  apply keeps_reading
  intro body _ depth opened ended Q level _ done
  cases body <;> simp [level, done]

include hr hc in
theorem constructorProgram_keeps : Keeps m True True (constructorProgram r ctx) := by
  unfold constructorProgram
  split
  · exact keeps_nil
  apply keeps_reading
  intro name hn
  apply keeps_reading
  intro parameters hp
  apply keeps_reading
  intro parametersText hpt
  have record := hr.keeps_recordPath hn
  have parameters' : m.Keeps parametersText := by
    cases parameters with
    | none =>
      rw [← Except.ok.inj hpt]
      intro opened
      simp
    | some t => exact keeps_parametersText hc.arrayType (hr.child? hp) hpt
  apply Keeps.append (keeps_write (record.append parameters'))
  apply keeps_reading
  intro initializations hi
  apply keeps_reading
  intro initializationsText hit
  have initializations' : m.Keeps initializationsText := by
    cases initializations with
    | none =>
      rw [← Except.ok.inj hit]
      exact fun _ => rfl
    | some t => exact keeps_initializationsText (hr.child? hi) hit
  have head : Keeps m False False [.push initializationsText] := keeps_push initializations'
  have blank : Keeps m True True [.line ""] := keeps_line fun _ => rfl
  exact (head.append (constructorBodyProgram_keeps r)).append blank

include hc in
theorem methodProgram_keeps_of_signature {result name parameters : String}
    (hresult : m.Keeps result) (hname : m.Keeps name) (hparameters : m.Keeps parameters) :
    Keeps m True True (r.methodProgram ctx result name parameters) := by
  apply keeps_reading
  intro body _
  cases ctx.artifact with
  | header =>
    apply keeps_reading
    intro modifiers _
    apply keeps_line
    intro opened
    split <;> simp [hresult, hname, hparameters]
  | implementation =>
    cases body with
    | none => exact keeps_nil
    | some body =>
      apply keeps_reading
      intro path hp depth opened ended Q level _ done
      simp [hresult, hname, hparameters, Meter.keeps_of_lacks (hc.scopePath m.only hp), level, done]
  | entryPoint => exact keeps_nil

include hr hc in
theorem methodProgram_keeps : Keeps m True True (methodProgram r ctx) := by
  apply keeps_reading
  intro result hresult
  apply keeps_reading
  intro name hname
  apply keeps_reading
  intro parameters hparameters
  obtain ⟨t, ht, hparameters⟩ := bind_eq_ok.mp hparameters
  exact methodProgram_keeps_of_signature hc (hr.keeps_typeText hc hresult) (hr.keeps_text hname)
    (keeps_parametersText hc.arrayType (hr.child ht) hparameters)

include hr hc in
theorem mainProgram_keeps : Keeps m True True (mainProgram r ctx) := by
  apply keeps_reading
  intro location hl depth opened ended Q level _ done
  have arrayType := Meter.keeps_of_lacks hc.arrayType
  have arrayTemplate := Meter.keeps_of_lacks hc.arrayTemplate
  have literal := Meter.keeps_of_lacks hc.literal
  simp [hr.keeps_recordPath hl, arrayType, arrayTemplate, literal, done]

include hr hc in
theorem classObjectProgram_keeps : Keeps m True True (classObjectProgram r ctx) := by
  unfold classObjectProgram
  split
  · exact keeps_nil
  apply keeps_reading
  intro qualified hq
  apply keeps_reading
  intro parent hp depth opened ended Q level _ done
  have record := Meter.keeps_of_lacks
    (Brackets.lacks_recordPath m.only (Brackets.lacks_afterLast '.' (hr.text hq)))
  have parentRecord : m.Keeps (if parent = Naming.noParent then "__Object"
      else Naming.recordPath parent) := by
    split
    · exact Meter.keeps_plain (by decide)
    · exact hr.keeps_recordPath hp
  simp [hr.keeps_text hq, record, parentRecord, Meter.keeps_of_lacks hc.literal, done]

include hr hc in
theorem itemProgram_keeps : Keeps m True True (itemProgram r ctx) := by
  have items : Keeps m True True (r.visits .item) := visits_keep r .item trivial
  have blank : Keeps m True True [.line ""] := keeps_line fun _ => rfl
  unfold itemProgram
  split
  · exact items
  · exact items
  · exact items
  · exact items.append blank
  · exact items.append blank
  · exact keeps_nil
  · exact keeps_nil
  · exact keeps_nil
  · exact keeps_nil
  · exact namespaceProgram_keeps hr
  · exact forwardDeclarationProgram_keeps hr
  · exact typeSpecifierProgram_keeps hr
  · exact classProgram_keeps hr
  · exact dispatchTableProgram_keeps hr hc
  · exact fieldProgram_keeps hr hc
  · exact constructorProgram_keeps hr hc
  · exact methodProgram_keeps hr hc
  · exact mainProgram_keeps hr hc
  · exact classObjectProgram_keeps hr hc
  · split
    · exact statementProgram_keeps r
    · exact (inlineProgram_keeps hr hc).line

include hr hc in
/-- Every node leaves what is open and the depth as they were, and the line ended if it stands on
lines of its own. -/
theorem Row.program_keeps {pos : Position} (hp : pos.Lacks m.marks) :
    Keeps m pos.HasLines pos.HasLines (r.program ctx pos) := by
  cases pos with
  | item => exact itemProgram_keeps hr hc
  | inline => exact inlineProgram_keeps hr hc
  | braces => exact bracesProgram_keeps r
  | alternative => exact alternativeProgram_keeps r
  | loopHead => exact loopHeadProgram_keeps hr hc
  | declarator => exact declaratorProgram_keeps hr
  | declarators => exact commaVisits_keep r .declarator rfl trivial
  | definitions lead => exact definitionsProgram_keeps r hp
  | shifted => exact shiftedProgram_keeps hr hc
  | bounds => exact boundsProgram_keeps r

end Programs

end ClassLowering
