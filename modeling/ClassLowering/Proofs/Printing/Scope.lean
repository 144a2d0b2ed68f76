import ClassLowering.Proofs.Layout.Dispatch
import ClassLowering.Proofs.Layout.Reading
import ClassLowering.Proofs.Printing.Occasions

/-!
# The class of a definition

The implementation defines members outside their class, so each definition names the class. The
context carries the name down from the class to its members.

The rules go through some lists without a look at the kind of the node that stands there. A class in
the place of such a list is not printed as a class, and the name around it stays.
-/

set_option autoImplicit false

namespace ClassLowering

open Text (concat)

namespace Tree

def enclosing (t : Tree) : Path → List (Tree × Nat)
  | [] => []
  | i :: rest =>
    match t.slots[i]? with
    | some (.node c) => c.enclosing rest ++ [(t, i)]
    | _ => []

theorem enclosing_concat {root t c : Tree} {p : Path} {i : Nat} (ht : root.at? p = some t)
    (hc : t.slots[i]? = some (.node c)) :
    root.enclosing (p ++ [i]) = (t, i) :: root.enclosing p := by
  induction p generalizing root with
  | nil =>
    obtain rfl : root = t := Option.some.inj ht
    simp [enclosing, hc]
  | cons j rest ih =>
    rcases hj : root.slots[j]? with _ | _ | _ | s
    · simp [at?, hj] at ht
    · simp [at?, hj] at ht
    · simp [at?, hj] at ht
    · have below : s.at? rest = some t := by simpa [at?, hj] using ht
      simp [enclosing, hj, ih below]

end Tree

def trailOf (outer : List (Tree × Nat)) : Trail := outer.map fun o => (o.1.kind, o.2)

/-- A place where a rule goes through the slots of a node without a look at its kind: the declared
names of a declaration or of a loop, and the bounds of an array. A loop that itself stands for the
bounds of an array declares nothing. -/
def Trail.isList (trail : Trail) : Bool :=
  trail[0]? = some (.fieldDeclaration, 2) || trail[0]? = some (.newArrayExpression, 1) ||
    (trail[0]?.map Prod.snd = some 2 && trail[1]? = some (.forStatement, 0) &&
      trail[2]? ≠ some (.newArrayExpression, 1))

/-- The name of the innermost class around whose body leads inwards, where a class is passed over
if its own surroundings are `skipped`. -/
def classAround (skipped : Trail → Bool) : List (Tree × Nat) → Option String
  | [] => none
  | (t, i) :: outer =>
    if t.is .classDeclaration && i = 5 && !skipped (trailOf outer) then t.word? 1
    else classAround skipped outer

/-- What a position says of where a node of kind `k` stands that is printed there. -/
def Position.Suits (trail : Trail) (k : Kind) : Position → Prop
  | .item => trail.isList = false
  | .braces => k = .block
  | .alternative => k = .conditionalStatement
  | .loopHead => trail[0]? = some (.forStatement, 0)
  | .declarators | .definitions _ => trail.isList = true
  | .bounds => trail[0]? = some (.newArrayExpression, 1)
  | .inline | .declarator | .shifted => True

/-- Where a node of kind `k` stands that is printed at a position of the implementation. -/
structure Stands (trail : Trail) (k : Kind) (pos : Position) : Prop where
  suits : pos.Suits trail k
  control : trail[0]? = some (.forStatement, 0) →
    pos = .loopHead ∧ trail[1]? ≠ some (.newArrayExpression, 1) ∨ pos = .declarator ∨
      pos = .inline ∧ trail[1]? = some (.newArrayExpression, 1)

namespace Stands

variable {trail : Trail} {r : Row Tree} {ctx : Context} {index : Nat} {pos pos' : Position}
  {shift : Shift} {c : Tree}

theorem control_step (stands : Stands trail r.kind pos) (loop : r.kind = .forStatement)
    (occasion : Occasion r ctx pos 0 c pos' shift) :
    pos' = .loopHead ∧ trail[0]? ≠ some (.newArrayExpression, 1) ∨ pos' = .declarator ∨
      pos' = .inline ∧ trail[0]? = some (.newArrayExpression, 1) := by
  have suits := stands.suits
  cases occasion <;>
    simp_all [Position.Suits, Kind.hasOperands, Kind.hasExpression, Kind.hasItems,
      Kind.hasNestedItems, Trail.isList]

theorem isList_cons (stands : Stands trail r.kind pos) (head : pos ≠ .loopHead)
    (name : pos ≠ .declarator) (field : r.kind ≠ .fieldDeclaration)
    (array : r.kind ≠ .newArrayExpression) : Trail.isList ((r.kind, index) :: trail) = false := by
  have control := stands.control
  simp_all [Trail.isList]

theorem suits_step (stands : Stands trail r.kind pos) (defines : ctx.artifact = .implementation)
    (bodies : r.kind = .methodDeclaration → index = 7 → c.kind = .block)
    (occasion : Occasion r ctx pos index c pos' shift) :
    pos'.Suits ((r.kind, index) :: trail) c.kind := by
  cases occasion
  case operand | expression | condition | clause | initializer | bound | declarator | definition
      | shifted => trivial
  case item items =>
    exact stands.isList_cons (by decide) (by decide) (by grind [Kind.hasItems])
      (by grind [Kind.hasItems])
  case nestedItem items =>
    exact stands.isList_cons (by decide) (by decide) (by grind [Kind.hasNestedItems])
      (by grind [Kind.hasNestedItems])
  case bracedItem =>
    have block : r.kind = .block := stands.suits
    exact stands.isList_cons (by decide) (by decide) (by simp [block]) (by simp [block])
  case statement block expression =>
    rw [Position.takesExpression_eq_true] at expression
    exact stands.isList_cons (by grind) (by grind) (by simp [block]) (by simp [block])
  case declaredMembers hk _ | definedMembers hk _ _ =>
    exact stands.isList_cons (by decide) (by decide) (by simp [hk]) (by simp [hk])
  case branch branches _ _ =>
    rcases Kind.hasBranches_eq_true.mp branches with ⟨rfl, kinds⟩ | rfl
    · exact stands.isList_cons (by decide) (by decide) (by grind) (by grind)
    · have conditional : r.kind = .conditionalStatement := stands.suits
      exact stands.isList_cons (by decide) (by decide) (by simp [conditional])
        (by simp [conditional])
  case bracedBranch block => exact block
  case alternative conditional => exact conditional
  case constructorBody header => simp [defines] at header
  case methodBody hk _ => exact bodies hk rfl
  case loopHead hk => simp [Position.Suits, hk]
  case declaredNames hk _ => simp [Position.Suits, Trail.isList, hk]
  case loopNames =>
    have head : trail[0]? = some (.forStatement, 0) := stands.suits
    have control := stands.control head
    simp_all [Position.Suits, Trail.isList]
  case definitions hk _ _ => simp [Position.Suits, Trail.isList, hk]
  case bounds hk _ => simp [Position.Suits, hk]

theorem step (stands : Stands trail r.kind pos) (defines : ctx.artifact = .implementation)
    (bodies : r.kind = .methodDeclaration → index = 7 → c.kind = .block)
    (occasion : Occasion r ctx pos index c pos' shift) :
    Stands ((r.kind, index) :: trail) c.kind pos' := by
  refine ⟨stands.suits_step defines bodies occasion, fun control => ?_⟩
  obtain ⟨loop, rfl⟩ : r.kind = .forStatement ∧ index = 0 := by simpa using control
  simpa using stands.control_step loop occasion

theorem class_item_iff (stands : Stands trail r.kind pos) (hk : r.kind = .classDeclaration)
    (occasion : Occasion r ctx pos 5 c pos' shift) : pos = .item ↔ trail.isList = false := by
  have suits := stands.suits
  cases occasion
  case bound =>
    have bounds : trail[0]? = some (.newArrayExpression, 1) := suits
    simp [Trail.isList, bounds]
  all_goals simp_all [Position.Suits, Kind.hasOperands, Kind.hasItems, Kind.hasNestedItems]

end Stands

namespace Occasion

variable {r : Row Tree} {ctx : Context} {index : Nat} {pos pos' : Position} {shift : Shift}
  {c : Tree}

theorem scope_eq (occasion : Occasion r ctx pos index c pos' shift)
    (other : ¬(r.kind = .classDeclaration ∧ index = 5 ∧ pos = .item)) :
    ((ctx.inside r.kind).moved shift).scope = ctx.scope := by
  cases occasion
  case definedMembers hk _ _ => exact absurd ⟨hk, rfl, rfl⟩ other
  all_goals rfl

theorem scope_of_class (occasion : Occasion r ctx .item 5 c pos' shift)
    (hk : r.kind = .classDeclaration) (defines : ctx.artifact = .implementation) :
    ((ctx.inside r.kind).moved shift).scope = (Tree.ofRow r).word? 1 := by
  cases occasion
  case definedMembers name _ _ hn =>
    have read : (Tree.ofRow r).word? 1 = some name := Tree.word?_eq_some.mpr (Row.text_eq_ok.mp hn)
    rw [read]
    rfl
  all_goals simp_all [Kind.hasOperands, Kind.hasItems, Kind.hasNestedItems, Kind.hasBranches]

end Occasion

/-! ## Along a run -/

def Tree.hasBlockBodies : Tree → Bool :=
  fold fun r => r.children.all Prod.snd &&
    decide (r.kind = .methodDeclaration → ((r.slots[7]?).bind Slot.node?).all (·.1.is .block))

namespace Tree

theorem hasBlockBodies_eq_true {t : Tree} : t.hasBlockBodies = true ↔
    (∀ c ∈ t.children, c.hasBlockBodies = true) ∧
      (t.kind = .methodDeclaration → ∀ c, t.subtree? 7 = some c → c.kind = .block) := by
  rw [hasBlockBodies, fold_eq, Row.children_map, Row.node?_map, ← hasBlockBodies,
    Bool.and_eq_true, decide_eq_true_iff]
  change _ ∧ (t.kind = _ → ((t.subtree? 7).map _).all _ = true) ↔ _
  cases t.subtree? 7 <;> simp [children, is]

end Tree

namespace Reaches

variable {root : Tree} {start ctx : Context} {before : String} {o : Occurrence} {pos : Position}

theorem stands (h : Reaches root start before o pos ctx)
    (defines : start.artifact = .implementation) (bodies : root.hasBlockBodies = true) :
    o.tree.hasBlockBodies = true ∧ Stands (trailOf (root.enclosing o.path)) o.tree.kind pos := by
  induction h with
  | root => exact ⟨bodies, rfl, by simp [Tree.enclosing, trailOf]⟩
  | nested reached steps _ hc ih =>
    obtain ⟨blocks, stands⟩ := ih
    obtain ⟨below, own⟩ := Tree.hasBlockBodies_eq_true.mp blocks
    have occasion := Tree.occasion steps hc
    refine ⟨below _ (Row.mem_children.mpr (List.mem_of_getElem? hc)), ?_⟩
    rw [Tree.enclosing_concat reached.isIn hc]
    refine stands.step (reached.artifact_eq.trans defines) (fun method hi => ?_) occasion
    subst hi
    exact own method _ (Tree.subtree?_eq_some.mpr hc)

/-- The context carries the name of the innermost class around. -/
theorem scope_eq (h : Reaches root start before o pos ctx)
    (defines : start.artifact = .implementation) (outermost : start.scope = none)
    (bodies : root.hasBlockBodies = true) :
    ctx.scope = classAround Trail.isList (root.enclosing o.path) := by
  induction h with
  | root => exact outermost
  | @nested _ _ _ o pos _ _ _ _ index _ _ reached steps _ hc ih =>
    have stands := (reached.stands defines bodies).2
    have occasion := Tree.occasion steps hc
    rw [Tree.enclosing_concat reached.isIn hc, classAround]
    by_cases member : o.tree.kind = .classDeclaration ∧ index = 5
    · obtain ⟨hk, rfl⟩ := member
      by_cases counted : pos = .item
      · subst counted
        have place := (stands.class_item_iff hk occasion).mp rfl
        have carried := occasion.scope_of_class hk (reached.artifact_eq.trans defines)
        rw [if_pos (by simp [Tree.is, hk, place])]
        exact carried
      · have place : Trail.isList (trailOf (root.enclosing o.path)) = true := by
          simpa using mt (stands.class_item_iff hk occasion).mpr counted
        have carried := occasion.scope_eq fun item => counted item.2.2
        rw [if_neg (by simp [place])]
        exact carried.trans ih
    · have carried := occasion.scope_eq fun item => member ⟨item.1, item.2.1⟩
      have outside : ¬(o.tree.is .classDeclaration = true ∧ index = 5) := by
        simpa [Tree.is] using member
      rw [if_neg (by simp_all)]
      exact carried.trans ih

theorem scope_eq_none (h : Reaches root start before o pos ctx) (outermost : start.scope = none)
    (outside : ∀ e ∈ root.enclosing o.path, e.1.kind ≠ .classDeclaration) : ctx.scope = none := by
  induction h with
  | root => exact outermost
  | nested reached steps _ hc ih =>
    rw [Tree.enclosing_concat reached.isIn hc, List.forall_mem_cons] at outside
    have carried := (Tree.occasion steps hc).scope_eq fun member => outside.1 member.1
    exact carried.trans (ih outside.2)

end Reaches

/-! ## Definitions of members -/

namespace Context

def methodDefinition (ctx : Context) (className result name parameters body : String) : String :=
  ctx.indentation ++ result ++ " " ++ Naming.recordPath className ++ "::" ++ name ++ parameters
    ++ " " ++ body ++ "\n\n"

def fieldDefinitions (ctx : Context) (className type : String) (names : List String) : String :=
  concat (names.map fun name =>
    ctx.indentation ++ (type ++ " " ++ Naming.recordPath className ++ "::") ++ name ++ ";\n")

end Context

def Fault.outsideClass : Fault :=
  .unexpectedKind "a member inside a class declaration" "member outside any class"

namespace Tree

/-- A method declaration whose result, name and parameters can be written. -/
structure HasSignature (runtime : RuntimeSettings) (t : Tree) (result name parameters : String) :
    Prop where
  result : ∃ type, t.subtree? 2 = some type ∧ type.typeText runtime = .ok result
  name : t.word? 3 = some name
  parameters : ∃ list, t.subtree? 4 = some list ∧ parametersText runtime list = .ok parameters

/-- A field declaration with modifiers among which is `static`, with a type that can be written and
with declarators. -/
structure IsStaticField (runtime : RuntimeSettings) (t : Tree) (type : String)
    (declarators : Tree) : Prop where
  modifiers : ∃ list, t.subtree? 0 = some list ∧ list.hasStatic = true
  type : ∃ tree, t.subtree? 1 = some tree ∧ tree.typeText runtime = .ok type
  declarators : t.subtree? 2 = some declarators

section Definitions

variable {t body : Tree} {ctx : Context} {text : String}

theorem print_eq_methodText (hk : t.kind = .methodDeclaration) :
    t.print .item ctx = methodText t.parts ctx := by
  rw [print_eq]
  change itemText t.parts ctx = _
  rw [itemText, kind_parts, hk]

theorem print_eq_memberFieldText (hk : t.kind = .fieldDeclaration) (member : ctx.isMember = true) :
    t.print .item ctx = memberFieldText t.parts ctx := by
  rw [print_eq]
  change itemText t.parts ctx = _
  simp [itemText, kind_parts, hk, fieldText, member]

theorem text_parts {t : Tree} {index : Nat} {what s : String} :
    t.parts.text index what = .ok s ↔ t.word? index = some s := by
  rw [parts, Row.text_map, Row.text_eq_ok, word?_eq_some, slots]

theorem child?_parts {t c : Tree} {index : Nat} (h : t.subtree? index = some c) (what : String) :
    t.parts.child? index what = .ok (some (c, c.print)) := by
  have slot := subtree?_eq_some.mp h
  have read : t.row.child? index what = .ok (some c) := by
    simp [Row.child?, Row.slot, show t.row.slots[index]? = _ from slot]
  simp [parts, read]

theorem print_method (hk : t.kind = .methodDeclaration) (defines : ctx.artifact = .implementation)
    {result name parameters : String}
    (signature : t.HasSignature ctx.runtime result name parameters)
    (hb : t.subtree? 7 = some body) : t.print .item ctx =
      match ctx.scope with
      | some className => do
        let inner ← body.print .braces (ctx.inside t.kind)
        return ctx.methodDefinition className result name parameters inner
      | none => .error .outsideClass := by
  obtain ⟨type, ht, hresult⟩ := signature.result
  obtain ⟨list, hl, hparameters⟩ := signature.parameters
  rw [print_eq_methodText hk, methodText, child_parts (subtree?_eq_some.mp ht),
    child_parts (subtree?_eq_some.mp hl), child?_parts hb, text_parts.mpr signature.name]
  cases hs : ctx.scope <;>
    simp [Part.tree, Part.print, hresult, hparameters, defines, scopePath, hs, Fault.outsideClass,
      Context.methodDefinition]

theorem exists_signature (hk : t.kind = .methodDeclaration)
    (printed : t.print .item ctx = .ok text) :
    ∃ result name parameters, t.HasSignature ctx.runtime result name parameters := by
  rw [print_eq_methodText hk, methodText] at printed
  obtain ⟨type, ht, printed⟩ := bind_eq_ok.mp printed
  obtain ⟨result, hresult, printed⟩ := bind_eq_ok.mp printed
  obtain ⟨name, hn, printed⟩ := bind_eq_ok.mp printed
  obtain ⟨list, hl, printed⟩ := bind_eq_ok.mp printed
  obtain ⟨parameters, hparameters, -⟩ := bind_eq_ok.mp printed
  obtain ⟨typeTree, slot, rfl⟩ := eq_of_child_parts ht
  obtain ⟨listTree, slot', rfl⟩ := eq_of_child_parts hl
  exact ⟨result, name, parameters, ⟨_, subtree?_eq_some.mpr slot, hresult⟩, text_parts.mp hn,
    _, subtree?_eq_some.mpr slot', hparameters⟩

theorem method_text (hk : t.kind = .methodDeclaration) (defines : ctx.artifact = .implementation)
    (hb : t.subtree? 7 = some body) (printed : t.print .item ctx = .ok text) :
    ∃ className result name parameters inner, ctx.scope = some className ∧
      t.HasSignature ctx.runtime result name parameters ∧
      body.print .braces (ctx.inside t.kind) = .ok inner ∧
      text = ctx.methodDefinition className result name parameters inner := by
  obtain ⟨result, name, parameters, signature⟩ := exists_signature hk printed
  rw [print_method hk defines signature hb] at printed
  cases hs : ctx.scope with
  | none => simp [hs] at printed
  | some className =>
    rw [hs] at printed
    obtain ⟨inner, hinner, same⟩ := bind_eq_ok.mp printed
    exact ⟨className, result, name, parameters, inner, rfl, signature, hinner,
      (pure_eq_ok.mp same).symm⟩

theorem print_staticField (hk : t.kind = .fieldDeclaration) (member : ctx.isMember = true)
    (defines : ctx.artifact = .implementation) {type : String} {declarators : Tree}
    (field : t.IsStaticField ctx.runtime type declarators) : t.print .item ctx =
      match ctx.scope with
      | some className => do
        let names ← declarators.parts.printChildren .declarator (ctx.inside t.kind)
        return ctx.fieldDefinitions className type names
      | none => .error .outsideClass := by
  obtain ⟨modifiers, hm, static⟩ := field.modifiers
  obtain ⟨tree, ht, hy⟩ := field.type
  rw [print_eq_memberFieldText hk member, memberFieldText, child?_parts hm,
    child_parts (subtree?_eq_some.mp ht), child_parts (subtree?_eq_some.mp field.declarators)]
  have list : ∀ lead, declarators.print (.definitions lead) (ctx.inside t.kind) =
      definitionsText declarators.parts (ctx.inside t.kind) lead := by
    intro lead
    rw [print_eq]
    rfl
  have indentation : (ctx.inside t.kind).indentation = ctx.indentation := rfl
  cases hs : ctx.scope <;>
    simp [Part.tree, Part.print, hy, static, defines, scopePath, hs, Fault.outsideClass, list,
      definitionsText, indentation, Context.fieldDefinitions]

theorem exists_staticField (hk : t.kind = .fieldDeclaration) (member : ctx.isMember = true)
    {modifiers : Tree} (hm : t.subtree? 0 = some modifiers) (static : modifiers.hasStatic = true)
    (printed : t.print .item ctx = .ok text) :
    ∃ type declarators, t.IsStaticField ctx.runtime type declarators := by
  rw [print_eq_memberFieldText hk member, memberFieldText] at printed
  obtain ⟨_, -, printed⟩ := bind_eq_ok.mp printed
  obtain ⟨tree, ht, printed⟩ := bind_eq_ok.mp printed
  obtain ⟨type, hy, printed⟩ := bind_eq_ok.mp printed
  obtain ⟨declarators, hd, -⟩ := bind_eq_ok.mp printed
  obtain ⟨typeTree, slot, rfl⟩ := eq_of_child_parts ht
  obtain ⟨listTree, slot', rfl⟩ := eq_of_child_parts hd
  exact ⟨type, listTree, ⟨modifiers, hm, static⟩, ⟨typeTree, subtree?_eq_some.mpr slot, hy⟩,
    subtree?_eq_some.mpr slot'⟩

theorem staticField_text (hk : t.kind = .fieldDeclaration) (member : ctx.isMember = true)
    (defines : ctx.artifact = .implementation) {modifiers : Tree}
    (hm : t.subtree? 0 = some modifiers) (static : modifiers.hasStatic = true)
    (printed : t.print .item ctx = .ok text) :
    ∃ className type declarators names, ctx.scope = some className ∧
      t.IsStaticField ctx.runtime type declarators ∧
      declarators.parts.printChildren .declarator (ctx.inside t.kind) = .ok names ∧
      text = ctx.fieldDefinitions className type names := by
  obtain ⟨type, declarators, field⟩ := exists_staticField hk member hm static printed
  rw [print_staticField hk member defines field] at printed
  cases hs : ctx.scope with
  | none => simp [hs] at printed
  | some className =>
    rw [hs] at printed
    obtain ⟨names, hnames, same⟩ := bind_eq_ok.mp printed
    exact ⟨className, type, declarators, names, rfl, field, hnames, (pure_eq_ok.mp same).symm⟩

end Definitions

end Tree

/-- In the implementation, where bodies are blocks, each method and each static field is defined
under the name of the innermost class whose body it is in. A class in the place of a list does not
count. A member that could be written but is in no class is a fault. -/
theorem definitions_in_innermost_class {settings : Settings} {root : Tree} {before : String}
    {o : Occurrence} {ctx : Context}
    (reached : Reaches root { artifact := .implementation, settings } before o .item ctx) :
    (∀ text, root.hasBlockBodies = true → render settings .implementation root = .ok text →
      (∀ body, o.tree.kind = .methodDeclaration → o.tree.subtree? 7 = some body →
        ∃ className result name parameters inner after,
          classAround Trail.isList (root.enclosing o.path) = some className ∧
          o.tree.HasSignature settings.runtime result name parameters ∧
          body.print .braces (ctx.inside .methodDeclaration) = .ok inner ∧
          text = preamble .implementation settings ++ before
            ++ ctx.methodDefinition className result name parameters inner ++ after) ∧
      (∀ modifiers, o.tree.kind = .fieldDeclaration →
        ((ParentTable.build root).surroundings o.path).inClassBody = true →
        o.tree.subtree? 0 = some modifiers → modifiers.hasStatic = true →
        ∃ className type declarators names after,
          classAround Trail.isList (root.enclosing o.path) = some className ∧
          o.tree.IsStaticField settings.runtime type declarators ∧
          declarators.parts.printChildren .declarator (ctx.inside .fieldDeclaration) = .ok names ∧
          text = preamble .implementation settings ++ before
            ++ ctx.fieldDefinitions className type names ++ after)) ∧
    ((∀ e ∈ root.enclosing o.path, e.1.kind ≠ .classDeclaration) →
      (o.tree.kind = .methodDeclaration ∧ (∃ body, o.tree.subtree? 7 = some body) ∧
        ∃ result name parameters, o.tree.HasSignature settings.runtime result name parameters) ∨
      (o.tree.kind = .fieldDeclaration ∧
        ((ParentTable.build root).surroundings o.path).inClassBody = true ∧
        ∃ type declarators, o.tree.IsStaticField settings.runtime type declarators) →
      o.tree.print .item ctx = .error .outsideClass ∧
        render settings .implementation root = .error .outsideClass) := by
  have defines : ctx.artifact = .implementation := reached.artifact_eq
  have runtime : ctx.runtime = settings.runtime := congrArg Settings.runtime reached.settings_eq
  have member : ((ParentTable.build root).surroundings o.path).inClassBody = ctx.isMember := by
    rw [reached.surroundings_eq rfl]
    rfl
  rw [member, ← runtime]
  refine ⟨fun text bodies rendered => ?_, fun outside head => ?_⟩
  · obtain ⟨whole, printed, rfl⟩ := render_eq_ok.mp rendered
    obtain ⟨own, after, hown, rfl⟩ := reached.text_eq printed
    rw [← reached.scope_eq rfl rfl bodies]
    constructor
    · intro body hk hb
      obtain ⟨className, result, name, parameters, inner, hs, signature, hinner, rfl⟩ :=
        Tree.method_text hk defines hb hown
      exact ⟨className, result, name, parameters, inner, after, hs, signature, hk ▸ hinner,
        by simp only [String.append_assoc]⟩
    · intro modifiers hk inBody hm static
      obtain ⟨className, type, declarators, names, hs, field, hnames, rfl⟩ :=
        Tree.staticField_text hk inBody defines hm static hown
      exact ⟨className, type, declarators, names, after, hs, field, hk ▸ hnames,
        by simp only [String.append_assoc]⟩
  · have scope := reached.scope_eq_none rfl outside
    have failed : o.tree.print .item ctx = .error .outsideClass := by
      rcases head with ⟨hk, ⟨body, hb⟩, result, name, parameters, signature⟩
        | ⟨hk, inBody, type, declarators, field⟩
      · rw [Tree.print_method hk defines signature hb, scope]
      · rw [Tree.print_staticField hk inBody defines field, scope]
    refine ⟨failed, ?_⟩
    rw [render, reached.error_eq failed, error_bind]

namespace Samples

open Shapes (int)

def emptyMethod (name : String) : Tree :=
  .node .methodDeclaration [.absent, .absent, .node int, .text name,
    .node (.group .formalParameters []), .absent, .absent, .node (.group .block [])]

def classWith (name : String) (body : Tree) : Tree :=
  .node .classDeclaration [.absent, .text name, .absent, .absent, .absent, .node body]

def outerAfterInner : Tree :=
  classWith "Outer" (.group .classBody
    [classWith "Inner" (.group .classBody [emptyMethod "g"]), emptyMethod "f"])

theorem method_after_inner_class :
    (∃ result name parameters inner after, render {} .implementation outerAfterInner = .ok
      (preamble .implementation {} ++ "int32_t __Inner::g() \x7b\x7d\n\n"
        ++ Context.methodDefinition { artifact := .implementation, settings := {} } "Outer"
          result name parameters inner ++ after)) ∧
    render {} .implementation (.group .classBody [emptyMethod "f"]) = .error .outsideClass := by
  constructor
  · have members : outerAfterInner.script { artifact := .implementation, settings := {} } .item =
        [] ++ .print 5 "class body" .item (.defining "Outer") :: [] := rfl
    have second : (Tree.group .classBody
          [classWith "Inner" (.group .classBody [emptyMethod "g"]), emptyMethod "f"]).script
        { artifact := .implementation, settings := {}, scope := some "Outer",
          outer := [.classDeclaration] } .item =
        [.print 0 "" .item .level] ++ .print 1 "" .item .level :: [] := rfl
    have reached := Reaches.nested (.nested .root members rfl rfl) second rfl rfl
    obtain ⟨className, result, name, parameters, inner, after, named, -, -, text⟩ :=
      ((definitions_in_innermost_class reached).1 _ (by decide +kernel) rfl).1
        (.group .block []) rfl rfl
    obtain rfl : "Outer" = className := Option.some.inj named
    exact ⟨result, name, parameters, inner, after, congrArg Except.ok text⟩
  · have first : (Tree.group .classBody [emptyMethod "f"]).script
        { artifact := .implementation, settings := {} } .item =
        [] ++ .print 0 "" .item .level :: [] := rfl
    have reached := Reaches.nested .root first rfl rfl
    have signature : (emptyMethod "f").HasSignature ({} : Settings).runtime "int32_t" "f" "()" :=
      ⟨⟨int, rfl, rfl⟩, rfl, _, rfl, rfl⟩
    have outside : ∀ e ∈ (Tree.group .classBody [emptyMethod "f"]).enclosing [0],
        e.1.kind ≠ .classDeclaration := by decide +kernel
    exact ((definitions_in_innermost_class reached).2 outside
      (.inl ⟨rfl, ⟨_, rfl⟩, _, _, _, signature⟩)).2

def definingBlock : Tree := .group .statementBlock [emptyMethod "f"]

def outerWith (item : Tree) : Tree := classWith "Outer" (.group .classBody [item])

def classAsBounds : Tree :=
  outerWith (.group .expressionStatement
    [.group .newArrayExpression [int, classWith "Inner" definingBlock]])

def classAsNames : Tree := classWith "Inner" (.declarator "x" (some definingBlock))

def fieldWithClass : Tree :=
  outerWith (.group .fieldDeclaration [.modifiers ["static"], int, classAsNames])

def loopWithClass : Tree :=
  outerWith (.group .forStatement [.node .basicForControl [.absent, .node int, .node classAsNames,
    .absent, .absent], .group .block []])

abbrev InnerPrintsAs (root : Tree) (path : Path) (text : String) : Prop :=
  root.hasBlockBodies = true ∧ root.at? path = some (emptyMethod "f") ∧
    classAround (fun _ => false) (root.enclosing path) = some "Inner" ∧
    render {} .implementation root = .ok (preamble .implementation {} ++ text)

/-- In the place of a list the method of `Inner` is defined for `Outer`. -/
theorem inner_name_not_taken :
    InnerPrintsAs classAsBounds [5, 0, 0, 1, 5, 0] ("new " ++ Text.replicate 6 "__rt::__Array<"
      ++ "int32_t>>>>>>((\x7b\n    int32_t __Outer::f() \x7b\x7d\n\n\x7d));\n") ∧
    InnerPrintsAs fieldWithClass [5, 0, 2, 5, 2, 0]
      "int32_t __Outer::x = (\x7b\n    int32_t __Outer::f() \x7b\x7d\n\n\x7d);\n" ∧
    InnerPrintsAs loopWithClass [5, 0, 0, 2, 5, 2, 0]
      "for (int32_t x = (\x7b\n    int32_t __Outer::f() \x7b\x7d\n\n\x7d);;) \x7b\x7d\n" := by
  decide +kernel

end Samples

end ClassLowering
