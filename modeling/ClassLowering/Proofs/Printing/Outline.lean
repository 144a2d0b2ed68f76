import ClassLowering.Proofs.Printing.Likeness
import ClassLowering.Proofs.Printing.Occasions

/-!
# What a header shows

A header declares members and does not define them: the body of a method and the initial value of a
field have no influence on it. The outline of a tree is what is left of it without them, and a tree
and its outline have the same header.

The rules go through some lists without a look at the kinds of the nodes that stand there. A method
or a declarator in the place of such a list is no member, and its slots are part of the outline.
-/

set_option autoImplicit false

namespace ClassLowering

def Slot.emptied {α : Type} : Slot α → Slot α
  | .node _ => .absent
  | s => s

namespace Row

variable {α : Type}

def emptyAt (r : Row α) (index : Nat) : Row α := ⟨r.label, r.slots.modify index Slot.emptied⟩

variable {r : Row α} {index j : Nat}

@[simp] theorem label_emptyAt : (r.emptyAt index).label = r.label := rfl

theorem slots_emptyAt_ne (h : j ≠ index) : (r.emptyAt index).slots[j]? = r.slots[j]? :=
  List.getElem?_modify_ne _ _ h.symm

theorem slots_emptyAt_self :
    (r.emptyAt index).slots[index]? = r.slots[index]?.map Slot.emptied := by
  simp [emptyAt]

theorem text_emptyAt (h : j ≠ index) (what : String) :
    (r.emptyAt index).text j what = r.text j what := by
  simp [text, slot, slots_emptyAt_ne h]

theorem child?_emptyAt (h : j ≠ index) (what : String) :
    (r.emptyAt index).child? j what = r.child? j what := by
  simp [child?, slot, slots_emptyAt_ne h]

theorem child_emptyAt (h : j ≠ index) (what : String) :
    (r.emptyAt index).child j what = r.child j what := by
  simp [child, child?_emptyAt h]

end Row

open Script

theorem reading_child?_emptyAt (r : Row Tree) (index : Nat) (what : String) (rest : Script) :
    reading ((r.emptyAt index).child? index what) (fun _ => rest) =
      reading (r.child? index what) fun _ => rest := by
  rcases h : r.slots[index]? with _ | _ | _ | c <;>
    simp [Row.child?, Row.slot, Row.slots_emptyAt_self, h, Slot.emptied, reading]

theorem methodScript_emptyAt {r : Row Tree} {ctx : Context} (header : ctx.artifact = .header) :
    methodScript (r.emptyAt 7) ctx = methodScript r ctx := by
  have steps : ∀ result name parameters, (r.emptyAt 7).methodSteps ctx result name parameters =
      r.methodSteps ctx result name parameters := by
    intro result name parameters
    unfold Row.methodSteps
    rw [header, Row.child?_emptyAt (show 0 ≠ 7 by decide)]
    exact reading_child?_emptyAt r 7 _ _
  unfold methodScript
  rw [Row.child_emptyAt (by decide), Row.text_emptyAt (by decide), Row.child_emptyAt (by decide)]
  simp only [steps]

theorem declaratorScript_emptyAt (r : Row Tree) :
    declaratorScript (r.emptyAt 7) = declaratorScript r := by
  rw [declaratorScript, Row.text_emptyAt (by decide), Row.child?_emptyAt (by decide),
    declaratorScript]

namespace Trail

def isInBody (trail : Trail) : Bool := trail[0]?.map Prod.fst = some .classBody

def isInNames (trail : Trail) : Bool :=
  trail[1]? = some (.fieldDeclaration, 2) && trail[2]?.map Prod.fst = some .classBody

def holdsDefinition (trail : Trail) (k : Kind) (index : Nat) : Bool :=
  k = .methodDeclaration && index = 7 && trail.isInBody ||
    k = .declarator && index = 2 && trail.isInNames

/-- A node in the place of a list that is gone through: the declared names of a loop, the parameter
types of a dispatch table entry, or the bounds of an array. -/
def isGoneThrough (trail : Trail) (k : Kind) : Bool :=
  k = .methodDeclaration && trail[0]?.map Prod.snd = some 2 &&
      (trail[1]? = some (.forStatement, 0) || trail[2]? = some (.vtableDeclaration, 1)) ||
    k = .declarator && trail[0]? = some (.newArrayExpression, 1)

def hidesDefinition (trail : Trail) (k : Kind) (index : Nat) : Bool :=
  trail.holdsDefinition k index && !trail.isGoneThrough k

variable {trail : Trail} {k : Kind} {index : Nat}

theorem hidesDefinition_cases (h : trail.hidesDefinition k index = true) :
    (k = .methodDeclaration ∧ index = 7 ∧ trail.isInBody = true ∧
      ¬(trail[0]? = some (.classBody, 2) ∧ trail[1]? = some (.forStatement, 0))) ∨
    (k = .declarator ∧ index = 2 ∧ trail.isInNames = true ∧
      trail[0]? ≠ some (.newArrayExpression, 1)) := by
  simp only [hidesDefinition, holdsDefinition, Bool.and_eq_true, Bool.or_eq_true,
    decide_eq_true_eq] at h
  obtain ⟨⟨⟨rfl, rfl⟩, inBody⟩ | ⟨⟨rfl, rfl⟩, inNames⟩, other⟩ := h
  · refine .inl ⟨rfl, rfl, inBody, ?_⟩
    rintro ⟨here, loop⟩
    simp [isGoneThrough, here, loop] at other
  · refine .inr ⟨rfl, rfl, inNames, ?_⟩
    intro here
    simp [isGoneThrough, here] at other

theorem hidesDefinition_method (h : trail.hidesDefinition .methodDeclaration index = true) :
    index = 7 ∧ trail.isInBody = true ∧
      ¬(trail[0]? = some (.classBody, 2) ∧ trail[1]? = some (.forStatement, 0)) := by
  simpa using hidesDefinition_cases h

theorem hidesDefinition_declarator (h : trail.hidesDefinition .declarator index = true) :
    index = 2 ∧ trail.isInNames = true ∧ trail[0]? ≠ some (.newArrayExpression, 1) := by
  simpa using hidesDefinition_cases h

end Trail

namespace Tree

/-- The tree without the nodes in hidden slots. A slot is hidden by the nodes around, the kind of
the node and the number of the slot. -/
def outline (hides : Trail → Kind → Nat → Bool) : Tree → Trail → Tree :=
  fold fun r trail => .ofRow ⟨r.label, r.slots.mapIdx fun index s =>
    if hides trail r.kind index then (s.map Prod.fst).emptied
    else s.map fun p => p.2 ((r.kind, index) :: trail)⟩

section Outline

variable (hides : Trail → Kind → Nat → Bool) (t : Tree) (trail : Trail)

@[simp] theorem label_outline : (t.outline hides trail).label = t.label := by
  rw [outline, fold_eq]
  rfl

@[simp] theorem kind_outline : (t.outline hides trail).kind = t.kind :=
  congrArg Kind.ofLabel (label_outline hides t trail)

theorem slots_outline (index : Nat) : (t.outline hides trail).slots[index]? =
    t.slots[index]?.map fun s => if hides trail t.kind index then s.emptied
      else s.map fun c => c.outline hides ((t.kind, index) :: trail) := by
  have slot : (t.outline hides trail).slots[index]? = ((t.row.map fun c =>
      (c, c.outline hides)).slots[index]?).map fun s =>
        if hides trail t.kind index then (s.map Prod.fst).emptied
        else s.map fun p => p.2 ((t.kind, index) :: trail) := by
    rw [outline, fold_eq, ← outline]
    exact List.getElem?_mapIdx
  rw [slot, Row.slots_map]
  rcases h : t.row.slots[index]? with _ | _ | _ | c <;> simp [slots, h, Slot.map]

theorem length_outline : (t.outline hides trail).slots.length = t.slots.length := by
  rw [outline, fold_eq]
  simp [slots, ofRow, Row.map]

variable {hides t trail}

theorem row_outline (shown : ∀ index, hides trail t.kind index = false) :
    (t.outline hides trail).row =
      t.row.mapSlots fun index c => c.outline hides ((t.kind, index) :: trail) := by
  refine Row.ext_slots (label_outline hides t trail) fun index => ?_
  refine (slots_outline hides t trail index).trans ?_
  rw [Row.slots_mapSlots]
  simp [shown, slots]

theorem row_outline_emptyAt {hidden : Nat} (here : hides trail t.kind hidden = true)
    (only : ∀ index, hides trail t.kind index = true → index = hidden) :
    (t.outline hides trail).row =
      (t.row.mapSlots fun index c => c.outline hides ((t.kind, index) :: trail)).emptyAt
        hidden := by
  refine Row.ext_slots (label_outline hides t trail) fun index => ?_
  refine (slots_outline hides t trail index).trans ?_
  by_cases hi : index = hidden
  · subst hi
    rw [Row.slots_emptyAt_self, Row.slots_mapSlots]
    rcases h : t.row.slots[index]? with _ | _ | _ | c <;>
      simp [slots, h, here, Slot.map, Slot.emptied]
  · have shown : hides trail t.kind index = false := by
      simpa using mt (only index) hi
    rw [Row.slots_emptyAt_ne hi, Row.slots_mapSlots]
    simp [shown, slots]

end Outline

/-! ## Reading an outline -/

section Reading

variable {hides : Trail → Kind → Nat → Bool} {t : Tree} {trail : Trail} {index : Nat}

theorem text_outline (shown : hides trail t.kind index = false) (what : String) :
    (t.outline hides trail).row.text index what = t.row.text index what := by
  have label : (t.outline hides trail).row.label = t.row.label := label_outline hides t trail
  have slot : (t.outline hides trail).row.slots[index]? = _ := slots_outline hides t trail index
  rcases h : t.slots[index]? with _ | _ | _ | c <;>
    simp_all [Row.text, Row.slot, slots, Slot.map]

theorem child_outline_error {what : String} {e : Fault}
    (missing : t.row.child index what = .error e) :
    (t.outline hides trail).row.child index what = .error e := by
  have label : (t.outline hides trail).row.label = t.row.label := label_outline hides t trail
  have slot : (t.outline hides trail).row.slots[index]? = _ := slots_outline hides t trail index
  rcases h : t.slots[index]? with _ | _ | _ | c <;>
    simp_all [Row.child, Row.child?, Row.slot, slots, Slot.map, Slot.emptied]

theorem bind_child_outline {β : Type} {g : Tree → Except Fault β}
    (shown : hides trail t.kind index = false)
    (same : ∀ c, t.slots[index]? = some (.node c) →
      g (c.outline hides ((t.kind, index) :: trail)) = g c) (what : String) :
    ((t.outline hides trail).row.child index what >>= g) = (t.row.child index what >>= g) := by
  have label : (t.outline hides trail).row.label = t.row.label := label_outline hides t trail
  have slot : (t.outline hides trail).row.slots[index]? = _ := slots_outline hides t trail index
  rcases h : t.slots[index]? with _ | _ | _ | c <;>
    simp_all [Row.child, Row.child?, Row.slot, slots, Slot.map]

theorem map_children_outline (shown : ∀ index, hides trail t.kind index = false) {β : Type}
    {g : Tree → β} (same : ∀ index c, t.slots[index]? = some (.node c) →
      g (c.outline hides ((t.kind, index) :: trail)) = g c) :
    (t.outline hides trail).children.map g = t.children.map g := by
  rw [children, row_outline shown, ← Row.children_map, Row.map_mapSlots_congr same,
    Row.children_map, children]

theorem mapM_children_outline (shown : ∀ index, hides trail t.kind index = false) {β : Type}
    {g : Tree → Except Fault β} (same : ∀ index c, t.slots[index]? = some (.node c) →
      g (c.outline hides ((t.kind, index) :: trail)) = g c) :
    (t.outline hides trail).children.mapM g = t.children.mapM g := by
  have all := congrArg (List.mapM id) (map_children_outline shown same)
  simpa [List.mapM_map, Function.comp_def] using all

theorem typeText_of_member (hk : t.kind = .methodDeclaration ∨ t.kind = .declarator)
    (runtime : RuntimeSettings) :
    t.typeText runtime = .error (.unexpectedKind "a type" t.label) := by
  rw [typeText, fold_eq, typeRule, Row.kind_map]
  rcases hk with hk | hk <;> rw [show t.row.kind = _ from hk] <;> rfl

theorem recordText_of_member (hk : t.kind = .methodDeclaration ∨ t.kind = .declarator) :
    t.recordText = .error (.unexpectedKind "a class reference" t.label) := by
  rw [recordText, fold_eq, recordRule, Row.kind_map]
  rcases hk with hk | hk <;> rw [show t.row.kind = _ from hk] <;> rfl

theorem looksLike_outline (t : Tree) (trail : Trail) :
    (t.outline Trail.hidesDefinition trail).LooksLike t := by
  induction t using Tree.induction generalizing trail with
  | step t ih =>
    have label := label_outline Trail.hidesDefinition t trail
    have count := length_outline Trail.hidesDefinition t trail
    by_cases shown : ∀ index, trail.hidesDefinition t.kind index = false
    · have alike : ∀ (index : Nat) (c : Tree), t.row.slots[index]? = some (.node c) →
          (c.outline Trail.hidesDefinition ((t.kind, index) :: trail)).LooksLike c :=
        fun index c hc => ih index c hc _
      have row := row_outline shown
      refine ⟨label, count, fun runtime => ?_, ?_⟩
      · rw [← ofRow_row (t.outline _ trail), row, typeText_mapSlots alike, ofRow_row]
      · rw [← ofRow_row (t.outline _ trail), row, recordText_mapSlots alike, ofRow_row]
    · obtain ⟨index, hidden⟩ : ∃ index, trail.hidesDefinition t.kind index = true := by
        simpa using shown
      have member : t.kind = .methodDeclaration ∨ t.kind = .declarator :=
        (Trail.hidesDefinition_cases hidden).imp And.left And.left
      have member' : (t.outline Trail.hidesDefinition trail).kind = .methodDeclaration ∨
          (t.outline Trail.hidesDefinition trail).kind = .declarator := by
        rwa [kind_outline]
      refine ⟨label, count, fun runtime => ?_, ?_⟩
      · rw [typeText_of_member member, typeText_of_member member', label]
      · rw [recordText_of_member member, recordText_of_member member', label]

theorem shown_of_ne {k : Kind} {index : Nat} (two : index ≠ 2) (seven : index ≠ 7)
    (trail : Trail) : trail.hidesDefinition k index = false := by
  simp [Trail.hidesDefinition, Trail.holdsDefinition, two, seven]

theorem parameterText_outline (d : Tree) (trail : Trail) (runtime : RuntimeSettings) :
    parameterText runtime (d.outline Trail.hidesDefinition trail).row =
      parameterText runtime d.row := by
  unfold parameterText
  rw [text_outline (shown_of_ne (by decide) (by decide) trail)]
  refine bind_child_outline (shown_of_ne (by decide) (by decide) trail) (fun c _ => ?_) _
  rw [(looksLike_outline c _).typeText]

theorem initializationText_outline (d : Tree) (trail : Trail) :
    initializationText (d.outline Trail.hidesDefinition trail).row = initializationText d.row := by
  unfold initializationText
  rw [text_outline (shown_of_ne (by decide) (by decide) trail),
    text_outline (shown_of_ne (by decide) (by decide) trail)]

theorem word?_outline (d : Tree) {trail : Trail} {index : Nat}
    (shown : trail.hidesDefinition d.kind index = false) :
    (d.outline Trail.hidesDefinition trail).word? index = d.word? index := by
  rw [word?, slots_outline, shown, word?]
  rcases d.slots[index]? with _ | _ | _ | c <;> rfl

theorem listsLike_outline (shown : ∀ index, trail.hidesDefinition t.kind index = false) :
    (t.outline Trail.hidesDefinition trail).ListsLike t where
  hasStatic := by
    have words : (t.outline Trail.hidesDefinition trail).children.map (·.word? 0) =
        t.children.map (·.word? 0) :=
      map_children_outline shown fun _ d _ =>
        word?_outline d (shown_of_ne (by decide) (by decide) _)
    have all := congrArg (List.any · (· = some "static")) words
    simpa [hasStatic, List.any_map, Function.comp_def, word?] using all
  names := mapM_children_outline shown fun _ _ _ =>
    text_outline (shown_of_ne (by decide) (by decide) _) _
  parameters runtime := by
    rw [parametersText, mapM_children_outline shown fun _ d _ => parameterText_outline d _ runtime,
      parametersText]
  initializations := by
    rw [initializationsText,
      mapM_children_outline shown fun _ d _ => initializationText_outline d _, initializationsText]

theorem entriesLike_outline (shown : ∀ index, trail.hidesDefinition t.kind index = false)
    (table : trail[0]? = some (.vtableDeclaration, 1)) :
    (t.outline Trail.hidesDefinition trail).EntriesLike t := by
  intro runtime className
  refine mapM_children_outline shown fun j e _ => ?_
  have second : Trail.hidesDefinition ((t.kind, j) :: trail) e.kind 2 = false := by
    simp [Trail.hidesDefinition, Trail.holdsDefinition, Trail.isInNames, table]
  have types : ∀ c : Tree,
      (c.outline Trail.hidesDefinition ((e.kind, 2) :: (t.kind, j) :: trail)).children.mapM
        (typeText runtime) = c.children.mapM (typeText runtime) := by
    intro c
    refine mapM_children_outline (fun index => ?_) fun _ d _ =>
      (looksLike_outline d _).typeText runtime
    -- A method there is gone through, and a declarator there is not among the names of a field.
    simp +contextual [Trail.hidesDefinition, Trail.holdsDefinition, Trail.isInNames,
      Trail.isGoneThrough, table]
  unfold slotText
  rw [text_outline (shown_of_ne (by decide) (by decide) _),
    text_outline (shown_of_ne (by decide) (by decide) _)]
  refine (bind_child_outline (shown_of_ne (by decide) (by decide) _) (fun c _ => ?_) _).trans ?_
  · rw [(looksLike_outline c _).typeText]
  · refine bind_congr fun type => bind_congr fun result => bind_congr fun name => ?_
    exact bind_child_outline second (fun c _ => by rw [types c]) _

end Reading

end Tree

/-! ## Where members are printed -/

/-- Where a node stands that is printed at a position of a header, as far as members go. -/
structure Fits (trail : Trail) (k : Kind) (pos : Position) : Prop where
  alternative : pos = .alternative → k = .conditionalStatement
  loopHead : pos = .loopHead → trail[0]? = some (.forStatement, 0)
  body : trail.isInBody = true → pos = .item ∨ pos = .inline ∨ pos = .declarator ∨
    pos = .declarators ∧ trail[0]? = some (.classBody, 2) ∧ trail[1]? = some (.forStatement, 0)
  field : trail[0]?.map Prod.fst = some .fieldDeclaration →
    trail[1]?.map Prod.fst = some .classBody → pos = .inline ∨ pos = .declarator
  names : trail.isInNames = true → pos = .item ∨ pos = .inline ∨ pos = .shifted ∨
    pos = .bounds ∧ trail[0]? = some (.newArrayExpression, 1)

namespace Fits

variable {trail : Trail} {r : Row Tree} {ctx : Context} {index : Nat} {pos pos' : Position}
  {shift : Shift} {c : Tree}

theorem body_step (fits : Fits trail r.kind pos) (inBody : r.kind = .classBody)
    (occasion : Occasion r ctx pos index c pos' shift) :
    pos' = .item ∨ pos' = .inline ∨ pos' = .declarator ∨
      pos' = .declarators ∧ index = 2 ∧ trail[0]? = some (.forStatement, 0) := by
  have alternative := fits.alternative
  have loopHead := fits.loopHead
  cases occasion <;> simp_all [Kind.hasOperands, Kind.hasBranches_eq_true]

theorem field_step (fits : Fits trail r.kind pos) (header : ctx.artifact = .header)
    (member : ctx.isMember = true) (inField : r.kind = .fieldDeclaration)
    (inBody : trail.isInBody = true) (occasion : Occasion r ctx pos index c pos' shift) :
    pos' = .inline ∨ pos' = .declarator := by
  rcases fits.body inBody with rfl | rfl | rfl | ⟨rfl, -, -⟩ <;> cases occasion <;>
    simp_all [Kind.hasOperands, Kind.hasExpression, Kind.hasItems, Kind.hasNestedItems,
      Kind.hasBranches]

theorem names_step (fits : Fits trail r.kind pos)
    (inNames : trail[0]? = some (.fieldDeclaration, 2))
    (inBody : trail[1]?.map Prod.fst = some .classBody)
    (occasion : Occasion r ctx pos index c pos' shift) :
    pos' = .item ∨ pos' = .inline ∨ pos' = .shifted ∨
      pos' = .bounds ∧ r.kind = .newArrayExpression ∧ index = 1 := by
  rcases fits.field (by simp [inNames]) inBody with rfl | rfl <;> cases occasion <;>
    simp_all [Kind.hasBranches]

theorem step (fits : Fits trail r.kind pos) (header : ctx.artifact = .header)
    (outer : ctx.outer = trail.map Prod.fst) (occasion : Occasion r ctx pos index c pos' shift) :
    Fits ((r.kind, index) :: trail) c.kind pos' where
  alternative := by
    rintro rfl
    cases occasion with
    | alternative _ conditional => exact conditional
  loopHead := by
    rintro rfl
    cases occasion with
    | loopHead loop => simp [loop]
  body inBody := by
    have kind : r.kind = .classBody := by simpa [Trail.isInBody] using inBody
    simpa [kind] using fits.body_step kind occasion
  field inField inBody := by
    have member : ctx.isMember = true := by
      rw [Context.isMember, outer, List.getElem?_map]
      simpa using inBody
    exact fits.field_step header member (by simpa using inField)
      (by simpa [Trail.isInBody] using inBody) occasion
  names inNames := by
    obtain ⟨field, inBody⟩ : trail[0]? = some (.fieldDeclaration, 2) ∧
        trail[1]?.map Prod.fst = some .classBody := by
      simpa [Trail.isInNames] using inNames
    simpa using fits.names_step field inBody occasion

theorem shown (fits : Fits trail r.kind pos) (header : ctx.artifact = .header)
    (occasion : Occasion r ctx pos index c pos' shift) :
    trail.hidesDefinition r.kind index = false := by
  refine Bool.eq_false_iff.mpr fun hidden => ?_
  rcases Trail.hidesDefinition_cases hidden with
    ⟨method, rfl, inBody, other⟩ | ⟨name, rfl, inNames, other⟩
  · rcases fits.body inBody with rfl | rfl | rfl | ⟨-, here, loop⟩
    case inr.inr.inr => exact other ⟨here, loop⟩
    all_goals
      cases occasion <;> simp_all [Kind.hasOperands, Kind.hasItems, Kind.hasNestedItems]
  · rcases fits.names inNames with rfl | rfl | rfl | ⟨-, here⟩
    case inr.inr.inr => exact other here
    all_goals
      cases occasion <;>
        simp_all [Kind.hasOperands, Kind.hasItems, Kind.hasNestedItems, Kind.hasBranches]

theorem shown_below {k k' : Kind} {j : Nat} (fits : Fits trail k .item) (other : k ≠ .classBody) :
    Trail.hidesDefinition ((k, index) :: trail) k' j = false := by
  refine Bool.eq_false_iff.mpr fun hidden => ?_
  rcases Trail.hidesDefinition_cases hidden with ⟨-, -, inBody, -⟩ | ⟨-, -, inNames, -⟩
  · simp [Trail.isInBody, other] at inBody
  · obtain ⟨field, inBody⟩ : trail[0]? = some (.fieldDeclaration, 2) ∧
        trail[1]?.map Prod.fst = some .classBody := by
      simpa [Trail.isInNames] using inNames
    rcases fits.field (by simp [field]) inBody with h | h <;> cases h

end Fits

/-! ## Printing an outline -/

theorem inlineScript_of_member {r : Row Tree} {ctx : Context}
    (hk : r.kind = .methodDeclaration ∨ r.kind = .declarator) :
    inlineScript r ctx = [.fail (.unexpectedKind "an expression" r.label)] := by
  rcases hk with hk | hk <;> simp [inlineScript, hk]

theorem itemScript_of_method {r : Row Tree} {ctx : Context} (hk : r.kind = .methodDeclaration) :
    itemScript r ctx = methodScript r ctx := by
  rw [itemScript, hk]

namespace Tree

variable {t : Tree} {trail : Trail} {pos : Position} {ctx : Context}

theorem script_outline_of_shown (fits : Fits trail t.kind pos)
    (shown : ∀ index, trail.hidesDefinition t.kind index = false) :
    (t.outline Trail.hidesDefinition trail).script ctx pos = t.script ctx pos := by
  rw [script, row_outline shown, script]
  refine script_mapSlots (fun _ c _ => looksLike_outline c _) ?_ ?_
  · rintro rfl reads index c -
    exact listsLike_outline fun j => fits.shown_below fun body => by
      rw [show t.row.kind = _ from body] at reads
      cases reads
  · rintro rfl table c -
    have kind : t.kind = .vtableDeclaration := table
    exact entriesLike_outline (fun j => fits.shown_below (by simp [kind])) (by simp [kind])

theorem script_outline_of_method (fits : Fits trail t.kind pos) (header : ctx.artifact = .header)
    (method : t.kind = .methodDeclaration) (hidden : trail.hidesDefinition t.kind 7 = true) :
    (t.outline Trail.hidesDefinition trail).script ctx pos = t.script ctx pos := by
  have kind : t.row.kind = .methodDeclaration := method
  have row := row_outline_emptyAt hidden fun index h =>
    (Trail.hidesDefinition_method (method ▸ h)).1
  obtain ⟨-, inBody, other⟩ := Trail.hidesDefinition_method (method ▸ hidden)
  rw [script, row, script]
  rcases fits.body inBody with rfl | rfl | rfl | ⟨-, here, loop⟩
  · have lists : ∀ (index : Nat) (c : Tree), t.row.slots[index]? = some (.node c) →
        (c.outline Trail.hidesDefinition ((t.kind, index) :: trail)).ListsLike c :=
      fun index c _ => listsLike_outline fun j => fits.shown_below (by simp [method])
    have mapped : methodScript (t.row.mapSlots fun index c =>
        c.outline Trail.hidesDefinition ((t.kind, index) :: trail)) ctx = methodScript t.row ctx :=
      methodScript_mapSlots (fun _ c _ => looksLike_outline c _) lists
    refine (itemScript_of_method ?_).trans ?_
    · exact kind
    · rw [methodScript_emptyAt header, mapped]
      exact (itemScript_of_method kind).symm
  · refine (inlineScript_of_member (.inl ?_)).trans (inlineScript_of_member (.inl kind)).symm
    exact kind
  · exact (declaratorScript_emptyAt _).trans declaratorScript_mapSlots
  · exact absurd ⟨here, loop⟩ other

theorem script_outline_of_declarator (fits : Fits trail t.kind pos) (name : t.kind = .declarator)
    (hidden : trail.hidesDefinition t.kind 2 = true) :
    (t.outline Trail.hidesDefinition trail).script ctx pos = t.script ctx pos := by
  obtain ⟨-, inNames, other⟩ := Trail.hidesDefinition_declarator (name ▸ hidden)
  have kind : t.row.kind = .declarator := name
  have kind' : (t.outline Trail.hidesDefinition trail).row.kind = .declarator :=
    (kind_outline Trail.hidesDefinition t trail).trans name
  have label : (t.outline Trail.hidesDefinition trail).row.label = t.row.label :=
    label_outline Trail.hidesDefinition t trail
  rcases fits.names inNames with rfl | rfl | rfl | ⟨-, here⟩
  · simp [script, Row.script, itemScript, kind, kind', Kind.isStatement, inlineScript_of_member,
      label]
  · simp [script, Row.script, kind, kind', inlineScript_of_member, label]
  · simp [script, Row.script, shiftedScript, kind, kind', inlineScript_of_member, label]
  · exact absurd here other

/-- The script of a node shows nothing that is hidden. -/
theorem script_outline (fits : Fits trail t.kind pos) (header : ctx.artifact = .header) :
    (t.outline Trail.hidesDefinition trail).script ctx pos = t.script ctx pos := by
  by_cases shown : ∀ index, trail.hidesDefinition t.kind index = false
  · exact script_outline_of_shown fits shown
  · obtain ⟨index, hidden⟩ : ∃ index, trail.hidesDefinition t.kind index = true := by
      simpa using shown
    rcases Trail.hidesDefinition_cases hidden with ⟨method, rfl, -⟩ | ⟨name, rfl, -⟩
    · exact script_outline_of_method fits header method hidden
    · exact script_outline_of_declarator fits name hidden

/-- A tree prints as its outline does. -/
theorem print_outline (t : Tree) {trail : Trail} {pos : Position} {ctx : Context}
    (fits : Fits trail t.kind pos) (header : ctx.artifact = .header)
    (outer : ctx.outer = trail.map Prod.fst) :
    (t.outline Trail.hidesDefinition trail).print pos ctx = t.print pos ctx := by
  induction t using Tree.induction generalizing trail pos ctx with
  | step t ih =>
    rw [print_eq_run, print_eq_run, script_outline fits header]
    apply Script.run_congr
    intro index what pos' shift printed
    cases read : t.row.child index what with
    | error e =>
      have missing : (t.outline Trail.hidesDefinition trail).row.child index what = .error e :=
        child_outline_error read
      simp [parts, read, missing]
    | ok c =>
      have hc : t.slots[index]? = some (.node c) := Row.child_eq_ok.mp read
      have occasion := occasion_of_mem hc printed
      have shown : trail.hidesDefinition t.kind index = false := fits.shown header occasion
      have hc' : (t.outline Trail.hidesDefinition trail).slots[index]? =
          some (.node (c.outline Trail.hidesDefinition ((t.kind, index) :: trail))) := by
        rw [slots_outline, hc, Option.map_some, shown]
        rfl
      rw [child_parts hc', child_parts hc, ok_bind, ok_bind, kind_parts, kind_parts, kind_outline]
      refine ih index c hc (fits.step header outer occasion) ?_ ?_
      · rw [Context.artifact_moved]
        exact header
      · rw [Context.outer_moved, Context.inside, outer, List.map_cons]

end Tree

/-- Two trees that differ in definitions of members only have the same header, or fail to have one
in the same way. -/
theorem header_eq_of_outline_eq (settings : Settings) {t₁ t₂ : Tree}
    (same : t₁.outline Trail.hidesDefinition [] = t₂.outline Trail.hidesDefinition []) :
    render settings .header t₁ = render settings .header t₂ := by
  have fits : ∀ k, Fits [] k .item := by
    intro k
    constructor <;> simp [Trail.isInBody, Trail.isInNames]
  have shown : ∀ t : Tree, render settings .header (t.outline Trail.hidesDefinition []) =
      render settings .header t := by
    intro t
    rw [render, t.print_outline (fits t.kind) rfl rfl, render]
  rw [← shown t₁, same, shown t₂]

namespace Samples

def membersWith (body value : Slot Tree) : Tree :=
  .node .classDeclaration [.absent, .text "A", .absent, .absent, .absent, .node (.group .classBody
    [.node .methodDeclaration [.absent, .absent, .node (.typeRef "int" 0), .text "f",
        .node (.group .formalParameters []), .absent, .absent, body],
      .group .fieldDeclaration [.modifiers ["static"], .typeRef "int" 0,
        .group .declarators [.node .declarator [.text "x", .absent, value]]]])]

def one : Tree := .leaf .integerLiteral "1"

theorem members_without_definitions :
    render {} .header (membersWith (.node (.group .block [])) (.node one)) = .ok
      (preamble .header {}
        ++ "struct __A \x7b\n    int32_t f();\n    static int32_t x;\n\x7d;\n\n") := by
  have same : render {} .header (membersWith (.node (.group .block [])) (.node one)) =
      render {} .header (membersWith .absent .absent) :=
    header_eq_of_outline_eq {} (by decide +kernel)
  rw [same]
  decide +kernel

def listOf (body : Slot Tree) : Tree :=
  .node .methodDeclaration [.absent, .absent, .absent, .text "f", .absent, .absent, .absent, body]

def loopOver (body : Slot Tree) : Tree :=
  .group .forStatement [.node .classBody [.absent, .node (.typeRef "int" 0), .node (listOf body),
    .absent, .absent], .group .block []]

def tableOver (body : Slot Tree) : Tree :=
  .node .vtableDeclaration [.text "A", .node (.group .vtableEntries [.node .classBody
    [.node (.typeRef "int" 0), .text "f", .node (listOf body), .text "A"]])]

def boundsOver (value : Slot Tree) : Tree :=
  .group .block [.node .fieldDeclaration [.absent, .node (.typeRef "int" 0),
    .node (.group .classBody [.node .fieldDeclaration [.text "x", .absent,
      .node (.group .newArrayExpression
        [.typeRef "int" 0, .node .declarator [.absent, .absent, value]])]])]]

abbrev ShowsDefinition (root : Slot Tree → Tree) (definition : Tree) (without shown : String) :
    Prop :=
  (root (.node definition)).outline Trail.holdsDefinition [] =
      (root .absent).outline Trail.holdsDefinition [] ∧
    render {} .header (root .absent) = .ok (preamble .header {} ++ without) ∧
    render {} .header (root (.node definition)) = .ok (preamble .header {} ++ shown) ∧
    without ≠ shown

/-- In the place of a list the slot of a definition is shown. -/
theorem definition_shown_in_list :
    ShowsDefinition loopOver (.declarator "x" none)
      "for (int32_t ;;) \x7b\x7d\n" "for (int32_t x;;) \x7b\x7d\n" ∧
    ShowsDefinition tableOver (.typeRef "int" 0)
      ("struct __A_VT \x7b\n    Class __is_a;\n    int32_t (*f)();\n\n    __A_VT()\n"
        ++ "    : __is_a(__A::__class()),\n      f(&__A::f)\n    \x7b\n    \x7d\n\x7d;\n\n")
      ("struct __A_VT \x7b\n    Class __is_a;\n    int32_t (*f)(int32_t);\n\n    __A_VT()\n"
        ++ "    : __is_a(__A::__class()),\n      f(&__A::f)\n    \x7b\n    \x7d\n\x7d;\n\n") ∧
    ShowsDefinition boundsOver one
      "\x7b\n    int32_t x = new __rt::__Array<__rt::__Array<__rt::__Array<int32_t>>>;\n\x7d\n"
      ("\x7b\n    int32_t x = new __rt::__Array<__rt::__Array<__rt::__Array<int32_t>>>(1);\n"
        ++ "\x7d\n") := by
  decide +kernel

end Samples

end ClassLowering
