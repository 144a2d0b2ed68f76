import ClassLowering.Proofs.Printing.Header

/-!
# What the header says of a class

The header declares the record of a class and its dispatch table, each line by line. These lines are
written out here for a class with any name, with the texts of the types where they have one, and
each declaration is shown to print them, if it prints anything.
-/

set_option autoImplicit false

namespace ClassLowering

open Text (joinWith concat)

/-! ## Results that are known in advance -/

/-- `a` is the only result that `x` can have. -/
def Yields {α : Type} (x : Except Fault α) (a : α) : Prop := ∀ b, x = .ok b → b = a

namespace Yields

variable {α β : Type}

theorem ok (a : α) : Yields (.ok a) a := by
  intro b h
  exact (Except.ok.inj h).symm

theorem bind {x : Except Fault α} {f : α → Except Fault β} {a : α} {b : β} (hx : Yields x a)
    (hf : Yields (f a) b) : Yields (x >>= f) b := by
  intro c h
  obtain ⟨a', ha, hc⟩ := bind_eq_ok.mp h
  obtain rfl := hx a' ha
  exact hf c hc

theorem of_eq {x : Except Fault α} {a b : α} (h : Yields x a) (e : a = b) : Yields x b := e ▸ h

theorem map {x : Except Fault α} {a : α} (hx : Yields x a) (f : α → β) :
    Yields (x >>= fun v => pure (f v)) (f a) :=
  hx.bind (ok (f a))

theorem mapM {f : α → Except Fault β} {g : α → β} {xs : List α}
    (h : ∀ x ∈ xs, Yields (f x) (g x)) : Yields (xs.mapM f) (xs.map g) := by
  induction xs with
  | nil => exact ok []
  | cons x xs ih =>
    rw [List.mapM_cons]
    apply (h x (by simp)).bind
    exact (ih fun y hy => h y (by simp [hy])).map _

end Yields

/-- `text` is all that the trees can print, one after another, as items in the same context. -/
def PrintsAs (ctx : Context) (trees : List Tree) (text : String) : Prop :=
  ∀ texts, (trees.mapM fun t => t.print .item ctx) = .ok texts → concat texts = text

namespace PrintsAs

variable {ctx : Context}

theorem of_eq {trees : List Tree} {s t : String} (h : PrintsAs ctx trees s) (e : s = t) :
    PrintsAs ctx trees t := e ▸ h

theorem nil : PrintsAs ctx [] "" := by
  intro texts h
  rw [← pure_eq_ok.mp h]
  rfl

theorem append {first rest : List Tree} {s t : String} (hf : PrintsAs ctx first s)
    (hr : PrintsAs ctx rest t) : PrintsAs ctx (first ++ rest) (s ++ t) := by
  intro texts h
  rw [List.mapM_append] at h
  obtain ⟨a, ha, h⟩ := bind_eq_ok.mp h
  obtain ⟨b, hb, h⟩ := bind_eq_ok.mp h
  rw [← pure_eq_ok.mp h, Text.concat_append, hf a ha, hr b hb]

theorem single {t : Tree} {s : String} (h : Yields (t.print .item ctx) s) : PrintsAs ctx [t] s := by
  intro texts ht
  rw [List.mapM_cons, List.mapM_nil] at ht
  rw [h.map (fun s => [s]) texts ht, concat, concat, String.append_empty]

theorem flatMap {α : Type} {build : α → List Tree} {text : α → String} {xs : List α}
    (h : ∀ x ∈ xs, PrintsAs ctx (build x) (text x)) :
    PrintsAs ctx (xs.flatMap build) (concat (xs.map text)) := by
  induction xs with
  | nil => exact nil
  | cons x xs ih =>
    exact (h x (by simp)).append (ih fun y hy => h y (by simp [hy]))

theorem map {α : Type} {build : α → Tree} {text : α → String} {xs : List α}
    (h : ∀ x ∈ xs, Yields ((build x).print .item ctx) (text x)) :
    PrintsAs ctx (xs.map build) (concat (xs.map text)) := by
  rw [List.map_eq_flatMap]
  exact flatMap fun x hx => single (h x hx)

theorem lines {α : Type} {build : α → Tree} {line : α → String} {xs : List α}
    (h : ∀ x ∈ xs, Yields ((build x).print .item ctx) (ctx.line (line x))) :
    PrintsAs ctx (xs.map build) (ctx.lines (xs.map line)) := by
  have all := map h
  rwa [← Function.comp_def, ← List.map_map] at all

theorem yields {trees : List Tree} {text : String} (h : PrintsAs ctx trees text)
    (f : String → String) : Yields (do
      let texts ← trees.mapM fun t => t.print .item ctx
      return f (concat texts)) (f text) := by
  intro s hs
  obtain ⟨texts, ht, hs⟩ := bind_eq_ok.mp hs
  rw [← pure_eq_ok.mp hs, h texts ht]

end PrintsAs

/-! ## Types -/

def Context.shown (ctx : Context) (type : Tree) : String :=
  ((type.typeText ctx.runtime).toOption).getD ""

def Context.shownParameters (ctx : Context) (parameters : List (Tree × String)) : List String :=
  parameters.map fun p => ctx.shown p.1 ++ " " ++ p.2

theorem yields_typeText (ctx : Context) (type : Tree) :
    Yields (type.typeText ctx.runtime) (ctx.shown type) := by
  intro s h
  simp [Context.shown, h, Except.toOption]

theorem yields_parameters (ctx : Context) (parameters : List (Tree × String)) :
    Yields (parametersText ctx.runtime (.formalParameters parameters))
      ("(" ++ joinWith ", " (ctx.shownParameters parameters) ++ ")") := by
  rw [parametersText_formalParameters]
  have texts : Yields (parameters.mapM fun p => do
      return (← p.1.typeText ctx.runtime) ++ " " ++ p.2) (ctx.shownParameters parameters) := by
    apply Yields.mapM
    intro p _
    exact (yields_typeText ctx p.1).map (· ++ " " ++ p.2)
  exact texts.map fun texts => "(" ++ joinWith ", " texts ++ ")"

/-! ## Records -/

namespace InstanceLayout

variable (l : InstanceLayout) (ctx : Context)

def fieldLine (f : FieldDecl) : String :=
  (if f.isStatic then "static " else "") ++ ctx.shown f.type ++ " " ++ joinWith ", " f.names ++ ";"

def functionLine (result : Tree) (name : String) (parameters : List (Tree × String)) : String :=
  "static " ++ ctx.shown result ++ " " ++ name ++ "("
    ++ joinWith ", " (ctx.shownParameters parameters) ++ ");"

def pointerField : FieldDecl where
  type := .typeRef (Naming.table l.owner.name ++ "*") 0
  names := ["__vptr"]

def tableStorage : FieldDecl where
  modifiers := .ofList ["static"]
  type := .typeRef (Naming.table l.owner.name) 0
  names := ["__vtable"]

/-- All declarations of data in the record, in order. -/
def dataMembers : List FieldDecl := l.pointerField :: l.fields ++ [l.tableStorage]

def functionLines : List String :=
  (l.owner.constructors.map fun k =>
    functionLine ctx l.selfType "__init" (l.receiver :: k.parameterTypes.zip k.parameters))
  ++ l.owner.methods.map fun f =>
    let declared := f.parameterTypes.zip f.parameters
    functionLine ctx f.result f.name (if f.isStatic then declared else l.receiver :: declared)

def memberTexts : List String :=
  (l.pointerField :: l.fields).map (fieldLine ctx)
    ++ [Naming.recordPath l.owner.name ++ "() : __vptr(&__vtable) \x7b\x7d", ""]
    ++ l.functionLines ctx
    ++ [functionLine ctx (.typeRef "Class" 0) "__class" [], fieldLine ctx l.tableStorage]

def structText : String :=
  ctx.line ("struct " ++ Naming.recordPath l.owner.name ++ " \x7b")
    ++ ctx.deeper.lines (l.memberTexts ctx) ++ ctx.lines ["\x7d;", ""]

end InstanceLayout

section Records

variable {ctx : Context}

theorem yields_function (header : ctx.artifact = .header) (result : Tree) (name : String)
    (parameters : List (Tree × String)) :
    Yields ((InstanceLayout.staticMethod result name parameters).print .item ctx)
      (ctx.line (InstanceLayout.functionLine ctx result name parameters)) := by
  rw [print_staticMethod header]
  apply (yields_typeText ctx result).bind
  have text := (yields_parameters ctx parameters).map fun list =>
    ctx.line ("static " ++ ctx.shown result ++ " " ++ name ++ list ++ ";")
  simpa [InstanceLayout.functionLine, String.append_assoc] using text

theorem yields_field (header : ctx.artifact = .header) (member : ctx.isMember = true)
    (f : FieldDecl) :
    Yields ((InstanceLayout.fieldMember f).print .item ctx)
      (ctx.line (InstanceLayout.fieldLine ctx f)) := by
  rw [InstanceLayout.fieldMember, print_fieldDeclaration header member]
  have text := (yields_typeText ctx f.type).map fun type =>
    ctx.line ((if f.isStatic then "static " else "") ++ type ++ " " ++ joinWith ", " f.names ++ ";")
  cases hs : f.isStatic <;> simpa [InstanceLayout.fieldLine, hs] using text

theorem yields_constructor (header : ctx.artifact = .header) (l : InstanceLayout) :
    Yields (l.defaultConstructor.print .item ctx)
    (ctx.lines [Naming.recordPath l.owner.name ++ "() : __vptr(&__vtable) \x7b\x7d", ""]) := by
  rw [print_defaultConstructor header]
  apply (Yields.ok _).of_eq
  have first : Naming.recordPath l.owner.name ++ "() : __vptr(&__vtable) \x7b\x7d" ≠ "" := by
    intro h
    have ends := congrArg String.length h
    simp at ends
  simp [← String.toList_inj, Context.lines, Context.line, concat, first]

theorem printsAs_functions (header : ctx.artifact = .header) (l : InstanceLayout) : PrintsAs ctx
    (l.owner.constructors.map l.initFunction ++ l.owner.methods.map l.methodMember)
    (ctx.lines (l.functionLines ctx)) := by
  have inits := PrintsAs.lines fun k (_ : k ∈ l.owner.constructors) =>
    yields_function header l.selfType "__init" (l.receiver :: k.parameterTypes.zip k.parameters)
  have methods := PrintsAs.lines fun f (_ : f ∈ l.owner.methods) =>
    yields_function header f.result f.name (if f.isStatic then f.parameterTypes.zip f.parameters
      else l.receiver :: f.parameterTypes.zip f.parameters)
  apply (inits.append methods).of_eq
  simp [InstanceLayout.functionLines, Context.lines, Text.concat_append]

theorem printsAs_members (header : ctx.artifact = .header) (member : ctx.isMember = true)
    (l : InstanceLayout) :
    PrintsAs ctx l.members (ctx.lines (l.memberTexts ctx)) := by
  have split : l.members = (l.pointerField :: l.fields).map InstanceLayout.fieldMember
      ++ [l.defaultConstructor]
      ++ (l.owner.constructors.map l.initFunction ++ l.owner.methods.map l.methodMember)
      ++ ([InstanceLayout.classAccessor] ++ [InstanceLayout.fieldMember l.tableStorage]) := by
    have pointer : InstanceLayout.fieldMember l.pointerField = l.tablePointer := rfl
    have storage : InstanceLayout.fieldMember l.tableStorage = l.tableField := rfl
    simp [InstanceLayout.members, pointer, storage]
  have data := PrintsAs.lines fun f (_ : f ∈ l.pointerField :: l.fields) =>
    yields_field header member f
  have ends := (PrintsAs.single (yields_function header (.typeRef "Class" 0) "__class" [])).append
    (PrintsAs.single (yields_field header member l.tableStorage))
  have all := ((data.append (PrintsAs.single (yields_constructor header l))).append
    (printsAs_functions header l)).append ends
  rw [split]
  apply all.of_eq
  simp [InstanceLayout.memberTexts, Context.lines, Text.concat_append, concat, String.append_assoc]

theorem yields_struct (header : ctx.artifact = .header) (l : InstanceLayout) :
    Yields (l.declaration.print .item ctx) (l.structText ctx) := by
  -- the context of the members prints lines as the context one level deeper does
  let inner := (ctx.inside .classDeclaration).deeper.inside .classBody
  have inHeader : inner.artifact = .header := header
  have inBody : inner.isMember = true := by simp [inner, Context.isMember, Context.inside]
  have members : PrintsAs inner l.members (ctx.deeper.lines (l.memberTexts ctx)) :=
    printsAs_members inHeader inBody l
  rw [print_classDeclaration header]
  exact members.yields fun body =>
    ctx.line ("struct " ++ Naming.recordPath l.owner.name ++ " \x7b") ++ body
      ++ ctx.lines ["\x7d;", ""]

end Records

/-! ## Tables -/

namespace DispatchTable

variable (t : DispatchTable) (ctx : Context)

def slotShown (slot : DispatchSlot) : SlotText :=
  slot.shown t.owner.name (ctx.shown slot.result)
    ((.typeRef t.owner.name 0 :: slot.parameterTypes).map ctx.shown)

def structText : String :=
  let record := Naming.recordPath t.owner.name
  let slots := t.slots.map (t.slotShown ctx)
  ctx.line ("struct " ++ record ++ "_VT \x7b")
    ++ ctx.deeper.lines (["Class __is_a;"] ++ slots.map SlotText.member
      ++ ["", record ++ "_VT()"]
      ++ initializerLines ": " (("__is_a(" ++ record ++ "::__class())")
        :: slots.map SlotText.initializer)
      ++ ["\x7b", "\x7d"])
    ++ ctx.lines ["\x7d;", ""]

end DispatchTable

theorem yields_tableStruct {ctx : Context} (header : ctx.artifact = .header) (t : DispatchTable) :
    Yields (t.declaration.print .item ctx) (t.structText ctx) := by
  have slots : Yields
      (t.slots.mapM fun slot => slotText ctx.runtime t.owner.name (t.entry slot).row)
      (t.slots.map (t.slotShown ctx)) := by
    apply Yields.mapM
    intro slot _
    rw [slotText_entry]
    apply (yields_typeText ctx slot.result).bind
    exact (Yields.mapM fun type _ => yields_typeText ctx type).map _
  rw [print_tableDeclaration header]
  exact slots.map _

end ClassLowering
