import ClassLowering.Proofs.Naming
import ClassLowering.Proofs.Printing.Members

/-!
# Declarations with the generated names spelled out

What the header says of a class is written out with `__C` for the record of a class `C` and `__C_VT`
for its dispatch table, and is shown to be what a class with a class name is declared as. The types
that the classes were given are the only part that is not spelled out: `Context.shown` is the text
of a type that has one.
-/

set_option autoImplicit false

namespace ClassLowering

open Text (joinWith concat)
open Naming (IsClassName)

/-! ## Texts with the names spelled out -/

namespace InstanceLayout

variable (l : InstanceLayout) (ctx : Context)

def methodLine (f : MethodDecl) : String :=
  let declared := ctx.shownParameters (f.parameterTypes.zip f.parameters)
  "static " ++ ctx.shown f.result ++ " " ++ f.name ++ "("
    ++ joinWith ", " (if f.isStatic then declared else (l.owner.name ++ " __this") :: declared)
    ++ ");"

def initLine (k : ConstructorDecl) : String :=
  "static " ++ l.owner.name ++ " __init("
    ++ joinWith ", " ((l.owner.name ++ " __this")
      :: ctx.shownParameters (k.parameterTypes.zip k.parameters)) ++ ");"

def memberLines : List String :=
  ["__" ++ l.owner.name ++ "_VT* __vptr;"]
    ++ l.fields.map (fieldLine ctx)
    ++ ["__" ++ l.owner.name ++ "() : __vptr(&__vtable) \x7b\x7d", ""]
    ++ l.owner.constructors.map (l.initLine ctx)
    ++ l.owner.methods.map (l.methodLine ctx)
    ++ ["static Class __class();", "static __" ++ l.owner.name ++ "_VT __vtable;"]

/-- The record `__C` of a class `C`. -/
def recordText : String :=
  ctx.line ("struct __" ++ l.owner.name ++ " \x7b") ++ ctx.deeper.lines (l.memberLines ctx)
    ++ ctx.lines ["\x7d;", ""]

end InstanceLayout

namespace DispatchTable

variable (t : DispatchTable) (ctx : Context)

def parameterText (slot : DispatchSlot) : String :=
  joinWith ", " (t.owner.name :: slot.parameterTypes.map ctx.shown)

def memberLine (slot : DispatchSlot) : String :=
  ctx.shown slot.result ++ " (*" ++ slot.name ++ ")(" ++ t.parameterText ctx slot ++ ");"

def initializer (slot : DispatchSlot) : String :=
  let cast := if slot.implementor = t.owner.name then ""
    else "(" ++ ctx.shown slot.result ++ "(*)(" ++ t.parameterText ctx slot ++ ")) "
  slot.name ++ "(" ++ cast ++ "&__" ++ slot.implementor ++ "::" ++ slot.name ++ ")"

/-- The table `__C_VT` of a class `C`. -/
def tableText : String :=
  ctx.line ("struct __" ++ t.owner.name ++ "_VT \x7b")
    ++ ctx.deeper.lines (["Class __is_a;"] ++ t.slots.map (t.memberLine ctx)
      ++ ["", "__" ++ t.owner.name ++ "_VT()"]
      ++ initializerLines ": " (("__is_a(__" ++ t.owner.name ++ "::__class())")
        :: t.slots.map (t.initializer ctx))
      ++ ["\x7b", "\x7d"])
    ++ ctx.lines ["\x7d;", ""]

end DispatchTable

namespace ClassDecl

variable (c : ClassDecl) (ctx : Context)

def forwardText : String :=
  ctx.lines ["struct __" ++ c.name ++ ";", "struct __" ++ c.name ++ "_VT;"]

def aliasText : String := ctx.line ("typedef __" ++ c.name ++ "* " ++ c.name ++ ";")

end ClassDecl

/-! ## Records -/

theorem shown_typeRef {name : String} (h : IsClassName name) (ctx : Context) :
    ctx.shown (.typeRef name 0) = name := by
  rw [Context.shown, Tree.typeText_typeRef, Naming.typeName_eq ctx.runtime h]
  rfl

theorem shown_table {name : String} (h : IsClassName name) (mark : String) (dot : '.' ∉ mark.toList)
    (colon : ':' ∉ mark.toList) (ctx : Context) :
    ctx.shown (.typeRef (Naming.table name ++ mark) 0) = "__" ++ name ++ "_VT" ++ mark := by
  have spelled : Naming.table name ++ mark = "__" ++ (name ++ "_VT" ++ mark) := by
    simp [Naming.table, Naming.marker, String.append_assoc]
  have marked : IsClassName ("__" ++ (name ++ "_VT" ++ mark)) := by
    apply Naming.isClassName_marked
    · simpa using ⟨h.1, dot⟩
    · simpa using ⟨h.2.1, colon⟩
  rw [spelled, shown_typeRef marked]
  simp only [String.append_assoc]

namespace InstanceLayout

variable {l : InstanceLayout} (name : IsClassName l.owner.name) (ctx : Context)

include name

theorem fieldLine_pointerField :
    fieldLine ctx l.pointerField = "__" ++ l.owner.name ++ "_VT* __vptr;" := by
  have type := shown_table name "*" (by decide) (by decide) ctx
  have instanceField : l.pointerField.isStatic = false := rfl
  rw [fieldLine, instanceField, pointerField, type]
  simp [← String.toList_inj, joinWith]

theorem fieldLine_tableStorage :
    fieldLine ctx l.tableStorage = "static __" ++ l.owner.name ++ "_VT __vtable;" := by
  have type := shown_table name "" (by decide) (by decide) ctx
  have static : l.tableStorage.isStatic = true := rfl
  rw [String.append_empty, String.append_empty] at type
  rw [fieldLine, static, tableStorage, type]
  simp [← String.toList_inj, joinWith]

theorem shownParameters_receiver (parameters : List (Tree × String)) :
    ctx.shownParameters (l.receiver :: parameters) =
      (l.owner.name ++ " __this") :: ctx.shownParameters parameters := by
  have self : ctx.shown l.selfType = l.owner.name := shown_typeRef name ctx
  simp [Context.shownParameters, receiver, Naming.receiver, self, String.append_assoc]

theorem functionLine_init (k : ConstructorDecl) :
    functionLine ctx l.selfType "__init" (l.receiver :: k.parameterTypes.zip k.parameters) =
      l.initLine ctx k := by
  have self : ctx.shown l.selfType = l.owner.name := shown_typeRef name ctx
  rw [functionLine, initLine, shownParameters_receiver name, self]
  simp [← String.toList_inj]

theorem functionLine_method (f : MethodDecl) :
    functionLine ctx f.result f.name (if f.isStatic then f.parameterTypes.zip f.parameters
      else l.receiver :: f.parameterTypes.zip f.parameters) = l.methodLine ctx f := by
  cases hs : f.isStatic <;> simp [functionLine, methodLine, shownParameters_receiver name, hs]

theorem memberTexts_eq : l.memberTexts ctx = l.memberLines ctx := by
  have accessor :
      functionLine ctx (.typeRef "Class" 0) "__class" [] = "static Class __class();" := by
    rw [functionLine, shown_typeRef (by decide)]
    rfl
  have inits : l.owner.constructors.map (fun k => functionLine ctx l.selfType "__init"
      (l.receiver :: k.parameterTypes.zip k.parameters)) =
        l.owner.constructors.map (l.initLine ctx) :=
    List.map_congr_left fun k _ => functionLine_init name ctx k
  have methods := List.map_congr_left fun f (_ : f ∈ l.owner.methods) =>
    functionLine_method name ctx f
  rw [memberTexts, memberLines, functionLines, inits, methods, List.map_cons,
    fieldLine_pointerField name, fieldLine_tableStorage name, accessor, Naming.recordPath_eq name]
  simp only [List.append_assoc, List.singleton_append]

theorem structText_eq : l.structText ctx = l.recordText ctx := by
  have opening : "struct " ++ ("__" ++ l.owner.name) ++ " \x7b" =
      "struct __" ++ l.owner.name ++ " \x7b" := by
    simp [← String.toList_inj]
  rw [structText, recordText, memberTexts_eq name, Naming.recordPath_eq name, opening]

end InstanceLayout

/-! ## Tables -/

namespace DispatchTable

variable {t : DispatchTable} (owner : IsClassName t.owner.name) (ctx : Context)

include owner

theorem slotShown_eq {slot : DispatchSlot} (implementor : IsClassName slot.implementor) :
    t.slotShown ctx slot = ⟨t.memberLine ctx slot, t.initializer ctx slot⟩ := by
  rw [slotShown, List.map_cons, shown_typeRef owner, DispatchSlot.shown,
    Naming.recordPath_eq implementor]
  congr 1
  simp [← String.toList_inj, initializer, parameterText]

theorem structText_eq (implementors : ∀ slot ∈ t.slots, IsClassName slot.implementor) :
    t.structText ctx = t.tableText ctx := by
  have slots : t.slots.map (t.slotShown ctx) =
      t.slots.map fun slot => ⟨t.memberLine ctx slot, t.initializer ctx slot⟩ :=
    List.map_congr_left fun slot hs => slotShown_eq owner ctx (implementors slot hs)
  have opening : "struct " ++ ("__" ++ t.owner.name) ++ "_VT \x7b" =
      "struct __" ++ t.owner.name ++ "_VT \x7b" := by
    simp [← String.toList_inj]
  have isA : "__is_a(" ++ ("__" ++ t.owner.name) ++ "::__class())" =
      "__is_a(__" ++ t.owner.name ++ "::__class())" := by
    simp [← String.toList_inj]
  simp only [structText, tableText, slots, Naming.recordPath_eq owner, List.map_map, opening, isA]
  rfl

end DispatchTable

/-! ## Introductions -/

theorem printsAs_forward (ctx : Context) (c : ClassDecl) :
    PrintsAs ctx c.forwardDeclarations (c.forwardText ctx) := by
  have each : ∀ name ∈ [Naming.record c.name, Naming.table c.name],
      Yields ((Tree.node .forwardDeclaration [.text "struct", .text name]).print .item ctx)
        (ctx.line ("struct " ++ name ++ ";")) := by
    intro name _
    rw [print_forwardDeclaration]
    exact Yields.ok _
  apply (PrintsAs.lines each).of_eq
  simp only [ClassDecl.forwardText, List.map_cons, List.map_nil]
  congr 3
  simp [← String.toList_inj, Naming.table, Naming.marker]

theorem yields_alias (ctx : Context) (c : ClassDecl) :
    Yields (c.typeAlias.print .item ctx) (c.aliasText ctx) := by
  rw [print_typeAlias]
  apply (Yields.ok _).of_eq
  exact congrArg ctx.line (by simp [← String.toList_inj, Naming.record, Naming.marker])

def introductionText (ctx : Context) (sorted : List ClassDecl) : String :=
  concat (sorted.map (·.forwardText ctx)) ++ "\n" ++ (concat (sorted.map (·.aliasText ctx)) ++ "\n")

theorem printsAs_introductions (ctx : Context) (sorted : List ClassDecl) :
    PrintsAs ctx (ClassMap.introductions sorted) (introductionText ctx sorted) := by
  have forward : PrintsAs (ctx.inside .forwardDeclarations)
      (sorted.flatMap ClassDecl.forwardDeclarations) (concat (sorted.map (·.forwardText ctx))) :=
    PrintsAs.flatMap fun c _ => printsAs_forward _ c
  have aliases : PrintsAs (ctx.inside .typeSpecifiers) (sorted.map ClassDecl.typeAlias)
      (concat (sorted.map (·.aliasText ctx))) :=
    PrintsAs.map fun c _ => yields_alias _ c
  have first := forward.yields (· ++ "\n")
  have second := aliases.yields (· ++ "\n")
  rw [← Tree.print_group rfl] at first second
  exact (PrintsAs.single first).append (PrintsAs.single second)

end ClassLowering
