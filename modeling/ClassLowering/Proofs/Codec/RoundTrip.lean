import ClassLowering.Codec.Class
import ClassLowering.Command.Execute
import ClassLowering.Proofs.Json.RoundTrip
import ClassLowering.Proofs.Outcome
import ClassLowering.Proofs.Tree.Parents
import Mathlib.Logic.Basic

/-!
# Encoded values are read back

`Restores` says that a decoder undoes an encoder: it gives back the value when the levels of nesting
that are left suffice, and nothing otherwise. The law of a record follows from those of its fields,
and the law of a list from that of its items. Each record is read with fewer levels left than the
one around it, and only in the end are there enough of them for all.
-/

set_option autoImplicit false

namespace ClassLowering

open Json (Textual required listOf texts ofStrings ofList itemsDepth membersDepth)

/-! ## The law of a codec -/

/-- Reading what was written gives the value back if the levels of nesting that are left suffice.
Only the contents of slots are measured, so at least `least` levels have to be left for the records
and lists around them. -/
structure Restores {α : Type} (decode : Nat → Json → Option α) (encode : α → Json)
    (least : Nat) : Prop where
  textual : ∀ a, Textual (encode a)
  decode_encode : ∀ (a : α) {room : Nat}, least ≤ room →
    decode room (encode a) = if (encode a).depth ≤ room then some a else none

theorem ite_bind {α β : Type} {p : Prop} [Decidable p] (a : α) (f : α → Option β) :
    ((if p then some a else none) >>= f) = if p then f a else none := by
  split <;> rfl

theorem Json.Textual.ofList {α : Type} {encode : α → Json} {xs : List α}
    (h : ∀ x ∈ xs, Textual (encode x)) : Textual (ofList encode xs) := by
  apply Textual.arr
  intro j hj
  obtain ⟨x, hx, rfl⟩ := List.mem_map.mp hj
  exact h x hx

@[simp] theorem textual_ofStrings (names : List String) : Textual (ofStrings names) :=
  Textual.ofList fun name _ => .str name

@[simp] theorem texts_ofStrings (names : List String) : texts (ofStrings names) = some names := by
  have read : (names.map Json.str).mapM Json.text? = some (names.map id) :=
    mapM_built Json.str id (fun _ => rfl) names
  rwa [List.map_id] at read

@[simp] theorem depth_ofStrings (names : List String) : (ofStrings names).depth = 1 := by
  have flat : itemsDepth (names.map Json.str) = 0 := by
    induction names with
    | nil => rfl
    | cons name rest ih => simp [itemsDepth, Json.depth, ih]
  rw [ofStrings, Json.depth, flat]

theorem record?_obj {members : List (String × Json)} {fields : List String}
    (names : members.map Prod.fst = fields) (nodup : fields.Nodup) :
    (Json.obj members).record? fields = some members := by
  have known : members.filter (fun m => fields.contains m.1) = members := by
    apply List.filter_eq_self.mpr
    intro m hm
    rw [← names]
    exact List.contains_iff_mem.mpr (List.mem_map_of_mem hm)
  rw [Json.record?, known, names, if_pos nodup]

namespace Restores

variable {α : Type} {decode : Nat → Json → Option α} {encode : α → Json} {least : Nat}

theorem textual_ofList (h : Restores decode encode least) (xs : List α) :
    Textual (ofList encode xs) :=
  Textual.ofList fun x _ => h.textual x

theorem listOf_ofList (h : Restores decode encode least) (xs : List α) {room : Nat}
    (hr : least ≤ room) : listOf (decode room) (ofList encode xs) =
      if itemsDepth (xs.map encode) ≤ room then some xs else none := by
  change (xs.map encode).mapM (decode room) = _
  induction xs with
  | nil => rfl
  | cons x rest ih =>
    rw [List.map_cons, List.mapM_cons, ih, h.decode_encode x hr, ite_bind, ite_bind, itemsDepth]
    simp only [Nat.max_le, ite_and, Option.pure_def]

theorem mapM_members (h : Restores decode encode least) (entries : List (String × α)) {room : Nat}
    (hr : least ≤ room) : (entries.map fun e => (e.1, encode e.2)).mapM
        (fun m => do return (m.1, ← decode room m.2)) =
      if membersDepth (entries.map fun e => (e.1, encode e.2)) ≤ room then some entries
      else none := by
  induction entries with
  | nil => rfl
  | cons e rest ih =>
    rw [List.map_cons, List.mapM_cons, ih, h.decode_encode e.2 hr, ite_bind, membersDepth]
    simp only [Option.pure_def, ite_bind, Nat.max_le, ite_and]

end Restores

/-! ## Trees -/

namespace Tree

theorem slotsToJson_eq (slots : List (Slot Tree)) : slotsToJson slots = slots.map slotToJson := by
  induction slots with
  | nil => rfl
  | cons s rest ih => rw [slotsToJson, ih, List.map_cons]

theorem toJson_eq (t : Tree) :
    t.toJson = .obj [("name", .str t.label), ("children", ofList slotToJson t.slots)] := by
  cases t
  rw [toJson, slotsToJson_eq]
  rfl

/-- To prove something of every slot, prove it of the trees whose slots have it. -/
theorem slot_induction {P : Slot Tree → Prop} (absent : P .absent) (text : ∀ s, P (.text s))
    (node : ∀ t : Tree, (∀ s ∈ t.slots, P s) → P (.node t)) (s : Slot Tree) : P s := by
  have nodes (t : Tree) : P (.node t) := by
    induction t using Tree.induction with
    | step t ih =>
      apply node
      intro s hs
      obtain ⟨i, hi⟩ := List.mem_iff_getElem?.mp hs
      cases s with
      | absent => exact absent
      | text s => exact text s
      | node c => exact ih i c hi
  cases s with
  | absent => exact absent
  | text s => exact text s
  | node t => exact nodes t

theorem textual_slot (s : Slot Tree) : Textual (slotToJson s) := by
  induction s using slot_induction with
  | absent => exact .null
  | text s => exact .str s
  | node t ih =>
    have slots : Textual (ofList slotToJson t.slots) := .ofList ih
    rw [slotToJson, toJson_eq]
    exact .obj (by simp [Textual.str, slots])

theorem slotsOfWhole?_map {slots : List (Slot Tree)}
    (h : ∀ s ∈ slots, slotOfWhole? (slotToJson s) = some s) :
    slotsOfWhole? (slots.map slotToJson) = some slots := by
  induction slots with
  | nil => rfl
  | cons s rest ih =>
    rw [List.map_cons, slotsOfWhole?, h s (by simp), ih fun s hs => h s (by simp [hs])]
    rfl

theorem slotOfWhole?_slotToJson (s : Slot Tree) : slotOfWhole? (slotToJson s) = some s := by
  induction s using slot_induction with
  | absent => rfl
  | text s => rfl
  | node t ih =>
    have slots : slotListOfWhole? (ofList slotToJson t.slots) = some t.slots := slotsOfWhole?_map ih
    have whole : mk t.label t.slots = t := t.ofRow_row
    rw [slotToJson, toJson_eq, slotOfWhole?]
    simp [draftOf?, Json.text?, slots, Draft.setLabel, Draft.setSlots, Draft.finish, whole]

theorem slot_restores : Restores slotOfJson? slotToJson 0 where
  textual := textual_slot
  decode_encode s room _ := by
    rw [slotOfJson?, slotOfWhole?_slotToJson, Json.fits, (textual_slot s).isSound]
    simp

theorem restores : Restores ofJson? toJson 2 where
  textual t := textual_slot (.node t)
  decode_encode t room hr := by
    have slots := slot_restores.listOf_ofList t.slots (Nat.zero_le (room - 2))
    have read : ofJson? room t.toJson = (do
        return mk t.label (← listOf (slotOfJson? (room - 2)) (ofList slotToJson t.slots))) := by
      rw [ofJson?, toJson_eq, record?_obj]
      case names => rfl
      case nodup => decide
      simp [required, Json.optional, List.lookup_cons, Json.text?]
    have depth : t.toJson.depth ≤ room ↔ itemsDepth (t.slots.map slotToJson) ≤ room - 2 := by
      simp only [toJson_eq, Json.depth, membersDepth, ofList]
      omega
    have whole : mk t.label t.slots = t := t.ofRow_row
    simp only [read, slots, ite_bind, Option.pure_def, depth, whole]

end Tree

namespace FieldDecl

theorem restores : Restores ofJson? toJson 3 where
  textual f := .obj (by simp [NameSet.toJson, Tree.restores.textual])
  decode_encode f room hr := by
    have type := Tree.restores.decode_encode f.type (show 2 ≤ room - 1 by omega)
    have read : ofJson? room f.toJson = (do
        return { f with type := ← Tree.ofJson? (room - 1) f.type.toJson }) := by
      rw [ofJson?, toJson, record?_obj]
      case names => rfl
      case nodup => decide
      simp [required, Json.optional, List.lookup_cons, NameSet.toJson]
    have depth : f.toJson.depth ≤ room ↔ f.type.toJson.depth ≤ room - 1 := by
      simp only [toJson, Json.depth, membersDepth, NameSet.toJson, depth_ofStrings]
      omega
    simp only [read, type, ite_bind, Option.pure_def, depth]

end FieldDecl

namespace MethodDecl

theorem restores : Restores ofJson? toJson 4 where
  textual m := .obj (by
    simp [NameSet.toJson, Tree.restores.textual, Tree.restores.textual_ofList, Textual.str])
  decode_encode m room hr := by
    have result := Tree.restores.decode_encode m.result (show 2 ≤ room - 1 by omega)
    have types := Tree.restores.listOf_ofList m.parameterTypes (show 2 ≤ room - 2 by omega)
    have read : ofJson? room m.toJson = (do
        let result ← Tree.ofJson? (room - 1) m.result.toJson
        let parameterTypes ← listOf (Tree.ofJson? (room - 2)) (ofList Tree.toJson m.parameterTypes)
        return { m with result, parameterTypes }) := by
      rw [ofJson?, toJson, record?_obj]
      case names => rfl
      case nodup => decide
      simp [required, Json.optional, List.lookup_cons, NameSet.toJson, Json.text?]
    have depth : m.toJson.depth ≤ room ↔ m.result.toJson.depth ≤ room - 1 ∧
        itemsDepth (m.parameterTypes.map Tree.toJson) ≤ room - 2 := by
      simp only [toJson, Json.depth, membersDepth, NameSet.toJson, depth_ofStrings, ofList]
      omega
    simp only [read, result, types, ite_bind, Option.pure_def, depth, ite_and]

end MethodDecl

namespace ConstructorDecl

theorem restores : Restores ofJson? toJson 4 where
  textual c := .obj (by simp [NameSet.toJson, Tree.restores.textual_ofList])
  decode_encode c room hr := by
    have types := Tree.restores.listOf_ofList c.parameterTypes (show 2 ≤ room - 2 by omega)
    have read : ofJson? room c.toJson = (do
        let parameterTypes ← listOf (Tree.ofJson? (room - 2)) (ofList Tree.toJson c.parameterTypes)
        return { c with parameterTypes }) := by
      rw [ofJson?, toJson, record?_obj]
      case names => rfl
      case nodup => decide
      simp [Json.optional, List.lookup_cons, NameSet.toJson]
    have depth : c.toJson.depth ≤ room ↔
        itemsDepth (c.parameterTypes.map Tree.toJson) ≤ room - 2 := by
      simp only [toJson, Json.depth, membersDepth, NameSet.toJson, depth_ofStrings, ofList]
      omega
    simp only [read, types, ite_bind, Option.pure_def, depth]

end ConstructorDecl

namespace ClassDecl

theorem restores : Restores ofJson? toJson 6 where
  textual c := .obj (by
    simp [FieldDecl.restores.textual_ofList, MethodDecl.restores.textual_ofList,
      ConstructorDecl.restores.textual_ofList, Textual.str])
  decode_encode c room hr := by
    have fields := FieldDecl.restores.listOf_ofList c.fields (show 3 ≤ room - 2 by omega)
    have methods := MethodDecl.restores.listOf_ofList c.methods (show 4 ≤ room - 2 by omega)
    have constructors :=
      ConstructorDecl.restores.listOf_ofList c.constructors (show 4 ≤ room - 2 by omega)
    have read : ofJson? room c.toJson = (do
        let fields ← listOf (FieldDecl.ofJson? (room - 2)) (ofList FieldDecl.toJson c.fields)
        let methods ← listOf (MethodDecl.ofJson? (room - 2)) (ofList MethodDecl.toJson c.methods)
        let constructors ← listOf (ConstructorDecl.ofJson? (room - 2))
          (ofList ConstructorDecl.toJson c.constructors)
        return { c with fields, methods, constructors }) := by
      rw [ofJson?, toJson, record?_obj]
      case names => rfl
      case nodup => decide
      simp [required, Json.optional, List.lookup_cons, Json.text?]
    have depth : c.toJson.depth ≤ room ↔
        itemsDepth (c.fields.map FieldDecl.toJson) ≤ room - 2 ∧
        itemsDepth (c.methods.map MethodDecl.toJson) ≤ room - 2 ∧
        itemsDepth (c.constructors.map ConstructorDecl.toJson) ≤ room - 2 := by
      simp only [toJson, Json.depth, membersDepth, ofList]
      omega
    simp only [read, fields, methods, constructors, ite_bind, Option.pure_def, depth, ite_and]

end ClassDecl

namespace ClassMap

theorem restores : Restores ofJson? toJson 7 where
  textual m := by
    apply Textual.obj
    intro member hm
    obtain ⟨e, -, rfl⟩ := List.mem_map.mp hm
    exact ClassDecl.restores.textual e.2
  decode_encode m room hr := by
    have entries := ClassDecl.restores.mapM_members m.entries (show 6 ≤ room - 1 by omega)
    have read : ofJson? room m.toJson = (do
        let entries ← (m.entries.map fun e => (e.1, e.2.toJson)).mapM fun member => do
          return (member.1, ← ClassDecl.ofJson? (room - 1) member.2)
        return ofEntries entries) := rfl
    have depth : m.toJson.depth ≤ room ↔
        membersDepth (m.entries.map fun e => (e.1, e.2.toJson)) ≤ room - 1 := by
      simp only [toJson, Json.depth]
      omega
    rw [read, entries, ite_bind, ofEntries_entries]
    simp only [Option.pure_def, depth]

end ClassMap

namespace Hierarchy

theorem restores : Restores ofJson? toJson 8 where
  textual h := .obj (by simp [ClassMap.restores.textual])
  decode_encode h room hr := by
    have classes := ClassMap.restores.decode_encode h.classes (show 7 ≤ room - 1 by omega)
    have read : ofJson? room h.toJson = (do
        return { h with classes := ← ClassMap.ofJson? (room - 1) h.classes.toJson }) := by
      rw [ofJson?, toJson, record?_obj]
      case names => rfl
      case nodup => decide
      simp [required, Json.optional, List.lookup_cons]
    have depth : h.toJson.depth ≤ room ↔ h.classes.toJson.depth ≤ room - 1 := by
      simp only [toJson, Json.depth, membersDepth, depth_ofStrings]
      omega
    simp only [read, classes, ite_bind, Option.pure_def, depth]

end Hierarchy

namespace Bundle

theorem restores : Restores ofJson? toJson 8 where
  textual b := .obj (by
    simp [ClassDecl.restores.textual_ofList, Tree.restores.textual_ofList])
  decode_encode b room hr := by
    have classes := ClassDecl.restores.listOf_ofList b.classes (show 6 ≤ room - 2 by omega)
    have units := Tree.restores.listOf_ofList b.units (show 2 ≤ room - 2 by omega)
    have lowered := Tree.restores.listOf_ofList b.lowered (show 2 ≤ room - 2 by omega)
    have read : ofJson? room b.toJson = (do
        let classes ← listOf (ClassDecl.ofJson? (room - 2)) (ofList ClassDecl.toJson b.classes)
        let units ← listOf (Tree.ofJson? (room - 2)) (ofList Tree.toJson b.units)
        let lowered ← listOf (Tree.ofJson? (room - 2)) (ofList Tree.toJson b.lowered)
        return { b with classes, units, lowered }) := by
      rw [ofJson?, toJson, record?_obj]
      case names => rfl
      case nodup => decide
      simp [Json.optional, List.lookup_cons]
    have depth : b.toJson.depth ≤ room ↔
        itemsDepth (b.classes.map ClassDecl.toJson) ≤ room - 2 ∧
        itemsDepth (b.units.map Tree.toJson) ≤ room - 2 ∧
        itemsDepth (b.lowered.map Tree.toJson) ≤ room - 2 := by
      simp only [toJson, Json.depth, membersDepth, depth_ofStrings, ofList]
      omega
    simp only [read, classes, units, lowered, ite_bind, Option.pure_def, depth, ite_and]

end Bundle

/-! ## Texts -/

/-- `read` gives `value` if the text nests arrays and objects at most 127 deep, and `refusal`
otherwise. -/
def ReadsWithin {β : Type} (read : String → β) (text : String) (value refusal : β) : Prop :=
  ∃ levels, Json.nesting? text = some levels ∧ read text = if levels ≤ 127 then value else refusal

section Texts

variable {α : Type} (decode : Nat → Json → Option α) (encode : α → Json)

def decodeText (text : String) : Option α := (Json.parse? text).bind (decode nestingLimit)

/-- The text on one line and the indented text of every value are both read as the value. -/
def ReadsBack : Prop := ∀ a,
  ReadsWithin (decodeText decode) (encode a).compact (some a) none ∧
    ReadsWithin (decodeText decode) ((encode a).pretty 0) (some a) none

variable {decode encode} {least : Nat}

theorem Restores.readsWithin (h : Restores decode encode least) (enough : least ≤ nestingLimit)
    {text : String} {a : α} (hw : Json.Writes text (encode a)) :
    ReadsWithin (decodeText decode) text (some a) none := by
  refine ⟨(encode a).depth, hw.nesting?_eq, ?_⟩
  rw [decodeText, hw.parse?_eq]
  exact h.decode_encode a enough

theorem Restores.readsBack (h : Restores decode encode least) (enough : least ≤ nestingLimit) :
    ReadsBack decode encode :=
  fun a => ⟨h.readsWithin enough (h.textual a).writes_compact,
    h.readsWithin enough (h.textual a).writes_pretty⟩

end Texts

theorem Bundle.readsWithin {text : String} {b : Bundle}
    (h : ReadsWithin (decodeText ofJson?) text (some b) none) :
    ReadsWithin read text (.ok b) (.error .badBundle) := by
  obtain ⟨levels, nesting, decoded⟩ := h
  refine ⟨levels, nesting, ?_⟩
  rw [decodeText] at decoded
  rw [read, decoded]
  by_cases fits : levels ≤ 127
  · simp only [if_pos fits]
  · simp only [if_neg fits]

/-- Whatever strings it holds, every value is read back from either of its texts, unless the text is
nested too deep. So is a tree from what is displayed of it, and a bundle when it is loaded. -/
theorem encodings_read_back :
    ReadsBack Tree.ofJson? Tree.toJson ∧
    ReadsBack Tree.slotOfJson? Tree.slotToJson ∧
    ReadsBack FieldDecl.ofJson? FieldDecl.toJson ∧
    ReadsBack MethodDecl.ofJson? MethodDecl.toJson ∧
    ReadsBack ConstructorDecl.ofJson? ConstructorDecl.toJson ∧
    ReadsBack ClassDecl.ofJson? ClassDecl.toJson ∧
    ReadsBack Hierarchy.ofJson? Hierarchy.toJson ∧
    ReadsBack Bundle.ofJson? Bundle.toJson ∧
    (∀ t : Tree, ReadsWithin (decodeText Tree.ofJson?) t.display (some t) none) ∧
    ∀ b : Bundle, ReadsWithin Bundle.read b.toJson.compact (.ok b) (.error .badBundle) ∧
      ReadsWithin Bundle.read (b.toJson.pretty 0) (.ok b) (.error .badBundle) := by
  have bundles : ReadsBack Bundle.ofJson? Bundle.toJson := Bundle.restores.readsBack (by decide)
  refine ⟨Tree.restores.readsBack (by decide), Tree.slot_restores.readsBack (by decide),
    FieldDecl.restores.readsBack (by decide), MethodDecl.restores.readsBack (by decide),
    ConstructorDecl.restores.readsBack (by decide), ClassDecl.restores.readsBack (by decide),
    Hierarchy.restores.readsBack (by decide), bundles, ?_, ?_⟩
  · intro t
    have shown := (Tree.restores.textual t).spells_pretty 0
    exact Tree.restores.readsWithin (by decide) (.of_spells shown Json.blank_newline)
  · intro b
    obtain ⟨compact, pretty⟩ := bundles b
    exact ⟨Bundle.readsWithin compact, Bundle.readsWithin pretty⟩

end ClassLowering
