import ClassLowering.Proofs.Codec.RoundTrip
import ClassLowering.Proofs.Json.Grammar
import Mathlib.Data.List.Forall2
import Mathlib.Data.List.MinMax
import Mathlib.Data.List.Nodup
import Mathlib.Data.List.Sort

/-!
# The ways to write a record

A record may be an object or the array of its values, and this anew for each record inside another.
In an object the members have any order, members that the record does not have may be added, and a
field that is empty may be left out if it is optional; of an array such fields may be left out at
the end. `WrittenAs` says this for values of every type, and `Understands` that a decoder gives the
same value for all the ways to write it. Two decoders read trees, one of them on content that was
taken over whole; both find the same fields in a record.
-/

set_option autoImplicit false

namespace ClassLowering

open Json (required listOf texts ofStrings)

namespace Json

structure FieldForm where
  name : String
  Accepts : Json → Prop
  Omissible : Prop

/-- A record as an object or as the array of its values. -/
inductive RecordForm (fields : List FieldForm) : Json → Prop where
  | object {given : List (FieldForm × Json)} {others members : List (String × Json)} :
    (given.map Prod.fst).Sublist fields → (∀ g ∈ given, g.1.Accepts g.2) →
    (∀ f ∈ fields, f ∉ given.map Prod.fst → f.Omissible) →
    (∀ m ∈ others, m.1 ∉ fields.map FieldForm.name) →
    members.Perm (given.map (fun g => (g.1.name, g.2)) ++ others) →
    RecordForm fields (.obj members)
  | array {given : List (FieldForm × Json)} {rest : List FieldForm} :
    fields = given.map Prod.fst ++ rest → (∀ g ∈ given, g.1.Accepts g.2) →
    (∀ f ∈ rest, f.Omissible) → RecordForm fields (.arr (given.map Prod.snd))

/-! ## The parts of a value -/

/-- A part of a value is nested less deep than the value, and denotes something if all parts do. -/
structure Inside (part j : Json) : Prop where
  depth_lt : part.depth < j.depth
  isSound : j.isSound = true → part.isSound = true

theorem inside_arr {part : Json} {items : List Json} (h : part ∈ items) :
    Inside part (.arr items) where
  depth_lt := by
    rw [depth, itemsDepth_eq]
    have bound : part.depth ∈ items.map depth := List.mem_map_of_mem h
    exact Nat.lt_succ_of_le (List.le_max_of_le' 0 bound le_rfl)
  isSound sound := allSound_iff.mp sound part h

theorem inside_obj {key : String} {part : Json} {members : List (String × Json)}
    (h : (key, part) ∈ members) : Inside part (.obj members) where
  depth_lt := by
    rw [depth, membersDepth_eq]
    have bound : part.depth ∈ members.map fun m => m.2.depth := List.mem_map.mpr ⟨_, h, rfl⟩
    exact Nat.lt_succ_of_le (List.le_max_of_le' 0 bound le_rfl)
  isSound sound := membersSound_iff.mp sound (key, part) h

theorem eq_str_of_text? {j : Json} {s : String} (h : j.text? = some s) : j = .str s := by
  cases j with
  | str s' =>
    cases h
    rfl
  | _ => cases h

/-! ## Fields -/

inductive Answer (j : Json) (members : List (String × Json)) (f : FieldForm) : Prop where
  | given {part : Json} : members.lookup f.name = some part → f.Accepts part → Inside part j →
    Answer j members f
  | omitted : members.lookup f.name = none → f.Omissible → Answer j members f

theorem lookup_eq_some_of_mem {members : List (String × Json)} (once : (members.map Prod.fst).Nodup)
    {key : String} {part : Json} (h : (key, part) ∈ members) :
    members.lookup key = some part := by
  induction members with
  | nil => cases h
  | cons m rest ih =>
    rw [List.map_cons, List.nodup_cons] at once
    rcases List.mem_cons.mp h with rfl | h
    · simp
    · have ne : key ≠ m.1 := by
        rintro rfl
        exact once.1 (List.mem_map.mpr ⟨_, h, rfl⟩)
      rw [List.lookup_cons, beq_false_of_ne ne, ih once.2 h]

theorem answer_of_perm {fields : List FieldForm} {j : Json} {members : List (String × Json)}
    {given : List (FieldForm × Json)} (distinct : (fields.map FieldForm.name).Nodup)
    (sub : (given.map Prod.fst).Sublist fields) (accepted : ∀ g ∈ given, g.1.Accepts g.2)
    (omitted : ∀ f ∈ fields, f ∉ given.map Prod.fst → f.Omissible)
    (perm : members.Perm (given.map fun g => (g.1.name, g.2)))
    (inside : ∀ m ∈ members, Inside m.2 j) :
    (members.map Prod.fst).Nodup ∧ ∀ f ∈ fields, Answer j members f := by
  have keys : (members.map Prod.fst).Perm ((given.map Prod.fst).map FieldForm.name) := by
    simpa [Function.comp_def] using perm.map Prod.fst
  have once : (members.map Prod.fst).Nodup :=
    keys.nodup_iff.mpr ((sub.map FieldForm.name).nodup distinct)
  refine ⟨once, fun f hf => ?_⟩
  by_cases chosen : f ∈ given.map Prod.fst
  · obtain ⟨g, hg, rfl⟩ := List.mem_map.mp chosen
    have mem : (g.1.name, g.2) ∈ members := perm.mem_iff.mpr (List.mem_map.mpr ⟨g, hg, rfl⟩)
    exact .given (lookup_eq_some_of_mem once mem) (accepted g hg) (inside _ mem)
  · refine .omitted (List.lookup_eq_none_iff.mpr fun m hm => ?_) (omitted f hf chosen)
    have key : m.1 ∈ (given.map Prod.fst).map FieldForm.name :=
      keys.mem_iff.mp (List.mem_map_of_mem hm)
    obtain ⟨other, ho, name⟩ := List.mem_map.mp key
    -- A field of the same name would be the same field.
    have apart : f.name ≠ other.name := by
      intro same
      have eq := List.inj_on_of_nodup_map distinct hf (sub.subset ho) same
      exact chosen (eq ▸ ho)
    rw [← name]
    exact bne_iff_ne.mpr apart

theorem zip_values (given : List (FieldForm × Json)) (rest : List FieldForm) :
    ((given.map Prod.fst ++ rest).map FieldForm.name).zip (given.map Prod.snd) =
      given.map fun g => (g.1.name, g.2) := by
  induction given with
  | nil => simp
  | cons g given ih => simpa using ih

/-- Either way of writing a record answers for all of its fields. -/
theorem RecordForm.read {fields : List FieldForm} {names : List String} {j : Json}
    (h : RecordForm fields j) (distinct : names.Nodup)
    (named : fields.map FieldForm.name = names) :
    ∃ members, j.record? names = some members ∧ ∀ f ∈ fields, Answer j members f := by
  subst named
  cases h with
  | @object given others members sub accepted omitted unknown perm =>
    let known : List (String × Json) :=
      members.filter fun m => (fields.map FieldForm.name).contains m.1
    have left : others.filter (fun m => (fields.map FieldForm.name).contains m.1) = [] := by
      rw [List.filter_eq_nil_iff]
      intro m hm
      rw [List.contains_iff_mem]
      exact unknown m hm
    have kept : (given.map fun g => (g.1.name, g.2)).filter
        (fun m => (fields.map FieldForm.name).contains m.1) =
        given.map fun g => (g.1.name, g.2) := by
      rw [List.filter_eq_self]
      intro m hm
      obtain ⟨g, hg, rfl⟩ := List.mem_map.mp hm
      have field : g.1 ∈ fields := sub.subset (List.mem_map_of_mem hg)
      exact List.contains_iff_mem.mpr (List.mem_map_of_mem field)
    have listed : known.Perm (given.map fun g => (g.1.name, g.2)) := by
      have filtered := perm.filter fun m => (fields.map FieldForm.name).contains m.1
      rwa [List.filter_append, kept, left, List.append_nil] at filtered
    have inside : ∀ m ∈ known, Inside m.2 (.obj members) := fun m hm =>
      inside_obj (List.mem_of_mem_filter hm)
    obtain ⟨once, answers⟩ := answer_of_perm distinct sub accepted omitted listed inside
    exact ⟨known, if_pos once, answers⟩
  | @array given rest all accepted omitted =>
    subst all
    let known : List (String × Json) := given.map fun g => (g.1.name, g.2)
    have inside : ∀ m ∈ known, Inside m.2 (.arr (given.map Prod.snd)) := by
      intro m hm
      obtain ⟨g, hg, rfl⟩ := List.mem_map.mp hm
      exact inside_arr (List.mem_map_of_mem hg)
    have left : ∀ f ∈ given.map Prod.fst ++ rest, f ∉ given.map Prod.fst → f.Omissible := by
      intro f hf outside
      exact omitted f ((List.mem_append.mp hf).resolve_left outside)
    obtain ⟨-, answers⟩ := answer_of_perm distinct (List.sublist_append_left _ rest) accepted left
      (.refl known) inside
    refine ⟨known, ?_, answers⟩
    rw [record?, zip_values, if_pos (by simp)]

end Json

/-! ## The law of a decoder -/

section Laws

variable {α : Type} {written : α → Json → Prop} {decode : Nat → Json → Option α}

/-- Every way to write a value is read as the value if the levels of nesting that are left
suffice. -/
def Understands {α : Type} (written : α → Json → Prop) (decode : Nat → Json → Option α) : Prop :=
  ∀ {a : α} {j : Json} {room : Nat}, written a j → j.isSound = true → j.depth ≤ room →
    decode room j = some a

def ListWritten {α : Type} (written : α → Json → Prop) (xs : List α) (j : Json) : Prop :=
  ∃ items, j = .arr items ∧ List.Forall₂ written xs items

theorem mapM_of_forall₂ {β : Type} {R : α → β → Prop} {f : β → Option α} {xs : List α}
    {ys : List β} (h : List.Forall₂ R xs ys) (hf : ∀ x ∈ xs, ∀ y ∈ ys, R x y → f y = some x) :
    ys.mapM f = some xs := by
  induction h with
  | nil => rfl
  | @cons x y xs ys hr _ ih =>
    have rest := ih fun x' hx y' hy => hf x' (by simp [hx]) y' (by simp [hy])
    rw [List.mapM_cons, hf x (by simp) y (by simp) hr, rest]
    rfl

theorem Understands.listOf (h : Understands written decode) {xs : List α} {j : Json} {room : Nat}
    (list : ListWritten written xs j) (sound : j.isSound = true) (fits : j.depth ≤ room + 1) :
    listOf (decode room) j = some xs := by
  obtain ⟨items, rfl, all⟩ := list
  apply mapM_of_forall₂ all
  intro x _ item hi hw
  have inside := Json.inside_arr hi
  exact h hw (inside.isSound sound) (Nat.le_of_lt_succ (Nat.lt_of_lt_of_le inside.depth_lt fits))

end Laws

def NameSet.WrittenAs (set : NameSet) (j : Json) : Prop :=
  ∃ names, j = ofStrings names ∧ ∀ name, name ∈ names ↔ name ∈ set.toList

namespace NameSet

theorem mem_toList_ofList {names : List String} {name : String} :
    name ∈ (ofList names).toList ↔ name ∈ names := by
  have folded (set : NameSet) : name ∈ (names.foldl insert set).toList ↔
      name ∈ set.toList ∨ name ∈ names := by
    induction names generalizing set with
    | nil => simp
    | cons first rest ih =>
      rw [List.foldl_cons, ih, mem_toList_insert, List.mem_cons]
      tauto
  simpa [ofList, empty] using folded empty

theorem ofList_eq {set : NameSet} {names : List String}
    (h : ∀ name, name ∈ names ↔ name ∈ set.toList) : ofList names = set := by
  ext1
  apply List.Pairwise.eq_of_mem_iff (ofList names).ascending set.ascending
  intro name
  rw [mem_toList_ofList, h]

end NameSet

/-! ## The fields of a record -/

namespace Json.Answer

variable {j : Json} {members : List (String × Json)} {key : String}

theorem text {s : String} (h : Answer j members ⟨key, (· = .str s), False⟩) :
    required text? key members = some s := by
  rcases h with ⟨found, rfl, -⟩ | ⟨-, ⟨⟩⟩
  rw [required, found]
  rfl

theorem texts {names : List String}
    (h : Answer j members ⟨key, (· = ofStrings names), False⟩) :
    required texts key members = some names := by
  rcases h with ⟨found, rfl, -⟩ | ⟨-, ⟨⟩⟩
  rw [required, found]
  exact texts_ofStrings names

theorem optionalTexts {names : List String}
    (h : Answer j members ⟨key, (· = ofStrings names), names = []⟩) :
    optional Json.texts key members = some names := by
  rcases h with ⟨found, rfl, -⟩ | ⟨found, rfl⟩
  · simp only [optional, found, texts_ofStrings]
  · simp only [optional, found]

theorem names {set : NameSet} (h : Answer j members ⟨key, set.WrittenAs, set = .empty⟩) :
    ∃ names, optional Json.texts key members = some names ∧ NameSet.ofList names = set := by
  rcases h with ⟨found, ⟨names, rfl, same⟩, -⟩ | ⟨found, rfl⟩
  · exact ⟨names, by simp only [optional, found, texts_ofStrings], NameSet.ofList_eq same⟩
  · exact ⟨[], by simp only [optional, found], rfl⟩

variable {α : Type} {written : α → Json → Prop} {decode : Nat → Json → Option α} {room : Nat}

theorem record {a : α} (h : Answer j members ⟨key, written a, False⟩)
    (law : Understands written decode) (sound : j.isSound = true) (fits : j.depth ≤ room) :
    required (decode (room - 1)) key members = some a := by
  rcases h with ⟨found, form, inside⟩ | ⟨-, ⟨⟩⟩
  have depth := inside.depth_lt
  rw [required, found]
  exact law form (inside.isSound sound) (by omega)

theorem list {xs : List α} (h : Answer j members ⟨key, ListWritten written xs, xs = []⟩)
    (law : Understands written decode) (sound : j.isSound = true) (fits : j.depth ≤ room) :
    optional (listOf (decode (room - 2))) key members = some xs := by
  rcases h with ⟨found, form, inside⟩ | ⟨found, rfl⟩
  · have depth := inside.depth_lt
    simp only [optional, found]
    exact law.listOf form (inside.isSound sound) (by omega)
  · simp only [optional, found]

end Json.Answer

/-! ## Trees -/

namespace Tree

mutual

def WrittenAs : Tree → Json → Prop
  | mk label slots => Json.RecordForm [
      ⟨"name", (· = .str label), False⟩,
      ⟨"children", fun j => ∃ items, j = .arr items ∧ SlotsWritten slots items, slots = []⟩]

def SlotsWritten : List (Slot Tree) → List Json → Prop
  | [], items => items = []
  | s :: rest, items => ∃ j others, items = j :: others ∧ SlotWritten s j ∧ SlotsWritten rest others

def SlotWritten : Slot Tree → Json → Prop
  | .absent, j => j = .null
  | .text s, j => j = .str s
  | .node t, j => WrittenAs t j

end

def forms (t : Tree) : List Json.FieldForm := [
  ⟨"name", (· = .str t.label), False⟩,
  ⟨"children", ListWritten SlotWritten t.slots, t.slots = []⟩]

theorem slotsWritten_iff {slots : List (Slot Tree)} {items : List Json} :
    SlotsWritten slots items ↔ List.Forall₂ SlotWritten slots items := by
  induction slots generalizing items with
  | nil => simp [SlotsWritten]
  | cons s rest ih =>
    simp only [SlotsWritten, ih]
    constructor
    · rintro ⟨j, others, rfl, first, more⟩
      exact .cons first more
    · rintro (_ | ⟨first, more⟩)
      exact ⟨_, _, rfl, first, more⟩

theorem writtenAs_iff {t : Tree} {j : Json} : t.WrittenAs j ↔ Json.RecordForm t.forms j := by
  cases t
  simp only [WrittenAs, slotsWritten_iff]
  rfl

theorem draftOf?_filter (members : List (String × Json)) (d : Draft) :
    draftOf? members d = draftOf? (members.filter fun m => fieldNames.contains m.1) d := by
  induction members generalizing d with
  | nil => rfl
  | cons m rest ih =>
    by_cases name : m.1 = "name"
    · simp [draftOf?, fieldNames, name, ih]
    · by_cases children : m.1 = "children"
      · simp [draftOf?, fieldNames, children, ih]
      · simp [draftOf?, fieldNames, name, children, ih]

theorem finish_draftOf? {members : List (String × Json)} {label : String}
    {slots : List (Slot Tree)} (known : ∀ m ∈ members, m.1 ∈ fieldNames)
    (once : (members.map Prod.fst).Nodup)
    (name : required Json.text? "name" members = some label)
    (children : Json.optional slotListOfWhole? "children" members = some slots) :
    (draftOf? members {}).bind Draft.finish = some (mk label slots) := by
  simp only [fieldNames, List.mem_cons, List.not_mem_nil, or_false] at known
  rcases members with _ | ⟨⟨key, j⟩, _ | ⟨⟨other, k⟩, _ | ⟨n, rest⟩⟩⟩
  · cases name
  · rcases known _ (.head _) with rfl | rfl
    · simp_all [required, Json.optional, draftOf?, Draft.setLabel, Draft.finish, List.lookup_cons]
    · simp_all [required, List.lookup_cons]
  · rcases known _ (.head _) with rfl | rfl <;> rcases known _ (.tail _ (.head _)) with rfl | rfl
    · simp at once
    · simp_all [required, Json.optional, draftOf?, Draft.setLabel, Draft.setSlots, Draft.finish,
        List.lookup_cons]
    · simp_all [required, Json.optional, draftOf?, Draft.setLabel, Draft.setSlots, Draft.finish,
        List.lookup_cons]
    · simp at once
  -- Three members cannot have different names.
  · have first := known (key, j) (by simp)
    have second := known (other, k) (by simp)
    have third := known n (by simp)
    simp only [List.map_cons, List.nodup_cons, List.mem_cons, not_or] at once
    grind

theorem slotOfWhole?_of_record {j : Json} {members : List (String × Json)} {label : String}
    {slots : List (Slot Tree)} (record : j.record? fieldNames = some members)
    (name : required Json.text? "name" members = some label)
    (children : Json.optional slotListOfWhole? "children" members = some slots) :
    slotOfWhole? j = some (.node (mk label slots)) := by
  cases j with
  | obj all =>
    simp only [Json.record?, Option.ite_none_right_eq_some, Option.some.injEq] at record
    obtain ⟨once, rfl⟩ := record
    have known : ∀ m ∈ all.filter fun m => fieldNames.contains m.1, m.1 ∈ fieldNames := by
      intro m hm
      exact List.contains_iff_mem.mp (List.mem_filter.mp hm).2
    have finished := finish_draftOf? known once name children
    rw [← draftOf?_filter] at finished
    obtain ⟨d, draft, tree⟩ := Option.bind_eq_some_iff.mp finished
    simp [slotOfWhole?, draft, tree]
  | arr items =>
    simp only [Json.record?, Option.ite_none_right_eq_some, Option.some.injEq] at record
    obtain ⟨few, rfl⟩ := record
    rcases items with _ | ⟨first, _ | ⟨second, _ | ⟨third, rest⟩⟩⟩
    · cases name
    · cases Json.eq_str_of_text? name
      cases children
      rfl
    · cases Json.eq_str_of_text? name
      cases second with
      | arr others =>
        have read : slotsOfWhole? others = some slots := children
        simp [slotOfWhole?, read]
      | _ => cases children
    · simp [fieldNames] at few
  | _ => cases record

theorem slotsOfWhole?_eq (items : List Json) : slotsOfWhole? items = items.mapM slotOfWhole? := by
  induction items with
  | nil => rfl
  | cons j rest ih => rw [slotsOfWhole?, ih, List.mapM_cons]

theorem slotOfWhole?_of_written (s : Slot Tree) {j : Json} (h : SlotWritten s j) :
    slotOfWhole? j = some s := by
  induction s using slot_induction generalizing j with
  | absent =>
    cases h
    rfl
  | text s =>
    cases h
    rfl
  | node t ih =>
    obtain ⟨members, record, answers⟩ :=
      (writtenAs_iff.mp h).read (show fieldNames.Nodup by decide) rfl
    simp only [forms, List.forall_mem_cons] at answers
    obtain ⟨name, children, -⟩ := answers
    have slots : Json.optional slotListOfWhole? "children" members = some t.slots := by
      rcases children with ⟨found, ⟨items, rfl, all⟩, -⟩ | ⟨found, empty⟩
      · simp only [Json.optional, found, slotListOfWhole?, slotsOfWhole?_eq]
        exact mapM_of_forall₂ all fun s hs item _ written => ih s hs written
      · simp only [Json.optional, found]
        exact congrArg some empty.symm
    rw [slotOfWhole?_of_record record name.text slots]
    exact congrArg (some ∘ Slot.node) t.ofRow_row

theorem slot_understood : Understands SlotWritten slotOfJson? := by
  intro s j room written sound fits
  have room : j.fits room = true := by simp [Json.fits, sound, fits]
  rw [slotOfJson?, if_pos room, slotOfWhole?_of_written s written]

theorem understood : Understands WrittenAs ofJson? := by
  intro t j room written sound fits
  obtain ⟨members, record, answers⟩ :=
    (writtenAs_iff.mp written).read (show fieldNames.Nodup by decide) rfl
  simp only [forms, List.forall_mem_cons] at answers
  obtain ⟨name, children, -⟩ := answers
  have whole : mk t.label t.slots = t := t.ofRow_row
  simp [ofJson?, record, name.text, children.list slot_understood sound fits, whole]

end Tree

/-! ## Classes, hierarchies and bundles -/

namespace FieldDecl

def forms (f : FieldDecl) : List Json.FieldForm := [
  ⟨"modifiers", f.modifiers.WrittenAs, f.modifiers = .empty⟩,
  ⟨"field_type", f.type.WrittenAs, False⟩,
  ⟨"declarators", (· = ofStrings f.names), False⟩]

def WrittenAs (f : FieldDecl) : Json → Prop := Json.RecordForm f.forms

theorem understood : Understands WrittenAs ofJson? := by
  intro f j room written sound fits
  obtain ⟨members, record, answers⟩ := written.read (show fieldNames.Nodup by decide) rfl
  simp only [forms, List.forall_mem_cons] at answers
  obtain ⟨modifiers, type, names, -⟩ := answers
  obtain ⟨listed, read, same⟩ := modifiers.names
  simp [ofJson?, record, read, same, type.record Tree.understood sound fits, names.texts]

end FieldDecl

namespace MethodDecl

def forms (m : MethodDecl) : List Json.FieldForm := [
  ⟨"modifiers", m.modifiers.WrittenAs, m.modifiers = .empty⟩,
  ⟨"return_type", m.result.WrittenAs, False⟩,
  ⟨"name", (· = .str m.name), False⟩,
  ⟨"parameters", (· = ofStrings m.parameters), m.parameters = []⟩,
  ⟨"parameter_types", ListWritten Tree.WrittenAs m.parameterTypes, m.parameterTypes = []⟩]

def WrittenAs (m : MethodDecl) : Json → Prop := Json.RecordForm m.forms

theorem understood : Understands WrittenAs ofJson? := by
  intro m j room written sound fits
  obtain ⟨members, record, answers⟩ := written.read (show fieldNames.Nodup by decide) rfl
  simp only [forms, List.forall_mem_cons] at answers
  obtain ⟨modifiers, result, name, parameters, types, -⟩ := answers
  obtain ⟨listed, read, same⟩ := modifiers.names
  simp [ofJson?, record, read, same, result.record Tree.understood sound fits, name.text,
    parameters.optionalTexts, types.list Tree.understood sound fits]

end MethodDecl

namespace ConstructorDecl

def forms (c : ConstructorDecl) : List Json.FieldForm := [
  ⟨"modifiers", c.modifiers.WrittenAs, c.modifiers = .empty⟩,
  ⟨"parameters", (· = ofStrings c.parameters), c.parameters = []⟩,
  ⟨"parameter_types", ListWritten Tree.WrittenAs c.parameterTypes, c.parameterTypes = []⟩]

def WrittenAs (c : ConstructorDecl) : Json → Prop := Json.RecordForm c.forms

theorem understood : Understands WrittenAs ofJson? := by
  intro c j room written sound fits
  obtain ⟨members, record, answers⟩ := written.read (show fieldNames.Nodup by decide) rfl
  simp only [forms, List.forall_mem_cons] at answers
  obtain ⟨modifiers, parameters, types, -⟩ := answers
  obtain ⟨listed, read, same⟩ := modifiers.names
  simp [ofJson?, record, read, same, parameters.optionalTexts,
    types.list Tree.understood sound fits]

end ConstructorDecl

namespace ClassDecl

def forms (c : ClassDecl) : List Json.FieldForm := [
  ⟨"class_name", (· = .str c.name), False⟩,
  ⟨"parent_class_name", (· = .str c.parent), False⟩,
  ⟨"fields", ListWritten FieldDecl.WrittenAs c.fields, c.fields = []⟩,
  ⟨"methods", ListWritten MethodDecl.WrittenAs c.methods, c.methods = []⟩,
  ⟨"constructors", ListWritten ConstructorDecl.WrittenAs c.constructors, c.constructors = []⟩]

def WrittenAs (c : ClassDecl) : Json → Prop := Json.RecordForm c.forms

theorem understood : Understands WrittenAs ofJson? := by
  intro c j room written sound fits
  obtain ⟨members, record, answers⟩ := written.read (show fieldNames.Nodup by decide) rfl
  simp only [forms, List.forall_mem_cons] at answers
  obtain ⟨name, parent, fields, methods, constructors, -⟩ := answers
  simp [ofJson?, record, name.text, parent.text, fields.list FieldDecl.understood sound fits,
    methods.list MethodDecl.understood sound fits,
    constructors.list ConstructorDecl.understood sound fits]

end ClassDecl

namespace ClassMap

def WrittenAs (m : ClassMap) (j : Json) : Prop :=
  ∃ members, j = .obj members ∧
    List.Forall₂ (fun e member => member.1 = e.1 ∧ e.2.WrittenAs member.2) m.entries members

theorem understood : Understands WrittenAs ofJson? := by
  intro m j room written sound fits
  obtain ⟨members, rfl, all⟩ := written
  have entries : (members.mapM fun member => do
      return (member.1, ← ClassDecl.ofJson? (room - 1) member.2)) = some m.entries := by
    apply mapM_of_forall₂ all
    rintro e - member mem ⟨key, form⟩
    have inside := Json.inside_obj mem
    have depth := inside.depth_lt
    rw [ClassDecl.understood form (inside.isSound sound) (by omega), key]
    rfl
  have read : ofJson? room (.obj members) = (do
      return ofEntries (← members.mapM fun member => do
        return (member.1, ← ClassDecl.ofJson? (room - 1) member.2))) := rfl
  rw [read, entries]
  simp

end ClassMap

namespace Hierarchy

def forms (h : Hierarchy) : List Json.FieldForm := [
  ⟨"classes", h.classes.WrittenAs, False⟩,
  ⟨"packages", (· = ofStrings h.packages), h.packages = []⟩]

def WrittenAs (h : Hierarchy) : Json → Prop := Json.RecordForm h.forms

theorem understood : Understands WrittenAs ofJson? := by
  intro h j room written sound fits
  obtain ⟨members, record, answers⟩ := written.read (show fieldNames.Nodup by decide) rfl
  simp only [forms, List.forall_mem_cons] at answers
  obtain ⟨classes, packages, -⟩ := answers
  simp [ofJson?, record, classes.record ClassMap.understood sound fits, packages.optionalTexts]

end Hierarchy

namespace Bundle

def forms (b : Bundle) : List Json.FieldForm := [
  ⟨"packages", (· = ofStrings b.packages), b.packages = []⟩,
  ⟨"classes", ListWritten ClassDecl.WrittenAs b.classes, b.classes = []⟩,
  ⟨"units", ListWritten Tree.WrittenAs b.units, b.units = []⟩,
  ⟨"lowered", ListWritten Tree.WrittenAs b.lowered, b.lowered = []⟩]

def WrittenAs (b : Bundle) : Json → Prop := Json.RecordForm b.forms

theorem understood : Understands WrittenAs ofJson? := by
  intro b j room written sound fits
  obtain ⟨members, record, answers⟩ := written.read (show fieldNames.Nodup by decide) rfl
  simp only [forms, List.forall_mem_cons] at answers
  obtain ⟨packages, classes, units, lowered, -⟩ := answers
  simp [ofJson?, record, packages.optionalTexts, classes.list ClassDecl.understood sound fits,
    units.list Tree.understood sound fits, lowered.list Tree.understood sound fits]

end Bundle

/-! ## Texts -/

/-- `read` gives `value a` for each text of each way to write `a` that nests arrays and objects at
most 127 deep. -/
def ReadsForms {α β : Type} (written : α → Json → Prop) (read : String → β) (value : α → β) :
    Prop :=
  ∀ (a : α) (j : Json) (text : String) (levels : Nat), written a j → Json.TextOf j text →
    Json.nesting? text = some levels → levels ≤ 127 → read text = value a

theorem Understands.readsForms {α : Type} {written : α → Json → Prop}
    {decode : Nat → Json → Option α} (law : Understands written decode) :
    ReadsForms written (decodeText decode) some := by
  intro a j text levels form spelled nesting fits
  have depth : j.depth = levels := by
    rw [spelled.writes.nesting?_eq] at nesting
    exact Option.some.inj nesting
  rw [decodeText, spelled.writes.parse?_eq]
  exact law form spelled.isSound (depth ▸ fits)

/-- However each record is written, as an object or as an array, in whatever order and with whatever
else in it, a text that is not nested too deep is read as the value. -/
theorem record_forms_read :
    ReadsForms Tree.WrittenAs (decodeText Tree.ofJson?) some ∧
    ReadsForms Tree.SlotWritten (decodeText Tree.slotOfJson?) some ∧
    ReadsForms FieldDecl.WrittenAs (decodeText FieldDecl.ofJson?) some ∧
    ReadsForms MethodDecl.WrittenAs (decodeText MethodDecl.ofJson?) some ∧
    ReadsForms ConstructorDecl.WrittenAs (decodeText ConstructorDecl.ofJson?) some ∧
    ReadsForms ClassDecl.WrittenAs (decodeText ClassDecl.ofJson?) some ∧
    ReadsForms Hierarchy.WrittenAs (decodeText Hierarchy.ofJson?) some ∧
    ReadsForms Bundle.WrittenAs (decodeText Bundle.ofJson?) some ∧
    ReadsForms Bundle.WrittenAs Bundle.read .ok := by
  have bundles := Bundle.understood.readsForms
  refine ⟨Tree.understood.readsForms, Tree.slot_understood.readsForms,
    FieldDecl.understood.readsForms, MethodDecl.understood.readsForms,
    ConstructorDecl.understood.readsForms, ClassDecl.understood.readsForms,
    Hierarchy.understood.readsForms, bundles, ?_⟩
  intro b j text levels form spelled nesting fits
  have decoded := bundles b j text levels form spelled nesting fits
  rw [decodeText] at decoded
  rw [Bundle.read, decoded]

namespace Samples

def ringType : Tree := .mk "Type" [.node (.mk "Dimensions" []), .absent, .text "int"]

def ringField : FieldDecl where
  modifiers := .ofList ["final", "private"]
  type := ringType
  names := ["r"]

def ringBundle : Bundle := { classes := [{ name := "Ring", parent := "", fields := [ringField] }] }

def ringTypeJson : Json :=
  .arr [.str "Type", .arr [ofStrings ["Dimensions"], .null, .str "int"]]

def ringFieldJson : Json := .obj [
  ("line", .null),
  ("declarators", ofStrings ["r"]),
  ("field_type", ringTypeJson),
  ("modifiers", ofStrings ["private", "final", "private"])]

def ringClassJson : Json := .arr [.str "Ring", .str "", .arr [ringFieldJson]]

def ringBundleJson : Json := .obj [
  ("classes", .arr [ringClassJson]),
  ("version", .arr [.bool true, .number "-7"])]

def ringText : String :=
  "\x7b\"classes\":" ++ (Json.arr [ringClassJson]).compact ++ ",\"version\" : [true, -7]\x7d\n"

theorem ringType_written : ringType.WrittenAs ringTypeJson := by
  have dimensions : Tree.WrittenAs (.mk "Dimensions" []) (ofStrings ["Dimensions"]) :=
    @Json.RecordForm.array _ [(_, .str "Dimensions")] [_] rfl (by simp) (by simp)
  refine @Json.RecordForm.array _ [(_, .str "Type"), (_, .arr _)] [] rfl ?_ (by simp)
  simp [Tree.SlotsWritten, Tree.SlotWritten, dimensions]

theorem ringField_written : ringField.WrittenAs ringFieldJson := by
  refine @Json.RecordForm.object _ [(_, ofStrings _), (_, ringTypeJson), (_, ofStrings _)]
    [("line", .null)] _ (.refl _) ?_ (by simp [FieldDecl.forms]) (by simp [FieldDecl.forms])
    (List.reverse_perm _).symm
  have modifiers : (NameSet.ofList ["final", "private"]).WrittenAs
      (ofStrings ["private", "final", "private"]) := by
    refine ⟨["private", "final", "private"], rfl, fun name => ?_⟩
    simp only [NameSet.mem_toList_ofList, List.mem_cons, List.not_mem_nil]
    tauto
  simp [ringField, ringType_written, modifiers]

theorem ringBundle_written : ringBundle.WrittenAs ringBundleJson := by
  have class_written : ClassDecl.WrittenAs { name := "Ring", parent := "", fields := [ringField] }
      ringClassJson := by
    refine @Json.RecordForm.array _ [(_, .str "Ring"), (_, .str ""), (_, .arr [ringFieldJson])]
      [_, _] rfl ?_ (by simp)
    simp [ListWritten, ringField_written]
  refine @Json.RecordForm.object _ [(_, .arr [ringClassJson])]
    [("version", .arr [.bool true, .number "-7"])] _
    (.cons _ (.cons_cons _ (List.nil_sublist _))) ?_ ?_ (by simp [Bundle.forms]) (.refl _)
  · simp [ringBundle, ListWritten, class_written]
  · simp [ringBundle, Bundle.forms]

theorem ringText_spelled : Json.TextOf ringBundleJson ringText := by
  have space : Json.Blank " " := List.all_eq_true.mp rfl
  have number : Json.TextOf (.number "-7") " -7" := by
    have digits : Json.IsInteger "-7".toList :=
      ⟨['7'], .inr rfl, by decide, List.all_eq_true.mp rfl, by decide, by decide⟩
    exact .blanks space Json.blank_empty (.integer digits)
  have version : Json.TextOf (.arr [.bool true, .number "-7"]) " [true, -7]" := by
    have parts : ∀ part ∈ [(Json.bool true, "true"), (.number "-7", " -7")],
        Json.TextOf part.1 part.2 := by
      simp [Json.TextOf.yes, number]
    exact .blanks space Json.blank_empty (.arr parts)
  have classes : Json.Textual (.arr [ringClassJson]) := by
    have children : Json.Textual (.arr [ofStrings ["Dimensions"], .null, .str "int"]) :=
      .arr (by simp [Json.Textual.str, Json.Textual.null])
    have type : Json.Textual ringTypeJson := .arr (by simp [Json.Textual.str, children])
    have field : Json.Textual ringFieldJson := .obj (by simp [Json.Textual.null, type])
    have fields : Json.Textual (.arr [ringFieldJson]) := .arr (by simp [field])
    have ring : Json.Textual ringClassJson := .arr (by simp [Json.Textual.str, fields])
    exact .arr (by simp [ring])
  have key : Json.TextOf (.str "version") "\"version\" " :=
    .blanks Json.blank_empty space (Json.textOf_quote "version")
  let parts : List Json.MemberText := [
    ⟨"classes", "\"classes\"", .arr [ringClassJson], (Json.arr [ringClassJson]).compact⟩,
    ⟨"version", "\"version\" ", .arr [.bool true, .number "-7"], " [true, -7]"⟩]
  have names : ∀ part ∈ parts, Json.TextOf (.str part.key) part.name := by
    simp [parts, key]
    exact Json.textOf_quote "classes"
  have values : ∀ part ∈ parts, Json.TextOf part.value part.text := by
    simp [parts, version, classes.textOf_compact]
  have all := Json.TextOf.blanks Json.blank_empty Json.blank_newline (.obj names values)
  have text : ringText = "" ++ ("\x7b" ++ Text.joinWith ","
      (parts.map fun part => part.name ++ ":" ++ part.text) ++ "\x7d") ++ "\n" := by
    decide +kernel
  rw [text]
  exact all

theorem ring_forms : ringBundle.WrittenAs ringBundleJson ∧ Json.TextOf ringBundleJson ringText ∧
    Json.nesting? ringText = some 8 ∧ Bundle.read ringText = .ok ringBundle := by
  have nesting : Json.nesting? ringText = some 8 := ringText_spelled.writes.nesting?_eq
  obtain ⟨-, -, -, -, -, -, -, -, read⟩ := record_forms_read
  exact ⟨ringBundle_written, ringText_spelled, nesting,
    read _ _ _ _ ringBundle_written ringText_spelled nesting (by decide)⟩

end Samples

end ClassLowering
