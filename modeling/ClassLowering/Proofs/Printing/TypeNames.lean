import ClassLowering.Proofs.Layout.Dispatch
import ClassLowering.Proofs.Naming
import Mathlib.Data.List.Forall2

/-!
# Types and their names

A type that is built from a name and a number of dimensions can be read back: no two names give the
same type, and only `void` forgets its dimensions. So methods that are told apart by the types of
their parameters are told apart by names and dimensions. In print, every dot of a name becomes `::`
and every dimension an array type around it. Both rest on one law of splitting and joining: a name
that is cut at its dots and joined with another mark is the name with that mark for every dot.
-/

set_option autoImplicit false

namespace ClassLowering

namespace Text

/-! ## Cutting and joining -/

def substitute (mark : Char) (text s : String) : String :=
  .ofList (s.toList.flatMap fun c => if c = mark then text.toList else [c])

theorem joinWith_append_cons (mark a b : String) (rest : List String) :
    joinWith mark ((a ++ b) :: rest) = a ++ joinWith mark (b :: rest) := by
  cases rest with
  | nil => rfl
  | cons next rest => simp only [joinWith, String.append_assoc]

theorem joinWith_segments (mark : Char) (text : String) (cs : List Char) :
    joinWith text ((segments mark cs).map .ofList) =
      .ofList (cs.flatMap fun c => if c = mark then text.toList else [c]) := by
  induction cs with
  | nil => rfl
  | cons c rest ih =>
    cases hs : segments mark rest with
    | nil => exact absurd hs (segments_ne_nil mark rest)
    | cons first more =>
      rw [hs, List.map_cons] at ih
      rw [segments, hs, List.flatMap_cons, String.ofList_append, ← ih]
      by_cases hc : c = mark
      · -- the mark ends an empty stretch, and the joint after that one is the new text
        rw [if_pos hc, if_pos hc, String.ofList_toList]
        simp [joinWith]
      · rw [if_neg hc, if_neg hc, List.map_cons, String.ofList_cons, joinWith_append_cons,
          String.singleton_eq_ofList]

theorem joinWith_splitOn (mark : Char) (text s : String) :
    joinWith text (splitOn mark s) = substitute mark text s :=
  joinWith_segments mark text s.toList

theorem substitute_self (mark : Char) (s : String) :
    substitute mark (.singleton mark) s = s := by
  have each : (fun c => if c = mark then (String.singleton mark).toList else [c]) =
      fun c => [c] := by
    funext c
    split
    · next hc => simp [hc]
    · rfl
  rw [substitute, each, List.flatMap_singleton', String.ofList_toList]

theorem splitOn_injective (mark : Char) : Function.Injective (splitOn mark) := by
  intro s t h
  calc s = joinWith (.singleton mark) (splitOn mark s) := by
        rw [joinWith_splitOn, substitute_self]
    _ = joinWith (.singleton mark) (splitOn mark t) := by rw [h]
    _ = t := by rw [joinWith_splitOn, substitute_self]

theorem replicate_succ (n : Nat) (s : String) : replicate (n + 1) s = s ++ replicate n s := rfl

theorem replicate_succ' (n : Nat) (s : String) : replicate (n + 1) s = replicate n s ++ s := by
  rw [replicate, List.replicate_succ', concat_append]
  simp [replicate, concat]

end Text

/-! ## The text of a type -/

namespace RuntimeSettings

variable (runtime : RuntimeSettings)

theorem arrayOf_eq (base : String) (dimensions : Nat) :
    runtime.arrayOf base dimensions =
      Text.replicate dimensions (runtime.arrayType ++ "<") ++ base
        ++ Text.replicate dimensions ">" := by
  induction dimensions with
  | zero => simp [arrayOf, Text.replicate, Text.concat]
  | succ dimensions ih =>
    rw [arrayOf, ih, Text.replicate_succ, Text.replicate_succ' _ ">"]
    simp only [String.append_assoc]

theorem typeName_spelled (name : String) (dimensions : Nat) :
    runtime.typeName name dimensions = if name = "void" then "void"
      else Text.replicate dimensions (runtime.arrayType ++ "<")
        ++ (if name ∈ Tree.primitives then primitiveText name
          else Text.substitute '.' "::" name)
        ++ Text.replicate dimensions ">" := by
  rw [typeName, arrayOf_eq, Text.joinWith_splitOn]
  simp only [List.contains_iff_mem]

end RuntimeSettings

/-! ## Equal types -/

namespace Tree

theorem node_inj {k l : Kind} {ss ts : List (Slot Tree)} :
    node k ss = node l ts ↔ k = l ∧ ss = ts := by
  constructor
  · intro h
    have kinds : (node k ss).kind = (node l ts).kind := congrArg kind h
    rw [kind_node, kind_node] at kinds
    exact ⟨kinds, (mk.inj h).2⟩
  · rintro ⟨rfl, rfl⟩
    rfl

theorem map_text_injective : Function.Injective (List.map (Slot.text (α := Tree))) :=
  List.map_injective_iff.mpr fun _ _ h => Slot.text.inj h

def typeBase (name : String) : Tree :=
  if primitives.contains name then leaf .primitiveType name
  else node .qualifiedIdentifier ((Text.splitOn '.' name).map .text)

def dimensionSlot (dimensions : Nat) : Slot Tree :=
  if dimensions = 0 then .absent
  else .node (node .dimensions (List.replicate dimensions (.text "[")))

theorem typeRef_void (dimensions : Nat) : typeRef "void" dimensions = node .voidType [] := rfl

theorem typeRef_eq {name : String} (h : name ≠ "void") (dimensions : Nat) :
    typeRef name dimensions = node .type [.node (typeBase name), dimensionSlot dimensions] := by
  rw [typeRef, if_neg h]
  rfl

theorem typeBase_injective : Function.Injective typeBase := by
  intro n m h
  unfold typeBase at h
  split at h <;> split at h
  · simpa [leaf, node_inj] using h
  · simp [leaf, node_inj] at h
  · simp [leaf, node_inj] at h
  · exact Text.splitOn_injective '.' (map_text_injective (node_inj.mp h).2)

theorem dimensionSlot_injective : Function.Injective dimensionSlot := by
  intro d e h
  unfold dimensionSlot at h
  split at h <;> split at h
  · next hd he => rw [hd, he]
  · cases h
  · cases h
  · have slots := (node_inj.mp (Slot.node.inj h)).2
    simpa using congrArg List.length slots

/-- The same type by name and dimensions, which do not count for `void`. -/
def SameType (s t : String × Nat) : Prop := s.1 = t.1 ∧ (s.2 = t.2 ∨ s.1 = "void")

theorem typeRef_eq_iff (n m : String) (d e : Nat) :
    typeRef n d = typeRef m e ↔ SameType (n, d) (m, e) := by
  unfold SameType
  -- `void` has a kind of its own and no slots, so dimensions are compared only in the last case
  by_cases hn : n = "void" <;> by_cases hm : m = "void"
  · simp [hn, hm, typeRef_void]
  · simp [hn, Ne.symm hm, typeRef_void, typeRef_eq hm, node_inj]
  · simp [hm, hn, typeRef_void, typeRef_eq hn, node_inj]
  · simp [hn, typeRef_eq hn, typeRef_eq hm, node_inj, typeBase_injective.eq_iff,
      dimensionSlot_injective.eq_iff]

def typeRefs (types : List (String × Nat)) : List Tree := types.map fun t => typeRef t.1 t.2

theorem typeRefs_eq_iff (ss ts : List (String × Nat)) :
    typeRefs ss = typeRefs ts ↔ List.Forall₂ SameType ss ts := by
  rw [← List.forall₂_eq_eq_eq, typeRefs, typeRefs, List.forall₂_map_left_iff,
    List.forall₂_map_right_iff]
  simp only [typeRef_eq_iff]

end Tree

def MethodDecl.taking (f : MethodDecl) (types : List (String × Nat)) : MethodDecl :=
  { f with parameterTypes := Tree.typeRefs types }

theorem DispatchSlot.sharesWith_taking_iff (owner other : String) (f g : MethodDecl)
    (ss ts : List (String × Nat)) :
    (ofMethod owner (f.taking ss)).sharesWith (ofMethod other (g.taking ts)) = true ↔
      f.name = g.name ∧ List.Forall₂ Tree.SameType ss ts := by
  rw [sharesWith_iff, key, key, Prod.mk.injEq, ← Tree.typeRefs_eq_iff]
  rfl

namespace Tree

/-- Two types are equal exactly when name and dimensions are, where the dimensions of `void` do not
count, so methods share a slot exactly when their names and the names and dimensions of their
parameter types agree. Every type has a text, in which the dots of its name are `::` and each
dimension is an array type. -/
theorem typeRef_faithful (n m : String) (d e : Nat) :
    (typeRef n d = typeRef m e ↔ n = m ∧ (d = e ∨ n = "void")) ∧
    (∀ (owner other : String) (f g : MethodDecl) (ss ts : List (String × Nat)),
      (DispatchSlot.ofMethod owner (f.taking ss)).sharesWith (.ofMethod other (g.taking ts)) =
          true ↔
        f.name = g.name ∧
          List.Forall₂ (fun s t => s.1 = t.1 ∧ (s.2 = t.2 ∨ s.1 = "void")) ss ts) ∧
    ∀ runtime : RuntimeSettings,
      (typeRef n d).typeText runtime = .ok (if n = "void" then "void"
        else Text.replicate d (runtime.arrayType ++ "<")
          ++ (if n ∈ primitives then primitiveText n else Text.substitute '.' "::" n)
          ++ Text.replicate d ">") := by
  refine ⟨typeRef_eq_iff n m d e, DispatchSlot.sharesWith_taking_iff, ?_⟩
  intro runtime
  rw [typeText_typeRef, RuntimeSettings.typeName_spelled]

example : (typeRef ".a..b" 2).typeText {} = .ok "__rt::Array<__rt::Array<::a::::b>>" := by decide

end Tree

end ClassLowering
