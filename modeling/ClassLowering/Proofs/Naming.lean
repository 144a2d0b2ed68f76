import ClassLowering.Layout.Unit
import ClassLowering.Proofs.Printing.TypeText

/-!
# Generated names

The name of a record is made in several ways: by marking the name of the class, by marking the last
segment of a path, by cutting the name of the class out of a dotted name, and by way of a type. For
a class whose name is one word they all give the same name, whatever the packages are called.
-/

set_option autoImplicit false

namespace ClassLowering

namespace Text

/-! ## Cutting at the last mark -/

theorem cutScope_eq_none {cs : List Char} (h : ':' ∉ cs) : cutScope cs = none := by
  induction cs with
  | nil => rfl
  | cons c rest ih =>
    obtain ⟨hc, hr⟩ := not_or.mp (mt List.mem_cons.mpr h)
    unfold cutScope
    simp only [ih hr]
    split
    · exact absurd rfl hc
    · rfl

theorem cutScope_append (scope : List Char) {name : List Char} (h : ':' ∉ name) :
    cutScope (scope ++ ':' :: ':' :: name) = some (scope, name) := by
  induction scope with
  | nil =>
    -- of the two colons the first one starts the mark, since nothing follows the second one
    have second : cutScope (':' :: name) = none := by
      unfold cutScope
      simp only [cutScope_eq_none h]
      split
      · simp at h
      · rfl
    rw [List.nil_append]
    unfold cutScope
    simp only [second]
  | cons c scope ih =>
    rw [List.cons_append]
    unfold cutScope
    simp only [ih]

theorem segments_eq_single {mark : Char} {cs : List Char} (h : mark ∉ cs) :
    segments mark cs = [cs] := by
  induction cs with
  | nil => rfl
  | cons c rest ih =>
    obtain ⟨hc, hr⟩ := not_or.mp (mt List.mem_cons.mpr h)
    have hc' : ¬c = mark := fun e => hc e.symm
    rw [segments, if_neg hc', ih hr]

theorem segments_ne_nil (mark : Char) (cs : List Char) : segments mark cs ≠ [] := by
  cases cs with
  | nil => simp [segments]
  | cons c rest =>
    unfold segments
    split
    · simp
    · split <;> simp

theorem segments_append (mark : Char) (before after : List Char) :
    segments mark (before ++ mark :: after) = segments mark before ++ segments mark after := by
  induction before with
  | nil => simp [segments]
  | cons c before ih =>
    rw [List.cons_append, segments, segments, ih]
    by_cases hc : c = mark
    · simp [hc]
    · simp only [hc, if_false]
      cases hs : segments mark before with
      | nil => exact absurd hs (segments_ne_nil mark before)
      | cons first more => rfl

theorem splitOn_eq_single {mark : Char} {s : String} (h : mark ∉ s.toList) :
    splitOn mark s = [s] := by
  rw [splitOn, segments_eq_single h]
  simp

theorem afterLast_append {mark : Char} (before : String) {s : String} (h : mark ∉ s.toList) :
    afterLast mark (before ++ String.singleton mark ++ s) = s := by
  have pieces : segments mark (before ++ String.singleton mark ++ s).toList =
      segments mark before.toList ++ [s.toList] := by
    simp [segments_append, segments_eq_single h]
  rw [afterLast, splitOn, pieces]
  simp

theorem joinWith_concat (mark : String) (texts : List String) (last : String) :
    joinWith mark (texts ++ [last]) =
      if texts = [] then last else joinWith mark texts ++ mark ++ last := by
  induction texts with
  | nil => rfl
  | cons s rest ih =>
    cases rest with
    | nil => rfl
    | cons next rest =>
      simp only [List.cons_append, joinWith] at ih ⊢
      rw [ih]
      simp [String.append_assoc]

end Text

/-! ## Records -/

namespace Naming

/-- A name of one word that is not the name of a type of another kind. -/
def IsClassName (name : String) : Prop :=
  '.' ∉ name.toList ∧ ':' ∉ name.toList ∧ name ≠ "void" ∧ name ∉ Tree.primitives

instance (name : String) : Decidable (IsClassName name) :=
  inferInstanceAs (Decidable (_ ∧ _ ∧ _ ∧ _))

variable {name : String}

theorem recordPath_eq (h : IsClassName name) : recordPath name = "__" ++ name := by
  rw [recordPath, Text.cutScope_eq_none h.2.1]
  rfl

theorem recordPath_qualified (h : IsClassName name) (packages : List String) :
    recordPath (qualifiedName packages name "::") =
      Text.joinWith "::" (packages ++ ["__" ++ name]) := by
  rw [qualifiedName, Text.joinWith_concat, Text.joinWith_concat]
  split
  · exact recordPath_eq h
  · have path : (Text.joinWith "::" packages ++ "::" ++ name).toList =
        (Text.joinWith "::" packages).toList ++ ':' :: ':' :: name.toList := by
      simp
    rw [recordPath, path, Text.cutScope_append _ h.2.1]
    simp only [String.ofList_toList, marker, String.append_assoc]

theorem afterLast_qualified (h : IsClassName name) (packages : List String) :
    Text.afterLast '.' (qualifiedName packages name ".") = name := by
  rw [qualifiedName, Text.joinWith_concat]
  split
  · rw [Text.afterLast, Text.splitOn_eq_single h.1]
    rfl
  · exact Text.afterLast_append _ h.1

/-! ## Types -/

variable (runtime : RuntimeSettings)

theorem typeName_eq (h : IsClassName name) : runtime.typeName name 0 = name := by
  have simple : Tree.primitives.contains name = false := by simpa using h.2.2.2
  rw [RuntimeSettings.typeName, if_neg h.2.2.1, simple, Text.splitOn_eq_single h.1]
  rfl

theorem isClassName_marked {s : String} (dot : '.' ∉ s.toList) (colon : ':' ∉ s.toList) :
    IsClassName ("__" ++ s) := by
  have other {t : String} (ht : t.toList.head? ≠ some '_') : "__" ++ s ≠ t := by
    rintro rfl
    simp at ht
  refine ⟨by simpa using dot, by simpa using colon, other (by decide), ?_⟩
  intro hm
  have plain : ∀ t ∈ Tree.primitives, t.toList.head? ≠ some '_' := by decide
  exact other (plain _ hm) rfl

end Naming

end ClassLowering
