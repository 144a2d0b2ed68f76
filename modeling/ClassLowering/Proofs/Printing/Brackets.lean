import ClassLowering.Printing.Declaration
import ClassLowering.Proofs.Tree.Parents
import ClassLowering.Proofs.Tree.Row

/-!
# Brackets in texts

A text is balanced if every bracket is closed by one of its own shape, the innermost first. Brackets
are followed through a text by a `Meter`, one character at a time: by a stack of those that are
open, or just by the number of open braces. Names and types are put together from the texts in the
slots of a tree and from names that the settings give, without any bracket of their own. So if
brackets of some sort are missing from those texts, they are missing from all names and types.
-/

set_option autoImplicit false

namespace ClassLowering

open Text (joinWith concat)

namespace Brackets

inductive Shape where
  | round
  | curly
  deriving DecidableEq

def isBracket (c : Char) : Bool := c = '(' || c = ')' || c = '\x7b' || c = '\x7d'

def step (opened : List Shape) (c : Char) : Option (List Shape) :=
  if c = '(' then some (.round :: opened)
  else if c = '\x7b' then some (.curly :: opened)
  else if c = ')' then
    match opened with
    | .round :: outer => some outer
    | _ => none
  else if c = '\x7d' then
    match opened with
    | .curly :: outer => some outer
    | _ => none
  else some opened

def after (opened : List Shape) (s : String) : Option (List Shape) := s.toList.foldlM step opened

def Balanced (s : String) : Prop := after [] s = some []

def Lacks (marks : Char → Bool) (s : String) : Prop := s.toList.all (fun c => !marks c) = true

instance (marks : Char → Bool) (s : String) : Decidable (Lacks marks s) :=
  inferInstanceAs (Decidable (_ = true))

section Lacks

variable {marks : Char → Bool}

@[simp] theorem lacks_append {s t : String} :
    Lacks marks (s ++ t) ↔ Lacks marks s ∧ Lacks marks t := by
  simp [Lacks]

theorem lacks_concat {texts : List String} (h : ∀ s ∈ texts, Lacks marks s) :
    Lacks marks (concat texts) := by
  induction texts with
  | nil => rfl
  | cons s rest ih =>
    simp only [concat, lacks_append]
    exact ⟨h s (by simp), ih fun t ht => h t (by simp [ht])⟩

theorem lacks_joinWith {mark : String} (hm : Lacks marks mark) {texts : List String}
    (h : ∀ s ∈ texts, Lacks marks s) : Lacks marks (joinWith mark texts) := by
  induction texts with
  | nil => rfl
  | cons s rest ih =>
    cases rest with
    | nil => exact h s (by simp)
    | cons t rest =>
      simp only [joinWith, lacks_append]
      exact ⟨⟨h s (by simp), hm⟩, ih fun u hu => h u (by simp [hu])⟩

theorem lacks_replicate (n : Nat) {s : String} (h : Lacks marks s) :
    Lacks marks (Text.replicate n s) := by
  apply lacks_concat
  intro t ht
  rwa [List.eq_of_mem_replicate ht]

theorem lacks_of_subset {s : String} (h : Lacks marks s) {cs : List Char} (sub : cs ⊆ s.toList) :
    Lacks marks (.ofList cs) := by
  have chars := List.all_eq_true.mp h
  simp only [Lacks, String.toList_ofList, List.all_eq_true]
  intro c hc
  exact chars c (sub hc)

theorem Lacks.mono (only : ∀ c, marks c = true → isBracket c = true) {s : String}
    (h : Lacks isBracket s) : Lacks marks s := by
  have chars := List.all_eq_true.mp h
  simp only [Lacks, List.all_eq_true, Bool.not_eq_true']
  intro c hc
  cases hm : marks c with
  | false => rfl
  | true => simpa [only c hm] using chars c hc

end Lacks

end Brackets

/-! ## Names -/

theorem Text.cutScope_eq_some {cs scope name : List Char} (h : cutScope cs = some (scope, name)) :
    cs = scope ++ ':' :: ':' :: name := by
  induction cs generalizing scope with
  | nil => cases h
  | cons c rest ih =>
    unfold cutScope at h
    split at h
    · next inner last hr =>
      cases h
      rw [ih hr]
      rfl
    · split at h
      · cases h
        rfl
      · cases h

theorem Text.segments_subset (mark : Char) (cs : List Char) :
    ∀ segment ∈ segments mark cs, segment ⊆ cs := by
  induction cs with
  | nil => simp [segments]
  | cons c rest ih =>
    unfold segments
    intro segment hs
    split at hs
    · rcases List.mem_cons.mp hs with rfl | hs
      · simp
      · exact List.Subset.trans (ih segment hs) (List.subset_cons_self c rest)
    · split at hs
      · obtain rfl := List.mem_singleton.mp hs
        simp
      · next first more hr =>
        rw [hr] at ih
        rcases List.mem_cons.mp hs with rfl | hs
        · exact List.cons_subset_cons c (ih first (by simp))
        · exact List.Subset.trans (ih segment (by simp [hs])) (List.subset_cons_self c rest)

namespace Brackets

section Lacks

variable {marks : Char → Bool} (only : ∀ c, marks c = true → isBracket c = true)

include only in
theorem lacks_recordPath {path : String} (h : Lacks marks path) :
    Lacks marks (Naming.recordPath path) := by
  have marker : Lacks marks Naming.marker := Lacks.mono only (by decide)
  unfold Naming.recordPath
  split
  · next scope name hc =>
    have whole := Text.cutScope_eq_some hc
    have hs : Lacks marks (.ofList scope) := lacks_of_subset h (by simp [whole])
    have hn : Lacks marks (.ofList name) := by
      apply lacks_of_subset h
      rw [whole]
      intro c hc
      simp [hc]
    simp only [lacks_append]
    exact ⟨⟨⟨hs, Lacks.mono only (by decide)⟩, marker⟩, hn⟩
  · exact lacks_append.mpr ⟨marker, h⟩

theorem lacks_afterLast (mark : Char) {s : String} (h : Lacks marks s) :
    Lacks marks (Text.afterLast mark s) := by
  have all : ∀ t ∈ Text.splitOn mark s, Lacks marks t := by
    intro t ht
    obtain ⟨segment, hs, rfl⟩ := List.mem_map.mp ht
    exact lacks_of_subset h (Text.segments_subset mark s.toList segment hs)
  unfold Text.afterLast
  rw [List.getLastD_eq_getLast?]
  cases hl : (Text.splitOn mark s).getLast? with
  | none => exact h
  | some t => exact all t (List.mem_of_getLast? hl)

include only in
theorem lacks_primitiveText {name : String} (h : Lacks marks name) :
    Lacks marks (primitiveText name) := by
  unfold primitiveText
  split
  case h_6 => exact h
  all_goals exact Lacks.mono only (by decide)

include only in
theorem lacks_arrayOf {runtime : RuntimeSettings} (ha : Lacks marks runtime.arrayType)
    {base : String} (hb : Lacks marks base) (dims : Nat) :
    Lacks marks (runtime.arrayOf base dims) := by
  induction dims with
  | zero => exact hb
  | succ dims ih =>
    simp only [RuntimeSettings.arrayOf, lacks_append]
    exact ⟨⟨⟨ha, Lacks.mono only (by decide)⟩, ih⟩, Lacks.mono only (by decide)⟩

end Lacks

end Brackets

/-! ## Trees and settings without brackets -/

def Settings.strings (s : Settings) : List String :=
  [s.output.dir, s.output.header, s.output.implementation, s.output.entryPoint, s.runtime.header,
    s.runtime.base, s.runtime.arrayTemplate, s.runtime.arrayType, s.runtime.literal]
    ++ s.entry.mainClass.toList

def Tree.scalars : Tree → List String :=
  fold fun r => r.slots.flatMap fun
    | .absent => []
    | .text s => [s]
    | .node p => p.2

def Tree.Lacks (marks : Char → Bool) (t : Tree) : Prop := ∀ s ∈ t.scalars, Brackets.Lacks marks s

structure Row.Lacks (marks : Char → Bool) (r : Row Tree) : Prop where
  texts : ∀ s, Slot.text s ∈ r.slots → Brackets.Lacks marks s
  nodes : ∀ t, Slot.node t ∈ r.slots → t.Lacks marks

theorem Tree.mem_scalars {t : Tree} {s : String} : s ∈ t.scalars ↔
    Slot.text s ∈ t.slots ∨ ∃ c, Slot.node c ∈ t.slots ∧ s ∈ c.scalars := by
  rw [scalars, fold_eq]
  simp only [Row.map, List.flatMap_map, List.mem_flatMap]
  constructor
  · rintro ⟨slot, hs, hm⟩
    cases slot with
    | absent => cases hm
    | text u =>
      obtain rfl := List.mem_singleton.mp hm
      exact .inl hs
    | node c => exact .inr ⟨c, hs, hm⟩
  · rintro (hs | ⟨c, hc, hs⟩)
    · exact ⟨_, hs, by simp [Slot.map]⟩
    · exact ⟨_, hc, hs⟩

theorem Tree.Lacks.row {marks : Char → Bool} {t : Tree} (h : t.Lacks marks) :
    t.row.Lacks marks where
  texts s hs := h s (mem_scalars.mpr (.inl hs))
  nodes c hc := fun s hs => h s (mem_scalars.mpr (.inr ⟨c, hc, hs⟩))

theorem Row.Lacks.ofRow {marks : Char → Bool} {r : Row Tree} (h : r.Lacks marks) :
    (Tree.ofRow r).Lacks marks := by
  intro s hs
  rcases Tree.mem_scalars.mp hs with ht | ⟨c, hc, hs⟩
  · exact h.texts s ht
  · exact h.nodes c hc s hs

theorem Tree.Lacks.children {marks : Char → Bool} {t c : Tree} (h : t.Lacks marks)
    (hc : c ∈ t.children) : c.Lacks marks :=
  h.row.nodes c (Row.mem_children.mp hc)

theorem Tree.Lacks.node {marks : Char → Bool} {t c : Tree} (h : t.Lacks marks) {index : Nat}
    (hc : t.slots[index]? = some (.node c)) : c.Lacks marks :=
  h.row.nodes c (List.mem_of_getElem? hc)

section Lacks

variable {marks : Char → Bool} (only : ∀ c, marks c = true → Brackets.isBracket c = true)

namespace Row.Lacks

variable {r : Row Tree} (h : r.Lacks marks) {index : Nat} {what : String}

include h

theorem text {s : String} (hs : r.text index what = .ok s) : Brackets.Lacks marks s :=
  h.texts s (List.mem_of_getElem? (text_eq_ok.mp hs))

theorem child {t : Tree} (ht : r.child index what = .ok t) : t.Lacks marks :=
  h.nodes t (List.mem_of_getElem? (child_eq_ok.mp ht))

theorem child? {t : Tree} (ht : r.child? index what = .ok (some t)) : t.Lacks marks :=
  h.child (child_of_child? ht)

include only in
theorem qualifiedText {s : String} (hs : r.qualifiedText = .ok s) : Brackets.Lacks marks s := by
  obtain ⟨segments, hm, hs⟩ := bind_eq_ok.mp hs
  rw [← pure_eq_ok.mp hs]
  apply Brackets.lacks_joinWith (Brackets.Lacks.mono only (by decide))
  intro segment hseg
  obtain ⟨i, -, hi⟩ := exists_of_mem_mapM hm hseg
  exact h.text hi

end Row.Lacks

namespace Tree

include only

theorem lacks_typeText {runtime : RuntimeSettings} (ha : Brackets.Lacks marks runtime.arrayType)
    {t : Tree} (h : t.Lacks marks) {s : String} (hs : t.typeText runtime = .ok s) :
    Brackets.Lacks marks s := by
  induction t using Tree.induction generalizing s with
  | step t ih =>
    rw [typeText, fold_eq, typeRule, Row.kind_map] at hs
    simp only [Row.text_map, Row.child_map, Row.child?_map, Row.qualifiedText_map, map_eq_bind,
      bind_assoc, ok_bind] at hs
    split at hs
    · rw [← pure_eq_ok.mp hs]
      exact Brackets.Lacks.mono only (by decide)
    · obtain ⟨name, hn, hs⟩ := bind_eq_ok.mp hs
      rw [← pure_eq_ok.mp hs]
      exact Brackets.lacks_primitiveText only (h.row.text hn)
    · exact h.row.qualifiedText only hs
    · obtain ⟨base, hb, hs⟩ := bind_eq_ok.mp hs
      obtain ⟨text, ht, hs⟩ := bind_eq_ok.mp hs
      have lacks := ih 0 base (Row.child_eq_ok.mp hb) (h.row.child hb) ht
      obtain ⟨dims, hd, hs⟩ := bind_eq_ok.mp hs
      cases dims with
      | none =>
        rw [← pure_eq_ok.mp hs]
        exact lacks
      | some d =>
        rw [← pure_eq_ok.mp hs]
        exact Brackets.lacks_arrayOf only ha lacks _
    · cases hs

theorem lacks_recordText {t : Tree} (h : t.Lacks marks) {s : String} (hs : t.recordText = .ok s) :
    Brackets.Lacks marks s := by
  induction t using Tree.induction generalizing s with
  | step t ih =>
    rw [recordText, fold_eq, recordRule, Row.kind_map] at hs
    simp only [Row.text_map, Row.child_map, Row.qualifiedText_map, map_eq_bind, bind_assoc,
      ok_bind] at hs
    split at hs
    · obtain ⟨base, hb, hs⟩ := bind_eq_ok.mp hs
      exact ih 0 base (Row.child_eq_ok.mp hb) (h.row.child hb) hs
    · obtain ⟨path, hp, hs⟩ := bind_eq_ok.mp hs
      rw [← pure_eq_ok.mp hs]
      exact Brackets.lacks_recordPath only (h.row.qualifiedText only hp)
    · obtain ⟨path, hp, hs⟩ := bind_eq_ok.mp hs
      rw [← pure_eq_ok.mp hs]
      exact Brackets.lacks_recordPath only (h.row.text hp)
    · cases hs

end Tree

namespace Row.Lacks

variable {r : Row Tree} (h : r.Lacks marks) {index : Nat} {what : String}

include h only

theorem typeText {runtime : RuntimeSettings} (ha : Brackets.Lacks marks runtime.arrayType)
    {s : String} (hs : (do (← r.child index what).typeText runtime) = .ok s) :
    Brackets.Lacks marks s := by
  obtain ⟨t, ht, hs⟩ := bind_eq_ok.mp hs
  exact Tree.lacks_typeText only ha (h.child ht) hs

theorem recordText {s : String} (hs : (do (← r.child index what).recordText) = .ok s) :
    Brackets.Lacks marks s := by
  obtain ⟨t, ht, hs⟩ := bind_eq_ok.mp hs
  exact Tree.lacks_recordText only (h.child ht) hs

end Row.Lacks

end Lacks

/-! ## Following brackets -/

def isBrace (c : Char) : Bool := c = '\x7b' || c = '\x7d'

/-- A way to follow brackets through a text. It takes notice of some brackets, and always sees how
many levels of braces are open. -/
structure Meter (σ : Type) where
  marks : Char → Bool
  step : σ → Char → Option σ
  round : σ → σ
  curly : σ → σ
  level : σ → Int
  only : ∀ c, marks c = true → Brackets.isBracket c = true
  plain : ∀ a c, marks c = false → step a c = some a
  open_round : ∀ a, step a '(' = some (round a)
  close_round : ∀ a, step (round a) ')' = some a
  open_curly : ∀ a, step a '\x7b' = some (curly a)
  close_curly : ∀ a, step (curly a) '\x7d' = some a
  level_round : ∀ a, level (round a) = level a
  level_curly : ∀ a, level (curly a) = level a + 1

namespace Meter

open Brackets (isBracket Lacks Shape)

def brackets : Meter (List Shape) where
  marks := isBracket
  step := Brackets.step
  round := (.round :: ·)
  curly := (.curly :: ·)
  level opened := opened.count .curly
  only _ h := h
  plain opened c h := by
    simp only [isBracket, Bool.or_eq_false_iff, decide_eq_false_iff_not] at h
    simp [Brackets.step, h]
  open_round _ := rfl
  close_round _ := rfl
  open_curly _ := rfl
  close_curly _ := rfl
  level_round _ := by simp
  level_curly _ := by simp

def braces : Meter Int where
  marks := isBrace
  step k c := some (if c = '\x7b' then k + 1 else if c = '\x7d' then k - 1 else k)
  round := id
  curly := (· + 1)
  level := id
  only c h := by
    simp only [isBrace, Bool.or_eq_true, decide_eq_true_eq] at h
    rcases h with rfl | rfl <;> rfl
  plain k c h := by
    simp only [isBrace, Bool.or_eq_false_iff, decide_eq_false_iff_not] at h
    simp [h]
  open_round _ := rfl
  close_round _ := rfl
  open_curly _ := rfl
  close_curly k := by simp
  level_round _ := rfl
  level_curly _ := rfl

variable {σ : Type} (m : Meter σ)

def read (opened : σ) (s : String) : Option σ := s.toList.foldlM m.step opened

/-- A text that leaves what is open as it was, wherever it stands. -/
def Keeps (s : String) : Prop := ∀ opened, m.read opened s = some opened

theorem read_append (opened : σ) (s t : String) :
    m.read opened (s ++ t) = (m.read opened s).bind (m.read · t) := by
  simp only [read, String.toList_append, List.foldlM_append]
  rfl

theorem step_of_not_bracket (opened : σ) {c : Char} (h : isBracket c = false) :
    m.step opened c = some opened := by
  apply m.plain
  cases hm : m.marks c with
  | false => rfl
  | true => simpa [h] using m.only c hm

theorem lacks {s : String} (h : Lacks isBracket s) : Lacks m.marks s := h.mono m.only

variable {m}

theorem keeps_of_lacks {s : String} (h : Lacks m.marks s) : m.Keeps s := by
  intro opened
  have chars := List.all_eq_true.mp h
  unfold read
  generalize s.toList = cs at chars
  induction cs with
  | nil => rfl
  | cons c cs ih =>
    have hc : m.marks c = false := by simpa using chars c (by simp)
    rw [List.foldlM_cons, m.plain opened c hc]
    exact ih fun d hd => chars d (by simp [hd])

theorem keeps_plain {s : String} (h : Lacks isBracket s) : m.Keeps s := keeps_of_lacks (m.lacks h)

namespace Keeps

theorem chars {s : String} (h : m.Keeps s) (opened : σ) :
    s.toList.foldlM m.step opened = some opened := h opened

theorem append {s t : String} (hs : m.Keeps s) (ht : m.Keeps t) : m.Keeps (s ++ t) := by
  intro opened
  rw [read_append, hs opened]
  exact ht opened

theorem joinWith {mark : String} (hm : m.Keeps mark) {texts : List String}
    (h : ∀ s ∈ texts, m.Keeps s) : m.Keeps (joinWith mark texts) := by
  induction texts with
  | nil => exact fun _ => rfl
  | cons s rest ih =>
    cases rest with
    | nil => exact h s (by simp)
    | cons t rest =>
      exact ((h s (by simp)).append hm).append (ih fun u hu => h u (by simp [hu]))

end Keeps

theorem braces_read (k : Int) (s : String) :
    braces.read k s = some (k + (s.toList.count '\x7b' - s.toList.count '\x7d')) := by
  unfold read
  generalize s.toList = cs
  induction cs generalizing k with
  | nil => simp
  | cons c cs ih =>
    rw [List.foldlM_cons]
    change List.foldlM braces.step _ cs = _
    rw [ih]
    simp only [List.count_cons, Int.natCast_add, Option.some.injEq]
    by_cases ho : c = '\x7b'
    · simp [ho]
      omega
    · by_cases hc : c = '\x7d'
      · simp [hc]
        omega
      · simp [ho, hc]

end Meter

end ClassLowering
