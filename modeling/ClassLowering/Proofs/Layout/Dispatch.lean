import ClassLowering.Layout.Dispatch
import ClassLowering.Proofs.Hierarchy.Order

/-!
# What a dispatch table holds

Name and parameter types are the key of a slot. Placing a method changes no key that is there and
adds at most one at the end, so the keys stay distinct and a table keeps the slot positions of the
tables it grew from. The content of a slot is the last of the placed methods with its key. Read
along a lineage, the last one belongs to the class that a look-up from the bottom of the lineage
meets first.
-/

set_option autoImplicit false

namespace ClassLowering

theorem eraseDups_concat {κ : Type} [BEq κ] [LawfulBEq κ] (keys : List κ) (k : κ)
    [Decidable (k ∈ keys)] :
    (keys ++ [k]).eraseDups = if k ∈ keys then keys.eraseDups else keys.eraseDups ++ [k] := by
  rw [List.eraseDups_append]
  by_cases h : k ∈ keys
  · simp [List.removeAll, h]
  · simp [List.removeAll, h, List.eraseDups_cons]

namespace DispatchSlot

def key (s : DispatchSlot) : String × List Tree := (s.name, s.parameterTypes)

theorem sharesWith_iff {a b : DispatchSlot} : a.sharesWith b = true ↔ a.key = b.key := by
  simp [sharesWith, key]

/-! ## One placement -/

theorem keys_place (slot : DispatchSlot) (slots : List DispatchSlot) :
    (slot.place slots).map key =
      if slot.key ∈ slots.map key then slots.map key else slots.map key ++ [slot.key] := by
  induction slots with
  | nil => simp [place]
  | cons first rest ih =>
    by_cases h : first.key = slot.key
    · simp [place, sharesWith_iff.mpr h, h]
    · have hs : ¬first.sharesWith slot = true := fun e => h (sharesWith_iff.mp e)
      have h' : ¬slot.key = first.key := fun e => h e.symm
      simp only [place, if_neg hs, List.map_cons, ih, List.mem_cons, h', false_or]
      split <;> rfl

theorem keys_prefix_place (slot : DispatchSlot) (slots : List DispatchSlot) :
    slots.map key <+: (slot.place slots).map key := by
  rw [keys_place]
  split
  · exact List.prefix_refl _
  · exact List.prefix_append _ _

theorem keys_place_nodup (slot : DispatchSlot) {slots : List DispatchSlot}
    (hn : (slots.map key).Nodup) : ((slot.place slots).map key).Nodup := by
  rw [keys_place]
  split
  · exact hn
  · next hk =>
    apply List.nodup_append.mpr
    refine ⟨hn, by simp, ?_⟩
    intro a ha b hb e
    apply hk
    rwa [← List.mem_singleton.mp hb, ← e]

theorem mem_place_iff {slot other : DispatchSlot} {slots : List DispatchSlot}
    (hn : (slots.map key).Nodup) :
    other ∈ slot.place slots ↔ other = slot ∨ other ∈ slots ∧ other.key ≠ slot.key := by
  induction slots with
  | nil => simp [place]
  | cons first rest ih =>
    obtain ⟨hf, hr⟩ := List.nodup_cons.mp hn
    by_cases h : first.key = slot.key
    · have hrest : other ∈ rest → other.key ≠ slot.key := fun ho e =>
        hf (List.mem_map.mpr ⟨other, ho, e.trans h.symm⟩)
      simp only [place, sharesWith_iff.mpr h, if_true, List.mem_cons]
      constructor
      · exact Or.imp_right fun ho => ⟨.inr ho, hrest ho⟩
      · rintro (ho | ⟨rfl | ho, hk⟩)
        · exact .inl ho
        · exact absurd h hk
        · exact .inr ho
    · have hs : ¬first.sharesWith slot = true := fun e => h (sharesWith_iff.mp e)
      simp only [place, if_neg hs, List.mem_cons, ih hr]
      constructor
      · rintro (rfl | ho | ⟨ho, hk⟩)
        · exact .inr ⟨.inl rfl, h⟩
        · exact .inl ho
        · exact .inr ⟨.inr ho, hk⟩
      · rintro (ho | ⟨ho | ho, hk⟩)
        · exact .inr (.inl ho)
        · exact .inl ho
        · exact .inr (.inr ⟨ho, hk⟩)

/-! ## A run of placements -/

def placeAll (candidates slots : List DispatchSlot) : List DispatchSlot :=
  candidates.foldl (fun slots slot => slot.place slots) slots

theorem placeAll_append (first second slots : List DispatchSlot) :
    placeAll (first ++ second) slots = placeAll second (placeAll first slots) :=
  List.foldl_append

theorem keys_prefix_placeAll (candidates slots : List DispatchSlot) :
    slots.map key <+: (placeAll candidates slots).map key := by
  induction candidates generalizing slots with
  | nil => exact List.prefix_refl _
  | cons c rest ih => exact (keys_prefix_place c slots).trans (ih (c.place slots))

theorem keys_placeAll_nodup (candidates : List DispatchSlot) {slots : List DispatchSlot}
    (hn : (slots.map key).Nodup) : ((placeAll candidates slots).map key).Nodup := by
  induction candidates generalizing slots with
  | nil => exact hn
  | cons c rest ih => exact ih (keys_place_nodup c hn)

theorem mem_keys_placeAll (candidates slots : List DispatchSlot) (k : String × List Tree) :
    k ∈ (placeAll candidates slots).map key ↔ k ∈ slots.map key ∨ k ∈ candidates.map key := by
  induction candidates generalizing slots with
  | nil => simp [placeAll]
  | cons c rest ih =>
    have hc : placeAll (c :: rest) slots = placeAll rest (c.place slots) := rfl
    rw [hc, ih, keys_place, List.map_cons, List.mem_cons]
    split
    · next hk => grind
    · rw [List.mem_append, List.mem_singleton, or_assoc]

theorem getElem?_of_prefix_keys {slots others : List DispatchSlot}
    (h : slots.map key <+: others.map key) {i : Nat} {u : DispatchSlot} (hu : slots[i]? = some u) :
    ∃ v, others[i]? = some v ∧ v.key = u.key := by
  obtain ⟨rest, hr⟩ := h
  have hi : i < (slots.map key).length := by simpa using (List.getElem?_eq_some_iff.mp hu).1
  have hk : (others.map key)[i]? = some u.key := by
    rw [← hr, List.getElem?_append_left hi, List.getElem?_map, hu]
    rfl
  simpa [List.getElem?_map] using hk

/-- `slot` is the last of the candidates with its key. -/
def Prevails (slot : DispatchSlot) (candidates : List DispatchSlot) : Prop :=
  ∃ earlier later, candidates = earlier ++ slot :: later ∧ ∀ s ∈ later, s.key ≠ slot.key

theorem prevails_append {slot : DispatchSlot} {first second : List DispatchSlot} :
    Prevails slot (first ++ second) ↔
      Prevails slot second ∨ Prevails slot first ∧ ∀ s ∈ second, s.key ≠ slot.key := by
  constructor
  · rintro ⟨earlier, later, h, hl⟩
    rcases List.append_eq_append_iff.mp h with ⟨front, rfl, rfl⟩ | ⟨back, rfl, hb⟩
    · exact .inl ⟨front, later, rfl, hl⟩
    · cases back with
      | nil => exact .inl ⟨[], later, by simpa using hb.symm, hl⟩
      | cons b back =>
        obtain ⟨rfl, rfl⟩ := List.cons.inj hb
        exact .inr ⟨⟨earlier, back, rfl, fun s hs => hl s (by simp [hs])⟩,
          fun s hs => hl s (by simp [hs])⟩
  · rintro (⟨earlier, later, rfl, hl⟩ | ⟨⟨earlier, later, rfl, hl⟩, hs⟩)
    · exact ⟨first ++ earlier, later, by simp, hl⟩
    · refine ⟨earlier, later ++ second, by simp, ?_⟩
      intro s h
      exact (List.mem_append.mp h).elim (hl s) (hs s)

theorem prevails_singleton {slot other : DispatchSlot} : Prevails slot [other] ↔ slot = other := by
  constructor
  · rintro ⟨earlier, later, h, -⟩
    have hm : slot ∈ [other] := by simp [h]
    exact List.mem_singleton.mp hm
  · rintro rfl
    exact ⟨[], [], rfl, by simp⟩

/-- After a run a slot holds the last candidate with its key, or what it held if there was none. -/
theorem mem_placeAll_iff {slot : DispatchSlot} {candidates slots : List DispatchSlot}
    (hn : (slots.map key).Nodup) :
    slot ∈ placeAll candidates slots ↔
      Prevails slot candidates ∨ slot ∈ slots ∧ ∀ s ∈ candidates, s.key ≠ slot.key := by
  induction candidates generalizing slots with
  | nil =>
    have hp : ¬Prevails slot [] := by
      rintro ⟨earlier, later, h, -⟩
      simp at h
    simp [placeAll, hp]
  | cons c rest ih =>
    have hc : placeAll (c :: rest) slots = placeAll rest (c.place slots) := rfl
    rw [hc, ih (keys_place_nodup c hn), mem_place_iff hn, ← List.singleton_append,
      prevails_append, prevails_singleton]
    simp only [List.singleton_append, List.forall_mem_cons, or_and_right, or_assoc, and_assoc]
    rw [ne_comm (a := slot.key)]

end DispatchSlot

/-! ## Look-up along a lineage -/

namespace ClassDecl

def candidates (c : ClassDecl) : List DispatchSlot :=
  (c.methods.filter (!·.isStatic)).map (.ofMethod c.name)

def implements (c : ClassDecl) (name : String) (types : List Tree) : Bool :=
  c.methods.any fun f => !f.isStatic && f.name = name && f.parameterTypes = types

/-- The class whose method a call on an object reaches: the first that implements it, going up from
the object's own class at the end of the chain. -/
def resolve (chain : List ClassDecl) (name : String) (types : List Tree) : Option ClassDecl :=
  chain.reverse.find? (·.implements name types)

theorem mem_of_resolve {chain : List ClassDecl} {name : String} {types : List Tree} {c : ClassDecl}
    (h : resolve chain name types = some c) : c ∈ chain :=
  List.mem_reverse.mp (List.mem_of_find?_eq_some h)

theorem mem_candidates_iff {c : ClassDecl} {slot : DispatchSlot} :
    slot ∈ c.candidates ↔ ∃ f ∈ c.methods, f.isStatic = false ∧ slot = .ofMethod c.name f := by
  simp only [candidates, List.mem_map, List.mem_filter, Bool.not_eq_true', and_assoc]
  exact exists_congr fun f => and_congr_right fun _ => and_congr_right fun _ => eq_comm

theorem implements_iff {c : ClassDecl} {name : String} {types : List Tree} :
    c.implements name types = true ↔ ∃ slot ∈ c.candidates, slot.key = (name, types) := by
  simp only [implements, List.any_eq_true, Bool.and_eq_true, Bool.not_eq_true', decide_eq_true_eq,
    mem_candidates_iff]
  constructor
  · rintro ⟨f, hf, ⟨hs, hn⟩, ht⟩
    exact ⟨_, ⟨f, hf, hs, rfl⟩, by simp [DispatchSlot.key, DispatchSlot.ofMethod, hn, ht]⟩
  · rintro ⟨_, ⟨f, hf, hs, rfl⟩, hk⟩
    obtain ⟨hn, ht⟩ := Prod.mk.inj hk
    exact ⟨f, hf, ⟨hs, hn⟩, ht⟩

theorem resolve_cons (c : ClassDecl) (chain : List ClassDecl) (name : String) (types : List Tree) :
    resolve (c :: chain) name types =
      (resolve chain name types).or (if c.implements name types then some c else none) := by
  simp only [resolve, List.reverse_cons, List.find?_append, List.find?_cons, List.find?_nil]
  split <;> simp_all

theorem resolve_of_prevails {chain : List ClassDecl} {slot : DispatchSlot}
    (h : slot.Prevails (chain.flatMap candidates)) :
    ∃ c, resolve chain slot.name slot.parameterTypes = some c ∧ slot ∈ c.candidates := by
  induction chain with
  | nil =>
    obtain ⟨earlier, later, h, -⟩ := h
    simp at h
  | cons c rest ih =>
    rw [List.flatMap_cons, DispatchSlot.prevails_append] at h
    rw [resolve_cons]
    rcases h with h | ⟨⟨earlier, later, he, -⟩, hrest⟩
    · obtain ⟨d, hd, hs⟩ := ih h
      exact ⟨d, by simp [hd], hs⟩
    · have hc : slot ∈ c.candidates := by simp [he]
      have none_below : resolve rest slot.name slot.parameterTypes = none := by
        rw [resolve, List.find?_eq_none]
        intro d hd hi
        obtain ⟨s, hs, hk⟩ := implements_iff.mp hi
        exact hrest s (List.mem_flatMap.mpr ⟨d, List.mem_reverse.mp hd, hs⟩) hk
      have here := implements_iff.mpr ⟨slot, hc, rfl⟩
      exact ⟨c, by simp [none_below, here], hc⟩

end ClassDecl

namespace DispatchTable

open DispatchSlot

theorem foldl_extend (chain : List ClassDecl) (slots : List DispatchSlot) :
    chain.foldl extend slots = placeAll (chain.flatMap ClassDecl.candidates) slots := by
  induction chain generalizing slots with
  | nil => rfl
  | cons c rest ih =>
    rw [List.foldl_cons, ih, List.flatMap_cons, placeAll_append]
    congr 1
    rw [extend, placeAll, ClassDecl.candidates, List.foldl_map]

theorem of_eq_ok_iff {m : ClassMap} {c : ClassDecl} {t : DispatchTable} :
    DispatchTable.of m c = .ok t ↔ ∃ chain, m.lineage c = .ok chain ∧
      t = ⟨c, placeAll (chain.flatMap ClassDecl.candidates) []⟩ := by
  simp only [DispatchTable.of, bind_eq_ok, pure_eq_ok, foldl_extend]
  exact exists_congr fun chain => and_congr_right fun _ => eq_comm

theorem resolve_slot {chain : List ClassDecl} {slot : DispatchSlot}
    (h : slot ∈ placeAll (chain.flatMap ClassDecl.candidates) []) :
    ∃ c, ClassDecl.resolve chain slot.name slot.parameterTypes = some c ∧ slot ∈ c.candidates := by
  rcases (mem_placeAll_iff (by simp)).mp h with h | ⟨h, -⟩
  · exact ClassDecl.resolve_of_prevails h
  · simp at h

/-- A call through a slot of the table of an ancestor, on an object of a descendant, reaches the
method that look-up from the descendant finds: the tables agree on what the slot stands for, and
the descendant's entry is the method of the nearest class that implements it. -/
theorem upcast_reaches_resolved {m : ClassMap} {d : ClassDecl} {t : DispatchTable}
    (ht : DispatchTable.of m d = .ok t) :
    ∃ chain, m.lineage d = .ok chain ∧ ∀ a ∈ chain, ∃ s, DispatchTable.of m a = .ok s ∧
      s.slots.length ≤ t.slots.length ∧
      ∀ (i : Nat) (u : DispatchSlot), s.slots[i]? = some u → ∃ v : DispatchSlot,
        t.slots[i]? = some v ∧ v.name = u.name ∧ v.parameterTypes = u.parameterTypes ∧
        ∃ c, ClassDecl.resolve chain u.name u.parameterTypes = some c ∧ v.implementor = c.name ∧
          ∃ f ∈ c.methods, f.isStatic = false ∧ v = .ofMethod c.name f := by
  obtain ⟨chain, hc, rfl⟩ := of_eq_ok_iff.mp ht
  refine ⟨chain, hc, ?_⟩
  intro a ha
  obtain ⟨above, below, rfl⟩ := List.append_of_mem ha
  refine ⟨_, of_eq_ok_iff.mpr ⟨_, ClassMap.lineage_upper hc, rfl⟩, ?_⟩
  -- the table of the descendant grows from that of the ancestor
  have split : placeAll ((above ++ a :: below).flatMap ClassDecl.candidates) [] =
      placeAll (below.flatMap ClassDecl.candidates)
        (placeAll ((above ++ [a]).flatMap ClassDecl.candidates) []) := by
    rw [← placeAll_append, ← List.flatMap_append, List.append_assoc, List.singleton_append]
  have keys := keys_prefix_placeAll (below.flatMap ClassDecl.candidates)
    (placeAll ((above ++ [a]).flatMap ClassDecl.candidates) [])
  rw [← split] at keys
  refine ⟨by simpa using keys.length_le, ?_⟩
  intro i u hu
  obtain ⟨v, hv, hk⟩ := getElem?_of_prefix_keys keys hu
  obtain ⟨hn, hp⟩ := Prod.mk.inj hk
  obtain ⟨c, hr, hm⟩ := resolve_slot (List.mem_of_getElem? hv)
  obtain ⟨f, hf, hs, rfl⟩ := ClassDecl.mem_candidates_iff.mp hm
  exact ⟨_, hv, hn, hp, c, by rw [← hn, ← hp, hr], rfl, f, hf, hs, rfl⟩

end DispatchTable

/-! ## Three classes -/

namespace Shapes

def int : Tree := .typeRef "int" 0

def area : MethodDecl := { result := int, name := "area" }

def shape : ClassDecl where
  name := "Shape"
  parent := Naming.noParent
  fields := [{ type := int, names := ["id"] },
    { modifiers := .ofList ["static"], type := int, names := ["made"] }]
  methods := [area, { modifiers := .ofList ["static"], result := int, name := "count" }]

def circle : ClassDecl where
  name := "Circle"
  parent := "Shape"
  fields := [{ modifiers := .ofList ["static"], type := int, names := ["unit"] },
    { type := int, names := ["x", "y"] }]
  methods := [area, { result := int, name := "count" }]

def disc : ClassDecl where
  name := "Disc"
  parent := "Circle"
  methods := [{ area with modifiers := .ofList ["static"] }, area.addParameter "scale" int]

def registered : ClassMap := .ofClasses [disc, shape, circle]

theorem lineage_disc : registered.lineage disc = .ok [shape, circle, disc] := by
  decide +kernel

theorem disc_area_through_shape :
    ∃ t, DispatchTable.of registered disc = .ok t ∧ ∃ s, DispatchTable.of registered shape = .ok s ∧
      s.slots[0]? = some (.ofMethod "Shape" area) ∧
      ∃ v, t.slots[0]? = some v ∧ v.name = "area" ∧ v.implementor = "Circle" := by
  have ht := DispatchTable.of_eq_ok_iff.mpr ⟨_, lineage_disc, rfl⟩
  obtain ⟨chain, hl, h⟩ := DispatchTable.upcast_reaches_resolved ht
  obtain rfl := Except.ok.inj (lineage_disc.symm.trans hl)
  obtain ⟨s, hs, -, hi⟩ := h shape (by simp)
  have h0 : s.slots[0]? = some (.ofMethod "Shape" area) := by
    obtain ⟨_, hs', rfl⟩ := DispatchTable.of_eq_ok_iff.mp hs
    have hup : registered.lineage shape = .ok [shape] := by decide +kernel
    obtain rfl := Except.ok.inj (hup.symm.trans hs')
    decide +kernel
  obtain ⟨v, hv, hn, -, c, hc, hv', -⟩ := hi 0 _ h0
  have hr : ClassDecl.resolve [shape, circle, disc] "area" [] = some circle := by decide +kernel
  obtain rfl := Option.some.inj (hr.symm.trans hc)
  exact ⟨_, ht, s, hs, h0, v, hv, hn, hv'⟩

end Shapes

end ClassLowering
