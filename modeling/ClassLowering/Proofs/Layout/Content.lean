import ClassLowering.Proofs.Hierarchy.Walk

/-!
# Where a slot comes from

The instance methods of a lineage, root first and each with the class that declares it, form one
list. The first method with a key decides the place of the slot for that key, and the last one
decides what the slot holds. Static methods are not in the list and the walk to the root does not
look at methods, so static methods can be added and removed without a trace in any table.
-/

set_option autoImplicit false

namespace ClassLowering

def MethodDecl.key (f : MethodDecl) : String × List Tree := (f.name, f.parameterTypes)

namespace ClassDecl

def instanceMethods (chain : List ClassDecl) : List (ClassDecl × MethodDecl) :=
  chain.flatMap fun c => (c.methods.filter (!·.isStatic)).map fun f => (c, f)

theorem candidates_eq_map (chain : List ClassDecl) :
    chain.flatMap candidates = (instanceMethods chain).map fun p => .ofMethod p.1.name p.2 := by
  rw [instanceMethods, List.map_flatMap]
  congr 1
  funext c
  rw [candidates, List.map_map]
  rfl

/-- The class as it would be without its static methods. -/
def withoutStatics (c : ClassDecl) : ClassDecl :=
  { c with methods := c.methods.filter (!·.isStatic) }

@[simp] theorem parent?_withoutStatics (c : ClassDecl) : c.withoutStatics.parent? = c.parent? := rfl

theorem candidates_withoutStatics (c : ClassDecl) : c.withoutStatics.candidates = c.candidates := by
  simp [candidates, withoutStatics]

end ClassDecl

namespace DispatchSlot

/-- The keys of a run that starts with no slots are those of the candidates, each at its first
place. -/
theorem keys_placeAll (candidates : List DispatchSlot) :
    (placeAll candidates []).map key = (candidates.map key).eraseDups := by
  induction candidates using List.reverseRecOn with
  | nil => rfl
  | append_singleton rest slot ih =>
    have last : placeAll (rest ++ [slot]) [] = slot.place (placeAll rest []) :=
      placeAll_append rest [slot] []
    rw [last, keys_place, ih, List.map_append, List.map_singleton, eraseDups_concat]
    simp only [List.mem_eraseDups]

theorem exists_last_of_prevails {slot : DispatchSlot} {methods : List (ClassDecl × MethodDecl)}
    (h : slot.Prevails (methods.map fun p => .ofMethod p.1.name p.2)) :
    ∃ earlier owner f later, methods = earlier ++ (owner, f) :: later ∧
      (∀ p ∈ later, p.2.key ≠ f.key) ∧ slot = .ofMethod owner.name f := by
  obtain ⟨before, after, split, distinct⟩ := h
  obtain ⟨earlier, rest, rfl, -, tail⟩ := List.map_eq_append_iff.mp split
  obtain ⟨p, later, rfl, rfl, rfl⟩ := List.map_eq_cons_iff.mp tail
  refine ⟨earlier, p.1, p.2, later, rfl, ?_, rfl⟩
  intro q hq
  exact distinct _ (List.mem_map_of_mem hq)

end DispatchSlot

namespace ClassMap

def withoutStatics (m : ClassMap) : ClassMap where
  entries := m.entries.map fun e => (e.1, e.2.withoutStatics)
  distinct := by simpa [Function.comp_def] using m.distinct

theorem get?_withoutStatics (m : ClassMap) (name : String) :
    m.withoutStatics.get? name = (m.get? name).map ClassDecl.withoutStatics := by
  show (m.entries.map _).lookup name = (m.entries.lookup name).map _
  induction m.entries with
  | nil => rfl
  | cons e rest ih =>
    rw [List.map_cons, lookup_cons, lookup_cons, ih]
    split <;> rfl

theorem parentOf_withoutStatics (m : ClassMap) (c : ClassDecl) :
    m.withoutStatics.parentOf c.withoutStatics = (m.parentOf c).map ClassDecl.withoutStatics := by
  rw [parentOf, parentOf, ClassDecl.parent?_withoutStatics]
  cases c.parent? with
  | none => rfl
  | some name => exact m.get?_withoutStatics name

theorem climb_withoutStatics (m : ClassMap) (current : ClassDecl) (below : List ClassDecl) :
    m.withoutStatics.climb current.withoutStatics (below.map ClassDecl.withoutStatics) =
      (m.climb current below).map (List.map ClassDecl.withoutStatics) := by
  have names (chain : List ClassDecl) :
      (chain.map ClassDecl.withoutStatics).map ClassDecl.name = chain.map ClassDecl.name := by
    rw [List.map_map]
    rfl
  fun_induction m.climb current below with
  | case1 current below hr =>
    have root : current.withoutStatics.parent? = none := hr
    rw [climb_eq_turn, turn_root root]
    rfl
  | case2 current below name hn unknown =>
    have named : current.withoutStatics.parent? = some name := hn
    have missing : m.withoutStatics.get? name = none := by
      rw [get?_withoutStatics, unknown, Option.map_none]
    rw [climb_eq_turn, turn_unresolved named missing]
    rfl
  | case3 current below name hn parent hp met =>
    have parents :
        m.withoutStatics.parentOf current.withoutStatics = some parent.withoutStatics := by
      rw [parentOf_withoutStatics, parentOf, hn, Option.bind_some, hp, Option.map_some]
    rw [climb_eq_turn, turn_cyclic parents]
    · rfl
    · rwa [← List.map_cons, names]
  | case4 current below name hn parent hp new ih =>
    have parents :
        m.withoutStatics.parentOf current.withoutStatics = some parent.withoutStatics := by
      rw [parentOf_withoutStatics, parentOf, hn, Option.bind_some, hp, Option.map_some]
    rw [climb_eq_turn, turn_next parents]
    · exact ih
    · rwa [← List.map_cons, names]

end ClassMap

namespace DispatchTable

open DispatchSlot

theorem slots_of (m : ClassMap) (c : ClassDecl) : (DispatchTable.of m c).map slots =
    (m.lineage c).map fun chain => placeAll (chain.flatMap ClassDecl.candidates) [] := by
  unfold DispatchTable.of
  cases m.lineage c with
  | error e => rfl
  | ok chain => exact congrArg Except.ok (foldl_extend chain [])

theorem slots_withoutStatics (m : ClassMap) (c : ClassDecl) :
    (DispatchTable.of m.withoutStatics c.withoutStatics).map slots =
      (DispatchTable.of m c).map slots := by
  have walk : m.withoutStatics.lineage c.withoutStatics =
      (m.lineage c).map (List.map ClassDecl.withoutStatics) := m.climb_withoutStatics c []
  rw [slots_of, slots_of, walk]
  cases m.lineage c with
  | error e => rfl
  | ok chain =>
    have same : (chain.map ClassDecl.withoutStatics).flatMap ClassDecl.candidates =
        chain.flatMap ClassDecl.candidates := by
      rw [List.flatMap_map]
      exact List.flatMap_congr fun c _ => c.candidates_withoutStatics
    exact congrArg (fun candidates => Except.ok (placeAll candidates [])) same

/-- The slots of a class that has a lineage: their keys are distinct and are those of the instance
methods along the lineage, in the order of first occurrence; each slot is that of the last method
with its key. Classes that differ from these in static methods only give the same slots. -/
theorem slots_first_and_last {m : ClassMap} {c : ClassDecl} {chain : List ClassDecl}
    (hl : m.lineage c = .ok chain) :
    ∃ t, DispatchTable.of m c = .ok t ∧ (t.slots.map key).Nodup ∧
      t.slots.map key = ((ClassDecl.instanceMethods chain).map (·.2.key)).eraseDups ∧
      (∀ slot ∈ t.slots, ∃ earlier owner f later,
        ClassDecl.instanceMethods chain = earlier ++ (owner, f) :: later ∧
        (∀ p ∈ later, p.2.key ≠ f.key) ∧
        slot.key = f.key ∧ slot.result = f.result ∧ slot.implementor = owner.name) ∧
      ∀ (other : ClassMap) (d : ClassDecl), other.withoutStatics = m.withoutStatics →
        d.withoutStatics = c.withoutStatics →
        ∃ s, DispatchTable.of other d = .ok s ∧ s.slots = t.slots := by
  refine ⟨_, of_eq_ok_iff.mpr ⟨chain, hl, rfl⟩, keys_placeAll_nodup _ (by simp), ?_, ?_, ?_⟩
  · rw [keys_placeAll, ClassDecl.candidates_eq_map, List.map_map]
    rfl
  · intro slot hs
    rcases (mem_placeAll_iff (by simp)).mp hs with prevails | ⟨none, -⟩
    · rw [ClassDecl.candidates_eq_map] at prevails
      obtain ⟨earlier, owner, f, later, split, last, rfl⟩ := exists_last_of_prevails prevails
      exact ⟨earlier, owner, f, later, split, last, rfl, rfl, rfl⟩
    · cases none
  · intro other d hm hd
    have same := slots_withoutStatics other d
    rw [hm, hd, slots_withoutStatics, of_eq_ok_iff.mpr ⟨chain, hl, rfl⟩] at same
    cases table : DispatchTable.of other d with
    | error e =>
      rw [table] at same
      cases same
    | ok s =>
      rw [table] at same
      exact ⟨s, rfl, (Except.ok.inj same).symm⟩

end DispatchTable

namespace Shapes

theorem disc_slots : registered.lineage disc = .ok [shape, circle, disc] ∧
    ∃ t, DispatchTable.of registered disc = .ok t ∧
      t.slots.map DispatchSlot.key = [("area", []), ("count", []), ("area", [int])] ∧
      registered.withoutStatics ≠ registered ∧
      ∃ s, DispatchTable.of registered.withoutStatics disc.withoutStatics = .ok s ∧
        s.slots = t.slots := by
  obtain ⟨t, ht, -, keys, -, statics⟩ := DispatchTable.slots_first_and_last lineage_disc
  refine ⟨lineage_disc, t, ht, keys.trans (by decide +kernel), by decide +kernel, ?_⟩
  exact statics _ _ (by decide +kernel) (by decide +kernel)

end Shapes

end ClassLowering
