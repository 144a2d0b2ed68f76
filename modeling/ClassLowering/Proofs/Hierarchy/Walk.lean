import ClassLowering.Proofs.Hierarchy.Stages

/-!
# Where the walk to the root ends

From a class the parent steps lead to its parent, to the parent of that, and so on: `ancestor`
follows them without minding whom it meets again. The walk visits these classes as long as their
names are distinct. It ends at the first of them that is a root, whose parent is not registered, or
whose parent has a name that was met before, and each of these three ends has its own outcome.

No name is met twice, so a walk among so many registered classes is over after that many turns and
one more.
-/

set_option autoImplicit false

namespace ClassLowering.ClassMap

variable {m : ClassMap} {c d p current : ClassDecl} {below : List ClassDecl} {n k : Nat}

/-! ## Turns -/

def parentOf (m : ClassMap) (c : ClassDecl) : Option ClassDecl := c.parent?.bind m.get?

/-- One turn of the walk: its outcome, or the next class with the classes below it. -/
def turn (m : ClassMap) (current : ClassDecl) (below : List ClassDecl) :
    Except Fault (List ClassDecl) ⊕ ClassDecl × List ClassDecl :=
  match current.parent? with
  | none => .inl (.ok (current :: below))
  | some name =>
    match m.get? name with
    | none => .inl (.error (.unresolvedParent current.name name))
    | some parent =>
      if parent.name ∈ (current :: below).map ClassDecl.name then
        .inl (.error (.cyclicHierarchy parent.name))
      else .inr (parent, current :: below)

theorem climb_eq_turn (m : ClassMap) (current : ClassDecl) (below : List ClassDecl) :
    m.climb current below =
      (m.turn current below).elim id fun next => m.climb next.1 next.2 := by
  rw [climb, turn]
  cases current.parent? with
  | none => rfl
  | some name =>
    simp only
    split
    · next h => simp [h]
    · next parent h =>
      by_cases met : parent.name ∈ (current :: below).map ClassDecl.name
      · simp only [h, if_pos met, Sum.elim_inl, id]
      · simp only [h, if_neg met, Sum.elim_inr]

section

variable {name : String}

theorem turn_root (h : current.parent? = none) :
    m.turn current below = .inl (.ok (current :: below)) := by
  simp [turn, h]

theorem turn_unresolved (h : current.parent? = some name) (unknown : m.get? name = none) :
    m.turn current below = .inl (.error (.unresolvedParent current.name name)) := by
  simp [turn, h, unknown]

theorem turn_cyclic (h : m.parentOf current = some p)
    (met : p.name ∈ (current :: below).map ClassDecl.name) :
    m.turn current below = .inl (.error (.cyclicHierarchy p.name)) := by
  obtain ⟨name, hn, hp⟩ := Option.bind_eq_some_iff.mp h
  simp only [turn, hn, hp, if_pos met]

theorem turn_next (h : m.parentOf current = some p)
    (new : p.name ∉ (current :: below).map ClassDecl.name) :
    m.turn current below = .inr (p, current :: below) := by
  obtain ⟨name, hn, hp⟩ := Option.bind_eq_some_iff.mp h
  simp only [turn, hn, hp, if_neg new]

end

theorem root_or_parent (m : ClassMap) (c : ClassDecl) : c.parent? = none ∨
    (∃ name, c.parent? = some name ∧ m.get? name = none) ∨ ∃ p, m.parentOf c = some p := by
  unfold parentOf
  cases c.parent? with
  | none => simp
  | some name => cases hp : m.get? name <;> simp [hp]

def climbWithin (m : ClassMap) : Nat → ClassDecl → List ClassDecl →
    Option (Except Fault (List ClassDecl))
  | 0, _, _ => none
  | turns + 1, current, below =>
    (m.turn current below).elim some fun next => m.climbWithin turns next.1 next.2

theorem mem_classes_of_parentOf (h : m.parentOf c = some p) : p ∈ m.classes := by
  obtain ⟨name, -, hp⟩ := Option.bind_eq_some_iff.mp h
  exact mem_classes_of_get? hp

/-- A turn leaves fewer names unmet, and a walk that has met all of them ends. -/
theorem climbWithin_eq {turns : Nat}
    (h : m.unmet ((current :: below).map ClassDecl.name) < turns) :
    m.climbWithin turns current below = some (m.climb current below) := by
  induction turns generalizing current below with
  | zero => omega
  | succ turns ih =>
    rw [climbWithin, climb_eq_turn]
    rcases m.root_or_parent current with hr | ⟨name, hn, unknown⟩ | ⟨p, hp⟩
    · rw [turn_root hr]
      rfl
    · rw [turn_unresolved hn unknown]
      rfl
    · by_cases met : p.name ∈ (current :: below).map ClassDecl.name
      · rw [turn_cyclic hp met]
        rfl
      · have less := unmet_cons_lt (mem_classes_of_parentOf hp) met
        rw [turn_next hp met]
        apply ih
        show m.unmet (p.name :: (current :: below).map ClassDecl.name) < turns
        omega

theorem unmet_le_length (m : ClassMap) (met : List String) : m.unmet met ≤ m.entries.length := by
  have count : m.unmet met ≤ m.classes.length := List.countP_le_length
  rwa [classes, List.length_map] at count

/-! ## Parent steps -/

def ancestor (m : ClassMap) (c : ClassDecl) : Nat → Option ClassDecl
  | 0 => some c
  | n + 1 => (m.ancestor c n).bind m.parentOf

def upTo (m : ClassMap) (c : ClassDecl) (n : Nat) : List ClassDecl :=
  (List.range (n + 1)).filterMap (m.ancestor c)

/-- The walk from `c` comes to `d` after `n` parent steps: no name has been met twice by then. -/
structure Visits (m : ClassMap) (c : ClassDecl) (n : Nat) (d : ClassDecl) : Prop where
  ancestor : m.ancestor c n = some d
  distinct : ((m.upTo c n).map ClassDecl.name).Nodup

theorem ancestor_add (m : ClassMap) (c : ClassDecl) (k n : Nat) :
    m.ancestor c (k + n) = (m.ancestor c k).bind (m.ancestor · n) := by
  induction n with
  | zero => simp [ancestor]
  | succ n ih =>
    rw [← Nat.add_assoc, ancestor, ih, Option.bind_assoc]
    rfl

theorem upTo_zero (m : ClassMap) (c : ClassDecl) : m.upTo c 0 = [c] := rfl

theorem upTo_succ (h : m.ancestor c (n + 1) = some p) : m.upTo c (n + 1) = m.upTo c n ++ [p] := by
  rw [upTo, List.range_succ, List.filterMap_append, ← upTo]
  simp [h]

theorem mem_upTo : d ∈ m.upTo c n ↔ ∃ k ≤ n, m.ancestor c k = some d := by
  simp only [upTo, List.mem_filterMap, List.mem_range, Nat.lt_succ_iff]

theorem visits_zero (m : ClassMap) (c : ClassDecl) : m.Visits c 0 c where
  ancestor := rfl
  distinct := by simp [upTo_zero]

theorem visits_succ : m.Visits c (n + 1) p ↔
    ∃ d, m.Visits c n d ∧ m.parentOf d = some p ∧ p.name ∉ (m.upTo c n).map ClassDecl.name := by
  constructor
  · rintro ⟨ha, hd⟩
    obtain ⟨d, hn, hp⟩ := Option.bind_eq_some_iff.mp ha
    rw [upTo_succ ha, List.map_append, List.nodup_append] at hd
    refine ⟨d, ⟨hn, hd.1⟩, hp, ?_⟩
    intro met
    exact hd.2.2 _ met p.name (by simp) rfl
  · rintro ⟨d, v, hp, new⟩
    have ha : m.ancestor c (n + 1) = some p := by rw [ancestor, v.ancestor, Option.bind_some, hp]
    refine ⟨ha, ?_⟩
    rw [upTo_succ ha, List.map_append, List.map_singleton, ← List.concat_eq_append]
    exact List.Nodup.concat new v.distinct

theorem Visits.earlier (v : m.Visits c n d) (h : k ≤ n) : ∃ e, m.Visits c k e := by
  induction n generalizing d with
  | zero =>
    obtain rfl : k = 0 := by omega
    exact ⟨d, v⟩
  | succ n ih =>
    by_cases hk : k = n + 1
    · exact ⟨d, hk ▸ v⟩
    · obtain ⟨e, ve, -⟩ := visits_succ.mp v
      exact ih ve (by omega)

theorem Visits.reverse_upTo (v : m.Visits c n d) : ∃ below, (m.upTo c n).reverse = d :: below := by
  cases n with
  | zero =>
    obtain rfl := Option.some.inj v.ancestor
    exact ⟨[], rfl⟩
  | succ n =>
    rw [upTo_succ v.ancestor, List.reverse_concat]
    exact ⟨_, rfl⟩

theorem Visits.lineage_eq (v : m.Visits c n d) (h : (m.upTo c n).reverse = d :: below) :
    m.lineage c = m.climb d below := by
  induction n generalizing d below with
  | zero =>
    obtain rfl := Option.some.inj v.ancestor
    obtain rfl : [] = below := (List.cons.inj h).2
    rfl
  | succ n ih =>
    obtain ⟨e, ve, hp, new⟩ := visits_succ.mp v
    obtain ⟨rest, hr⟩ := ve.reverse_upTo
    rw [upTo_succ v.ancestor, List.reverse_concat, hr] at h
    obtain rfl := (List.cons.inj h).2
    have new' : d.name ∉ (e :: rest).map ClassDecl.name := by
      rwa [← hr, List.map_reverse, List.mem_reverse]
    rw [ih ve hr, climb_eq_turn, turn_next hp new']
    rfl

/-! ## The three ends -/

/-- How the walk from a class ends, by the last class that it visits. -/
inductive Ends (m : ClassMap) (c : ClassDecl) : Except Fault (List ClassDecl) → Prop
  | root {n : Nat} {d : ClassDecl} : m.Visits c n d → d.parent? = none →
      Ends m c (.ok (m.upTo c n).reverse)
  | unresolved {n : Nat} {d : ClassDecl} {name : String} : m.Visits c n d →
      d.parent? = some name → m.get? name = none →
      Ends m c (.error (.unresolvedParent d.name name))
  | cyclic {n : Nat} {d p : ClassDecl} : m.Visits c n d → m.parentOf d = some p →
      p.name ∈ (m.upTo c n).map ClassDecl.name → Ends m c (.error (.cyclicHierarchy p.name))

theorem Visits.ends (v : m.Visits c n d) (h : (m.upTo c n).reverse = d :: below) :
    m.Ends c (m.climb d below) := by
  have names : (d :: below).map ClassDecl.name = ((m.upTo c n).map ClassDecl.name).reverse := by
    rw [← h, List.map_reverse]
  fun_induction m.climb d below generalizing n with
  | case1 current below hr =>
    rw [← h]
    exact .root v hr
  | case2 current below name hn unknown => exact .unresolved v hn unknown
  | case3 current below name hn parent hp met =>
    have step : m.parentOf current = some parent := by simp [parentOf, hn, hp]
    rw [names, List.mem_reverse] at met
    exact .cyclic v step met
  | case4 current below name hn parent hp new ih =>
    have step : m.parentOf current = some parent := by simp [parentOf, hn, hp]
    rw [names, List.mem_reverse] at new
    have next : m.Visits c (n + 1) parent := visits_succ.mpr ⟨current, v, step, new⟩
    have onward : (m.upTo c (n + 1)).reverse = parent :: current :: below := by
      rw [upTo_succ next.ancestor, List.reverse_concat, h]
    exact ih next onward (by rw [← onward, List.map_reverse])

/-- The walk ends in one way, which is found from the parent steps alone. -/
theorem lineage_eq_iff {outcome : Except Fault (List ClassDecl)} :
    m.lineage c = outcome ↔ m.Ends c outcome := by
  constructor
  · rintro rfl
    exact (visits_zero m c).ends rfl
  · intro h
    cases h with
    | root v hr =>
      obtain ⟨below, hb⟩ := v.reverse_upTo
      rw [v.lineage_eq hb, climb_eq_turn, turn_root hr, hb]
      rfl
    | unresolved v hn unknown =>
      obtain ⟨below, hb⟩ := v.reverse_upTo
      rw [v.lineage_eq hb, climb_eq_turn, turn_unresolved hn unknown]
      rfl
    | cyclic v hp met =>
      obtain ⟨below, hb⟩ := v.reverse_upTo
      rw [← List.mem_reverse, ← List.map_reverse, hb] at met
      rw [v.lineage_eq hb, climb_eq_turn, turn_cyclic hp met]
      rfl

theorem parent?_eq_none : c.parent? = none ↔ c.parent = Naming.noParent := by
  simp [ClassDecl.parent?]

theorem parent?_eq_some {name : String} :
    c.parent? = some name ↔ c.parent = name ∧ name ≠ Naming.noParent := by
  unfold ClassDecl.parent?
  by_cases h : c.parent = Naming.noParent
  · simp [h, eq_comm]
  · simp only [if_neg h, Option.some.injEq, iff_self_and]
    rintro rfl
    exact h

theorem contains_eq_false {name : String} : m.contains name = false ↔ m.get? name = none := by
  simp [contains]

theorem own_ancestor_of_cyclic (hk : m.Keyed) (hc : c ∈ m.classes) {name : String}
    (h : m.lineage c = .error (.cyclicHierarchy name)) :
    ∃ p k, m.get? name = some p ∧ 0 < k ∧ m.ancestor p k = some p := by
  cases lineage_eq_iff.mp h with
  | @cyclic n d p v hp met =>
    have registered {e : ClassDecl} {k : Nat} (he : m.ancestor c k = some e) : e ∈ m.classes := by
      cases k with
      | zero => exact Option.some.inj he ▸ hc
      | succ k =>
        obtain ⟨below, -, hb⟩ := Option.bind_eq_some_iff.mp he
        exact mem_classes_of_parentOf hb
    have again : m.ancestor c (n + 1) = some p := by
      rw [ancestor, v.ancestor, Option.bind_some, hp]
    obtain ⟨e, he, same⟩ := List.mem_map.mp met
    obtain ⟨k, le, first⟩ := mem_upTo.mp he
    have found := get?_name hk (registered again)
    rw [← same, get?_name hk (registered first), Option.some.injEq] at found
    subst found
    have between := m.ancestor_add c k (n + 1 - k)
    rw [first, Option.bind_some, show k + (n + 1 - k) = n + 1 by omega, again] at between
    exact ⟨e, n + 1 - k, get?_name hk (registered first), by omega, between.symm⟩

/-- What the walk from a class to its root comes to. Let the parent steps from `c` lead to `d` after
`n` steps, with distinct names up to there. The walk gives the classes from `d` down to `c` if `d`
is a root, and it fails if the parent of `d` is not registered or has one of these names; there is
no other outcome. It is over after at most one turn more than there are registered classes. Where
classes are registered by name, the class named in a cycle is its own proper ancestor. -/
theorem lineage_outcomes (m : ClassMap) (c : ClassDecl) :
    m.climbWithin (m.entries.length + 1) c [] = some (m.lineage c) ∧
    (∀ chain, m.lineage c = .ok chain ↔
      ∃ n d, m.Visits c n d ∧ d.parent = Naming.noParent ∧ chain = (m.upTo c n).reverse) ∧
    (∀ child parent, m.lineage c = .error (.unresolvedParent child parent) ↔
      ∃ n d, m.Visits c n d ∧ d.name = child ∧ d.parent = parent ∧ parent ≠ Naming.noParent ∧
        m.contains parent = false) ∧
    (∀ name, m.lineage c = .error (.cyclicHierarchy name) ↔
      ∃ n d p, m.Visits c n d ∧ m.ancestor c (n + 1) = some p ∧ p.name = name ∧
        name ∈ (m.upTo c n).map ClassDecl.name) ∧
    (∀ e, m.lineage c = .error e →
      (∃ child parent, e = .unresolvedParent child parent) ∨ ∃ name, e = .cyclicHierarchy name) ∧
    (m.Keyed → c ∈ m.classes → ∀ name, m.lineage c = .error (.cyclicHierarchy name) →
      ∃ p k, m.get? name = some p ∧ 0 < k ∧ m.ancestor p k = some p) := by
  refine ⟨?_, ?_, ?_, ?_, ?_, fun hk hc name => own_ancestor_of_cyclic hk hc⟩
  · apply climbWithin_eq
    have bound := m.unmet_le_length [c.name]
    exact Nat.lt_succ_of_le bound
  · intro chain
    rw [lineage_eq_iff]
    constructor
    · intro h
      cases h with
      | root v hr => exact ⟨_, _, v, parent?_eq_none.mp hr, rfl⟩
    · rintro ⟨n, d, v, hr, rfl⟩
      exact .root v (parent?_eq_none.mpr hr)
  · intro child parent
    rw [lineage_eq_iff]
    constructor
    · intro h
      cases h with
      | unresolved v hn unknown =>
        obtain ⟨hp, some_parent⟩ := parent?_eq_some.mp hn
        exact ⟨_, _, v, rfl, hp, some_parent, contains_eq_false.mpr unknown⟩
    · rintro ⟨n, d, v, rfl, rfl, some_parent, unknown⟩
      exact .unresolved v (parent?_eq_some.mpr ⟨rfl, some_parent⟩) (contains_eq_false.mp unknown)
  · intro name
    rw [lineage_eq_iff]
    constructor
    · intro h
      cases h with
      | cyclic v hp met =>
        exact ⟨_, _, _, v, by rw [ancestor, v.ancestor, Option.bind_some, hp], rfl, met⟩
    · rintro ⟨n, d, p, v, again, rfl, met⟩
      rw [ancestor, v.ancestor, Option.bind_some] at again
      exact .cyclic v again met
  · intro e h
    cases lineage_eq_iff.mp h with
    | unresolved => exact .inl ⟨_, _, rfl⟩
    | cyclic => exact .inr ⟨_, rfl⟩

end ClassLowering.ClassMap

namespace ClassLowering.Rings

def tail : ClassDecl where
  name := "Tail"
  parent := "Head"

def head : ClassDecl where
  name := "Head"
  parent := "Body"

def body : ClassDecl where
  name := "Body"
  parent := "Head"

def registered : ClassMap := .ofClasses [tail, head, body]

theorem head_above_itself : registered.climbWithin 4 tail [] = some (registered.lineage tail) ∧
    registered.lineage tail = .error (.cyclicHierarchy "Head") ∧
    ∃ k, 0 < k ∧ registered.ancestor head k = some head := by
  have keyed : registered.Keyed := ClassMap.keyed_ofClasses [tail, head, body]
  have known : tail ∈ registered.classes := by decide +kernel
  have found : registered.get? "Head" = some head := by decide +kernel
  have fault : registered.lineage tail = .error (.cyclicHierarchy "Head") := by decide +kernel
  obtain ⟨within, -, -, -, -, own⟩ := ClassMap.lineage_outcomes registered tail
  obtain ⟨p, k, hp, positive, above⟩ := own keyed known "Head" fault
  obtain rfl := Option.some.inj (found.symm.trans hp)
  exact ⟨within, fault, k, positive, above⟩

end ClassLowering.Rings
