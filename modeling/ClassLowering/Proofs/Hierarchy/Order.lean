import ClassLowering.Proofs.Hierarchy.Lineage

/-!
# Registered classes and their order

Classes registered by their own names have distinct names, however often a name was registered.
When every registered class has a lineage, the order is a permutation of the registered classes
sorted by the lengths of the lineages. A proper ancestor has a shorter lineage than its
descendants and is itself registered, so it stands before them.
-/

set_option autoImplicit false

namespace ClassLowering.ClassMap

variable {m : ClassMap}

/-! ## Registration by name -/

/-- Every class is registered under its own name. -/
def Keyed (m : ClassMap) : Prop := ∀ e ∈ m.entries, e.1 = e.2.name

theorem mem_put {key : String} {c : ClassDecl} {entries : List (String × ClassDecl)}
    {e : String × ClassDecl} (h : e ∈ put key c entries) : e = (key, c) ∨ e ∈ entries := by
  induction entries with
  | nil => simpa [put] using h
  | cons first rest ih =>
    simp only [put] at h
    split at h
    · rcases List.mem_cons.mp h with rfl | h
      · exact .inl rfl
      · exact .inr (by simp [h])
    · rcases List.mem_cons.mp h with rfl | h
      · exact .inr (by simp)
      · exact (ih h).imp_right (by simp [·])

theorem keyed_insert (h : m.Keyed) (c : ClassDecl) : (m.insert c.name c).Keyed := by
  intro e he
  rcases mem_put he with rfl | he
  · rfl
  · exact h e he

theorem keyed_ofClasses (classes : List ClassDecl) : (ofClasses classes).Keyed := by
  have run : ∀ m : ClassMap, m.Keyed →
      (classes.foldl (fun m c => m.insert c.name c) m).Keyed := by
    induction classes with
    | nil =>
      intro m h
      exact h
    | cons c rest ih =>
      intro m h
      exact ih _ (keyed_insert h c)
  exact run empty (by simp [Keyed, empty])

theorem names_eq_keys (h : m.Keyed) : m.classes.map ClassDecl.name = m.entries.map Prod.fst := by
  rw [classes, List.map_map]
  exact List.map_congr_left fun e he => (h e he).symm

theorem names_nodup (h : m.Keyed) : (m.classes.map ClassDecl.name).Nodup := by
  rw [names_eq_keys h]
  exact m.distinct

/-! ## Depth -/

def chainOf (m : ClassMap) (c : ClassDecl) : List ClassDecl :=
  match m.lineage c with
  | .ok chain => chain
  | .error _ => []

def depth (m : ClassMap) (c : ClassDecl) : Nat := (m.chainOf c).length

theorem chainOf_eq {c : ClassDecl} {chain : List ClassDecl} (h : m.lineage c = .ok chain) :
    m.chainOf c = chain := by
  simp [chainOf, h]

theorem mem_lineage_cases {a c : ClassDecl} {chain : List ClassDecl} (h : m.lineage c = .ok chain)
    (ha : a ∈ chain) :
    a = c ∨ ∃ above b below, chain = above ++ a :: b :: below ∧ m.IsParent a b := by
  obtain ⟨hl, hs⟩ := lineage_eq_ok_iff.mp h
  obtain ⟨above, below, rfl⟩ := List.append_of_mem ha
  cases below with
  | nil =>
    obtain ⟨front, hf⟩ := hs
    exact .inl (List.singleton_inj.mp (List.append_inj' hf rfl).2).symm
  | cons b below =>
    exact .inr ⟨above, b, below, rfl, (List.isChain_append_cons_cons.mp hl.linked).2.1⟩

theorem eq_or_depth_lt {a c : ClassDecl} {chain : List ClassDecl} (h : m.lineage c = .ok chain)
    (ha : a ∈ chain) : a = c ∨ m.depth a < m.depth c := by
  rcases mem_lineage_cases h ha with rfl | ⟨above, b, below, rfl, -⟩
  · exact .inl rfl
  · have hu := lineage_upper h
    right
    simp [depth, chainOf_eq hu, chainOf_eq h]

theorem eq_or_registered {a c : ClassDecl} {chain : List ClassDecl} (h : m.lineage c = .ok chain)
    (ha : a ∈ chain) : a = c ∨ a ∈ m.classes := by
  rcases mem_lineage_cases h ha with rfl | ⟨_, _, _, -, _, -, hg⟩
  · exact .inl rfl
  · exact .inr (mem_classes_of_get? hg)

/-! ## Order -/

def ranked (m : ClassMap) (c : ClassDecl) : Except Fault (Nat × ClassDecl) := do
  return ((← m.lineage c).length, c)

theorem ranked_eq_ok {c : ClassDecl} {rank : Nat × ClassDecl} (h : m.ranked c = .ok rank) :
    rank = (m.depth c, c) := by
  obtain ⟨chain, hc, hr⟩ := bind_eq_ok.mp h
  rw [← pure_eq_ok.mp hr, depth, chainOf_eq hc]

theorem ranked_ok_iff {c : ClassDecl} :
    m.ranked c = .ok (m.depth c, c) ↔ m.lineage c = .ok (m.chainOf c) := by
  constructor
  · intro h
    obtain ⟨chain, hc, -⟩ := bind_eq_ok.mp h
    rw [chainOf_eq hc, hc]
  · intro h
    simp [ranked, h, depth]

theorem sort_ranked (classes : List ClassDecl) :
    ((classes.map fun c => (m.depth c, c)).mergeSort fun a b => a.1 ≤ b.1).map Prod.snd =
      classes.mergeSort fun a b => m.depth a ≤ m.depth b := by
  rw [List.map_mergeSort (s := fun a b => m.depth a ≤ m.depth b)]
  · simp [Function.comp_def]
  · intro a ha b hb
    obtain ⟨c, -, rfl⟩ := List.mem_map.mp ha
    obtain ⟨d, -, rfl⟩ := List.mem_map.mp hb
    rfl

theorem ordered_eq_ok_iff {sorted : List ClassDecl} :
    m.ordered = .ok sorted ↔ (∀ c ∈ m.classes, m.lineage c = .ok (m.chainOf c)) ∧
      sorted = m.classes.mergeSort fun a b => m.depth a ≤ m.depth b := by
  have hr {ranks : List (Nat × ClassDecl)} : m.classes.mapM m.ranked = .ok ranks ↔ _ :=
    mapM_eq_ok fun _ _ => ranked_eq_ok
  constructor
  · intro h
    obtain ⟨ranks, hranks, hs⟩ := bind_eq_ok.mp h
    obtain ⟨hall, rfl⟩ := hr.mp hranks
    exact ⟨fun c hc => ranked_ok_iff.mp (hall c hc), by rw [← pure_eq_ok.mp hs, sort_ranked]⟩
  · rintro ⟨hall, rfl⟩
    refine bind_eq_ok.mpr ⟨_, hr.mpr ⟨fun c hc => ranked_ok_iff.mpr (hall c hc), rfl⟩, ?_⟩
    rw [pure_eq_ok, sort_ranked]

theorem ordered_perm {sorted : List ClassDecl} (h : m.ordered = .ok sorted) :
    sorted.Perm m.classes := by
  rw [(ordered_eq_ok_iff.mp h).2]
  exact List.mergeSort_perm _ _

theorem depth_le_trans (m : ClassMap) (a b c : ClassDecl)
    (hab : decide (m.depth a ≤ m.depth b) = true) (hbc : decide (m.depth b ≤ m.depth c) = true) :
    decide (m.depth a ≤ m.depth c) = true := by
  simp only [decide_eq_true_eq] at *
  omega

theorem depth_le_total (m : ClassMap) (a b : ClassDecl) :
    (decide (m.depth a ≤ m.depth b) || decide (m.depth b ≤ m.depth a)) = true := by
  simp only [Bool.or_eq_true, decide_eq_true_eq]
  omega

theorem ordered_pairwise {sorted : List ClassDecl} (h : m.ordered = .ok sorted) :
    sorted.Pairwise fun a b => m.depth a ≤ m.depth b := by
  rw [(ordered_eq_ok_iff.mp h).2]
  exact (List.pairwise_mergeSort m.depth_le_trans m.depth_le_total m.classes).imp (by simp)

theorem lineage_of_ordered {sorted : List ClassDecl} (h : m.ordered = .ok sorted) {c : ClassDecl}
    (hc : c ∈ sorted) : m.lineage c = .ok (m.chainOf c) :=
  (ordered_eq_ok_iff.mp h).1 c ((ordered_perm h).mem_iff.mp hc)

/-- Every class comes after all its proper ancestors. -/
theorem eq_or_ordered_before {before after chain : List ClassDecl} {a c : ClassDecl}
    (h : m.ordered = .ok (before ++ c :: after)) (hl : m.lineage c = .ok chain) (ha : a ∈ chain) :
    a = c ∨ a ∈ before := by
  rcases eq_or_registered hl ha with rfl | hr
  · exact .inl rfl
  rcases eq_or_depth_lt hl ha with rfl | hd
  · exact .inl rfl
  rcases List.mem_append.mp ((ordered_perm h).mem_iff.mpr hr) with hb | hb
  · exact .inr hb
  rcases List.mem_cons.mp hb with rfl | hb
  · exact .inl rfl
  -- a shallower class cannot stand later in the order
  have hp := (List.pairwise_append.mp (ordered_pairwise h)).2.1
  have hle := (List.pairwise_cons.mp hp).1 a hb
  omega

end ClassLowering.ClassMap
