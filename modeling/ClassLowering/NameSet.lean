/-!
# Sets of names

A set of names is kept as a list in ascending order, so equal sets are equal values and listing a
set needs no sorting. The order of names is that of their code points.
-/

set_option autoImplicit false

namespace ClassLowering

structure NameSet where
  toList : List String
  ascending : toList.Pairwise (· < ·)
  deriving DecidableEq

namespace NameSet

def insertName (name : String) : List String → List String
  | [] => [name]
  | first :: rest =>
    if name < first then name :: first :: rest
    else if name = first then first :: rest
    else first :: insertName name rest

theorem mem_insertName {name other : String} {names : List String} :
    other ∈ insertName name names ↔ other = name ∨ other ∈ names := by
  induction names with
  | nil => simp [insertName]
  | cons first rest ih =>
    unfold insertName
    split
    · simp
    · split
      · next h => subst h; simp
      · simp only [List.mem_cons, ih]
        constructor
        · rintro (h | h | h) <;> simp [h]
        · rintro (h | h | h) <;> simp [h]

theorem insertName_ascending (name : String) {names : List String}
    (h : names.Pairwise (· < ·)) : (insertName name names).Pairwise (· < ·) := by
  induction names with
  | nil => simp [insertName]
  | cons first rest ih =>
    obtain ⟨hfirst, hrest⟩ := List.pairwise_cons.mp h
    unfold insertName
    split
    · next hlt =>
      refine List.pairwise_cons.mpr ⟨fun other ho => ?_, h⟩
      rcases List.mem_cons.mp ho with rfl | ho
      · exact hlt
      · exact String.lt_trans hlt (hfirst other ho)
    · split
      · exact h
      · next hlt hne =>
        refine List.pairwise_cons.mpr ⟨fun other ho => ?_, ih hrest⟩
        rcases mem_insertName.mp ho with rfl | ho
        · by_cases hgt : first < other
          · exact hgt
          · exact absurd (String.le_antisymm (String.not_lt.mp hgt) (String.not_lt.mp hlt)) hne
        · exact hfirst other ho

def empty : NameSet := ⟨[], .nil⟩

instance : Inhabited NameSet := ⟨empty⟩

def insert (set : NameSet) (name : String) : NameSet :=
  ⟨insertName name set.toList, insertName_ascending name set.ascending⟩

def ofList (names : List String) : NameSet := names.foldl insert empty

def contains (set : NameSet) (name : String) : Bool := set.toList.contains name

theorem mem_toList_insert {set : NameSet} {name other : String} :
    other ∈ (set.insert name).toList ↔ other = name ∨ other ∈ set.toList :=
  mem_insertName

theorem insertName_last {name : String} {names : List String} (h : ∀ n ∈ names, n < name) :
    insertName name names = names ++ [name] := by
  induction names with
  | nil => rfl
  | cons first rest ih =>
    have lt : first < name := h first (by simp)
    have ne : ¬name = first := fun e => String.lt_irrefl first (e ▸ lt)
    rw [insertName, if_neg (String.lt_asymm lt), if_neg ne, ih fun n hn => h n (by simp [hn]),
      List.cons_append]

theorem toList_foldl_insert (set : NameSet) {names : List String}
    (h : (set.toList ++ names).Pairwise (· < ·)) :
    (names.foldl insert set).toList = set.toList ++ names := by
  induction names generalizing set with
  | nil => simp
  | cons name rest ih =>
    have below : ∀ n ∈ set.toList, n < name := fun n hn =>
      (List.pairwise_append.mp h).2.2 n hn name (by simp)
    have next : (set.insert name).toList = set.toList ++ [name] := insertName_last below
    rw [List.foldl_cons, ih (set.insert name), next, List.append_assoc, List.singleton_append]
    rwa [next, List.append_assoc, List.singleton_append]

@[ext] theorem ext {set other : NameSet} (h : set.toList = other.toList) : set = other := by
  cases set
  cases other
  cases h
  rfl

@[simp] theorem ofList_toList (set : NameSet) : ofList set.toList = set := by
  ext1
  exact toList_foldl_insert empty set.ascending

end NameSet

end ClassLowering
