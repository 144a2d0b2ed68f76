import ClassLowering.Class

/-!
# Registered classes

A `ClassMap` gives classes by name and remembers the order in which the names were registered. A
name that is registered again keeps its place and takes the new class.
-/

set_option autoImplicit false

namespace ClassLowering

structure ClassMap where
  entries : List (String × ClassDecl)
  distinct : (entries.map Prod.fst).Nodup
  deriving DecidableEq

namespace ClassMap

def put (key : String) (c : ClassDecl) : List (String × ClassDecl) → List (String × ClassDecl)
  | [] => [(key, c)]
  | first :: rest => if first.1 = key then (key, c) :: rest else first :: put key c rest

theorem keys_put (key : String) (c : ClassDecl) (entries : List (String × ClassDecl)) :
    (put key c entries).map Prod.fst =
      if key ∈ entries.map Prod.fst then entries.map Prod.fst
      else entries.map Prod.fst ++ [key] := by
  induction entries with
  | nil => simp [put]
  | cons first rest ih =>
    by_cases h : first.1 = key
    · simp [put, h]
    · have h' : ¬key = first.1 := fun e => h e.symm
      simp only [put, if_neg h, List.map_cons, ih, List.mem_cons, h', false_or]
      split <;> rfl

theorem keys_put_nodup (key : String) (c : ClassDecl) {entries : List (String × ClassDecl)}
    (h : (entries.map Prod.fst).Nodup) : ((put key c entries).map Prod.fst).Nodup := by
  rw [keys_put]
  split
  · exact h
  · next hk =>
    refine List.nodup_append.mpr ⟨h, by simp, fun a ha b hb e => hk ?_⟩
    rw [List.mem_singleton.mp hb] at e
    rwa [← e]

def empty : ClassMap := ⟨[], .nil⟩

instance : Inhabited ClassMap := ⟨empty⟩

def insert (m : ClassMap) (key : String) (c : ClassDecl) : ClassMap :=
  ⟨put key c m.entries, keys_put_nodup key c m.distinct⟩

def ofEntries (entries : List (String × ClassDecl)) : ClassMap :=
  entries.foldl (fun m e => m.insert e.1 e.2) empty

def ofClasses (classes : List ClassDecl) : ClassMap :=
  classes.foldl (fun m c => m.insert c.name c) empty

def get? (m : ClassMap) (key : String) : Option ClassDecl := m.entries.lookup key

def contains (m : ClassMap) (key : String) : Bool := (m.get? key).isSome

def classes (m : ClassMap) : List ClassDecl := m.entries.map Prod.snd

theorem mem_classes_of_get? {m : ClassMap} {key : String} {c : ClassDecl}
    (h : m.get? key = some c) : c ∈ m.classes := by
  obtain ⟨entries, distinct⟩ := m
  simp only [get?, classes] at h ⊢
  clear distinct
  induction entries with
  | nil => simp at h
  | cons first rest ih =>
    rw [List.lookup_cons] at h
    split at h
    · simp_all
    · simp [ih h]

theorem put_new {key : String} {c : ClassDecl} {entries : List (String × ClassDecl)}
    (h : key ∉ entries.map Prod.fst) : put key c entries = entries ++ [(key, c)] := by
  induction entries with
  | nil => rfl
  | cons first rest ih =>
    have ne : ¬first.1 = key := fun e => h (by simp [e])
    rw [put, if_neg ne, ih fun hk => h (List.mem_cons_of_mem _ hk), List.cons_append]

theorem entries_foldl_insert (m : ClassMap) {entries : List (String × ClassDecl)}
    (h : ((m.entries ++ entries).map Prod.fst).Nodup) :
    (entries.foldl (fun m e => m.insert e.1 e.2) m).entries = m.entries ++ entries := by
  induction entries generalizing m with
  | nil => simp
  | cons e rest ih =>
    have new : e.1 ∉ m.entries.map Prod.fst := by
      rw [List.map_append, List.nodup_append] at h
      exact fun hk => h.2.2 _ hk e.1 (by simp) rfl
    have next : (m.insert e.1 e.2).entries = m.entries ++ [e] := put_new new
    rw [List.foldl_cons, ih (m.insert e.1 e.2), next, List.append_assoc, List.singleton_append]
    rwa [next, List.append_assoc, List.singleton_append]

@[ext] theorem ext {m other : ClassMap} (h : m.entries = other.entries) : m = other := by
  cases m
  cases other
  cases h
  rfl

@[simp] theorem ofEntries_entries (m : ClassMap) : ofEntries m.entries = m := by
  ext1
  exact entries_foldl_insert empty m.distinct

end ClassMap

/-- Classes with the packages around them, outermost first. -/
structure Hierarchy where
  classes : ClassMap := .empty
  packages : List String := []
  deriving DecidableEq

def Hierarchy.ofClasses (classes : List ClassDecl) (packages : List String) : Hierarchy :=
  { classes := .ofClasses classes, packages }

end ClassLowering
