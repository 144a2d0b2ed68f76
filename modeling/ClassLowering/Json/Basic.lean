/-!
# JSON values

Members of an object keep their order and may repeat a name, because what reads them decides what a
repetition means. `garbled` stands for what is well formed and denotes nothing: a string with half
of a surrogate pair, a number that is too large, an object with such a string as a name. It may
stand in a part of a document that nobody reads, and nowhere else.
-/

set_option autoImplicit false

namespace ClassLowering

inductive Json where
  | null
  | bool (b : Bool)
  | number (literal : String)
  | str (s : String)
  | arr (items : List Json)
  | obj (members : List (String × Json))
  | garbled

namespace Json

instance : Inhabited Json := ⟨.null⟩

mutual

def depth : Json → Nat
  | arr items => itemsDepth items + 1
  | obj members => membersDepth members + 1
  | _ => 0

def itemsDepth : List Json → Nat
  | [] => 0
  | j :: rest => max (depth j) (itemsDepth rest)

def membersDepth : List (String × Json) → Nat
  | [] => 0
  | (_, j) :: rest => max (depth j) (membersDepth rest)

end

mutual

def isSound : Json → Bool
  | arr items => allSound items
  | obj members => membersSound members
  | garbled => false
  | _ => true

def allSound : List Json → Bool
  | [] => true
  | j :: rest => isSound j && allSound rest

def membersSound : List (String × Json) → Bool
  | [] => true
  | (_, j) :: rest => isSound j && membersSound rest

end

/-- Whether a value can be taken over whole where `room` levels of nesting are left. -/
def fits (room : Nat) (j : Json) : Bool := j.isSound && j.depth ≤ room

def text? : Json → Option String
  | str s => some s
  | _ => none

def items? : Json → Option (List Json)
  | arr items => some items
  | _ => none

def members? : Json → Option (List (String × Json))
  | obj members => some members
  | _ => none

def ofList {α : Type} (encode : α → Json) (items : List α) : Json := arr (items.map encode)

def ofStrings (names : List String) : Json := arr (names.map str)

end Json

end ClassLowering
