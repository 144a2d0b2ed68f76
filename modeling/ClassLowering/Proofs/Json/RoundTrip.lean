import ClassLowering.Proofs.Json.Tokens

/-!
# Written values are read back

A value has a list of tokens, in which nested values stand one after another. The parser makes the
value of its tokens, wherever they stand. Both ways of writing a value spell its tokens, and the
blanks of the indented one make no difference. So a written value is read back, and the brackets of
its text are nested as deep as the value is.
-/

set_option autoImplicit false

namespace ClassLowering.Json

open Text (joinWith)

theorem induction {P : Json → Prop}
    (leaf : ∀ j : Json, j.items? = none → j.members? = none → P j)
    (arr : ∀ items : List Json, (∀ j ∈ items, P j) → P (.arr items))
    (obj : ∀ members : List (String × Json), (∀ m ∈ members, P m.2) → P (.obj members)) :
    ∀ j : Json, P j
  | .arr items => arr items fun j hj =>
    have : sizeOf j < sizeOf items := List.sizeOf_lt_of_mem hj
    induction leaf arr obj j
  | .obj members => obj members fun m hm =>
    have : sizeOf m.2 < sizeOf members := by
      have member := List.sizeOf_lt_of_mem hm
      have part : sizeOf m = 1 + sizeOf m.1 + sizeOf m.2 := rfl
      omega
    induction leaf arr obj m.2
  | .null => leaf .null rfl rfl
  | .bool b => leaf (.bool b) rfl rfl
  | .number literal => leaf (.number literal) rfl rfl
  | .str s => leaf (.str s) rfl rfl
  | .garbled => leaf .garbled rfl rfl

inductive Textual : Json → Prop where
  | null : Textual .null
  | str (s : String) : Textual (.str s)
  | arr {items : List Json} : (∀ j ∈ items, Textual j) → Textual (.arr items)
  | obj {members : List (String × Json)} : (∀ m ∈ members, Textual m.2) → Textual (.obj members)

theorem allSound_iff {items : List Json} :
    allSound items = true ↔ ∀ j ∈ items, j.isSound = true := by
  induction items with
  | nil => simp [allSound]
  | cons j rest ih => simp [allSound, ih]

theorem membersSound_iff {members : List (String × Json)} :
    membersSound members = true ↔ ∀ m ∈ members, m.2.isSound = true := by
  induction members with
  | nil => simp [membersSound]
  | cons m rest ih => simp [membersSound, ih]

theorem Textual.isSound {j : Json} (h : Textual j) : j.isSound = true := by
  induction h with
  | null => rfl
  | str s => rfl
  | arr _ ih => exact allSound_iff.mpr ih
  | obj _ ih => exact membersSound_iff.mpr ih

/-! ## The tokens of a value -/

def separated : List (List Token) → List Token
  | [] => []
  | [ts] => ts
  | ts :: rest => ts ++ .comma :: separated rest

mutual

def tokens : Json → List Token
  | arr items => .openArray :: separated (itemTokens items) ++ [.closeArray]
  | obj members => .openObject :: separated (memberTokens members) ++ [.closeObject]
  | str s => [.str (some s)]
  | j => [.atom j]

def itemTokens : List Json → List (List Token)
  | [] => []
  | j :: rest => tokens j :: itemTokens rest

def memberTokens : List (String × Json) → List (List Token)
  | [] => []
  | (key, j) :: rest => (.str (some key) :: .colon :: tokens j) :: memberTokens rest

end

theorem itemTokens_eq (items : List Json) : itemTokens items = items.map tokens := by
  induction items with
  | nil => rfl
  | cons j rest ih => rw [itemTokens, ih, List.map_cons]

def memberToken (m : String × Json) : List Token := .str (some m.1) :: .colon :: tokens m.2

theorem memberTokens_eq (members : List (String × Json)) :
    memberTokens members = members.map memberToken := by
  induction members with
  | nil => rfl
  | cons m rest ih => rw [memberTokens, ih, List.map_cons, memberToken]

/-! ## Parsing -/

theorem foldlM_of_step {p next : Parse} {token : Token} (h : p.step token = some next)
    (more : List Token) :
    (token :: more).foldlM Parse.step p = more.foldlM Parse.step next := by
  rw [List.foldlM_cons, h]
  rfl

/-- The parser makes `j` of its tokens. -/
def Parsed (j : Json) : Prop :=
  ∀ outer more, (j.tokens ++ more).foldlM Parse.step (.value outer) =
    more.foldlM Parse.step (.after outer j)

theorem parse_items {items : List Json} (h : ∀ j ∈ items, Parsed j) (ne : items ≠ [])
    (outer : List Frame) (before : List Json) (more : List Token) :
    (separated (items.map tokens) ++ .closeArray :: more).foldlM Parse.step
        (.value (.item before :: outer)) =
      more.foldlM Parse.step (.after outer (.arr (before.reverse ++ items))) := by
  induction items generalizing before with
  | nil => exact absurd rfl ne
  | cons j rest ih =>
    have value := h j (by simp) (.item before :: outer)
    cases rest with
    | nil =>
      simp only [List.map_cons, List.map_nil, separated]
      rw [value, foldlM_of_step rfl, List.reverse_cons]
    | cons next rest =>
      have others := ih (fun k hk => h k (by simp [hk])) (by simp) (j :: before)
      rw [List.reverse_cons, List.append_assoc, List.singleton_append] at others
      refine Eq.trans ?_ others
      change (j.tokens ++ .comma :: separated ((next :: rest).map tokens)
        ++ .closeArray :: more).foldlM Parse.step _ = _
      rw [List.append_assoc, value, List.cons_append, foldlM_of_step rfl]

theorem parse_members {members : List (String × Json)} (h : ∀ m ∈ members, Parsed m.2)
    (ne : members ≠ []) (outer : List Frame) (before : List (Option String × Json))
    (more : List Token) :
    (separated (members.map memberToken) ++ .closeObject :: more).foldlM Parse.step
        (.key outer before) =
      more.foldlM Parse.step
        (.after outer (object (before.reverse ++ members.map fun m => (some m.1, m.2)))) := by
  induction members generalizing before with
  | nil => exact absurd rfl ne
  | cons m rest ih =>
    have value (more : List Token) : (memberToken m ++ more).foldlM Parse.step (.key outer before) =
        more.foldlM Parse.step (.after (.member before (some m.1) :: outer) m.2) := by
      rw [memberToken, List.cons_append, List.cons_append, foldlM_of_step rfl, foldlM_of_step rfl]
      exact h m (by simp) _ _
    cases rest with
    | nil =>
      simp only [List.map_cons, List.map_nil, separated]
      rw [value, foldlM_of_step rfl, List.reverse_cons]
    | cons next rest =>
      have others := ih (fun k hk => h k (by simp [hk])) (by simp) ((some m.1, m.2) :: before)
      rw [List.reverse_cons, List.append_assoc, List.singleton_append] at others
      refine Eq.trans ?_ others
      change (memberToken m ++ .comma :: separated ((next :: rest).map memberToken)
        ++ .closeObject :: more).foldlM Parse.step _ = _
      rw [List.append_assoc, value, List.cons_append, foldlM_of_step rfl]

theorem object_some (members : List (String × Json)) :
    object (members.map fun m => (some m.1, m.2)) = .obj members := by
  have named : (members.map fun m => (some m.1, m.2)).mapM
      (fun m : Option String × Json => m.1.map (·, m.2)) = some members := by
    rw [List.mapM_map]
    induction members with
    | nil => rfl
    | cons m rest ih => simp [List.mapM_cons, ih]
  unfold object
  rw [named]

theorem separated_cons (ts : List Token) (rest : List (List Token)) :
    ∃ more, separated (ts :: rest) = ts ++ more := by
  cases rest with
  | nil => exact ⟨[], by simp [separated]⟩
  | cons us rest => exact ⟨.comma :: separated (us :: rest), rfl⟩

/-- No value begins with a closing bracket, so it is as good as the first item as after a comma. -/
theorem foldlM_firstItem (j : Json) (outer : List Frame) (more : List Token) :
    (j.tokens ++ more).foldlM Parse.step (.firstItem outer) =
      (j.tokens ++ more).foldlM Parse.step (.value (.item [] :: outer)) := by
  cases j <;> rfl

theorem parsed (j : Json) : Parsed j := by
  induction j using Json.induction with
  | leaf j items members =>
    cases j with
    | arr _ => cases items
    | obj _ => cases members
    | _ => exact fun _ _ => rfl
  | arr items ih =>
    intro outer more
    cases items with
    | nil => rfl
    | cons first rest =>
      have items := parse_items ih (by simp) outer [] more
      have start : (Json.arr (first :: rest)).tokens ++ more = .openArray ::
          (separated ((first :: rest).map tokens) ++ .closeArray :: more) := by
        simp [tokens, itemTokens_eq]
      obtain ⟨others, ho⟩ := separated_cons first.tokens (rest.map tokens)
      rw [List.map_cons, ho, List.append_assoc] at start items
      rw [start, foldlM_of_step rfl, foldlM_firstItem, items]
      rfl
  | obj members ih =>
    intro outer more
    cases members with
    | nil => rfl
    | cons first rest =>
      have members := parse_members ih (by simp) outer [] more
      have start : (Json.obj (first :: rest)).tokens ++ more = .openObject ::
          (separated ((first :: rest).map memberToken) ++ .closeObject :: more) := by
        simp [tokens, memberTokens_eq]
      obtain ⟨others, ho⟩ := separated_cons (memberToken first) (rest.map memberToken)
      rw [List.reverse_nil, List.nil_append, object_some] at members
      rw [List.map_cons, ho, List.append_assoc] at start members
      rw [start, foldlM_of_step rfl, ← members]
      rfl

/-! ## Spelling -/

def Blank (s : String) : Prop := ∀ c ∈ s.toList, isBlank c = true

theorem Blank.append {s t : String} (hs : Blank s) (ht : Blank t) : Blank (s ++ t) := by
  intro c hc
  rw [String.toList_append] at hc
  rcases List.mem_append.mp hc with hc | hc
  · exact hs c hc
  · exact ht c hc

theorem blank_empty : Blank "" := List.all_eq_true.mp rfl

theorem blank_newline : Blank "\n" := List.all_eq_true.mp rfl

theorem blank_indent (level : Nat) : Blank (Text.replicate level "  ") := by
  induction level with
  | zero => exact blank_empty
  | succ level ih => exact Blank.append (List.all_eq_true.mp rfl) ih

theorem Blank.endsWord {s : String} (h : Blank s) {rest : List Char} (hr : EndsWord rest) :
    EndsWord (s.toList ++ rest) := by
  intro c hc
  cases hs : s.toList with
  | nil =>
    rw [hs] at hc
    exact hr c hc
  | cons first others =>
    rw [hs] at hc
    cases hc
    exact isWordChar_of_isBlank (h c (by simp [hs]))

section Lists

variable {α : Type} {text : α → String} {spelled : α → List Token} {xs : List α}
  {opening gap closing : String}

theorem spells_separated (hg : Blank gap) (h : ∀ x ∈ xs, Spells (text x).toList (spelled x)) :
    Spells (joinWith ("," ++ gap) (xs.map text)).toList (separated (xs.map spelled)) := by
  have comma : Delimits [','] [.comma] := delimits_start rfl
  have mark : Delimits (',' :: gap.toList) [.comma] := comma.append (delimits_blanks hg)
  induction xs with
  | nil => exact delimits_nil.spells
  | cons x rest ih =>
    cases rest with
    | nil => exact h x (by simp)
    | cons next rest =>
      have others := ih fun y hy => h y (by simp [hy])
      have first : Delimits ((text x).toList ++ ',' :: gap.toList) (spelled x ++ [.comma]) := by
        apply (h x (by simp)).before mark
        rintro tail c ⟨⟩
        decide
      have all := first.before others
      simpa [joinWith, separated] using all

theorem delimits_listed (ho : Blank opening) (hg : Blank gap) (hc : Blank closing)
    {first last : Char} {one other : Token} (hf : Scan.start first = some (.between, [one]))
    (hl : Scan.start last = some (.between, [other])) (word : isWordChar last = false)
    (h : ∀ x ∈ xs, Spells (text x).toList (spelled x)) :
    Delimits (first :: (opening ++ joinWith ("," ++ gap) (xs.map text) ++ closing).toList ++ [last])
      (one :: separated (xs.map spelled) ++ [other]) := by
  have before := (delimits_start hf).append (delimits_blanks ho)
  have after := (delimits_blanks hc).append (delimits_start hl)
  have ends (rest : List Char) : EndsWord (closing.toList ++ [last] ++ rest) := by
    rw [List.append_assoc]
    apply hc.endsWord
    rintro c ⟨⟩
    exact word
  simpa using (before.before (spells_separated hg h)).before after ends

end Lists

section Brackets

variable {opening gap closing : String} {text : Json → String}

theorem delimits_arr (ho : Blank opening) (hg : Blank gap) (hc : Blank closing)
    {items : List Json} (h : ∀ j ∈ items, Spells (text j).toList j.tokens) :
    Delimits ("[" ++ (opening ++ joinWith ("," ++ gap) (items.map text) ++ closing) ++ "]").toList
      (arr items).tokens := by
  have all := delimits_listed ho hg hc
    (show Scan.start '[' = some (.between, [.openArray]) from rfl)
    (show Scan.start ']' = some (.between, [.closeArray]) from rfl) rfl h
  rw [tokens, itemTokens_eq]
  simpa using all

theorem delimits_obj (ho : Blank opening) (hg : Blank gap) (hc : Blank closing)
    {space : String} (hs : Blank space) {members : List (String × Json)}
    (h : ∀ m ∈ members, Spells (text m.2).toList m.2.tokens) :
    Delimits ("\x7b" ++ (opening ++ joinWith ("," ++ gap)
        (members.map fun m => quote m.1 ++ (":" ++ space) ++ text m.2) ++ closing) ++ "\x7d").toList
      (obj members).tokens := by
  have member : ∀ m ∈ members,
      Spells (quote m.1 ++ (":" ++ space) ++ text m.2).toList (memberToken m) := by
    intro m hm
    have colon : Delimits [':'] [.colon] := delimits_start rfl
    have name := (delimits_quote m.1).append (colon.append (delimits_blanks hs))
    simpa [memberToken] using name.before (h m hm)
  have all := delimits_listed ho hg hc
    (show Scan.start '\x7b' = some (.between, [.openObject]) from rfl)
    (show Scan.start '\x7d' = some (.between, [.closeObject]) from rfl) rfl member
  rw [tokens, memberTokens_eq]
  simpa using all

end Brackets

theorem compactItems_eq (items : List Json) : compactItems items = items.map compact := by
  induction items with
  | nil => rfl
  | cons j rest ih => rw [compactItems, ih, List.map_cons]

theorem compactMembers_eq (members : List (String × Json)) :
    compactMembers members = members.map fun m => quote m.1 ++ ":" ++ compact m.2 := by
  induction members with
  | nil => rfl
  | cons m rest ih => rw [compactMembers, ih, List.map_cons]

theorem Textual.spells_compact {j : Json} (h : Textual j) : Spells j.compact.toList j.tokens := by
  induction h with
  | null => exact spells_null
  | str s => exact (delimits_quote s).spells
  | @arr items _ ih =>
    have all := delimits_arr blank_empty blank_empty blank_empty ih
    simpa [compact, compactItems_eq] using all.spells
  | @obj members _ ih =>
    have all := delimits_obj blank_empty blank_empty blank_empty blank_empty ih
    simpa [compact, compactMembers_eq] using all.spells

theorem prettyItems_eq (level : Nat) (items : List Json) :
    prettyItems level items = items.map (pretty level) := by
  induction items with
  | nil => rfl
  | cons j rest ih => rw [prettyItems, ih, List.map_cons]

theorem prettyMembers_eq (level : Nat) (members : List (String × Json)) :
    prettyMembers level members = members.map fun m => quote m.1 ++ ": " ++ pretty level m.2 := by
  induction members with
  | nil => rfl
  | cons m rest ih => rw [prettyMembers, ih, List.map_cons]

theorem bracketed_eq (level : Nat) (first last : String) (items : List String) :
    ∃ opening gap closing, Blank opening ∧ Blank gap ∧ Blank closing ∧
      bracketed level first last items =
        first ++ (opening ++ joinWith ("," ++ gap) items ++ closing) ++ last := by
  have inner := blank_newline.append (blank_indent (level + 1))
  cases items with
  | nil => exact ⟨"", "", "", blank_empty, blank_empty, blank_empty, by simp [bracketed, joinWith]⟩
  | cons item rest =>
    refine ⟨_, _, _, inner, inner, blank_newline.append (blank_indent level), ?_⟩
    simp [bracketed, String.append_assoc]

theorem Textual.spells_pretty {j : Json} (h : Textual j) (level : Nat) :
    Spells (pretty level j).toList j.tokens := by
  induction h generalizing level with
  | null => exact spells_null
  | str s => exact (delimits_quote s).spells
  | @arr items _ ih =>
    obtain ⟨opening, gap, closing, ho, hg, hc, text⟩ :=
      bracketed_eq level "[" "]" (prettyItems (level + 1) items)
    rw [pretty, text, prettyItems_eq]
    exact (delimits_arr ho hg hc fun j hj => ih j hj (level + 1)).spells
  | @obj members _ ih =>
    obtain ⟨opening, gap, closing, ho, hg, hc, text⟩ :=
      bracketed_eq level "\x7b" "\x7d" (prettyMembers (level + 1) members)
    have space : Blank " " := List.all_eq_true.mp rfl
    rw [pretty, text, prettyMembers_eq]
    exact (delimits_obj ho hg hc space fun m hm => ih m hm (level + 1)).spells

/-! ## Nesting -/

def deepest (level : Nat) : List Token → Nat
  | [] => level
  | .openArray :: rest | .openObject :: rest => deepest (level + 1) rest
  | .closeArray :: rest | .closeObject :: rest => max level (deepest (level - 1) rest)
  | _ :: rest => deepest level rest

def nesting? (s : String) : Option Nat := (Scan.between.tokens s.toList).map (deepest 0)

theorem le_deepest (level : Nat) (tokens : List Token) : level ≤ deepest level tokens := by
  fun_induction deepest level tokens <;> omega

/-- Tokens that reach `height` levels further and close all of them. -/
def Climbs (tokens : List Token) (height : Nat) : Prop :=
  ∀ level more, deepest level (tokens ++ more) = max (level + height) (deepest level more)

theorem climbs_nil : Climbs [] 0 := by
  intro level more
  have below := le_deepest level more
  rw [List.nil_append]
  omega

theorem Climbs.append {ts us : List Token} {a b : Nat} (ha : Climbs ts a) (hb : Climbs us b) :
    Climbs (ts ++ us) (max a b) := by
  intro level more
  rw [List.append_assoc, ha, hb]
  omega

theorem Climbs.cons {token : Token} {ts : List Token} {height : Nat}
    (flat : ∀ level rest, deepest level (token :: rest) = deepest level rest)
    (h : Climbs ts height) : Climbs (token :: ts) height := by
  intro level more
  rw [List.cons_append, flat, h]

theorem Climbs.bracketed {first last : Token} {ts : List Token} {height : Nat}
    (opens : ∀ level rest, deepest level (first :: rest) = deepest (level + 1) rest)
    (closes : ∀ level rest, deepest level (last :: rest) = max level (deepest (level - 1) rest))
    (h : Climbs ts height) : Climbs (first :: ts ++ [last]) (height + 1) := by
  intro level more
  rw [List.cons_append, List.cons_append, opens, List.append_assoc, h, List.singleton_append,
    closes, Nat.add_sub_cancel]
  omega

theorem climbs_separated {α : Type} {spelled : α → List Token} {height : α → Nat} {xs : List α}
    (h : ∀ x ∈ xs, Climbs (spelled x) (height x)) :
    Climbs (separated (xs.map spelled)) ((xs.map height).foldr max 0) := by
  induction xs with
  | nil => exact climbs_nil
  | cons x rest ih =>
    cases rest with
    | nil => simpa [separated] using h x (by simp)
    | cons next rest =>
      have others := ih fun y hy => h y (by simp [hy])
      exact (h x (by simp)).append (others.cons fun _ _ => rfl)

theorem itemsDepth_eq (items : List Json) : itemsDepth items = (items.map depth).foldr max 0 := by
  induction items with
  | nil => rfl
  | cons j rest ih => rw [itemsDepth, ih, List.map_cons, List.foldr_cons]

theorem membersDepth_eq (members : List (String × Json)) :
    membersDepth members = (members.map fun m => m.2.depth).foldr max 0 := by
  induction members with
  | nil => rfl
  | cons m rest ih => rw [membersDepth, ih, List.map_cons, List.foldr_cons]

theorem climbs (j : Json) : Climbs j.tokens j.depth := by
  induction j using Json.induction with
  | leaf j items members =>
    cases j with
    | arr _ => cases items
    | obj _ => cases members
    | _ => exact climbs_nil.cons fun _ _ => rfl
  | arr items ih =>
    rw [tokens, itemTokens_eq, depth, itemsDepth_eq]
    exact (climbs_separated ih).bracketed (fun _ _ => rfl) fun _ _ => rfl
  | obj members ih =>
    have member : ∀ m ∈ members, Climbs (memberToken m) m.2.depth := fun m hm =>
      ((ih m hm).cons fun _ _ => rfl).cons fun _ _ => rfl
    rw [tokens, memberTokens_eq, depth, membersDepth_eq]
    exact (climbs_separated member).bracketed (fun _ _ => rfl) fun _ _ => rfl

/-! ## Reading what is written -/

def Writes (s : String) (j : Json) : Prop := Scan.between.tokens s.toList = some j.tokens

theorem Writes.of_spells {j : Json} {s blanks : String} (hs : Spells s.toList j.tokens)
    (hb : Blank blanks) : Writes (s ++ blanks) j := by
  have ends : EndsWord blanks.toList := by
    have none : EndsWord [] := by
      rintro c ⟨⟩
    simpa using hb.endsWord none
  have rest : Scan.between.tokens blanks.toList = some [] := by
    simpa [Scan.tokens, Scan.finish] using delimits_blanks hb []
  rw [Writes, String.toList_append, hs _ ends, rest]
  simp

theorem Textual.writes_compact {j : Json} (h : Textual j) : Writes j.compact j := by
  simpa using Writes.of_spells h.spells_compact blank_empty

theorem Textual.writes_pretty {j : Json} (h : Textual j) : Writes (pretty 0 j) j := by
  simpa using Writes.of_spells (h.spells_pretty 0) blank_empty

theorem Writes.parse?_eq {j : Json} {s : String} (hs : Writes s j) : parse? s = some j := by
  have value : j.tokens.foldlM Parse.step (.value []) = some (.after [] j) := by
    simpa using parsed j [] []
  rw [Json.parse?_eq, hs]
  simp [value, Parse.finish]

theorem Writes.nesting?_eq {j : Json} {s : String} (hs : Writes s j) :
    nesting? s = some j.depth := by
  have all := climbs j 0 []
  rw [nesting?, hs, Option.map_some]
  simpa [deepest] using all

end ClassLowering.Json
