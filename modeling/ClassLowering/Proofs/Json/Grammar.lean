import ClassLowering.Proofs.Json.RoundTrip
import Mathlib.Algebra.Group.Nat.Defs
import Mathlib.Data.List.TakeWhile

/-!
# The texts of a value

A value has many texts: blanks stand anywhere between its tokens, and a character of a string is
written as it is or in one of its escaped forms. `TextOf` is their grammar, with integers of at most
19 digits for numbers. The reader finds the tokens of the value in each of its texts.
-/

set_option autoImplicit false

namespace ClassLowering.Json

open Text (joinWith)

def IsInteger (literal : List Char) : Prop :=
  ∃ digits, (literal = digits ∨ literal = '-' :: digits) ∧ digits ≠ [] ∧
    (∀ c ∈ digits, c.isDigit = true) ∧ (digits.head? = some '0' → digits = ['0']) ∧
    digits.length ≤ 19

structure MemberText where
  key : String
  name : String
  value : Json
  text : String

inductive TextOf : Json → String → Prop where
  | null : TextOf .null "null"
  | yes : TextOf (.bool true) "true"
  | no : TextOf (.bool false) "false"
  | integer {literal : String} : IsInteger literal.toList → TextOf (.number literal) literal
  | str {s : String} {text : List Char} : Letters text s.toList →
    TextOf (.str s) (String.ofList ('"' :: text ++ ['"']))
  | emptyArr {gap : String} : Blank gap → TextOf (.arr []) ("[" ++ gap ++ "]")
  | arr {parts : List (Json × String)} : (∀ part ∈ parts, TextOf part.1 part.2) →
    TextOf (.arr (parts.map Prod.fst)) ("[" ++ joinWith "," (parts.map Prod.snd) ++ "]")
  | emptyObj {gap : String} : Blank gap → TextOf (.obj []) ("\x7b" ++ gap ++ "\x7d")
  | obj {parts : List MemberText} : (∀ part ∈ parts, TextOf (.str part.key) part.name) →
    (∀ part ∈ parts, TextOf part.value part.text) →
    TextOf (.obj (parts.map fun part => (part.key, part.value)))
      ("\x7b" ++ joinWith "," (parts.map fun part => part.name ++ ":" ++ part.text) ++ "\x7d")
  | blanks {j : Json} {s before after : String} : Blank before → Blank after → TextOf j s →
    TextOf j (before ++ s ++ after)

/-! ## Integers -/

namespace Number

theorem absorb_dropped {digits : List Char} (h : ∀ c ∈ digits, c.isDigit = true) {n k : Nat}
    (small : n < 10 ^ k) (few : k + digits.length ≤ 19) : (absorb n digits).2 = [] := by
  induction digits generalizing n k with
  | nil => rfl
  | cons c rest ih =>
    have digit : digitValue c < 10 := by
      have hc := h c (by simp)
      simp only [Char.isDigit, Bool.and_eq_true, decide_eq_true_eq] at hc
      have below : c.toNat ≤ 57 := hc.2
      simp only [digitValue, show '0'.toNat = 48 from rfl]
      omega
    have next : 10 * n + digitValue c < 10 ^ (k + 1) := by
      rw [Nat.pow_succ]
      omega
    rw [List.length_cons] at few
    have room : 10 * n + digitValue c < significandBound :=
      calc 10 * n + digitValue c < 10 ^ (k + 1) := next
        _ ≤ 10 ^ 19 := Nat.pow_le_pow_right (by decide) (by omega)
        _ < significandBound := by decide
    rw [absorb, if_pos room]
    exact ih (fun d hd => h d (by simp [hd])) next (by omega)

theorem ofWhole_exponent {digits : List Char} (h : ∀ c ∈ digits, c.isDigit = true)
    (few : digits.length ≤ 19) : (ofWhole digits).exponent = 0 := by
  have dropped := absorb_dropped h (show 0 < 10 ^ 0 by decide) (by omega)
  simp [ofWhole, dropped]

end Number

theorem parse?_minus {c : Char} (h : c ≠ '-') (rest : List Char) :
    Number.parse? ('-' :: c :: rest) = Number.parse? (c :: rest) := by
  simp [Number.parse?, h]

theorem IsInteger.parse? {literal : List Char} (h : IsInteger literal) :
    ∃ d, Number.parse? literal = some d ∧ d.isFinite = true := by
  obtain ⟨digits, sign, ne, all, zero, few⟩ := h
  obtain ⟨first, rest, rfl⟩ := List.exists_cons_of_ne_nil ne
  have digit := all first (by simp)
  have minus : first ≠ '-' := by
    rintro rfl
    cases digit
  have parsed : Number.parse? literal = Number.parse? (first :: rest) := by
    obtain rfl | rfl := sign
    · rfl
    · exact parse?_minus minus rest
  refine ⟨(Number.ofWhole (first :: rest)).scale 0, ?_, ?_⟩
  · rw [parsed]
    by_cases hz : first = '0'
    · subst hz
      cases zero rfl
      rfl
    · have whole : (first :: rest).takeWhile Char.isDigit = first :: rest :=
        List.takeWhile_eq_self_iff.mpr all
      have nothing : (first :: rest).dropWhile Char.isDigit = [] :=
        List.dropWhile_eq_nil_iff.mpr all
      have tail : Number.tail? (Number.ofWhole (first :: rest)) [] =
          some ((Number.ofWhole (first :: rest)).scale 0) := rfl
      simp [Number.parse?, minus, whole, nothing, digit, tail]
  · have exponent : ((Number.ofWhole (first :: rest)).scale 0).exponent = 0 := by
      simp [Number.Decimal.scale, Number.ofWhole_exponent all few]
    simp [Number.Decimal.isFinite, exponent, Double.isFiniteProduct]

theorem IsInteger.chars {literal : List Char} (h : IsInteger literal) {c : Char}
    (hc : c ∈ literal) : c = '-' ∨ c.isDigit = true := by
  obtain ⟨digits, sign, -, all, -, -⟩ := h
  obtain rfl | rfl := sign
  · exact .inr (all c hc)
  · rcases List.mem_cons.mp hc with rfl | hc
    · exact .inl rfl
    · exact .inr (all c hc)

theorem IsInteger.wordToken_eq {literal : List Char} (h : IsInteger literal) :
    wordToken literal = some (.atom (.number (String.ofList literal))) := by
  have named {word : String} {c : Char} (hc : c ∈ word.toList) (minus : c ≠ '-')
      (digit : c.isDigit = false) : String.ofList literal ≠ word := by
    rintro rfl
    rw [String.toList_ofList] at hc
    rcases h.chars hc with rfl | hd
    · exact minus rfl
    · rw [digit] at hd
      cases hd
  obtain ⟨d, parsed, finite⟩ := h.parse?
  unfold wordToken
  split
  · next same => exact absurd same (named (show 'n' ∈ _ by simp) (by decide) rfl)
  · next same => exact absurd same (named (show 't' ∈ _ by simp) (by decide) rfl)
  · next same => exact absurd same (named (show 'f' ∈ _ by simp) (by decide) rfl)
  · simp [parsed, finite]

theorem IsInteger.spells {literal : List Char} (h : IsInteger literal) :
    Spells literal [.atom (.number (String.ofList literal))] := by
  have ne : literal ≠ [] := by
    obtain ⟨digits, rfl | rfl, ne, -⟩ := h
    · exact ne
    · simp
  apply spells_word ne _ h.wordToken_eq
  intro c hc
  rcases h.chars hc with rfl | hd
  · rfl
  · simp [isWordChar, Char.isAlphanum, hd]

/-! ## All values -/

theorem Spells.blanks {s before after : String} {tokens : List Token} (h : Spells s.toList tokens)
    (hb : Blank before) (ha : Blank after) : Spells (before ++ s ++ after).toList tokens := by
  have inner : Spells (s.toList ++ after.toList) tokens := by
    intro rest ends
    rw [List.append_assoc, h _ (ha.endsWord ends), delimits_blanks ha rest]
    simp
  simpa using (delimits_blanks hb).before inner

/-- The reader finds the tokens of a value in each of its texts, wherever the text stands. -/
theorem TextOf.spells {j : Json} {s : String} (h : TextOf j s) : Spells s.toList j.tokens := by
  induction h with
  | null => exact spells_null
  | yes => exact spells_word (by simp) (List.all_eq_true.mp rfl) rfl
  | no => exact spells_word (by simp) (List.all_eq_true.mp rfl) rfl
  | integer digits => simpa [tokens] using digits.spells
  | str letters => simpa [tokens] using letters.delimits.spells
  | emptyArr hg =>
    have none : ∀ j ∈ ([] : List Json), Spells (compact j).toList j.tokens := by simp
    simpa [joinWith] using (delimits_arr hg blank_empty blank_empty none).spells
  | @arr parts _ ih =>
    have all := delimits_listed blank_empty blank_empty blank_empty
      (show Scan.start '[' = some (.between, [.openArray]) from rfl)
      (show Scan.start ']' = some (.between, [.closeArray]) from rfl) rfl ih
    simpa [tokens, itemTokens_eq, Function.comp_def] using all.spells
  | emptyObj hg =>
    have none : ∀ m ∈ ([] : List (String × Json)), Spells (compact m.2).toList m.2.tokens := by simp
    simpa [joinWith] using (delimits_obj hg blank_empty blank_empty blank_empty none).spells
  | @obj parts _ _ names values =>
    have member : ∀ part ∈ parts, Spells (part.name ++ ":" ++ part.text).toList
        (memberToken (part.key, part.value)) := by
      intro part hp
      have colon : Delimits [':'] [.colon] := delimits_start rfl
      have name := (names part hp).before colon (by
        rintro rest c ⟨⟩
        decide)
      simpa [memberToken, tokens] using name.before (values part hp)
    have all := delimits_listed blank_empty blank_empty blank_empty
      (show Scan.start '\x7b' = some (.between, [.openObject]) from rfl)
      (show Scan.start '\x7d' = some (.between, [.closeObject]) from rfl) rfl member
    simpa [tokens, memberTokens_eq, Function.comp_def] using all.spells
  | blanks hb ha _ ih => exact ih.blanks hb ha

theorem TextOf.writes {j : Json} {s : String} (h : TextOf j s) : Writes s j := by
  simpa using Writes.of_spells h.spells blank_empty

theorem TextOf.isSound {j : Json} {s : String} (h : TextOf j s) : j.isSound = true := by
  induction h with
  | arr _ ih =>
    rw [Json.isSound, allSound_iff]
    simpa using ih
  | obj _ _ _ ih =>
    rw [Json.isSound, membersSound_iff]
    simpa using ih
  | blanks _ _ _ ih => exact ih
  | _ => rfl

/-! ## Texts on one line -/

theorem textOf_quote (s : String) : TextOf (.str s) (quote s) := .str (letters_escaped s.toList)

theorem Textual.textOf_compact {j : Json} (h : Textual j) : TextOf j j.compact := by
  induction h with
  | null => exact .null
  | str s => exact textOf_quote s
  | @arr items _ ih =>
    have parts : ∀ part ∈ items.map fun j => (j, j.compact), TextOf part.1 part.2 :=
      List.forall_mem_map.mpr ih
    simpa [compact, compactItems_eq, Function.comp_def] using TextOf.arr parts
  | @obj members _ ih =>
    let part (m : String × Json) : MemberText := ⟨m.1, quote m.1, m.2, m.2.compact⟩
    have names : ∀ p ∈ members.map part, TextOf (.str p.key) p.name :=
      List.forall_mem_map.mpr fun m _ => textOf_quote m.1
    have values : ∀ p ∈ members.map part, TextOf p.value p.text :=
      List.forall_mem_map.mpr ih
    simpa [compact, compactMembers_eq, Function.comp_def, part] using TextOf.obj names values

end ClassLowering.Json
