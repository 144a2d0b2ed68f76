import ClassLowering.Json.Reader
import ClassLowering.Json.Writer

/-!
# The tokens of a text

The reader scans and parses at the same time. What it reads is what the parser makes of all the
tokens of the text, so the two can be looked at apart. `Spells` says which tokens a piece of text
has wherever it stands: a word ends only where no character of a word follows, and every other token
ends by itself, which is `Delimits`. A string that is written with escapes is scanned as the string.
-/

set_option autoImplicit false

namespace ClassLowering.Json

def Scan.tokens : Scan → List Char → Option (List Token)
  | s, [] => s.finish
  | s, c :: rest => do
    let (next, tokens) ← s.step c
    return tokens ++ (← next.tokens rest)

/-- Scanning first and parsing afterwards reads the same. -/
theorem foldlM_step_eq (s : Scan) (p : Parse) (cs : List Char) :
    (do (← cs.foldlM Reader.step ⟨s, p⟩).finish) = (do
      let tokens ← s.tokens cs
      (← tokens.foldlM Parse.step p).finish) := by
  induction cs generalizing s p with
  | nil =>
    simp [Scan.tokens, Reader.finish]
  | cons c rest ih =>
    rw [List.foldlM_cons, Scan.tokens, Reader.step]
    cases hs : s.step c with
    | none => rfl
    | some next =>
      obtain ⟨next, tokens⟩ := next
      simp only [Option.bind_eq_bind, Option.bind_some, Option.pure_def]
      cases hp : tokens.foldlM Parse.step p with
      | none =>
        cases next.tokens rest with
        | none => rfl
        | some others => simp [List.foldlM_append, hp]
      | some p' =>
        have later := ih next p'
        cases ht : next.tokens rest with
        | none => simpa [ht] using later
        | some others => simpa [ht, List.foldlM_append, hp] using later

theorem parse?_eq (s : String) : parse? s = (do
    let tokens ← Scan.between.tokens s.toList
    (← tokens.foldlM Parse.step (.value [])).finish) :=
  foldlM_step_eq .between (.value []) s.toList

/-! ## Pieces of text -/

def EndsWord (rest : List Char) : Prop := ∀ c ∈ rest.head?, isWordChar c = false

def Spells (cs : List Char) (tokens : List Token) : Prop :=
  ∀ rest, EndsWord rest →
    Scan.between.tokens (cs ++ rest) = (Scan.between.tokens rest).map (tokens ++ ·)

def Delimits (cs : List Char) (tokens : List Token) : Prop :=
  ∀ rest, Scan.between.tokens (cs ++ rest) = (Scan.between.tokens rest).map (tokens ++ ·)

theorem Delimits.spells {cs : List Char} {tokens : List Token} (h : Delimits cs tokens) :
    Spells cs tokens :=
  fun rest _ => h rest

theorem Delimits.before {a b : List Char} {ts us : List Token} (ha : Delimits a ts)
    (hb : Spells b us) : Spells (a ++ b) (ts ++ us) := by
  intro rest hr
  rw [List.append_assoc, ha, hb rest hr, Option.map_map]
  simp [Function.comp_def]

theorem Delimits.append {a b : List Char} {ts us : List Token} (ha : Delimits a ts)
    (hb : Delimits b us) : Delimits (a ++ b) (ts ++ us) := by
  intro rest
  rw [List.append_assoc, ha, hb, Option.map_map]
  simp [Function.comp_def]

theorem Spells.before {a b : List Char} {ts us : List Token} (ha : Spells a ts)
    (hb : Delimits b us) (ends : ∀ rest, EndsWord (b ++ rest)) : Delimits (a ++ b) (ts ++ us) := by
  intro rest
  rw [List.append_assoc, ha _ (ends rest), hb, Option.map_map]
  simp [Function.comp_def]

theorem delimits_nil : Delimits [] [] := by
  intro rest
  simp

theorem delimits_start {c : Char} {tokens : List Token}
    (h : Scan.start c = some (.between, tokens)) : Delimits [c] tokens := by
  intro rest
  have first : Scan.between.tokens ([c] ++ rest) =
      (Scan.start c).bind fun next => (next.1.tokens rest).map (next.2 ++ ·) := by
    simp only [List.singleton_append, Scan.tokens, Scan.step, Option.map_eq_bind]
    rfl
  rw [first, h]
  rfl

theorem delimits_blanks {cs : List Char} (h : ∀ c ∈ cs, isBlank c = true) : Delimits cs [] := by
  induction cs with
  | nil => exact delimits_nil
  | cons c rest ih =>
    have first : Delimits [c] [] := delimits_start (by simp [Scan.start, h c (by simp)])
    exact first.append (ih fun d hd => h d (by simp [hd]))

/-! ## Words -/

theorem tokens_of_step {s next : Scan} {c : Char} (h : s.step c = some (next, []))
    (rest : List Char) : s.tokens (c :: rest) = next.tokens rest := by
  simp [Scan.tokens, h]

theorem tokens_word (chars : List Char) {rest : List Char} (h : EndsWord rest) :
    (Scan.word chars).tokens rest =
      (wordToken chars.reverse).bind fun token => (Scan.between.tokens rest).map (token :: ·) := by
  cases rest with
  | nil =>
    simp only [Scan.tokens, Scan.finish]
    cases wordToken chars.reverse <;> rfl
  | cons c rest =>
    have hc : isWordChar c = false := h c rfl
    simp only [Scan.tokens, Scan.step, hc]
    cases wordToken chars.reverse with
    | none => rfl
    | some token =>
      cases hs : Scan.start c with
      | none => rfl
      | some next => cases ht : next.1.tokens rest <;> simp [ht]

theorem tokens_word_append (chars : List Char) {cs rest : List Char}
    (h : ∀ c ∈ cs, isWordChar c = true) :
    (Scan.word chars).tokens (cs ++ rest) = (Scan.word (cs.reverse ++ chars)).tokens rest := by
  induction cs generalizing chars with
  | nil => rfl
  | cons c cs ih =>
    have step : (Scan.word chars).step c = some (.word (c :: chars), []) := by
      rw [Scan.step, if_pos (h c (by simp))]
    rw [List.cons_append, tokens_of_step step, ih _ fun d hd => h d (by simp [hd])]
    simp

theorem isWordChar_of_isBlank {c : Char} (h : isBlank c = true) : isWordChar c = false := by
  simp only [isBlank, Bool.or_eq_true, decide_eq_true_eq] at h
  rcases h with ((rfl | rfl) | rfl) | rfl <;> decide

theorem spells_word {cs : List Char} {token : Token} (ne : cs ≠ [])
    (h : ∀ c ∈ cs, isWordChar c = true) (read : wordToken cs = some token) :
    Spells cs [token] := by
  intro rest ends
  obtain ⟨c, cs, rfl⟩ := List.exists_cons_of_ne_nil ne
  have word := h c (by simp)
  have seen : ¬isBlank c = true := fun blank => by simp [isWordChar_of_isBlank blank] at word
  have start : Scan.between.step c = some (.word [c], []) := by
    simp only [Scan.step, Scan.start, if_neg seen, if_pos word]
  rw [List.cons_append, tokens_of_step start, tokens_word_append _ fun d hd => h d (by simp [hd]),
    tokens_word _ ends]
  simp [read]

theorem spells_null : Spells "null".toList [.atom .null] :=
  spells_word (by simp) (List.all_eq_true.mp rfl) rfl

/-! ## Strings -/

def codeUnit? : List Char → Option Nat
  | [a, b, c, d] => do
    let first ← hexDigit? a
    let second ← hexDigit? b
    let third ← hexDigit? c
    let fourth ← hexDigit? d
    return 16 * (16 * (16 * first + second) + third) + fourth
  | _ => none

/-- The characters between the quotes of a string, and the characters that they stand for. -/
inductive Letters : List Char → List Char → Prop where
  | nil : Letters [] []
  | plain {c : Char} {text cs : List Char} : c ≠ '"' → c ≠ '\\' → 0x20 ≤ c.toNat →
    Letters text cs → Letters (c :: text) (c :: cs)
  | escape {e c : Char} {text cs : List Char} : escaped? e = some c.toNat →
    Letters text cs → Letters ('\\' :: e :: text) (c :: cs)
  | unit {c : Char} {digits text cs : List Char} : codeUnit? digits = some c.toNat →
    Letters text cs → Letters ('\\' :: 'u' :: (digits ++ text)) (c :: cs)
  /-- A character beyond the code units is written as the two halves of a surrogate pair. -/
  | pair {c : Char} {high low : Nat} {first second text cs : List Char} :
    codeUnit? first = some high → codeUnit? second = some low →
    isHighSurrogate high = true → isLowSurrogate low = true →
    c.toNat = 0x10000 + (high - 0xD800) * 0x400 + (low - 0xDC00) → Letters text cs →
    Letters ('\\' :: 'u' :: (first ++ '\\' :: 'u' :: (second ++ text))) (c :: cs)

theorem tokens_escape (points : List Nat) {c : Char} {point : Nat} (h : escaped? c = some point)
    (rest : List Char) : (Scan.string points).tokens ('\\' :: c :: rest) =
      (Scan.string (point :: points)).tokens rest := by
  have hu : c ≠ 'u' := by
    rintro rfl
    cases h
  have letter : (Scan.escape points).step c = some (.string (point :: points), []) := by
    simp [Scan.step, hu, h]
  rw [tokens_of_step rfl, tokens_of_step letter]

theorem codeUnit?_eq_some {digits : List Char} {point : Nat} (h : codeUnit? digits = some point) :
    ∃ a b c d first second third fourth, digits = [a, b, c, d] ∧
      hexDigit? a = some first ∧ hexDigit? b = some second ∧ hexDigit? c = some third ∧
      hexDigit? d = some fourth ∧
      16 * (16 * (16 * first + second) + third) + fourth = point := by
  unfold codeUnit? at h
  split at h
  · simp only [Option.bind_eq_bind, Option.bind_eq_some_iff, Option.pure_def,
      Option.some.injEq] at h
    obtain ⟨first, hfirst, second, hsecond, third, hthird, fourth, hfourth, value⟩ := h
    exact ⟨_, _, _, _, first, second, third, fourth, rfl, hfirst, hsecond, hthird, hfourth, value⟩
  · cases h

theorem tokens_codeUnit (points : List Nat) {digits : List Char} {point : Nat}
    (h : codeUnit? digits = some point) (rest : List Char) :
    (Scan.string points).tokens ('\\' :: 'u' :: (digits ++ rest)) =
      (Scan.string (point :: points)).tokens rest := by
  obtain ⟨a, b, c, d, first, second, third, fourth, rfl, ha, hb, hc, hd, rfl⟩ := codeUnit?_eq_some h
  simp [Scan.tokens, Scan.step, ha, hb, hc, hd]

theorem decodePoints_cons {point : Nat} (high : isHighSurrogate point = false)
    (low : isLowSurrogate point = false) (rest : List Nat) :
    decodePoints (point :: rest) = (decodePoints rest).map (Char.ofNat point :: ·) := by
  cases rest with
  | nil => simp [decodePoints, high, low]
  | cons next rest => simp [decodePoints, high, low]

theorem decodePoints_char (c : Char) (rest : List Nat) :
    decodePoints (c.toNat :: rest) = (decodePoints rest).map (c :: ·) := by
  have valid : c.toNat < 0xD800 ∨ 0xDFFF < c.toNat ∧ c.toNat < 0x110000 := c.valid
  have high : isHighSurrogate c.toNat = false := by
    simp only [isHighSurrogate, Bool.and_eq_false_iff, decide_eq_false_iff_not]
    omega
  have low : isLowSurrogate c.toNat = false := by
    simp only [isLowSurrogate, Bool.and_eq_false_iff, decide_eq_false_iff_not]
    omega
  rw [decodePoints_cons high low, Char.ofNat_toNat]

/-- However its characters are written, a string is scanned as code points that stand for them. -/
theorem Letters.tokens {text cs : List Char} (h : Letters text cs) :
    ∃ points, decodePoints points = some cs ∧ ∀ before rest,
      (Scan.string before).tokens (text ++ rest) =
        (Scan.string (points.reverse ++ before)).tokens rest := by
  induction h with
  | nil => exact ⟨[], rfl, fun _ _ => rfl⟩
  | @plain c text cs hquote hbackslash hc _ ih =>
    obtain ⟨points, decoded, read⟩ := ih
    refine ⟨c.toNat :: points, by rw [decodePoints_char, decoded, Option.map_some], ?_⟩
    intro before rest
    have step : (Scan.string before).step c = some (.string (c.toNat :: before), []) := by
      rw [Scan.step, if_neg hquote, if_neg hbackslash, if_neg (by omega)]
    rw [List.cons_append, tokens_of_step step, read]
    simp
  | @escape e c text cs he _ ih =>
    obtain ⟨points, decoded, read⟩ := ih
    refine ⟨c.toNat :: points, by rw [decodePoints_char, decoded, Option.map_some], ?_⟩
    intro before rest
    rw [List.cons_append, List.cons_append, tokens_escape before he, read]
    simp
  | @unit c digits text cs hd _ ih =>
    obtain ⟨points, decoded, read⟩ := ih
    refine ⟨c.toNat :: points, by rw [decodePoints_char, decoded, Option.map_some], ?_⟩
    intro before rest
    rw [List.cons_append, List.cons_append, List.append_assoc, tokens_codeUnit before hd, read]
    simp
  | @pair c high low first second text cs hfirst hsecond hhigh hlow value _ ih =>
    obtain ⟨points, decoded, read⟩ := ih
    refine ⟨high :: low :: points, ?_, ?_⟩
    · simp [decodePoints, hhigh, hlow, decoded, ← value]
    · intro before rest
      have text_eq : '\\' :: 'u' :: (first ++ '\\' :: 'u' :: (second ++ text)) ++ rest =
          '\\' :: 'u' :: (first ++ '\\' :: 'u' :: (second ++ (text ++ rest))) := by
        simp
      rw [text_eq, tokens_codeUnit before hfirst, tokens_codeUnit _ hsecond, read]
      simp

theorem Letters.delimits {text cs : List Char} (h : Letters text cs) :
    Delimits ('"' :: text ++ ['"']) [.str (some (String.ofList cs))] := by
  intro rest
  obtain ⟨points, decoded, read⟩ := h.tokens
  have parts : '"' :: text ++ ['"'] ++ rest = '"' :: (text ++ '"' :: rest) := by
    simp
  rw [parts, tokens_of_step rfl, read, Scan.tokens, Scan.step, if_pos rfl, List.append_nil,
    List.reverse_reverse, decoded]
  simp only [Option.map_eq_bind]
  rfl

/-! ## Strings with as few escapes as possible -/

theorem hexDigit?_hexChar (n : Nat) : hexDigit? (hexChar n) = some (n % 16) := by
  have all : ∀ d : Fin 16, hexDigit? (Nat.digitChar d.val) = some d.val := by decide
  exact all ⟨n % 16, Nat.mod_lt n (by decide)⟩

theorem Letters.escapeChar {text cs : List Char} (c : Char) (h : Letters text cs) :
    Letters (escapeChar c ++ text) (c :: cs) := by
  unfold Json.escapeChar
  split
  case h_8 hquote hbackslash _ _ _ _ _ =>
    split
    · next hc =>
      -- A control character has four hexadecimal digits, of which the first two are zero.
      have digits : codeUnit? ['0', '0', hexChar (c.toNat / 16), hexChar c.toNat] =
          some c.toNat := by
        have zero : hexDigit? '0' = some 0 := rfl
        have value : 16 * (c.toNat / 16 % 16) + c.toNat % 16 = c.toNat := by omega
        simp [codeUnit?, hexDigit?_hexChar, zero, value]
      exact .unit digits h
    · next hc => exact .plain hquote hbackslash (by omega) h
  all_goals exact .escape rfl h

theorem letters_escaped (cs : List Char) : Letters (cs.flatMap escapeChar) cs := by
  induction cs with
  | nil => exact .nil
  | cons c cs ih => exact ih.escapeChar c

theorem delimits_quote (s : String) : Delimits (quote s).toList [.str (some s)] := by
  simpa [quote] using (letters_escaped s.toList).delimits

end ClassLowering.Json
