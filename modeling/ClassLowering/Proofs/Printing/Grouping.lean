import ClassLowering.Proofs.Printing.Replace
import ClassLowering.Tree.Build

/-!
# What the text of an expression shows of its grouping

Operands are written without brackets, so the text of an expression is the row of its names, signs
and operators from left to right, and shows no more than that row. Two expressions may have the same
row and be grouped in different ways. Among those that are grouped as the row is read (products
before sums, equal operators from the left, a negation of the name after it) there is only one
for each row.
-/

set_option autoImplicit false

namespace ClassLowering

structure Word where
  text : String
  plain : ∀ c ∈ text.toList, c ≠ ' ' ∧ c ≠ '!'

def Word.ofLetters (s : String) (h : s.toList.all Char.isAlpha = true) : Word where
  text := s
  plain c hc := by
    have letter := List.all_eq_true.mp h c hc
    constructor <;> rintro rfl <;> cases letter

inductive Operator where
  | plus
  | minus
  | times
  | divided
  | modulo
  deriving DecidableEq

namespace Operator

def sign : Operator → Char
  | plus => '+'
  | minus => '-'
  | times => '*'
  | divided => '/'
  | modulo => '%'

theorem sign_injective {a b : Operator} (h : a.sign = b.sign) : a = b := by
  cases a <;> cases b <;> first | rfl | cases h

def kind : Operator → Kind
  | plus | minus => .additiveExpression
  | times | divided | modulo => .multiplicativeExpression

def level : Operator → Nat
  | plus | minus => 0
  | times | divided | modulo => 1

theorem level_lt_two (op : Operator) : op.level < 2 := by
  cases op <;> decide

end Operator

inductive Formula where
  | name (word : Word)
  | negation (operand : Formula)
  | binary (operator : Operator) (left right : Formula)

inductive Token where
  | word (w : Word)
  | bang
  | operator (op : Operator)

def Token.chars : Token → List Char
  | word w => w.text.toList
  | bang => ['!']
  | operator op => [' ', op.sign, ' ']

namespace Formula

def toTree : Formula → Tree
  | name w => .leaf .primaryIdentifier w.text
  | negation e => .node .logicalNegationExpression [.node e.toTree]
  | binary op l r => .node op.kind [.node l.toTree, .text (.ofList [op.sign]), .node r.toTree]

def tokens : Formula → List Token
  | name w => [.word w]
  | negation e => .bang :: e.tokens
  | binary op l r => l.tokens ++ .operator op :: r.tokens

def text (e : Formula) : String := .ofList (e.tokens.flatMap Token.chars)

theorem text_name (w : Word) : (name w).text = w.text := by
  simp [text, tokens, Token.chars]

theorem text_negation (e : Formula) : (negation e).text = "!" ++ e.text := by
  simp [text, tokens, Token.chars]

theorem text_binary (op : Operator) (l r : Formula) :
    (binary op l r).text = l.text ++ " " ++ .ofList [op.sign] ++ " " ++ r.text := by
  apply String.toList_injective
  simp [text, tokens, Token.chars]

def kind : Formula → Kind
  | name _ => .primaryIdentifier
  | negation _ => .logicalNegationExpression
  | binary op _ _ => op.kind

theorem kind_toTree (e : Formula) : e.toTree.kind = e.kind := by
  cases e <;> exact Tree.kind_node _ _

theorem print_toTree (e : Formula) (ctx : Context) : e.toTree.print .inline ctx = .ok e.text := by
  induction e generalizing ctx with
  | name w =>
    have read : (name w).toTree.parts.text 0 "identifier" = .ok w.text := rfl
    rw [Tree.print_eq]
    change inlineText (name w).toTree.parts ctx = _
    unfold inlineText
    rw [Tree.kind_parts, kind_toTree, text_name]
    exact read
  | negation e ih =>
    have operand : (negation e).toTree.parts.child 0 "operand" = .ok (e.toTree, e.toTree.print) :=
      Tree.child_parts rfl _
    rw [Tree.print_eq]
    change inlineText (negation e).toTree.parts ctx = _
    unfold inlineText
    rw [Tree.kind_parts, kind_toTree]
    simp [kind, Row.operand, operand, Part.print, ih, text_negation]
  | binary op l r ihl ihr =>
    have left : (binary op l r).toTree.parts.child 0 "left operand" =
        .ok (l.toTree, l.toTree.print) :=
      Tree.child_parts rfl _
    have right : (binary op l r).toTree.parts.child 2 "right operand" =
        .ok (r.toTree, r.toTree.print) :=
      Tree.child_parts rfl _
    have sign : (binary op l r).toTree.parts.text 1 "operator" = .ok (.ofList [op.sign]) := rfl
    rw [Tree.print_eq]
    change inlineText (binary op l r).toTree.parts ctx = _
    unfold inlineText
    rw [Tree.kind_parts, kind_toTree]
    cases op <;> simp [kind, Operator.kind, Row.operand, left, right, sign, Part.print, ihl, ihr,
      text_binary]

end Formula

/-! ## The text shows the tokens -/

/-- Rows of names and operators by turns, where an operand is due or not. -/
inductive Readable : (due : Bool) → List Token → Prop
  | word {rest : List Token} (w : Word) : Readable false rest → Readable true (.word w :: rest)
  | bang {rest : List Token} : Readable true rest → Readable true (.bang :: rest)
  | stop : Readable false []
  | operator {rest : List Token} (op : Operator) :
    Readable true rest → Readable false (.operator op :: rest)

theorem Readable.append {due : Bool} {ts us : List Token} (op : Operator) (h : Readable due ts)
    (next : Readable true us) : Readable due (ts ++ .operator op :: us) := by
  induction h with
  | word w _ ih => exact .word w ih
  | bang _ ih => exact .bang ih
  | stop => exact .operator op next
  | operator op' _ ih => exact .operator op' ih

theorem Formula.readable_tokens (e : Formula) : Readable true e.tokens := by
  induction e with
  | name w => exact .word w .stop
  | negation e ih => exact .bang ih
  | binary op l r ihl ihr => exact ihl.append op ihr

theorem Readable.blank {ts : List Token} (h : Readable false ts) :
    ts.flatMap Token.chars = [] ∨ ∃ rest, ts.flatMap Token.chars = ' ' :: rest := by
  cases h with
  | stop => exact .inl rfl
  | operator op _ => exact .inr ⟨_, rfl⟩

theorem Word.ends_at_blank {v w : Word} {xs ys : List Char}
    (hx : xs = [] ∨ ∃ rest, xs = ' ' :: rest) (hy : ys = [] ∨ ∃ rest, ys = ' ' :: rest)
    (h : v.text.toList ++ xs = w.text.toList ++ ys) :
    v = w ∧ xs = ys := by
  have ends : ∀ (u : Word) (zs : List Char), (zs = [] ∨ ∃ rest, zs = ' ' :: rest) →
      (u.text.toList ++ zs).takeWhile (· ≠ ' ') = u.text.toList := by
    intro u zs hz
    have whole : ∀ c ∈ u.text.toList, decide (c ≠ ' ') = true :=
      fun c hc => decide_eq_true (u.plain c hc).1
    rw [List.takeWhile_append_of_pos whole]
    rcases hz with rfl | ⟨rest, rfl⟩ <;> simp
  have same : v.text.toList = w.text.toList := by rw [← ends v xs hx, h, ends w ys hy]
  constructor
  · cases v
    cases w
    simpa using String.toList_injective same
  · rw [same] at h
    exact List.append_cancel_left h

theorem Word.ne_bang {w : Word} {xs ys : List Char} (hx : xs = [] ∨ ∃ rest, xs = ' ' :: rest) :
    w.text.toList ++ xs ≠ '!' :: ys := by
  intro h
  cases hw : w.text.toList with
  | nil =>
    rw [hw] at h
    rcases hx with rfl | ⟨rest, rfl⟩ <;> simp at h
  | cons c cs =>
    have plain := (w.plain c (by simp [hw])).2
    rw [hw] at h
    exact plain (List.cons.inj h).1

theorem Readable.chars_injective {due : Bool} {ts us : List Token} (hts : Readable due ts)
    (hus : Readable due us) (h : ts.flatMap Token.chars = us.flatMap Token.chars) : ts = us := by
  induction hts generalizing us with
  | word v ht ih =>
    cases hus with
    | word w hu =>
      obtain ⟨rfl, rest⟩ := Word.ends_at_blank ht.blank hu.blank h
      rw [ih hu rest]
    | bang hu => exact absurd h (Word.ne_bang ht.blank)
  | bang ht ih =>
    cases hus with
    | word w hu => exact absurd h.symm (Word.ne_bang hu.blank)
    | bang hu => rw [ih hu (List.cons.inj h).2]
  | stop =>
    cases hus with
    | stop => rfl
    | operator op _ => cases h
  | operator op ht ih =>
    cases hus with
    | stop => cases h
    | operator op' hu =>
      simp only [List.flatMap_cons, Token.chars, List.cons_append, List.cons.injEq] at h
      obtain ⟨-, sign, -, rest⟩ := h
      rw [Operator.sign_injective sign, ih hu rest]

theorem Formula.text_eq_iff (e₁ e₂ : Formula) : e₁.text = e₂.text ↔ e₁.tokens = e₂.tokens := by
  constructor
  · intro h
    have chars := congrArg String.toList h
    simp only [text, String.toList_ofList] at chars
    exact e₁.readable_tokens.chars_injective e₂.readable_tokens chars
  · intro h
    rw [text, h, text]

/-! ## The tokens show a conventional grouping -/

namespace Formula

def fits : Nat → Formula → Bool
  | _, name _ => true
  | _, negation e => e.fits 2
  | level, binary op l r => level ≤ op.level && l.fits op.level && r.fits (op.level + 1)

/-- Products stand inside sums, equal operators are grouped from the left, and only names and
negations are negated. -/
def isConventional (e : Formula) : Bool := e.fits 0

theorem level_le {e : Formula} {level : Nat} (h : e.fits level = true) {op : Operator}
    (hop : .operator op ∈ e.tokens) : level ≤ op.level := by
  induction e generalizing level with
  | name w => simp [tokens] at hop
  | negation e ih =>
    have high := ih h (by simpa [tokens] using hop)
    have low := op.level_lt_two
    omega
  | binary op' l r ihl ihr =>
    simp only [fits, Bool.and_eq_true, decide_eq_true_eq] at h
    obtain ⟨⟨here, left⟩, right⟩ := h
    simp only [tokens, List.mem_append, List.mem_cons, Token.operator.injEq] at hop
    rcases hop with hl | rfl | hr
    · exact Nat.le_trans here (ihl left hl)
    · exact here
    · have := ihr right hr
      omega

end Formula

theorem Token.split_at_last {P : Token → Prop} {l l' r r' : List Token} {t t' : Token} (ht : P t)
    (ht' : P t') (hr : ∀ u ∈ r, ¬ P u) (hr' : ∀ u ∈ r', ¬ P u) (h : l ++ t :: r = l' ++ t' :: r') :
    l = l' ∧ t = t' ∧ r = r' := by
  rcases List.append_eq_append_iff.mp h with ⟨m, hl, hm⟩ | ⟨m, hl, hm⟩
  · cases m with
    | nil => simp_all
    | cons u m =>
      have inside : t' ∈ r := by
        rw [(List.cons.inj hm).2]
        simp
      exact absurd ht' (hr t' inside)
  · cases m with
    | nil => simp_all
    | cons u m =>
      have inside : t ∈ r' := by
        rw [(List.cons.inj hm).2]
        simp
      exact absurd ht (hr' t inside)

namespace Formula

theorem no_operator {e : Formula} (h : e.fits 2 = true) {op : Operator} :
    .operator op ∉ e.tokens := by
  intro hop
  have high := level_le h hop
  have low := op.level_lt_two
  omega

theorem operator_mem_tokens (op : Operator) (l r : Formula) :
    .operator op ∈ (binary op l r).tokens := by
  simp [tokens]

theorem tokens_binary_injective {op op' : Operator} {l r l' r' : Formula} {level : Nat}
    (h₁ : (binary op l r).fits level = true) (h₂ : (binary op' l' r').fits level = true)
    (h : (binary op l r).tokens = (binary op' l' r').tokens) :
    op = op' ∧ l.tokens = l'.tokens ∧ r.tokens = r'.tokens := by
  simp only [fits, Bool.and_eq_true, decide_eq_true_eq] at h₁ h₂
  obtain ⟨⟨-, left₁⟩, right₁⟩ := h₁
  obtain ⟨⟨-, left₂⟩, right₂⟩ := h₂
  -- Each side binds as loosely as its own operator, which the other side has as well.
  have upper : op'.level ≤ op.level := by
    have own : (binary op' l' r').fits op'.level = true := by simp [fits, left₂, right₂]
    exact level_le own (h ▸ operator_mem_tokens op l r)
  have lower : op.level ≤ op'.level := by
    have own : (binary op l r).fits op.level = true := by simp [fits, left₁, right₁]
    exact level_le own (h ▸ operator_mem_tokens op' l' r')
  have same : op'.level = op.level := Nat.le_antisymm upper lower
  have beyond : ∀ {e : Formula}, e.fits (op.level + 1) = true → ∀ t ∈ e.tokens,
      ¬ ∃ o, t = .operator o ∧ o.level = op.level := by
    rintro e he t hm ⟨o, rfl, ho⟩
    have := level_le he hm
    omega
  rw [same] at right₂
  obtain ⟨hl, hop, hr⟩ := Token.split_at_last
    (P := fun t => ∃ o, t = .operator o ∧ o.level = op.level)
    ⟨op, rfl, rfl⟩ ⟨op', rfl, same⟩ (beyond right₁) (beyond right₂) h
  exact ⟨Token.operator.inj hop, hl, hr⟩

/-- A conventional grouping can be read off the tokens. -/
theorem tokens_injective {e₁ e₂ : Formula} {level : Nat} (h₁ : e₁.fits level = true)
    (h₂ : e₂.fits level = true) (h : e₁.tokens = e₂.tokens) : e₁ = e₂ := by
  induction e₁ generalizing e₂ level with
  | name v =>
    cases e₂ with
    | name w => cases h; rfl
    | negation e => cases h
    | binary op l r => exact absurd (h ▸ operator_mem_tokens op l r) (no_operator rfl)
  | negation e ih =>
    cases e₂ with
    | name w => cases h
    | negation e' => rw [ih h₁ h₂ (List.cons.inj h).2]
    | binary op l r =>
      have none : (negation e).fits 2 = true := h₁
      exact absurd (h ▸ operator_mem_tokens op l r) (no_operator none)
  | binary op l r ihl ihr =>
    cases e₂ with
    | name w => exact absurd (h ▸ operator_mem_tokens op l r) (no_operator rfl)
    | negation e' =>
      have none : (negation e').fits 2 = true := h₂
      exact absurd (h ▸ operator_mem_tokens op l r) (no_operator none)
    | binary op' l' r' =>
      obtain ⟨rfl, left, right⟩ := tokens_binary_injective h₁ h₂ h
      simp only [fits, Bool.and_eq_true, decide_eq_true_eq] at h₁ h₂
      rw [ihl h₁.1.2 h₂.1.2 left, ihr h₁.2 h₂.2 right]

theorem isInline_kind (e : Formula) : e.toTree.kind.isInline = true := by
  rw [kind_toTree]
  cases e with
  | name w => rfl
  | negation e => rfl
  | binary op l r => cases op <;> rfl

theorem kind_ne (e : Formula) :
    e.kind ≠ .block ∧ e.kind ≠ .statementBlock ∧ e.kind ≠ .conditionalStatement := by
  cases e with
  | name w => simp [kind]
  | negation e => simp [kind]
  | binary op l r => cases op <;> simp [kind, Operator.kind]

theorem alike (e₁ e₂ : Formula) {pos : Position} {ctx : Context} {frame : String × String}
    (framed : pos.frame? ctx = some frame) : Alike pos e₁.toTree e₂.toTree where
  block := by simp [Tree.is, kind_toTree, kind_ne]
  statementBlock := by simp [Tree.is, kind_toTree, kind_ne]
  conditional := by simp [Tree.is, kind_toTree, kind_ne]
  count := by
    rintro rfl
    cases framed

theorem print_framed (e : Formula) {pos : Position} {ctx : Context} {opening closing : String}
    (framed : pos.frame? ctx = some (opening, closing)) :
    e.toTree.print pos ctx = .ok (opening ++ e.text ++ closing) := by
  rw [Tree.print_framed e.isInline_kind framed, e.print_toTree]
  rfl

end Formula

/-! ## In the place of another expression -/

/-- A printed file shows of an expression in it the tokens and nothing else: with another expression
in its place the file is printed as well, and it is the same file just where the tokens are the
same. So it shows which of the conventional groupings it was. -/
theorem printed_tokens {settings : Settings} {artifact : Artifact} {root : Tree} {path : Path}
    {e₁ : Formula} {before text₁ opening closing : String} {pos : Position} {ctx : Context}
    (reached : Reaches root { artifact, settings } before ⟨path, e₁.toTree⟩ pos ctx)
    (framed : pos.frame? ctx = some (opening, closing))
    (printed : render settings artifact root = .ok text₁) (e₂ : Formula) :
    ∃ text₂, render settings artifact (root.replaceAt path e₂.toTree) = .ok text₂ ∧
      (text₁ = text₂ ↔ e₁.tokens = e₂.tokens) ∧
      (e₁.isConventional = true → e₂.isConventional = true → text₁ = text₂ → e₁ = e₂) := by
  obtain ⟨body, hbody, rfl⟩ := render_eq_ok.mp printed
  obtain ⟨own, after, hown, rfl, exchange⟩ := reached.print_replaceAt hbody
  obtain rfl : opening ++ e₁.text ++ closing = own :=
    Except.ok.inj ((e₁.print_framed framed).symm.trans hown)
  have other := exchange e₂.toTree _ (e₁.alike e₂ framed) (e₂.print_framed framed)
  have same_text :
      preamble artifact settings ++ (before ++ (opening ++ e₁.text ++ closing) ++ after) =
      preamble artifact settings ++ (before ++ (opening ++ e₂.text ++ closing) ++ after) ↔
      e₁.tokens = e₂.tokens := by
    rw [← Formula.text_eq_iff]
    simp only [String.append_right_inj, String.append_left_inj]
  refine ⟨preamble artifact settings ++ (before ++ (opening ++ e₂.text ++ closing) ++ after), ?_,
    same_text, ?_⟩
  · exact render_eq_ok.mpr ⟨_, other, rfl⟩
  · intro h₁ h₂ heq
    exact Formula.tokens_injective h₁ h₂ (same_text.mp heq)

namespace Samples

def nameA : Formula := .name (.ofLetters "a" (by decide))

def nameB : Formula := .name (.ofLetters "b" (by decide))

def nameC : Formula := .name (.ofLetters "c" (by decide))

def sumWithProduct : Formula := .binary .plus nameA (.binary .times nameB nameC)

def productWithSum : Formula := .binary .times (.binary .plus nameA nameB) nameC

def asStatement (e : Formula) : Tree := .group .expressionStatement [e.toTree]

theorem reaches_sumWithProduct :
    Reaches (asStatement sumWithProduct) { artifact := .implementation, settings := {} } ""
      ⟨[0], sumWithProduct.toTree⟩ .inline
      { artifact := .implementation, settings := {}, outer := [.expressionStatement] } := by
  have steps : (asStatement sumWithProduct).script
      { artifact := .implementation, settings := {} } .item =
      [.write ""] ++ .print 0 "expression" .inline .level :: [.write ";", .write "\n"] := rfl
  exact .nested .root steps rfl rfl

theorem sumWithProduct_tokens :
    render {} .implementation (asStatement sumWithProduct) =
      .ok (preamble .implementation {} ++ "a + b * c;\n") ∧
    ∃ text, render {} .implementation ((asStatement sumWithProduct).replaceAt [0]
        productWithSum.toTree) = .ok text ∧
      preamble .implementation {} ++ "a + b * c;\n" = text := by
  obtain ⟨text, printed, same, -⟩ := printed_tokens reaches_sumWithProduct rfl rfl productWithSum
  exact ⟨rfl, text, printed, same.mpr rfl⟩

/-- Different trees in the same place of the same file, and one text. -/
theorem grouping_lost : sumWithProduct.toTree ≠ productWithSum.toTree ∧
    render {} .implementation (asStatement sumWithProduct) =
      render {} .implementation (asStatement productWithSum) ∧
    render {} .implementation (asStatement productWithSum) =
      .ok (preamble .implementation {} ++ "a + b * c;\n") := by
  refine ⟨?_, rfl, rfl⟩
  intro same
  have kinds := congrArg Tree.kind same
  rw [Formula.kind_toTree, Formula.kind_toTree] at kinds
  cases kinds

end Samples

end ClassLowering
