import ClassLowering.Proofs.Printing.Nesting
import ClassLowering.Proofs.Printing.Reach
import ClassLowering.Proofs.Printing.Sheet

/-!
# Printed files are balanced

What is ensured along a program holds on the sheet that it is carried out on: instruction by
instruction for the program of one node, and by induction on the tree for the nodes that are visited
in between. So every node leaves a meter and the depth as it found them, and so does a whole file.
With the meter for all brackets this says that the file is balanced.
-/

set_option autoImplicit false

namespace ClassLowering

open Brackets (isBracket Balanced)

section Sheets

variable {σ : Type}

/-- A sheet is as the spot says, if the meter shows `start` before all that is written. -/
structure Sheet.At (m : Meter σ) (start : σ) (s : Sheet) (a : Spot σ) : Prop where
  depth : s.depth = a.depth
  opened : m.read start s.output = some a.opened
  line : a.ended → EndsLine s.output
  scope : ∀ className ∈ s.scope, Brackets.Lacks m.marks className

structure Frame.At (m : Meter σ) (start : σ) (f : Frame) (a : Spot σ) : Prop where
  sheet : f.sheet.At m start a
  replaced : ∀ className ∈ f.replaced, Brackets.Lacks m.marks className

/-- A way to write a node that leaves depth and brackets as they were, and ends the line of a node
that stands on lines of its own. -/
def Drawing.Keeps (m : Meter σ) (start : σ) (draw : Drawing) : Prop :=
  ∀ {pos outer s s' a}, s.At m start a → a.Fits m pos → draw pos outer s = .ok s' →
    s'.At m start { a with ended := pos.HasLines }

def Row.Keeps (m : Meter σ) (start : σ) (r : Row (Tree × Drawing)) : Prop :=
  ∀ index what p, r.child index what = .ok p → p.2.Keeps m start

variable {m : Meter σ} {start : σ}

theorem Sheet.At.begun {s : Sheet} {a : Spot σ} (h : s.At m start a) :
    Frame.At m start ⟨s, none⟩ a :=
  ⟨h, nofun⟩

theorem LineAfter.endsLine {ended : Prop} {s t : String} (h : LineAfter ended t)
    (before : ended → EndsLine s) : EndsLine (s ++ t) := by
  rcases h with lines | ⟨rfl, line⟩
  · exact lines.append s
  · rw [String.append_empty]
    exact before line

theorem Frame.At.push {f : Frame} {a : Spot σ} (h : f.At m start a) {text : String} {opened : σ}
    (read : m.read a.opened text = some opened) {ended : Prop}
    (line : ended → LineAfter a.ended text) :
    (f.push text).At m start { a with opened, ended } where
  sheet := {
    depth := h.sheet.depth
    opened := by
      change m.read start (f.sheet.output ++ text) = some opened
      rw [Meter.read_append, h.sheet.opened]
      exact read
    line := fun hl => (line hl).endsLine h.sheet.line
    scope := h.sheet.scope }
  replaced := h.replaced

theorem Sheet.keeps_indentation (s : Sheet) : m.Keeps s.indentation :=
  Meter.keeps_of_lacks (Brackets.lacks_replicate s.depth (m.lacks (by decide)))

theorem Instruction.run_at {r : Row (Tree × Drawing)} (below : r.Keeps m start) {outer : List Kind}
    {Q : Spot σ → Prop} {instruction : Instruction} {rest : Program} {f f' : Frame} {a : Spot σ}
    (here : f.At m start a) (ensured : Program.Ensures m Q (instruction :: rest) a)
    (ran : instruction.run r outer f = .ok f') :
    ∃ b, f'.At m start b ∧ Program.Ensures m Q rest b := by
  cases instruction with
  | push s =>
    obtain ⟨opened, read, ensured⟩ := ensured
    obtain rfl := Except.ok.inj ran
    exact ⟨_, here.push read id, ensured⟩
  | write s =>
    obtain ⟨opened, read, ensured⟩ := ensured
    obtain rfl := Except.ok.inj ran
    refine ⟨_, here.push ?_ fun line => .inl (line.append _), ensured⟩
    rw [Meter.read_append, f.sheet.keeps_indentation]
    exact read
  | line s =>
    obtain ⟨opened, read, ensured⟩ := ensured
    obtain rfl := Except.ok.inj ran
    have lineEnd : m.Keeps "\n" := Meter.keeps_plain (by decide)
    refine ⟨_, here.push ?_ fun _ => .inl ?_, ensured⟩
    · split
      · next empty =>
        rw [empty] at read
        exact (lineEnd _).trans read
      · rw [Meter.read_append, Meter.read_append, f.sheet.keeps_indentation]
        exact (congrArg (Option.bind · _) read).trans (lineEnd opened)
    · split
      · decide
      · exact EndsLine.append _ (by decide)
  | indent =>
    obtain rfl := Except.ok.inj ran
    have deeper : f.sheet.depth + 1 = a.depth + 1 := congrArg (· + 1) here.sheet.depth
    exact ⟨{ a with depth := a.depth + 1 }, ⟨{ here.sheet with depth := deeper }, here.replaced⟩,
      ensured⟩
  | outdent =>
    obtain ⟨depth, deep, ensured⟩ := ensured
    have deep' : f.sheet.depth = depth + 1 := here.sheet.depth.trans deep
    simp only [Instruction.run, deep'] at ran
    obtain rfl := Except.ok.inj ran
    exact ⟨{ a with depth }, ⟨{ here.sheet with depth := rfl }, here.replaced⟩, ensured⟩
  | define className =>
    obtain ⟨name, ensured⟩ := ensured
    obtain rfl := Except.ok.inj ran
    have named : ∀ c ∈ some className, Brackets.Lacks m.marks c := by simpa using name
    exact ⟨a, ⟨{ here.sheet with scope := named }, here.sheet.scope⟩, ensured⟩
  | restore =>
    obtain rfl := Except.ok.inj ran
    have back : Sheet.At m start { f.sheet with scope := f.replaced } a :=
      { here.sheet with scope := here.replaced }
    exact ⟨a, back.begun, ensured⟩
  | fail e => cases ran
  | visit index what pos =>
    obtain ⟨fits, ensured⟩ := ensured
    cases child : r.child index what with
    | error e => simp [Instruction.run, child] at ran
    | ok p =>
      simp only [Instruction.run, child, Stop.reading_ok] at ran
      obtain ⟨s, drawn, ran⟩ := bind_eq_ok.mp ran
      rw [← pure_eq_ok.mp ran]
      exact ⟨_, ⟨below index what p child here.sheet fits drawn, here.replaced⟩, ensured⟩

/-- What a program ensures holds after it. -/
theorem Program.run_at {r : Row (Tree × Drawing)} (below : r.Keeps m start) {outer : List Kind}
    {Q : Spot σ → Prop} {program : Program} {f f' : Frame} {a : Spot σ} (here : f.At m start a)
    (ensured : Ensures m Q program a) (ran : program.run r outer f = .ok f') :
    ∃ b, f'.At m start b ∧ Q b := by
  induction program generalizing f a with
  | nil =>
    obtain rfl := Except.ok.inj ran
    exact ⟨a, here, ensured⟩
  | cons instruction rest ih =>
    obtain ⟨next, step, ran⟩ := bind_eq_ok.mp ran
    obtain ⟨b, there, ensured⟩ := instruction.run_at below here ensured step
    exact ih there ensured ran

/-! ## Whole trees -/

variable {artifact : Artifact} {settings : Settings}
  (hs : ∀ s ∈ settings.strings, Brackets.Lacks m.marks s)

include hs in
theorem Tree.program_ensures {t : Tree} (ht : t.Lacks m.marks) {pos : Position} {outer : List Kind}
    {s : Sheet} {a : Spot σ} (here : s.At m start a) (fits : a.Fits m pos) :
    Program.Ensures m (fun b => ∃ ended, (pos.HasLines → ended) ∧ b = { a with ended })
      (t.program artifact settings s outer pos) a :=
  Row.program_keeps ht.row ⟨hs, here.scope⟩ fits.position a.depth a.opened a.ended _ fits.level
    fits.line fun ended line => ⟨ended, line, rfl⟩

theorem Tree.drawings_keep {t : Tree}
    (below : ∀ (index : Nat) (c : Tree), t.slots[index]? = some (.node c) →
      (c.draw artifact settings).Keeps m start) : (t.drawings artifact settings).Keeps m start := by
  intro index what p child
  obtain ⟨c, slot, rfl⟩ := Row.exists_of_child_map child
  exact below index c slot

include hs in
/-- A tree without the marks of a meter leaves meter and depth as they were. -/
theorem Tree.draw_keeps {t : Tree} (ht : t.Lacks m.marks) :
    (t.draw artifact settings).Keeps m start := by
  induction t using Tree.induction with
  | step t ih =>
    intro pos outer s s' a here fits drawn
    rw [draw_eq_run] at drawn
    obtain ⟨f, ran, drawn⟩ := bind_eq_ok.mp drawn
    obtain rfl := pure_eq_ok.mp drawn
    have below : (t.drawings artifact settings).Keeps m start :=
      drawings_keep fun index c slot => ih index c slot (ht.node slot)
    obtain ⟨_, there, ended, line, rfl⟩ :=
      Program.run_at below here.begun (program_ensures hs ht here fits) ran
    exact { there.sheet with line := fun lines => there.sheet.line (line lines) }

/-! ## Files -/

include hs in
theorem lacks_preamble (artifact : Artifact) :
    Brackets.Lacks m.marks (preamble artifact settings) := by
  have base := hs settings.runtime.base (by simp [Settings.strings])
  have own := hs settings.output.header (by simp [Settings.strings])
  have runtime := hs settings.runtime.header (by simp [Settings.strings])
  have included {lead path : String} (hl : Brackets.Lacks isBracket lead)
      (hp : Brackets.Lacks m.marks path) : Brackets.Lacks m.marks (lead ++ path ++ "\"\n") := by
    simp only [Brackets.lacks_append]
    exact ⟨⟨m.lacks hl, hp⟩, m.lacks (by decide)⟩
  have opened :
      Brackets.Lacks m.marks ("\nusing namespace " ++ settings.runtime.base ++ ";\n\n") := by
    simp only [Brackets.lacks_append]
    exact ⟨⟨m.lacks (by decide), base⟩, m.lacks (by decide)⟩
  unfold preamble
  rw [String.append_assoc, String.append_assoc, Brackets.lacks_append, ← String.append_assoc]
  refine ⟨?_, opened⟩
  cases artifact with
  | header => exact included (by decide) runtime
  | implementation => exact included (by decide) own
  | entryPoint => exact included (by decide) own

include hs in
theorem Sheet.opening_at (artifact : Artifact) (start : σ) :
    (Sheet.opening artifact settings).At m start ⟨0, start, True⟩ where
  depth := rfl
  opened := Meter.keeps_of_lacks (lacks_preamble hs artifact) start
  line _ := EndsLine.append _ (by decide)
  scope := nofun

theorem Spot.opening_fits (level : m.level start = 0) :
    (⟨0, start, True⟩ : Spot σ).Fits m .item :=
  ⟨level.symm, fun _ => trivial, trivial⟩

include hs in
theorem render_keeps {root : Tree} (hr : root.Lacks m.marks) (start : σ) (level : m.level start = 0)
    {text : String} (h : render settings artifact root = .ok text) :
    m.read start text = some start ∧ EndsLine text := by
  have drawn : root.draw artifact settings .item [] (.opening artifact settings) =
      .ok ⟨text, 0, none⟩ := by
    rw [draw_opening, h]
    rfl
  have there := root.draw_keeps hs hr (Sheet.opening_at hs artifact start)
    (Spot.opening_fits level) drawn
  exact ⟨there.opened, there.line trivial⟩

end Sheets

/-- Every file whose tree and settings bring no brackets of their own is balanced, and its last line
is ended. -/
theorem render_balanced {settings : Settings} {artifact : Artifact} {root : Tree} {text : String}
    (hs : ∀ s ∈ settings.strings, Brackets.Lacks isBracket s) (hr : root.Lacks isBracket)
    (h : render settings artifact root = .ok text) : Balanced text ∧ EndsLine text :=
  render_keeps (m := .brackets) hs hr [] rfl h

namespace Samples

def loopOverAlternatives : Tree :=
  let name (s : String) : Tree := .node .primaryIdentifier [.text s]
  let last : Tree := .group .conditionalStatement [name "b", .node .block [], looseStatement]
  .group .whileStatement [name "go", .group .conditionalStatement [name "a", looseStatement, last]]

def loopText : String :=
  preamble .implementation {}
    ++ ("while (go) \x7b\n    if (a) \x7b\n        (\x7b\n        \x7d)\n    \x7d else "
      ++ "if (b) \x7b\x7d else \x7b\n        (\x7b\n        \x7d)\n    \x7d\n\x7d\n")

theorem loopText_balanced :
    render {} .implementation loopOverAlternatives = .ok loopText ∧
      Balanced loopText ∧ EndsLine loopText := by
  have printed : render {} .implementation loopOverAlternatives = .ok loopText := rfl
  refine ⟨printed, render_balanced ?_ ?_ printed⟩
  · decide
  · intro s hs
    revert s
    decide

end Samples

end ClassLowering
