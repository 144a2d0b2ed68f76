import ClassLowering.Proofs.Printing.Balance

/-!
# Levels and lines while a file is written

`Calls` says with which sheet each node is called while a file is written. At every call the depth
is the number of braces that are open on the sheet, and the line is ended where the node is an item.
This is what a node has to find for its own instructions to keep it up, so it passes from a call to
the calls that are made in it.
-/

set_option autoImplicit false

namespace ClassLowering

/-- Writing `root` onto the sheet `start` calls an occurrence with the sheet as it is by then. -/
inductive Calls (artifact : Artifact) (settings : Settings) (root : Tree) (start : Sheet) :
    Occurrence → Position → List Kind → Sheet → Prop
  | root : Calls artifact settings root start ⟨[], root⟩ .item [] start
  | nested {o : Occurrence} {pos pos' : Position} {outer : List Kind} {s : Sheet} {f : Frame}
      (first : Program) {rest : Program} {index : Nat} {what : String} {child : Tree} :
      Calls artifact settings root start o pos outer s →
      o.tree.program artifact settings s outer pos = first ++ .visit index what pos' :: rest →
      first.run (o.tree.drawings artifact settings) outer ⟨s, none⟩ = .ok f →
      o.tree.slots[index]? = some (.node child) →
      Calls artifact settings root start ⟨o.path ++ [index], child⟩ pos' (o.tree.kind :: outer)
        f.sheet

section Calls

variable {artifact : Artifact} {settings : Settings} {root : Tree}

/-- Wherever a node is called while a file is written, it can be printed there. -/
theorem Calls.fits {σ : Type} {m : Meter σ} (hs : ∀ s ∈ settings.strings, Brackets.Lacks m.marks s)
    (hr : root.Lacks m.marks) (start : σ) (level : m.level start = 0) {o : Occurrence}
    {pos : Position} {outer : List Kind} {s : Sheet}
    (h : Calls artifact settings root (.opening artifact settings) o pos outer s) :
    o.tree.Lacks m.marks ∧ ∃ a, s.At m start a ∧ a.Fits m pos := by
  induction h with
  | root => exact ⟨hr, _, Sheet.opening_at hs artifact start, Spot.opening_fits level⟩
  | @nested o pos pos' outer s f first rest index what child _ program ran slot ih =>
    obtain ⟨ht, a, here, fits⟩ := ih
    have ensured : Program.Ensures m _ (o.tree.program artifact settings s outer pos) a :=
      Tree.program_ensures hs ht here fits
    -- the instructions up to the visit have been carried out, so what the visit asks for holds
    rw [program, Program.ensures_append] at ensured
    have below : (o.tree.drawings artifact settings).Keeps m start :=
      Tree.drawings_keep fun _ c slot => c.draw_keeps hs (ht.node slot)
    obtain ⟨b, there, next⟩ := Program.run_at below here.begun ensured ran
    exact ⟨ht.node slot, b, there.sheet, next.1⟩

theorem Sheet.receive_eq_ok {s s' : Sheet} {x : Except Fault String} (h : s.receive x = .ok s') :
    ∃ text, x = .ok text ∧ s' = s.push text := by
  cases x with
  | error e => cases h
  | ok text => exact ⟨text, rfl, (Except.ok.inj h).symm⟩

end Calls

/-- Wherever an item is written onto the sheet of a file, the line before is ended and as many
braces are open as levels. Writing it adds text that ends its lines, and puts depth and scope back;
no level is left that was not entered. What is on the sheet in the end is the file. -/
theorem sheet_keeps_levels (artifact : Artifact) {settings : Settings} {root : Tree}
    (hs : ∀ s ∈ settings.strings, Brackets.Lacks isBrace s) (hr : root.Lacks isBrace) :
    (∀ (o : Occurrence) (outer : List Kind) (s : Sheet),
      Calls artifact settings root (.opening artifact settings) o .item outer s →
        EndsLine s.output ∧
        (s.depth : Int) = s.output.toList.count '\x7b' - s.output.toList.count '\x7d' ∧
        o.tree.draw artifact settings .item outer s ≠ .error .outermost ∧
        ∀ s', o.tree.draw artifact settings .item outer s = .ok s' →
          (∃ text, s'.output = s.output ++ text) ∧ EndsLine s'.output ∧
            s'.depth = s.depth ∧ s'.scope = s.scope) ∧
    (∀ text, render settings artifact root = .ok text ↔
      root.draw artifact settings .item [] (.opening artifact settings) = .ok ⟨text, 0, none⟩) ∧
    ∀ e, render settings artifact root = .error e ↔
      root.draw artifact settings .item [] (.opening artifact settings) = .error (.fault e) := by
  refine ⟨?_, ?_, ?_⟩
  · intro o outer s called
    obtain ⟨ht, a, here, fits⟩ := called.fits (m := .braces) hs hr 0 rfl
    have opened := here.opened
    rw [Meter.braces_read, Int.zero_add, Option.some.injEq] at opened
    have level : (s.depth : Int) = a.opened := by
      rw [here.depth]
      exact fits.level
    refine ⟨here.line (fits.line trivial), level.trans opened.symm, ?_, ?_⟩
    · rw [o.tree.draw_eq_receive]
      cases o.tree.print .item (s.context artifact settings outer) <;> exact nofun
    · intro s' drawn
      have ended := (o.tree.draw_keeps hs ht here fits drawn).line trivial
      rw [o.tree.draw_eq_receive] at drawn
      obtain ⟨text, -, rfl⟩ := Sheet.receive_eq_ok drawn
      exact ⟨⟨text, rfl⟩, ended, rfl, rfl⟩
  · intro text
    rw [draw_opening]
    cases render settings artifact root <;> simp
  · intro e
    rw [draw_opening]
    cases render settings artifact root <;> simp

namespace Samples

def blockAsBody : Tree := .group .classBody [statementInBlock]

def classAroundBlock : Tree :=
  .node .classDeclaration [.absent, .text "Ring", .absent, .absent, .absent, .node blockAsBody]

def sheetInBlock : Sheet := ⟨preamble .implementation {} ++ "\x7b\n", 1, some "Ring"⟩

theorem statement_called :
    Calls .implementation {} classAroundBlock (.opening .implementation {})
      ⟨[5, 0, 0], looseStatement⟩ .item [.block, .classBody, .classDeclaration] sheetInBlock := by
  have body : Calls .implementation {} classAroundBlock (.opening .implementation {})
      ⟨[5], blockAsBody⟩ .item [.classDeclaration] ⟨preamble .implementation {}, 0, some "Ring"⟩ :=
    .nested [.define "Ring"] .root rfl rfl rfl
  exact .nested [.write "", .push "\x7b\n", .indent] (.nested [] body rfl rfl rfl) rfl rfl rfl

theorem statement_keeps_levels :
    (∀ s ∈ ({} : Settings).strings, Brackets.Lacks isBrace s) ∧ classAroundBlock.Lacks isBrace ∧
      EndsLine sheetInBlock.output ∧
      ((1 : Nat) : Int) =
        sheetInBlock.output.toList.count '\x7b' - sheetInBlock.output.toList.count '\x7d' ∧
      ∃ s', looseStatement.draw .implementation {} .item [.block, .classBody, .classDeclaration]
          sheetInBlock = .ok s' ∧
        (∃ text, s'.output = sheetInBlock.output ++ text) ∧ EndsLine s'.output ∧
          s'.depth = 1 ∧ s'.scope = some "Ring" := by
  have plain : ∀ s ∈ ({} : Settings).strings, Brackets.Lacks isBrace s := by decide
  have names : classAroundBlock.Lacks isBrace := by
    intro s hs
    revert s
    decide
  obtain ⟨ended, depth, -, kept⟩ :=
    (sheet_keeps_levels .implementation plain names).1 _ _ _ statement_called
  exact ⟨plain, names, ended, depth, _, rfl, kept _ rfl⟩

end Samples

end ClassLowering
