import ClassLowering.Printing.Declaration

/-!
# Whole files

`Tree.print` is what a tree prints at a position in a context; `render` is the text of a file: the
lines that open it, and the tree as an item with nothing around it.
-/

set_option autoImplicit false

namespace ClassLowering

def printRule (r : Row Part) : Printer
  | .item, ctx => itemText r ctx
  | .inline, ctx => inlineText r ctx
  | .braces, ctx => bracesText r ctx
  | .alternative, ctx => alternativeText r ctx
  | .loopHead, ctx => loopHeadText r ctx
  | .declarator, ctx => declaratorText r ctx
  | .declarators, ctx => declaratorsText r ctx
  | .definitions lead, ctx => definitionsText r ctx lead
  | .shifted, ctx => shiftedText r ctx
  | .bounds, ctx => boundsText r ctx

def Tree.print : Tree → Printer := Tree.fold printRule

theorem Tree.print_eq (t : Tree) : t.print = printRule (t.row.map fun s => (s, s.print)) :=
  Tree.fold_eq printRule t

def preamble (artifact : Artifact) (settings : Settings) : String :=
  let includes := match artifact with
    | .header => "#pragma once\n\n#include \"" ++ settings.runtime.header ++ "\"\n"
    | .implementation => "#include <iostream>\n#include \"" ++ settings.output.header ++ "\"\n"
    | .entryPoint => "#include \"" ++ settings.output.header ++ "\"\n"
  includes ++ "\nusing namespace " ++ settings.runtime.base ++ ";\n\n"

/-- The text of the file that holds a tree. -/
def render (settings : Settings) (artifact : Artifact) (root : Tree) : Except Fault String := do
  return preamble artifact settings ++ (← root.print .item { artifact, settings })

end ClassLowering
