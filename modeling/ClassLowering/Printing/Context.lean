import ClassLowering.Settings
import ClassLowering.Text
import ClassLowering.Tree.Basic

/-!
# How a node is printed

What a node prints is an attribute of the node in its surroundings. The surroundings are a
`Context`: the artifact to produce, the settings, the nesting depth, the class whose members are
being defined, and the kinds of the enclosing nodes. A node prints differently in different
positions, as a line of its own or inside an expression, so its attribute is a function of the
position too. Printing rules see a `Row Part`: the slots of one node, with each nested tree beside
the way it prints.
-/

set_option autoImplicit false

namespace ClassLowering

inductive Artifact where
  | header
  | implementation
  | entryPoint
  deriving DecidableEq, Repr

structure Context where
  artifact : Artifact
  settings : Settings
  depth : Nat := 0
  scope : Option String := none
  /-- The kinds of the enclosing nodes, innermost first. -/
  outer : List Kind := []
  deriving Repr

namespace Context

def indentation (ctx : Context) : String := Text.replicate ctx.depth "    "

/-- A whole line; an empty one is not indented. -/
def line (ctx : Context) (s : String) : String :=
  if s = "" then "\n" else ctx.indentation ++ s ++ "\n"

def lines (ctx : Context) (ss : List String) : String := Text.concat (ss.map ctx.line)

def deeper (ctx : Context) : Context := { ctx with depth := ctx.depth + 1 }

def inside (ctx : Context) (k : Kind) : Context := { ctx with outer := k :: ctx.outer }

def defining (ctx : Context) (className : String) : Context :=
  { ctx with scope := some className }

def runtime (ctx : Context) : RuntimeSettings := ctx.settings.runtime

def isMember (ctx : Context) : Bool := ctx.outer[0]? = some .classBody

def isTwoBelowBlock (ctx : Context) : Bool := ctx.outer[1]? = some .block

end Context

/-- Where a node is printed, seen from the node around it. -/
inductive Position where
  | item
  | inline
  | braces
  | alternative
  | loopHead
  | declarator
  | declarators
  /-- As one line for each declared name, each starting with `lead`. -/
  | definitions (lead : String)
  | shifted
  | bounds
  deriving DecidableEq, Repr

abbrev Printer := Position → Context → Except Fault String

abbrev Part := Tree × Printer

namespace Part

def tree (p : Part) : Tree := p.1

def print (p : Part) : Printer := p.2

end Part

namespace Row

def printChildren (r : Row Part) (pos : Position) (ctx : Context) :
    Except Fault (List String) :=
  r.children.mapM fun p => p.print pos (ctx.inside r.kind)

end Row

end ClassLowering
