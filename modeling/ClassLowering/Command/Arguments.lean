/-!
# Command line arguments

A call names a command and gives it a bundle and options, in any order. An option takes the rest of
its argument or the next argument as its value; `--` ends the options. Every option is given at most
once, and only to a command that has it.
-/

set_option autoImplicit false

namespace ClassLowering

inductive Command where
  | headerTree
  | header
  | loweredTrees
  | implementation
  | entryPoint
  | run
  deriving DecidableEq, Repr

namespace Command

def ofName? : String → Option Command
  | "header-ast" => some headerTree
  | "header" => some header
  | "lowered-ast" => some loweredTrees
  | "implementation" => some implementation
  | "main" => some entryPoint
  | "run" => some run
  | _ => none

def canPrint : Command → Bool
  | header | implementation | entryPoint => true
  | _ => false

end Command

inductive ValueOption where
  | config
  | out
  | mainClass
  deriving DecidableEq, Repr

namespace ValueOption

def ofName? (c : Command) : String → Option ValueOption
  | "config" => some config
  | "out" => some out
  | "class" => if c = .entryPoint then some mainClass else none
  | _ => none

def ofLetter? : Char → Option ValueOption
  | 'c' => some config
  | 'o' => some out
  | _ => none

end ValueOption

structure Call where
  bundle : Option String := none
  config : Option String := none
  out : Option String := none
  mainClass : Option String := none
  print : Bool := false

namespace Call

/-- Gives a path that must not be empty and has not been given before. -/
def setPath (old : Option String) (path : String) : Option (Option String) :=
  if old.isSome || path = "" then none else some (some path)

def setBundle (call : Call) (path : String) : Option Call := do
  return { call with bundle := ← setPath call.bundle path }

def set (call : Call) (option : ValueOption) (value : String) : Option Call := do
  match option with
  | .config => return { call with config := ← setPath call.config value }
  | .out => return { call with out := ← setPath call.out value }
  | .mainClass => if call.mainClass.isSome then none else return { call with mainClass := value }

def setPrint (call : Call) : Option Call :=
  if call.print then none else some { call with print := true }

end Call

inductive Argument where
  | separator
  | positional (s : String)
  | print
  | option (name : ValueOption) (value : Option String)

namespace Argument

def ofLong? (c : Command) (body : List Char) : Option Argument :=
  let name := String.ofList (body.takeWhile (· ≠ '='))
  let value := match body.dropWhile (· ≠ '=') with
    | '=' :: value => some (String.ofList value)
    | _ => none
  if name = "stdout" then
    if c.canPrint && value.isNone then some print else none
  else (ValueOption.ofName? c name).map (option · value)

/-- A short option, with its value directly after the letter or after an equality sign. -/
def ofShort? (letter : Char) (attached : List Char) : Option Argument := do
  let name ← ValueOption.ofLetter? letter
  match attached with
  | [] => return option name none
  | '=' :: value => return option name (some (String.ofList value))
  | value => return option name (some (String.ofList value))

def ofString? (c : Command) (s : String) : Option Argument :=
  match s.toList with
  | ['-', '-'] => some separator
  | '-' :: '-' :: body => ofLong? c body
  | '-' :: letter :: attached => ofShort? letter attached
  | _ => some (positional s)

def isValue (s : String) : Bool :=
  match s.toList with
  | '-' :: _ :: _ => false
  | _ => true

end Argument

namespace Call

def readAll (c : Command) : List String → Call → Option Call
  | [], call => some call
  | arg :: rest, call => do
    match ← Argument.ofString? c arg with
    | .separator => rest.foldlM setBundle call
    | .positional path => readAll c rest (← call.setBundle path)
    | .print => readAll c rest (← call.setPrint)
    | .option name (some value) => readAll c rest (← call.set name value)
    | .option name none =>
      match rest with
      | value :: rest =>
        if Argument.isValue value then readAll c rest (← call.set name value) else none
      | [] => none

end Call

structure Invocation where
  command : Command
  bundle : String
  config : Option String
  out : Option String
  mainClass : Option String
  print : Bool

/-- The call that the arguments spell, or `none` if they are misused. -/
def Invocation.parse? : List String → Option Invocation
  | [] => none
  | name :: args => do
    let command ← Command.ofName? name
    let call ← Call.readAll command args {}
    return {
      command
      bundle := ← call.bundle
      config := call.config
      out := call.out
      mainClass := call.mainClass
      print := call.print }

end ClassLowering
