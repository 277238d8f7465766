/-
  The form of command lines.

  1. A command takes options and arguments, or it is a menu of further commands; so a grammar is a
     tree.  The leaves say what a command line of their form means.
  2. Every menu also answers to `help`.
-/

namespace BranchProbe

/-- Which values an option or an argument takes. -/
inductive Accepts where
  | anything
  /-- a path, which is not empty -/
  | path
  | oneOf (words : List String)
  deriving Repr, DecidableEq

/-- Is this a value to take? -/
def Accepts.admits : Accepts → String → Bool
  | .anything, _ => true
  | .path, s => s != ""
  | .oneOf words, s => words.contains s

/-- What an option does. -/
inductive Effect where
  | help
  | version
  /-- may be given once -/
  | mark
  /-- counts how often it is given -/
  | count
  /-- takes a value and may be given once -/
  | value (accepts : Accepts)
  deriving Repr, DecidableEq

/-- An option. -/
structure OptionRule where
  /-- the name after two hyphens -/
  name : String
  /-- the letter after one hyphen -/
  letter : Option Char
  effect : Effect
  deriving Repr, DecidableEq

/-- An argument that is known by its place. -/
structure ArgumentRule where
  name : String
  accepts : Accepts
  deriving Repr, DecidableEq

/-- What was given for options and arguments, in order and by their names. -/
abbrev Given := List (String × String)

namespace Given

/-- Was anything given for a name? -/
def has (g : Given) (name : String) : Bool := g.any (·.1 == name)

/-- The value given for a name. -/
def value? (g : Given) (name : String) : Option String := (g.find? (·.1 == name)).map (·.2)

/-- The value given for an argument, which cannot be left out. -/
def argument (g : Given) (name : String) : String := (g.value? name).getD ""

/-- How often a name was given. -/
def times (g : Given) (name : String) : Nat := (g.filter (·.1 == name)).length

end Given

/-- The form of a command line with a meaning in `α`. -/
inductive Grammar (α : Type) where
  /-- a command -/
  | leaf (options : List OptionRule) (arguments : List ArgumentRule) (meaning : Given → α)
  /-- a choice of commands, which may be left open unless it is required -/
  | menu (options : List OptionRule) (required : Bool) (commands : List (String × Grammar α))

namespace Grammar

variable {α : Type}

/-- The options. -/
def options : Grammar α → List OptionRule
  | .leaf options _ _ => options
  | .menu options _ _ => options

/-- The arguments. -/
def arguments : Grammar α → List ArgumentRule
  | .leaf _ arguments _ => arguments
  | .menu _ _ _ => []

/-- Is it a choice of commands? -/
def isMenu : Grammar α → Bool
  | .leaf _ _ _ => false
  | .menu _ _ _ => true

/-- What a word in a menu leads to. -/
inductive Entry (α : Type) where
  | help
  | command (g : Grammar α)

/-- What a word leads to, if it is in the menu. -/
def entry? (word : String) : Grammar α → Option (Entry α)
  | .leaf _ _ _ => none
  | .menu _ _ commands =>
    match commands.find? (·.1 == word) with
    | some e => some (.command e.2)
    | none => if word = "help" then some .help else none

end Grammar

end BranchProbe
