/-
  Expansion of variables and of the home directory in a path.

  1. `Piece.split` takes a path apart into plain text and references `$NAME`, `${NAME}` and
     `${NAME:-default}`; a doubled dollar is a plain one, and a dollar that starts no
     reference stands for itself.
  2. `Piece.join?` replaces the references by their values; one that has neither a value nor a
     default makes the whole expansion void.  Values and defaults are taken as they are.
  3. `expandPath` also replaces a leading `~` by the home directory, if the path itself starts
     with it; a void expansion leaves the path alone.
-/
import BranchProbe.Settings.Environment
import BranchProbe.Text.Word

namespace BranchProbe

/-- A part of a path with references. -/
inductive Piece where
  | plain (cs : List Char)
  | reference (name : List Char) (default : Option (List Char))
  deriving Repr, DecidableEq

namespace Piece

/-- A character of a name that stands without braces. -/
def isNameChar (c : Char) : Bool := Text.isAlphanumeric c || c = '_'

/-- Splits at the first `:-`. -/
def splitDefault : List Char → List Char × Option (List Char)
  | ':' :: '-' :: cs => ([], some cs)
  | c :: cs =>
    let (name, default) := splitDefault cs
    (c :: name, default)
  | [] => ([], none)

/-- What stands between braces: a name, and a default after the first `:-`; a default needs a
    name before it. -/
def braced (inside : List Char) : Piece :=
  match splitDefault inside with
  | ([], some _) => .reference inside none
  | (name, default) => .reference name default

/-- Takes a path apart. -/
def split : (fuel : Nat) → List Char → List Piece
  | 0, cs => [.plain cs]
  | _, [] => []
  | fuel + 1, c :: cs =>
    if c ≠ '$' then .plain [c] :: split fuel cs
    else
      match cs with
      | [] => [.plain ['$']]
      | d :: rest =>
        if d = '\x7b' then
          match rest.span (· ≠ '\x7d') with
          | (inside, _ :: after) => braced inside :: split fuel after
          | (_, []) => .plain ['$', '\x7b'] :: split fuel rest
        else if isNameChar d then
          let (name, after) := (d :: rest).span isNameChar
          .reference name none :: split fuel after
        else if d = '$' then .plain ['$'] :: split fuel rest
        else .plain ['$'] :: split fuel (d :: rest)

/-- The text of a piece, if it has one. -/
def value? (env : Environment) : Piece → Option (List Char)
  | .plain cs => some cs
  | .reference name default =>
    match env.find? (String.ofList name) with
    | some value => some value.toList
    | none => default

/-- The texts of all pieces in order, if each has one. -/
def join? (env : Environment) : List Piece → Option (List Char)
  | [] => some []
  | p :: rest =>
    match p.value? env with
    | none => none
    | some cs => (join? env rest).map (cs ++ ·)

end Piece

/-- A path with the home directory in place of a leading `~`; a user name after it is left
    alone. -/
def expandHome (env : Environment) (cs : List Char) : List Char :=
  match cs with
  | '~' :: rest =>
    match rest with
    | [] => (env.home?.map String.toList).getD cs
    | c :: _ => if c = '/' then (env.home?.map fun home => home.toList ++ rest).getD cs else cs
  | cs => cs

/-- Does a path start with `~`? -/
def startsAtHome : List Char → Bool
  | '~' :: _ => true
  | _ => false

/-- A path with its references and its home directory expanded. -/
def expandPath (env : Environment) (path : String) : String :=
  let cs := path.toList
  match Piece.join? env (Piece.split cs.length cs) with
  | none => path
  | some expanded =>
    if startsAtHome cs then String.ofList (expandHome env expanded) else String.ofList expanded

end BranchProbe
