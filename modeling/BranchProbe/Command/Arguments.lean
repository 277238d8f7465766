/-
  Reading the words of a command line.

  1. `Word` tells the kinds of words apart: `--name`, `--name=value`, letters after one hyphen, and
     plain words, to which a single hyphen belongs.
  2. `Level` is what one level of commands has been given so far.  An option without a value in
     its word takes the next word that is plain.  An option or argument is taken in when the next
     one comes, and only then its value is looked at.
  3. `Level.read` goes through the words.  A word of the menu enters a command, which reads the
     words that follow and tells its faults first.
  4. After `--` there are only arguments.
-/
import BranchProbe.Command.Grammar
import BranchProbe.Command.Usage

namespace BranchProbe

/-- The kinds of words. -/
inductive Word where
  | long (name : String) (value : Option String)
  | letters (cs : List Char)
  | onlyArguments
  | plain
  deriving Repr, DecidableEq

/-- The kind of a word. -/
def Word.ofString (s : String) : Word :=
  match s.toList with
  | '-' :: '-' :: [] => .onlyArguments
  | '-' :: '-' :: cs =>
    match cs.span (· ≠ '=') with
    | (name, _ :: value) => .long (String.ofList name) (some (String.ofList value))
    | (name, []) => .long (String.ofList name) none
  | '-' :: c :: cs => .letters (c :: cs)
  | _ => .plain

/-- An option or argument that was met and is not yet taken in. -/
structure Pending where
  name : String
  accepts : Accepts
  /-- an option may still wait for its value -/
  value : Option String
  deriving Repr, DecidableEq

/-- What one level of a command line has been given so far. -/
structure Level where
  given : Given
  pending : Option Pending
  /-- how many arguments were met -/
  arguments : Nat
  onlyArguments : Bool
  deriving Repr, DecidableEq

namespace Level

/-- The level at its start. -/
def start : Level := ⟨[], none, 0, false⟩

/-- Does an option wait for its value? -/
def isWaiting (l : Level) : Bool := l.pending.any fun p => p.value.isNone

/-- Takes in a value. -/
def take (l : Level) (name : String) (accepts : Accepts) (value : String) : Except Usage Level :=
  if l.given.has name then .error .repeatedOption
  else if accepts.admits value then .ok { l with given := l.given ++ [(name, value)] }
  else .error .invalidValue

/-- Takes in what is pending. -/
def settle (l : Level) : Except Usage Level :=
  match l.pending with
  | none => .ok l
  | some ⟨_, _, none⟩ => .error .invalidValue
  | some ⟨name, accepts, some value⟩ => { l with pending := none }.take name accepts value

/-- An option whose word has no value. -/
def mark (l : Level) (rule : OptionRule) : Except Usage Level :=
  match l.settle with
  | .error u => .error u
  | .ok l =>
    match rule.effect with
    | .help => .error .help
    | .version => .error .version
    | .mark => l.take rule.name .anything ""
    | .count => .ok { l with given := l.given ++ [(rule.name, "")] }
    | .value accepts => .ok { l with pending := some ⟨rule.name, accepts, none⟩ }

/-- An option whose word has a value. -/
def assign (l : Level) (rule : OptionRule) (value : String) : Except Usage Level :=
  match rule.effect with
  | .value accepts =>
    match l.settle with
    | .error u => .error u
    | .ok l => l.take rule.name accepts value
  | _ => .error .surplusValue

/-- An option by its name. -/
def long (options : List OptionRule) (l : Level) (name : String) (value : Option String) :
    Except Usage Level :=
  match options.find? (·.name == name) with
  | none => .error .unknownArgument
  | some rule =>
    match value with
    | none => l.mark rule
    | some value => l.assign rule value

/-- A value that follows its letter in one word, with or without an equals sign. -/
def attached : List Char → String
  | '=' :: cs => String.ofList cs
  | cs => String.ofList cs

/-- Options by their letters; what follows the letter of an option with a value is the value. -/
def letters (options : List OptionRule) (l : Level) : List Char → Except Usage Level
  | [] => .ok l
  | c :: cs =>
    match options.find? (·.letter == some c) with
    | none => .error .unknownArgument
    | some rule =>
      match rule.effect, cs with
      | .value _, _ :: _ => l.assign rule (attached cs)
      | _, cs =>
        match l.mark rule with
        | .error u => .error u
        | .ok l => letters options l cs

variable {α : Type}

/-- An argument. -/
def argument (g : Grammar α) (l : Level) (word : String) : Except Usage Level :=
  match g.arguments[l.arguments]? with
  | some rule =>
    match l.settle with
    | .error u => .error u
    | .ok l =>
      .ok { l with pending := some ⟨rule.name, rule.accepts, some word⟩
                   arguments := l.arguments + 1 }
  | none =>
    if g.isMenu && !(l.onlyArguments && (g.entry? word).isSome) then .error .unknownCommand
    else .error .unknownArgument

/-- A plain word: the value that an option waits for, or an argument. -/
def plain (g : Grammar α) (l : Level) (word : String) : Except Usage Level :=
  match l.pending with
  | some ⟨name, accepts, none⟩ => .ok { l with pending := some ⟨name, accepts, some word⟩ }
  | _ => argument g l word

/-- One word that does not enter a command. -/
def next (g : Grammar α) (l : Level) (word : String) : Except Usage Level :=
  if l.onlyArguments then argument g l word
  else
    match Word.ofString word with
    | .onlyArguments => .ok { l with onlyArguments := true }
    | .long name value => long g.options l name value
    | .letters cs => letters g.options l cs
    | .plain => plain g l word

/-- What a word of the menu leads to.  It does not enter a command as a value or an argument. -/
def entry? (g : Grammar α) (l : Level) (word : String) : Option (Grammar.Entry α) :=
  if l.onlyArguments || l.isWaiting then none else g.entry? word

/-- The answer to `help` and the words after it, which name a command. -/
def helpOn (g : Grammar α) : List String → Usage
  | [] => .help
  | word :: rest =>
    match g.entry? word with
    | some (.command g) => helpOn g rest
    | some .help => if rest = [] then .help else .unknownCommand
    | none => .unknownCommand

/-- What a command line comes to: what the levels were given, from the first to the last, and the
    meaning of the command if there is one. -/
structure Reading (α : Type) where
  levels : List Given
  meaning : Option α

/-- The end of the words. -/
def finish (g : Grammar α) (l : Level) : Except Usage (Reading α) :=
  match l.settle with
  | .error u => .error u
  | .ok l =>
    match g with
    | .menu _ required _ =>
      if !required then .ok ⟨[l.given], none⟩
      else if l.given = [] then .error .helpForMissingCommand
      else .error .missingCommand
    | .leaf _ arguments meaning =>
      if l.arguments < arguments.length then .error .missingArgument
      else .ok ⟨[l.given], some (meaning l.given)⟩

/-- Goes through the words. -/
def read (g : Grammar α) (l : Level) : List String → Except Usage (Reading α)
  | [] => finish g l
  | word :: rest =>
    match l.entry? g word with
    | some .help => .error (helpOn g rest)
    | some (.command sub) =>
      match read sub start rest with
      | .error u => .error u
      | .ok r =>
        match l.settle with
        | .error u => .error u
        | .ok l => .ok { r with levels := l.given :: r.levels }
    | none =>
      match next g l word with
      | .error u => .error u
      | .ok l => read g l rest

end Level

end BranchProbe
