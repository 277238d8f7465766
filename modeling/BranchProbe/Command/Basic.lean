/-
  The commands of the program and how they are written.

  1. `Command` lists the commands.  Most work on trees and need the settings and the catalog;
     these are `TreeCommand`s.
  2. `commandLine` is the grammar of the command line, with its options and arguments.
  3. `Invocation.ofWords` reads a command line.  The options for all commands may be given on any
     level; the innermost level where one is given counts.
-/
import BranchProbe.Command.Arguments
import BranchProbe.Files.Path

namespace BranchProbe

/-- A shell for which completions can be written. -/
inductive Shell where
  | bash
  | elvish
  | fish
  | powershell
  | zsh
  deriving Repr, DecidableEq

/-- The names of the shells. -/
def Shell.names : List (String × Shell) :=
  [("bash", .bash), ("elvish", .elvish), ("fish", .fish), ("powershell", .powershell),
    ("zsh", .zsh)]

/-- The shell with a name; every other name counts as that of the first shell. -/
def Shell.ofName (name : String) : Shell :=
  ((Shell.names.find? (·.1 == name)).map (·.2)).getD .bash

/-- A command that needs the settings and the catalog.  A tree is named by a file or by
    `example:` and a name. -/
inductive TreeCommand where
  /-- one value for every variable -/
  | defaults (tree : String)
  /-- the variations of an assignment -/
  | variations (tree : String) (inputs : Option Path)
  /-- an assignment and its variations -/
  | samples (tree : String) (inputs : Option Path)
  /-- the tree, with the path of a traversal and the nodes that were not reached -/
  | render (tree : String) (result unreachable : Option Path) (json : Bool)
  /-- the checks of a tree -/
  | validate (tree : String)
  /-- the request for a simulation -/
  | payloadSimulate (tree : String) (inputs : Option Path)
  /-- the request for the nodes that no sample reaches -/
  | payloadUnreachable (tree : String) (inputs : Option Path)
  /-- the result of a traversal into a file -/
  | exportResult (result : Path) (output : Option Path)
  | examplesList
  | examplesShow (name : String)
  | examplesSamples (name : String)
  | configShow
  /-- where the settings files are -/
  | configPath
  deriving Repr, DecidableEq

/-- A command. -/
inductive Command where
  /-- the comparisons of a condition -/
  | parse (condition : String)
  | completion (shell : Shell)
  /-- a settings file to start from -/
  | configTemplate
  | onTrees (c : TreeCommand)
  deriving Repr, DecidableEq

namespace Command

/-- The options of every command. -/
def commonOptions : List OptionRule :=
  [⟨"help", some 'h', .help⟩, ⟨"version", some 'V', .version⟩, ⟨"debug", some 'd', .count⟩,
    ⟨"config", some 'c', .value .path⟩]

/-- The option for a path. -/
def pathOption (name : String) (letter : Char) : OptionRule := ⟨name, some letter, .value .path⟩

/-- A command with options of its own. -/
def leaf (options : List OptionRule) (arguments : List ArgumentRule) (meaning : Given → Command) :
    Grammar Command :=
  .leaf (commonOptions ++ options) arguments meaning

/-- The argument that names a tree. -/
def treeArgument : ArgumentRule := ⟨"tree", .anything⟩

/-- The path given for an option. -/
def path? (g : Given) (name : String) : Option Path := (g.value? name).map Path.mk

/-- A command on a tree. -/
def onTree (meaning : String → TreeCommand) : Grammar Command :=
  leaf [] [treeArgument] fun g => .onTrees (meaning (g.argument "tree"))

/-- A command on a tree and an assignment. -/
def onInputs (meaning : String → Option Path → TreeCommand) : Grammar Command :=
  leaf [pathOption "inputs" 'i'] [treeArgument] fun g =>
    .onTrees (meaning (g.argument "tree") (path? g "inputs"))

/-- A command on an example. -/
def onExample (meaning : String → TreeCommand) : Grammar Command :=
  leaf [] [⟨"name", .anything⟩] fun g => .onTrees (meaning (g.argument "name"))

/-- A command that needs nothing more. -/
def bare (c : Command) : Grammar Command := leaf [] [] fun _ => c

/-- The command that draws a tree. -/
def renderGrammar : Grammar Command :=
  leaf [pathOption "result" 'r', pathOption "unreachable" 'u', ⟨"json", none, .mark⟩]
    [treeArgument] fun g =>
      .onTrees (.render (g.argument "tree") (path? g "result") (path? g "unreachable")
        (g.has "json"))

/-- The command that writes the result of a traversal to a file. -/
def exportGrammar : Grammar Command :=
  leaf [pathOption "output" 'o'] [⟨"result", .path⟩] fun g =>
    .onTrees (.exportResult ⟨g.argument "result"⟩ (path? g "output"))

/-- The command that writes completions. -/
def completionGrammar : Grammar Command :=
  leaf [] [⟨"shell", .oneOf (Shell.names.map (·.1))⟩] fun g =>
    .completion (Shell.ofName (g.argument "shell"))

/-- A choice of commands that must not be left open. -/
def menu (commands : List (String × Grammar Command)) : Grammar Command :=
  .menu commonOptions true commands

/-- The form of the command line. -/
def commandLine : Grammar Command :=
  .menu commonOptions false
    [("parse", leaf [] [⟨"condition", .anything⟩] fun g => .parse (g.argument "condition")),
      ("defaults", onTree .defaults),
      ("variations", onInputs .variations),
      ("samples", onInputs .samples),
      ("render", renderGrammar),
      ("validate", onTree .validate),
      ("payload", menu
        [("simulate", onInputs .payloadSimulate), ("unreachable", onInputs .payloadUnreachable)]),
      ("export", exportGrammar),
      ("examples", menu
        [("list", bare (.onTrees .examplesList)), ("show", onExample .examplesShow),
          ("samples", onExample .examplesSamples)]),
      ("config", menu
        [("show", bare (.onTrees .configShow)), ("template", bare .configTemplate),
          ("path", bare (.onTrees .configPath))]),
      ("completion", completionGrammar)]

end Command

/-- What a command line asks for. -/
structure Invocation where
  /-- how often debugging output was asked for -/
  debug : Nat
  /-- the settings file to take in place of the local one -/
  config : Option Path
  command : Option Command
  deriving Repr, DecidableEq

namespace Invocation

/-- The highest count of an option. -/
def countLimit : Nat := 255

/-- What was given for an option on the innermost level where it was given. -/
def innermost (levels : List Given) (name : String) : Given :=
  (levels.reverse.find? (·.has name)).getD []

/-- What a command line asks for, given how it was read. -/
def ofReading (r : Level.Reading Command) : Invocation :=
  { debug := min ((innermost r.levels "debug").times "debug") countLimit
    config := Command.path? (innermost r.levels "config") "config"
    command := r.meaning }

/-- What the words of a command line ask for. -/
def ofWords (words : List String) : Except Usage Invocation :=
  (Level.start.read Command.commandLine words).map ofReading

end Invocation

end BranchProbe
