/-
  Texts about the command line itself: help, version and completions.

  They are made from the grammar, so they know every command.
-/
import BranchProbe.Command.Basic
import BranchProbe.Command.Output

namespace BranchProbe.Help

open Command (commandLine commonOptions)

/-- The name of the program. -/
def programName : String := "treejack"

/-- The version of the program. -/
def version : String := "1.0.0"

/-- The names of the commands in a menu. -/
def names : Grammar Command → List String
  | .leaf _ _ _ => []
  | .menu _ _ commands => commands.map (·.1)

/-- The options of the program on a line each. -/
def optionLines : List String :=
  commonOptions.map fun rule =>
    "  " ++ (rule.letter.elim "    " fun c => String.ofList ['-', c, ',', ' ']) ++ "--" ++ rule.name

/-- The text of the help. -/
def text : String :=
  "\n".intercalate
    (["Usage: " ++ programName ++ " [OPTIONS] [COMMAND]", "", "Commands:"]
      ++ (names commandLine).map ("  " ++ ·) ++ ["", "Options:"] ++ optionLines) ++ "\n"

/-- The answer to a command line that leads to no command. -/
def answer (u : Usage) (color : Bool) : Output :=
  match u with
  | .help => ⟨text, ""⟩
  | .version => .line (programName ++ " " ++ version)
  | .helpForMissingCommand => ⟨"", text⟩
  | u => .error color u.message

/-- A script that makes a shell complete the names of the commands. -/
def completion (shell : Shell) : String :=
  let words := " ".intercalate (names commandLine)
  match shell with
  | .bash => "complete -W \"" ++ words ++ "\" " ++ programName ++ "\n"
  | .elvish =>
    "set edit:completion:arg-completer[" ++ programName ++ "] = \x7b|@words| put " ++ words ++ " \x7d\n"
  | .fish => "complete -c " ++ programName ++ " -f -a \"" ++ words ++ "\"\n"
  | .powershell =>
    "Register-ArgumentCompleter -Native -CommandName " ++ programName
      ++ " -ScriptBlock \x7b -split \"" ++ words ++ "\" \x7d\n"
  | .zsh => "compdef \"compadd " ++ words ++ "\" " ++ programName ++ "\n"

end BranchProbe.Help
