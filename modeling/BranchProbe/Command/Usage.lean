/-
  Why a command line leads to no command.

  Help and the version are asked for; everything else is a fault in the words.
-/

namespace BranchProbe

/-- A reason why a command line leads to no command. -/
inductive Usage where
  | help
  | version
  /-- a command is missing, and nothing else was given -/
  | helpForMissingCommand
  | missingCommand
  | unknownCommand
  | unknownArgument
  | missingArgument
  | invalidValue
  /-- an option has a value that takes none -/
  | surplusValue
  | repeatedOption
  deriving Repr, DecidableEq

namespace Usage

/-- The exit status: 0 if the answer was asked for, else 2. -/
def exitCode : Usage → Nat
  | .help | .version => 0
  | _ => 2

/-- The wording of a fault. -/
def message : Usage → String
  | .help => "help"
  | .version => "version"
  | .helpForMissingCommand | .missingCommand => "a command is missing"
  | .unknownCommand => "there is no such command"
  | .unknownArgument => "there is no such option or argument"
  | .missingArgument => "an argument is missing"
  | .invalidValue => "a value is missing or not allowed"
  | .surplusValue => "an option takes no value"
  | .repeatedOption => "an option is given more than once"

end Usage

end BranchProbe
