/-
  Why an operation did not succeed.

  `Failure.message` is the wording, `Failure.exitCode` the exit status of a command that fails so;
  the numbers are those of the BSD `sysexits` list.
-/

namespace BranchProbe

/-- A reason why an operation failed. -/
inductive Failure where
  | missingRoot
  | duplicateId (id : String)
  | depthExceeded (limit : Nat)
  | unknownExample (name : String)
  | invalidDocument (kind message : String)
  | fileNotFound (path : String)
  | config (message : String)
  | operationFailed (context : String)
  | inputOutput (context : String)
  | invalidArguments (message : String)
  | usage (message : String)
  deriving Repr, DecidableEq

namespace Failure

/-- The wording of a failure. -/
def message : Failure → String
  | .missingRoot => "tree has no root node"
  | .duplicateId id => "duplicate node id: " ++ id
  | .depthExceeded limit => "tree is deeper than the limit of " ++ toString limit ++ " levels"
  | .unknownExample name => "example not found: " ++ name
  | .invalidDocument kind message => "invalid " ++ kind ++ " document: " ++ message
  | .fileNotFound path => "file not found: " ++ path
  | .config message => "config error: " ++ message
  | .operationFailed context => "operation failed: " ++ context
  | .inputOutput context => "I/O error: " ++ context
  | .invalidArguments message => "invalid arguments: " ++ message
  | .usage message => message

/-- The exit status: 64 for wrong usage, 65 for bad data, 66 for a missing input, 74 for a failed
    operation, 78 for bad settings. -/
def exitCode : Failure → Nat
  | .usage _ | .invalidArguments _ => 64
  | .missingRoot | .duplicateId _ | .depthExceeded _ | .invalidDocument _ _ => 65
  | .unknownExample _ | .fileNotFound _ => 66
  | .operationFailed _ | .inputOutput _ => 74
  | .config _ => 78

end Failure

end BranchProbe
