/-
  The environment of a program: variables and their values.

  1. Variables whose name starts with `TREEJACK_`, in any case, name settings; a double underscore
     in the rest of the name stands for the point before a field of a section.
  2. Of two variables that name one setting the one later in the order of names counts.
-/
import BranchProbe.SortedMap

namespace BranchProbe

/-- Variables and their values. -/
abbrev Environment := SortedMap String String

namespace Environment

/-- A variable and its value, written with an equals sign between them. -/
def entryOf (cs : List Char) : String × String :=
  let (name, value) := cs.span (· ≠ '=')
  (String.ofList name, String.ofList (value.drop 1))

/-- The parts of a text that end with a null character. -/
def terminated : List Char → List (List Char)
  | [] => []
  | c :: cs =>
    if c = '\x00' then [] :: terminated cs
    else
      match terminated cs with
      | [] => [[c]]
      | part :: rest => (c :: part) :: rest

/-- The environment of a text in which every variable ends with a null character. -/
def ofText (text : String) : Environment := .ofList ((terminated text.toList).map entryOf)

/-- Is a variable set to something else than zero?  There is no answer if it is not set. -/
def switch? (env : Environment) (name : String) : Option Bool :=
  (env.find? name).map (· != "0")

/-- Are styles wanted on the terminal?  They are if they are forced, else not if they are refused,
    and else on a terminal where they are not switched off. -/
def wantsStyles (env : Environment) (isTerminal : Bool) : Bool :=
  if (env.switch? "CLICOLOR_FORCE").getD false then true
  else if (env.switch? "NO_COLOR").isSome then false
  else isTerminal && (env.switch? "CLICOLOR").getD true

/-- What the names of variables for settings start with, in lower case. -/
def settingMark : List Char := "treejack_".toList

/-- The lower-case form of a letter; the Kelvin sign is a capital K. -/
def lowerChar (c : Char) : Char := if c = '\u212A' then 'k' else c.toLower

/-- Points for double underscores, from left to right. -/
def pointed : List Char → List Char
  | '_' :: '_' :: cs => '.' :: pointed cs
  | c :: cs => c :: pointed cs
  | [] => []

/-- The setting that a variable names, if it names one. -/
def settingOf? (name : String) : Option String :=
  let lower := name.toList.map lowerChar
  if settingMark.isPrefixOf lower then
    some (String.ofList (pointed (lower.drop settingMark.length)))
  else none

/-- The value given for a setting.  Two variables may name one setting in different spellings, such as
    `TREEJACK_MAX_DEPTH` and `treejack_max_depth`.  Then the last one in the order of names decides.
    A program that goes through its variables in the order in which they were handed over would take
    the last one in that order; an `Environment` is sorted by name and does not know it. -/
def setting? (env : Environment) (key : String) : Option String :=
  ((env.entries.filter fun e => settingOf? e.1 == some key).getLast?).map (·.2)

/-- The flag that a word means, in any case. -/
def flagOf? (word : String) : Option Bool :=
  match String.ofList (word.toList.map Char.toLower) with
  | "1" | "true" | "on" | "yes" => some true
  | "0" | "false" | "off" | "no" => some false
  | _ => none

/-- The flag given for a setting; a word that means none counts as not given. -/
def flag? (env : Environment) (key : String) : Option Bool := (env.setting? key).bind flagOf?

/-- The home directory. -/
def home? (env : Environment) : Option String :=
  match env.find? "HOME" with
  | some "" => none
  | home => home

/-- The place of a name in a directory. -/
def inDirectory (dir name : String) : String :=
  (if dir.endsWith "/" then dir else dir ++ "/") ++ name

/-- The directory of settings: that which is given by an absolute path, else `.config` in the home
    directory. -/
def configHome? (env : Environment) : Option String :=
  let belowHome := env.home?.map fun home => inDirectory home ".config"
  match env.find? "XDG_CONFIG_HOME" with
  | some dir => if dir.startsWith "/" then some dir else belowHome
  | none => belowHome

/-- The place of the settings file for all working directories. -/
def globalSettingsPath? (env : Environment) : Option String :=
  env.configHome?.map fun dir => inDirectory dir "treejack/treejack.toml"

end Environment

end BranchProbe
