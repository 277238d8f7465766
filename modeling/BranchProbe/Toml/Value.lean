/-
  Values and tables of a TOML document.

  A table remembers how it came about, as that decides what may still be added to it:

  * `inline`  — written in braces: complete, nothing is ever added;
  * `section` — opened by its own `[header]`: no second header, no dotted key from outside;
  * `implied` — named in the header of a table below it: its own header may still come;
  * `dotted`  — made by a dotted key: more dotted keys may add to it, a header may not.

  `Table.put` enters a key of the current section, `Table.openSection` and `Table.openItem` enter
  a whole section under its header; none means that the document defines something twice.
-/

namespace BranchProbe.Toml

/-- How a table came about. -/
inductive Origin where
  | inline
  | section
  | implied
  | dotted
  deriving Repr, DecidableEq

/-- A value of a document.  Floats and dates carry nothing, as no setting is one. -/
inductive Value where
  | text (s : String)
  | integer (n : Int)
  | float
  | bool (b : Bool)
  | date
  | list (items : List Value)
  | table (origin : Origin) (entries : List (String × Value))
  /-- the tables of an array, one for each `[[header]]` -/
  | tables (items : List (List (String × Value)))
  deriving Repr, Inhabited

/-- The entries of a table, in the order of their definition. -/
abbrev Table := List (String × Value)

namespace Table

/-- The value of a key. -/
def find? (t : Table) (key : String) : Option Value :=
  (List.find? (fun e => e.1 == key) t).map (·.2)

/-- The table with another value for a key that it has. -/
def replace (t : Table) (key : String) (value : Value) : Table :=
  t.map fun e => if e.1 == key then (e.1, value) else e

/-- The table without a key. -/
def erase (t : Table) (key : String) : Table := t.filter fun e => e.1 != key

/-- Enters `path.key = value`.  Tables on the way are made as needed; the last one must have been
    made by a dotted key too.  `own` says whether the table at hand is. -/
def put (key : String) (value : Value) : (own : Bool) → (path : List String) → Table → Option Table
  | own, [], t =>
    if own then
      match t.find? key with
      | none => some (t ++ [(key, value)])
      | some _ => none
    else none
  | _, step :: path, t =>
    match t.find? step with
    | none => (put key value true path []).map fun sub => t ++ [(step, .table .dotted sub)]
    | some (.table .dotted sub) =>
      (put key value true path sub).map fun sub => t.replace step (.table .dotted sub)
    | some (.table .implied sub) =>
      (put key value false path sub).map fun sub => t.replace step (.table .implied sub)
    | some (.tables items) =>
      match items.getLast? with
      | none => none
      | some last =>
        (put key value false path last).map fun last =>
          t.replace step (.tables (items.dropLast ++ [last]))
    | some _ => none

/-- Changes the table at the end of the path of a header; tables on the way are implied. -/
def under (change : Table → Option Table) : (path : List String) → Table → Option Table
  | [], t => change t
  | step :: path, t =>
    match t.find? step with
    | none => (under change path []).map fun sub => t ++ [(step, .table .implied sub)]
    | some (.table .inline _) => none
    | some (.table origin sub) =>
      (under change path sub).map fun sub => t.replace step (.table origin sub)
    | some (.tables items) =>
      match items.getLast? with
      | none => none
      | some last =>
        (under change path last).map fun last => t.replace step (.tables (items.dropLast ++ [last]))
    | some _ => none

/-- Enters the keys of a section one after the other. -/
def putAll : List (List String × String × Value) → Table → Option Table
  | [], t => some t
  | (path, key, value) :: rest, t =>
    match put key value true path t with
    | none => none
    | some t => putAll rest t

/-- Enters a section under `[path.key]`. -/
def openSection (path : List String) (key : String) (keys : List (List String × String × Value)) :
    Table → Option Table :=
  under (fun t =>
    match t.find? key with
    | none => (putAll keys []).map fun sub => t ++ [(key, .table .section sub)]
    | some (.table .implied sub) =>
      (putAll keys sub).map fun sub => t.erase key ++ [(key, .table .section sub)]
    | some _ => none) path

/-- Enters a section under `[[path.key]]`. -/
def openItem (path : List String) (key : String) (keys : List (List String × String × Value)) :
    Table → Option Table :=
  under (fun t =>
    match t.find? key with
    | none => (putAll keys []).map fun item => t ++ [(key, .tables [item])]
    | some (.tables items) =>
      (putAll keys []).map fun item => t.replace key (.tables (items ++ [item]))
    | some _ => none) path

end Table

end BranchProbe.Toml
