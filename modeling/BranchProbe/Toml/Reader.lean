/-
  Reading a TOML document.

  1. `value?` reads a value; lists and inline tables nest at most `nestingLimit` deep.
  2. `lines?` reads the lines: comments, `key = value` lines and headers, collected by sections.
  3. `read?` enters the sections into one table, in their order.
-/
import BranchProbe.Toml.Value
import BranchProbe.Toml.Lexeme

namespace BranchProbe.Toml

/-- How deep lists and inline tables nest, and how many parts a key has, at most. -/
def nestingLimit : Nat := 79

/-- A character of a key without quotes. -/
def isBareKey (c : Char) : Bool :=
  ('a' ≤ c && c ≤ 'z') || ('A' ≤ c && c ≤ 'Z') || ('0' ≤ c && c ≤ '9') || c = '_' || c = '-'

/-- One part of a key. -/
def keyPart? (cs : List Char) : Option (String × List Char) :=
  match cs with
  | '"' :: _ | '\x27' :: _ => (simpleText? cs).map fun (s, rest) => (String.ofList s, rest)
  | cs =>
    match cs.span isBareKey with
    | ([], _) => none
    | (name, rest) => some (String.ofList name, rest)

/-- A key: parts with points between them, and blanks around them. -/
def keyParts? : (fuel : Nat) → Reader (List String)
  | 0, _ => none
  | fuel + 1, cs =>
    (keyPart? (skipBlanks cs)).bind fun (part, rest) =>
      match skipBlanks rest with
      | '.' :: rest => (keyParts? fuel rest).map fun (parts, rest) => (part :: parts, rest)
      | rest => some ([part], rest)

/-- A key of a bounded number of parts: all but the last, and the last. -/
def key? (cs : List Char) : Option ((List String × String) × List Char) :=
  (keyParts? cs.length cs).bind fun (parts, rest) =>
    if parts.length ≤ nestingLimit then parts.getLast?.map fun last => ((parts.dropLast, last), rest)
    else none

/-- A key with the sign that its value follows. -/
def keyMark? (cs : List Char) : Option ((List String × String) × List Char) :=
  (key? cs).bind fun (key, rest) => (mark? '=' rest).map fun rest => (key, skipBlanks rest)

mutual

/-- The value at the head of a text.  `room` counts the lists and inline tables that may still be
    opened. -/
def valueAt? : (fuel room : Nat) → List Char → Option (Value × List Char)
  | 0, _, _ => none
  | _, _, [] => none
  | fuel + 1, room, c :: cs =>
    if c = '"' || c = '\x27' then
      (text? (c :: cs)).map fun (s, rest) => (.text (String.ofList s), rest)
    else if c = '[' then
      if room = 0 then none
      else
        match skipLines (cs.length + 1) cs with
        | ']' :: rest => some (.list [], rest)
        | rest => (itemsAt? fuel (room - 1) rest).map fun (items, rest) => (.list items, rest)
    else if c = '\x7b' then
      if room = 0 then none
      else
        match skipBlanks cs with
        | '\x7d' :: rest => some (.table .inline [], rest)
        | rest =>
          (pairsAt? fuel (room - 1) rest).bind fun (pairs, rest) =>
            (Table.putAll pairs []).map fun t => (.table .inline t, rest)
    else if c = 't' then
      match cs with
      | 'r' :: 'u' :: 'e' :: rest => some (.bool true, rest)
      | _ => none
    else if c = 'f' then
      match cs with
      | 'a' :: 'l' :: 's' :: 'e' :: rest => some (.bool false, rest)
      | _ => none
    else
      match date? (c :: cs) with
      | some rest => some (.date, rest)
      | none =>
        match float? (c :: cs) with
        | some rest => some (.float, rest)
        | none => (integer? (c :: cs)).map fun (n, rest) => (.integer n, rest)

/-- The items of a list from the next one on, up to its closing bracket. -/
def itemsAt? : (fuel room : Nat) → List Char → Option (List Value × List Char)
  | 0, _, _ => none
  | fuel + 1, room, cs =>
    match valueAt? fuel room cs with
    | none => none
    | some (item, rest) =>
      match skipLines (rest.length + 1) rest with
      | ']' :: rest => some ([item], rest)
      | ',' :: rest =>
        match skipLines (rest.length + 1) rest with
        | ']' :: rest => some ([item], rest)
        | rest => (itemsAt? fuel room rest).map fun (items, rest) => (item :: items, rest)
      | _ => none

/-- The pairs of an inline table from the next one on, up to its closing brace. -/
def pairsAt? : (fuel room : Nat) → List Char →
    Option (List (List String × String × Value) × List Char)
  | 0, _, _ => none
  | fuel + 1, room, cs =>
    match keyMark? cs with
    | none => none
    | some ((path, key), rest) =>
      match valueAt? fuel room rest with
      | none => none
      | some (value, rest) =>
        match skipBlanks rest with
        | '\x7d' :: rest => some ([(path, key, value)], rest)
        | ',' :: rest =>
          (pairsAt? fuel room rest).map fun (pairs, rest) => ((path, key, value) :: pairs, rest)
        | _ => none

end

/-- The value at the head of a text. -/
def value? (cs : List Char) : Option (Value × List Char) :=
  valueAt? (2 * cs.length + 2) nestingLimit cs

/-- The head of a section: the top of the document, a table, or an item of an array of tables. -/
inductive Header where
  | top
  | table (path : List String) (key : String)
  | item (path : List String) (key : String)
  deriving Repr

/-- A header with the keys below it. -/
structure Section where
  header : Header
  keys : List (List String × String × Value)

/-- A header, after its first bracket, up to the end of its line. -/
def header? (cs : List Char) : Option (Header × List Char) :=
  match cs with
  | '[' :: cs =>
    (key? cs).bind fun ((path, key), rest) =>
      match rest with
      | ']' :: ']' :: rest => (endOfLine? rest).map fun rest => (.item path key, rest)
      | _ => none
  | cs =>
    (key? cs).bind fun ((path, key), rest) =>
      match rest with
      | ']' :: rest => (endOfLine? rest).map fun rest => (.table path key, rest)
      | _ => none

/-- The sections from a place within the section of `header` on; `keys` are the keys read there
    so far, the last one first. -/
def sectionsFrom? : (fuel : Nat) → Header → (keys : List (List String × String × Value)) →
    List Char → Option (List Section)
  | 0, _, _, _ => none
  | fuel + 1, header, keys, cs =>
    match skipLines (cs.length + 1) cs with
    | [] => some [⟨header, keys.reverse⟩]
    | '[' :: rest =>
      match header? rest with
      | none => none
      | some (next, rest) =>
        (sectionsFrom? fuel next [] rest).map fun sections => ⟨header, keys.reverse⟩ :: sections
    | rest =>
      match keyMark? rest with
      | none => none
      | some ((path, key), rest) =>
        match value? rest with
        | none => none
        | some (value, rest) =>
          match endOfLine? rest with
          | none => none
          | some rest => sectionsFrom? fuel header ((path, key, value) :: keys) rest

/-- The sections of a document; a byte order mark at its start is passed over. -/
def sections? (text : String) : Option (List Section) :=
  let cs := match text.toList with
    | '\uFEFF' :: cs => cs
    | cs => cs
  sectionsFrom? (cs.length + 1) .top [] cs

/-- Enters a section into the table of the document. -/
def Section.enter (s : Section) (t : Table) : Option Table :=
  match s.header with
  | .top => Table.putAll s.keys t
  | .table path key => Table.openSection path key s.keys t
  | .item path key => Table.openItem path key s.keys t

/-- Enters sections one after the other. -/
def enterAll : List Section → Table → Option Table
  | [], t => some t
  | s :: rest, t =>
    match s.enter t with
    | none => none
    | some t => enterAll rest t

/-- The table of a document, if the text is one. -/
def read? (text : String) : Option Table := (sections? text).bind fun sections => enterAll sections []

end BranchProbe.Toml
