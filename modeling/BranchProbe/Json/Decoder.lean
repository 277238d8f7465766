/-
  Reading typed values from a syntax tree.

  A decoder walks the tree from left to right and stops at the first fault it meets, so a value of
  the wrong type is reported before a later fault of the text.

  1. `textValue`, `optional`, `listOf`, `mapOf` and `anyValue` read the general shapes.
  2. `record` reads a value with named fields, written as an object (unknown members are passed
     over, a repeated one is a fault) or as a list of the fields in order.
  3. Lists and objects may be nested `depthLimit` deep; `room` counts how many may still be
     opened.  What is passed over may be nested to any depth.
-/
import BranchProbe.Json.Syntax
import BranchProbe.SortedMap

namespace BranchProbe.Json

/-- How deep lists and objects may be nested. -/
def depthLimit : Nat := 127

/-- What a scalar is called when it stands in the wrong place. -/
def Scalar.found : Scalar → Found
  | .null => .null
  | .bool b => .flag b
  | .number (.natural n) => .whole n.toNat
  | .number (.negative n _) => .whole n.toInt
  | .number (.float x) => .float x
  | .text s => .text s

/-- A scalar as a value. -/
def Scalar.toJson : Scalar → Json
  | .null => .null
  | .bool b => .bool b
  | .number n => .number n
  | .text s => .text s

/-- The fault of a value that is not of the expected type; its own fault comes first. -/
def Syntax.unexpected (expected : String) : Syntax → Fault
  | .missing _ fault => fault
  | .scalar _ (.error fault) _ _ => fault
  | .scalar _ (.ok value) _ stop => ⟨.wrongType value.found expected, stop⟩
  | .list start _ _ => ⟨.wrongType .list expected, start⟩
  | .object start _ _ => ⟨.wrongType .object expected, start⟩

/-- The fault of a list or an object for which there is no room. -/
def Syntax.tooDeep (s : Syntax) : Fault := ⟨.tooDeep, s.peek⟩

/-- The end of a list or an object for a reader of its items. -/
def Ending.finish {α : Type} (ending : Ending) (value : α) : Except Fault α :=
  match ending with
  | .broken read _ => .error read
  | .closed _ | .unreached => .ok value

/-! ## General shapes -/

/-- A text. -/
def textValue : Syntax → Except Fault String
  | .scalar _ (.ok (.text s)) _ _ => .ok s
  | s => .error (s.unexpected "a string")

/-- A value that may be null. -/
def optional {α : Type} (read : Syntax → Except Fault α) : Syntax → Except Fault (Option α)
  | .scalar _ (.ok .null) _ _ => .ok none
  | s => (read s).map some

/-- The items of a list in turn. -/
def readEach {α : Type} (read : Syntax → Except Fault α) : List Syntax → Except Fault (List α)
  | [] => .ok []
  | item :: rest =>
    match read item with
    | .error f => .error f
    | .ok x => (readEach read rest).map (x :: ·)

/-- The members of an object in turn. -/
def readMembers {α : Type} (read : Syntax → Except Fault α) :
    List (Key × Syntax) → Except Fault (List (String × α))
  | [] => .ok []
  | (key, value) :: rest =>
    match key.read with
    | .error f => .error f
    | .ok name =>
      match key.colon with
      | some f => .error f
      | none =>
        match read value with
        | .error f => .error f
        | .ok x => (readMembers read rest).map ((name, x) :: ·)

/-- A list; `read` reads an item and knows the room inside the list. -/
def listOf {α : Type} (room : Nat) (read : Syntax → Except Fault α) :
    Syntax → Except Fault (List α)
  | .list start items ending =>
    if room = 0 then .error (Syntax.list start items ending).tooDeep
    else
      match readEach read items with
      | .error f => .error f
      | .ok xs => ending.finish xs
  | s => .error (s.unexpected "a sequence")

/-- An object with any keys; of two members with one key the later counts. -/
def mapOf {α : Type} (room : Nat) (read : Syntax → Except Fault α) :
    Syntax → Except Fault (SortedMap String α)
  | .object start members ending =>
    if room = 0 then .error (Syntax.object start members ending).tooDeep
    else
      match readMembers read members with
      | .error f => .error f
      | .ok xs => ending.finish (SortedMap.ofList xs)
  | s => .error (s.unexpected "a map")

/-- Any value. -/
def anyValue : (room : Nat) → Syntax → Except Fault Json
  | _, .missing _ fault => .error fault
  | _, .scalar _ read _ _ => read.map Scalar.toJson
  | 0, s => .error s.tooDeep
  | room + 1, .list _ items ending =>
    match readEach (fun s => anyValue room s) items with
    | .error f => .error f
    | .ok xs => ending.finish (.list xs)
  | room + 1, .object _ members ending =>
    match readMembers (fun s => anyValue room s) members with
    | .error f => .error f
    | .ok xs => ending.finish (.object (SortedMap.ofList xs).entries)

/-! ## Records -/

/-- A field of a record: its name, whether it must be given, and how it is read into the record. -/
structure RecordField (α : Type) where
  name : String
  required : Bool
  put : Syntax → α → Except Fault α

/-- A field from a decoder of its value. -/
def field {α β : Type} (name : String) (required : Bool) (read : Syntax → Except Fault β)
    (set : β → α → α) : RecordField α :=
  ⟨name, required, fun s r => (read s).map fun x => set x r⟩

/-- The members of an object into a record; `seen` are the fields given so far. -/
def putMembers {α : Type} (fields : List (RecordField α)) :
    (seen : List String) → α → List (Key × Syntax) → Except Fault (List String × α)
  | seen, r, [] => .ok (seen, r)
  | seen, r, (key, value) :: rest =>
    match key.read with
    | .error f => .error f
    | .ok name =>
      match fields.find? (·.name == name) with
      | none =>
        match key.colon.or value.passFault? with
        | some f => .error f
        | none => putMembers fields seen r rest
      | some field =>
        if seen.contains name then .error ⟨.duplicateField name, key.repeated⟩
        else
          match key.colon with
          | some f => .error f
          | none =>
            match field.put value r with
            | .error f => .error f
            | .ok r => putMembers fields (name :: seen) r rest

/-- What stands in a list after the last field of a record. -/
def surplusFault? : List Syntax → Ending → Option Fault
  | [], .broken ⟨.expectedCommaOrBracket, mark⟩ _ => some ⟨.trailingCharacters, mark⟩
  | [], .broken read _ => some read
  | [], _ => none
  | item :: _, _ => some ⟨.trailingCharacters, item.peek⟩

/-- The items of a list into a record.  `count` fields have been read; a list may end where only
    optional fields are left. -/
def putItems {α : Type} (wrongLength : Nat → Cause) :
    List (RecordField α) → (count : Nat) → α → List Syntax → Ending → Except Fault α
  | [], _, r, items, ending =>
    match surplusFault? items ending with
    | some f => .error f
    | none => .ok r
  | field :: fields, count, r, [], ending =>
    match ending with
    | .broken read _ => .error read
    | .closed stop =>
      if field.required then .error ⟨wrongLength count, stop⟩
      else putItems wrongLength fields (count + 1) r [] ending
    | .unreached => .ok r
  | field :: fields, count, r, item :: items, ending =>
    match field.put item r with
    | .error f => .error f
    | .ok r => putItems wrongLength fields (count + 1) r items ending

/-- The number of fields in words. -/
def elementCount (n : Nat) : String :=
  toString n ++ (if n = 1 then " element" else " elements")

/-- A record, as an object or as a list of its fields.  The fields know the room inside. -/
def record {α : Type} (room : Nat) (name : String) (blank : α) (fields : List (RecordField α)) :
    Syntax → Except Fault α
  | .object start members ending =>
    if room = 0 then .error (Syntax.object start members ending).tooDeep
    else
      match putMembers fields [] blank members with
      | .error f => .error f
      | .ok (seen, r) =>
        match ending with
        | .broken read _ => .error read
        | .unreached => .ok r
        | .closed stop =>
          match fields.find? (fun f => f.required && !seen.contains f.name) with
          | some f => .error ⟨.missingField f.name, stop⟩
          | none => .ok r
  | .list start items ending =>
    if room = 0 then .error (Syntax.list start items ending).tooDeep
    else
      let expected := "struct " ++ name ++ " with " ++ elementCount fields.length
      putItems (fun n => .wrongLength n expected) fields 0 blank items ending
  | s => .error (s.unexpected ("struct " ++ name))

/-- A document: one value and nothing after it. -/
def decode {α : Type} (read : (room : Nat) → Syntax → Except Fault α) (text : String) :
    Except Fault α :=
  let (value, surplus) := Syntax.scan text
  match read depthLimit value with
  | .error f => .error f
  | .ok x =>
    match surplus with
    | some f => .error f
    | none => .ok x

end BranchProbe.Json
