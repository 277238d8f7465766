/-
  The syntax tree of a document, with places.

  A document is scanned once, as far as it can be passed over; what is to be read from it is
  decided afterwards on the tree.  So the tree keeps, for every text and number, both the value
  that was read or the fault that prevents it, and the fault that prevents passing over it.  The
  scan stops at the first place that cannot even be passed over; everything before it is in the
  tree.

  1. `Syntax` is the tree; `Ending` says how the items of a list or an object end.
  2. `Syntax.scan` builds it.  Its fuel counts the steps, at most two for each character.
  3. `Syntax.passFault?` is the fault met when a value is passed over.
-/
import BranchProbe.Json.Lexeme

namespace BranchProbe.Json

/-- A value without parts. -/
inductive Scalar where
  | null
  | bool (b : Bool)
  | number (n : Number)
  | text (s : String)
  deriving Repr

/-- How the items of a list, or the members of an object, end. -/
inductive Ending where
  /-- with the bracket; the place is after it -/
  | closed (stop : Mark)
  /-- with a fault, for a reader of the items and for one who passes over them -/
  | broken (read pass : Fault)
  /-- inside the last item -/
  | unreached
  deriving Repr

/-- The key of a member, up to its colon. -/
structure Key where
  read : Except Fault String
  pass : Option Fault
  /-- the place at which a second member of the same key is reported -/
  repeated : Mark
  /-- what is wrong where the colon should be -/
  colon : Option Fault
  deriving Repr

/-- The syntax tree of a value.  `start` is the place of its first character. -/
inductive Syntax where
  | missing (start : Mark) (fault : Fault)
  | scalar (start : Mark) (read : Except Fault Scalar) (pass : Option Fault) (stop : Mark)
  | list (start : Mark) (items : List Syntax) (ending : Ending)
  | object (start : Mark) (members : List (Key × Syntax)) (ending : Ending)
  deriving Repr

namespace Syntax

/-- The place after the first byte of the value; where nothing stands, the end of the text. -/
def peek : Syntax → Mark
  | .missing _ fault => fault.mark
  | .scalar start .. | .list start .. | .object start .. => ⟨start.line, start.column + 1⟩

/-- What is left to scan, if the scan can go on. -/
abbrev Rest := Option (List Char × Mark)

/-- A word that starts with the letter just seen. -/
def word (start : Mark) (value : Scalar) (expected cs : List Char) (m : Mark) : Syntax × Rest :=
  match readWord expected cs m with
  | .ok (_, rest, stop) => (.scalar start (.ok value) none stop, some (rest, stop))
  | .error f => (.scalar start (.error f) (some f) f.mark, none)

/-- A text, after its opening quote. -/
def textAt (fuel : Nat) (start : Mark) (cs : List Char) (m : Mark) : Syntax × Rest :=
  let read := (readText fuel cs m).map fun r => Scalar.text (String.ofList r.1)
  match passText fuel cs m with
  | .ok (_, rest, stop) => (.scalar start read none stop, some (rest, stop))
  | .error f => (.scalar start read (some f) f.mark, none)

/-- A number. -/
def numberAt (cs : List Char) (m : Mark) : Syntax × Rest :=
  match NumberText.at? cs m with
  | .ok (n, rest, stop) =>
    (.scalar m ((n.value stop).map .number) none stop, some (rest, stop))
  | .error u => (.scalar m (.error u.readFault) (some u.passFault) u.mark, none)

/-- The key of a member after its opening quote, with its colon. -/
def keyAt (fuel : Nat) (cs : List Char) (m : Mark) : Key × Rest :=
  let read := (readText fuel cs m).map fun r => String.ofList r.1
  match passText fuel cs m with
  | .error f => (⟨read, some f, f.mark, none⟩, none)
  | .ok (_, rest, stop) =>
    match skipSpace rest stop with
    | ([], m) => (⟨read, none, m, some ⟨.endInObject, m⟩⟩, none)
    | (c :: rest, m) =>
      let repeated := if c = '\x7d' then m.past c else m
      if c = ':' then (⟨read, none, repeated, none⟩, some (rest, m.past c))
      else (⟨read, none, repeated, some ⟨.expectedColon, m.into c⟩⟩, none)

mutual

/-- The value at the head of a text. -/
def valueAt : (fuel : Nat) → List Char → Mark → Syntax × Rest
  | 0, _, m => (.missing m ⟨.endInValue, m⟩, none)
  | fuel + 1, cs, m =>
    match skipSpace cs m with
    | ([], m) => (.missing m ⟨.endInValue, m⟩, none)
    | (c :: rest, m) =>
      if c = 'n' then word m .null ['u', 'l', 'l'] rest (m.past c)
      else if c = 't' then word m (.bool true) ['r', 'u', 'e'] rest (m.past c)
      else if c = 'f' then word m (.bool false) ['a', 'l', 's', 'e'] rest (m.past c)
      else if c = '"' then textAt fuel m rest (m.past c)
      else if c = '-' || Numeral.isDecimal c then numberAt (c :: rest) m
      else if c = '[' then
        match skipSpace rest (m.past c) with
        | ([], m') =>
          (.list m [] (.broken ⟨.endInList, m'⟩ ⟨.endInList, m'⟩), none)
        | (d :: rest, m') =>
          if d = ']' then (.list m [] (.closed (m'.past d)), some (rest, m'.past d))
          else
            let (items, ending, rest) := itemsAt fuel (d :: rest) m'
            (.list m items ending, rest)
      else if c = '\x7b' then
        match skipSpace rest (m.past c) with
        | ([], m') =>
          (.object m [] (.broken ⟨.endInObject, m'⟩ ⟨.endInObject, m'⟩), none)
        | (d :: rest, m') =>
          if d = '\x7d' then (.object m [] (.closed (m'.past d)), some (rest, m'.past d))
          else if d = '"' then
            let (members, ending, rest) := membersAt fuel rest (m'.past d)
            (.object m members ending, rest)
          else
            let f : Fault := ⟨.keyNotText, m'.into d⟩
            (.object m [] (.broken f f), none)
      else (.missing m ⟨.expectedValue, m.into c⟩, none)

/-- The items of a list from the next one on. -/
def itemsAt : (fuel : Nat) → List Char → Mark → List Syntax × Ending × Rest
  | 0, _, _ => ([], .unreached, none)
  | fuel + 1, cs, m =>
    match valueAt fuel cs m with
    | (item, none) => ([item], .unreached, none)
    | (item, some (rest, m)) =>
      match skipSpace rest m with
      | ([], m) => ([item], .broken ⟨.endInList, m⟩ ⟨.endInList, m⟩, none)
      | (c :: rest, m) =>
        if c = ']' then ([item], .closed (m.past c), some (rest, m.past c))
        else if c = ',' then
          match skipSpace rest (m.past c) with
          | (']' :: _, m) =>
            ([item], .broken ⟨.trailingComma, m.into ']'⟩ ⟨.expectedValue, m.into ']'⟩, none)
          | (rest, m) =>
            let (items, ending, rest) := itemsAt fuel rest m
            (item :: items, ending, rest)
        else
          let f : Fault := ⟨.expectedCommaOrBracket, m.into c⟩
          ([item], .broken f f, none)

/-- The members of an object from the next one on, whose opening quote has been seen. -/
def membersAt : (fuel : Nat) → List Char → Mark → List (Key × Syntax) × Ending × Rest
  | 0, _, _ => ([], .unreached, none)
  | fuel + 1, cs, m =>
    match keyAt fuel cs m with
    | (key, none) => ([(key, .missing m ⟨.endInValue, m⟩)], .unreached, none)
    | (key, some (rest, m)) =>
      match valueAt fuel rest m with
      | (value, none) => ([(key, value)], .unreached, none)
      | (value, some (rest, m)) =>
        match skipSpace rest m with
        | ([], m) => ([(key, value)], .broken ⟨.endInObject, m⟩ ⟨.endInObject, m⟩, none)
        | (c :: rest, m) =>
          if c = '\x7d' then ([(key, value)], .closed (m.past c), some (rest, m.past c))
          else if c = ',' then
            match skipSpace rest (m.past c) with
            | ([], m) => ([(key, value)], .broken ⟨.endInValue, m⟩ ⟨.endInObject, m⟩, none)
            | (d :: rest, m) =>
              if d = '"' then
                let (members, ending, rest) := membersAt fuel rest (m.past d)
                ((key, value) :: members, ending, rest)
              else
                let cause := if d = '\x7d' then Cause.trailingComma else .keyNotText
                ([(key, value)], .broken ⟨cause, m.into d⟩ ⟨.keyNotText, m.into d⟩, none)
          else
            let f : Fault := ⟨.expectedCommaOrBrace, m.into c⟩
            ([(key, value)], .broken f f, none)

end

/-- The syntax tree of a document, and the fault of what follows the value, if anything does. -/
def scan (text : String) : Syntax × Option Fault :=
  let cs := text.toList
  match valueAt (2 * cs.length + 2) cs Mark.start with
  | (value, none) => (value, none)
  | (value, some (rest, m)) =>
    match skipSpace rest m with
    | ([], _) => (value, none)
    | (c :: _, m) => (value, some ⟨.trailingCharacters, m.into c⟩)

end Syntax

/-- The fault of an ending for one who passes over the items. -/
def Ending.passFault? : Ending → Option Fault
  | .broken _ pass => some pass
  | .closed _ | .unreached => none

mutual

/-- The fault met when a value is passed over. -/
def Syntax.passFault? : Syntax → Option Fault
  | .missing _ fault => some fault
  | .scalar _ _ pass _ => pass
  | .list _ items ending => (Syntax.passItemsFault? items).or ending.passFault?
  | .object _ members ending => (Syntax.passMembersFault? members).or ending.passFault?

/-- The first fault among the items of a list. -/
def Syntax.passItemsFault? : List Syntax → Option Fault
  | [] => none
  | item :: rest => (Syntax.passFault? item).or (Syntax.passItemsFault? rest)

/-- The first fault among the members of an object. -/
def Syntax.passMembersFault? : List (Key × Syntax) → Option Fault
  | [] => none
  | (key, value) :: rest =>
    ((key.pass.or key.colon).or (Syntax.passFault? value)).or (Syntax.passMembersFault? rest)

end

end BranchProbe.Json
