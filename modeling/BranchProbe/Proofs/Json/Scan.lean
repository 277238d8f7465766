/-
  Written documents are scanned without fault.

  1. `Json.Everywhere p` says `p` of a value and of all values inside it; `Whole` rules out floats,
     whose digits may be read as those of another float.
  2. `reread` is a value with each number replaced by what its own text is read as: a finite float
     by a float, an infinite one by null, and a whole number by itself.
  3. `Represents s j`: the tree `s` was read without fault and has the value `j`.
  4. `valueAt_write` is the crux, with one theorem for each of the three mutual scans: before a
     text that does not go on with a number, the scan of a written value stops exactly at its end
     and its tree represents the value reread.  A step of fuel for each character is enough.
  5. `Layout.Blank` is all that is asked of the spacing, so the compact and the indented form are
     read by one proof.
-/
import BranchProbe.Json.Syntax
import BranchProbe.Json.Decoder
import BranchProbe.Proofs.Json.Floats

namespace BranchProbe.Json

open Text (Stops stops_nil stops_cons stops_append)

/-! ## Values without floats -/

mutual

/-- `p` holds of the value and of every value inside it. -/
def Everywhere (p : Json → Prop) : Json → Prop
  | .list items => p (.list items) ∧ EverywhereIn p items
  | .object members => p (.object members) ∧ EverywhereInMembers p members
  | j => p j

/-- `p` holds everywhere in some values. -/
def EverywhereIn (p : Json → Prop) : List Json → Prop
  | [] => True
  | j :: rest => Everywhere p j ∧ EverywhereIn p rest

/-- `p` holds everywhere in the values of some members. -/
def EverywhereInMembers (p : Json → Prop) : List (String × Json) → Prop
  | [] => True
  | (_, j) :: rest => Everywhere p j ∧ EverywhereInMembers p rest

end

/-- A property holds everywhere in some documents just if it holds everywhere in each one. -/
theorem everywhereIn_iff {p : Json → Prop} {items : List Json} :
    EverywhereIn p items ↔ ∀ j ∈ items, j.Everywhere p := by
  induction items with
  | nil => simp [EverywhereIn]
  | cons j rest ih => simp [EverywhereIn, ih]

/-- Of members only the values count for a property that holds everywhere. -/
theorem everywhereInMembers_iff {p : Json → Prop} {members : List (String × Json)} :
    EverywhereInMembers p members ↔ ∀ e ∈ members, e.2.Everywhere p := by
  induction members with
  | nil => simp [EverywhereInMembers]
  | cons e rest ih => simp [EverywhereInMembers, ih]

theorem Everywhere.self {p : Json → Prop} {j : Json} (h : j.Everywhere p) : p j := by
  cases j with
  | list items => exact h.1
  | object members => exact h.1
  | _ => exact h

/-- The value is not a float. -/
def Whole (j : Json) : Prop := ∀ x, j ≠ .number (.float x)

theorem whole_text (s : String) : (Json.text s).Everywhere Whole := by simp [Everywhere, Whole]

/-- A list of whole documents is whole; with `whole_object` this is how encoders are checked for
    floats. -/
theorem whole_list {items : List Json} (h : ∀ j ∈ items, j.Everywhere Whole) :
    (Json.list items).Everywhere Whole := ⟨by simp [Whole], everywhereIn_iff.2 h⟩

/-- An object whose members have whole documents for values is whole; its keys are texts. -/
theorem whole_object {members : List (String × Json)} (h : ∀ e ∈ members, e.2.Everywhere Whole) :
    (Json.object members).Everywhere Whole := ⟨by simp [Whole], everywhereInMembers_iff.2 h⟩

/-! ## Trees of values -/

mutual

/-- The tree was read without fault and has the value `j`. -/
inductive Represents : Syntax → Json → Prop
  | scalar {start stop : Mark} {x : Scalar} {j : Json} :
      x.toJson = j → Represents (.scalar start (.ok x) none stop) j
  | list {start stop : Mark} {items : List Syntax} {js : List Json} :
      RepresentsAll items js → Represents (.list start items (.closed stop)) (.list js)
  | object {start stop : Mark} {members : List (Key × Syntax)} {ms : List (String × Json)} :
      RepresentsMembers members ms → Represents (.object start members (.closed stop)) (.object ms)

/-- The trees have these values in turn. -/
inductive RepresentsAll : List Syntax → List Json → Prop
  | nil : RepresentsAll [] []
  | cons {s : Syntax} {j : Json} {items : List Syntax} {js : List Json} :
      Represents s j → RepresentsAll items js → RepresentsAll (s :: items) (j :: js)

/-- The members have these keys and values in turn. -/
inductive RepresentsMembers : List (Key × Syntax) → List (String × Json) → Prop
  | nil : RepresentsMembers [] []
  | cons {name : String} {repeated : Mark} {s : Syntax} {j : Json}
      {members : List (Key × Syntax)} {ms : List (String × Json)} :
      Represents s j → RepresentsMembers members ms →
      RepresentsMembers ((⟨.ok name, none, repeated, none⟩, s) :: members) ((name, j) :: ms)

end

/-! ## Spacing -/

/-- The layout writes nothing but blanks between the parts of a document. -/
structure Layout.Blank (l : Layout) : Prop where
  lineStart : ∀ level, ∀ c ∈ l.lineStart level, isSpace c = true
  afterColon : ∀ c ∈ l.afterColon, isSpace c = true

/-- The compact layout puts nothing between the parts of a document. -/
theorem compact_blank : compact.Blank := ⟨by simp [compact], by simp [compact]⟩

/-- The indented layout puts line breaks and blanks between the parts, and only these, so a scan
    skips them. -/
theorem indented_blank : indented.Blank where
  lineStart level c hc := by
    rcases List.mem_cons.1 hc with rfl | hc
    · decide
    · rw [List.eq_of_mem_replicate hc]
      decide
  afterColon c hc := by
    rw [List.mem_singleton.1 hc]
    decide

/-- A blank does not go on with a number. -/
theorem not_continuesNumber_of_space {c : Char} (h : isSpace c = true) :
    continuesNumber c = false := by
  simp only [isSpace, Bool.or_eq_true, decide_eq_true_eq, or_assoc] at h
  rcases h with rfl | rfl | rfl | rfl <;> decide

/-! ## First characters -/

/-- A character that starts a number starts nothing else, nor is it blank or the end of a list.
    So the scanner comes to the branch for numbers. -/
theorem ne_of_startsNumber {c : Char} (h : c = '-' ∨ Numeral.isDecimal c = true) :
    isSpace c = false ∧ c ≠ ']' ∧ c ≠ 'n' ∧ c ≠ 't' ∧ c ≠ 'f' ∧ c ≠ '"' := by
  rcases h with rfl | h
  · decide
  · refine ⟨?_, ?_, ?_, ?_, ?_, ?_⟩
    · by_contra hspace
      simp only [Bool.not_eq_false, isSpace, Bool.or_eq_true, decide_eq_true_eq, or_assoc]
        at hspace
      rcases hspace with rfl | rfl | rfl | rfl <;> exact absurd h (by decide)
    all_goals
      rintro rfl
      exact absurd h (by decide)

/-- What the text of a number can be read as. -/
inductive Number.ReadAs : Number → Scalar → Prop
  | whole {n : Number} : (∀ x, n ≠ .float x) → ReadAs n (.number n)
  | float {x : Float} {cs : List Char} (y : Float) :
      Numeral.documentText? x = some cs → ReadAs (.float x) (.number (.float y))
  | null {x : Float} : Numeral.documentText? x = none → ReadAs (.float x) .null

/-- A number is written as parts that are read as one number wherever it stands, or, if it is
    infinite or no number, as `null`. -/
theorem Number.write_cases (n : Number) :
    (∃ parts y, n.write = NumberText.write parts ∧ parts.WellFormed
        ∧ (∀ stop, parts.value stop = .ok y) ∧ n.ReadAs (.number y))
      ∨ (n.write = ['n', 'u', 'l', 'l'] ∧ n.ReadAs .null) := by
  cases n with
  | natural n =>
    exact .inl ⟨⟨false, Numeral.digitsOf n.toNat, none, none⟩, .natural n,
      by simp [Number.write, NumberText.write],
      ⟨NumberText.leads_digitsOf _, by simp, by simp⟩, NumberText.value_natural n,
      .whole (by simp)⟩
  | negative n hneg =>
    exact .inl ⟨⟨true, Numeral.digitsOf n.toInt.natAbs, none, none⟩, .negative n hneg,
      by simp [Number.write, NumberText.write],
      ⟨NumberText.leads_digitsOf _, by simp, by simp⟩, NumberText.value_negative hneg,
      .whole (by simp)⟩
  | float x =>
    cases htext : Numeral.documentText? x with
    | none => exact .inr ⟨by simp [Number.write, htext], .null htext⟩
    | some cs =>
      obtain ⟨parts, hformed, rfl, y, hy⟩ := Numeral.exists_written htext
      exact .inl ⟨parts, .float y, by simp [Number.write, htext], hformed, hy, .float y htext⟩

/-- The parts of a number start with a minus or a digit. -/
theorem NumberText.exists_write {n : NumberText} (hn : n.WellFormed) :
    ∃ c cs, n.write = c :: cs ∧ (c = '-' ∨ Numeral.isDecimal c = true) := by
  obtain ⟨c, cs, hcs, hc⟩ := hn.whole.exists_cons
  rw [NumberText.write]
  cases n.negative with
  | true => exact ⟨'-', _, rfl, .inl rfl⟩
  | false => exact ⟨c, _, by rw [hcs]; rfl, .inr hc⟩

/-- A value starts with neither a blank nor a closing bracket.  So after a comma the scan finds
    the next item, and after an opening bracket it sees that the list is not empty. -/
theorem exists_write (j : Json) (l : Layout) (level : Nat) :
    ∃ c cs, j.write l level = c :: cs ∧ isSpace c = false ∧ c ≠ ']' := by
  cases j with
  | null => exact ⟨'n', _, by rw [write], by decide, by decide⟩
  | bool b =>
    cases b
    · exact ⟨'f', _, by rw [write], by decide, by decide⟩
    · exact ⟨'t', _, by rw [write], by decide, by decide⟩
  | number n =>
    rw [write]
    rcases n.write_cases with ⟨parts, -, hwrite, hformed, -⟩ | ⟨hnull, -⟩
    · obtain ⟨c, cs, hcs, hc⟩ := NumberText.exists_write hformed
      have hne := ne_of_startsNumber hc
      exact ⟨c, cs, hwrite.trans hcs, hne.1, hne.2.1⟩
    · exact ⟨'n', _, hnull, by decide, by decide⟩
  | text s => exact ⟨'"', _, by rw [write, escape]; rfl, by decide, by decide⟩
  | list items =>
    cases items
    · exact ⟨'[', _, by rw [write], by decide, by decide⟩
    · exact ⟨'[', _, by rw [write]; rfl, by decide, by decide⟩
  | object members =>
    cases members
    · exact ⟨'\x7b', _, by rw [write], by decide, by decide⟩
    · exact ⟨'\x7b', _, by rw [write]; rfl, by decide, by decide⟩

namespace Syntax

/-! ## Numbers -/

/-- The word for the absent value is scanned as such, whatever follows it. -/
theorem valueAt_null (fuel : Nat) (rest : List Char) (m : Mark) :
    ∃ stop, valueAt (fuel + 1) (['n', 'u', 'l', 'l'] ++ rest) m
      = (.scalar m (.ok .null) none stop, some (rest, stop)) := by
  rw [List.cons_append, valueAt, skipSpace_of_not (by decide)]
  exact ⟨m.pastAll ['n', 'u', 'l', 'l'], by simp [word, readWord, Mark.pastAll]⟩

/-- What a number is read as does not depend on where it stands: not on the mark, not on the
    fuel, and not on what follows, as long as that does not continue the number. -/
theorem exists_valueAt_number (n : Number) :
    ∃ x, n.ReadAs x ∧ ∀ (fuel : Nat) (rest : List Char) (m : Mark), Stops continuesNumber rest →
      ∃ stop, valueAt (fuel + 1) (n.write ++ rest) m
        = (.scalar m (.ok x) none stop, some (rest, stop)) := by
  rcases n.write_cases with ⟨parts, y, hwrite, hformed, hvalue, hread⟩ | ⟨hnull, hread⟩
  · refine ⟨.number y, hread, fun fuel rest m hrest => ?_⟩
    obtain ⟨c, cs, hcs, hc⟩ := NumberText.exists_write hformed
    obtain ⟨hspace, -, hn, ht, hf, hquote⟩ := ne_of_startsNumber hc
    obtain ⟨stop, hat⟩ := NumberText.at?_parts hformed hrest m
    rw [hwrite, hcs, List.cons_append]
    rw [hcs, List.cons_append] at hat
    rw [valueAt, skipSpace_of_not hspace]
    exact ⟨stop, by simp [hn, ht, hf, hquote, hc, numberAt, hat, hvalue, Except.map]⟩
  · refine ⟨.null, hread, fun fuel rest m _ => ?_⟩
    rw [hnull]
    exact valueAt_null fuel rest m

end Syntax

/-! ## Numbers reread -/

/-- What a number is read as from its own text. -/
def Number.reread (n : Number) : Scalar :=
  match (Syntax.scan (String.ofList n.write)).1 with
  | .scalar _ (.ok x) _ _ => x
  | _ => .null

/-- A number is scanned up to the first character that cannot continue it, and what was scanned
    is what rereading says.  Only floats can come back changed. -/
theorem Number.reread_spec (n : Number) :
    n.ReadAs n.reread
      ∧ ∀ (fuel : Nat) (rest : List Char) (m : Mark), Stops continuesNumber rest →
        ∃ stop, Syntax.valueAt (fuel + 1) (n.write ++ rest) m
          = (.scalar m (.ok n.reread) none stop, some (rest, stop)) := by
  obtain ⟨x, hread, hat⟩ := Syntax.exists_valueAt_number n
  obtain ⟨stop, hscan⟩ := hat (2 * n.write.length + 1) [] Mark.start (stops_nil _)
  rw [List.append_nil] at hscan
  have hx : n.reread = x := by simp [reread, Syntax.scan, hscan, skipSpace]
  rw [hx]
  exact ⟨hread, hat⟩

/-- A scalar with a number reread. -/
def Scalar.reread : Scalar → Scalar
  | .number n => n.reread
  | x => x

mutual

/-- A value with every number in it replaced by what its own text is read as. -/
def reread : Json → Json
  | .number n => n.reread.toJson
  | .list items => .list (rereadAll items)
  | .object members => .object (rereadMembers members)
  | j => j

/-- Some values with their numbers reread. -/
def rereadAll : List Json → List Json
  | [] => []
  | j :: rest => reread j :: rereadAll rest

/-- Some members with the numbers in their values reread. -/
def rereadMembers : List (String × Json) → List (String × Json)
  | [] => []
  | (key, j) :: rest => (key, reread j) :: rereadMembers rest

end

theorem rereadAll_eq_map (items : List Json) : rereadAll items = items.map reread := by
  induction items with
  | nil => rfl
  | cons j rest ih => rw [rereadAll, ih, List.map_cons]

/-- Members are reread one by one and keep their keys. -/
theorem rereadMembers_eq_map (members : List (String × Json)) :
    rereadMembers members = members.map fun e => (e.1, e.2.reread) := by
  induction members with
  | nil => rfl
  | cons e rest ih => rw [rereadMembers, ih, List.map_cons]

/-- Rereading a scalar value commutes with taking it for a document. -/
theorem reread_toJson (x : Scalar) : x.toJson.reread = x.reread.toJson := by
  cases x <;> rfl

mutual

/-- Without floats a value is reread as it is: a whole number is written with all its digits, and
    nothing else that is written is rounded. -/
theorem reread_eq_self : ∀ j : Json, j.Everywhere Whole → j.reread = j
  | .null, _ | .bool _, _ | .text _, _ => rfl
  | .number n, h => by
    have hread := n.reread_spec.1
    rw [reread]
    generalize n.reread = x at hread ⊢
    cases hread with
    | whole _ => rfl
    | float y _ => exact absurd rfl (h _)
    | null _ => exact absurd rfl (h _)
  | .list items, h => by rw [reread, rereadAll_eq_self items h.2]
  | .object members, h => by rw [reread, rereadMembers_eq_self members h.2]

/-- Whole documents in a list are reread as they are; this goes along with `reread_eq_self` in
    one induction. -/
theorem rereadAll_eq_self : ∀ items : List Json, EverywhereIn Whole items →
    rereadAll items = items
  | [], _ => rfl
  | j :: rest, h => by rw [rereadAll, reread_eq_self j h.1, rereadAll_eq_self rest h.2]

/-- Members with whole values are reread as they are, in the same induction. -/
theorem rereadMembers_eq_self : ∀ members : List (String × Json),
    EverywhereInMembers Whole members → rereadMembers members = members
  | [], _ => rfl
  | (_, j) :: rest, h => by
    rw [rereadMembers, reread_eq_self j h.1, rereadMembers_eq_self rest h.2]

end

namespace Syntax

/-! ## Scalars and keys -/

/-- A scalar is read from its text, a number as reread.  There is one case for each kind of
    scalar, and only numbers can come back as something else. -/
theorem valueAt_scalar (l : Layout) (level : Nat) (x : Scalar) {fuel : Nat} {rest : List Char}
    (hfuel : (x.toJson.write l level).length ≤ fuel + 1) (hrest : Stops continuesNumber rest)
    (m : Mark) :
    ∃ s stop, Represents s x.toJson.reread
      ∧ valueAt (fuel + 1) (x.toJson.write l level ++ rest) m = (s, some (rest, stop)) := by
  suffices h : ∃ stop, valueAt (fuel + 1) (x.toJson.write l level ++ rest) m
      = (.scalar m (.ok x.reread) none stop, some (rest, stop)) by
    obtain ⟨stop, h⟩ := h
    exact ⟨_, stop, .scalar (reread_toJson x).symm, h⟩
  cases x with
  | null =>
    rw [Scalar.toJson, write]
    exact valueAt_null fuel rest m
  | bool b =>
    cases b with
    | false =>
      rw [Scalar.toJson, write, List.cons_append, valueAt, skipSpace_of_not (by decide)]
      exact ⟨m.pastAll ['f', 'a', 'l', 's', 'e'],
        by simp [word, readWord, Mark.pastAll, Scalar.reread]⟩
    | true =>
      rw [Scalar.toJson, write, List.cons_append, valueAt, skipSpace_of_not (by decide)]
      exact ⟨m.pastAll ['t', 'r', 'u', 'e'],
        by simp [word, readWord, Mark.pastAll, Scalar.reread]⟩
  | number n =>
    rw [Scalar.toJson, write]
    exact n.reread_spec.2 fuel rest m hrest
  | text s =>
    have hlen := length_le_flatMap_escapeChar s.toList
    rw [Scalar.toJson, write] at hfuel ⊢
    simp only [escape, List.length_append, List.length_cons, List.length_nil] at hfuel
    obtain ⟨stop, hread, hpass⟩ := readText_escape rest s.toList fuel (m.past '"') (by omega)
    rw [escape, List.cons_append, List.cons_append, valueAt, skipSpace_of_not (by decide)]
    exact ⟨stop, by simp [textAt, hread, hpass, Except.map, Scalar.reread]⟩

/-- A key is read from its text, up to the colon. -/
theorem keyAt_escape (key : String) (fuel : Nat) (hfuel : key.toList.length < fuel)
    (rest : List Char) (m : Mark) :
    ∃ repeated stop, keyAt fuel (key.toList.flatMap escapeChar ++ '"' :: ':' :: rest) m
      = (⟨.ok key, none, repeated, none⟩, some (rest, stop)) := by
  obtain ⟨stop, hread, hpass⟩ := readText_escape (':' :: rest) key.toList fuel m hfuel
  refine ⟨stop, stop.past ':', ?_⟩
  simp [keyAt, hread, hpass, Except.map, skipSpace_of_not (c := ':') (by decide)]

/-! ## Steps of the scan -/

theorem valueAt_list_nil (fuel : Nat) (rest : List Char) (m : Mark) :
    valueAt (fuel + 1) ('[' :: ']' :: rest) m
      = (.list m [] (.closed ((m.past '[').past ']')), some (rest, (m.past '[').past ']')) := by
  have hclose : isSpace ']' = false := by decide
  rw [valueAt, skipSpace_of_not (by decide)]
  have hbracket : Numeral.isDecimal '[' = false := by decide
  simp [skipSpace_of_not hclose, hbracket]

theorem valueAt_object_nil (fuel : Nat) (rest : List Char) (m : Mark) :
    valueAt (fuel + 1) ('\x7b' :: '\x7d' :: rest) m
      = (.object m [] (.closed ((m.past '\x7b').past '\x7d')),
        some (rest, (m.past '\x7b').past '\x7d')) := by
  have hclose : isSpace '\x7d' = false := by decide
  rw [valueAt, skipSpace_of_not (by decide)]
  have hbrace : Numeral.isDecimal '\x7b' = false := by decide
  simp [skipSpace_of_not hclose, hbrace]

section Steps

variable {blanks : List Char} (h : ∀ c ∈ blanks, isSpace c = true)

include h

theorem valueAt_append (fuel : Nat) (cs : List Char) (m : Mark) :
    valueAt (fuel + 1) (blanks ++ cs) m = valueAt (fuel + 1) cs (m.pastAll blanks) := by
  rw [valueAt, valueAt, skipSpace_append h]

/-- The items of a list are scanned from the first one on. -/
theorem valueAt_list {c : Char} (hspace : isSpace c = false) (hc : c ≠ ']') (fuel : Nat)
    (cs : List Char) (m : Mark) :
    valueAt (fuel + 1) ('[' :: (blanks ++ c :: cs)) m
      = (let r := itemsAt fuel (c :: cs) ((m.past '[').pastAll blanks)
        (.list m r.1 r.2.1, r.2.2)) := by
  rw [valueAt, skipSpace_of_not (by decide)]
  have hbracket : Numeral.isDecimal '[' = false := by decide
  simp [skipSpace_append h, skipSpace_of_not hspace, hc, hbracket]

/-- An object with members opens with a blank part and the first quote, and then its members are
    scanned.  This is the step that the induction on documents takes for objects. -/
theorem valueAt_object (fuel : Nat) (cs : List Char) (m : Mark) :
    valueAt (fuel + 1) ('\x7b' :: (blanks ++ '"' :: cs)) m
      = (let r := membersAt fuel cs (((m.past '\x7b').pastAll blanks).past '"')
        (.object m r.1 r.2.1, r.2.2)) := by
  have hquote : isSpace '"' = false := by decide
  rw [valueAt, skipSpace_of_not (by decide)]
  have hbrace : Numeral.isDecimal '\x7b' = false := by decide
  simp [skipSpace_append h, skipSpace_of_not hquote, hbrace]

/-- The last item of a list is followed by the bracket that closes the list. -/
theorem itemsAt_last {fuel : Nat} {cs rest : List Char} {m m' : Mark} {item : Syntax}
    (hitem : valueAt fuel cs m = (item, some (blanks ++ ']' :: rest, m'))) :
    itemsAt (fuel + 1) cs m = ([item], .closed ((m'.pastAll blanks).past ']'),
      some (rest, (m'.pastAll blanks).past ']')) := by
  have hclose : isSpace ']' = false := by decide
  simp [itemsAt, hitem, skipSpace_append h, skipSpace_of_not hclose]

/-- An item before a comma is scanned by itself, and the scan of the items goes on behind the
    blanks after the comma. -/
theorem itemsAt_more {fuel : Nat} {cs rest : List Char} {m m' : Mark} {item : Syntax} {c : Char}
    (hspace : isSpace c = false) (hc : c ≠ ']')
    (hitem : valueAt fuel cs m = (item, some (',' :: (blanks ++ c :: rest), m'))) :
    itemsAt (fuel + 1) cs m
      = (let r := itemsAt fuel (c :: rest) ((m'.past ',').pastAll blanks)
        (item :: r.1, r.2.1, r.2.2)) := by
  have hcomma : isSpace ',' = false := by decide
  simp [itemsAt, hitem, skipSpace_of_not hcomma, skipSpace_append h, skipSpace_of_not hspace, hc]

/-- The last member of an object is followed by the brace that closes the object. -/
theorem membersAt_last {fuel : Nat} {cs cs' rest : List Char} {m m' m'' : Mark} {key : Key}
    {value : Syntax} (hkey : keyAt fuel cs m = (key, some (cs', m')))
    (hvalue : valueAt fuel cs' m' = (value, some (blanks ++ '\x7d' :: rest, m''))) :
    membersAt (fuel + 1) cs m = ([(key, value)], .closed ((m''.pastAll blanks).past '\x7d'),
      some (rest, (m''.pastAll blanks).past '\x7d')) := by
  have hclose : isSpace '\x7d' = false := by decide
  simp [membersAt, hkey, hvalue, skipSpace_append h, skipSpace_of_not hclose]

/-- A member before a comma is scanned by itself, and the scan goes on at the key of the next
    one. -/
theorem membersAt_more {fuel : Nat} {cs cs' rest : List Char} {m m' m'' : Mark} {key : Key}
    {value : Syntax} (hkey : keyAt fuel cs m = (key, some (cs', m')))
    (hvalue : valueAt fuel cs' m' = (value, some (',' :: (blanks ++ '"' :: rest), m''))) :
    membersAt (fuel + 1) cs m
      = (let r := membersAt fuel rest (((m''.past ',').pastAll blanks).past '"')
        ((key, value) :: r.1, r.2.1, r.2.2)) := by
  have hcomma : isSpace ',' = false := by decide
  have hquote : isSpace '"' = false := by decide
  simp [membersAt, hkey, hvalue, skipSpace_of_not hcomma, skipSpace_append h,
    skipSpace_of_not hquote]

end Steps

end Syntax

/-! ## Written lists and objects -/

/-- The items of a list as written, from the first one on. -/
def listBody (l : Layout) (level : Nat) : List Json → List Char
  | [] => []
  | item :: rest => write l level item ++ writeItems l level rest

/-- A member as written, from after its opening quote on. -/
def memberBody (l : Layout) (level : Nat) (e : String × Json) : List Char :=
  e.1.toList.flatMap escapeChar ++ '"' :: ':' :: (l.afterColon ++ write l level e.2)

/-- The members of an object as written, from after the opening quote of the first key on. -/
def objectBody (l : Layout) (level : Nat) : List (String × Json) → List Char
  | [] => []
  | e :: rest => memberBody l level e ++ writeMembers l level rest

section Bodies

variable (l : Layout) (level : Nat)

/-- The text of a list with items, cut into the parts that a scan goes through: bracket, line
    start, items, line start, bracket. -/
theorem write_list (item : Json) (rest : List Json) :
    write l level (.list (item :: rest))
      = '[' :: (l.lineStart (level + 1)
        ++ (listBody l (level + 1) (item :: rest) ++ (l.lineStart level ++ [']']))) := by
  simp [write, listBody]

/-- Items after the first one are written behind a comma and a line start, so the tail of a list
    is again a body of items. -/
theorem writeItems_cons (item : Json) (rest : List Json) :
    writeItems l level (item :: rest)
      = ',' :: (l.lineStart level ++ listBody l level (item :: rest)) := by
  simp [writeItems, listBody]

/-- The value of a member is not longer than the member.  This is what gives the scan of a value
    enough fuel. -/
theorem length_write_le_memberBody (key : String) (value : Json) :
    (write l level value).length ≤ (memberBody l level (key, value)).length := by
  simp only [memberBody, List.length_append, List.length_cons]
  omega

/-- A member is written at the start of a line, from its opening quote on. -/
theorem writeMember_eq (e : String × Json) :
    writeMember l level e = l.lineStart level ++ '"' :: memberBody l level e := by
  cases e
  simp [writeMember, escape, memberBody]

/-- The text of an object with members, cut into the parts that a scan goes through, as for
    lists. -/
theorem write_object (e : String × Json) (rest : List (String × Json)) :
    write l level (.object (e :: rest))
      = '\x7b' :: (l.lineStart (level + 1)
        ++ '"' :: (objectBody l (level + 1) (e :: rest) ++ (l.lineStart level ++ ['\x7d']))) := by
  simp [write, writeMember_eq, objectBody]

/-- Members after the first one are written behind a comma and a line start, so the tail of an
    object is again a body of members. -/
theorem writeMembers_cons (e : String × Json) (rest : List (String × Json)) :
    writeMembers l level (e :: rest)
      = ',' :: (l.lineStart level ++ '"' :: objectBody l level (e :: rest)) := by
  simp [writeMembers, writeMember_eq, objectBody]

/-- What follows an item or a member does not go on with a number. -/
theorem stops_close {blanks : List Char} (h : ∀ c ∈ blanks, isSpace c = true) {c : Char}
    (hc : continuesNumber c = false) (rest : List Char) :
    Stops continuesNumber (blanks ++ c :: rest) :=
  stops_append (fun d hd => not_continuesNumber_of_space (h d hd)) (stops_cons rest hc)

end Bodies

/-! ## The scan of a written value -/

namespace Syntax

/-- A member is scanned up to its end if its value is.  The key is a text before a colon, and the
    layout puts only blanks between the colon and the value. -/
theorem memberAt_write {l : Layout} (hl : l.Blank) {level fuel : Nat} {e : String × Json}
    {rest : List Char} (hfuel : (memberBody l level e).length ≤ fuel + 1)
    (hvalue : ∀ m, ∃ s stop, Represents s e.2.reread
      ∧ valueAt (fuel + 1) (e.2.write l level ++ rest) m = (s, some (rest, stop)))
    (m : Mark) :
    ∃ repeated s cs m' stop, Represents s e.2.reread
      ∧ keyAt (fuel + 1) (memberBody l level e ++ rest) m
        = (⟨.ok e.1, none, repeated, none⟩, some (cs, m'))
      ∧ valueAt (fuel + 1) cs m' = (s, some (rest, stop)) := by
  have hlen := length_le_flatMap_escapeChar e.1.toList
  simp only [memberBody, List.length_append, List.length_cons] at hfuel
  obtain ⟨repeated, m', hkey⟩ := keyAt_escape e.1 (fuel + 1) (by omega)
    (l.afterColon ++ (e.2.write l level ++ rest)) m
  obtain ⟨s, stop, hs, hat⟩ := hvalue (m'.pastAll l.afterColon)
  rw [← valueAt_append hl.afterColon] at hat
  refine ⟨repeated, s, _, m', stop, hs, ?_, hat⟩
  rw [← hkey, memberBody]
  simp only [List.append_assoc, List.cons_append]

-- Induction on the value.  What is given to a further call is a proper part of the text, so one
-- step of fuel less still covers its characters.

mutual

/-- The scan of a written value stops at its end, with a tree that represents it reread. -/
theorem valueAt_write {l : Layout} (hl : l.Blank) : ∀ (j : Json) (level fuel : Nat)
    (rest : List Char) (m : Mark), (j.write l level).length ≤ fuel →
      Stops continuesNumber rest →
      ∃ s stop, Represents s j.reread
        ∧ valueAt fuel (j.write l level ++ rest) m = (s, some (rest, stop))
  | j, level, 0, _, _, hfuel, _ => by
    obtain ⟨c, cs, hcs, -⟩ := exists_write j l level
    simp [hcs] at hfuel
  | .null, level, fuel + 1, rest, m, hfuel, hrest =>
    valueAt_scalar l level .null hfuel hrest m
  | .bool b, level, fuel + 1, rest, m, hfuel, hrest =>
    valueAt_scalar l level (.bool b) hfuel hrest m
  | .number n, level, fuel + 1, rest, m, hfuel, hrest =>
    valueAt_scalar l level (.number n) hfuel hrest m
  | .text s, level, fuel + 1, rest, m, hfuel, hrest =>
    valueAt_scalar l level (.text s) hfuel hrest m
  | .list [], level, fuel + 1, rest, m, _, _ => by
    rw [write]
    exact ⟨_, _, .list .nil, valueAt_list_nil fuel rest m⟩
  | .list (item :: items), level, fuel + 1, rest, m, hfuel, _ => by
    -- the first item shows that the list is not empty: it does not start with a bracket
    obtain ⟨c, cs, hcs, hspace, hc⟩ := exists_write item l (level + 1)
    rw [write_list] at hfuel ⊢
    simp only [List.length_cons, List.length_append] at hfuel
    obtain ⟨ss, stop, hss, hitems⟩ := itemsAt_write hl (item :: items) (List.cons_ne_nil _ _)
      (level + 1) fuel (l.lineStart level) rest ((m.past '[').pastAll (l.lineStart (level + 1)))
      (hl.lineStart level) (by omega)
    refine ⟨.list m ss (.closed stop), stop, .list hss, ?_⟩
    simp only [listBody, hcs, List.cons_append, List.append_assoc] at hitems ⊢
    rw [valueAt_list (hl.lineStart (level + 1)) hspace hc]
    simp [hitems]
  | .object [], level, fuel + 1, rest, m, _, _ => by
    rw [write]
    exact ⟨_, _, .object .nil, valueAt_object_nil fuel rest m⟩
  | .object (e :: members), level, fuel + 1, rest, m, hfuel, _ => by
    rw [write_object] at hfuel ⊢
    simp only [List.length_cons, List.length_append] at hfuel
    obtain ⟨ss, stop, hss, hmembers⟩ := membersAt_write hl (e :: members)
      (List.cons_ne_nil _ _) (level + 1) fuel (l.lineStart level) rest
      (((m.past '\x7b').pastAll (l.lineStart (level + 1))).past '"') (hl.lineStart level)
      (by omega)
    refine ⟨.object m ss (.closed stop), stop, .object hss, ?_⟩
    simp only [List.cons_append, List.append_assoc] at hmembers ⊢
    rw [valueAt_object (hl.lineStart (level + 1))]
    simp [hmembers]

/-- The scan of the items of a list stops after its bracket, and its trees represent the items as
    reread.  The induction is on the items, with the rest of the text after the bracket left
    open. -/
theorem itemsAt_write {l : Layout} (hl : l.Blank) : ∀ (js : List Json), js ≠ [] →
    ∀ (level fuel : Nat) (blanks rest : List Char) (m : Mark),
      (∀ c ∈ blanks, isSpace c = true) → (listBody l level js).length < fuel →
      ∃ items stop, RepresentsAll items (rereadAll js)
        ∧ itemsAt fuel (listBody l level js ++ (blanks ++ ']' :: rest)) m
          = (items, .closed stop, some (rest, stop))
  | [], h, _, _, _, _, _, _, _ => absurd rfl h
  | _ :: _, _, _, 0, _, _, _, _, hfuel => absurd hfuel (Nat.not_lt_zero _)
  | [item], _, level, fuel + 1, blanks, rest, m, hblanks, hfuel => by
    simp only [listBody, writeItems, List.append_nil] at hfuel ⊢
    obtain ⟨s, stop, hs, hitem⟩ := valueAt_write hl item level fuel (blanks ++ ']' :: rest) m
      (by omega) (stops_close hblanks (by decide) rest)
    exact ⟨[s], _, .cons hs .nil, itemsAt_last hblanks hitem⟩
  | item :: next :: js, _, level, fuel + 1, blanks, rest, m, hblanks, hfuel => by
    -- after the item a comma follows, and after the blanks of a line the next one
    obtain ⟨c, cs, hcs, hspace, hc⟩ := exists_write next l level
    have hpos : 0 < (write l level item).length := by
      obtain ⟨c', cs', hcs', -⟩ := exists_write item l level
      simp [hcs']
    rw [listBody, writeItems_cons, List.append_assoc, List.cons_append, List.append_assoc] at *
    simp only [List.length_cons, List.length_append] at hfuel
    obtain ⟨s, stop, hs, hitem⟩ := valueAt_write hl item level fuel
      (',' :: (l.lineStart level ++ (listBody l level (next :: js) ++ (blanks ++ ']' :: rest)))) m
      (by omega) (stops_cons _ (by decide))
    obtain ⟨ss, stop', hss, hitems⟩ := itemsAt_write hl (next :: js) (List.cons_ne_nil _ _) level
      fuel blanks rest ((stop.past ',').pastAll (l.lineStart level)) hblanks (by omega)
    refine ⟨s :: ss, stop', .cons hs hss, ?_⟩
    simp only [listBody, hcs, List.cons_append, List.append_assoc] at hitem hitems ⊢
    rw [itemsAt_more (hl.lineStart level) hspace hc hitem]
    simp [hitems]

/-- The scan of the members of an object stops after its brace, and its trees represent the
    members as reread.  The induction is on the members, as for lists. -/
theorem membersAt_write {l : Layout} (hl : l.Blank) : ∀ (ms : List (String × Json)), ms ≠ [] →
    ∀ (level fuel : Nat) (blanks rest : List Char) (m : Mark),
      (∀ c ∈ blanks, isSpace c = true) → (objectBody l level ms).length < fuel →
      ∃ members stop, RepresentsMembers members (rereadMembers ms)
        ∧ membersAt fuel (objectBody l level ms ++ (blanks ++ '\x7d' :: rest)) m
          = (members, .closed stop, some (rest, stop))
  | [], h, _, _, _, _, _, _, _ => absurd rfl h
  | _ :: _, _, _, 0, _, _, _, _, hfuel => absurd hfuel (Nat.not_lt_zero _)
  | _ :: _, _, _, 1, _, _, _, _, hfuel => by simp [objectBody, memberBody] at hfuel
  | [(key, value)], _, level, fuel + 2, blanks, rest, m, hblanks, hfuel => by
    have hlen := length_write_le_memberBody l level key value
    simp only [objectBody, writeMembers, List.append_nil] at hfuel ⊢
    have hroom : (memberBody l level (key, value)).length ≤ fuel + 1 := by omega
    obtain ⟨repeated, s, cs, m', stop, hs, hkey, hvalue⟩ := memberAt_write hl hroom
      (fun m => valueAt_write hl value level (fuel + 1) (blanks ++ '\x7d' :: rest) m
        (by omega) (stops_close hblanks (by decide) rest)) m
    exact ⟨_, _, .cons hs .nil, membersAt_last hblanks hkey hvalue⟩
  | (key, value) :: next :: ms, _, level, fuel + 2, blanks, rest, m, hblanks, hfuel => by
    have hlen := length_write_le_memberBody l level key value
    rw [objectBody, writeMembers_cons] at hfuel ⊢
    simp only [List.length_cons, List.length_append, List.append_assoc, List.cons_append]
      at hfuel ⊢
    have hroom : (memberBody l level (key, value)).length ≤ fuel + 1 := by omega
    obtain ⟨repeated, s, cs, m', stop, hs, hkey, hvalue⟩ := memberAt_write hl hroom
      (fun m => valueAt_write hl value level (fuel + 1) (',' :: (l.lineStart level
        ++ '"' :: (objectBody l level (next :: ms) ++ (blanks ++ '\x7d' :: rest)))) m
        (by omega) (stops_cons _ (by decide))) m
    obtain ⟨ss, stop', hss, hmembers⟩ := membersAt_write hl (next :: ms) (List.cons_ne_nil _ _)
      level (fuel + 1) blanks rest (((stop.past ',').pastAll (l.lineStart level)).past '"') hblanks
      (by omega)
    refine ⟨(⟨.ok key, none, repeated, none⟩, s) :: ss, stop', .cons hs hss, ?_⟩
    rw [membersAt_more (hl.lineStart level) hkey hvalue]
    simp [hmembers]

end

/-- The scan of a written document finds its value, reread, and nothing after it. -/
theorem scan_write_reread {l : Layout} (hl : l.Blank) (j : Json) :
    ∃ s, Represents s j.reread ∧ scan (String.ofList (j.write l 0)) = (s, none) := by
  obtain ⟨s, stop, hs, hvalue⟩ := valueAt_write hl j 0 (2 * (j.write l 0).length + 2) []
    Mark.start (by omega) (stops_nil _)
  rw [List.append_nil] at hvalue
  exact ⟨s, hs, by simp [scan, hvalue, skipSpace]⟩

/-- The scan of a written document without floats finds its value and nothing after it. -/
theorem scan_write {l : Layout} (hl : l.Blank) {j : Json} (hj : j.Everywhere Whole) :
    ∃ s, Represents s j ∧ scan (String.ofList (j.write l 0)) = (s, none) := by
  have h := scan_write_reread hl j
  rwa [reread_eq_self j hj] at h

end Syntax

end BranchProbe.Json
