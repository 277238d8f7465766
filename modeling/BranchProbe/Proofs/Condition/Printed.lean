/-
  Printed comparisons are scanned back.

  1. `Comparison.Printable` says of which characters a comparison may be made so that its printed
     form can be told apart: a word, an operator in any spelling, and a whole number without sign or
     a text without single quote.  The text may hold anything else, whole comparisons included.
  2. `Comparison.written` is the match that the printed form is meant to be read as.
     `at?_written` is the crux: where a printed comparison is followed by a character that neither
     is a digit nor a point, or by nothing, the scanner finds this match and no other.
  3. Between two comparisons the scanner meets no `i` in ` and `, so it goes on to the next one
     (`matchesFrom_glue`); the list is then scanned back by induction (`matchesFrom_conjunction`).
-/
import BranchProbe.Proofs.Condition.Scan
import BranchProbe.Proofs.Json.Lexemes

namespace BranchProbe

open Text (Run Stops isWord isDigit stops_cons)

/-! ## Operators -/

namespace Operator

/-- An operator is written as it was read. -/
@[simp] theorem spelling_parse (s : String) : (parse s).spelling = s := by
  unfold parse
  split <;> rfl

end Operator

/-! ## Literals -/

namespace Literal

/-- A whole number without sign, or a text without single quote. -/
def Printable : Literal → Prop
  | .integer n => 0 ≤ n.toInt
  | .float _ => False
  | .text s => '\x27' ∉ s.toList

instance : DecidablePred Printable
  | .integer n => inferInstanceAs (Decidable (0 ≤ n.toInt))
  | .float _ => inferInstanceAs (Decidable False)
  | .text s => inferInstanceAs (Decidable ('\x27' ∉ s.toList))

/-- The literal as its printed form is read; a float has no form of its own. -/
def written : Literal → Spelling
  | .integer n => .digits (Numeral.digitsOf n.toInt.toNat)
  | .float x => .digits (Numeral.plainText x).toList
  | .text s => .quoted '\x27' s.toList

theorem isDigit_of_isDecimal {c : Char} (h : Numeral.isDecimal c = true) : isDigit c = true := by
  have hrange : ∀ n < 58, 48 ≤ n → Text.inRanges Text.digitRanges n = true := by decide
  simp only [Numeral.isDecimal, Char.le_def, Bool.and_eq_true, decide_eq_true_eq] at h
  exact hrange c.toNat (Nat.lt_succ_of_le h.2) h.1

/-- The digits of a number are a run of digits for the scanner, which knows more digits than
    these ten. -/
theorem run_digitsOf (n : Nat) : Run isDigit (Numeral.digitsOf n) :=
  ⟨Nat.toDigits_ne_nil, fun _ hc => isDigit_of_isDecimal (Numeral.isDecimal_of_mem_digitsOf hc)⟩

section Printable

variable {l : Literal} (h : l.Printable)

include h

/-- A printed literal is a spelling that the scanner accepts. -/
theorem written_wellFormed : l.written.WellFormed := by
  cases l with
  | integer n => exact run_digitsOf _
  | float x => exact absurd h id
  | text s => exact ⟨.inl rfl, h⟩

theorem chars_written : l.written.chars = l.display.toList := by
  cases l with
  | integer n =>
    obtain ⟨k, hk⟩ := Int.eq_ofNat_of_zero_le h
    simp only [written, Spelling.chars, display, hk, Int.toNat_natCast]
    exact (String.toList_ofList).symm
  | float x => exact absurd h id
  | text s => simp [written, Spelling.chars, display]

/-- The printed literal has the value that was printed.  For whole numbers this is where the
    bound of 63 bits is used, and for texts that there is no single quote in them. -/
theorem value?_written : l.written.value? = some l := by
  cases l with
  | integer n =>
    have hlt : n.toInt.toNat < Nat.pow 2 63 := by
      have hmax := Int64.toInt_lt n
      have hpow : Nat.pow 2 63 = 9223372036854775808 := rfl
      omega
    have hall : (Numeral.digitsOf n.toInt.toNat).all Numeral.isDecimal = true :=
      List.all_eq_true.2 fun c hc => Numeral.isDecimal_of_mem_digitsOf hc
    have hback : Int64.ofNat n.toInt.toNat = n :=
      Int64.ofNat_toNatClampNeg n (Int64.le_iff_toInt_le.2 h)
    simp only [written, Spelling.value?, hall, Numeral.naturalOf_digitsOf, hlt, decide_true,
      Bool.and_self, if_true, hback]
  | float x => exact absurd h id
  | text s => simp [written, Spelling.value?]

/-- The printed literal is read up to its end, before a text that goes on with neither a digit nor
    a point. -/
theorem at?_written {rest : List Char} (hdigit : Stops isDigit rest)
    (hpoint : ∀ tail, rest ≠ '.' :: tail) :
    Spelling.at? (l.written.chars ++ rest) = some (l.written, rest) := by
  cases l with
  | integer n =>
    have hrun := run_digitsOf n.toInt.toNat
    rw [written, Spelling.chars, Spelling.at?_of_digits hrun]
    exact Spelling.number?_digits hrun hdigit fun tail heq => absurd heq (hpoint tail)
  | float x => exact absurd h id
  | text s =>
    rw [written, Spelling.chars, List.append_assoc, List.cons_append, List.singleton_append]
    exact Spelling.quoted?_append h rest

end Printable

end Literal

/-! ## Comparisons -/

namespace Comparison

/-- The comparison is made of parts that can be told apart where they are printed. -/
structure Printable (c : Comparison) : Prop where
  name : Run isWord c.name.toList
  operator : ∃ spelling : String, Run isOperator spelling.toList
    ∧ c.operator = Operator.parse spelling
  literal : c.literal.Printable

/-- The comparison as its printed form is read. -/
def written (c : Comparison) : Match :=
  ⟨c.name.toList, [' '], c.operator.spelling.toList, [' '], c.literal.written⟩

section Printable

variable {c : Comparison} (h : c.Printable)

include h

/-- A printed comparison is a match that the scanner accepts, its name and operator included. -/
theorem written_wellFormed : c.written.WellFormed := by
  obtain ⟨spelling, hrun, hparse⟩ := h.operator
  have hblank : ∀ c ∈ [' '], Text.isBlank c = true := List.all_eq_true.1 (by decide)
  refine ⟨h.name, hblank, ?_, hblank, Literal.written_wellFormed h.literal⟩
  rw [written, hparse, Operator.spelling_parse]
  exact hrun

/-- And that match is just what is printed, behind the word for the input. -/
theorem chars_written : c.written.chars = ("input." ++ c.display).toList := by
  simp [written, Match.chars, Literal.chars_written h.literal, display, inputMark]

/-- The match stands for the comparison that was printed.  Here the whole numbers must fit and
    the operators must be read back. -/
theorem comparison?_written : c.written.comparison? = some c := by
  obtain ⟨spelling, -, hparse⟩ := h.operator
  simp [written, Match.comparison?, Literal.value?_written h.literal, hparse]
  rw [← hparse]

/-- A printed comparison is found where it stands, before a text that goes on with neither a digit
    nor a point. -/
theorem at?_written {rest : List Char} (hdigit : Stops isDigit rest)
    (hpoint : ∀ tail, rest ≠ '.' :: tail) :
    Match.at? (c.written.chars ++ rest) = some c.written := by
  have hliteral := Literal.at?_written h.literal hdigit hpoint
  rw [Match.at?_chars_append (written_wellFormed h)]
  exact congrArg (Option.map _) hliteral

/-- The scan finds the printed comparison first and goes on after it. -/
theorem matchesFrom_written (rest : List Char) (hdigit : Stops isDigit rest)
    (hpoint : ∀ tail, rest ≠ '.' :: tail) :
    matchesFrom 0 (c.written.chars ++ rest) = c.written :: matchesFrom 0 rest := by
  rw [matchesFrom_of_at? (at?_written h hdigit hpoint), List.drop_left]

end Printable

/-! ## Conjunctions -/

/-- Some comparisons in one condition, with `and` between them. -/
def conjunction (cs : List Comparison) : String :=
  " and ".intercalate (cs.map fun c => "input." ++ c.display)

/-- No match starts at a character other than `i`, with which every comparison begins.  So what
    stands between comparisons can be passed over character by character. -/
theorem matchesFrom_cons_of_ne {c : Char} (h : c ≠ 'i') (cs : List Char) :
    matchesFrom 0 (c :: cs) = matchesFrom 0 cs := by
  have hnone : Match.at? (c :: cs) = none := by
    simp [Match.at?, inputMark, Ne.symm h]
  rw [matchesFrom, hnone]

/-- The scan goes over what stands between two comparisons: the joining word has no `i` in it at
    which one could start. -/
theorem matchesFrom_glue (cs : List Char) :
    matchesFrom 0 (" and ".toList ++ cs) = matchesFrom 0 cs := by
  have hglue : " and ".toList ++ cs = ' ' :: 'a' :: 'n' :: 'd' :: ' ' :: cs := rfl
  rw [hglue]
  iterate 5 rw [matchesFrom_cons_of_ne (by decide)]

/-- A conjunction starts with its first comparison and goes on behind the joining word. -/
theorem toList_conjunction_cons (c d : Comparison) (cs : List Comparison) :
    (conjunction (c :: d :: cs)).toList
      = ("input." ++ c.display).toList ++ (" and ".toList ++ (conjunction (d :: cs)).toList) := by
  simp [conjunction, String.toList_intercalate, List.intercalate]

/-- The matches of a conjunction are the comparisons as written.  The induction is on the list:
    the joining word starts with a blank, which ends a literal, and no comparison starts within
    it. -/
theorem matchesFrom_conjunction :
    ∀ cs : List Comparison, (∀ c ∈ cs, c.Printable) →
      matchesFrom 0 (conjunction cs).toList = cs.map written
  | [], _ => by simp [conjunction, matchesFrom]
  | [c], h => by
    have hc := h c List.mem_cons_self
    have hlast := matchesFrom_written hc [] (Text.stops_nil _) (by simp)
    rw [List.append_nil, chars_written hc] at hlast
    simpa [conjunction, matchesFrom] using hlast
  | c :: d :: cs, h => by
    have hc := h c List.mem_cons_self
    have ih := matchesFrom_conjunction (d :: cs) fun e he => h e (List.mem_cons_of_mem _ he)
    have hglue : " and ".toList = ' ' :: "and ".toList := rfl
    -- the blank after a comparison ends a number and starts no fraction
    have hfirst := matchesFrom_written hc (" and ".toList ++ (conjunction (d :: cs)).toList)
      (by rw [hglue]; exact stops_cons _ (by decide)) (by simp [hglue])
    rw [toList_conjunction_cons, ← chars_written hc, hfirst, matchesFrom_glue, ih,
      ← List.map_cons]

/-- Comparisons printed one after the other with `and` between them are scanned back, in their order
    and each with its spelling, whatever their texts hold. -/
theorem comparisons_conjunction (cs : List Comparison) (h : ∀ c ∈ cs, c.Printable) :
    comparisons (some (conjunction cs)) = cs := by
  have hwritten : ∀ ds : List Comparison, (∀ c ∈ ds, c.Printable) →
      (ds.map written).filterMap Match.comparison? = ds := by
    intro ds hds
    induction ds with
    | nil => rfl
    | cons c ds ih =>
      have hc := comparison?_written (hds c List.mem_cons_self)
      rw [List.map_cons, List.filterMap_cons_some hc,
        ih fun e he => hds e (List.mem_cons_of_mem _ he)]
  rw [comparisons, matchesFrom_conjunction cs h, hwritten cs h]

/-- The greatest whole number behind an operator without meaning, and a text with a comparison in
    it. -/
def comparisonInText : List Comparison :=
  [⟨"größe_1", .unrecognized "=>", .integer 9223372036854775807⟩,
    ⟨"9", .unequal, .text "\" and input.y > 3\n"⟩, ⟨"x", .less, .integer 0⟩]

/-- The comparison in the text is not scanned, since a quoted literal is matched as a whole; and
    the operator without meaning is kept as it is written. -/
theorem comparisonInText_conjunction :
    (∀ c ∈ comparisonInText, c.Printable)
    ∧ conjunction comparisonInText = "input.größe_1 => 9223372036854775807 and "
        ++ "input.9 != '\" and input.y > 3\n' and input.x < 0"
    ∧ comparisons (some (conjunction comparisonInText)) = comparisonInText := by
  have hrun : ∀ (p : Char → Bool) (cs : List Char), cs ≠ [] → cs.all p = true → Run p cs :=
    fun _ _ hne hall => ⟨hne, List.all_eq_true.1 hall⟩
  have hprintable : ∀ c ∈ comparisonInText, c.Printable := by
    intro c hc
    simp only [comparisonInText, List.mem_cons, List.not_mem_nil, or_false] at hc
    rcases hc with rfl | rfl | rfl
    · exact ⟨hrun _ _ (by decide) (by decide +kernel), ⟨"=>", hrun _ _ (by decide) rfl, rfl⟩,
        by decide⟩
    · exact ⟨hrun _ _ (by decide) (by decide +kernel), ⟨"!=", hrun _ _ (by decide) rfl, rfl⟩,
        by decide⟩
    · exact ⟨hrun _ _ (by decide) (by decide +kernel), ⟨"<", hrun _ _ (by decide) rfl, rfl⟩,
        by decide⟩
  exact ⟨hprintable, by decide, comparisons_conjunction comparisonInText hprintable⟩

end Comparison

end BranchProbe
