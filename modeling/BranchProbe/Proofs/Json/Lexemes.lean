/-
  Written texts and numbers are read back.

  1. Spaces: a scan goes over any number of them (`skipSpace_append`).
  2. Texts: one character as it is written is read back by one step, whatever follows it
     (`readText_escapeChar`), so a whole text is read back up to its closing quote.  Passing over
     a text needs the same two lemmas once more, since it is a scan of its own.
  3. Numbers: each part of a number is a run of digits, so the parts are read back before a text
     that does not continue a number (`NumberText.at?_parts`).
-/
import BranchProbe.Json.Printer
import BranchProbe.Json.Lexeme
import BranchProbe.Proofs.Text.Runs

namespace BranchProbe

open Text (Run Stops stops_nil stops_cons span_run)

/-! ## Digits -/

namespace Numeral

theorem isDecimal_of_mem_digitsOf {c : Char} {n : Nat} (h : c ∈ digitsOf n) :
    isDecimal c = true := by
  have hdigit := Nat.isDigit_of_mem_toDigits (by decide) (by decide) h
  simpa [isDecimal, Char.isDigit, Char.le_def] using hdigit

/-- The number written by the digits of `n` is `n`. -/
@[simp] theorem naturalOf_digitsOf (n : Nat) : naturalOf (digitsOf n) = n := by
  have h := Nat.ofDigitChars_ten_toDigits (n := n)
  rw [Nat.ofDigitChars_eq_foldl] at h
  exact h

theorem exists_digitsOf (n : Nat) : ∃ c cs, digitsOf n = c :: cs ∧ isDecimal c = true := by
  obtain ⟨c, cs, hcs⟩ := List.exists_cons_of_ne_nil (Nat.toDigits_ne_nil (n := n) (b := 10))
  exact ⟨c, cs, hcs, isDecimal_of_mem_digitsOf (hcs ▸ List.mem_cons_self)⟩

/-- No number but zero starts with a zero.  The format allows no others, so this is needed before
    a written number can be read. -/
theorem digitsOf_head {n : Nat} (h : 0 < n) : ∃ c cs, digitsOf n = c :: cs ∧ c ≠ '0' := by
  rw [digitsOf, Nat.toDigits_eq_if (by decide)]
  split
  · next hlt =>
    have hchar : ∀ d < 10, 0 < d → d.digitChar ≠ '0' := by decide
    exact ⟨n.digitChar, [], rfl, hchar n hlt h⟩
  · obtain ⟨c, cs, hcs, hc⟩ := digitsOf_head (n := n / 10) (by omega)
    rw [digitsOf] at hcs
    exact ⟨c, cs ++ [(n % 10).digitChar], by rw [hcs, List.cons_append], hc⟩

end Numeral

namespace Json

/-! ## Spaces -/

theorem skipSpace_append {blanks : List Char} (h : ∀ c ∈ blanks, isSpace c = true)
    (cs : List Char) (m : Mark) :
    skipSpace (blanks ++ cs) m = skipSpace cs (m.pastAll blanks) := by
  induction blanks generalizing m with
  | nil => rfl
  | cons c blanks ih =>
    have hc := h c List.mem_cons_self
    rw [List.cons_append, skipSpace, if_pos hc, ih fun d hd => h d (List.mem_cons_of_mem _ hd)]
    rfl

/-- A text that starts with something else is left as it is. -/
theorem skipSpace_of_not {c : Char} (h : isSpace c = false) (cs : List Char) (m : Mark) :
    skipSpace (c :: cs) m = (c :: cs, m) := by
  simp [skipSpace, h]

/-! ## Texts -/

/-- The four digits of the escape of a control character give its number. -/
theorem controlEscape_digits : ∀ n < 0x20,
    List.replicate (4 - (Nat.toDigits 16 n).length) '0' ++ Nat.toDigits 16 n
        = ['0', '0', (n / 16).digitChar, (n % 16).digitChar]
      ∧ hexValue? (n / 16).digitChar = some (n / 16)
      ∧ hexValue? (n % 16).digitChar = some (n % 16) := by
  decide

/-- A control character is read back from the digits of its escape: two zeros, and the two digits
    of its code to base sixteen. -/
theorem exists_controlEscape {c : Char} (h : c.toNat < 0x20) :
    ∃ ds, controlEscape c = '\\' :: 'u' :: ds
      ∧ ∀ cs m, readHex (ds ++ cs) m = .ok (c.toNat, cs, m.pastAll ds) := by
  obtain ⟨hds, hhigh, hlow⟩ := controlEscape_digits c.toNat h
  have hzero : hexValue? '0' = some 0 := by decide
  have hsum : c.toNat / 16 * 16 + c.toNat % 16 = c.toNat := Nat.div_add_mod' _ _
  refine ⟨['0', '0', (c.toNat / 16).digitChar, (c.toNat % 16).digitChar], ?_, fun cs m => ?_⟩
  · rw [controlEscape, List.append_assoc, hds]
    rfl
  · simp [readHex, hzero, hhigh, hlow, hsum]

/-- What follows a backslash is an escape of the character `c`. -/
def Escapes (c : Char) (escape : List Char) : Prop :=
  ∀ cs m, readEscape (escape ++ cs) m = .ok (c, cs, m.pastAll escape)
    ∧ passEscape (escape ++ cs) m = .ok ((), cs, m.pastAll escape)

/-- A short escape is read as the character that it stands for. -/
theorem escapes_short {c e : Char} (h : shortEscape? e = some c) : Escapes c [e] := by
  intro cs m
  simp [readEscape, passEscape, h, Mark.pastAll]

/-- A long escape is read as the character with the number in its digits; it is used for control
    characters only. -/
theorem escapes_unicode {c : Char} {ds : List Char} (hc : c.toNat < 0x20)
    (h : ∀ cs m, readHex (ds ++ cs) m = .ok (c.toNat, cs, m.pastAll ds)) :
    Escapes c ('u' :: ds) := by
  intro cs m
  have hhex := h cs (m.past 'u')
  -- a control character lies below the surrogates, so no second escape is asked for
  have hlow : ¬ (0xDC00 ≤ c.toNat ∧ c.toNat ≤ 0xDFFF) := by omega
  have hplain : c.toNat < 0xD800 := by omega
  have hu : shortEscape? 'u' = none := by decide
  constructor
  · simp [readEscape, hu, readUnicodeEscape, hhex, hlow, hplain, Mark.pastAll]
  · simp [passEscape, hu, hhex, Mark.pastAll, Except.map]

/-- A character is written as itself or as an escape.  What is written as itself is neither a
    quote nor a backslash nor a control character, so the reader takes it as it is. -/
theorem escapeChar_cases (c : Char) :
    (escapeChar c = [c] ∧ c ≠ '"' ∧ c ≠ '\\' ∧ ¬ c.toNat < 0x20)
      ∨ ∃ escape, escapeChar c = '\\' :: escape ∧ Escapes c escape := by
  rw [escapeChar.eq_def]
  split
  iterate 7 exact .inr ⟨_, rfl, escapes_short rfl⟩
  next hquote hslash _ _ _ _ _ =>
  split
  · next hc =>
    obtain ⟨ds, hds, hhex⟩ := exists_controlEscape hc
    exact .inr ⟨_, hds, escapes_unicode hc hhex⟩
  · next hc => exact .inl ⟨rfl, hquote, hslash, hc⟩

/-- A written text has at least a character for each of its own.  So the fuel that the written
    text gives the reader is enough for the text it stands for. -/
theorem length_le_flatMap_escapeChar :
    ∀ cs : List Char, cs.length ≤ (cs.flatMap escapeChar).length
  | [] => Nat.le_refl 0
  | c :: cs => by
    have ih := length_le_flatMap_escapeChar cs
    have hpos : 0 < (escapeChar c).length := by
      rcases escapeChar_cases c with ⟨hc, -⟩ | ⟨escape, hc, -⟩ <;> simp [hc]
    rw [List.flatMap_cons, List.length_append, List.length_cons]
    omega

/-- A written text is read back up to its closing quote, and passed over to the same place.  The
    induction is on the text, with one step of fuel for each character or escape. -/
theorem readText_escape (rest : List Char) :
    ∀ (cs : List Char) (fuel : Nat) (m : Mark), cs.length < fuel →
      ∃ stop, readText fuel (cs.flatMap escapeChar ++ '"' :: rest) m = .ok (cs, rest, stop)
        ∧ passText fuel (cs.flatMap escapeChar ++ '"' :: rest) m = .ok ((), rest, stop)
  | [], fuel + 1, m, _ => by
    refine ⟨m.past '"', ?_, ?_⟩
    · simp [readText]
    · simp [passText]
  | c :: cs, fuel + 1, m, h => by
    have hlen : cs.length < fuel := Nat.lt_of_succ_lt_succ h
    rw [List.flatMap_cons, List.append_assoc]
    rcases escapeChar_cases c with ⟨hc, hquote, hslash, hlow⟩ | ⟨escape, hc, hescape⟩
    · obtain ⟨stop, hread, hpass⟩ := readText_escape rest cs fuel (m.past c) hlen
      refine ⟨stop, ?_, ?_⟩
      · simp [hc, readText, hquote, hslash, hlow, hread]
      · simp [hc, passText, hquote, hslash, hlow, hpass]
    · obtain ⟨hr, hp⟩ := hescape (cs.flatMap escapeChar ++ '"' :: rest) (m.past '\\')
      obtain ⟨stop, hread, hpass⟩ :=
        readText_escape rest cs fuel ((m.past '\\').pastAll escape) hlen
      refine ⟨stop, ?_, ?_⟩
      · simp [hc, readText, hr, hread]
      · simp [hc, passText, hp, hpass]

/-! ## Numbers -/

/-- The characters that would go on with a number. -/
def continuesNumber (c : Char) : Bool := Numeral.isDecimal c || c = '.' || c = 'e' || c = 'E'

namespace NumberText

/-- The parts of a number as they are written. -/
def write (n : NumberText) : List Char :=
  (if n.negative then ['-'] else []) ++ (n.whole
    ++ ((n.fraction.elim [] fun ds => '.' :: ds)
    ++ n.exponent.elim [] fun e => 'e' :: (if e.1 then '-' else '+') :: e.2))

/-- Digits without a zero before them. -/
def Leads (ds : List Char) : Prop :=
  ds = ['0'] ∨ (Run Numeral.isDecimal ds ∧ ds.head? ≠ some '0')

/-- No part of the number is empty, and no zero stands before its digits. -/
structure WellFormed (n : NumberText) : Prop where
  whole : Leads n.whole
  fraction : ∀ ds, n.fraction = some ds → Run Numeral.isDecimal ds
  exponent : ∀ e, n.exponent = some e → Run Numeral.isDecimal e.2

/-- A number is written without leading zeros, as the format demands. -/
theorem leads_digitsOf (n : Nat) : Leads (Numeral.digitsOf n) := by
  rcases Nat.eq_zero_or_pos n with rfl | hpos
  · exact .inl rfl
  · obtain ⟨c, cs, hcs, hc⟩ := Numeral.digitsOf_head hpos
    exact .inr ⟨⟨by simp [hcs], fun _ hd => Numeral.isDecimal_of_mem_digitsOf hd⟩, by simp [hcs, hc]⟩

theorem Leads.exists_cons {ds : List Char} (h : Leads ds) :
    ∃ c cs, ds = c :: cs ∧ Numeral.isDecimal c = true := by
  rcases h with rfl | ⟨⟨hne, hall⟩, -⟩
  · exact ⟨'0', [], rfl, by decide⟩
  · obtain ⟨c, cs, rfl⟩ := List.exists_cons_of_ne_nil hne
    exact ⟨c, cs, rfl, hall c List.mem_cons_self⟩

/-- Digits without leading zeros are read as a whole, up to the first character that is no digit. -/
theorem wholeAt?_of_leads {ds rest : List Char} (h : Leads ds)
    (hrest : Stops Numeral.isDecimal rest) (m : Mark) :
    ∃ stop, wholeAt? (ds ++ rest) m = .ok (ds, rest, stop) := by
  rcases h with rfl | ⟨⟨hne, hall⟩, hzero⟩
  · cases rest with
    | nil => exact ⟨_, rfl⟩
    | cons c rest =>
      have hc : Numeral.isDecimal c = false := hrest c rfl
      exact ⟨m.past '0', by simp [wholeAt?, hc]⟩
  · obtain ⟨c, cs, rfl⟩ := List.exists_cons_of_ne_nil hne
    have hrun : Numeral.digitRun (c :: cs ++ rest) = (c :: cs, rest) := span_run hall hrest
    rw [List.cons_append] at hrun ⊢
    have hc : c ≠ '0' := fun h => hzero (congrArg some h)
    exact ⟨m.pastAll (c :: cs), by simp [wholeAt?, hc, hrun]⟩

/-- What goes on with a number are digits, or what starts a fraction or an exponent. -/
theorem stops_of_continues {rest : List Char} (h : Stops continuesNumber rest) :
    Stops Numeral.isDecimal rest ∧ ∀ c ∈ rest.head?, c ≠ '.' ∧ c ≠ 'e' ∧ c ≠ 'E' := by
  constructor
  · intro c hc
    have := h c hc
    simp only [continuesNumber, Bool.or_eq_false_iff] at this
    exact this.1.1.1
  · intro c hc
    have := h c hc
    refine ⟨?_, ?_, ?_⟩ <;> rintro rfl <;> exact absurd this (by decide)

/-- An exponent, if there is one, is read up to a text that does not go on with a number. -/
theorem exponentAt?_write {exponent : Option (Bool × List Char)}
    (hexponent : ∀ e, exponent = some e → Run Numeral.isDecimal e.2) {rest : List Char}
    (h : Stops continuesNumber rest) (m : Mark) :
    ∃ stop, exponentAt? ((exponent.elim [] fun e => 'e' :: (if e.1 then '-' else '+') :: e.2)
      ++ rest) m = .ok (exponent, rest, stop) := by
  obtain ⟨hdigits, hmarks⟩ := stops_of_continues h
  cases exponent with
  | none =>
    cases rest with
    | nil => exact ⟨m, rfl⟩
    | cons c rest =>
      obtain ⟨-, hc⟩ := hmarks c rfl
      exact ⟨m, by simp [exponentAt?, hc]⟩
  | some e =>
    obtain ⟨negative, ds⟩ := e
    obtain ⟨hne, hall⟩ := hexponent _ rfl
    have hrun : Numeral.digitRun (ds ++ rest) = (ds, rest) := span_run hall hdigits
    cases negative with
    | true => exact ⟨((m.past 'e').past '-').pastAll ds, by simp [exponentAt?, hrun, hne]⟩
    | false => exact ⟨((m.past 'e').past '+').pastAll ds, by simp [exponentAt?, hrun, hne]⟩

/-- A fraction, if there is one, is read up to a text that does not go on with it. -/
theorem fractionAt?_write {fraction : Option (List Char)}
    (hfraction : ∀ ds, fraction = some ds → Run Numeral.isDecimal ds) {rest : List Char}
    (hdigits : Stops Numeral.isDecimal rest) (hpoint : ∀ c ∈ rest.head?, c ≠ '.') (m : Mark) :
    ∃ stop, fractionAt? ((fraction.elim [] fun ds => '.' :: ds) ++ rest) m
      = .ok (fraction, rest, stop) := by
  cases fraction with
  | none =>
    cases rest with
    | nil => exact ⟨m, rfl⟩
    | cons c rest =>
      have hc := hpoint c rfl
      exact ⟨m, by simp [fractionAt?, hc]⟩
  | some ds =>
    obtain ⟨hne, hall⟩ := hfraction _ rfl
    have hrun : Numeral.digitRun (ds ++ rest) = (ds, rest) := span_run hall hdigits
    exact ⟨(m.past '.').pastAll ds, by simp [fractionAt?, hrun, hne]⟩

/-- The parts of a number are read back before a text that does not go on with a number. -/
theorem at?_parts {n : NumberText} (hn : n.WellFormed) {rest : List Char}
    (h : Stops continuesNumber rest) (m : Mark) :
    ∃ stop, at? (n.write ++ rest) m = .ok (n, rest, stop) := by
  obtain ⟨negative, whole, fraction, exponent⟩ := n
  obtain ⟨hdigits, hmarks⟩ := stops_of_continues h
  -- after the fraction an exponent may follow, after the digits before it a fraction
  obtain ⟨tail, htail⟩ : ∃ tail, tail = (exponent.elim [] fun e =>
      'e' :: (if e.1 then '-' else '+') :: e.2) ++ rest := ⟨_, rfl⟩
  have htailDigits : Stops Numeral.isDecimal tail := by
    cases exponent with
    | none => rwa [htail]
    | some e => rw [htail]; exact stops_cons _ (by decide)
  have htailPoint : ∀ c ∈ tail.head?, c ≠ '.' := by
    cases exponent with
    | none => rw [htail]; exact fun c hc => (hmarks c hc).1
    | some e => rw [htail]; simp
  obtain ⟨middle, hmiddle⟩ : ∃ middle, middle = (fraction.elim [] fun ds => '.' :: ds) ++ tail :=
    ⟨_, rfl⟩
  have hmiddleDigits : Stops Numeral.isDecimal middle := by
    cases fraction with
    | none => rwa [hmiddle]
    | some ds => rw [hmiddle]; exact stops_cons _ (by decide)
  have hparts : ∀ m, ∃ m₁ m₂ m₃, wholeAt? (whole ++ middle) m = .ok (whole, middle, m₁)
      ∧ fractionAt? middle m₁ = .ok (fraction, tail, m₂)
      ∧ exponentAt? tail m₂ = .ok (exponent, rest, m₃) := by
    intro m
    obtain ⟨m₁, hwhole⟩ := wholeAt?_of_leads hn.whole hmiddleDigits m
    obtain ⟨m₂, hfraction⟩ := fractionAt?_write hn.fraction htailDigits htailPoint m₁
    obtain ⟨m₃, hexponent⟩ := exponentAt?_write hn.exponent h m₂
    rw [← hmiddle] at hfraction
    rw [← htail] at hexponent
    exact ⟨m₁, m₂, m₃, hwhole, hfraction, hexponent⟩
  have htext : NumberText.write ⟨negative, whole, fraction, exponent⟩ ++ rest
      = (if negative then ['-'] else []) ++ (whole ++ middle) := by
    rw [hmiddle, htail, write]
    simp only [List.append_assoc]
  rw [htext]
  cases negative with
  | true =>
    obtain ⟨m₁, m₂, m₃, hwhole, hfraction, hexponent⟩ := hparts (m.past '-')
    refine ⟨m₃, ?_⟩
    simp [at?, hwhole, hfraction, hexponent, bind, Except.bind, pure, Except.pure]
  | false =>
    obtain ⟨c, cs, hcs, hc⟩ := hn.whole.exists_cons
    have hminus : c ≠ '-' := by
      rintro rfl
      exact absurd hc (by decide)
    obtain ⟨m₁, m₂, m₃, hwhole, hfraction, hexponent⟩ := hparts m
    rw [show whole = c :: cs from hcs] at hwhole ⊢
    rw [List.cons_append] at hwhole
    refine ⟨m₃, ?_⟩
    simp [at?, hminus, hwhole, hfraction, hexponent, bind, Except.bind, pure, Except.pure]

theorem value_natural (n : UInt64) (stop : Mark) :
    value ⟨false, Numeral.digitsOf n.toNat, none, none⟩ stop = .ok (.natural n) := by
  have hlt : n.toNat < Nat.pow 2 64 := n.toNat_lt
  simp only [value, Option.isSome_none, Bool.or_self, Bool.false_eq_true, if_false,
    Bool.not_false, if_true, Numeral.naturalOf_digitsOf, if_pos hlt, UInt64.ofNat_toNat]

/-- A negative number is meant by a minus and the digits of its absolute value. -/
theorem value_negative {n : Int64} (hneg : n < 0) (stop : Mark) :
    value ⟨true, Numeral.digitsOf n.toInt.natAbs, none, none⟩ stop = .ok (.negative n hneg) := by
  have hlt : n.toInt < 0 := Int64.lt_iff_toInt_lt.1 hneg
  have hmin : -2 ^ 63 ≤ n.toInt := Int64.le_toInt n
  have habs : -(n.toInt.natAbs : Int) = n.toInt := by omega
  have hle : n.toInt.natAbs ≤ 2 ^ 63 := by omega
  have hof : Int64.ofInt (-(n.toInt.natAbs : Int)) = n := by rw [habs, Int64.ofInt_toInt]
  simp only [value, Option.isSome_none, Bool.or_self, Bool.false_eq_true, if_false,
    Bool.not_true, Numeral.naturalOf_digitsOf, hof]
  exact dif_pos ⟨hneg, hle⟩

end NumberText

end Json

end BranchProbe
