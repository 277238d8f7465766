/-
  Runs of characters of one class.

  1. `Apart` compares two tables of code points; classes with tables apart share no character.
  2. The classes that follow each other in a comparison are disjoint: a blank or an operator never
     continues a word, and a point or a quote never continues a run of digits.
  3. `Run p cs` is a run of at least one character of the class `p`, `Stops p cs` a text that does
     not go on in it.  `span_run` is the crux: a scan for `p` ends exactly at the end of a run
     before a text that stops.
-/
import BranchProbe.Condition.Scanner
import Mathlib.Data.List.TakeDrop
import Mathlib.Data.List.TakeWhile

namespace BranchProbe.Text

/-! ## Tables -/

/-- No code point lies in a range of both tables. -/
def Apart (a b : List (Nat × Nat)) : Bool := a.all fun r => b.all fun s => r.2 < s.1 || s.2 < r.1

/-- A code point of a table lies in one of its ranges. -/
theorem exists_range_of_inRanges {n : Nat} :
    ∀ {table : List (Nat × Nat)}, inRanges table n = true → ∃ r ∈ table, r.1 ≤ n ∧ n ≤ r.2
  | [], h => by simp [inRanges] at h
  | (low, high) :: rest, h => by
    simp only [inRanges] at h
    split at h
    · simp at h
    · next hlow =>
      rcases Bool.or_eq_true _ _ ▸ h with h | h
      · exact ⟨(low, high), List.mem_cons_self, by omega, of_decide_eq_true h⟩
      · obtain ⟨r, hr, hn⟩ := exists_range_of_inRanges h
        exact ⟨r, List.mem_cons_of_mem _ hr, hn⟩

theorem not_inRanges_of_apart {a b : List (Nat × Nat)} (hab : Apart a b = true) {n : Nat}
    (ha : inRanges a n = true) : inRanges b n = false := by
  by_contra hb
  obtain ⟨r, hr, hrn⟩ := exists_range_of_inRanges ha
  obtain ⟨s, hs, hsn⟩ := exists_range_of_inRanges (Bool.not_eq_false _ ▸ hb)
  have h := List.all_eq_true.1 (List.all_eq_true.1 hab r hr) s hs
  simp only [Bool.or_eq_true, decide_eq_true_eq] at h
  omega

/-- The tables are closed data, so each of these three facts is one computation, done once here
    and never in a proof about characters. -/
theorem blank_apart_letters : Apart blankRanges alphabeticRanges = true := by decide +kernel

theorem blank_apart_digits : Apart blankRanges digitRanges = true := by decide +kernel

theorem blank_apart_joiners : Apart blankRanges joinerRanges = true := by decide +kernel

/-! ## Disjoint classes -/

/-- No blank is part of a word.  A word has letters, digits and joiners, and the tables of all
    three are apart from that of the blanks. -/
theorem not_word_of_blank {c : Char} (h : isBlank c = true) : isWord c = false := by
  have hl : isLetter c = false := not_inRanges_of_apart blank_apart_letters h
  have hd : isDigit c = false := not_inRanges_of_apart blank_apart_digits h
  have hj := not_inRanges_of_apart blank_apart_joiners h
  simp [isWord, hl, hd, hj]

theorem isOperator_iff {c : Char} :
    isOperator c = true ↔ c = '<' ∨ c = '>' ∨ c = '=' ∨ c = '!' := by
  simp [isOperator, or_assoc]

theorem not_word_of_operator {c : Char} (h : isOperator c = true) : isWord c = false := by
  rcases isOperator_iff.1 h with rfl | rfl | rfl | rfl <;> decide +kernel

theorem not_blank_of_operator {c : Char} (h : isOperator c = true) : isBlank c = false := by
  rcases isOperator_iff.1 h with rfl | rfl | rfl | rfl <;> decide

theorem word_of_digit {c : Char} (h : isDigit c = true) : isWord c = true := by
  simp [isWord, h]

/-- No digit is a blank, as it is part of a word. -/
theorem not_blank_of_digit {c : Char} (h : isDigit c = true) : isBlank c = false := by
  by_contra hb
  have := not_word_of_blank (Bool.not_eq_false _ ▸ hb)
  simp [word_of_digit h] at this

theorem not_operator_of_digit {c : Char} (h : isDigit c = true) : isOperator c = false := by
  by_contra ho
  have := not_word_of_operator (Bool.not_eq_false _ ▸ ho)
  simp [word_of_digit h] at this

/-- A quote starts no run of blanks, operator characters or digits. -/
theorem classes_of_quote {c : Char} (h : c = '\x27' ∨ c = '"') :
    isBlank c = false ∧ isOperator c = false ∧ isDigit c = false := by
  rcases h with rfl | rfl <;> decide

/-- A point ends a run of digits, so the digits before it and those after it are scanned apart. -/
theorem not_digit_point : isDigit '.' = false := by decide

/-! ## Runs -/

/-- At least one character, all of the class `p`. -/
def Run (p : Char → Bool) (cs : List Char) : Prop := cs ≠ [] ∧ ∀ c ∈ cs, p c = true

instance (p : Char → Bool) (cs : List Char) : Decidable (Run p cs) :=
  decidable_of_iff (cs ≠ [] ∧ cs.all p = true) (by rw [Run, List.all_eq_true])

/-- The text is over or its first character is not of the class `p`. -/
def Stops (p : Char → Bool) (cs : List Char) : Prop := ∀ c ∈ cs.head?, p c = false

theorem stops_nil (p : Char → Bool) : Stops p [] := by simp [Stops]

theorem stops_cons {p : Char → Bool} {c : Char} (cs : List Char) (h : p c = false) :
    Stops p (c :: cs) := by simp [Stops, h]

/-- Characters outside the class, if there are any, stop it; else what follows does. -/
theorem stops_append {p : Char → Bool} {xs ys : List Char} (hx : ∀ c ∈ xs, p c = false)
    (hy : Stops p ys) : Stops p (xs ++ ys) := by
  cases xs with
  | nil => exact hy
  | cons x xs => exact stops_cons _ (hx x List.mem_cons_self)

theorem Run.stops {p q : Char → Bool} {xs : List Char} (h : Run q xs) (ys : List Char)
    (hpq : ∀ c, q c = true → p c = false) : Stops p (xs ++ ys) := by
  cases xs with
  | nil => exact absurd rfl h.1
  | cons x xs => exact stops_cons _ (hpq x (h.2 x List.mem_cons_self))

/-- What is left after the longest run stops the class. -/
theorem stops_dropWhile (p : Char → Bool) (cs : List Char) : Stops p (cs.dropWhile p) := by
  have h := List.head?_dropWhile_not p cs
  intro c hc
  rw [Option.mem_def] at hc
  rw [hc] at h
  simpa using h

/-- A scan for the class `p` ends exactly at the end of a run before a text that stops. -/
theorem span_run {p : Char → Bool} {run rest : List Char} (hrun : ∀ c ∈ run, p c = true)
    (hrest : Stops p rest) : (run ++ rest).span p = (run, rest) := by
  rw [List.span_eq_takeWhile_dropWhile, List.takeWhile_append_of_pos hrun,
    List.dropWhile_append_of_pos hrun]
  cases rest with
  | nil => simp
  | cons c rest =>
    have hc : p c = false := hrest c rfl
    simp [hc]

theorem span_of_stops {p : Char → Bool} {cs : List Char} (h : Stops p cs) :
    cs.span p = ([], cs) := span_run (List.forall_mem_nil _) h

/-- Every text is its longest run and a text that stops. -/
theorem eq_run_append (p : Char → Bool) (cs : List Char) :
    ∃ run rest, cs = run ++ rest ∧ (∀ c ∈ run, p c = true) ∧ Stops p rest :=
  ⟨cs.takeWhile p, cs.dropWhile p, List.takeWhile_append_dropWhile.symm,
    fun _ hc => List.mem_takeWhile_imp hc, stops_dropWhile p cs⟩

/-- No run at the head of a text is longer than the one before a text that stops. -/
theorem length_le_of_stops {p : Char → Bool} {xs ys run rest : List Char}
    (hxs : ∀ c ∈ xs, p c = true) (hrun : ∀ c ∈ run, p c = true) (hrest : Stops p rest)
    (heq : xs ++ ys = run ++ rest) : xs.length ≤ run.length := by
  obtain ⟨more, tail, rfl, hmore, htail⟩ := eq_run_append p ys
  have hlong : ∀ c ∈ xs ++ more, p c = true := by
    intro c hc
    rcases List.mem_append.1 hc with hc | hc
    · exact hxs c hc
    · exact hmore c hc
  have hspan := span_run hlong htail
  rw [List.append_assoc, heq, span_run hrun hrest] at hspan
  rw [(Prod.mk.inj hspan).1, List.length_append]
  exact Nat.le_add_right _ _

end BranchProbe.Text
