/-
  The comparisons of a condition are those of the leftmost scan.

  The scan is a relation between a text, a cursor and the matches found from the cursor on, each
  with its place.  It says nothing of how a match is looked for:

  1. `Scan.done`: no comparison stands at the cursor or after it.
  2. `Scan.next`: the first place from the cursor on at which any comparison stands holds the match
     that heads the text there, and the scan goes on after that match.

  `Scan.unique` and `exists_scan` make it a function, the one that `matchesFrom` computes.  A match
  without a value (`Literal.Spelling.Valueless`) is found like any other and then dropped.
-/
import BranchProbe.Proofs.Condition.Splits
import BranchProbe.Proofs.Numeral.Read

namespace BranchProbe

/-! ## The scan as a relation -/

/-- Some comparison stands at a place of a text. -/
def StandsAt (text : List Char) (place : Nat) : Prop := ∃ m : Match, m.Splits (text.drop place)

/-- The matches of a text from a cursor on, with their places. -/
inductive Scan (text : List Char) : (cursor : Nat) → List (Nat × Match) → Prop where
  | done {cursor : Nat} (hnone : ∀ p, cursor ≤ p → ¬ StandsAt text p) : Scan text cursor []
  | next {cursor p : Nat} {m : Match} {found : List (Nat × Match)} (hle : cursor ≤ p)
      (hfirst : ∀ q, cursor ≤ q → q < p → ¬ StandsAt text q) (hheads : m.Heads (text.drop p))
      (hrest : Scan text (p + m.chars.length) found) : Scan text cursor ((p, m) :: found)

namespace Scan

variable {text : List Char} {cursor : Nat} {found found' : List (Nat × Match)}

/-- A text has one scan from a cursor on.  The first place where a comparison stands is unique,
    and so is the match at it, so both scans go on at the same cursor. -/
theorem unique (h : Scan text cursor found) (h' : Scan text cursor found') : found = found' := by
  induction h generalizing found' with
  | done hnone =>
    cases h' with
    | done _ => rfl
    | next hle _ hheads _ => exact absurd ⟨_, hheads.1⟩ (hnone _ hle)
  | @next cursor p m found hle hfirst hheads hrest ih =>
    cases h' with
    | done hnone => exact absurd ⟨_, hheads.1⟩ (hnone _ hle)
    | @next _ p' m' found' hle' hfirst' hheads' hrest' =>
      have hplace : p = p' := by
        rcases Nat.lt_trichotomy p p' with hlt | heq | hgt
        · exact absurd ⟨_, hheads.1⟩ (hfirst' p hle hlt)
        · exact heq
        · exact absurd ⟨_, hheads'.1⟩ (hfirst p' hle' hgt)
      subst hplace
      have hm := Match.at?_eq_some_iff.2 hheads
      rw [Match.at?_eq_some_iff.2 hheads'] at hm
      obtain rfl : m' = m := Option.some.inj hm
      rw [ih hrest']

/-- A place where nothing stands may be passed over: what is found from the place after it is
    found from here too.  This is the step by which a scan moves on. -/
theorem of_succ (h : Scan text (cursor + 1) found) (hnone : ¬ StandsAt text cursor) :
    Scan text cursor found := by
  cases h with
  | done hlater =>
    apply Scan.done
    intro p hp
    rcases Nat.lt_or_eq_of_le hp with hlt | rfl
    · exact hlater p hlt
    · exact hnone
  | next hle hfirst hheads hrest =>
    refine .next (by omega) (fun q hq hqp => ?_) hheads hrest
    rcases Nat.lt_or_eq_of_le hq with hlt | rfl
    · exact hfirst q hlt hqp
    · exact hnone

/-- A match that heads the text at the cursor is the first one found. -/
theorem of_heads {m : Match} (hheads : m.Heads (text.drop cursor))
    (h : Scan text (cursor + m.chars.length) found) : Scan text cursor ((cursor, m) :: found) := by
  refine .next (Nat.le_refl _) ?_ hheads h
  intro q hq hlt
  omega

/-- Every match found lies at the cursor or after it, since the scan goes on where a match ends.
    So two matches never overlap. -/
theorem le_place (h : Scan text cursor found) : ∀ e ∈ found, cursor ≤ e.1 := by
  induction h with
  | done _ => simp
  | next hle _ _ _ ih =>
    intro e he
    rcases List.mem_cons.1 he with rfl | he
    · exact hle
    · have := ih e he
      omega

/-- Each match ends before the next one starts, since the scan goes on at the end of a match.
    This holds for all pairs, not for neighbours only. -/
theorem disjoint (h : Scan text cursor found) :
    found.Pairwise fun a b => a.1 + a.2.chars.length ≤ b.1 := by
  induction h with
  | done _ => exact List.Pairwise.nil
  | next _ _ _ hrest ih => exact List.pairwise_cons.2 ⟨hrest.le_place, ih⟩

/-- No comparison starts outside the matches: one that stands at a place behind the cursor was
    found itself, or starts within a match that was found before. -/
theorem covers (h : Scan text cursor found) {p : Nat} (hp : cursor ≤ p)
    (hstands : StandsAt text p) :
    ∃ e ∈ found, e.1 ≤ p ∧ p < e.1 + e.2.chars.length := by
  induction h with
  | done hnone => exact absurd hstands (hnone p hp)
  | @next cursor p' m found hle hfirst hheads hrest ih =>
    rcases Nat.lt_or_ge p p' with hlt | hge
    · exact absurd hstands (hfirst p hp hlt)
    rcases Nat.lt_or_ge p (p' + m.chars.length) with hlt | hge'
    · exact ⟨(p', m), List.mem_cons_self, hge, hlt⟩
    · obtain ⟨e, he, hin⟩ := ih hge'
      exact ⟨e, List.mem_cons_of_mem _ he, hin⟩

end Scan

/-! ## The scanner computes the scan -/

/-- What lies inside a match is not looked at: the scan goes on behind it with as many characters
    dropped as the match has. -/
theorem matchesFrom_eq_drop (inside : Nat) (cs : List Char) :
    matchesFrom inside cs = matchesFrom 0 (cs.drop inside) := by
  induction cs generalizing inside with
  | nil => simp [matchesFrom]
  | cons c cs ih =>
    cases inside with
    | zero => rfl
    | succ inside => rw [matchesFrom, ih, List.drop_succ_cons]

/-- A match takes up at least the mark of an input. -/
theorem Match.chars_length_pos (m : Match) : 0 < m.chars.length := by
  simp [Match.chars, inputMark]

theorem Scan.of_length_le {text : List Char} {cursor : Nat} (h : text.length ≤ cursor) :
    Scan text cursor [] := by
  apply Scan.done
  rintro p hp ⟨m, -, hhead⟩
  rw [List.drop_eq_nil_of_le (by omega), List.prefix_nil] at hhead
  have hpos := m.chars_length_pos
  rw [hhead] at hpos
  exact absurd hpos (Nat.lt_irrefl 0)

/-- A match that is found comes first, and the search goes on after it. -/
theorem matchesFrom_of_at? {cs : List Char} {m : Match} (h : Match.at? cs = some m) :
    matchesFrom 0 cs = m :: matchesFrom 0 (cs.drop m.chars.length) := by
  have hpos := m.chars_length_pos
  cases cs with
  | nil => simp [Match.at?, inputMark] at h
  | cons c cs =>
    have hdrop : (c :: cs).drop m.chars.length = cs.drop (m.chars.length - 1) := by
      rw [show m.chars.length = (m.chars.length - 1) + 1 by omega, List.drop_succ_cons,
        Nat.add_sub_cancel]
    rw [matchesFrom, h, hdrop, ← matchesFrom_eq_drop]

/-- From every cursor on there is a scan, and its matches are those of the scanner. -/
theorem exists_scan (text : List Char) (cursor : Nat) :
    ∃ found, Scan text cursor found ∧ found.map (·.2) = matchesFrom 0 (text.drop cursor) := by
  -- induction on what is left of the text: one character is passed over, or a whole match
  induction hn : text.length - cursor using Nat.strong_induction_on generalizing cursor with
  | _ n ih =>
    rcases Nat.lt_or_ge cursor text.length with hlt | hge
    · cases hat : Match.at? (text.drop cursor) with
      | none =>
        obtain ⟨found, hscan, hfound⟩ := ih (text.length - (cursor + 1)) (by omega) (cursor + 1) rfl
        have hnone : ¬ StandsAt text cursor := by
          rintro ⟨m, hm⟩
          exact Match.at?_eq_none_iff.1 hat m hm
        refine ⟨found, hscan.of_succ hnone, ?_⟩
        rw [List.drop_eq_getElem_cons hlt] at hat ⊢
        rw [hfound, matchesFrom, hat]
      | some m =>
        have hpos := m.chars_length_pos
        obtain ⟨found, hscan, hfound⟩ :=
          ih (text.length - (cursor + m.chars.length)) (by omega) (cursor + m.chars.length) rfl
        refine ⟨(cursor, m) :: found, hscan.of_heads (Match.at?_eq_some_iff.1 hat), ?_⟩
        rw [List.map_cons, hfound, matchesFrom_of_at? hat, List.drop_drop]
    · refine ⟨[], Scan.of_length_le hge, ?_⟩
      rw [List.drop_eq_nil_of_le hge]
      rfl

/-! ## The values of the matches -/

/-- A number in other than basic digits, or a whole number beyond 64 signed bits. -/
def Literal.Spelling.Valueless : Literal.Spelling → Prop
  | .decimal whole fraction => ∃ c ∈ whole ++ fraction, Numeral.isDecimal c = false
  | .digits ds =>
    (∃ c ∈ ds, Numeral.isDecimal c = false) ∨ Int64.maxValue.toInt < Numeral.naturalOf ds
  | .quoted _ _ => False

/-- The literal that a spelling stands for, if it has a value. -/
def Literal.Spelling.meaning : Literal.Spelling → Literal
  | .decimal whole fraction => .float (Numeral.nearest whole fraction 0)
  | .digits ds => .integer (Int64.ofNat (Numeral.naturalOf ds))
  | .quoted _ content => .text (String.ofList content)

/-- The float of a decimal is the nearest to the number that its digits write around the point, the
    even one of two that are equally near, and infinite if there is no float of that size. -/
theorem Literal.Spelling.roundsTo_meaning (whole fraction : List Char) :
    ∃ x, (decimal whole fraction).meaning = .float x
      ∧ Numeral.RoundsTo (Numeral.naturalOf (whole ++ fraction) / 10 ^ fraction.length) x :=
  ⟨_, rfl, Numeral.roundsTo_nearest whole fraction⟩

/-- The comparison that a match stands for, if its literal has a value. -/
def Match.meaning (m : Match) : Comparison :=
  ⟨String.ofList m.name, Operator.parse (String.ofList m.operator), m.literal.meaning⟩

instance : DecidablePred Literal.Spelling.Valueless
  | .decimal whole fraction => inferInstanceAs (Decidable (∃ c ∈ whole ++ fraction, _ = false))
  | .digits _ => inferInstanceAs (Decidable (_ ∨ _))
  | .quoted _ _ => inferInstanceAs (Decidable False)

/-- A literal has its value unless it is valueless.  The reader goes through digits and bounds in
    its own order, and this lemma replaces it by one predicate and one value. -/
theorem Literal.Spelling.value?_eq (l : Literal.Spelling) :
    l.value? = if l.Valueless then none else some l.meaning := by
  have hall : ∀ cs : List Char,
      cs.all Numeral.isDecimal = true ↔ ¬ ∃ c ∈ cs, Numeral.isDecimal c = false := by simp
  cases l with
  | decimal whole fraction =>
    simp only [value?, Valueless, ← List.all_append, hall, ite_not]
    rfl
  | digits ds =>
    have hmax : Int64.maxValue.toInt = 9223372036854775807 := rfl
    have hpow : Nat.pow 2 63 = 9223372036854775808 := rfl
    have hfits : (ds.all Numeral.isDecimal && decide (Numeral.naturalOf ds < Nat.pow 2 63)) = true
        ↔ ¬ (digits ds).Valueless := by
      simp only [Bool.and_eq_true, hall, decide_eq_true_eq, Valueless, not_or, hmax, hpow]
      exact and_congr Iff.rfl (by omega)
    rw [value?]
    simp only [hfits, ite_not]
    rfl
  | quoted quote content => rfl

/-- A match gives its comparison unless its literal has no value. -/
theorem Match.comparison?_eq (m : Match) :
    m.comparison? = if m.literal.Valueless then none else some m.meaning := by
  rw [Match.comparison?, Literal.Spelling.value?_eq]
  split <;> rfl

/-- The comparisons of some matches are what those of them mean that have a value, in their
    order.  A match without a value is dropped and leaves no trace. -/
theorem Match.filterMap_comparison? (ms : List Match) :
    ms.filterMap Match.comparison?
      = (ms.filter fun m => ¬ m.literal.Valueless).map Match.meaning := by
  induction ms with
  | nil => rfl
  | cons m ms ih =>
    have hm := Match.comparison?_eq m
    by_cases hv : m.literal.Valueless
    · rw [if_pos hv] at hm
      rw [List.filterMap_cons_none hm, List.filter_cons_of_neg (by simpa using hv), ih]
    · rw [if_neg hv] at hm
      rw [List.filterMap_cons_some hm, List.filter_cons_of_pos (by simpa using hv), ih,
        List.map_cons]

/-- The comparisons of a condition are those of its leftmost scan, less the ones without a value.  The
    scan is unique, so this decides them; what it finds does not overlap, and every place where a
    comparison could start lies in something that is found.  A decimal that is found is read as the
    float nearest to it. -/
theorem comparisons_eq_leftmost_scan (condition : String) :
    ∃ found : List (Nat × Match),
      (∀ f, Scan condition.toList 0 f ↔ f = found)
      ∧ comparisons (some condition)
          = ((found.map (·.2)).filter fun m => ¬ m.literal.Valueless).map Match.meaning
      ∧ (found.Pairwise fun a b => a.1 + a.2.chars.length ≤ b.1)
      ∧ (∀ p, StandsAt condition.toList p → ∃ e ∈ found, e.1 ≤ p ∧ p < e.1 + e.2.chars.length)
      ∧ ∀ e ∈ found, ∀ whole fraction, e.2.literal = .decimal whole fraction →
        ∃ x, e.2.literal.meaning = .float x
          ∧ Numeral.RoundsTo (Numeral.naturalOf (whole ++ fraction) / 10 ^ fraction.length) x := by
  obtain ⟨found, hscan, hfound⟩ := exists_scan condition.toList 0
  refine ⟨found, fun f => ⟨fun hf => hf.unique hscan, fun hf => hf ▸ hscan⟩, ?_, hscan.disjoint,
    fun p hp => hscan.covers (Nat.zero_le p) hp, fun e _ whole fraction hdecimal =>
    hdecimal ▸ Literal.Spelling.roundsTo_meaning whole fraction⟩
  rw [comparisons, hfound, List.drop_zero, Match.filterMap_comparison?]

end BranchProbe
