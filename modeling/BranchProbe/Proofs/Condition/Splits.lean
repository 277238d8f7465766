/-
  The ways to read a comparison off the head of a text, stated apart from the scanner.

  1. `Literal.Spelling.WellFormed` and `Match.WellFormed` say of which characters each part is made.
  2. `Match.Splits m cs`: the parts of `m` stand at the head of `cs`.  A text may split in several
     ways, as a number may stop early.
  3. `Match.Heads m cs`: of all splits, `m` has the literal of the first alternative that fits, as
     long as it can be.
  4. The crux is `at?_chars_append`: the parts before the literal are forced, because no character
     that ends a part continues it.  So `Match.at?` finds a match iff there is any split
     (`at?_eq_none_iff`), and it finds the match that heads the text (`at?_eq_some_iff`).
-/
import BranchProbe.Proofs.Text.Runs

namespace BranchProbe

open Text

/-! ## Literals -/

namespace Literal.Spelling

/-- The characters of which a literal may be made. -/
def WellFormed : Literal.Spelling → Prop
  | .decimal whole fraction => Run isDigit whole ∧ Run isDigit fraction
  | .digits ds => Run isDigit ds
  | .quoted quote content => (quote = '\x27' ∨ quote = '"') ∧ quote ∉ content

/-- The place of a spelling among the alternatives, in the order in which they are tried. -/
def alternative : Literal.Spelling → Nat
  | .decimal _ _ => 0
  | .digits _ => 1
  | .quoted quote _ => if quote = '\x27' then 2 else 3

/-- An earlier alternative, or the same one and no shorter. -/
def Preferred (l l' : Literal.Spelling) : Prop :=
  l.alternative < l'.alternative ∨
    (l.alternative = l'.alternative ∧ l'.chars.length ≤ l.chars.length)

theorem preferred_refl (l : Literal.Spelling) : l.Preferred l := .inr ⟨rfl, Nat.le_refl _⟩

/-- A literal starts with a digit or a quote. -/
theorem WellFormed.chars_eq_cons {l : Literal.Spelling} (h : l.WellFormed) :
    ∃ c cs, l.chars = c :: cs ∧ (isDigit c = true ∨ c = '\x27' ∨ c = '"') := by
  cases l with
  | decimal whole fraction =>
    obtain ⟨c, cs, rfl⟩ := List.exists_cons_of_ne_nil h.1.1
    exact ⟨c, cs ++ '.' :: fraction, rfl, .inl (h.1.2 c List.mem_cons_self)⟩
  | digits ds =>
    obtain ⟨c, cs, rfl⟩ := List.exists_cons_of_ne_nil h.1
    exact ⟨c, cs, rfl, .inl (h.2 c List.mem_cons_self)⟩
  | quoted quote content => exact ⟨quote, content ++ [quote], rfl, .inr h.1⟩

/-- The characters of a literal and its alternative leave one way to read it. -/
theorem WellFormed.eq_of_chars_eq {l l' : Literal.Spelling} (h : l.WellFormed)
    (h' : l'.WellFormed) (halt : l.alternative = l'.alternative) (hchars : l.chars = l'.chars) :
    l = l' := by
  cases l with
  | decimal whole fraction =>
    cases l' with
    | decimal whole' fraction' =>
      have hs := span_run h.1.2 (stops_cons fraction not_digit_point)
      rw [show whole ++ '.' :: fraction = whole' ++ '.' :: fraction' from hchars,
        span_run h'.1.2 (stops_cons fraction' not_digit_point)] at hs
      simp only [Prod.mk.injEq, List.cons.injEq, true_and] at hs
      rw [hs.1, hs.2]
    | digits ds => simp [alternative] at halt
    | quoted quote content => simp only [alternative] at halt; split at halt <;> omega
  | digits ds =>
    cases l' with
    | decimal whole' fraction' => simp [alternative] at halt
    | digits ds' => exact congrArg _ hchars
    | quoted quote content => simp only [alternative] at halt; split at halt <;> omega
  | quoted quote content =>
    cases l' with
    | decimal whole' fraction' => simp only [alternative] at halt; split at halt <;> omega
    | digits ds' => simp only [alternative] at halt; split at halt <;> omega
    | quoted quote' content' =>
      simp only [chars, List.cons_append, List.cons.injEq] at hchars
      obtain ⟨rfl, hcontent⟩ := hchars
      rw [List.append_cancel_right hcontent]

/-! ### Quoted texts -/

/-- A quoted text ends at the first closing quote.  There are no escapes, so a text with this
    quote in it cannot be written. -/
theorem quoted?_append {quote : Char} {content : List Char} (h : quote ∉ content)
    (rest : List Char) :
    quoted? quote (content ++ quote :: rest) = some (.quoted quote content, rest) := by
  have hrun : ∀ c ∈ content, decide (c ≠ quote) = true := by
    intro c hc
    exact decide_eq_true fun heq => h (heq ▸ hc)
  rw [quoted?, span_run hrun (stops_cons rest (by simp))]

theorem quoted?_eq_none {quote : Char} {cs : List Char} (h : quote ∉ cs) :
    quoted? quote cs = none := by
  have hrun : ∀ c ∈ cs, decide (c ≠ quote) = true := by
    intro c hc
    exact decide_eq_true fun heq => h (heq ▸ hc)
  have hspan := span_run hrun (stops_nil _)
  rw [List.append_nil] at hspan
  rw [quoted?, hspan]

/-! ### Numbers -/

theorem number?_eq_none {cs : List Char} (h : Stops isDigit cs) : number? cs = none := by
  rw [number?, span_of_stops h]

/-- Digits around a point are scanned as one decimal, up to the end of the second run. -/
theorem number?_decimal {whole fraction rest : List Char} (hw : Run isDigit whole)
    (hf : Run isDigit fraction) (hrest : Stops isDigit rest) :
    number? (whole ++ '.' :: (fraction ++ rest)) = some (.decimal whole fraction, rest) := by
  have hspan := span_run hw.2 (stops_cons (fraction ++ rest) not_digit_point)
  have hspan' := span_run hf.2 hrest
  obtain ⟨w, ws, rfl⟩ := List.exists_cons_of_ne_nil hw.1
  obtain ⟨f, fs, rfl⟩ := List.exists_cons_of_ne_nil hf.1
  rw [number?, hspan]
  simp only [hspan']

/-- A run of digits is a whole number, unless a point and a digit follow. -/
theorem number?_digits {ds rest : List Char} (hd : Run isDigit ds) (hrest : Stops isDigit rest)
    (hpoint : ∀ tail, rest = '.' :: tail → Stops isDigit tail) :
    number? (ds ++ rest) = some (.digits ds, rest) := by
  have hspan := span_run hd.2 hrest
  obtain ⟨d, ds, rfl⟩ := List.exists_cons_of_ne_nil hd.1
  rw [number?, hspan]
  split
  · next heq => simp at heq
  · next heq =>
    obtain ⟨rfl, rfl⟩ := Prod.mk.inj heq
    rw [span_of_stops (hpoint _ rfl)]
  · next heq =>
    obtain ⟨rfl, rfl⟩ := Prod.mk.inj heq
    rfl

/-- A text starts with no digit, with a decimal, or with a whole number. -/
theorem number_cases (cs : List Char) :
    Stops isDigit cs
    ∨ (∃ whole fraction rest, cs = whole ++ '.' :: (fraction ++ rest) ∧ Run isDigit whole
        ∧ Run isDigit fraction ∧ Stops isDigit rest)
    ∨ (∃ ds rest, cs = ds ++ rest ∧ Run isDigit ds ∧ Stops isDigit rest
        ∧ ∀ tail, rest = '.' :: tail → Stops isDigit tail) := by
  obtain ⟨ds, rest, rfl, hds, hrest⟩ := eq_run_append isDigit cs
  by_cases hne : ds = []
  · subst hne
    exact .inl hrest
  by_cases hpoint : ∃ tail, rest = '.' :: tail ∧ ¬ Stops isDigit tail
  · obtain ⟨tail, rfl, htail⟩ := hpoint
    obtain ⟨fraction, after, rfl, hf, hafter⟩ := eq_run_append isDigit tail
    have hfne : fraction ≠ [] := by
      rintro rfl
      exact htail hafter
    exact .inr (.inl ⟨ds, fraction, after, rfl, ⟨hne, hds⟩, ⟨hfne, hf⟩, hafter⟩)
  · refine .inr (.inr ⟨ds, rest, rfl, ⟨hne, hds⟩, hrest, fun tail heq => ?_⟩)
    exact Classical.byContradiction fun h => hpoint ⟨tail, heq, h⟩

/-! ### Any literal -/

theorem at?_of_not_quote {cs : List Char} (h : ∀ c ∈ cs.head?, c ≠ '\x27' ∧ c ≠ '"') :
    at? cs = number? cs := by
  unfold at?
  split
  · exact absurd rfl (h _ rfl).1
  · exact absurd rfl (h _ rfl).2
  · rfl

/-- A literal that starts with a digit is a number and no text in quotes. -/
theorem at?_of_digits {ds : List Char} (hd : Run isDigit ds) (rest : List Char) :
    at? (ds ++ rest) = number? (ds ++ rest) := by
  obtain ⟨d, ds, rfl⟩ := List.exists_cons_of_ne_nil hd.1
  apply at?_of_not_quote
  intro c hc
  obtain rfl : d = c := by simpa using hc
  have hdigit := hd.2 d List.mem_cons_self
  refine ⟨?_, ?_⟩
  · rintro rfl
    rw [(classes_of_quote (.inl rfl)).2.2] at hdigit
    nomatch hdigit
  · rintro rfl
    rw [(classes_of_quote (.inr rfl)).2.2] at hdigit
    nomatch hdigit

/-- What is found is a literal at the head of the text, and the rest is what follows it: no
    character is lost between a literal and what is scanned after it. -/
theorem at?_sound {cs rest : List Char} {l : Literal.Spelling} (h : at? cs = some (l, rest)) :
    l.WellFormed ∧ cs = l.chars ++ rest := by
  have hquoted : ∀ {quote : Char} {cs : List Char}, (quote = '\x27' ∨ quote = '"') →
      quoted? quote cs = some (l, rest) → l.WellFormed ∧ quote :: cs = l.chars ++ rest := by
    intro quote cs hquote hfound
    by_cases hmem : quote ∈ cs
    · obtain ⟨content, after, rfl, hcontent⟩ := List.eq_append_cons_of_mem hmem
      rw [quoted?_append hcontent] at hfound
      obtain ⟨rfl, rfl⟩ := Prod.mk.inj (Option.some.inj hfound)
      exact ⟨⟨hquote, hcontent⟩, by simp [chars]⟩
    · rw [quoted?_eq_none hmem] at hfound
      nomatch hfound
  unfold at? at h
  split at h
  · exact hquoted (.inl rfl) h
  · exact hquoted (.inr rfl) h
  -- no quote: there are no digits, digits around a point, or digits alone
  · rcases number_cases cs with hnone | ⟨w, f, after, rfl, hw, hf, hafter⟩
        | ⟨ds, after, rfl, hds, hafter, hpoint⟩
    · rw [number?_eq_none hnone] at h
      nomatch h
    · rw [number?_decimal hw hf hafter] at h
      obtain ⟨rfl, rfl⟩ := Prod.mk.inj (Option.some.inj h)
      exact ⟨⟨hw, hf⟩, by simp [chars]⟩
    · rw [number?_digits hds hafter hpoint] at h
      obtain ⟨rfl, rfl⟩ := Prod.mk.inj (Option.some.inj h)
      exact ⟨hds, rfl⟩

/-- Where a literal stands one is found, and it is preferred to that one. -/
theorem at?_complete {l : Literal.Spelling} (h : l.WellFormed) (rest : List Char) :
    ∃ l' rest', at? (l.chars ++ rest) = some (l', rest') ∧ l'.Preferred l := by
  cases l with
  | decimal whole fraction =>
    obtain ⟨more, after, rfl, hmore, hafter⟩ := eq_run_append isDigit rest
    have hrun : Run isDigit (fraction ++ more) :=
      ⟨by simp [h.2.1], fun c hc => (List.mem_append.1 hc).elim (h.2.2 c) (hmore c)⟩
    have heq : (decimal whole fraction).chars ++ (more ++ after)
        = whole ++ '.' :: ((fraction ++ more) ++ after) := by simp [chars]
    refine ⟨.decimal whole (fraction ++ more), after, ?_, .inr ⟨rfl, by simp [chars]⟩⟩
    rw [heq, at?_of_digits h.1, number?_decimal h.1 hrun hafter]
  | digits ds =>
    -- the run may go on, and a point may turn it into a decimal, an earlier alternative
    rw [show (digits ds).chars = ds from rfl, at?_of_digits h]
    rcases number_cases (ds ++ rest) with hnone | ⟨w, f, after, heq, hw, hf, hafter⟩
        | ⟨ds', after, heq, hds', hafter, hpoint⟩
    · obtain ⟨d, ds, rfl⟩ := List.exists_cons_of_ne_nil h.1
      have := hnone d rfl
      rw [h.2 d List.mem_cons_self] at this
      nomatch this
    · exact ⟨.decimal w f, after, by rw [heq, number?_decimal hw hf hafter],
        .inl (by simp [alternative])⟩
    · have hlonger : ds.length ≤ ds'.length := length_le_of_stops h.2 hds'.2 hafter heq
      exact ⟨.digits ds', after, by rw [heq, number?_digits hds' hafter hpoint],
        .inr ⟨rfl, hlonger⟩⟩
  | quoted quote content =>
    refine ⟨.quoted quote content, rest, ?_, preferred_refl _⟩
    have heq : (quoted quote content).chars ++ rest = quote :: (content ++ quote :: rest) := by
      simp [chars]
    rcases h.1 with rfl | rfl
    · rw [heq]
      exact quoted?_append h.2 rest
    · rw [heq]
      exact quoted?_append h.2 rest

end Literal.Spelling

/-! ## Comparisons -/

namespace Match

/-- The characters of which the parts of a comparison may be made. -/
structure WellFormed (m : Match) : Prop where
  name : Run isWord m.name
  gap : ∀ c ∈ m.gap, isBlank c = true
  operator : Run isOperator m.operator
  gap' : ∀ c ∈ m.gap', isBlank c = true
  literal : m.literal.WellFormed

/-- One way to read a comparison off the head of a text. -/
def Splits (m : Match) (cs : List Char) : Prop := m.WellFormed ∧ m.chars <+: cs

/-- The way that counts: its literal is of the first alternative that fits, and as long as it can
    be. -/
def Heads (m : Match) (cs : List Char) : Prop :=
  m.Splits cs ∧ ∀ m' : Match, m'.Splits cs → m.literal.Preferred m'.literal

/-- A literal starts with neither a blank nor an operator, so the blanks and the operator before
    it are taken as far as they go. -/
theorem stops_literal {l : Literal.Spelling} (h : l.WellFormed) (rest : List Char) :
    Stops isBlank (l.chars ++ rest) ∧ Stops isOperator (l.chars ++ rest) := by
  obtain ⟨c, cs, heq, hc⟩ := h.chars_eq_cons
  rw [heq]
  rcases hc with hc | hc
  · exact ⟨stops_cons _ (not_blank_of_digit hc), stops_cons _ (not_operator_of_digit hc)⟩
  · exact ⟨stops_cons _ (classes_of_quote hc).1, stops_cons _ (classes_of_quote hc).2.1⟩

/-- Where a comparison stands, everything before its literal is read as it stands there. -/
theorem at?_chars_append {m : Match} (h : m.WellFormed) (rest : List Char) :
    at? (m.chars ++ rest)
      = (Literal.Spelling.at? (m.literal.chars ++ rest)).map fun e =>
          { m with literal := e.1 } := by
  -- each run of characters ends where the next one starts, so the scanner cuts there too
  have hliteral := stops_literal h.literal rest
  have hgap' : Stops isOperator (m.gap' ++ (m.literal.chars ++ rest)) :=
    stops_append (fun c hc => by
      by_contra ho
      have := not_blank_of_operator (Bool.not_eq_false _ ▸ ho)
      rw [h.gap' c hc] at this
      nomatch this) hliteral.2
  have hoperator : Stops isBlank (m.operator ++ (m.gap' ++ (m.literal.chars ++ rest))) :=
    h.operator.stops _ fun c hc => not_blank_of_operator hc
  have hgap : Stops isWord (m.gap ++ (m.operator ++ (m.gap' ++ (m.literal.chars ++ rest)))) :=
    stops_append (fun c hc => not_word_of_blank (h.gap c hc))
      (h.operator.stops _ fun c hc => not_word_of_operator hc)
  have hchars : m.chars ++ rest = inputMark
      ++ (m.name ++ (m.gap ++ (m.operator ++ (m.gap' ++ (m.literal.chars ++ rest))))) := by
    simp [chars]
  have hmark : ∀ cs, inputMark.isPrefixOf (inputMark ++ cs) = true := fun cs => by
    rw [List.isPrefixOf_iff_prefix]
    exact List.prefix_append _ _
  rw [hchars, at?, if_pos (hmark _), List.drop_left, span_run h.name.2 hgap]
  simp only
  rw [span_run h.gap hoperator]
  simp only
  rw [span_run h.operator.2 hgap']
  simp only
  rw [span_run h.gap' hliteral.1]
  simp [h.name.1, h.operator.1]

/-- What is found is a comparison at the head of the text.  The scanner takes name, blanks,
    operator and literal one after the other, and each part ends where its class of characters
    does. -/
theorem splits_of_at? {cs : List Char} {m : Match} (h : at? cs = some m) : m.Splits cs := by
  unfold at? at h
  split at h
  case isFalse => nomatch h
  case isTrue hmark =>
    obtain ⟨body, rfl⟩ := List.isPrefixOf_iff_prefix.1 hmark
    rw [List.drop_left] at h
    obtain ⟨name, after, rfl, hname, hafter⟩ := eq_run_append isWord body
    rw [span_run hname hafter] at h
    obtain ⟨gap, after, rfl, hgap, hafter⟩ := eq_run_append isBlank after
    simp only [span_run hgap hafter] at h
    obtain ⟨operator, after, rfl, hoperator, hafter⟩ := eq_run_append isOperator after
    simp only [span_run hoperator hafter] at h
    obtain ⟨gap', after, rfl, hgap', hafter⟩ := eq_run_append isBlank after
    simp only [span_run hgap' hafter] at h
    split at h
    case isTrue => nomatch h
    case isFalse hne =>
      simp only [Bool.or_eq_true, List.isEmpty_iff, not_or] at hne
      obtain ⟨⟨literal, rest⟩, hliteral, rfl⟩ := Option.map_eq_some_iff.1 h
      obtain ⟨hwell, rfl⟩ := Literal.Spelling.at?_sound hliteral
      exact ⟨⟨⟨hne.1, hname⟩, hgap, ⟨hne.2, hoperator⟩, hgap', hwell⟩, rest, by simp [chars]⟩

/-- Where a comparison stands one is found: it has the same parts before the literal, and its
    literal is preferred. -/
theorem at?_of_splits {cs : List Char} {m : Match} (h : m.Splits cs) :
    ∃ l : Literal.Spelling, at? cs = some { m with literal := l } ∧ l.Preferred m.literal := by
  obtain ⟨hwell, rest, rfl⟩ := h
  obtain ⟨l, rest', hfound, hpref⟩ := Literal.Spelling.at?_complete hwell.literal rest
  exact ⟨l, by rw [at?_chars_append hwell, hfound]; rfl, hpref⟩

/-- The scanner finds no match exactly where no comparison stands: where one stands it finds one,
    and what it finds stands there. -/
theorem at?_eq_none_iff {cs : List Char} : at? cs = none ↔ ∀ m : Match, ¬ m.Splits cs := by
  constructor
  · intro hnone m hm
    obtain ⟨l, hfound, -⟩ := at?_of_splits hm
    rw [hnone] at hfound
    nomatch hfound
  · intro hall
    cases hfound : at? cs with
    | none => rfl
    | some m => exact absurd (splits_of_at? hfound) (hall m)

/-- The scanner finds the match that heads the text, among several that could stand there the
    preferred one.  So the scanner may be forgotten and only the relation be used. -/
theorem at?_eq_some_iff {cs : List Char} {m : Match} : at? cs = some m ↔ m.Heads cs := by
  constructor
  · intro hfound
    refine ⟨splits_of_at? hfound, fun m' hm' => ?_⟩
    obtain ⟨l, hfound', hpref⟩ := at?_of_splits hm'
    rw [hfound'] at hfound
    obtain rfl := Option.some.inj hfound
    exact hpref
  · rintro ⟨hsplits, hfirst⟩
    obtain ⟨l, hfound, hpref⟩ := at?_of_splits hsplits
    have hpref' := hfirst _ (splits_of_at? hfound)
    -- each is preferred to the other, so they are of one alternative and of one length
    have halt : l.alternative = m.literal.alternative
        ∧ l.chars.length = m.literal.chars.length := by
      simp only [Literal.Spelling.Preferred] at hpref hpref'
      omega
    obtain ⟨hwell, rest, hrest⟩ := hsplits
    obtain ⟨hwell', rest', hrest'⟩ := splits_of_at? hfound
    have hsame : l.chars ++ rest' = m.literal.chars ++ rest := by
      simp only [← hrest, chars, List.append_assoc, List.append_cancel_left_eq] at hrest'
      exact hrest'
    have hchars := (List.append_inj hsame halt.2).1
    obtain rfl : l = m.literal := hwell'.literal.eq_of_chars_eq hwell.literal halt.1 hchars
    exact hfound

end Match

end BranchProbe
