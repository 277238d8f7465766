/-
  Written texts of a document are read back.

  1. Escapes: `escapeChar_cases` says what one written character is, `basicText?_block` and
     `linesText?_block` that it is read back, whatever follows it.
  2. One line: `basicText?_escapeAll` and `literalText?_append` are inductions on the text.
  3. Several lines: `Body` relates what stands between the quotes to its text, with the quotes just
     before as an index.  `linesText?_body` is the crux: a reader takes quotes run by run, so the
     induction carries a pending run of at most two of them.
  4. `text?_writeText`: whichever style is chosen, the text is read back up to its closing quotes.
-/
import BranchProbe.Toml.Printer
import BranchProbe.Proofs.Text.Runs

namespace BranchProbe.Toml

open Text (Stops stops_cons span_run)

/-! ## Escapes -/

/-- A number is read from its digits, whatever follows them: the count of digits is fixed, so it
    does not go on into the rest. -/
theorem hexNumber?_append {rest ds : List Char} {count n m : Nat}
    (h : hexNumber? count n ds = some (m, [])) : hexNumber? count n (ds ++ rest) = some (m, rest) := by
  induction count generalizing n ds with
  | zero =>
    obtain ⟨rfl, rfl⟩ := Prod.mk.inj (Option.some.inj h)
    rfl
  | succ count ih =>
    cases ds with
    | nil => cases h
    | cons c ds =>
      rw [hexNumber?] at h
      rw [List.cons_append, hexNumber?]
      cases hd : hexDigit? c with
      | none =>
        rw [hd] at h
        cases h
      | some d =>
        rw [hd] at h
        exact ih h

/-- What follows a backslash is an escape of the character `c`. -/
def Escapes (c : Char) (escape : List Char) : Prop := ∀ rest, escape? (escape ++ rest) = some (c, rest)

/-- The long escape of a character is read as the number of the character in hexadecimal digits. -/
theorem escapes_unicode {c : Char} {ds : List Char}
    (h : hexNumber? 4 0 ds = some (c.toNat, [])) : Escapes c ('u' :: ds) := by
  intro rest
  have hchar : charOf? c.toNat = some c := by
    rw [charOf?, Char.ofNat_toNat]
    exact if_pos c.valid
  simp [escape?, hexNumber?_append h, hchar]

/-- The four digits of an escape give the code point. -/
theorem codeEscape_digits : ∀ n < 0x80,
    hexNumber? 4 0 (List.replicate (4 - ((Nat.toDigits 16 n).map Char.toUpper).length) '0'
      ++ (Nat.toDigits 16 n).map Char.toUpper) = some (n, []) := by
  decide +kernel

/-- Every character that may not stand in a text by itself has an escape that is read as this
    character. -/
theorem exists_codeEscape {c : Char} (h : isCode c = true) :
    ∃ escape, codeEscape c = '\\' :: escape ∧ Escapes c escape := by
  have hlt : c.toNat < 0x80 := by
    simp only [isCode, Bool.or_eq_true, Bool.and_eq_true, decide_eq_true_eq] at h
    rcases h with ⟨hle, -⟩ | rfl
    · omega
    · decide
  exact ⟨_, rfl, escapes_unicode (codeEscape_digits c.toNat hlt)⟩

/-- Neither a code nor a line end: the character stands for itself. -/
theorem isPlain_of_not_isCode {c : Char} (h : isCode c = false) (hline : c ≠ '\n') :
    isPlain c = true := by
  simp only [isCode, Bool.or_eq_false_iff, Bool.and_eq_false_iff, decide_eq_false_iff_not,
    ne_eq, hline, not_false_eq_true, decide_true, Bool.true_eq_false, or_false] at h
  have hle : ' ' ≤ c := by
    have : 0x1f < c.toNat := Nat.lt_of_not_le h.1
    exact this
  simp [isPlain, hle, h.2]

/-- A character is written as itself or as an escape, and in a text of several lines a line end
    is kept.  These are the three cases of every proof about written texts. -/
theorem escapeChar_cases (lines : Bool) (c : Char) :
    (escapeChar lines c = [c] ∧ c ≠ '\\' ∧ isPlain c = true)
      ∨ (lines = true ∧ c = '\n' ∧ escapeChar lines c = ['\n'])
      ∨ ∃ escape, escapeChar lines c = '\\' :: escape ∧ Escapes c escape := by
  rw [escapeChar.eq_def]
  split
  case h_3 =>
    cases lines with
    | true => exact .inr (.inl ⟨rfl, rfl, rfl⟩)
    | false => exact .inr (.inr ⟨_, rfl, fun _ => rfl⟩)
  case h_7 _ _ hline _ _ hslash =>
    split
    · next hcode => exact .inr (.inr (exists_codeEscape hcode))
    · next hcode =>
      exact .inl ⟨rfl, hslash, isPlain_of_not_isCode (Bool.not_eq_true _ ▸ hcode) hline⟩
  all_goals exact .inr (.inr ⟨_, rfl, fun _ => rfl⟩)

theorem lineEnd?_cons {c : Char} (hline : c ≠ '\n') (hreturn : c ≠ '\r') (cs : List Char) :
    lineEnd? (c :: cs) = none := by
  unfold lineEnd?
  split
  · next heq => exact absurd (List.cons.inj heq).1 hline
  · next heq => exact absurd (List.cons.inj heq).1 hreturn
  · rfl

/-- A plain character is no line end, so it is taken as it is. -/
theorem lineEnd?_of_isPlain {c : Char} (h : isPlain c = true) (cs : List Char) :
    lineEnd? (c :: cs) = none := by
  refine lineEnd?_cons ?_ ?_ cs <;> rintro rfl <;> exact absurd h (by decide)

/-- No blank and no line end starts an escape, so it is no escaped line end. -/
theorem Escapes.not_lineEnd {c : Char} {escape : List Char} (h : Escapes c escape)
    (rest : List Char) : escapedLineEnd? (escape ++ rest) = none := by
  cases escape with
  | nil => cases h []
  | cons x escape =>
    have hx : x ≠ ' ' ∧ x ≠ '\t' ∧ x ≠ '\n' ∧ x ≠ '\r' := by
      refine ⟨?_, ?_, ?_, ?_⟩ <;> rintro rfl <;> cases h []
    have hskip : skipBlanks (x :: escape ++ rest) = x :: escape ++ rest := by
      simp [skipBlanks, isBlank, hx]
    rw [escapedLineEnd?, hskip, List.cons_append, lineEnd?_cons hx.2.2.1 hx.2.2.2, Option.map_none]

/-! ## One character -/

/-- How a character stands in a text: as itself, as a line end, or as an escape.  A quote that stands
    for itself is no block, as quotes are read run by run. -/
inductive Block (quote : Char) (basic lines : Bool) : Char → List Char → Prop where
  | plain {c : Char} (hquote : c ≠ quote) (hslash : basic = true → c ≠ '\\')
      (h : isPlain c = true) : Block quote basic lines c [c]
  | lineEnd (h : lines = true) : Block quote basic lines '\n' ['\n']
  | escape {c : Char} {escape : List Char} (hbasic : basic = true) (h : Escapes c escape) :
      Block quote basic lines c ('\\' :: escape)

theorem Block.stops {quote : Char} {basic lines : Bool} {c : Char} {block : List Char}
    (hslash : quote ≠ '\\') (hline : quote ≠ '\n') (h : Block quote basic lines c block)
    (rest : List Char) : block ≠ [] ∧ Stops (· = quote) (block ++ rest) := by
  cases h with
  | plain hquote _ _ => exact ⟨by simp, stops_cons _ (by simpa using hquote)⟩
  | lineEnd _ => exact ⟨by simp, stops_cons _ (by simpa using Ne.symm hline)⟩
  | escape _ _ => exact ⟨by simp, stops_cons _ (by simpa using Ne.symm hslash)⟩

/-- A character of a basic text is a block, unless it is a quote that may stand for itself. -/
theorem escapeAll_cases (lines : Bool) (run : Nat) (c : Char) (cs : List Char) :
    (c = '"' ∧ lines = true ∧ run + 1 ≤ 2
        ∧ escapeAll lines run (c :: cs) = '"' :: escapeAll lines (run + 1) cs)
      ∨ ∃ block, Block '"' true lines c block
        ∧ escapeAll lines run (c :: cs) = block ++ escapeAll lines 0 cs := by
  rw [escapeAll]
  split
  · next hquote =>
    subst hquote
    by_cases hrun : run + 1 > (if lines then 2 else 0)
    · rw [if_pos hrun]
      exact .inr ⟨['\\', '"'], .escape rfl fun _ => rfl, rfl⟩
    · rw [if_neg hrun]
      cases lines with
      | true => exact .inl ⟨rfl, rfl, Nat.le_of_not_gt hrun, rfl⟩
      | false => exact absurd (Nat.succ_pos run) hrun
  · next hquote =>
    refine .inr ⟨escapeChar lines c, ?_, rfl⟩
    rcases escapeChar_cases lines c with ⟨hc, hslash, hplain⟩ | ⟨hlines, rfl, hc⟩ | ⟨e, hc, he⟩
    · exact hc ▸ .plain hquote (fun _ => hslash) hplain
    · exact hc ▸ .lineEnd hlines
    · exact hc ▸ .escape rfl he

/-! ## Texts on one line -/

/-- One step of the scan of a text in one line: a block, which is a character or its escape,
    gives this character. -/
theorem basicText?_block {c : Char} {block : List Char} (h : Block '"' true false c block)
    (fuel : Nat) (rest : List Char) : basicText? (fuel + 1) (block ++ rest)
      = (basicText? fuel rest).map fun (s, rest) => (c :: s, rest) := by
  cases h with
  | plain hquote hslash hplain => simp [basicText?, hquote, hslash rfl, hplain]
  | lineEnd hlines => cases hlines
  | escape _ he => simp [basicText?, he rest]

/-- The text as it is written, and what follows, start with no quote that closes it. -/
theorem escapeAll_cons_stops (c : Char) (cs rest : List Char) :
    Stops (· = '"') (escapeAll false 0 (c :: cs) ++ rest) := by
  obtain ⟨-, hlines, -⟩ | ⟨block, hblock, heq⟩ := escapeAll_cases false 0 c cs
  · cases hlines
  · rw [heq, List.append_assoc]
    exact (hblock.stops (by decide) (by decide) _).2

/-- Escaping makes no text shorter, so the fuel that is enough for the escaped text is enough for
    all of its blocks. -/
theorem length_le_escapeAll : ∀ cs : List Char, cs.length ≤ (escapeAll false 0 cs).length
  | [] => Nat.le_refl 0
  | c :: cs => by
    have ih := length_le_escapeAll cs
    obtain ⟨-, hlines, -⟩ | ⟨block, hblock, heq⟩ := escapeAll_cases false 0 c cs
    · cases hlines
    · have hpos : 0 < block.length :=
        List.length_pos_iff.2 (hblock.stops (by decide) (by decide) []).1
      rw [heq, List.length_append, List.length_cons]
      omega

/-- A basic text on one line is read back up to its closing quote. -/
theorem basicText?_escapeAll (rest : List Char) : ∀ (cs : List Char) (fuel : Nat),
    cs.length < fuel → basicText? fuel (escapeAll false 0 cs ++ '"' :: rest) = some (cs, rest)
  | [], fuel + 1, _ => by simp [escapeAll, basicText?]
  | c :: cs, fuel + 1, hfuel => by
    have ih := basicText?_escapeAll rest cs fuel (Nat.lt_of_succ_lt_succ hfuel)
    obtain ⟨-, hlines, -⟩ | ⟨block, hblock, heq⟩ := escapeAll_cases false 0 c cs
    · cases hlines
    · rw [heq, List.append_assoc, basicText?_block hblock, ih]
      rfl

/-- A literal text on one line is read back up to its closing quote. -/
theorem literalText?_append {cs : List Char} (hcode : ∀ c ∈ cs, isCode c = false)
    (hline : ∀ c ∈ cs, c ≠ '\n') (hquote : ∀ c ∈ cs, c ≠ '\x27') (rest : List Char) :
    literalText? (cs ++ '\x27' :: rest) = some (cs, rest) := by
  have hrun : ∀ c ∈ cs, (c ≠ '\x27' && isPlain c) = true := by
    intro c hc
    simp [hquote c hc, isPlain_of_not_isCode (hcode c hc) (hline c hc)]
  have hstop : Stops (fun c => c ≠ '\x27' && isPlain c) ('\x27' :: rest) :=
    stops_cons rest (by decide)
  rw [literalText?, span_run hrun hstop]
  rfl

/-! ## Texts of several lines -/

section Lines

variable {quote : Char} {basic : Bool}

/-- What is between the quotes of a text of several lines, and the text.  `run` quotes stand just
    before; no more than two are next to each other. -/
inductive Body (quote : Char) (basic : Bool) : (run : Nat) → List Char → List Char → Prop where
  | nil (run : Nat) : Body quote basic run [] []
  | quote {run : Nat} {body text : List Char} (h : run + 1 ≤ 2)
      (hbody : Body quote basic (run + 1) body text) :
      Body quote basic run (quote :: body) (quote :: text)
  | other {run : Nat} {c : Char} {block body text : List Char} (h : Block quote basic true c block)
      (hbody : Body quote basic 0 body text) : Body quote basic run (block ++ body) (c :: text)

/-- Escaping writes a body of the text.  The run counts the quotes right before a place, and the
    third one in a row is escaped, so no run of quotes ends the text too early. -/
theorem body_escapeAll (cs : List Char) (run : Nat) :
    Body '"' true run (escapeAll true run cs) cs := by
  induction cs generalizing run with
  | nil => exact .nil run
  | cons c cs ih =>
    obtain ⟨rfl, -, hrun, heq⟩ | ⟨block, hblock, heq⟩ := escapeAll_cases true run c cs
    · exact heq ▸ .quote hrun (ih (run + 1))
    · exact heq ▸ .other hblock (ih 0)

/-- The longest run is not shorter than the run at its start.  So a text without such runs at all
    does not hold the character. -/
theorem le_longestRun (x : Char) (run : Nat) (cs : List Char) : run ≤ longestRun x run cs := by
  induction cs generalizing run with
  | nil => exact Nat.le_refl run
  | cons c cs ih =>
    rw [longestRun]
    split
    · exact Nat.le_of_succ_le (ih (run + 1))
    · exact Nat.le_max_left _ _

/-- A text without codes and without three quotes in a row is a body of itself in literal quotes. -/
theorem body_literal {cs : List Char} {run : Nat} (hcode : ∀ c ∈ cs, isCode c = false)
    (hlong : longestRun '\x27' run cs ≤ 2) : Body '\x27' false run cs cs := by
  induction cs generalizing run with
  | nil => exact .nil run
  | cons c cs ih =>
    have hrest : ∀ d ∈ cs, isCode d = false := fun d hd => hcode d (List.mem_cons_of_mem _ hd)
    rw [longestRun] at hlong
    split at hlong
    · next hquote =>
      subst hquote
      exact .quote (Nat.le_trans (le_longestRun _ _ _) hlong) (ih hrest hlong)
    · next hquote =>
      have hbody : Body '\x27' false 0 cs cs :=
        ih hrest (Nat.le_trans (Nat.le_max_right _ _) hlong)
      by_cases hline : c = '\n'
      · subst hline
        exact .other (.lineEnd rfl) hbody
      · exact .other (.plain hquote (fun h => by cases h)
          (isPlain_of_not_isCode (hcode c List.mem_cons_self) hline)) hbody

theorem quoteRun_replicate (n : Nat) {tail : List Char} (h : Stops (· = quote) tail) :
    quoteRun quote (List.replicate n quote ++ tail) = (n, tail) := by
  have hrun : ∀ c ∈ List.replicate n quote, decide (c = quote) = true :=
    fun c hc => decide_eq_true (List.eq_of_mem_replicate hc)
  have hspan := span_run hrun h
  rw [List.span_eq_takeWhile_dropWhile] at hspan
  rw [quoteRun, (Prod.mk.inj hspan).1]
  simp

/-- One or two quotes belong to the text, if another character comes after them.  It takes three
    of them to end it. -/
theorem linesText?_run {n : Nat} (hpos : 0 < n) (hn : n ≤ 2) {tail : List Char}
    (h : Stops (· = quote) tail) (fuel : Nat) :
    linesText? quote basic (fuel + 1) (List.replicate n quote ++ tail)
      = (linesText? quote basic fuel tail).map fun (s, rest) =>
        (List.replicate n quote ++ s, rest) := by
  obtain ⟨m, rfl⟩ : ∃ m, n = m + 1 := ⟨n - 1, by omega⟩
  have hrun := quoteRun_replicate (m + 1) h
  rw [List.replicate_succ, List.cons_append] at hrun ⊢
  rw [linesText?, if_pos rfl, hrun]
  exact if_pos (by omega)

/-- All but the last three of a run of three to five quotes belong to the text, which ends there. -/
theorem linesText?_close {n : Nat} (hn : n ≤ 2) {rest : List Char} (h : Stops (· = quote) rest)
    (fuel : Nat) : linesText? quote basic (fuel + 1) (List.replicate (n + 3) quote ++ rest)
      = some (List.replicate n quote, rest) := by
  have hrun := quoteRun_replicate (n + 3) h
  rw [List.replicate_succ, List.cons_append] at hrun ⊢
  rw [linesText?, if_pos rfl, hrun]
  simp [hn, show ¬ n + 3 < 3 by omega]

/-- One step of the scan of a text in several lines.  A line end, an escape and a quote that is
    not the third in a row are blocks too. -/
theorem linesText?_block {c : Char} {block : List Char} (hslash : quote ≠ '\\')
    (hline : quote ≠ '\n') (h : Block quote basic true c block) (fuel : Nat) (rest : List Char) :
    linesText? quote basic (fuel + 1) (block ++ rest)
      = (linesText? quote basic fuel rest).map fun (s, rest) => (c :: s, rest) := by
  cases h with
  | plain hquote hplainSlash hplain =>
    rw [List.singleton_append, linesText?, if_neg hquote, if_neg (by simpa using hplainSlash),
      lineEnd?_of_isPlain hplain]
    exact if_pos hplain
  | lineEnd _ =>
    rw [List.singleton_append, linesText?, if_neg (Ne.symm hline), if_neg (by simp)]
    rfl
  | escape hbasic he =>
    rw [List.cons_append, linesText?, if_neg (Ne.symm hslash), if_pos (by simp [hbasic]),
      he.not_lineEnd]
    simp [he rest]

/-- A text of several lines is read back up to its closing quotes, with the quotes pending before
    it. -/
theorem linesText?_body (hslash : quote ≠ '\\') (hline : quote ≠ '\n') {run : Nat}
    {body text rest : List Char} (h : Body quote basic run body text) (hrest : Stops (· = quote) rest) :
    run ≤ 2 → ∀ fuel, run + body.length < fuel →
      linesText? quote basic fuel
          (List.replicate run quote ++ (body ++ (List.replicate 3 quote ++ rest)))
        = some (List.replicate run quote ++ text, rest) := by
  induction h with
  | nil run =>
    intro hrun fuel hfuel
    obtain ⟨fuel, rfl⟩ : ∃ k, fuel = k + 1 := ⟨fuel - 1, by omega⟩
    rw [List.nil_append, ← List.append_assoc, List.replicate_append_replicate,
      linesText?_close hrun hrest, List.append_nil]
  | quote hnext _ ih =>
    -- the quote joins the run before it
    next run body text =>
    intro _ fuel hfuel
    have hread := ih hnext fuel (by rw [List.length_cons] at hfuel; omega)
    rw [List.replicate_succ', List.append_assoc, List.append_assoc] at hread
    exact hread
  | other hblock _ ih =>
    next run c block body text _ =>
    intro hrun fuel hfuel
    obtain ⟨hne, hstops⟩ :=
      hblock.stops hslash hline (body ++ (List.replicate 3 quote ++ rest))
    have hpos : 0 < block.length := List.length_pos_iff.2 hne
    rw [List.length_append] at hfuel
    obtain ⟨fuel, rfl⟩ : ∃ k, fuel = k + 1 := ⟨fuel - 1, by omega⟩
    have hread : ∀ fuel, body.length < fuel → linesText? quote basic (fuel + 1)
        (block ++ (body ++ (List.replicate 3 quote ++ rest))) = some (c :: text, rest) := by
      intro fuel hfuel
      have := ih (Nat.zero_le 2) fuel (by omega)
      rw [linesText?_block hslash hline hblock, List.replicate_zero, List.nil_append] at *
      rw [this]
      rfl
    rw [List.append_assoc]
    -- a pending run takes a step of its own before the block
    rcases Nat.eq_zero_or_pos run with rfl | hpending
    · exact hread fuel (by omega)
    · obtain ⟨fuel, rfl⟩ : ∃ k, fuel = k + 1 := ⟨fuel - 1, by omega⟩
      rw [linesText?_run hpending hrun hstops, hread fuel (by omega)]
      rfl

/-- The line end after the opening quotes is dropped, and none that belongs to the text. -/
theorem dropFirstLineEnd_body (hline : quote ≠ '\n') (hreturn : quote ≠ '\r') {body cs : List Char}
    (h : Body quote basic 0 body cs) (rest : List Char) :
    dropFirstLineEnd (firstLineEnd cs ++ (body ++ quote :: rest)) = body ++ quote :: rest := by
  by_cases hlines : cs.any (· = '\n') = true
  · rw [firstLineEnd, if_pos hlines]
    rfl
  · have hnone : lineEnd? (body ++ quote :: rest) = none := by
      cases h with
      | nil => exact lineEnd?_cons hline hreturn _
      | quote _ _ => exact lineEnd?_cons hline hreturn _
      | other hblock _ =>
        cases hblock with
        | plain _ _ hplain => exact lineEnd?_of_isPlain hplain _
        | lineEnd _ => exact absurd rfl hlines
        | escape _ _ => exact lineEnd?_cons (by decide) (by decide) _
    rw [firstLineEnd, if_neg hlines, List.nil_append, dropFirstLineEnd, hnone, Option.getD_none]

/-- A text of several lines is read back from its opening quotes on.  The line end right after
    the quotes is dropped, which is why the printer writes one there. -/
theorem linesText?_dropFirstLineEnd (hslash : quote ≠ '\\') (hline : quote ≠ '\n')
    (hreturn : quote ≠ '\r') {body cs rest : List Char} (h : Body quote basic 0 body cs)
    (hrest : Stops (· = quote) rest) {written : List Char}
    (hwritten : written = firstLineEnd cs ++ (body ++ (List.replicate 3 quote ++ rest))) :
    linesText? quote basic (written.length + 1) (dropFirstLineEnd written) = some (cs, rest) := by
  have hlen : 0 + body.length < written.length + 1 := by
    simp only [hwritten, List.length_append]
    omega
  have hread := linesText?_body hslash hline h hrest (Nat.zero_le 2) _ hlen
  have hdrop : dropFirstLineEnd written = body ++ (List.replicate 3 quote ++ rest) :=
    hwritten ▸ dropFirstLineEnd_body hline hreturn h _
  rw [hdrop]
  exact hread

end Lines

/-! ## All styles -/

/-- A literal text has something in it, but nothing that is written otherwise: no code, no line
    end and no quote of its own kind. -/
theorem styleOf_literal {cs : List Char} (h : styleOf cs = .literal) :
    cs ≠ [] ∧ (∀ c ∈ cs, isCode c = false) ∧ (∀ c ∈ cs, c ≠ '\n') ∧ longestRun '\x27' 0 cs = 0 := by
  refine ⟨?_, ?_⟩
  · rintro rfl
    cases h
  · unfold styleOf at h
    dsimp only at h
    split_ifs at h with _ hliteral
    simpa [and_assoc, and_comm, and_left_comm] using hliteral

/-- The printer chooses literal lines only for texts that can be written in them. -/
theorem styleOf_literalLines {cs : List Char} (h : styleOf cs = .literalLines) :
    (∀ c ∈ cs, isCode c = false) ∧ longestRun '\x27' 0 cs ≤ 2 := by
  unfold styleOf at h
  dsimp only at h
  split_ifs at h with _ _ _ hliteral
  simpa using hliteral

theorem not_mem_of_longestRun {x : Char} {cs : List Char} (h : longestRun x 0 cs = 0) :
    ∀ c ∈ cs, c ≠ x := by
  induction cs with
  | nil => exact List.forall_mem_nil _
  | cons c cs ih =>
    rw [longestRun] at h
    split at h
    · have hpos := le_longestRun x (0 + 1) cs
      omega
    · next hc => exact List.forall_mem_cons.2 ⟨hc, ih (by omega)⟩

/-- Without three quotes in a row it is a text on one line. -/
theorem text?_eq_simpleText? {cs : List Char} (hdouble : ¬ ['"', '"', '"'] <+: cs)
    (hsingle : ¬ ['\x27', '\x27', '\x27'] <+: cs) : text? cs = simpleText? cs := by
  unfold text?
  split
  · exact absurd ⟨_, rfl⟩ hdouble
  · exact absurd ⟨_, rfl⟩ hsingle
  · rfl

/-- A text in one line of basic quotes is read back, whatever its characters are. -/
theorem text?_basic (cs : List Char) {rest : List Char} (h : Stops (· = '"') rest) :
    text? ('"' :: (escapeAll false 0 cs ++ '"' :: rest)) = some (cs, rest) := by
  have hdouble : ¬ ['"', '"'] <+: escapeAll false 0 cs ++ '"' :: rest := by
    rintro ⟨tail, htail⟩
    cases cs with
    | nil =>
      have hrest : rest = '"' :: tail := (List.cons.inj htail).2.symm
      exact absurd (h '"' (hrest ▸ rfl)) (by decide)
    | cons c cs =>
      have hstops := escapeAll_cons_stops c cs ('"' :: rest)
      rw [← htail] at hstops
      exact absurd (hstops '"' rfl) (by decide)
  rw [text?_eq_simpleText? (by simpa using hdouble) (by simp)]
  refine basicText?_escapeAll rest cs _ ?_
  have := length_le_escapeAll cs
  rw [List.length_append]
  omega

/-- A text in one line of literal quotes is read back, if it has no codes, line ends and quotes
    in it.  It must not be empty: two quotes could be the start of a text in several lines. -/
theorem text?_literal {cs : List Char} (hne : cs ≠ []) (hcode : ∀ c ∈ cs, isCode c = false)
    (hline : ∀ c ∈ cs, c ≠ '\n') (hquote : ∀ c ∈ cs, c ≠ '\x27') (rest : List Char) :
    text? ('\x27' :: (cs ++ '\x27' :: rest)) = some (cs, rest) := by
  obtain ⟨c, cs, rfl⟩ := List.exists_cons_of_ne_nil hne
  have hc : '\x27' ≠ c := Ne.symm (hquote c List.mem_cons_self)
  rw [text?_eq_simpleText? (by simp) (by simp [hc])]
  exact literalText?_append hcode hline hquote rest

/-- A written text is read back up to its closing quotes, unless more quotes follow. -/
theorem text?_writeText (s : String) {rest : List Char} (hdouble : Stops (· = '"') rest)
    (hsingle : Stops (· = '\x27') rest) : text? (writeText s ++ rest) = some (s.toList, rest) := by
  unfold writeText
  generalize s.toList = cs
  cases hstyle : styleOf cs with
  | basic => simpa [hstyle] using text?_basic cs hdouble
  | literal =>
    obtain ⟨hne, hcode, hline, hlong⟩ := styleOf_literal hstyle
    simpa [hstyle] using text?_literal hne hcode hline (not_mem_of_longestRun hlong) rest
  | basicLines =>
    have hread := linesText?_dropFirstLineEnd (by decide) (by decide) (by decide)
      (body_escapeAll cs 0) hdouble rfl
    simpa [hstyle, text?] using hread
  | literalLines =>
    obtain ⟨hcode, hlong⟩ := styleOf_literalLines hstyle
    have hread := linesText?_dropFirstLineEnd (by decide) (by decide) (by decide)
      (body_literal hcode hlong) hsingle rfl
    simpa [hstyle, text?] using hread

end BranchProbe.Toml
