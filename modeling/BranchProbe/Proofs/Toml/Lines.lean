/-
  Written lines of a document are read back.

  1. Values: a text, a flag and a number are read up to the end of their line.  A number is tried as
     a date and as a float first; neither goes on after its digits at a line end.
  2. `Line` is a line that can be read back, with the proof that it can.
  3. `sectionsFrom?_line` is the step, one line; `sectionsFrom?_lines` is the run over all lines of a
     section, and `sectionsFrom?_header` the step to the next one.
  4. `sections?_document`: a document of lines and a section is read as these.
-/
import BranchProbe.Toml.Reader
import BranchProbe.Proofs.Json.Lexemes
import BranchProbe.Proofs.Toml.Texts

namespace BranchProbe.Toml

open Text (Run Stops stops_cons span_run)
open Numeral (isDecimal naturalOf digitsOf isDecimal_of_mem_digitsOf)

/-! ## Numbers -/

/-- A run of digits is read up to what neither is a digit nor joins digits. -/
theorem digits?_run {p : Char → Bool} (hjoin : p '_' = false) {rest : List Char}
    (hrest : Stops p rest) (hrestJoin : Stops (· = '_') rest) :
    ∀ (run : List Char) (fuel : Nat), Run p run → run.length ≤ fuel →
      digits? p fuel (run ++ rest) = some (run, rest)
  | [], _, hrun, _ => absurd rfl hrun.1
  | [c], fuel + 1, hrun, _ => by
    have hc : p c = true := hrun.2 c List.mem_cons_self
    cases rest with
    | nil => simp [digits?, hc]
    | cons d rest =>
      have hd : p d = false := hrest d rfl
      have hdJoin : d ≠ '_' := by simpa using hrestJoin d rfl
      simp [digits?, hc, hd]
  | c :: d :: run, fuel + 1, hrun, hfuel => by
    have hc : p c = true := hrun.2 c List.mem_cons_self
    have hd : p d = true := hrun.2 d (List.mem_cons_of_mem _ List.mem_cons_self)
    have hdJoin : d ≠ '_' := by
      rintro rfl
      rw [hjoin] at hd
      cases hd
    have ih := digits?_run hjoin hrest hrestJoin (d :: run) fuel
      ⟨by simp, fun x hx => hrun.2 x (List.mem_cons_of_mem _ hx)⟩ (Nat.le_of_succ_le_succ hfuel)
    rw [List.cons_append] at ih
    simp [digits?, hc, hd, ih]

section Digits

variable (n : Nat) (rest : List Char)

/-- The digits of a number are read up to the end of their line. -/
theorem wholeDigits?_digitsOf :
    wholeDigits? (digitsOf n ++ '\n' :: rest) = some (digitsOf n, '\n' :: rest) := by
  rcases Nat.eq_zero_or_pos n with rfl | hpos
  · rfl
  · obtain ⟨c, cs, hcs, hc⟩ := Numeral.digitsOf_head hpos
    have hrun : Run isDecimal (digitsOf n) :=
      ⟨by simp [hcs], fun _ => isDecimal_of_mem_digitsOf⟩
    have hread := digits?_run (by decide) (stops_cons rest (by decide : isDecimal '\n' = false))
      (stops_cons rest (by decide)) (digitsOf n) (digitsOf n ++ '\n' :: rest).length hrun (by simp)
    rw [hcs, List.cons_append] at hread ⊢
    rw [← hread]
    unfold wholeDigits?
    split
    · next heq => exact absurd (List.cons.inj heq).1 hc
    · rfl

theorem exists_head_digitsOf :
    ∃ c cs, digitsOf n ++ '\n' :: rest = c :: cs ∧ isDecimal c = true := by
  obtain ⟨c, cs, hcs, hc⟩ := Numeral.exists_digitsOf n
  exact ⟨c, cs ++ '\n' :: rest, by rw [hcs, List.cons_append], hc⟩

/-- A number that is written without a sign is read without one. -/
theorem sign_digitsOf : sign (digitsOf n ++ '\n' :: rest) = (false, digitsOf n ++ '\n' :: rest) := by
  obtain ⟨c, cs, hcs, hc⟩ := exists_head_digitsOf n rest
  rw [hcs]
  unfold sign
  split
  · next heq => exact absurd ((List.cons.inj heq).1 ▸ hc) (by decide)
  · next heq => exact absurd ((List.cons.inj heq).1 ▸ hc) (by decide)
  · rfl

/-- After the digits of a number there is no fraction and no exponent but the line end, so the
    reader of floats declines. -/
theorem float?_digitsOf : float? (digitsOf n ++ '\n' :: rest) = none := by
  obtain ⟨c, cs, hcs, hc⟩ := exists_head_digitsOf n rest
  have hwhole := wholeDigits?_digitsOf n rest
  rw [float?, sign_digitsOf, hcs] at *
  dsimp only
  split
  · next heq => exact absurd ((List.cons.inj heq).1 ▸ hc) (by decide)
  · next heq => exact absurd ((List.cons.inj heq).1 ▸ hc) (by decide)
  · rw [hwhole]
    rfl

/-- Past a fixed number of digits of a number there is one more digit or the line end. -/
theorem fixedNumber?_digitsOf {count m : Nat} {after : List Char}
    (h : fixedNumber? count (digitsOf n ++ '\n' :: rest) = some (m, after)) :
    ∃ c cs, after = c :: cs ∧ c ≠ ':' ∧ c ≠ '-' := by
  rw [fixedNumber?] at h
  split at h
  · next hdigits =>
    obtain ⟨-, rfl⟩ := Prod.mk.inj (Option.some.inj h)
    simp only [Bool.and_eq_true, decide_eq_true_eq, List.all_eq_true] at hdigits
    have hdecimal : ∀ c ∈ digitsOf n, isDecimal c = true := fun _ => isDecimal_of_mem_digitsOf
    have hle : count ≤ (digitsOf n).length := by
      rw [← hdigits.1]
      exact Text.length_le_of_stops hdigits.2 hdecimal
        (stops_cons rest (by decide)) (List.take_append_drop _ _)
    rw [List.drop_append_of_le_length hle]
    cases hdrop : (digitsOf n).drop count with
    | nil => exact ⟨'\n', rest, rfl, by decide⟩
    | cons c cs =>
      have hc : isDecimal c = true :=
        hdecimal c (List.mem_of_mem_drop (hdrop ▸ List.mem_cons_self))
      refine ⟨c, cs ++ '\n' :: rest, rfl, ?_, ?_⟩ <;> rintro rfl <;> exact absurd hc (by decide)
  · cases h

theorem mark?_of_ne {expected c : Char} (h : c ≠ expected) (cs : List Char) :
    mark? expected (c :: cs) = none := if_neg h

/-- A number is no date and no time, as nothing between two numbers follows it. -/
theorem date?_digitsOf : date? (digitsOf n ++ '\n' :: rest) = none := by
  have hday : day? (digitsOf n ++ '\n' :: rest) = none := by
    cases hyear : fixedNumber? 4 (digitsOf n ++ '\n' :: rest) with
    | none => simp [day?, hyear]
    | some year =>
      obtain ⟨c, cs, hcs, -, hc⟩ := fixedNumber?_digitsOf n rest hyear
      simp [day?, hyear, hcs, mark?_of_ne hc]
  have htime : time? (digitsOf n ++ '\n' :: rest) = none := by
    cases hhour : fixedNumber? 2 (digitsOf n ++ '\n' :: rest) with
    | none => simp [time?, bounded?, hhour]
    | some hour =>
      obtain ⟨c, cs, hcs, hc, -⟩ := fixedNumber?_digitsOf n rest hhour
      by_cases hle : hour.1 ≤ 23
      · simp [time?, bounded?, hhour, hle, hcs, mark?_of_ne hc]
      · simp [time?, bounded?, hhour, hle]
  rw [date?, hday, htime]

/-- The second character of a number is a digit or the line end.  A number to another base would
    have a letter there, after its zero. -/
theorem second_of_digitsOf {x y : Char} {cs : List Char}
    (h : digitsOf n ++ '\n' :: rest = x :: y :: cs) : isDecimal y = true ∨ y = '\n' := by
  have hdecimal : ∀ c ∈ digitsOf n, isDecimal c = true := fun _ => isDecimal_of_mem_digitsOf
  obtain ⟨c, ds, hds, -⟩ := Numeral.exists_digitsOf n
  rw [hds] at h hdecimal
  cases ds with
  | nil => exact .inr (List.cons.inj (List.cons.inj h).2).1.symm
  | cons d ds =>
    rw [← (List.cons.inj (List.cons.inj h).2).1]
    exact .inl (hdecimal d (List.mem_cons_of_mem _ List.mem_cons_self))

theorem within_of_lt {n limit : Nat} (h : n < limit) :
    (-(limit : Int) ≤ (n : Int) && (n : Int) < limit) = true := by
  simp only [Bool.and_eq_true, decide_eq_true_eq]
  omega

/-- A number that fits 64 signed bits is read from its digits.  Beyond that there is no such
    number in the format, which is why the depth limit has a bound. -/
theorem integer?_digitsOf (h : n < Nat.pow 2 63) :
    integer? (digitsOf n ++ '\n' :: rest) = some ((n : Int), '\n' :: rest) := by
  have hbase : ∀ {y : Char} {cs : List Char}, digitsOf n ++ '\n' :: rest = '0' :: y :: cs →
      y ≠ 'x' ∧ y ≠ 'o' ∧ y ≠ 'b' := by
    intro y cs heq
    refine ⟨?_, ?_, ?_⟩ <;> rintro rfl <;>
      exact absurd (second_of_digitsOf n rest heq) (by decide)
  unfold integer?
  split
  · next heq => exact absurd rfl (hbase heq).1
  · next heq => exact absurd rfl (hbase heq).2.1
  · next heq => exact absurd rfl (hbase heq).2.2
  · rw [sign_digitsOf]
    dsimp only
    rw [wholeDigits?_digitsOf, Option.bind_some]
    dsimp only
    rw [Numeral.naturalOf_digitsOf, if_neg Bool.false_ne_true]
    exact if_pos (within_of_lt h)

end Digits

/-! ## Values -/

/-- The value of a written number is that number.  It could be taken for a date or a float, so
    each of these readers has to decline first. -/
theorem value?_digitsOf {n : Nat} (h : n < Nat.pow 2 63) (rest : List Char) :
    value? (digitsOf n ++ '\n' :: rest) = some (.integer n, '\n' :: rest) := by
  obtain ⟨c, cs, hcs, hc⟩ := exists_head_digitsOf n rest
  have hdate := date?_digitsOf n rest
  have hfloat := float?_digitsOf n rest
  have hinteger := integer?_digitsOf n rest h
  rw [hcs] at hdate hfloat hinteger ⊢
  have hne : ∀ d, isDecimal d = false → c ≠ d := by
    rintro d hd rfl
    rw [hc] at hd
    cases hd
  rw [value?]
  unfold valueAt?
  rw [if_neg (by simp [hne '"' (by decide), hne '\x27' (by decide)]), if_neg (hne '[' (by decide)),
    if_neg (hne '\x7b' (by decide)), if_neg (hne 't' (by decide)), if_neg (hne 'f' (by decide)),
    hdate, hfloat, hinteger]
  rfl

/-- A flag is read back, up to the end of its line. -/
theorem value?_writeBool (b : Bool) (rest : List Char) :
    value? (writeBool b ++ '\n' :: rest) = some (.bool b, '\n' :: rest) := by
  cases b <;> rw [value?, writeBool] <;> simp [valueAt?]

theorem exists_head_writeText (s : String) :
    ∃ c cs, writeText s = c :: cs ∧ (c = '"' ∨ c = '\x27') := by
  unfold writeText
  simp only
  split
  · exact ⟨_, _, rfl, .inl rfl⟩
  · exact ⟨_, _, rfl, .inr rfl⟩
  · exact ⟨_, _, rfl, .inl rfl⟩
  · exact ⟨_, _, rfl, .inr rfl⟩

/-- A text is read back in whichever style the printer has chosen for it. -/
theorem value?_writeText (s : String) (rest : List Char) :
    value? (writeText s ++ '\n' :: rest) = some (.text s, '\n' :: rest) := by
  have htext := text?_writeText s (stops_cons rest (by decide : decide ('\n' = '"') = false))
    (stops_cons rest (by decide))
  obtain ⟨c, cs, hcs, hc⟩ := exists_head_writeText s
  rw [hcs, List.cons_append] at htext ⊢
  rw [value?]
  unfold valueAt?
  rw [if_pos (by simpa using hc), htext, Option.map_some]
  dsimp only
  rw [String.ofList_toList]

/-! ## Lines -/

/-- A `key = value` line that can be read back. -/
structure Line where
  key : String
  /-- the value as it is written -/
  written : List Char
  value : Value
  bare : Run isBareKey key.toList
  unblank : ∀ rest, Stops isBlank (written ++ rest)
  reads : ∀ rest, value? (written ++ '\n' :: rest) = some (value, '\n' :: rest)

namespace Line

def text (l : Line) : List Char := writeLine l.key l.written

def entry (l : Line) : List String × String × Value := ([], l.key, l.value)

variable (key : String) (bare : Run isBareKey key.toList)

def ofText (s : String) : Line where
  key := key
  written := writeText s
  value := .text s
  bare := bare
  unblank rest := by
    obtain ⟨c, cs, hcs, hc⟩ := exists_head_writeText s
    rw [hcs]
    rcases hc with rfl | rfl <;> exact stops_cons _ (by decide)
  reads := value?_writeText s

def ofNat (n : Nat) (h : n < Nat.pow 2 63) : Line where
  key := key
  written := digitsOf n
  value := .integer n
  bare := bare
  unblank rest := by
    obtain ⟨c, cs, hcs, hc⟩ := Numeral.exists_digitsOf n
    rw [hcs]
    refine stops_cons _ ?_
    simp only [isBlank, Bool.or_eq_false_iff, decide_eq_false_iff_not]
    constructor <;> rintro rfl <;> exact absurd hc (by decide)
  reads := value?_digitsOf h

def ofBool (b : Bool) : Line where
  key := key
  written := writeBool b
  value := .bool b
  bare := bare
  unblank rest := by cases b <;> exact stops_cons _ (by decide)
  reads := value?_writeBool b

end Line

/-! ## Keys -/

theorem ne_of_isBareKey {c d : Char} (h : isBareKey c = true) (hd : isBareKey d = false) : c ≠ d := by
  rintro rfl
  rw [h] at hd
  cases hd

theorem skipBlanks_of_stops {cs : List Char} (h : Stops isBlank cs) : skipBlanks cs = cs := by
  have hspan := Text.span_of_stops h
  rw [List.span_eq_takeWhile_dropWhile] at hspan
  exact (Prod.mk.inj hspan).2

/-- A bare key does not start with a blank, so nothing is skipped before it. -/
theorem unblank_of_isBareKey {c : Char} (h : isBareKey c = true) (cs : List Char) :
    Stops isBlank (c :: cs) := by
  refine stops_cons _ ?_
  simp [isBlank, ne_of_isBareKey h (by decide : isBareKey ' ' = false),
    ne_of_isBareKey h (by decide : isBareKey '\t' = false)]

/-- A key without quotes and points is read up to what follows it, blanks included, so the equals
    sign comes next. -/
theorem key?_bare {name : List Char} (h : Run isBareKey name) {rest : List Char}
    (hrest : Stops isBareKey rest) (hpoint : Stops (· = '.') (skipBlanks rest)) :
    key? (name ++ rest) = some (([], String.ofList name), skipBlanks rest) := by
  obtain ⟨c, cs, rfl⟩ := List.exists_cons_of_ne_nil h.1
  have hc : isBareKey c = true := h.2 c List.mem_cons_self
  have hpart : keyPart? (c :: cs ++ rest) = some (String.ofList (c :: cs), rest) := by
    have hspan := span_run h.2 hrest
    rw [List.cons_append] at hspan ⊢
    unfold keyPart?
    split
    · next heq => exact absurd (List.cons.inj heq).1 (ne_of_isBareKey hc (by decide))
    · next heq => exact absurd (List.cons.inj heq).1 (ne_of_isBareKey hc (by decide))
    · rw [hspan]
  have hparts : keyParts? (c :: cs ++ rest).length (c :: cs ++ rest)
      = some ([String.ofList (c :: cs)], skipBlanks rest) := by
    have hskip : skipBlanks (c :: cs ++ rest) = c :: cs ++ rest :=
      skipBlanks_of_stops (unblank_of_isBareKey hc (cs ++ rest))
    rw [List.cons_append, List.length_cons, keyParts?, ← List.cons_append, hskip, hpart]
    simp only [Option.bind_some]
    split
    · next heq => exact absurd (hpoint '.' (heq ▸ rfl)) (by decide)
    · rfl
  rw [key?, hparts]
  rfl

/-! ## Sections -/

/-- A text that starts with neither a blank nor a comment nor a line end is not skipped. -/
theorem skipLines_of_stops {c : Char} {cs : List Char} (hblank : Stops isBlank (c :: cs))
    (hcomment : c ≠ '#') (hline : c ≠ '\n') (hreturn : c ≠ '\r') (fuel : Nat) :
    skipLines fuel (c :: cs) = c :: cs := by
  cases fuel with
  | zero => rfl
  | succ fuel =>
    have hskip : skipComment (c :: cs) = c :: cs := by simp [skipComment, hcomment]
    rw [skipLines, skipBlanks_of_stops hblank, hskip, lineEnd?_cons hline hreturn]

variable {header : Header} {keys : List (List String × String × Value)} {fuel : Nat}
  {rest : List Char}

/-- The end of a document ends its last section. -/
theorem sectionsFrom?_nil : sectionsFrom? (fuel + 1) header keys [] = some [⟨header, keys.reverse⟩] := rfl

/-- One line is one more key of its section.  The keys are collected from behind, so they are
    turned around when the section ends. -/
theorem sectionsFrom?_line (l : Line) : sectionsFrom? (fuel + 1) header keys (l.text ++ rest)
    = sectionsFrom? fuel header (l.entry :: keys) rest := by
  have hwritten : skipBlanks (' ' :: (l.written ++ '\n' :: rest)) = l.written ++ '\n' :: rest :=
    skipBlanks_of_stops (l.unblank _)
  have hkey : keyMark? (l.text ++ rest) = some (([], l.key), l.written ++ '\n' :: rest) := by
    have hread : key? (l.key.toList ++ ' ' :: '=' :: ' ' :: (l.written ++ '\n' :: rest))
        = some (([], String.ofList l.key.toList), '=' :: ' ' :: (l.written ++ '\n' :: rest)) :=
      key?_bare l.bare (stops_cons _ (by decide)) (stops_cons _ (by decide))
    rw [String.ofList_toList] at hread
    simp only [keyMark?, Line.text, writeLine, List.append_assoc, List.cons_append, List.nil_append,
      hread, Option.bind_some]
    exact congrArg (fun rest => some (([], l.key), rest)) hwritten
  -- a key comes first, so the line is not skipped and is no header
  obtain ⟨c, cs, hcs⟩ := List.exists_cons_of_ne_nil l.bare.1
  have hc : isBareKey c = true := l.bare.2 c (hcs ▸ List.mem_cons_self)
  obtain ⟨tail, htail⟩ : ∃ tail, l.text ++ rest = c :: tail := by
    rw [Line.text, writeLine, hcs]
    exact ⟨_, rfl⟩
  have hskip : skipLines (tail.length + 1 + 1) (c :: tail) = c :: tail :=
    skipLines_of_stops (unblank_of_isBareKey hc _) (ne_of_isBareKey hc (by decide))
      (ne_of_isBareKey hc (by decide)) (ne_of_isBareKey hc (by decide)) _
  have hend : endOfLine? ('\n' :: rest) = some rest := rfl
  rw [htail] at hkey ⊢
  rw [sectionsFrom?, List.length_cons, hskip]
  split
  · next heq => cases heq
  · next heq => exact absurd (List.cons.inj heq).1 (ne_of_isBareKey hc (by decide))
  · rw [hkey]
    dsimp only
    rw [l.reads]
    dsimp only
    rw [hend]
    rfl

/-- All lines of a section are its keys, the last one first, since the reader puts each key in
    front of those it has. -/
theorem sectionsFrom?_lines (ls : List Line) :
    sectionsFrom? (ls.length + fuel) header keys (ls.flatMap Line.text ++ rest)
      = sectionsFrom? fuel header ((ls.map Line.entry).reverse ++ keys) rest := by
  induction ls generalizing keys with
  | nil => rw [List.length_nil, Nat.zero_add]; rfl
  | cons l ls ih =>
    rw [List.length_cons, Nat.add_right_comm, List.flatMap_cons, List.append_assoc,
      sectionsFrom?_line, ih, List.map_cons, List.reverse_cons, List.append_assoc]
    rfl

/-- The header of a section ends the one before it, and its keys are complete then; the lines
    after it belong to the new section. -/
theorem sectionsFrom?_header {name : String} (h : Run isBareKey name.toList) :
    sectionsFrom? (fuel + 1) header keys ('\n' :: '[' :: (name.toList ++ ']' :: '\n' :: rest))
      = (sectionsFrom? fuel (.table [] name) [] rest).map (⟨header, keys.reverse⟩ :: ·) := by
  have hhead : header? (name.toList ++ ']' :: '\n' :: rest) = some (.table [] name, rest) := by
    have hread : key? (name.toList ++ ']' :: '\n' :: rest)
        = some (([], String.ofList name.toList), ']' :: '\n' :: rest) :=
      key?_bare h (stops_cons _ (by decide)) (stops_cons _ (by decide))
    rw [String.ofList_toList] at hread
    obtain ⟨c, cs, hcs⟩ := List.exists_cons_of_ne_nil h.1
    have hc : isBareKey c = true := h.2 c (hcs ▸ List.mem_cons_self)
    rw [hcs, List.cons_append] at hread ⊢
    unfold header?
    split
    · next heq => exact absurd (List.cons.inj heq).1 (ne_of_isBareKey hc (by decide))
    · rw [hread]
      rfl
  have hskip : ∀ fuel, skipLines (fuel + 1) ('\n' :: '[' :: (name.toList ++ ']' :: '\n' :: rest))
      = '[' :: (name.toList ++ ']' :: '\n' :: rest) := fun fuel =>
    skipLines_of_stops (stops_cons _ (by decide)) (by decide) (by decide) (by decide) fuel
  rw [sectionsFrom?, hskip]
  simp only [hhead]

/-- Each line takes at least one character, so the text gives enough fuel for all of its lines. -/
theorem length_le_flatMap_text : ∀ ls : List Line, ls.length ≤ (ls.flatMap Line.text).length
  | [] => Nat.le_refl 0
  | l :: ls => by
    have ih := length_le_flatMap_text ls
    rw [List.flatMap_cons, List.length_append, List.length_cons, Line.text, writeLine,
      List.length_append, List.length_singleton]
    omega

/-- A document of lines and of a section with more lines. -/
def documentOf (top : List Line) (name : String) (below : List Line) : List Char :=
  top.flatMap Line.text ++ '\n' :: '[' :: (name.toList ++ ']' :: '\n' :: below.flatMap Line.text)

/-- A document is read as the sections that it is written from.  The fuel is the length of the
    text, and every line and header takes some of it. -/
theorem sections?_document (top : List Line) {name : String} (h : Run isBareKey name.toList)
    (below : List Line) : sections? (String.ofList (documentOf top name below))
      = some [⟨.top, top.map Line.entry⟩, ⟨.table [] name, below.map Line.entry⟩] := by
  -- a key or a line end comes first, so there is no mark to drop
  have hmark : Stops (· = '\uFEFF') (documentOf top name below) := by
    cases top with
    | nil => exact stops_cons _ (by decide)
    | cons l ls =>
      obtain ⟨c, cs, hcs⟩ := List.exists_cons_of_ne_nil l.bare.1
      have hc : isBareKey c = true := l.bare.2 c (hcs ▸ List.mem_cons_self)
      simp only [documentOf, List.flatMap_cons, Line.text, writeLine, hcs, List.cons_append]
      exact stops_cons _ (by simpa using ne_of_isBareKey hc (by decide))
  -- every line takes a step, and so do the header and the end
  have hfuel : ∃ k, (documentOf top name below).length + 1
      = top.length + (below.length + (k + 1) + 1) := by
    have htop := length_le_flatMap_text top
    have hbelow := length_le_flatMap_text below
    refine ⟨(documentOf top name below).length - (top.length + below.length + 1), ?_⟩
    simp only [documentOf, List.length_append, List.length_cons]
    omega
  obtain ⟨k, hk⟩ := hfuel
  have hread : sectionsFrom? ((documentOf top name below).length + 1) .top []
      (documentOf top name below)
      = some [⟨.top, top.map Line.entry⟩, ⟨.table [] name, below.map Line.entry⟩] := by
    have hbelow : sectionsFrom? (below.length + (k + 1)) (.table [] name) []
        (below.flatMap Line.text ++ []) = some [⟨.table [] name, below.map Line.entry⟩] := by
      rw [sectionsFrom?_lines, List.append_nil, sectionsFrom?_nil, List.reverse_reverse]
    rw [List.append_nil] at hbelow
    rw [hk, documentOf, sectionsFrom?_lines, sectionsFrom?_header h, hbelow, List.append_nil,
      List.reverse_reverse]
    rfl
  rw [sections?, String.toList_ofList]
  split
  · next heq => exact absurd (hmark '\uFEFF' (heq ▸ rfl)) (by decide)
  · exact hread

end BranchProbe.Toml
