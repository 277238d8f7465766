/-
  Painted texts, and how a terminal reads them.

  1. `Terminal.pieces` reads a text as a terminal does: where a sequence that sets a style stands it is
     one piece, any other character is shown.  `stripped` is what is shown, `sequences` what is not.
  2. A text is `Whole` if it is read the same whatever follows.  A text that ended inside of a sequence
     would go on in the next one; whole texts one after the other are read one after the other
     (`pieces_join`).
  3. A painted text is whole.  It is read as the sequence that opens the style, the text, and the reset
     (`pieces_paint`), as long as the text has no sequence of its own.
  4. A painted text tells the text, whatever that is (`paint_injective`): where a style was opened anew
     there was a reset, and no other reset comes up (`take_reopen`).
-/
import BranchProbe.Proofs.Text.Runs
import BranchProbe.Terminal.Style

namespace BranchProbe

/-! ## Reading a text as a terminal does -/

namespace Terminal

/-- What a terminal reads at once. -/
inductive Piece where
  | shown (c : Char)
  /-- sets the style that the parameters tell of -/
  | control (parameters : List Char)
  deriving DecidableEq

/-- The characters between the opening bracket and the `m` of a sequence. -/
def isParameter (c : Char) : Bool := c.isDigit || c == ';'

/-- The sequence with some parameters. -/
def sequenceOf (parameters : List Char) : List Char := '\x1b' :: '[' :: (parameters ++ ['m'])

/-- The parameters of the sequence at the head of a text, and what follows it. -/
def control? : List Char → Option (List Char × List Char)
  | '\x1b' :: '[' :: cs =>
    match cs.span isParameter with
    | (parameters, 'm' :: rest) => some (parameters, rest)
    | _ => none
  | _ => none

/-- A control sequence takes at least one character.  This is why cutting a text into pieces
    comes to an end. -/
theorem length_of_control? {cs parameters rest : List Char}
    (h : control? cs = some (parameters, rest)) : rest.length < cs.length := by
  unfold control? at h
  split at h
  · next cs =>
    rw [List.span_eq_takeWhile_dropWhile] at h
    split at h
    · next heq =>
      obtain ⟨rfl, rfl⟩ := Prod.mk.inj (Option.some.inj h)
      have hdrop := congrArg List.length (Prod.mk.inj heq).2
      have hle := (List.dropWhile_suffix isParameter (l := cs)).length_le
      simp only [List.length_cons] at hdrop ⊢
      omega
    · cases h
  · cases h

/-- A text read piece by piece. -/
def pieces (cs : List Char) : List Piece :=
  match h : control? cs with
  | some (parameters, rest) =>
    have := length_of_control? h
    .control parameters :: pieces rest
  | none =>
    match cs with
    | [] => []
    | c :: rest => .shown c :: pieces rest
  termination_by cs.length

/-- The character that a piece shows. -/
def Piece.char? : Piece → Option Char
  | .shown c => some c
  | .control _ => none

/-- The sequence that a piece is. -/
def Piece.sequence? : Piece → Option (List Char)
  | .shown _ => none
  | .control parameters => some (sequenceOf parameters)

/-- A text without its sequences. -/
def stripped (s : String) : String := String.ofList ((pieces s.toList).filterMap Piece.char?)

/-- The sequences of a text, in their order. -/
def sequences (s : String) : List (List Char) := (pieces s.toList).filterMap Piece.sequence?

/-- Characters that are shown are what is left when sequences are taken out. -/
@[simp] theorem filterMap_char?_shown (cs : List Char) :
    (cs.map Piece.shown).filterMap Piece.char? = cs := by
  have hchar : Piece.char? ∘ Piece.shown = some := rfl
  rw [List.filterMap_map, hchar, List.filterMap_some]

@[simp] theorem filterMap_sequence?_shown (cs : List Char) :
    (cs.map Piece.shown).filterMap Piece.sequence? = [] := by
  rw [List.filterMap_map, List.filterMap_eq_nil_iff]
  intro c _
  rfl

theorem pieces_nil : pieces [] = [] := by
  rw [pieces]
  rfl

/-- A character that is not the escape character is a piece by itself. -/
theorem pieces_cons_of_ne {c : Char} (hc : c ≠ '\x1b') (cs : List Char) :
    pieces (c :: cs) = .shown c :: pieces cs := by
  have hnone : control? (c :: cs) = none := by
    unfold control?
    split
    · next heq => exact absurd (List.cons.inj heq).1 hc
    · rfl
  rw [pieces]
  split
  · next heq => rw [hnone] at heq; cases heq
  · rfl

/-- A text without the escape character is shown as it is. -/
theorem pieces_append_of_not_mem {xs : List Char} (h : '\x1b' ∉ xs) (ys : List Char) :
    pieces (xs ++ ys) = xs.map .shown ++ pieces ys := by
  induction xs with
  | nil => rfl
  | cons c cs ih =>
    rw [List.mem_cons, not_or] at h
    rw [List.cons_append, pieces_cons_of_ne (Ne.symm h.1), ih h.2, List.map_cons, List.cons_append]

/-- A text without an escape character is shown as it is, character by character. -/
theorem pieces_of_not_mem {xs : List Char} (h : '\x1b' ∉ xs) : pieces xs = xs.map .shown := by
  have hall := pieces_append_of_not_mem h []
  rwa [pieces_nil, List.append_nil, List.append_nil] at hall

theorem stripped_of_not_mem {s : String} (h : '\x1b' ∉ s.toList) : stripped s = s := by
  rw [stripped, pieces_of_not_mem h, filterMap_char?_shown, String.ofList_toList]

/-- There are no sequences in a text without an escape character. -/
theorem sequences_of_not_mem {s : String} (h : '\x1b' ∉ s.toList) : sequences s = [] := by
  rw [sequences, pieces_of_not_mem h, filterMap_sequence?_shown]

/-- A sequence is one piece: its parameters are read up to the letter that ends it, and none of
    them is such a letter. -/
theorem pieces_sequenceOf {parameters : List Char} (h : ∀ c ∈ parameters, isParameter c = true)
    (ys : List Char) : pieces (sequenceOf parameters ++ ys) = .control parameters :: pieces ys := by
  have hspan : (parameters ++ 'm' :: ys).span isParameter = (parameters, 'm' :: ys) :=
    Text.span_run h (Text.stops_cons ys (by decide))
  have hcontrol : control? (sequenceOf parameters ++ ys) = some (parameters, ys) := by
    have hshape : sequenceOf parameters ++ ys = '\x1b' :: '[' :: (parameters ++ 'm' :: ys) := by
      simp [sequenceOf]
    rw [hshape, control?, hspan]
    rfl
  rw [pieces]
  split
  · next heq =>
    rw [hcontrol] at heq
    obtain ⟨rfl, rfl⟩ := Prod.mk.inj (Option.some.inj heq)
    rfl
  · next heq => rw [hcontrol] at heq; cases heq

/-! ## Whole texts -/

/-- The text is read the same whatever follows it. -/
def Whole (xs : List Char) : Prop := ∀ ys, pieces (xs ++ ys) = pieces xs ++ pieces ys

/-- A text without an escape character ends outside of any sequence, so it can be put before any
    other text. -/
theorem whole_of_not_mem {xs : List Char} (h : '\x1b' ∉ xs) : Whole xs := by
  intro ys
  rw [pieces_append_of_not_mem h, pieces_of_not_mem h]

/-- Texts that end outside of a sequence can be put together.  This is how a line is cut at the
    ends of its painted parts. -/
theorem Whole.append {xs ys : List Char} (hx : Whole xs) (hy : Whole ys) : Whole (xs ++ ys) := by
  intro zs
  rw [List.append_assoc, hx, hy, hx, List.append_assoc]

/-- Whole texts one after the other are read one after the other: none of them ends within a
    sequence, so none takes characters from the next. -/
theorem pieces_join {ls : List String} (h : ∀ s ∈ ls, Whole s.toList) :
    pieces (String.join ls).toList = ls.flatMap fun s => pieces s.toList := by
  rw [String.toList_join]
  induction ls with
  | nil => exact pieces_nil
  | cons s rest ih =>
    obtain ⟨hs, hrest⟩ := List.forall_mem_cons.1 h
    rw [List.flatMap_cons, List.flatMap_cons, hs, ih hrest]

end Terminal

/-! ## Painted texts -/

namespace Style

open Terminal

/-- What tells of a style in the sequence that opens it. -/
def parameters (s : Style) : List Char := ((if s.bold then "1;" else "") ++ s.color.code).toList

/-- A style opens with one control sequence, that of its parameters. -/
theorem opening_eq (s : Style) : s.opening = sequenceOf s.parameters := by
  simp [opening, sequenceOf, parameters]

/-- The parameters of a style are digits and semicolons, so its sequence is read up to its last
    letter. -/
theorem isParameter_of_mem (s : Style) : ∀ c ∈ s.parameters, isParameter c = true := by
  have hall : s.parameters.all isParameter = true := by
    obtain ⟨color, bold⟩ := s
    cases color <;> cases bold <;> decide
  exact List.all_eq_true.1 hall

/-- A style that is opened again after resets only adds characters.  So a painted text is not
    shorter than what is painted. -/
theorem length_le_reopen (again : List Char) (cs : List Char) :
    cs.length ≤ (reopen again cs).length := by
  fun_induction reopen again cs with
  | case1 cs ih =>
    simp only [List.length_cons, List.length_append, reset, List.length_nil]
    omega
  | case2 c cs _ ih => simpa using ih
  | case3 => exact Nat.le_refl 0

/-- At a reset the style is opened again behind it, and the rest is treated in the same way. -/
theorem reopen_reset_append (again cs : List Char) :
    reopen again (reset ++ cs) = reset ++ again ++ reopen again cs := by
  rw [reset, List.cons_append, List.cons_append, List.cons_append, List.cons_append,
    List.nil_append, reopen]
  rfl

/-- The four characters on top stay as they are, so no reset comes up that the text did not have. -/
theorem take_reopen (again cs : List Char) {n : Nat} (hn : n ≤ 4) :
    (reopen again cs).take n = cs.take n := by
  fun_induction reopen again cs generalizing n with
  | case1 cs =>
    have hlength : n ≤ reset.length := hn
    have htext : '\x1b' :: '[' :: '0' :: 'm' :: cs = reset ++ cs := rfl
    rw [htext, List.append_assoc, List.take_append_of_le_length hlength,
      List.take_append_of_le_length hlength]
  | case2 c cs _ ih =>
    cases n with
    | zero => rfl
    | succ k => rw [List.take_succ_cons, List.take_succ_cons, ih (by omega)]
  | case3 => rfl

/-- A reset that is written on top comes from one of the text. -/
theorem eq_reset_append {again cs tail : List Char} (h : reopen again cs = reset ++ tail) :
    cs = reset ++ cs.drop 4 := by
  have htake := take_reopen again cs (Nat.le_refl 4)
  rw [h] at htake
  calc cs = cs.take 4 ++ cs.drop 4 := (List.take_append_drop 4 cs).symm
    _ = reset ++ cs.drop 4 := by rw [← htake]; rfl

/-- Opening a style again after each reset loses nothing: the resets show where it was added.  So
    a painted text determines what was painted. -/
theorem reopen_injective (again : List Char) : Function.Injective (reopen again) := by
  intro cs
  fun_induction reopen again cs with
  | case1 cs ih =>
    intro ds h
    have hwritten : reopen again ds = reset ++ (again ++ reopen again cs) := by
      rw [← h, List.append_assoc]
    -- the other text starts with a reset too, and both go on after it
    have hds : ds = reset ++ ds.drop 4 := eq_reset_append hwritten
    rw [hds, reopen_reset_append] at h
    rw [hds, ih (List.append_cancel_left h)]
    rfl
  | case2 c cs hc ih =>
    intro ds
    have hcs : reopen again (c :: cs) = c :: reopen again cs := by
      rw [reopen]
      exact hc
    fun_cases reopen again ds with
    | case1 ds =>
      intro h
      -- a reset is met on one side only, which cannot be
      rw [← hcs, List.append_assoc] at h
      obtain ⟨hescape, hrest⟩ := List.cons.inj (eq_reset_append h)
      exact absurd hrest (hc _ hescape)
    | case2 d ds =>
      intro h
      obtain ⟨rfl, hrest⟩ := List.cons.inj h
      rw [ih hrest]
    | case3 => exact fun h => nomatch h
  | case3 =>
    intro ds h
    have hle := length_le_reopen again ds
    rw [← h] at hle
    exact (List.eq_nil_of_length_eq_zero (Nat.le_zero.1 hle)).symm

theorem paint_injective (style : Style) : Function.Injective style.paint := by
  intro text text' h
  have hchars := congrArg String.toList h
  rw [paint, paint, String.toList_ofList, String.toList_ofList] at hchars
  have hreopen := List.append_cancel_left (List.append_cancel_right hchars)
  exact String.toList_inj.1 (reopen_injective style.opening hreopen)

/-- A character that is in no part of it does not come into a text by opening a style again. -/
theorem not_mem_reopen {c : Char} {again cs : List Char} (hcs : c ∉ cs) (hagain : c ∉ again)
    (hreset : c ∉ reset) : c ∉ reopen again cs := by
  fun_induction reopen again cs with
  | case1 cs ih =>
    simp only [List.mem_append, not_or]
    have hrest : c ∉ cs := fun hc => hcs (by simp [hc])
    exact ⟨⟨hreset, hagain⟩, ih hrest⟩
  | case2 d cs _ ih =>
    rw [List.mem_cons, not_or] at hcs ⊢
    exact ⟨hcs.1, ih hcs.2⟩
  | case3 => exact List.not_mem_nil

/-- There is nothing to open anew in a text without the escape character. -/
theorem reopen_of_not_mem {again cs : List Char} (h : '\x1b' ∉ cs) : reopen again cs = cs := by
  fun_induction reopen again cs with
  | case1 cs => exact absurd List.mem_cons_self h
  | case2 c cs _ ih =>
    rw [List.mem_cons, not_or] at h
    rw [ih h.2]
  | case3 => rfl

/-- A text without sequences of its own is painted by one sequence before it and one reset behind
    it, with nothing to be opened again. -/
theorem toList_paint (s : Style) {text : String} (h : '\x1b' ∉ text.toList) :
    (s.paint text).toList = s.opening ++ text.toList ++ reset := by
  rw [paint, String.toList_ofList, reopen_of_not_mem h]

theorem newline_not_mem_paint (style : Style) {text : String} (h : '\n' ∉ text.toList) :
    '\n' ∉ (style.paint text).toList := by
  have hopening : '\n' ∉ style.opening := by
    obtain ⟨color, bold⟩ := style
    cases color <;> cases bold <;> decide
  have hreset : '\n' ∉ reset := by decide
  rw [paint, String.toList_ofList, List.mem_append, List.mem_append, not_or, not_or]
  exact ⟨⟨hopening, not_mem_reopen h hopening hreset⟩, hreset⟩

/-- A painted text is read as two sequences, with the text between them. -/
theorem pieces_paint_append (s : Style) {text : String} (h : '\x1b' ∉ text.toList)
    (ys : List Char) : pieces ((s.paint text).toList ++ ys)
      = .control s.parameters :: (text.toList.map .shown ++ .control ['0'] :: pieces ys) := by
  have hdigit : ∀ c ∈ ['0'], isParameter c = true := by simp [isParameter]
  have hreset : pieces (reset ++ ys) = .control ['0'] :: pieces ys := pieces_sequenceOf hdigit ys
  rw [toList_paint s h, List.append_assoc, List.append_assoc, opening_eq,
    pieces_sequenceOf s.isParameter_of_mem, pieces_append_of_not_mem h, hreset]

/-- A painted text consists of the sequence of the style, the characters of the text and the
    reset, in this order. -/
theorem pieces_paint (s : Style) {text : String} (h : '\x1b' ∉ text.toList) :
    pieces (s.paint text).toList
      = .control s.parameters :: (text.toList.map .shown ++ [.control ['0']]) := by
  have halone := s.pieces_paint_append h []
  rwa [List.append_nil, pieces_nil] at halone

/-- A painted text ends outside of a sequence, since its reset is complete. -/
theorem whole_paint (s : Style) {text : String} (h : '\x1b' ∉ text.toList) :
    Whole (s.paint text).toList := by
  intro ys
  rw [s.pieces_paint_append h, s.pieces_paint h, List.cons_append, List.append_assoc]
  rfl

/-- What a painted text shows is the text. -/
theorem stripped_paint (s : Style) {text : String} (h : '\x1b' ∉ text.toList) :
    stripped (s.paint text) = text := by
  rw [stripped, s.pieces_paint h, List.filterMap_cons_none rfl, List.filterMap_append,
    filterMap_char?_shown, List.filterMap_cons_none rfl, List.filterMap_nil, List.append_nil,
    String.ofList_toList]

/-- The sequences of a painted text open the style and reset it. -/
theorem sequences_paint (s : Style) {text : String} (h : '\x1b' ∉ text.toList) :
    sequences (s.paint text) = [s.opening, reset] := by
  rw [sequences, s.pieces_paint h, s.opening_eq]
  simp [Piece.sequence?, sequenceOf, reset]

end Style

end BranchProbe
