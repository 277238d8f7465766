/-
  How a path with references is made up.

  1. `Stretch` is a part of a path as it is written: text that stands for itself, a doubled dollar, or
     a reference in one of its three forms.  `Division` says how a path is made up of them; each must
     fit before what follows it, so a name without braces is not cut short, and a dollar that could
     start something else is not taken for itself.
  2. The step is one stretch (`join?_split_written`): the expansion takes exactly its characters,
     writes its value and goes on behind it.  So it never comes back to what it has written.
  3. The run is by induction on the division: all values in order if every reference has one
     (`Division.join?_of_set`), and else nothing at all (`Division.join?_of_unset`), however much was
     written before.
  4. Every path has one division (`existsUnique_division`).  That no other stretch fits at a place is
     seen from the step too, which takes only one.
-/
import BranchProbe.Proofs.Text.Runs
import BranchProbe.Settings.Expansion
import Mathlib.Data.List.Infix

namespace BranchProbe

/-! ## Stretches -/

/-- A part of a path. -/
inductive Stretch where
  /-- stands for itself -/
  | plain (text : List Char)
  /-- `$$`, which stands for one dollar -/
  | doubled
  /-- `$NAME` -/
  | bare (name : List Char)
  /-- a dollar and the name in braces -/
  | braced (name : List Char)
  /-- a dollar, and in braces the name, `:-` and the default -/
  | withDefault (name default : List Char)
  deriving Repr, DecidableEq

/-- What separates a name from its default. -/
def defaultMark : List Char := [':', '-']

namespace Stretch

/-- A stretch as it is written. -/
def written : Stretch → List Char
  | .plain text => text
  | .doubled => ['$', '$']
  | .bare name => '$' :: name
  | .braced name => '$' :: '\x7b' :: (name ++ ['\x7d'])
  | .withDefault name default => '$' :: '\x7b' :: (name ++ defaultMark ++ default ++ ['\x7d'])

/-- The text stands for itself before `rest`. -/
inductive Plain (rest : List Char) : (text : List Char) → Prop where
  | char {c : Char} (h : c ≠ '$') : Plain rest [c]
  /-- nothing that could follow a dollar follows it -/
  | dollar (h : ∀ c ∈ rest.head?, c ≠ '$' ∧ c ≠ '\x7b' ∧ Piece.isNameChar c = false) :
    Plain rest ['$']
  /-- the brace is not closed -/
  | brace (h : '\x7d' ∉ rest) : Plain rest ['$', '\x7b']

/-- A stretch is well-formed, and does not go on in `rest`. -/
def Fits (rest : List Char) : Stretch → Prop
  | .plain text => Plain rest text
  | .doubled => True
  | .bare name => Text.Run Piece.isNameChar name ∧ Text.Stops Piece.isNameChar rest
  -- a mark with no name before it belongs to the name
  | .braced name => '\x7d' ∉ name ∧ (defaultMark <:+: name → defaultMark <+: name)
  | .withDefault name default =>
    '\x7d' ∉ name ∧ '\x7d' ∉ default ∧ name ≠ [] ∧ ¬ defaultMark <:+: name

/-- The stretch is a reference without a default, and its name is not set. -/
def Unset (env : Environment) : Stretch → Prop
  | .bare name => env.find? (String.ofList name) = none
  | .braced name => env.find? (String.ofList name) = none
  | _ => False

instance (env : Environment) : DecidablePred (Unset env)
  | .bare name => inferInstanceAs (Decidable (env.find? (String.ofList name) = none))
  | .braced name => inferInstanceAs (Decidable (env.find? (String.ofList name) = none))
  | .plain _ | .doubled | .withDefault _ _ => inferInstanceAs (Decidable False)

/-- What a stretch is replaced by; the empty text where there is nothing. -/
def value (env : Environment) : Stretch → List Char
  | .plain text => text
  | .doubled => ['$']
  | .bare name => ((env.find? (String.ofList name)).map String.toList).getD []
  | .braced name => ((env.find? (String.ofList name)).map String.toList).getD []
  | .withDefault name default => ((env.find? (String.ofList name)).map String.toList).getD default

/-- The piece that the expansion makes of a stretch. -/
def piece : Stretch → Piece
  | .plain text => .plain text
  | .doubled => .plain ['$']
  | .bare name => .reference name none
  | .braced name => .reference name none
  | .withDefault name default => .reference name (some default)

/-- A reference to a variable that is not set, without a default, has no value; it is the only
    stretch without one. -/
theorem value?_piece_of_unset {env : Environment} {s : Stretch} (h : s.Unset env) :
    s.piece.value? env = none := by
  cases s <;> simp_all [Unset, piece, Piece.value?]

/-- Any other stretch has the value that it is said to have, so joining the pieces is joining the
    values. -/
theorem value?_piece {env : Environment} {s : Stretch} (h : ¬ s.Unset env) :
    s.piece.value? env = some (s.value env) := by
  cases s with
  | plain text => rfl
  | doubled => rfl
  | bare name | braced name | withDefault name default =>
    cases hfind : env.find? (String.ofList name) <;>
      simp_all [Unset, piece, value, Piece.value?]

/-- A stretch takes at least one character, so a division has no more stretches than the text has
    characters. -/
theorem Fits.written_ne_nil {s : Stretch} {rest : List Char} (h : s.Fits rest) :
    s.written ≠ [] := by
  cases s with
  | plain text => cases h <;> exact List.cons_ne_nil _ _
  | doubled | bare name | braced name | withDefault name default => exact List.cons_ne_nil _ _

end Stretch

/-- A path is made up of stretches, one after the other. -/
inductive Division : List Char → List Stretch → Prop where
  | nil : Division [] []
  | cons {s : Stretch} {rest : List Char} {ss : List Stretch} (hfits : s.Fits rest)
      (hrest : Division rest ss) : Division (s.written ++ rest) (s :: ss)

/-- A division loses no character: the stretches as they are written are the text. -/
theorem Division.flatMap_written {cs : List Char} {ss : List Stretch} (h : Division cs ss) :
    ss.flatMap Stretch.written = cs := by
  induction h with
  | nil => rfl
  | cons _ _ ih => rw [List.flatMap_cons, ih]

/-! ## Names and defaults -/

/-- A mark that is somewhere in a text has a first place there.  The induction is on the text,
    and it is the first place because none was found before. -/
theorem exists_first_mark : ∀ {cs : List Char}, defaultMark <:+: cs →
    ∃ name default, cs = name ++ defaultMark ++ default ∧ ¬ defaultMark <:+: name
  | [], h => by simp [defaultMark] at h
  | c :: cs, h => by
    by_cases hprefix : defaultMark <+: c :: cs
    · obtain ⟨default, hdefault⟩ := hprefix
      exact ⟨[], default, hdefault.symm, by simp [defaultMark]⟩
    · obtain ⟨name, default, rfl, hname⟩ :=
        exists_first_mark ((List.infix_cons_iff.1 h).resolve_left hprefix)
      refine ⟨c :: name, default, by simp, fun hmark => ?_⟩
      rcases List.infix_cons_iff.1 hmark with htop | hbelow
      · refine hprefix (htop.trans ⟨defaultMark ++ default, ?_⟩)
        rw [List.cons_append, List.append_assoc]
      · exact hname hbelow

namespace Piece

/-- Without the mark before a default the whole of what stands in braces is the name. -/
theorem splitDefault_of_unmarked : ∀ {cs : List Char}, ¬ defaultMark <:+: cs →
    splitDefault cs = (cs, none)
  | [], _ => rfl
  | c :: cs, h => by
    rw [List.infix_cons_iff, not_or] at h
    rw [splitDefault, splitDefault_of_unmarked h.2]
    rintro rest rfl rfl
    exact h.1 ⟨rest, rfl⟩

/-- At the first mark the name ends and the default starts, whatever the default holds, further
    marks included. -/
theorem splitDefault_append (default : List Char) : ∀ {name : List Char},
    ¬ defaultMark <:+: name → splitDefault (name ++ defaultMark ++ default) = (name, some default)
  | [], _ => rfl
  | c :: name, h => by
    rw [List.infix_cons_iff, not_or] at h
    rw [List.cons_append, List.cons_append, splitDefault, splitDefault_append default h.2]
    -- the mark cannot start on the last character of the name
    intro rest hcolon hrest
    cases name with
    | nil => simp [defaultMark] at hrest
    | cons d name =>
      obtain ⟨rfl, -⟩ := List.cons.inj hrest
      exact h.1 ⟨name, by rw [hcolon]; rfl⟩

/-- What stands in braces and has no mark, or starts with one, is the name of a variable and has
    no default. -/
theorem braced_of_name {name : List Char} (h : defaultMark <:+: name → defaultMark <+: name) :
    braced name = .reference name none := by
  by_cases hmark : defaultMark <:+: name
  · obtain ⟨rest, rfl⟩ := h hmark
    rfl
  · rw [braced, splitDefault_of_unmarked hmark]
    cases name <;> rfl

/-- A name, a mark and a default in braces are read as such. -/
theorem braced_of_default {name : List Char} (hname : name ≠ []) (h : ¬ defaultMark <:+: name)
    (default : List Char) :
    braced (name ++ defaultMark ++ default) = .reference name (some default) := by
  rw [braced, splitDefault_append default h]
  cases name with
  | nil => exact absurd rfl hname
  | cons c name => rfl

/-! ## One stretch -/

/-- Nothing is left of a text that is at its end, for any fuel. -/
theorem join?_split_nil (env : Environment) (fuel : Nat) : join? env (split fuel []) = some [] := by
  cases fuel <;> rfl

/-- A character that is not a dollar sign is kept and the rest is split further on. -/
theorem split_char (fuel : Nat) {c : Char} (h : c ≠ '$') (rest : List Char) :
    split (fuel + 1) (c :: rest) = .plain [c] :: split fuel rest := by
  simp [split, h]

/-- Braces hold all up to where they are closed, dollar signs included.  There are no braces
    within braces: the first one that closes ends them. -/
theorem split_closed (fuel : Nat) {inside : List Char} (h : '\x7d' ∉ inside) (rest : List Char) :
    split (fuel + 1) ('$' :: '\x7b' :: (inside ++ ['\x7d']) ++ rest)
      = braced inside :: split fuel rest := by
  rw [List.cons_append, List.cons_append, List.append_assoc, List.singleton_append]
  have hspan : (inside ++ '\x7d' :: rest).span (· ≠ '\x7d') = (inside, '\x7d' :: rest) := by
    apply Text.span_run
    · intro c hc
      exact decide_eq_true fun heq => h (heq ▸ hc)
    · exact Text.stops_cons _ (decide_eq_false fun hne => hne rfl)
  simp only [split, hspan]
  simp

/-- A brace that is never closed opens no reference: the dollar sign and the brace are kept as
    plain text. -/
theorem split_unclosed (fuel : Nat) {rest : List Char} (h : '\x7d' ∉ rest) :
    split (fuel + 1) ('$' :: '\x7b' :: rest) = .plain ['$', '\x7b'] :: split fuel rest := by
  have hspan : (rest ++ []).span (· ≠ '\x7d') = (rest, []) := by
    refine Text.span_run (fun c hc => ?_) (Text.stops_nil _)
    exact decide_eq_true fun heq => h (heq ▸ hc)
  rw [List.append_nil] at hspan
  simp only [split, hspan]
  simp

/-- A brace does not continue a name, so a bare name and one in braces are told apart by the
    character after the dollar sign. -/
theorem ne_brace_of_isNameChar {c : Char} (h : isNameChar c = true) : c ≠ '\x7b' := by
  rintro rfl
  exact absurd h (by decide +kernel)

/-- A dollar sign ends a name, so references can follow each other without a blank. -/
theorem isNameChar_dollar : isNameChar '$' = false := by decide +kernel

/-- A bare name after a dollar sign goes as far as the characters of names go. -/
theorem split_bare (fuel : Nat) {name rest : List Char} (hname : Text.Run isNameChar name)
    (hrest : Text.Stops isNameChar rest) :
    split (fuel + 1) ('$' :: (name ++ rest)) = .reference name none :: split fuel rest := by
  obtain ⟨hne, hall⟩ := hname
  have hspan := Text.span_run hall hrest
  cases name with
  | nil => exact absurd rfl hne
  | cons d name =>
    have hd : isNameChar d = true := hall d List.mem_cons_self
    have hbrace : d ≠ '\x7b' := ne_brace_of_isNameChar hd
    rw [List.cons_append] at hspan
    simp only [split, List.cons_append, hspan, hd, hbrace]
    simp

/-- Two dollar signs stand for one and open no reference. -/
theorem split_doubled (fuel : Nat) (rest : List Char) :
    split (fuel + 1) ('$' :: '$' :: rest) = .plain ['$'] :: split fuel rest := by
  simp [split, isNameChar_dollar]

/-- The expansion takes the characters of a stretch that fits, and goes on behind it. -/
theorem split_written (env : Environment) {s : Stretch} {rest : List Char} (h : s.Fits rest)
    (fuel : Nat) : ∃ ps, split (fuel + 1) (s.written ++ rest) = s.piece :: ps
      ∧ join? env ps = join? env (split fuel rest) := by
  cases s with
  | plain text =>
    cases h with
    | char hc => exact ⟨_, split_char fuel hc rest, rfl⟩
    | dollar hrest =>
      cases rest with
      | nil => exact ⟨[], rfl, (join?_split_nil env fuel).symm⟩
      | cons d rest =>
        obtain ⟨hdollar, hbrace, hname⟩ := hrest d rfl
        refine ⟨split fuel (d :: rest), ?_, rfl⟩
        simp [Stretch.written, Stretch.piece, split, hdollar, hbrace, hname]
    | brace hrest => exact ⟨_, split_unclosed fuel hrest, rfl⟩
  | doubled => exact ⟨_, split_doubled fuel rest, rfl⟩
  | bare name => exact ⟨_, split_bare fuel h.1 h.2, rfl⟩
  | braced name =>
    obtain ⟨hbrace, hmark⟩ := h
    have hsplit := split_closed fuel hbrace rest
    rw [braced_of_name hmark] at hsplit
    exact ⟨_, hsplit, rfl⟩
  | withDefault name default =>
    obtain ⟨hname, hdefault, hne, hmark⟩ := h
    have hbrace : '\x7d' ∉ name ++ defaultMark ++ default := by
      simp [hname, hdefault, defaultMark]
    have hsplit := split_closed fuel hbrace rest
    rw [braced_of_default hne hmark] at hsplit
    exact ⟨_, hsplit, rfl⟩

/-- One step: the value of a stretch that fits, and then the rest.  There is enough fuel left for
    the rest, because what is written for a stretch is never empty. -/
theorem join?_split_written (env : Environment) {s : Stretch} {rest : List Char}
    (h : s.Fits rest) {fuel : Nat} (hfuel : (s.written ++ rest).length ≤ fuel) :
    ∃ k, rest.length ≤ k ∧ join? env (split fuel (s.written ++ rest))
      = (s.piece.value? env).bind fun cs => (join? env (split k rest)).map (cs ++ ·) := by
  have hlength := List.length_pos_iff.2 h.written_ne_nil
  rw [List.length_append] at hfuel
  obtain ⟨k, rfl⟩ : ∃ k, fuel = k + 1 := ⟨fuel - 1, by omega⟩
  obtain ⟨ps, hsplit, hps⟩ := split_written env h k
  refine ⟨k, by omega, ?_⟩
  rw [hsplit, join?, hps]
  cases s.piece.value? env <;> rfl

end Piece

/-! ## All stretches -/

namespace Division

variable {env : Environment} {cs : List Char} {ss : List Stretch}

/-- One name without a value, and nothing is expanded, whatever came before it.  The pieces are
    joined from the left, but a missing value is handed through to the end. -/
theorem join?_of_unset (h : Division cs ss) {fuel : Nat} (hfuel : cs.length ≤ fuel)
    (hunset : ∃ s ∈ ss, s.Unset env) : Piece.join? env (Piece.split fuel cs) = none := by
  induction h generalizing fuel with
  | nil => simp at hunset
  | @cons s rest ss hfits _ ih =>
    obtain ⟨k, hk, hstep⟩ := Piece.join?_split_written env hfits hfuel
    rw [hstep]
    by_cases hs : s.Unset env
    · rw [Stretch.value?_piece_of_unset hs]
      rfl
    · have hrest : ∃ t ∈ ss, t.Unset env := by
        obtain ⟨t, ht, htunset⟩ := hunset
        rcases List.mem_cons.1 ht with rfl | ht
        · exact absurd htunset hs
        · exact ⟨t, ht, htunset⟩
      rw [Stretch.value?_piece hs, ih hk hrest]
      rfl

/-- If every reference has a value, the values are written in order.  They are not expanded
    again, whatever they hold. -/
theorem join?_of_set (h : Division cs ss) {fuel : Nat} (hfuel : cs.length ≤ fuel)
    (hset : ∀ s ∈ ss, ¬ s.Unset env) :
    Piece.join? env (Piece.split fuel cs) = some (ss.flatMap (Stretch.value env)) := by
  induction h generalizing fuel with
  | nil => exact Piece.join?_split_nil env fuel
  | @cons s rest ss hfits _ ih =>
    obtain ⟨hs, hrest⟩ := List.forall_mem_cons.1 hset
    obtain ⟨k, hk, hstep⟩ := Piece.join?_split_written env hfits hfuel
    rw [hstep, Stretch.value?_piece hs, ih hk hrest]
    rfl

end Division

/-! ## Every path has one division -/

/-- A dollar on its own is not the first of two. -/
theorem Stretch.not_plain_dollar {rest : List Char} : ¬ Plain ('$' :: rest) ['$'] := by
  rintro (hc | h)
  · exact hc rfl
  · exact (h '$' rfl).1 rfl

theorem Stretch.not_bare_brace {name rest text : List Char}
    (h : Text.Run Piece.isNameChar name) : name ++ rest ≠ '\x7b' :: text := by
  obtain ⟨hne, hall⟩ := h
  cases name with
  | nil => exact absurd rfl hne
  | cons d name =>
    intro heq
    exact Piece.ne_brace_of_isNameChar (hall d List.mem_cons_self) (List.cons.inj heq).1

/-- At one place of a path there are no two stretches that fit.  The first two characters decide
    the form, and a name or a default goes as far as it can. -/
theorem Stretch.Fits.unique {s s' : Stretch} {rest rest' : List Char} (h : s.Fits rest)
    (h' : s'.Fits rest') (heq : s.written ++ rest = s'.written ++ rest') : s = s' := by
  have hpiece : s.piece = s'.piece := by
    obtain ⟨ps, hsplit, -⟩ := Piece.split_written .empty h 0
    obtain ⟨ps', hsplit', -⟩ := Piece.split_written .empty h' 0
    rw [heq, hsplit'] at hsplit
    exact (List.cons.inj hsplit).1.symm
  -- the piece does not tell a doubled dollar from a single one, nor if a name has braces
  cases s <;> cases s' <;> simp only [piece, Piece.plain.injEq, Piece.reference.injEq, reduceCtorEq,
    and_true, and_false, Option.some.injEq] at hpiece
  case plain.plain => rw [hpiece]
  case plain.doubled text =>
    subst hpiece
    obtain rfl : rest = '$' :: rest' := (List.cons.inj heq).2
    exact absurd h not_plain_dollar
  case doubled.plain text =>
    subst hpiece
    obtain rfl : '$' :: rest = rest' := (List.cons.inj heq).2
    exact absurd h' not_plain_dollar
  case doubled.doubled => rfl
  case bare.bare => rw [hpiece]
  case bare.braced name name' =>
    exact absurd (List.cons.inj heq).2 (not_bare_brace h.1)
  case braced.bare name name' =>
    exact absurd (List.cons.inj heq).2.symm (not_bare_brace h'.1)
  case braced.braced => rw [hpiece]
  case withDefault.withDefault => rw [hpiece.1, hpiece.2]

/-- There is one way to divide a text: the character after a dollar sign decides the form of a
    stretch, and the form decides where it ends.  The induction is on the first division. -/
theorem Division.unique {cs : List Char} {ss ss' : List Stretch} (h : Division cs ss)
    (h' : Division cs ss') : ss = ss' := by
  induction h generalizing ss' with
  | nil =>
    generalize hcs : [] = cs at h'
    cases h' with
    | nil => rfl
    | cons hfits' _ => exact absurd (List.append_eq_nil_iff.1 hcs.symm).1 hfits'.written_ne_nil
  | @cons s rest ss hfits _ ih =>
    generalize hcs : s.written ++ rest = cs at h'
    cases h' with
    | nil => exact absurd (List.append_eq_nil_iff.1 hcs).1 hfits.written_ne_nil
    | cons hfits' hrest' =>
      obtain rfl := hfits.unique hfits' hcs
      obtain rfl := List.append_cancel_left hcs
      rw [ih hrest']

/-- Braces hold a name, or a name and a default.  The first mark divides them, unless it is at
    the start, where there would be no name before it. -/
theorem exists_fits_closed {inside : List Char} (h : '\x7d' ∉ inside) (rest : List Char) :
    ∃ s : Stretch, s.Fits rest ∧ s.written = '$' :: '\x7b' :: (inside ++ ['\x7d']) := by
  by_cases hmark : defaultMark <:+: inside → defaultMark <+: inside
  · exact ⟨.braced inside, ⟨h, hmark⟩, rfl⟩
  · rw [Classical.not_imp] at hmark
    obtain ⟨name, default, rfl, hname⟩ := exists_first_mark hmark.1
    have hne : name ≠ [] := by
      rintro rfl
      exact hmark.2 ⟨default, rfl⟩
    rw [List.mem_append, List.mem_append, not_or, not_or] at h
    exact ⟨.withDefault name default, ⟨h.1.1, h.2, hne, hname⟩, rfl⟩

/-- At every place of a path there is a stretch that fits.  After a dollar sign this goes by the
    next character, and a dollar sign that opens nothing stands for itself. -/
theorem exists_fits (c : Char) (cs : List Char) :
    ∃ (s : Stretch) (rest : List Char), s.Fits rest ∧ c :: cs = s.written ++ rest := by
  by_cases hc : c = '$'
  · subst hc
    cases cs with
    | nil => exact ⟨.plain ['$'], [], .dollar (by simp), rfl⟩
    | cons d cs =>
      by_cases hbrace : d = '\x7b'
      · subst hbrace
        by_cases hclosed : '\x7d' ∈ cs
        · obtain ⟨inside, rest, rfl, hinside⟩ := List.eq_append_cons_of_mem hclosed
          obtain ⟨s, hfits, hwritten⟩ := exists_fits_closed hinside rest
          exact ⟨s, rest, hfits, by simp [hwritten]⟩
        · exact ⟨.plain ['$', '\x7b'], cs, .brace hclosed, rfl⟩
      by_cases hname : Piece.isNameChar d = true
      · obtain ⟨name, rest, heq, hall, hstops⟩ := Text.eq_run_append Piece.isNameChar (d :: cs)
        have hne : name ≠ [] := by
          rintro rfl
          rw [List.nil_append] at heq
          have := hstops d (by rw [← heq]; rfl)
          rw [hname] at this
          cases this
        exact ⟨.bare name, rest, ⟨⟨hne, hall⟩, hstops⟩, by rw [heq]; rfl⟩
      by_cases hdollar : d = '$'
      · subst hdollar
        exact ⟨.doubled, cs, trivial, rfl⟩
      -- what comes after it gives the dollar sign no meaning
      · refine ⟨.plain ['$'], d :: cs, .dollar fun c hc => ?_, rfl⟩
        obtain rfl := Option.some.inj hc
        exact ⟨hdollar, hbrace, Bool.not_eq_true _ ▸ hname⟩
  · exact ⟨.plain [c], cs, .char hc, rfl⟩

/-- Every text can be divided.  The induction is on the length of what is left, since a stretch
    can be as long as a whole reference. -/
theorem exists_division (cs : List Char) : ∃ ss, Division cs ss := by
  induction h : cs.length using Nat.strong_induction_on generalizing cs with
  | h n ih =>
    cases cs with
    | nil => exact ⟨[], .nil⟩
    | cons c cs =>
      obtain ⟨s, rest, hfits, heq⟩ := exists_fits c cs
      have hlength := List.length_pos_iff.2 hfits.written_ne_nil
      have hshorter : rest.length < n := by
        rw [← h, heq, List.length_append]
        omega
      obtain ⟨ss, hrest⟩ := ih _ hshorter rest rfl
      exact ⟨s :: ss, heq ▸ .cons hfits hrest⟩

/-- Every text has one division, so its stretches can be spoken of without the way in which they
    were found. -/
theorem existsUnique_division (cs : List Char) : ∃! ss, Division cs ss := by
  obtain ⟨ss, h⟩ := exists_division cs
  exact ⟨ss, h, fun ss' h' => h'.unique h⟩

theorem division_of_no_dollar {cs : List Char} (h : '$' ∉ cs) :
    Division cs (cs.map fun c => .plain [c]) := by
  induction cs with
  | nil => exact .nil
  | cons c cs ih =>
    rw [List.mem_cons, not_or] at h
    have hfits : Stretch.Fits cs (.plain [c]) := .char fun hc => h.1 hc.symm
    exact .cons hfits (ih h.2)

/-- A tilde is a stretch of its own, so expanding variables leaves it at the start of the path
    where it was written. -/
theorem Division.tilde_value (env : Environment) {cs : List Char} {ss : List Stretch}
    (h : Division cs ss) (htilde : cs.head? = some '~') :
    ∃ after, ss.flatMap (Stretch.value env) = '~' :: after := by
  cases h with
  | nil => cases htilde
  | @cons s rest ss hfits hrest =>
    cases s with
    | plain text =>
      cases hfits with
      | char hc =>
        obtain rfl := Option.some.inj htilde
        exact ⟨_, rfl⟩
      | dollar | brace => simp [Stretch.written] at htilde
    | doubled | bare name | braced name | withDefault name default =>
      simp [Stretch.written] at htilde

end BranchProbe
