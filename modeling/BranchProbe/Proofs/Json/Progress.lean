/-
  What a lexeme leaves of a text.

  1. A lexeme leaves less than there was: `passText_length`, `NumberText.at?_length` and, for a key
     with its colon, `Syntax.keyAt_length`.  Spaces and the rest of a word leave no more.
  2. Whatever is read for its value can also be passed over, to the same place
     (`passText_of_readText`).  A pair of surrogates is one step of the reader and two of the one
     who passes, so the fuel of the latter is counted in the characters that are left.
-/
import BranchProbe.Json.Syntax
import Mathlib.Data.List.TakeDrop
import Mathlib.Data.List.TakeWhile

namespace BranchProbe.Json

/-! ## Spaces and words -/

theorem skipSpace_length (cs : List Char) (m : Mark) : (skipSpace cs m).1.length ≤ cs.length := by
  induction cs generalizing m with
  | nil => simp [skipSpace]
  | cons c cs ih =>
    have hrest := ih (m.past c)
    rw [skipSpace]
    split
    · rw [List.length_cons]
      omega
    · exact Nat.le_refl _

theorem readWord_length {es cs rest : List Char} {m stop : Mark}
    (h : readWord es cs m = .ok ((), rest, stop)) : rest.length ≤ cs.length := by
  induction es generalizing cs m with
  | nil =>
    cases h
    exact Nat.le_refl _
  | cons e es ih =>
    cases cs with
    | nil => simp [readWord] at h
    | cons c cs =>
      rw [readWord] at h
      split at h
      · have hrest := ih h
        rw [List.length_cons]
        omega
      · cases h

/-! ## Texts -/

/-- The digits of a hexadecimal escape are four characters. -/
theorem readHex_length {cs rest : List Char} {m stop : Mark} {n : Nat}
    (h : readHex cs m = .ok (n, rest, stop)) : rest.length < cs.length := by
  unfold readHex at h
  split at h
  · split at h
    · cases h
      simp only [List.length_cons]
      omega
    · cases h
  · split at h <;> cases h

/-- Passing an escape takes at least one character; this is where the scan of a text gets its
    progress from. -/
theorem passEscape_length {cs rest : List Char} {m stop : Mark}
    (h : passEscape cs m = .ok ((), rest, stop)) : rest.length < cs.length := by
  cases cs with
  | nil => simp [passEscape] at h
  | cons c cs =>
    rw [passEscape] at h
    rw [List.length_cons]
    split at h
    · cases h
      exact Nat.lt_succ_self _
    · split at h
      · cases hhex : readHex cs (m.past c) with
        | error f => simp [hhex, Except.map] at h
        | ok r =>
          obtain ⟨n, after, stop'⟩ := r
          have hlen := readHex_length hhex
          rw [hhex] at h
          cases h
          omega
      · cases h

/-- A text that is passed over leaves less than there was: it takes its closing quote at least.
    The scan of a key and of a value get their progress from it. -/
theorem passText_length {fuel : Nat} {cs rest : List Char} {m stop : Mark}
    (h : passText fuel cs m = .ok ((), rest, stop)) : rest.length < cs.length := by
  induction fuel generalizing cs m with
  | zero => simp [passText] at h
  | succ fuel ih =>
    cases cs with
    | nil => simp [passText] at h
    | cons c cs =>
      rw [passText] at h
      rw [List.length_cons]
      split at h
      · cases h
        exact Nat.lt_succ_self _
      split at h
      · cases hescape : passEscape cs (m.past c) with
        | error f => simp [hescape] at h
        | ok r =>
          obtain ⟨_, after, m'⟩ := r
          have hlen := passEscape_length hescape
          simp only [hescape] at h
          have hrest := ih h
          omega
      split at h
      · cases h
      · have hrest := ih h
        omega

/-- The mark between the two halves of a pair is read just where it stands. -/
theorem readPairMark_ok {c : Char} {cs rest : List Char} {m stop : Mark}
    (h : readPairMark c cs m = .ok ((), rest, stop)) : cs = c :: rest ∧ stop = m.past c := by
  unfold readPairMark at h
  split at h
  · cases h
  · split at h
    · next hc =>
      cases h
      exact ⟨by rw [hc], by rw [hc]⟩
    · cases h

/-- A hexadecimal escape that is read is passed over as one escape, or as the two of a pair. -/
theorem readUnicodeEscape_pass {cs rest : List Char} {m stop : Mark} {c : Char}
    (h : readUnicodeEscape cs m = .ok (c, rest, stop)) :
    (∃ n, readHex cs m = .ok (n, rest, stop))
    ∨ ∃ n n' after m', readHex cs m = .ok (n, '\\' :: 'u' :: after, m')
      ∧ readHex after ((m'.past '\\').past 'u') = .ok (n', rest, stop) := by
  unfold readUnicodeEscape at h
  split at h
  · cases h
  next n cs' m' hhex =>
  split at h
  · cases h
  split at h
  · cases h
    exact .inl ⟨n, hhex⟩
  split at h
  · cases h
  next after m'' hslash =>
  obtain ⟨rfl, rfl⟩ := readPairMark_ok hslash
  split at h
  · cases h
  next after m'' hu =>
  obtain ⟨rfl, rfl⟩ := readPairMark_ok hu
  split at h
  · cases h
  next n' after' m'' hhex' =>
  split at h
  · cases h
  · simp only [Except.ok.injEq, Prod.mk.injEq] at h
    obtain ⟨-, rfl, rfl⟩ := h
    exact .inr ⟨n, n', after, m', hhex, hhex'⟩

/-- A long escape is passed as far as its digits are read, whatever character they mean. -/
theorem passEscape_unicode {cs rest : List Char} {m stop : Mark} {n : Nat}
    (h : readHex cs (m.past 'u') = .ok (n, rest, stop)) :
    passEscape ('u' :: cs) m = .ok ((), rest, stop) := by
  have hu : shortEscape? 'u' = none := by decide
  simp [passEscape, hu, h, Except.map]

/-- An escape that is read is passed over as one escape, or as two. -/
theorem readEscape_pass {cs rest : List Char} {m stop : Mark} {c : Char}
    (h : readEscape cs m = .ok (c, rest, stop)) :
    passEscape cs m = .ok ((), rest, stop)
    ∨ ∃ after m', passEscape cs m = .ok ((), '\\' :: after, m')
      ∧ passEscape after (m'.past '\\') = .ok ((), rest, stop) := by
  cases cs with
  | nil => simp [readEscape] at h
  | cons e cs =>
    rw [readEscape] at h
    split at h
    · next c' hshort =>
      cases h
      exact .inl (by simp [passEscape, hshort])
    · split at h
      · next hu =>
        subst hu
        rcases readUnicodeEscape_pass h with ⟨n, hhex⟩ | ⟨n, n', after, m', hhex, hhex'⟩
        · exact .inl (passEscape_unicode hhex)
        · exact .inr ⟨_, m', passEscape_unicode hhex, passEscape_unicode hhex'⟩
      · cases h

theorem passText_escape {fuel : Nat} {cs rest : List Char} {m stop : Mark}
    (h : passEscape cs (m.past '\\') = .ok ((), rest, stop)) :
    passText (fuel + 1) ('\\' :: cs) m = passText fuel rest stop := by
  simp [passText, h]

/-- A text that is read can be passed over, to the same place.  The two scanners treat pairs of
    long escapes differently, one as one character and one as two, so the induction has to look
    two escapes ahead. -/
theorem passText_of_readText {fuel : Nat} {cs t rest : List Char} {m stop : Mark}
    (h : readText fuel cs m = .ok (t, rest, stop)) {fuel' : Nat} (hfuel : cs.length ≤ fuel') :
    passText fuel' cs m = .ok ((), rest, stop) := by
  induction fuel generalizing cs t m fuel' with
  | zero => simp [readText] at h
  | succ fuel ih =>
    cases cs with
    | nil => simp [readText] at h
    | cons c cs =>
      obtain ⟨k, rfl⟩ : ∃ k, fuel' = k + 1 := ⟨fuel' - 1, by simp at hfuel; omega⟩
      rw [List.length_cons] at hfuel
      rw [readText] at h
      split at h
      · next hquote =>
        cases h
        simp [passText, hquote]
      next hquote =>
      split at h
      · next hslash =>
        subst hslash
        split at h
        · cases h
        next c' after m' hescape =>
        split at h
        · cases h
        next tail r hread =>
        cases h
        rcases readEscape_pass hescape with hpass | ⟨cs₂, m₂, hpass, hpass'⟩
        · have hlen := passEscape_length hpass
          rw [passText_escape hpass]
          exact ih hread (by omega)
        · -- the second half of a pair of surrogates takes a step of its own
          have hlen := passEscape_length hpass
          have hlen' := passEscape_length hpass'
          rw [List.length_cons] at hlen
          obtain ⟨k, rfl⟩ : ∃ k', k = k' + 1 := ⟨k - 1, by omega⟩
          rw [passText_escape hpass, passText_escape hpass']
          exact ih hread (by omega)
      next hslash =>
      split at h
      · cases h
      next hlow =>
      split at h
      · cases h
      next tail r hread =>
      cases h
      rw [passText, if_neg hquote, if_neg hslash, if_neg hlow]
      exact ih hread (by omega)

/-- What cannot be passed over cannot be read, though the fault may be another one: the reader
    also looks at what an escape stands for. -/
theorem readText_error_of_passText {α : Type} {fuel : Nat} {cs : List Char} {m : Mark} {f : Fault}
    (hfuel : cs.length ≤ fuel) (h : passText fuel cs m = .error f)
    (g : List Char × List Char × Mark → α) : ∃ f', (readText fuel cs m).map g = .error f' := by
  cases hread : readText fuel cs m with
  | error f' => exact ⟨f', rfl⟩
  | ok r =>
    obtain ⟨t, rest, stop⟩ := r
    rw [passText_of_readText hread hfuel] at h
    cases h

/-! ## Numbers -/

namespace NumberText

open Numeral (digitRun)

/-- A run of digits and what follows it are the text. -/
theorem digitRun_length (cs : List Char) :
    (digitRun cs).1.length + (digitRun cs).2.length = cs.length := by
  rw [digitRun, List.span_eq_takeWhile_dropWhile, ← List.length_append,
    List.takeWhile_append_dropWhile]

/-- The whole part of a number takes at least one digit, which is where a number gets its
    progress from. -/
theorem wholeAt?_length {cs ds rest : List Char} {m stop : Mark}
    (h : wholeAt? cs m = .ok (ds, rest, stop)) : rest.length < cs.length := by
  unfold wholeAt? at h
  dsimp only at h
  split at h
  · split at h
    · split at h
      · cases h
      · cases h
        exact Nat.lt_succ_self _
    · cases h
      exact Nat.lt_succ_self _
  · have hlen := digitRun_length cs
    split at h
    · cases h
    · next hne =>
      have hpos : 0 < (digitRun cs).1.length := by
        rw [List.length_pos_iff]
        simpa using hne
      cases h
      omega

/-- The fraction may be missing, so it takes nothing or more; only the whole part is sure to take
    something. -/
theorem fractionAt?_length {cs rest : List Char} {m stop : Mark} {f : Option (List Char)}
    (h : fractionAt? cs m = .ok (f, rest, stop)) : rest.length ≤ cs.length := by
  unfold fractionAt? at h
  split at h
  · next after =>
    have hlen := digitRun_length after
    dsimp only at h
    split at h
    · cases h
    · cases h
      rw [List.length_cons]
      omega
  · cases h
    exact Nat.le_refl _

/-- The digits of an exponent, after its letter and perhaps a sign. -/
theorem exponentDigits_length {negative : Bool} {cs rest : List Char} {m stop : Mark}
    {e : Option (Bool × List Char)}
    (h : (if (digitRun cs).1.isEmpty then Except.error (unfinishedAt cs m)
      else .ok (some (negative, (digitRun cs).1), (digitRun cs).2, m.pastAll (digitRun cs).1))
        = .ok (e, rest, stop)) :
    rest.length ≤ cs.length := by
  have hlen := digitRun_length cs
  split at h
  · cases h
  · cases h
    omega

theorem exponentAt?_length {cs rest : List Char} {m stop : Mark}
    {e : Option (Bool × List Char)} (h : exponentAt? cs m = .ok (e, rest, stop)) :
    rest.length ≤ cs.length := by
  unfold exponentAt? at h
  split at h
  · cases h
    exact Nat.le_refl _
  · split at h
    · cases h
      exact Nat.le_refl _
    · dsimp only at h
      have hlen := exponentDigits_length h
      rw [List.length_cons]
      split at hlen <;> dsimp only at hlen
      · rw [List.length_cons]
        omega
      · rw [List.length_cons]
        omega
      · omega

/-- A number leaves less of the text than there was, since its whole part takes a digit and the
    other parts give nothing back. -/
theorem at?_length {cs rest : List Char} {m stop : Mark} {n : NumberText}
    (h : at? cs m = .ok (n, rest, stop)) : rest.length < cs.length := by
  simp only [at?, bind, Except.bind, pure, Except.pure] at h
  split at h
  · cases h
  next r hwhole =>
  split at h
  · cases h
  next r' hfraction =>
  split at h
  · cases h
  next r'' hexponent =>
  have h₁ := wholeAt?_length hwhole
  have h₂ := fractionAt?_length hfraction
  have h₃ := exponentAt?_length hexponent
  cases h
  -- a minus is one character more
  split at h₁ <;> dsimp only at h₁
  · rw [List.length_cons]
    omega
  · omega

end NumberText

/-! ## Keys -/

/-- A key with its colon leaves less of the text than there was, so the value after it is scanned
    with enough fuel. -/
theorem Syntax.keyAt_length {fuel : Nat} {cs rest : List Char} {m stop : Mark} {key : Key}
    (h : keyAt fuel cs m = (key, some (rest, stop))) : rest.length < cs.length := by
  unfold keyAt at h
  dsimp only at h
  split at h
  · simp at h
  next after m' hpass =>
  have hlen := passText_length hpass
  have hspace := skipSpace_length after m'
  split at h
  · simp at h
  next c cs' m'' hskip =>
  rw [hskip, List.length_cons] at hspace
  split at h
  · cases h
    omega
  · simp at h

end BranchProbe.Json
