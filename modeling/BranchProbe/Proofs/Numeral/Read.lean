/-
  What decimal texts are read as.

  1. `size?_eq_ok_iff`: the texts of machine words are runs of decimal digits, with or without a plus
     sign, of a number below `2 ^ 64`; that number is read, whatever zeros lead it.
  2. `roundsTo_ofScientific`: whole digits over a power of ten are read as the nearest float.  There
     are two ways to it.  A short run of digits and a small power are floats themselves, and one
     division rounds their quotient.  Anything else is divided in whole numbers and rounded then.
     Both end in the one rounding of `Nearest`, so there is never a second one on top of it.
  3. `roundsTo_nearest` is the same for digits around a decimal point.  The guards against exponents
     of any size do nothing where no exponent is written.
-/
import BranchProbe.Numeral.Read
import BranchProbe.Proofs.Numeral.Nearest
import Mathlib.Data.List.TakeWhile

namespace BranchProbe.Numeral

open Float.Model Float.Model.UnpackedFloat

/-! ## Machine words -/

/-- The text is this number below `2 ^ 64`, in decimal digits with or without a plus sign. -/
def IsSize (s : String) (n : Nat) : Prop :=
  ∃ ds : List Char, (s.toList = ds ∨ s.toList = '+' :: ds) ∧ ds ≠ []
    ∧ (∀ c ∈ ds, isDecimal c = true) ∧ naturalOf ds = n ∧ n < 2 ^ 64

/-- The whole of a run of digits is scanned, and nothing is left. -/
theorem digitRun_eq_iff {cs ds : List Char} :
    digitRun cs = (ds, []) ↔ cs = ds ∧ ∀ c ∈ ds, isDecimal c = true := by
  rw [digitRun, List.span_eq_takeWhile_dropWhile, Prod.mk.injEq]
  constructor
  · rintro ⟨hrun, hrest⟩
    have hall := List.dropWhile_eq_nil_iff.1 hrest
    obtain rfl : cs = ds := by rw [← hrun, List.takeWhile_eq_self_iff.2 hall]
    exact ⟨rfl, hall⟩
  · rintro ⟨rfl, hall⟩
    exact ⟨List.takeWhile_eq_self_iff.2 hall, List.dropWhile_eq_nil_iff.2 hall⟩

/-- The digits of a text, without a plus sign before a further character.  A plus sign alone stays,
    and is no digit. -/
def unsignedPart : List Char → List Char
  | '+' :: c :: rest => c :: rest
  | cs => cs

/-- Nothing is left only of the empty text, since a sign is dropped only before a further
    character. -/
theorem unsignedPart_eq_nil {cs : List Char} (h : unsignedPart cs = []) : cs = [] := by
  unfold unsignedPart at h
  split at h
  · cases h
  · exact h

/-- Just the runs of digits are what is left of a text that is a number, with or without its sign. -/
theorem unsignedPart_eq_iff {cs ds : List Char} (hne : ds ≠ [])
    (hall : ∀ c ∈ ds, isDecimal c = true) :
    unsignedPart cs = ds ↔ cs = ds ∨ cs = '+' :: ds := by
  have hplus : ∀ rest, ds ≠ '+' :: rest := by
    rintro rest rfl
    exact absurd (hall '+' List.mem_cons_self) (by decide)
  unfold unsignedPart
  split
  · next c rest =>
    constructor
    · rintro rfl
      exact .inr rfl
    · rintro (h | h)
      · exact absurd h.symm (hplus _)
      · exact List.tail_eq_of_cons_eq h
  · next hnot =>
    constructor
    · exact .inl
    · rintro (h | rfl)
      · exact h
      · obtain ⟨c, rest, rfl⟩ := List.exists_cons_of_ne_nil hne
        exact absurd rfl (hnot c rest)

/-- A text that is not empty is read from what is left of it without its sign. -/
theorem size?_eq {s : String} (hne : s.toList ≠ []) :
    size? s = if naturalOf (digitRun (unsignedPart s.toList)).1 ≥ 2 ^ 64 then .error .tooLarge
      else if (digitRun (unsignedPart s.toList)).2.isEmpty then
        .ok (naturalOf (digitRun (unsignedPart s.toList)).1)
      else .error .invalidDigit := by
  unfold size?
  cases hcs : s.toList with
  | nil => exact absurd hcs hne
  | cons c cs => rfl

/-- A text is read as a machine word just if it is one.  This pins the reader: nothing but digits
    after an optional sign is accepted, and no number that does not fit in 64 bits. -/
theorem size?_eq_ok_iff {s : String} {n : Nat} : size? s = .ok n ↔ IsSize s n := by
  constructor
  · intro h
    have hne : s.toList ≠ [] := by
      intro hnil
      rw [size?, hnil] at h
      cases h
    rw [size?_eq hne] at h
    split at h
    · cases h
    next hsmall =>
    split at h
    · next hempty =>
      have hrest := List.isEmpty_iff.1 hempty
      obtain ⟨hpart, hall⟩ := digitRun_eq_iff.1 (Prod.ext rfl hrest)
      have hdigits : (digitRun (unsignedPart s.toList)).1 ≠ [] := fun hnil =>
        hne (unsignedPart_eq_nil (hpart.trans hnil))
      exact ⟨_, (unsignedPart_eq_iff hdigits hall).1 hpart, hdigits, hall, Except.ok.inj h,
        Except.ok.inj h ▸ not_le.1 hsmall⟩
    · cases h
  · rintro ⟨ds, hform, hdigits, hall, rfl, hlt⟩
    have hne : s.toList ≠ [] := by
      rcases hform with hform | hform <;> simp [hform, hdigits]
    have hpart := (unsignedPart_eq_iff hdigits hall).2 hform
    have hrun : digitRun ds = (ds, []) := digitRun_eq_iff.2 ⟨rfl, hall⟩
    rw [size?_eq hne, hpart, hrun]
    exact (if_neg (not_le.2 hlt)).trans (if_pos rfl)

/-! ## Decimals -/

/-- Whole numbers below `2 ^ 53` are floats.  They are rounded like any other number, but a
    multiple of the last place that is at hand is the nearest one. -/
theorem stands_toFloat {m : Nat} (hm : m < 2 ^ 53) : Stands m.toUInt64.toFloat m := by
  have hword : m.toUInt64.toNat = m := by
    rw [Nat.toUInt64, UInt64.toNat_ofNat', Nat.mod_eq_of_lt (by omega)]
  have hround : RoundsTo ((m : Int) * 2 ^ (0 : Int)) m.toUInt64.toFloat := by
    have hnormalize := roundsTo_normalize m.toUInt64.toNat 0 .positive
    rw [hword] at hnormalize
    rw [UInt64.toFloat, Float.Model.ofUInt64, UnpackedFloat.ofUInt64, UnpackedFloat.ofNat,
      UnpackedFloat.ofInt, hword]
    exact hnormalize
  have hstands := hround.exact (by decide) (by decide) (by
    rw [Int.cast_natCast, Nat.abs_cast]
    exact_mod_cast hm)
  simpa using hstands

/-- The powers of ten of the table are floats. -/
theorem stands_table (k : Fin 23) :
    Stands Float.exactlyRepresentablePowersOfTen[k] (10 ^ k.val) := by
  obtain ⟨m, e, hpos, hunpack, -, -, hvalue⟩ := exists_finite_table k
  have hstands := stands_finite hunpack
  rwa [signed, hvalue] at hstands

/-- A number that is smaller than any float is rounded to zero without a division. -/
theorem tiny_quotient {m k : Nat} (hk : 2 ^ 11 + m.log2 < k) :
    |(m : ℚ) / 10 ^ k| < 2 ^ (-1075 : Int) := by
  have hm : (m : ℚ) < 2 ^ (m.log2 + 1) := by exact_mod_cast Nat.lt_log2_self
  have hten : (2 : ℚ) ^ k ≤ 10 ^ k := pow_le_pow_left₀ (by norm_num) (by norm_num) k
  rw [abs_of_nonneg (by positivity)]
  calc (m : ℚ) / 10 ^ k ≤ m / 2 ^ k := div_le_div_of_nonneg_left (by positivity) (by positivity) hten
    _ < 2 ^ (m.log2 + 1) / 2 ^ k := div_lt_div_of_pos_right hm (by positivity)
    _ = 2 ^ ((m.log2 + 1 : Int) - k) := by
      rw [zpow_sub₀ (by norm_num), zpow_natCast]
      norm_cast
    _ ≤ 2 ^ (-1075 : Int) := zpow_le_zpow_right₀ (by norm_num) (by omega)

/-- Digits that do not go together with the powers of the table are multiplied or divided as whole
    numbers, and rounded once. -/
theorem roundsTo_model_ofScientific {m k : Nat} (hm : m ≠ 0) :
    RoundsTo (m / 10 ^ k) (.ofModel (Float.Model.ofScientific m (-k : Int))) := by
  have hpos : 0 < m := Nat.pos_of_ne_zero hm
  rw [Float.Model.ofScientific, UnpackedFloat.ofScientific, dif_neg hm,
    if_neg (show ¬ (-k : Int) > 2 ^ 11 by omega)]
  rcases Nat.lt_or_ge (2 ^ 11 + m.log2) k with htiny | hlarge
  · rw [if_pos (show (-k : Int) < -(2 ^ 11 + m.log2) by omega)]
    exact roundsTo_tiny (stands_pack_zero .positive) (tiny_quotient htiny)
  rw [if_neg (show ¬ (-k : Int) < -(2 ^ 11 + m.log2) by omega)]
  rcases Nat.eq_zero_or_pos k with rfl | hfraction
  · rw [if_pos (show (0 : Int) ≤ -(0 : Nat) by omega)]
    have hlog : 52 ≤ (m <<< 53 * 10 ^ 0).log2 := by
      have hwide := log2_shiftLeft_ge hm 53
      rw [Nat.pow_zero, Nat.mul_one]
      omega
    have hvalue : (m : ℚ) / (10 : ℚ) ^ 0
        = ((m <<< 53 : Nat) : ℚ) * 2 ^ (-53 : Int) * (((10 ^ 0 : Nat) : ℚ) * 2 ^ (0 : Int)) := by
      have hshift := value_shiftLeft m 53
      rw [zpow_zero, pow_zero, pow_zero, Nat.cast_one, mul_one, mul_one, div_one]
      exact hshift.symm
    rw [hvalue]
    exact roundsTo_mul_finite .positive .positive _ _ (.inl hlog)
  · rw [if_neg (show ¬ (0 : Int) ≤ -k by omega)]
    have hvalue : (m : ℚ) / (10 : ℚ) ^ k
        = (m : ℚ) * 2 ^ (0 : Int) / (((10 ^ k : Nat) : ℚ) * 2 ^ (0 : Int)) := by
      rw [zpow_zero, mul_one, mul_one, Nat.cast_pow, Nat.cast_ofNat]
    -- the exponent of ten is written as that of a negation
    have hround : ∀ j, j = k → ∀ hten : 0 < 10 ^ j, RoundsTo (m / (10 : ℚ) ^ k)
        (.ofModel (.pack (UnpackedFloat.div Format.binary64 (.finite .positive m 0 hpos)
          (.finite .positive (10 ^ j) 0 hten)))) := by
      rintro j rfl hten
      rw [hvalue]
      exact roundsTo_div_finite .positive .positive hpos hten
    exact hround _ (by omega) _

/-- Digits over a power of ten are the nearest float.  Where both are floats themselves, one operation
    on floats rounds the exact quotient; there is no rounding before it. -/
theorem roundsTo_ofScientific {m k : Nat} {s : Bool} (hm : m ≠ 0) (hs : s = true ∨ k = 0) :
    RoundsTo (m / 10 ^ k) (Float.ofScientific m s k) := by
  have hm' : (m : ℚ) ≠ 0 := by exact_mod_cast hm
  rw [Float.ofScientific]
  split
  · next hfast =>
    have hdigits := stands_toFloat hfast.1
    have hpower := stands_table ⟨k, by omega⟩
    dsimp only
    split
    · exact roundsTo_div hdigits hpower hm' (by positivity)
    · next hs' =>
      obtain rfl : k = 0 := hs.resolve_left hs'
      have hround := roundsTo_mul hdigits hpower hm' (by positivity)
      rw [div_eq_mul_inv, pow_zero, inv_one]
      rwa [pow_zero] at hround
  · have hexponent : (if s then Int.negOfNat k else Int.ofNat k) = (-k : Int) := by
      rcases hs with rfl | rfl
      · exact Int.negOfNat_eq
      · cases s <;> rfl
    dsimp only
    rw [hexponent]
    exact roundsTo_model_ofScientific hm

/-- Digits around a decimal point are read as the nearest float to the number that they write. -/
theorem roundsTo_nearest (whole fraction : List Char) :
    RoundsTo (naturalOf (whole ++ fraction) / 10 ^ fraction.length) (nearest whole fraction 0) := by
  unfold nearest
  dsimp only
  split
  · next hzero =>
    rw [hzero, Nat.cast_zero, zero_div]
    exact roundsTo_zero stands_zero
  next hne =>
  rw [if_neg (by omega), if_neg (by omega)]
  have hlength : (0 - (fraction.length : Int)).natAbs = fraction.length := by omega
  rw [hlength]
  refine roundsTo_ofScientific hne ?_
  rcases Nat.eq_zero_or_pos fraction.length with hnone | hpos
  · exact .inr hnone
  · exact .inl (decide_eq_true (by omega))

end BranchProbe.Numeral
