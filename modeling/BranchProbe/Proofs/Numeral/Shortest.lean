/-
  The size of the shortest decimal.

  1. A decimal that stands for a number lies in the gap around it, so it is not zero and it is at
     most half a step above the number (`Decimal.Below`).
  2. `firstHit` gives such a decimal: a hit is one by the test of the grid.  When the grids run out
     it spells the number itself, cut below its leading digit, which is not zero since the
     exponent of that digit is right (`leadingExponent_le`).
  3. Zeros moved into the exponent change neither the value nor that it is not zero.
-/
import BranchProbe.Numeral.Shortest
import Mathlib.Tactic.Positivity
import Mathlib.Tactic.Linarith
import Mathlib.Tactic.Ring
import Mathlib.Tactic.FieldSimp
import Mathlib.Algebra.Order.Field.Power
import Mathlib.Data.Rat.Cast.Order

namespace BranchProbe.Numeral

/-! ## Powers of ten and grids -/

theorem powerOfTen_pos (k : Int) : 0 < (powerOfTen k).1 ∧ 0 < (powerOfTen k).2 :=
  ⟨Nat.pow_pos (by decide), Nat.pow_pos (by decide)⟩

/-- Numerator and denominator of a power of ten, one of them being 1. -/
theorem powerOfTen_eq (k : Int) : ((powerOfTen k).1 : ℚ) = 10 ^ k * (powerOfTen k).2 := by
  have hsum : (k.toNat : Int) = k + (-k).toNat := by omega
  have hpower : (10 : ℚ) ^ (k.toNat : Int) = 10 ^ k * 10 ^ ((-k).toNat : Int) := by
    rw [hsum, zpow_add₀ (by norm_num)]
  rw [zpow_natCast, zpow_natCast] at hpower
  simpa [powerOfTen] using hpower

namespace Gap

/-- The value of the upper end. -/
def top (g : Gap) : ℚ := g.high / g.den

/-- What stands for the value of the gap lies between its ends. -/
theorem le_of_covers {g : Gap} {n d : Nat} (h : g.covers n d = true) :
    g.low * d ≤ n * g.den ∧ n * g.den ≤ g.high * d := by
  rw [covers] at h
  split at h
  · simpa using h
  · have := (by simpa using h : g.low * d < n * g.den ∧ n * g.den < g.high * d)
    exact ⟨this.1.le, this.2.le⟩

/-- A point of the grid that is taken lies in the gap, so it is rounded to the value when it is
    read.  Only the two neighbours of the value are tried, and each is tested. -/
theorem covers_of_onGrid {tie : Tie} {g : Gap} {k : Int} {n : Nat}
    (h : g.onGrid tie k = some n) : g.covers (n * (powerOfTen k).1) (powerOfTen k).2 = true := by
  rw [onGrid] at h
  dsimp only at h
  generalize g.value * (powerOfTen k).2 / (g.den * (powerOfTen k).1) = floor at h
  -- of the two neighbours one is taken, after its test
  have htaken : (n = floor ∧ g.covers (floor * (powerOfTen k).1) (powerOfTen k).2 = true)
      ∨ (n = floor + 1
        ∧ g.covers ((floor + 1) * (powerOfTen k).1) (powerOfTen k).2 = true) := by
    cases tie <;> grind
  rcases htaken with ⟨rfl, hcovers⟩ | ⟨rfl, hcovers⟩
  · exact hcovers
  · exact hcovers

end Gap

/-! ## Decimals below the end of a gap -/

/-- The decimal is not zero, and not beyond `q`. -/
def Decimal.Below (d : Decimal) (q : ℚ) : Prop :=
  d.digits ≠ 0 ∧ (d.digits : ℚ) * 10 ^ d.exponent ≤ q

/-- A hit is a decimal in the gap, so it lies below the upper end of it.  This is the bound with
    which the printed text is read back without an overflow. -/
theorem Gap.below_of_onGrid {tie : Tie} {g : Gap} {k : Int} {n : Nat} (hlow : 0 < g.low)
    (hden : 0 < g.den) (h : g.onGrid tie k = some n) : Decimal.Below ⟨n, k⟩ g.top := by
  obtain ⟨hge, hle⟩ := g.le_of_covers (covers_of_onGrid h)
  obtain ⟨-, hq⟩ := powerOfTen_pos k
  constructor
  · rintro rfl
    have := Nat.mul_pos hlow hq
    simp at hge
    omega
  · have hle' : (n : ℚ) * (powerOfTen k).1 * g.den ≤ g.high * (powerOfTen k).2 := by
      exact_mod_cast hle
    rw [powerOfTen_eq] at hle'
    have hq' : (0 : ℚ) < (powerOfTen k).2 := by exact_mod_cast hq
    have hden' : (0 : ℚ) < g.den := by exact_mod_cast hden
    rw [top, le_div_iff₀ hden']
    refine le_of_mul_le_mul_right ?_ hq'
    calc (n : ℚ) * 10 ^ k * g.den * (powerOfTen k).2
        = n * (10 ^ k * (powerOfTen k).2) * g.den := by ring
      _ ≤ g.high * (powerOfTen k).2 := hle'

/-- The number itself, cut below a digit that it has, is a decimal below its gap. -/
theorem Gap.below_floor {g : Gap} {k : Int} (hden : 0 < g.den) (hvalue : g.value ≤ g.high)
    (hk : (10 : ℚ) ^ k * g.den ≤ g.value) :
    Decimal.Below ⟨g.value * (powerOfTen k).2 / (g.den * (powerOfTen k).1), k⟩ g.top := by
  obtain ⟨hp, hq⟩ := powerOfTen_pos k
  have hq' : (0 : ℚ) < (powerOfTen k).2 := by exact_mod_cast hq
  have hden' : (0 : ℚ) < g.den := by exact_mod_cast hden
  constructor
  -- a unit of the grid is not more than the value, so the floor is not zero
  · have hle : (g.den : ℚ) * (powerOfTen k).1 ≤ g.value * (powerOfTen k).2 := by
      rw [powerOfTen_eq]
      calc (g.den : ℚ) * (10 ^ k * (powerOfTen k).2) = 10 ^ k * g.den * (powerOfTen k).2 := by ring
        _ ≤ g.value * (powerOfTen k).2 := mul_le_mul_of_nonneg_right hk hq'.le
    have hle' : g.den * (powerOfTen k).1 ≤ g.value * (powerOfTen k).2 := by exact_mod_cast hle
    exact Nat.ne_of_gt (Nat.div_pos hle' (Nat.mul_pos hden hp))
  · have hfloor := Nat.div_mul_le_self (g.value * (powerOfTen k).2) (g.den * (powerOfTen k).1)
    dsimp only
    generalize g.value * (powerOfTen k).2 / (g.den * (powerOfTen k).1) = floor at *
    have hfloor' : (floor : ℚ) * (g.den * (powerOfTen k).1) ≤ g.value * (powerOfTen k).2 := by
      exact_mod_cast hfloor
    have hvalue' : (g.value : ℚ) ≤ g.high := by exact_mod_cast hvalue
    rw [powerOfTen_eq] at hfloor'
    rw [top, le_div_iff₀ hden']
    refine le_of_mul_le_mul_right ?_ hq'
    calc (floor : ℚ) * 10 ^ k * g.den * (powerOfTen k).2
        = floor * (g.den * (10 ^ k * (powerOfTen k).2)) := by ring
      _ ≤ g.value * (powerOfTen k).2 := hfloor'
      _ ≤ g.high * (powerOfTen k).2 := mul_le_mul_of_nonneg_right hvalue' hq'.le

/-- The grids from `count` digits on give a decimal below the end of the gap. -/
theorem Gap.below_firstHit (tie : Tie) {g : Gap} {leading : Int} (hlow : 0 < g.low)
    (hden : 0 < g.den) (hvalue : g.value ≤ g.high)
    (hleading : (10 : ℚ) ^ leading * g.den ≤ g.value) :
    ∀ fuel count, 1 ≤ count → (g.firstHit tie leading fuel count).Below g.top
  | 0, count, hcount => by
    have hk : (10 : ℚ) ^ (leading - count + 1) * g.den ≤ g.value := by
      have hfiner : (10 : ℚ) ^ (leading - count + 1) ≤ 10 ^ leading :=
        zpow_le_zpow_right₀ (by norm_num) (by omega)
      exact (mul_le_mul_of_nonneg_right hfiner (by positivity)).trans hleading
    exact below_floor hden hvalue hk
  | fuel + 1, count, hcount => by
    rw [firstHit]
    split
    · next n hn => exact below_of_onGrid hlow hden hn
    · exact below_firstHit tie hlow hden hvalue hleading fuel (count + 1) (by omega)

/-- Dropping zeros at the end changes no bound, since the decimal stays the same number. -/
theorem Decimal.Below.trimZeros {q : ℚ} : ∀ (fuel : Nat) {d : Decimal}, d.Below q →
    (d.trimZeros fuel).Below q
  | 0, _, h => h
  | fuel + 1, d, h => by
    rw [Decimal.trimZeros]
    split
    · next hzero =>
      obtain ⟨hne, hmod⟩ := hzero
      obtain ⟨n, hn⟩ : 10 ∣ d.digits := Nat.dvd_of_mod_eq_zero hmod
      have hquotient : d.digits / 10 = n := by omega
      have hn' : n ≠ 0 := by
        rintro rfl
        exact hne hn
      refine Below.trimZeros fuel ⟨by rw [hquotient]; exact hn', ?_⟩
      have hsame : (n : ℚ) * 10 ^ (d.exponent + 1) = d.digits * 10 ^ d.exponent := by
        rw [hn, zpow_add_one₀ (by norm_num)]
        push_cast
        ring
      rw [hquotient, hsame]
      exact h.2
    · exact h

/-! ## The leading digit -/

/-- The number of steps by which a fraction is scaled is enough to bring it up to one. -/
theorem le_scaleSteps : ∀ {fuel n d : Nat}, d ≤ n * 10 ^ fuel → d ≤ n * 10 ^ scaleSteps fuel n d
  | 0, _, _, h => h
  | fuel + 1, n, d, h => by
    rw [scaleSteps]
    split
    · next hge => simpa using hge
    · rw [Nat.pow_succ, Nat.mul_comm (10 ^ _), ← Nat.mul_assoc]
      exact le_scaleSteps (by rwa [Nat.mul_assoc, ← Nat.pow_succ'])

/-- The power of ten of the leading digit is not beyond the number.  It is found by scaling up or
    down step by step, and each step keeps the bound. -/
theorem leadingExponent_le {n d : Nat} (hd : 0 < d) (h : d ≤ n * 10 ^ 400) :
    (10 : ℚ) ^ leadingExponent n d * d ≤ n := by
  rw [leadingExponent]
  split
  · next hge =>
    obtain ⟨l, hl⟩ := Nat.exists_eq_add_of_lt (Nat.length_toDigits_pos (b := 10) (n := n / d))
    rw [Nat.zero_add] at hl
    have hpower : 10 ^ l ≤ n / d := by
      rcases Nat.eq_zero_or_pos l with rfl | hpos
      · exact Nat.div_pos hge hd
      · by_contra hlt
        have := (Nat.length_toDigits_le_iff (b := 10) (by decide) hpos).2 (Nat.not_le.1 hlt)
        omega
    have hle : 10 ^ l * d ≤ n := (Nat.le_div_iff_mul_le hd).1 hpower
    have hcount : ((Nat.toDigits 10 (n / d)).length : Int) - 1 = l := by omega
    rw [hcount, zpow_natCast]
    exact_mod_cast hle
  · have hsteps := le_scaleSteps h
    have hsteps' : (d : ℚ) ≤ n * 10 ^ scaleSteps 400 n d := by exact_mod_cast hsteps
    rw [zpow_neg, zpow_natCast, inv_mul_le_iff₀ (by positivity), mul_comm]
    exact hsteps'

/-! ## Magnitudes -/

theorem Magnitude.top_gap (m : Magnitude) :
    m.gap.top = (m.significand + 1 / 2) * 2 ^ m.exponent := by
  have hexp : m.exponent = m.exponent.toNat - (-m.exponent).toNat := by omega
  have hpower : (2 : ℚ) ^ m.exponent = 2 ^ m.exponent.toNat / 2 ^ (-m.exponent).toNat := by
    conv_lhs => rw [hexp]
    rw [zpow_sub₀ (by norm_num), zpow_natCast, zpow_natCast]
  simp only [Gap.top, gap, den, Nat.pow_eq]
  rw [hpower]
  push_cast
  field_simp
  ring

/-- Three factors 2 are less than one factor 10. -/
theorem pow_two_le_pow_ten {j k : Nat} (h : j ≤ 3 * k) : 2 ^ j ≤ 10 ^ k :=
  calc 2 ^ j ≤ 2 ^ (3 * k) := Nat.pow_le_pow_right (by decide) h
    _ = (2 ^ 3) ^ k := Nat.pow_mul 2 3 k
    _ ≤ 10 ^ k := Nat.pow_le_pow_left (by decide) k

/-- The shortest decimal of a number other than zero is not zero, and beyond the number by half a
    step at most. -/
theorem Magnitude.below_shortest (tie : Tie) {m : Magnitude} (hsig : m.significand ≠ 0)
    (hexp : -1074 ≤ m.exponent) :
    (m.shortest tie).Below ((m.significand + 1 / 2) * 2 ^ m.exponent) := by
  have hscale : 0 < Nat.pow 2 m.exponent.toNat := Nat.pow_pos (by decide)
  have hden : 0 < m.gap.den := Nat.mul_pos (by decide) (Nat.pow_pos (by decide))
  have hlow : 0 < m.gap.low := by
    refine Nat.mul_pos ?_ hscale
    split <;> omega
  have hvalue : m.gap.value ≤ m.gap.high := Nat.mul_le_mul_right _ (by omega)
  have hsteps : m.gap.den ≤ m.gap.value * 10 ^ 400 := by
    have hnum : 4 ≤ m.gap.value := by
      have : 4 * 1 * 1 ≤ m.gap.value :=
        Nat.mul_le_mul (Nat.mul_le_mul_left 4 (Nat.pos_of_ne_zero hsig)) hscale
      exact this
    have hpower : Nat.pow 2 (-m.exponent).toNat ≤ 10 ^ 400 := pow_two_le_pow_ten (by omega)
    exact Nat.mul_le_mul hnum hpower
  have hleading := leadingExponent_le hden hsteps
  rw [shortest, if_neg hsig, ← top_gap]
  exact (Gap.below_firstHit tie hlow hden hvalue hleading 17 1 (Nat.le_refl 1)).trimZeros 20

/-- The magnitudes of the floats: 53 bits, the exponents of a float, and only the least significand
    of all is a power of two. -/
theorem magnitude_bounds {bits : Nat} {negative : Bool} {m : Magnitude}
    (h : shapeOfBits bits = .finite negative m) :
    m.significand < 2 ^ 53 ∧ -1074 ≤ m.exponent ∧ m.exponent ≤ 971
      ∧ (m.isPower = true → m.significand = 2 ^ 52) := by
  rw [shapeOfBits] at h
  have hfraction : bits % Nat.pow 2 52 < 2 ^ 52 := Nat.mod_lt _ (by decide)
  have hexponent : bits / Nat.pow 2 52 % 2048 < 2048 := Nat.mod_lt _ (by decide)
  split at h
  · split at h <;> nomatch h
  · split at h
    · obtain ⟨-, rfl⟩ := Shape.finite.inj h
      dsimp only
      exact ⟨by omega, by omega, by omega, by simp⟩
    · obtain ⟨-, rfl⟩ := Shape.finite.inj h
      have hpower : Nat.pow 2 52 = 2 ^ 52 := rfl
      dsimp only
      refine ⟨by omega, by omega, by omega, fun h => ?_⟩
      simp only [Bool.and_eq_true, beq_iff_eq] at h
      omega

end BranchProbe.Numeral
