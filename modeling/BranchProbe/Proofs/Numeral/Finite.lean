/-
  Which floats are finite, and that moving one by one keeps it so.

  1. `unpack_cases`: a float is finite unless its exponent bits are all set, so just if it has a
     finite `shape` and just if a document has a word for it.
  2. `two_mul_roundedMantissa_le` is the crux: a number is rounded up by half a unit of the last
     place at most.  So it takes half a step above the largest float (`halfAbove`) to carry a
     number over the last exponent, and `isFinite_round` asks for no more than that.
  3. The largest float and one more lies below that bound; `isFinite_add_ofInt` goes through the
     kinds of floats.
-/
import BranchProbe.Numeral.Text
import BranchProbe.Proofs.Numeral.Rounding

namespace BranchProbe.Numeral

open Float.Model Float.Model.UnpackedFloat

/-! ## Finite floats -/

/-- What is unpacked is finite unless its exponent bits are all set, and then it has bounds: it has 53
    bits unless its exponent is the least one. -/
theorem unpack_cases (b : BitVec Format.binary64.numBits) :
    (unpackExponent b = -1#11 ∧ (UnpackedFloat.unpack Format.binary64 b).isFinite = false)
      ∨ (unpackExponent b ≠ -1#11 ∧ ((∃ s, UnpackedFloat.unpack Format.binary64 b = .zero s)
        ∨ ∃ s m e hpos, UnpackedFloat.unpack Format.binary64 b = .finite s m e hpos
          ∧ m < 2 ^ 53 ∧ -1074 ≤ e ∧ e ≤ 971 ∧ (e = -1074 ∨ 2 ^ 52 ≤ m))) := by
  have hmantissa : (unpackMantissa b).toNat < 2 ^ 52 := (unpackMantissa b).isLt
  have hexponent : (unpackExponent b).toNat < 2 ^ 11 := (unpackExponent b).isLt
  by_cases hones : unpackExponent b = -1#11
  · refine .inl ⟨hones, ?_⟩
    show UnpackedFloat.isFinite (if unpackExponent b = -1#11 then _ else _) = false
    rw [if_pos hones]
    split <;> rfl
  refine .inr ⟨hones, ?_⟩
  have hne : (unpackExponent b).toNat ≠ 2047 := fun hnat => hones (BitVec.eq_of_toNat_eq hnat)
  by_cases hzero : unpackExponent b = 0#11
  · by_cases hnone : unpackMantissa b = 0#52
    · exact .inl ⟨_, (if_neg hones).trans ((if_pos hzero).trans (dif_pos hnone))⟩
    · -- a subnormal number has the least exponent
      have hnat : (unpackExponent b).toNat = 0 := by rw [hzero]; rfl
      exact .inr ⟨_, (unpackMantissa b).toNat, (unpackExponent b).toNat - (1023 + 52) + 1, _,
        (if_neg hones).trans ((if_pos hzero).trans (dif_neg hnone)), by omega, by omega, by omega,
        .inl (by omega)⟩
  · have hleading := toNat_leading (unpackMantissa b)
    have hne' : (unpackExponent b).toNat ≠ 0 := fun hnat => hzero (BitVec.eq_of_toNat_eq hnat)
    exact .inr ⟨_, (1#1 ++ unpackMantissa b).toNat, (unpackExponent b).toNat - (1023 + 52), _,
      (if_neg hones).trans (if_neg hzero), by omega, by omega, by omega, .inr (by omega)⟩

/-- A float is finite just if its exponent bits are not all ones; with all ones it is an infinity
    or no number, and these are the only ones. -/
theorem isFinite_unpack (b : BitVec Format.binary64.numBits) :
    (UnpackedFloat.unpack Format.binary64 b).isFinite = true ↔ unpackExponent b ≠ -1#11 := by
  rcases unpack_cases b with ⟨hones, hb⟩ | ⟨hones, ⟨s, hb⟩ | ⟨s, m, e, hpos, hb, -⟩⟩
  · rw [hb]
    exact iff_of_false Bool.false_ne_true (not_not_intro hones)
  · rw [hb]
    exact iff_of_true rfl hones
  · rw [hb]
    exact iff_of_true rfl hones

/-- The shape of a float is finite just if the float is.  The printer goes by the shape, so this
    is how the printed form is known to be a number. -/
theorem isFinite_iff_shape (x : Float) :
    x.isFinite = true ↔ ∃ negative m, shape x = .finite negative m := by
  have hexponent : (@unpackExponent Format.binary64 x.toBits.toBitVec).toNat
      = x.toBits.toNat / 2 ^ 52 % 2048 := by
    simp [unpackExponent, Nat.shiftRight_eq_div_pow]
  have hones : @unpackExponent Format.binary64 x.toBits.toBitVec = -1#11
      ↔ x.toBits.toNat / Nat.pow 2 52 % 2048 = 2047 := by
    rw [Nat.pow_eq, ← hexponent]
    exact BitVec.toNat_inj.symm
  have hfinite : x.isFinite = true ↔ _ := isFinite_unpack x.toBits.toBitVec
  rw [hfinite, Ne, hones, shape, shapeOfBits]
  split
  · next h => split <;> simp [h]
  · next h => split <;> simp [h]

/-- A document has a word for the finite floats only. -/
theorem documentText?_isSome (x : Float) : (documentText? x).isSome = x.isFinite := by
  rw [Bool.eq_iff_iff, isFinite_iff_shape, documentText?]
  cases shape x <;> simp

/-! ## Rounding below the overflow -/

/-- What is packed with an exponent below those of the overflow is finite, whether it has its
    leading bit or not: only exponent bits that are all ones make an infinity. -/
theorem isFinite_pack (s : Sign) {m : Nat} {e : Int} (hpos : 0 < m) (h : e < 972) :
    (Float.Model.pack (.finite s m e hpos)).isFinite = true := by
  show (UnpackedFloat.unpack Format.binary64
    (UnpackedFloat.pack Format.binary64 (.finite s m e hpos))).isFinite = true
  rw [isFinite_unpack, pack_finite s hpos h]
  split
  · rw [unpackExponent_packComponents]
    intro hones
    have hnat : (BitVec.ofNat 11 (e + 1023 + 52).toNat).toNat = 2047 := by
      rw [hones]
      rfl
    rw [BitVec.toNat_ofNat] at hnat
    omega
  · rw [unpackExponent_packComponents]
    decide

theorem isFinite_pack_zero (s : Sign) : (Float.Model.pack (.zero s)).isFinite = true := by
  cases s <;> decide

theorem isFinite_pack_infinity (s : Sign) :
    (Float.Model.pack (.infinity s)).isFinite = false := by
  cases s <;> decide

theorem isFinite_pack_notANumber : (Float.Model.pack .notANumber).isFinite = false := by decide

/-- A number that is not carried over the last exponent is packed as a finite float. -/
theorem isFinite_roundWithAccuracy (s : Sign) {m : Nat} {e e₁ : Int} {em : ExtendedMantissa}
    (hshift : shiftToTargetExponent Format.binary64 m e .exact = (em, e₁)) (he : e₁ < 972)
    (hcarry : em.roundedMantissa.log2 + e₁ < 1024) :
    (Float.Model.pack (roundWithAccuracy Format.binary64 s m e .exact)).isFinite = true := by
  rw [roundWithAccuracy, hshift]
  dsimp only
  by_cases hzero : (shiftToTargetExponent Format.binary64 em.roundedMantissa e₁ .exact).1.mantissa
      = 0
  · rw [dif_pos hzero]
    exact isFinite_pack_zero s
  · rw [dif_neg hzero]
    apply isFinite_pack
    rw [shiftToTargetExponent, shiftToExponent]
    dsimp only
    rw [targetExponent_totalExponent]
    omega

/-- A number is rounded to the nearest one, so up by half a unit of the last place at most. -/
theorem two_mul_roundedMantissa_le (m k : Nat) :
    2 * (ExtendedMantissa.ofMantissaAndAccuracy m .exact >>> (k + 1)).roundedMantissa
      ≤ m / 2 ^ k + 1 := by
  have hnear := ((holds_exact m).shiftRight (k + 1)).near
  generalize (ExtendedMantissa.ofMantissaAndAccuracy m .exact >>> (k + 1)).roundedMantissa = r at *
  have hunit : (0 : ℚ) < 2 ^ k := by positivity
  have hup : (2 * r - 1 : ℚ) ≤ m / 2 ^ k := by
    rw [pow_succ, ← div_div] at hnear
    linarith [(abs_le.1 hnear).2]
  rcases Nat.eq_zero_or_pos r with rfl | hpos
  · exact Nat.zero_le _
  · rw [le_div_iff₀ hunit] at hup
    have hcut : (2 * r - 1) * 2 ^ k ≤ m := by
      have hcast : (((2 * r - 1) * 2 ^ k : Nat) : ℚ) ≤ m := by
        rw [Nat.cast_mul, Nat.cast_sub (by omega)]
        push_cast
        exact hup
      exact_mod_cast hcast
    have := (Nat.le_div_iff_mul_le (Nat.two_pow_pos k)).2 hcut
    omega

/-- A number below `2 ^ 1024` has its leading bit below the overflow, for that bit alone is at
    most the number. -/
theorem log2_add_lt {m : Nat} {e : Int} (hm : m ≠ 0) (h : (m : ℚ) * 2 ^ e < overflow) :
    m.log2 + e < 1024 := by
  have hlow : (2 : ℚ) ^ (m.log2 : Int) ≤ m := by
    rw [zpow_natCast]
    exact_mod_cast Nat.log2_self_le hm
  have hpower : (2 : ℚ) ^ (m.log2 + e) < 2 ^ (1024 : Int) :=
    calc (2 : ℚ) ^ (m.log2 + e) = 2 ^ (m.log2 : Int) * 2 ^ e := zpow_add₀ (by norm_num) _ _
      _ ≤ m * 2 ^ e := mul_le_mul_of_nonneg_right hlow (by positivity)
      _ < 2 ^ (1024 : Int) := h
  exact (zpow_lt_zpow_iff_right₀ (by norm_num : (1 : ℚ) < 2)).1 hpower

/-- Half a step above the largest float: what lies below is rounded to a float. -/
def halfAbove : ℚ := (2 ^ 54 - 1) * 2 ^ (970 : Int)

/-- Half a unit above the largest float is still below the first power of two that overflows. -/
theorem halfAbove_lt_overflow : halfAbove < overflow := by
  have hsplit : overflow = 2 ^ 54 * 2 ^ (970 : Int) := by
    rw [overflow, ← zpow_natCast, ← zpow_add₀ (by norm_num)]
    norm_num
  rw [hsplit, halfAbove]
  exact mul_lt_mul_of_pos_right (by norm_num) (by positivity)

/-- The carry of a rounded number stays below the overflow.  Rounding adds half a unit at most,
    and half a unit above the largest float is where the numbers begin that are rounded up to
    infinity. -/
theorem carry_lt {m k : Nat} {e : Int} (hbits : m < 2 ^ (53 + k)) (he : e ≤ 970)
    (hek : e + k < 972) (h : (m : ℚ) * 2 ^ e < halfAbove) :
    (ExtendedMantissa.ofMantissaAndAccuracy m .exact >>> k).roundedMantissa.log2 + (e + k)
      < 1024 := by
  have hcut : m / 2 ^ k < 2 ^ 53 := by
    rw [Nat.div_lt_iff_lt_mul (Nat.two_pow_pos k), ← Nat.pow_add]
    exact hbits
  have hbounds := rounded_shiftRight_bounds m .exact k
  generalize hr : (ExtendedMantissa.ofMantissaAndAccuracy m .exact >>> k).roundedMantissa = r at *
  rcases Nat.lt_or_ge r (2 ^ 53) with hlt | hfull
  · have hlog : r.log2 ≤ 52 := by
      rcases Nat.eq_zero_or_pos r with rfl | hpos
      · rw [Nat.log2_zero]
        exact Nat.zero_le _
      · exact Nat.le_of_lt_succ ((Nat.log2_lt (Nat.ne_of_gt hpos)).2 hlt)
    omega
  · obtain rfl : r = 2 ^ 53 := by omega
    rw [Nat.log2_two_pow]
    by_contra hover
    -- the carry has gone through all bits at the last exponent, so the number is at least half a
    -- step above the largest float
    obtain ⟨j, rfl⟩ : ∃ j, k = j + 1 := ⟨k - 1, by omega⟩
    have hhalf := two_mul_roundedMantissa_le m j
    rw [hr] at hhalf
    have hmul : (2 ^ 54 - 1) * 2 ^ j ≤ m :=
      (Nat.le_div_iff_mul_le (Nat.two_pow_pos j)).1 (by omega)
    have hmul' : ((2 : ℚ) ^ 54 - 1) * 2 ^ j ≤ m := by
      have hcast : (((2 ^ 54 - 1) * 2 ^ j : Nat) : ℚ) ≤ m := by exact_mod_cast hmul
      norm_num at hcast ⊢
      exact hcast
    have hexp : (j : Int) + e = 970 := by omega
    have hge : halfAbove ≤ m * 2 ^ e :=
      calc halfAbove = (2 ^ 54 - 1) * 2 ^ ((j : Int) + e) := by rw [hexp, halfAbove]
        _ = (2 ^ 54 - 1) * 2 ^ j * 2 ^ e := by
          rw [zpow_add₀ (by norm_num), zpow_natCast, mul_assoc]
        _ ≤ m * 2 ^ e := mul_le_mul_of_nonneg_right hmul' (by positivity)
    exact absurd h (not_lt.2 hge)

/-- Shifting up adds just as many bits as the shift has places. -/
theorem log2_shiftLeft {m : Nat} (hm : m ≠ 0) (j : Nat) : (m <<< j).log2 = m.log2 + j := by
  have hne : m <<< j ≠ 0 := fun h => hm (Nat.shiftLeft_eq_zero_iff.1 h)
  refine Nat.le_antisymm (Nat.le_of_lt_succ ?_) (log2_shiftLeft_ge hm j)
  rw [Nat.log2_lt hne, Nat.shiftLeft_eq, Nat.succ_eq_add_one, Nat.add_right_comm, Nat.pow_add]
  exact Nat.mul_lt_mul_of_pos_right Nat.lt_log2_self (Nat.two_pow_pos j)

/-- Shifting the mantissa up and lowering the exponent by as much leaves the number as it is. -/
theorem value_shiftLeft_sub (m j : Nat) (e : Int) :
    ((m <<< j : Nat) : ℚ) * 2 ^ (e - j) = m * 2 ^ e := by
  have hshift := value_shiftLeft m j
  rw [sub_eq_neg_add, zpow_add₀ (by norm_num), ← mul_assoc, hshift]

/-- A number less than half a step above the largest float is rounded to a finite float. -/
theorem isFinite_round (s : Sign) {m : Nat} {e : Int} (hm : m ≠ 0) (he : e ≤ 970)
    (h : (m : ℚ) * 2 ^ e < halfAbove) :
    (Float.Model.pack (UnpackedFloat.round Format.binary64 s m e)).isFinite = true := by
  have htop := log2_add_lt hm (h.trans halfAbove_lt_overflow)
  rw [UnpackedFloat.round, targetExponent_totalExponent, decreaseExponent]
  dsimp only
  obtain ⟨j, hj⟩ : ∃ j, (e - max (m.log2 + e - 52) (-1074)).toNat = j := ⟨_, rfl⟩
  have hlog := log2_shiftLeft hm j
  have hbits : m <<< j < 2 ^ ((m <<< j).log2 + 1) := Nat.lt_log2_self
  rw [← value_shiftLeft_sub m j e] at h
  rw [hj]
  generalize m <<< j = m' at *
  obtain ⟨k, hk⟩ : ∃ k, (max (m'.log2 + (e - j) - 52) (-1074) - (e - j)).toNat = k := ⟨_, rfl⟩
  have hwide : m' < 2 ^ (53 + k) :=
    Nat.lt_of_lt_of_le hbits (Nat.pow_le_pow_right (by decide) (by omega))
  exact isFinite_roundWithAccuracy s (shiftToTargetExponent_eq m' _ .exact hk) (by omega)
    (carry_lt hwide (by omega) (by omega) h)

/-! ## Sums -/

theorem unpack_bounds {b : BitVec Format.binary64.numBits} {s : Sign} {m : Nat} {e : Int}
    {hpos : 0 < m} (h : UnpackedFloat.unpack Format.binary64 b = .finite s m e hpos) :
    m < 2 ^ 53 ∧ -1074 ≤ e ∧ e ≤ 971 ∧ (e = -1074 ∨ 2 ^ 52 ≤ m) := by
  rcases unpack_cases b with ⟨-, hb⟩ | ⟨-, ⟨s', hb⟩ | ⟨s', m', e', hpos', hb, hbounds⟩⟩
  · rw [h] at hb
    exact absurd hb Bool.noConfusion
  · rw [h] at hb
    exact absurd hb UnpackedFloat.noConfusion
  · rw [h] at hb
    injection hb with _ hm he
    rwa [hm, he]

/-- The largest float and one more is less than half a step above it. -/
theorem largest_add_one_lt {m : Nat} {e : Int} (hm : m < 2 ^ 53) (he : e ≤ 971) :
    (m : ℚ) * 2 ^ e + 1 < halfAbove := by
  have hm' : (m : ℚ) ≤ 2 ^ 53 - 1 := by
    have hle : m ≤ 2 ^ 53 - 1 := by omega
    have hcast : (m : ℚ) ≤ ((2 ^ 53 - 1 : Nat) : ℚ) := by exact_mod_cast hle
    norm_num at hcast ⊢
    exact hcast
  have hone : (1 : ℚ) < 2 ^ (970 : Int) := one_lt_zpow₀ (by norm_num) (by norm_num)
  have hpower : (2 : ℚ) ^ e ≤ 2 ^ (971 : Int) := zpow_le_zpow_right₀ (by norm_num) he
  have hdouble : (2 : ℚ) ^ (971 : Int) = 2 * 2 ^ (970 : Int) := by
    rw [show (971 : Int) = 1 + 970 from rfl, zpow_add₀ (by norm_num), zpow_one]
  calc (m : ℚ) * 2 ^ e + 1 ≤ (2 ^ 53 - 1) * 2 ^ (971 : Int) + 1 :=
        add_le_add_left (mul_le_mul hm' hpower (by positivity) (by norm_num)) 1
    _ = (2 ^ 54 - 2) * 2 ^ (970 : Int) + 1 := by rw [hdouble]; ring
    _ < (2 ^ 54 - 2) * 2 ^ (970 : Int) + 2 ^ (970 : Int) := add_lt_add_of_le_of_lt le_rfl hone
    _ = halfAbove := by rw [halfAbove]; ring

/-- A sum that stays below half a unit above the largest float is rounded to a finite one, with
    either sign. -/
theorem isFinite_normalize (s : Sign) {m e : Int} (he : e ≤ 970)
    (h : (m.natAbs : ℚ) * 2 ^ e < halfAbove) :
    (Float.Model.pack (UnpackedFloat.normalize Format.binary64 m e s)).isFinite = true := by
  rw [UnpackedFloat.normalize]
  split
  · next hlt =>
    have hneg := Int.compare_eq_lt.1 hlt
    have habs : (-m).toNat = m.natAbs := by omega
    rw [habs]
    exact isFinite_round .negative (by omega) he h
  · exact isFinite_pack_zero s
  · next hgt =>
    have hpos := Int.compare_eq_gt.1 hgt
    have habs : m.toNat = m.natAbs := by omega
    rw [habs]
    exact isFinite_round .positive (by omega) he h

theorem natAbs_apply (s : Sign) (m : Nat) : (s.apply m).natAbs = m := by
  cases s <;> simp [Sign.apply]

/-- A number is the same with a smaller exponent. -/
theorem value_decreaseExponent {m : Nat} {e t : Int} (h : t ≤ e) :
    ((decreaseExponent m e t).1 : ℚ) * 2 ^ t = m * 2 ^ e := by
  have hshift := value_shiftLeft_sub m (e - t).toNat e
  rwa [show e - ((e - t).toNat : Int) = t by omega] at hshift

/-- A finite number and one are added to a finite number, with any signs.  The one is so small
    beside the largest float that the sum stays below half a unit above it. -/
theorem isFinite_add_one {s s' : Sign} {m : Nat} {e : Int} {hpos : 0 < m} {hpos' : 0 < 2 ^ 52}
    (hm : m < 2 ^ 53) (he : e ≤ 971) :
    (Float.Model.pack (UnpackedFloat.add Format.binary64 (.finite s m e hpos)
      (.finite s' (2 ^ 52) (-52) hpos'))).isFinite = true := by
  have hleft := value_decreaseExponent (m := m) (min_le_left e (-52))
  have hright := value_decreaseExponent (m := 2 ^ 52) (min_le_right e (-52))
  have hone : ((2 ^ 52 : Nat) : ℚ) * 2 ^ (-52 : Int) = 1 := by norm_num
  show (Float.Model.pack (UnpackedFloat.normalize Format.binary64
    (s.apply (decreaseExponent m e (min e (-52))).1
      + s'.apply (decreaseExponent (2 ^ 52) (-52) (min e (-52))).1) (min e (-52)) _)).isFinite = true
  generalize (decreaseExponent m e (min e (-52))).1 = m₁ at *
  generalize (decreaseExponent (2 ^ 52) (-52) (min e (-52))).1 = m₂ at *
  apply isFinite_normalize _ (by omega)
  have habs : (s.apply m₁ + s'.apply m₂).natAbs ≤ m₁ + m₂ :=
    calc (s.apply m₁ + s'.apply m₂).natAbs
        ≤ (s.apply m₁).natAbs + (s'.apply m₂).natAbs := Int.natAbs_add_le _ _
      _ = m₁ + m₂ := by rw [natAbs_apply, natAbs_apply]
  have habs' : ((s.apply m₁ + s'.apply m₂).natAbs : ℚ) ≤ m₁ + m₂ := by exact_mod_cast habs
  calc ((s.apply m₁ + s'.apply m₂).natAbs : ℚ) * 2 ^ min e (-52)
      ≤ (m₁ + m₂) * 2 ^ min e (-52) := mul_le_mul_of_nonneg_right habs' (by positivity)
    _ = m * 2 ^ e + 1 := by rw [add_mul, hleft, hright, hone]
    _ < halfAbove := largest_add_one_lt hm he

theorem unpack_ofInt {n : Int} (hn : n.natAbs ≤ 1) :
    (Float.ofInt n).toModel.unpack = .zero .positive
      ∨ ∃ s hpos, (Float.ofInt n).toModel.unpack = .finite s (2 ^ 52) (-52) hpos := by
  obtain rfl | rfl | rfl : n = 0 ∨ n = 1 ∨ n = -1 := by omega
  · exact .inl rfl
  · exact .inr ⟨.positive, finite_of_parts? (by decide +kernel)⟩
  · exact .inr ⟨.negative, finite_of_parts? (by decide +kernel)⟩

/-- A float moved by one at most is finite just if it was.  If it was not, the sum is infinite or
    not a number as well. -/
theorem isFinite_add_ofInt (x : Float) {n : Int} (hn : n.natAbs ≤ 1) :
    (x + Float.ofInt n).isFinite = x.isFinite := by
  have hfinite : x.isFinite = x.toModel.unpack.isFinite := rfl
  have hadd : (x + Float.ofInt n).isFinite = (Float.Model.pack (UnpackedFloat.add Format.binary64
      x.toModel.unpack (Float.ofInt n).toModel.unpack)).isFinite := rfl
  rw [hadd, hfinite]
  cases hx : x.toModel.unpack with
  | notANumber => exact isFinite_pack_notANumber
  | infinity s =>
    rcases unpack_ofInt hn with h | ⟨s', hpos', h⟩ <;> rw [h]
    · exact isFinite_pack_infinity s
    · exact isFinite_pack_infinity s
  | zero s =>
    rcases unpack_ofInt hn with h | ⟨s', hpos', h⟩ <;> rw [h]
    · cases s <;> decide
    · exact isFinite_pack s' hpos' (by decide)
  | finite s m e hpos =>
    obtain ⟨hm, -, he, -⟩ := unpack_bounds hx
    rcases unpack_ofInt hn with h | ⟨s', hpos', h⟩ <;> rw [h]
    · exact isFinite_pack s hpos (by omega)
    · exact isFinite_add_one hm he

end BranchProbe.Numeral
