/-
  A written float is read as a float.

  The float read may be another one in its last bits, since the reader rounds three times; what is
  shown here is that the reader never takes it for too large.

  1. `leadingDigits` takes digits from the left: what it makes of them, times a power of ten for
     the digits left over, is not more than the number written.
  2. `scale_isSome`: below zero an exponent only divides.  From zero on the product of the digits
     and the power of ten is rounded up at most five times on the way, so it is a float if the
     number written is below the overflow by as much.
  3. `positional_parts` and `scientific_parts` give the parts of the two notations.  A number in
     positional notation always has a negative exponent for the reader.
  4. `exists_written`, the main result: a finite float is at most half a step below the overflow.
     The few that are too near to it for the bound on the rounding are read one by one
     (`largest_readable`).
-/
import BranchProbe.Proofs.Json.Lexemes
import BranchProbe.Proofs.Numeral.Rounding
import BranchProbe.Proofs.Numeral.Shortest

namespace BranchProbe

open Text (Run Stops stops_nil)
open Numeral (Decimal Magnitude digitsOf naturalOf isDecimal slack overflow UpTo)

namespace Json.NumberText

/-! ## Leading digits -/

/-- The number that a run of digits goes on to from `n`. -/
def appended (n : Nat) (ds : List Char) : Nat :=
  ds.foldl (fun n c => 10 * n + Numeral.digitValue c) n

theorem appended_zero (ds : List Char) : appended 0 ds = naturalOf ds := rfl

/-- Each digit that is appended makes a number ten times as large at least, so a number that fits
    has a bounded number of digits. -/
theorem mul_pow_le_appended (n : Nat) (ds : List Char) : n * 10 ^ ds.length ≤ appended n ds := by
  induction ds generalizing n with
  | nil => simp [appended]
  | cons c cs ih =>
    have h := ih (10 * n + Numeral.digitValue c)
    calc n * 10 ^ (cs.length + 1) = 10 * n * 10 ^ cs.length := by ring
      _ ≤ (10 * n + Numeral.digitValue c) * 10 ^ cs.length :=
        Nat.mul_le_mul_right _ (Nat.le_add_right _ _)
      _ ≤ appended n (c :: cs) := h

/-- The digits taken, with zeros for the others, are not more than all of them. -/
theorem leadingDigits_le (n : Nat) (ds : List Char) :
    n ≤ (leadingDigits n ds).1
      ∧ (leadingDigits n ds).1 * 10 ^ (leadingDigits n ds).2.length ≤ appended n ds
      ∧ (leadingDigits n ds).2.length ≤ ds.length := by
  induction ds generalizing n with
  | nil => simp [leadingDigits, appended]
  | cons c cs ih =>
    rw [leadingDigits]
    split
    · obtain ⟨hge, hle, hlength⟩ := ih (10 * n + Numeral.digitValue c)
      exact ⟨by omega, hle, Nat.le_succ_of_le hlength⟩
    · exact ⟨Nat.le_refl n, mul_pow_le_appended n (c :: cs), Nat.le_refl _⟩

/-- A number of 64 bits is taken whole: the digits are appended one by one, and none of the sums
    on the way is larger than the number. -/
theorem leadingDigits_eq {n : Nat} {ds : List Char} (h : appended n ds < 2 ^ 64) :
    leadingDigits n ds = (appended n ds, []) := by
  induction ds generalizing n with
  | nil => rfl
  | cons c cs ih =>
    have hhere : 10 * n + Numeral.digitValue c < Nat.pow 2 64 := by
      have hpos : 1 ≤ 10 ^ cs.length := Nat.pow_pos (by decide)
      calc 10 * n + Numeral.digitValue c
          ≤ (10 * n + Numeral.digitValue c) * 10 ^ cs.length := Nat.le_mul_of_pos_right _ hpos
        _ ≤ appended n (c :: cs) := mul_pow_le_appended _ _
        _ < 2 ^ 64 := h
    rw [leadingDigits, if_pos hhere]
    exact ih h

theorem digitValue_le {c : Char} (h : isDecimal c = true) : Numeral.digitValue c ≤ 9 := by
  simp only [isDecimal, Bool.and_eq_true, decide_eq_true_eq, Char.le_def,
    UInt32.le_iff_toNat_le] at h
  have hnine : ('9' : Char).val.toNat = 57 := rfl
  have hzero : ('0' : Char).toNat = 48 := rfl
  have hc : c.toNat = c.val.toNat := rfl
  rw [Numeral.digitValue]
  omega

/-- Where there is room for a further digit, one is taken.  Sixteen digits and one more are still
    a number of 64 bits, so the loop does not stop before. -/
theorem leadingDigits_shortens {n : Nat} {ds : List Char} (hds : Run isDecimal ds)
    (h : n < 10 ^ 16) : (leadingDigits n ds).2.length < ds.length := by
  obtain ⟨c, cs, rfl⟩ := List.exists_cons_of_ne_nil hds.1
  have hdigit := digitValue_le (hds.2 c List.mem_cons_self)
  have hroom : 10 * n + Numeral.digitValue c < Nat.pow 2 64 := by
    rw [Nat.pow_eq]
    omega
  rw [leadingDigits, if_pos hroom]
  exact Nat.lt_succ_of_le (leadingDigits_le _ cs).2.2

/-! ## Scaling -/

/-- A negative exponent only divides, so no overflow is possible there and the scaling succeeds. -/
theorem scale_isSome_of_neg : ∀ (fuel : Nat) (x : Float) {e : Int}, e < 0 →
    (scale fuel x e).isSome = true
  | 0, _, _, _ => rfl
  | fuel + 1, x, e, h => by
    rw [scale]
    split
    · rw [if_neg (by omega)]
      rfl
    · split
      · rfl
      · rw [if_neg (by omega)]
        exact scale_isSome_of_neg fuel _ (by omega)

/-- No power of ten below the overflow has an exponent beyond 308.  The next power is compared
    with `2 ^ 1024` as natural numbers, once. -/
theorem le_of_pow_lt_overflow {e : Nat} (h : (10 : ℚ) ^ e < overflow) : e ≤ 308 := by
  by_contra hgt
  have hle : (2 : Nat) ^ 1024 ≤ 10 ^ 309 := by decide +kernel
  have hle' : overflow ≤ (10 : ℚ) ^ 309 := by
    rw [overflow]
    exact_mod_cast hle
  have hpower : (10 : ℚ) ^ 309 ≤ 10 ^ e := pow_le_pow_right₀ (by norm_num) (by omega)
  exact absurd h (not_lt.2 (hle'.trans hpower))

/-- The product is a float if the number itself, rounded up five times, is below the overflow. -/
theorem scale_isSome {s e : Nat} (hs : s ≠ 0) (h : (s : ℚ) * 10 ^ e * slack ^ 5 < overflow) :
    (scale 5 (Float.ofNat s) e).isSome = true := by
  have hone := Numeral.slack_ge_one
  have hs1 : (1 : ℚ) ≤ s := by exact_mod_cast Nat.pos_of_ne_zero hs
  have hten : (1 : ℚ) ≤ 10 ^ e := one_le_pow₀ (by norm_num)
  have hfive : (1 : ℚ) ≤ slack ^ 5 := one_le_pow₀ hone
  have htwo : slack ^ 2 ≤ slack ^ 5 := pow_le_pow_right₀ hone (by decide)
  have hpower : (10 : ℚ) ^ e * slack ^ 5 ≤ s * 10 ^ e * slack ^ 5 := by
    rw [mul_assoc]
    exact le_mul_of_one_le_left (by positivity) hs1
  have he : e ≤ 308 := by
    apply le_of_pow_lt_overflow
    exact lt_of_le_of_lt ((le_mul_of_one_le_right (by positivity) hfive).trans hpower) h
  have hdigits : UpTo (Float.ofNat s) (s * 10 ^ 0 * slack ^ 2) := by
    apply Numeral.upTo_ofScientific hs (Nat.zero_le _)
    refine lt_of_le_of_lt ?_ h
    rw [pow_zero]
    gcongr
  have hten' : UpTo (floatPower e) ((1 : Nat) * 10 ^ e * slack ^ 2) := by
    apply Numeral.upTo_ofScientific Nat.one_ne_zero (by omega)
    refine lt_of_le_of_lt ?_ h
    rw [Nat.cast_one]
    gcongr
  -- two roundings for each factor, and one for the product
  have hproduct : (s : ℚ) * 10 ^ 0 * slack ^ 2 * ((1 : Nat) * 10 ^ e * slack ^ 2) * slack
      = s * 10 ^ e * slack ^ 5 := by
    push_cast
    ring
  have hfinite := (hdigits.mul hten' (by rwa [hproduct])).isInf_eq_false
  rw [scale, if_pos (by omega), if_pos (Int.natCast_nonneg e), Int.toNat_natCast]
  simp [hfinite]

/-! ## The value of a number -/

/-- The digits taken of a number, and the power of ten that they are short of it by. -/
def mantissa (n : NumberText) : Nat × Int :=
  let whole := leadingDigits 0 n.whole
  let taken : Nat × Nat :=
    match n.fraction with
    | none => (whole.1, 0)
    | some ds =>
      let all := leadingDigits whole.1 ds
      (all.1, ds.length - all.2.length)
  (taken.1, (whole.2.length : Int) - taken.2)

/-- The digits taken, scaled. -/
def scaled (n : NumberText) (stop : Mark) (e : Int) : Except Fault Float :=
  match scale 5 (Float.ofNat n.mantissa.1) e with
  | some x => .ok (if n.negative then -x else x)
  | none => .error ⟨.numberOutOfRange, stop⟩

/-- The value of a number text in its three cases: without an exponent, with one that is in
    range, and with one that is too large to be computed. -/
theorem floatValue_eq (n : NumberText) (before stop : Mark) :
    n.floatValue before stop =
      match n.exponent with
      | none => n.scaled stop n.mantissa.2
      | some (negative, ds) =>
        match exponentOverflow? 0 0 ds with
        | some count =>
          if n.mantissa.1 ≠ 0 && !negative then
            .error ⟨.numberOutOfRange, ⟨before.line, before.column + count⟩⟩
          else .ok (if n.negative then -0 else 0)
        | none =>
          n.scaled stop (clampExponent (if negative then n.mantissa.2 - naturalOf ds
            else n.mantissa.2 + naturalOf ds)) := by
  obtain ⟨negative, whole, fraction, exponent⟩ := n
  cases fraction <;> cases exponent <;> rfl

/-- The number is read as a float, wherever it stands. -/
def Readable (n : NumberText) : Prop := ∃ x, ∀ before stop, n.floatValue before stop = .ok x

/-- Where the scaling of the digits succeeds, the number text has a value at every mark. -/
theorem exists_scaled {n : NumberText} {e : Int}
    (h : (scale 5 (Float.ofNat n.mantissa.1) e).isSome = true) :
    ∃ x, ∀ stop, n.scaled stop e = .ok x := by
  obtain ⟨y, hy⟩ := Option.isSome_iff_exists.1 h
  exact ⟨_, fun stop => by rw [scaled, hy]⟩

/-- Without an exponent a number is its digits, scaled. -/
theorem readable_of_scale {n : NumberText} (hexp : n.exponent = none)
    (h : (scale 5 (Float.ofNat n.mantissa.1) n.mantissa.2).isSome = true) : n.Readable := by
  obtain ⟨x, hx⟩ := exists_scaled h
  exact ⟨x, fun before stop => by rw [floatValue_eq, hexp]; exact hx stop⟩

/-- An exponent that fits in 31 bits is not reported as too large at any of its digits. -/
theorem exponentOverflow?_eq_none {n count : Nat} {ds : List Char}
    (h : appended n ds ≤ 2147483647) : exponentOverflow? n count ds = none := by
  induction ds generalizing n count with
  | nil => rfl
  | cons c cs ih =>
    have hhere : 10 * n + Numeral.digitValue c ≤ 2147483647 :=
      calc 10 * n + Numeral.digitValue c
          ≤ (10 * n + Numeral.digitValue c) * 10 ^ cs.length :=
            Nat.le_mul_of_pos_right _ (Nat.pow_pos (by decide))
        _ ≤ appended n (c :: cs) := mul_pow_le_appended _ _
        _ ≤ 2147483647 := h
    rw [exponentOverflow?, if_neg (by omega)]
    exact ih h

/-- With an exponent a number is its digits, scaled by both.  Digits of an exponent that leave 31
    bits are a fault only where the exponent is positive. -/
theorem readable_of_exponent {n : NumberText} {negative : Bool} {k : Nat}
    (hexp : n.exponent = some (negative, digitsOf k)) (hk : negative = false → k ≤ 308) {e : Int}
    (he : e = if negative then n.mantissa.2 - k else n.mantissa.2 + k)
    (h : e < 0 ∨ (0 ≤ e ∧ e ≤ 308 ∧ (scale 5 (Float.ofNat n.mantissa.1) e).isSome = true)) :
    n.Readable := by
  have hscale : (scale 5 (Float.ofNat n.mantissa.1) (clampExponent e)).isSome = true := by
    rcases h with hneg | ⟨hlow, hhigh, hsome⟩
    · apply scale_isSome_of_neg
      rw [clampExponent]
      omega
    · have hclamp : clampExponent e = e := by
        rw [clampExponent]
        omega
      rwa [hclamp]
  -- an exponent beyond a machine word is negative here, and the value is then a zero
  cases hover : exponentOverflow? 0 0 (digitsOf k) with
  | none =>
    obtain ⟨x, hx⟩ := exists_scaled hscale
    refine ⟨x, fun before stop => ?_⟩
    rw [floatValue_eq, hexp]
    simp only [hover, Numeral.naturalOf_digitsOf, ← he]
    exact hx stop
  | some count =>
    have hneg : negative = true := by
      by_contra hpos
      have hfits : appended 0 (digitsOf k) ≤ 2147483647 := by
        rw [appended_zero, Numeral.naturalOf_digitsOf]
        have := hk (by simpa using hpos)
        omega
      rw [exponentOverflow?_eq_none hfits] at hover
      nomatch hover
    refine ⟨if n.negative then -0 else 0, fun before stop => ?_⟩
    rw [floatValue_eq, hexp]
    simp only [hover, hneg, Bool.not_true, Bool.and_false, Bool.false_eq_true, if_false]

/-- A number with a fraction or an exponent has the value of a float. -/
theorem Readable.value_eq {n : NumberText} (h : n.Readable)
    (hfloat : n.fraction.isSome = true ∨ n.exponent.isSome = true) :
    ∃ x, ∀ stop, n.value stop = .ok (.float x) := by
  obtain ⟨x, hx⟩ := h
  refine ⟨x, fun stop => ?_⟩
  rw [value, if_pos (by simpa using hfloat), hx]
  rfl

/-! ## The parts of a written decimal -/

/-- The parts of a decimal in positional notation. -/
def positional (negative : Bool) (d : Decimal) : NumberText :=
  let ds := digitsOf d.digits
  let places := (-d.exponent).toNat
  if d.exponent ≥ 0 then
    ⟨negative, ds ++ List.replicate d.exponent.toNat '0', some ['0'], none⟩
  else if places < ds.length then
    ⟨negative, ds.take (ds.length - places), some (ds.drop (ds.length - places)), none⟩
  else ⟨negative, ['0'], some (List.replicate (places - ds.length) '0' ++ ds), none⟩

/-- The parts of a decimal in scientific notation; `x` and `rest` are its digits. -/
def scientific (negative : Bool) (leading : Int) (x : Char) (rest : List Char) : NumberText :=
  ⟨negative, [x], if rest = [] then none else some rest,
    some (decide (leading < 0), digitsOf leading.natAbs)⟩

/-- A digit moves a number by less than one of its next place. -/
theorem appended_lt {ds : List Char} (hds : ∀ c ∈ ds, isDecimal c = true) (n : Nat) :
    appended n ds < (n + 1) * 10 ^ ds.length := by
  induction ds generalizing n with
  | nil => simp [appended]
  | cons c cs ih =>
    have hdigit := digitValue_le (hds c List.mem_cons_self)
    calc appended n (c :: cs)
        < (10 * n + Numeral.digitValue c + 1) * 10 ^ cs.length :=
          ih (fun d hd => hds d (List.mem_cons_of_mem _ hd)) _
      _ ≤ (10 * (n + 1)) * 10 ^ cs.length := Nat.mul_le_mul_right _ (by omega)
      _ = (n + 1) * 10 ^ (cs.length + 1) := by ring

theorem run_digitsOf (n : Nat) : Run isDecimal (digitsOf n) := by
  obtain ⟨c, cs, hcs, -⟩ := Numeral.exists_digitsOf n
  exact ⟨by simp [hcs], fun _ hc => Numeral.isDecimal_of_mem_digitsOf hc⟩

theorem isDecimal_of_mem_zeros {n : Nat} {c : Char} (h : c ∈ List.replicate n '0') :
    isDecimal c = true := by
  rw [List.eq_of_mem_replicate h]
  decide

/-- What starts as the digits of a number other than zero has no zero before it. -/
theorem leads_take {n count : Nat} (hn : n ≠ 0) (hcount : 0 < count) {more : List Char}
    (hmore : ∀ c ∈ more, isDecimal c = true) : Leads ((digitsOf n).take count ++ more) := by
  obtain ⟨c, cs, hcs, hc⟩ := Numeral.digitsOf_head (Nat.pos_of_ne_zero hn)
  obtain ⟨count, rfl⟩ := Nat.exists_eq_succ_of_ne_zero (Nat.ne_of_gt hcount)
  refine .inr ⟨⟨by simp [hcs], fun d hd => ?_⟩, by simp [hcs, hc]⟩
  rcases List.mem_append.1 hd with hd | hd
  · exact (run_digitsOf n).2 d (List.mem_of_mem_take hd)
  · exact hmore d hd

/-- A float that is written without an exponent is written as a number text. -/
theorem wellFormed_positional (negative : Bool) {d : Decimal}
    (hd : d.digits ≠ 0 ∨ d.exponent = 0) : (positional negative d).WellFormed := by
  have hrun := run_digitsOf d.digits
  rw [positional]
  split
  · next hexp =>
    refine ⟨?_, ?_, by simp⟩
    · rcases hd with hd | hd
      · have hleads := leads_take hd (List.length_pos_iff.2 hrun.1) fun c =>
          isDecimal_of_mem_zeros (n := d.exponent.toNat)
        rwa [List.take_length] at hleads
      · simpa [hd] using leads_digitsOf d.digits
    · rintro ds ⟨⟩
      exact ⟨by simp, fun _ => isDecimal_of_mem_zeros (n := 1)⟩
  · next hexp =>
    have hd : d.digits ≠ 0 := by
      rcases hd with hd | hd
      · exact hd
      · omega
    split
    · next hplaces =>
      have hcount : 0 < (digitsOf d.digits).length - (-d.exponent).toNat := by omega
      have hleads := leads_take hd hcount (List.forall_mem_nil _)
      rw [List.append_nil] at hleads
      refine ⟨hleads, ?_, by simp⟩
      rintro ds ⟨⟩
      refine ⟨?_, fun c hc => hrun.2 c (List.mem_of_mem_drop hc)⟩
      rw [ne_eq, List.drop_eq_nil_iff]
      omega
    · refine ⟨.inl rfl, ?_, by simp⟩
      rintro ds ⟨⟩
      refine ⟨by simp [hrun.1], fun c hc => ?_⟩
      rcases List.mem_append.1 hc with hc | hc
      · exact isDecimal_of_mem_zeros hc
      · exact hrun.2 c hc

/-- And that number text is what the printer writes, the sign apart. -/
theorem write_positional (negative : Bool) (d : Decimal) :
    (positional negative d).write
      = (if negative then ['-'] else []) ++ Numeral.positionalText ['.', '0'] d := by
  by_cases hexp : d.exponent ≥ 0
  · simp [positional, Numeral.positionalText, hexp, write]
  · by_cases hplaces : (-d.exponent).toNat < (digitsOf d.digits).length
    · simp only [positional, Numeral.positionalText, if_neg hexp, if_pos hplaces]
      simp [write]
    · simp only [positional, Numeral.positionalText, if_neg hexp, if_neg hplaces]
      simp [write]

/-- A number in positional notation with at most sixteen digits before the point is read. -/
theorem readable_positional (negative : Bool) {d : Decimal} (hd : d.digits ≠ 0 ∨ d.exponent = 0)
    (hleading : d.exponent + ((digitsOf d.digits).length - 1 : Nat) < 16) :
    (positional negative d).Readable := by
  have hformed := wellFormed_positional negative hd
  have hpos := List.length_pos_iff.2 (run_digitsOf d.digits).1
  -- sixteen digits leave room in 64 bits for one more, so the fraction makes the exponent negative
  have hshort : (positional negative d).whole.length ≤ 16 := by
    rw [positional]
    split
    · simp
      omega
    · split
      · simp
        omega
      · simp
  obtain ⟨ds, hds⟩ : ∃ ds, (positional negative d).fraction = some ds := by
    rw [positional]
    split
    · exact ⟨_, rfl⟩
    · split <;> exact ⟨_, rfl⟩
  have hexp : (positional negative d).exponent = none := by
    rw [positional]
    split
    · rfl
    · split <;> rfl
  generalize positional negative d = n at *
  have hdecimal : ∀ c ∈ n.whole, isDecimal c = true := by
    rcases hformed.whole with hzero | ⟨hrun, -⟩
    · rw [hzero]
      exact fun _ => isDecimal_of_mem_zeros (n := 1)
    · exact hrun.2
  have hwhole : appended 0 n.whole < 10 ^ 16 :=
    calc appended 0 n.whole < (0 + 1) * 10 ^ n.whole.length := appended_lt hdecimal 0
      _ ≤ 10 ^ 16 := by
        rw [Nat.zero_add, Nat.one_mul]
        exact Nat.pow_le_pow_right (by decide) hshort
  have htaken := leadingDigits_eq (show appended 0 n.whole < 2 ^ 64 by omega)
  have hmore := leadingDigits_shortens (hformed.fraction ds hds) hwhole
  apply readable_of_scale hexp
  apply scale_isSome_of_neg
  rw [mantissa, hds, htaken]
  simp only [List.length_nil]
  omega

section Scientific

variable {n : Nat} {x : Char} {rest : List Char} (hds : digitsOf n = x :: rest)

include hds

/-- A float that is written with an exponent is written as a number text too. -/
theorem wellFormed_scientific (negative : Bool) (leading : Int) (hn : n ≠ 0) :
    (scientific negative leading x rest).WellFormed := by
  have hrun := run_digitsOf n
  have hleads := leads_take hn Nat.one_pos (List.forall_mem_nil _)
  rw [hds] at hrun hleads
  refine ⟨by simpa [scientific] using hleads, fun ds h => ?_, fun e h => ?_⟩
  · simp only [scientific] at h
    split at h
    · nomatch h
    · next hrest =>
      obtain rfl := Option.some.inj h
      exact ⟨hrest, fun c hc => hrun.2 c (List.mem_cons_of_mem _ hc)⟩
  · obtain rfl := Option.some.inj h
    exact run_digitsOf _

/-- The digits taken of a number in scientific notation: at least the first one, and with zeros
    for the others not more than the number. -/
theorem mantissa_scientific (negative : Bool) (leading : Int) (hn : n ≠ 0) :
    ∃ s unused : Nat, (scientific negative leading x rest).mantissa = (s, (unused : Int) - rest.length)
      ∧ unused ≤ rest.length ∧ s ≠ 0 ∧ s * 10 ^ unused ≤ n := by
  obtain ⟨c, cs, hcs, hc⟩ := Numeral.digitsOf_head (Nat.pos_of_ne_zero hn)
  obtain ⟨rfl, -⟩ := List.cons.inj (hds.symm.trans hcs)
  have hx : isDecimal x = true :=
    Numeral.isDecimal_of_mem_digitsOf (n := n) (by rw [hds]; exact List.mem_cons_self)
  have hle := digitValue_le hx
  have hpos : Numeral.digitValue x ≠ 0 := by
    intro hzero
    have hlow : '0' ≤ x := by
      simp only [isDecimal, Bool.and_eq_true, decide_eq_true_eq] at hx
      exact hx.1
    have hnat : x.toNat = '0'.toNat := Nat.le_antisymm (Nat.le_of_sub_eq_zero hzero) hlow
    exact hc (Char.toNat_inj.1 hnat)
  have hfirst : leadingDigits 0 [x] = (Numeral.digitValue x, []) := by
    have happended : appended 0 [x] = Numeral.digitValue x := by simp [appended]
    rw [leadingDigits_eq (by omega), happended]
  have hall : appended (Numeral.digitValue x) rest = n := by
    have hnat := Numeral.naturalOf_digitsOf n
    rw [hds] at hnat
    simpa [naturalOf, appended] using hnat
  obtain ⟨hge, htaken, hshort⟩ := leadingDigits_le (Numeral.digitValue x) rest
  rw [hall] at htaken
  -- a single digit is written without a fraction
  by_cases hrest : rest = []
  · subst hrest
    refine ⟨Numeral.digitValue x, 0, ?_, Nat.le_refl 0, hpos, by simpa [leadingDigits] using htaken⟩
    simp [mantissa, scientific, hfirst]
  · refine ⟨_, _, ?_, hshort, by omega, htaken⟩
    simp only [mantissa, scientific, if_neg hrest, hfirst, List.length_nil]
    congr 1
    omega

/-- A number with so many digits after the first is at least that power of ten.  This bounds the
    exponent that is written. -/
theorem pow_length_le (hn : n ≠ 0) : 10 ^ rest.length ≤ n := by
  rcases Nat.eq_zero_or_pos rest.length with hzero | hpos
  · rw [hzero]
    exact Nat.pos_of_ne_zero hn
  · by_contra hlt
    have := (Nat.length_toDigits_le_iff (b := 10) (by decide) hpos).2 (Nat.not_le.1 hlt)
    rw [show Nat.toDigits 10 n = x :: rest from hds, List.length_cons] at this
    omega

/-- A number in scientific notation that stays below the overflow when rounded up is read. -/
theorem readable_scientific (negative : Bool) {e leading : Int} {q : ℚ}
    (hbelow : Decimal.Below ⟨n, e⟩ q) (hq : q * slack ^ 5 < overflow)
    (hleading : leading = e + rest.length) :
    (scientific negative leading x rest).Readable := by
  obtain ⟨hn, hvalue⟩ := hbelow
  obtain ⟨s, unused, hmantissa, hunused, hs, htaken⟩ :=
    mantissa_scientific hds negative leading hn
  have htaken' : (s : ℚ) * 10 ^ unused ≤ n := by exact_mod_cast htaken
  have hs1 : (1 : ℚ) ≤ s := by exact_mod_cast Nat.pos_of_ne_zero hs
  have hfive : (1 : ℚ) ≤ slack ^ 5 := one_le_pow₀ Numeral.slack_ge_one
  have hten : ((10 : ℚ) ^ e) * 10 ^ unused = 10 ^ (e + unused) := by
    rw [zpow_add₀ (by norm_num), zpow_natCast]
  have hsmall : ∀ {k : Nat} {y : ℚ}, (10 : ℚ) ^ k ≤ y → y ≤ q → k ≤ 308 := by
    intro k y hy hyq
    have hypos : (0 : ℚ) ≤ y := le_trans (by positivity) hy
    refine le_of_pow_lt_overflow (lt_of_le_of_lt ?_ hq)
    exact hy.trans ((le_mul_of_one_le_right hypos hfive).trans
      (mul_le_mul_of_nonneg_right hyq (by positivity)))
  have hlead : ∀ k : Nat, (k : Int) = leading → k ≤ 308 := by
    intro k hk
    have hlength : (10 : ℚ) ^ rest.length ≤ n := by exact_mod_cast pow_length_le hds hn
    refine hsmall (y := n * 10 ^ e) ?_ hvalue
    calc (10 : ℚ) ^ k = 10 ^ rest.length * 10 ^ e := by
          rw [← zpow_natCast, hk, hleading, zpow_add₀ (by norm_num), zpow_natCast, mul_comm]
      _ ≤ n * 10 ^ e := mul_le_mul_of_nonneg_right hlength (by positivity)
  -- what the reader computes is not more than the decimal
  have hscaled : ∀ k : Nat, (k : Int) = e + unused →
      k ≤ 308 ∧ (scale 5 (Float.ofNat s) k).isSome = true := by
    intro k hk
    have hread : (s : ℚ) * 10 ^ k ≤ q :=
      calc (s : ℚ) * 10 ^ k = s * 10 ^ unused * 10 ^ e := by
            rw [← zpow_natCast, hk, ← hten]
            ring
        _ ≤ n * 10 ^ e := mul_le_mul_of_nonneg_right htaken' (by positivity)
        _ ≤ q := hvalue
    exact ⟨hsmall (le_mul_of_one_le_left (by positivity) hs1) hread,
      scale_isSome hs (lt_of_le_of_lt (mul_le_mul_of_nonneg_right hread (by positivity)) hq)⟩
  rcases lt_or_ge leading 0 with hneg | hpos
  · have hexp : (scientific negative leading x rest).exponent
        = some (true, digitsOf leading.natAbs) := by simp [scientific, hneg]
    refine readable_of_exponent hexp (by simp) rfl ?_
    rw [hmantissa]
    left
    simp only [if_true]
    omega
  · obtain ⟨k, hk⟩ := Int.eq_ofNat_of_zero_le hpos
    have hexp : (scientific negative leading x rest).exponent
        = some (false, digitsOf leading.natAbs) := by simp [scientific, Int.not_lt.2 hpos]
    refine readable_of_exponent hexp ?_ rfl ?_
    · intro _
      have := hlead k hk.symm
      omega
    · rw [hmantissa]
      simp only [Bool.false_eq_true, if_false]
      have hshift : (unused : Int) - rest.length + leading.natAbs = e + unused := by omega
      rw [hshift]
      rcases lt_or_ge (e + unused) 0 with hlow | hhigh
      · exact .inl hlow
      · obtain ⟨j, hj⟩ := Int.eq_ofNat_of_zero_le hhigh
        obtain ⟨hle, hsome⟩ := hscaled j hj.symm
        rw [hj]
        exact .inr ⟨by omega, by omega, hsome⟩

end Scientific

/-- And that number text is what the printer writes, with the first digit before the point. -/
theorem write_scientific {d : Decimal} {x : Char} {rest : List Char}
    (hds : digitsOf d.digits = x :: rest) (negative : Bool) (leading : Int) :
    (scientific negative leading x rest).write
      = (if negative then ['-'] else []) ++ Numeral.scientificText leading d := by
  rw [Numeral.scientificText, hds]
  cases rest <;> simp [scientific, write]

/-! ## Written floats -/

/-- The text of a magnitude is a number with a fraction or an exponent, and it is read if half a
    step above the magnitude there is still room for the rounding. -/
theorem exists_parts (negative : Bool) {m : Magnitude} (hexp : -1074 ≤ m.exponent) :
    ∃ n : NumberText, n.WellFormed ∧ Numeral.document.signed negative m = n.write
      ∧ (n.fraction.isSome = true ∨ n.exponent.isSome = true)
      ∧ ((m.significand + 1 / 2) * 2 ^ m.exponent * slack ^ 5 < overflow → n.Readable) := by
  obtain ⟨d, hd⟩ : ∃ d, d = m.shortest .toEven := ⟨_, rfl⟩
  obtain ⟨x, rest, hds, -⟩ := Numeral.exists_digitsOf d.digits
  obtain ⟨leading, hleading⟩ : ∃ leading : Int,
      leading = d.exponent + ((digitsOf d.digits).length - 1 : Nat) := ⟨_, rfl⟩
  have hlength : leading = d.exponent + rest.length := by simp [hleading, hds]
  have hzero : m.significand = 0 → d = ⟨0, 0⟩ := fun h => by rw [hd, Magnitude.shortest, if_pos h]
  have hbelow : m.significand ≠ 0 → d.Below ((m.significand + 1 / 2) * 2 ^ m.exponent) :=
    fun h => hd ▸ m.below_shortest .toEven h hexp
  have hdigits : d.digits ≠ 0 ∨ d.exponent = 0 := by
    by_cases hsig : m.significand = 0
    · exact .inr (by rw [hzero hsig])
    · exact .inl (hbelow hsig).1
  have hsigned : Numeral.document.signed negative m = (if negative then ['-'] else [])
      ++ (if d.digits = 0 || Numeral.document.positional leading then
          Numeral.positionalText ['.', '0'] d else Numeral.scientificText leading d) := by
    rw [hleading, hd]
    cases negative <;> rfl
  -- zero and numbers of a middle size have no exponent, all others have one
  by_cases hpositional : (d.digits = 0 || Numeral.document.positional leading) = true
  · refine ⟨positional negative d, wellFormed_positional negative hdigits, ?_, ?_, fun _ => ?_⟩
    · rw [hsigned, if_pos hpositional, write_positional]
    · left
      rw [positional]
      split
      · rfl
      · split <;> rfl
    · apply readable_positional negative hdigits
      rw [← hleading]
      by_cases hnone : d.digits = 0
      · have hone : (digitsOf d.digits).length = 1 := by rw [hnone]; rfl
        have hexponent : d.exponent = 0 := hdigits.resolve_left (not_not.2 hnone)
        omega
      · simp [hnone, Numeral.document] at hpositional
        omega
  · have hne : d.digits ≠ 0 := by
      intro h
      simp [h] at hpositional
    have hsig : m.significand ≠ 0 := by
      intro h
      rw [hzero h] at hne
      exact hne rfl
    refine ⟨scientific negative leading x rest, wellFormed_scientific hds negative leading hne, ?_,
      .inr rfl, fun hover => ?_⟩
    · rw [hsigned, if_neg hpositional, write_scientific hds]
    · exact readable_scientific hds negative (hbelow hsig) hover hlength

/-- The places of a number decide nothing but the place of a fault: if it has a value at some
    marks, it has one at all of them. -/
theorem readable_of_floatValue {n : NumberText} {before stop : Mark} {x : Float}
    (h : n.floatValue before stop = .ok x) : n.Readable := by
  have hscaled : ∀ {e : Int}, n.scaled stop e = .ok x → ∀ stop', n.scaled stop' e = .ok x := by
    intro e he stop'
    rw [scaled] at he ⊢
    split at he
    · exact he
    · nomatch he
  refine ⟨x, fun before' stop' => ?_⟩
  rw [floatValue_eq] at h ⊢
  split at h
  · exact hscaled h stop'
  · split at h
    · split at h
      · nomatch h
      · next hpast => rwa [if_neg hpast]
    · exact hscaled h stop'

theorem largest_readable : ∀ i : Fin 12, ∀ negative : Bool,
    (match at? (Numeral.document.signed negative ⟨2 ^ 53 - 1 - i, 971, false⟩) Mark.start with
      | .ok (n, _, stop) => (n.floatValue stop stop).isOk
      | .error _ => false) = true := by
  decide +kernel

end Json.NumberText

/-- Half a step above a float that is not among the twelve largest, five roundings do not reach the
    overflow. -/
theorem Numeral.rounded_lt_overflow {m : Magnitude} (hsig : m.significand < 2 ^ 53)
    (hexp : m.exponent ≤ 971) (hnear : ¬ (m.exponent = 971 ∧ 2 ^ 53 - 12 ≤ m.significand)) :
    (m.significand + 1 / 2) * 2 ^ m.exponent * slack ^ 5 < overflow := by
  have hslack : slack ^ 5 < 2 := by norm_num [slack]
  have hpos : (0 : ℚ) < m.significand + 1 / 2 := by positivity
  have hpower : (0 : ℚ) < 2 ^ m.exponent := zpow_pos (by norm_num) _
  obtain ⟨step, hstep⟩ : ∃ step : ℚ, step = 2 ^ (971 : Int) := ⟨_, rfl⟩
  have hsteppos : 0 < step := hstep ▸ zpow_pos (by norm_num) _
  have hover : overflow = 2 ^ 53 * step := by
    have hsum : (1024 : Int) = (53 : Nat) + 971 := by omega
    rw [overflow, hsum, zpow_add₀ (by norm_num), zpow_natCast, hstep]
  rw [hover]
  -- below the greatest exponent there is a factor of two to spare, which is more than the slack
  rcases lt_or_eq_of_le hexp with hlt | heq
  · have hhalf : (2 : ℚ) ^ m.exponent * 2 ≤ step := by
      rw [hstep, ← zpow_add_one₀ (by norm_num)]
      exact zpow_le_zpow_right₀ one_le_two hlt
    have hsig' : (m.significand : ℚ) + 1 / 2 ≤ 2 ^ 53 := by
      have : (m.significand : ℚ) + 1 ≤ 2 ^ 53 := by exact_mod_cast hsig
      linarith
    calc ((m.significand : ℚ) + 1 / 2) * 2 ^ m.exponent * slack ^ 5
        < (m.significand + 1 / 2) * 2 ^ m.exponent * 2 :=
          mul_lt_mul_of_pos_left hslack (mul_pos hpos hpower)
      _ = (m.significand + 1 / 2) * (2 ^ m.exponent * 2) := by ring
      _ ≤ 2 ^ 53 * step :=
        mul_le_mul hsig' hhalf (mul_pos hpower two_pos).le (by norm_num)
  · have hsmall : m.significand + 13 ≤ 2 ^ 53 := by omega
    have hsmall' : (m.significand : ℚ) + 1 / 2 ≤ 2 ^ 53 - 12 - 1 / 2 := by
      have : (m.significand : ℚ) + 13 ≤ 2 ^ 53 := by exact_mod_cast hsmall
      linarith
    have hfive : ((2 : ℚ) ^ 53 - 12 - 1 / 2) * slack ^ 5 < 2 ^ 53 := by norm_num [slack]
    rw [heq, ← hstep]
    calc ((m.significand : ℚ) + 1 / 2) * step * slack ^ 5
        = (m.significand + 1 / 2) * slack ^ 5 * step := by ring
      _ ≤ (2 ^ 53 - 12 - 1 / 2) * slack ^ 5 * step := by gcongr; norm_num [slack]
      _ < 2 ^ 53 * step := mul_lt_mul_of_pos_right hfive hsteppos

/-- A finite float is written as a number that is read as a float. -/
theorem Numeral.exists_written {x : Float} {cs : List Char} (h : Numeral.documentText? x = some cs) :
    ∃ n : Json.NumberText, n.WellFormed ∧ cs = n.write
      ∧ ∃ y, ∀ stop, n.value stop = .ok (.float y) := by
  rw [documentText?] at h
  split at h
  · next negative m hshape =>
    obtain rfl := Option.some.inj h
    obtain ⟨hsig, hlow, hhigh, hpower⟩ := magnitude_bounds hshape
    obtain ⟨n, hformed, htext, hfloat, hread⟩ := Json.NumberText.exists_parts negative hlow
    refine ⟨n, hformed, htext, Json.NumberText.Readable.value_eq ?_ hfloat⟩
    -- the slack is too much for the twelve largest floats only, and these are read one by one
    by_cases hnear : m.exponent = 971 ∧ 2 ^ 53 - 12 ≤ m.significand
    · obtain ⟨significand, exponent, isPower⟩ := m
      obtain ⟨rfl, hlarge⟩ := hnear
      obtain rfl : isPower = false := by
        by_contra hp
        have := hpower (by simpa using hp)
        dsimp only at this hlarge
        omega
      dsimp only at hsig hlarge
      obtain ⟨i, rfl⟩ : ∃ i : Fin 12, significand = 2 ^ 53 - 1 - i.val :=
        ⟨⟨2 ^ 53 - 1 - significand, by omega⟩, by dsimp only; omega⟩
      have hlargest := Json.NumberText.largest_readable i negative
      obtain ⟨stop, hat⟩ := Json.NumberText.at?_parts hformed (stops_nil _) Json.Mark.start
      rw [List.append_nil, ← htext] at hat
      rw [hat] at hlargest
      cases hvalue : n.floatValue stop stop with
      | ok y => exact Json.NumberText.readable_of_floatValue hvalue
      | error f => simp [hvalue, Except.isOk, Except.toBool] at hlargest
    · exact hread (rounded_lt_overflow hsig hhigh hnear)
  · nomatch h
  · nomatch h

end BranchProbe
