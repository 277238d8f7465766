/-
  Every variable takes its default from the first comparison that names it.

  1. `TreeNode.compared root limit` lists the comparisons of the nodes within the limit, in
     pre-order, `matchesWithin` all that the scanner found there, also what it dropped.  Both are
     read off the pre-order itself and not off the walk.
  2. `find?_seedWith` is the step: a variable that has a value keeps it, so a comparison only ever
     adds its own variable.  `find?_foldl_seedWith` is the run: behind what was bound before, the
     first comparison of a variable decides.
  3. `toInt_offset` is the arithmetic: a whole number moves as an integer and stops at the ends of
     64 signed bits.  No literal is negative (`nonneg_of_mem_comparisons`), so only the upper end is
     ever reached.
-/
import BranchProbe.Defaults
import BranchProbe.Proofs.Condition.Scan
import BranchProbe.Proofs.Lookup
import BranchProbe.Proofs.Tree.Limits

namespace BranchProbe

/-! ## Whole numbers of 64 bits -/

namespace Literal

/-- A number is clamped to the nearest one of 64 signed bits, said in integers without bounds, so
    that `omega` can go on from here. -/
theorem toInt_clamp (n : Int) :
    (clamp n).toInt = max Int64.minValue.toInt (min n Int64.maxValue.toInt) := by
  have hmin : Int64.minValue.toInt = -9223372036854775808 := rfl
  have hmax : Int64.maxValue.toInt = 9223372036854775807 := rfl
  rw [clamp, Int64.ofIntClamp]
  split
  · split
    · rw [Int64.toInt_ofIntLE]
      omega
    · omega
  · omega

/-- A whole literal moves as an integer, and stops at the ends. -/
theorem toInt_offset (n delta : Int64) :
    ∃ v, (integer n).offset delta = .integer v
      ∧ v.toInt = max Int64.minValue.toInt (min (n.toInt + delta.toInt) Int64.maxValue.toInt) :=
  ⟨_, rfl, toInt_clamp _⟩

/-- A literal is written without a sign, and a number of digits that does not fit in 63 bits has
    no value.  So a whole literal is never negative. -/
theorem nonneg_of_value? {l : Spelling} {n : Int64} (h : l.value? = some (.integer n)) :
    0 ≤ n.toInt := by
  cases l with
  | digits ds =>
    rw [Spelling.value?] at h
    split at h
    · next hfits =>
      have hlt : Numeral.naturalOf ds < 2 ^ 63 := by simpa using (Bool.and_eq_true_iff.1 hfits).2
      obtain rfl := Literal.integer.inj (Option.some.inj h)
      rw [Int64.toInt_ofNat_of_lt hlt]
      exact Int.natCast_nonneg _
    · cases h
  | decimal whole fraction =>
    rw [Spelling.value?] at h
    split at h
    · cases h
    · cases h
  | quoted quote content => cases h

end Literal

/-- What is found in a condition stands for a comparison that was not dropped. -/
theorem mem_comparisons_iff {condition : Option String} {c : Comparison} :
    c ∈ comparisons condition
      ↔ ∃ s, condition = some s ∧ ∃ m ∈ matchesFrom 0 s.toList, m.comparison? = some c := by
  cases condition with
  | none => simp [comparisons]
  | some s => simp [comparisons, List.mem_filterMap]

/-- The whole numbers of a condition are not negative: the scanner knows no sign, and a number
    that does not fit has no value. -/
theorem nonneg_of_mem_comparisons {condition : Option String} {c : Comparison}
    (hc : c ∈ comparisons condition) {n : Int64} (hn : c.literal = .integer n) : 0 ≤ n.toInt := by
  obtain ⟨s, -, m, -, hm⟩ := mem_comparisons_iff.1 hc
  obtain ⟨literal, hvalue, rfl⟩ := Option.map_eq_some_iff.1 hm
  obtain rfl : literal = .integer n := hn
  exact Literal.nonneg_of_value? hvalue

/-! ## The value that a comparison asks for -/

namespace Comparison

/-- Above, below or at a whole literal, and never beyond 64 bits.  The numbers here have no
    bounds: only at the upper end the step is cut off, and below a literal of zero it goes to
    minus one. -/
theorem seed_integer {c : Comparison} {n : Int64} (hc : c.literal = .integer n)
    (hn : 0 ≤ n.toInt) :
    ∃ v, c.seed = .integer v ∧ v.toInt =
      if '>' ∈ c.operator.spelling.toList then min (n.toInt + 1) Int64.maxValue.toInt
      else if '<' ∈ c.operator.spelling.toList then n.toInt - 1
      else n.toInt := by
  have hmin : Int64.minValue.toInt = -9223372036854775808 := rfl
  have hmax : Int64.maxValue.toInt = 9223372036854775807 := rfl
  have hle := Int64.toInt_le n
  rw [seed, Operator.bound, hc]
  split_ifs with habove hbelow
  · obtain ⟨v, hv, hvalue⟩ := Literal.toInt_offset n 1
    have hone : (1 : Int64).toInt = 1 := rfl
    exact ⟨v, hv, by omega⟩
  · obtain ⟨v, hv, hvalue⟩ := Literal.toInt_offset n (-1)
    have hone : (-1 : Int64).toInt = -1 := rfl
    exact ⟨v, hv, by omega⟩
  · obtain ⟨v, hv, hvalue⟩ := Literal.toInt_offset n 0
    have hzero : (0 : Int64).toInt = 0 := rfl
    exact ⟨v, hv, by omega⟩

theorem seed_text {c : Comparison} {s : String} (hc : c.literal = .text s) : c.seed = .text s := by
  rw [seed, hc]
  split <;> rfl

end Comparison

/-! ## Seeding -/

namespace Assignment

/-- A comparison adds its variable if that has no value yet, and changes nothing else. -/
theorem find?_seedWith (a : Assignment) (c : Comparison) (k : String) :
    (a.seedWith c).find? k = (a.find? k).or (if c.name = k then some c.seed else none) := by
  rw [seedWith, SortedMap.contains]
  by_cases hk : c.name = k
  · subst hk
    cases hfound : a.find? c.name with
    | some v => simp [hfound]
    | none => simp [SortedMap.find?_insert, Std.ReflCmp.compare_self]
  · have hne : compare k c.name ≠ .eq := fun heq =>
      hk (Std.LawfulEqOrd.eq_of_compare heq).symm
    rw [if_neg hk, Option.or_none]
    split
    · rfl
    · simp [SortedMap.find?_insert, hne]

/-- The first comparison of a variable decides its value, unless it had one before. -/
theorem find?_foldl_seedWith (cs : List Comparison) (a : Assignment) (k : String) :
    (cs.foldl seedWith a).find? k
      = (a.find? k).or ((cs.find? fun c => c.name = k).map Comparison.seed) := by
  induction cs generalizing a with
  | nil => simp
  | cons c rest ih =>
    rw [List.foldl_cons, ih, find?_seedWith, List.find?_cons]
    by_cases hk : c.name = k <;> cases a.find? k <;> simp [hk]

end Assignment

namespace TreeNode

/-- The comparisons of the nodes within the limit, in pre-order. -/
def compared (root : TreeNode) (limit : Nat) : List Comparison :=
  (root.within limit).flatMap fun n => comparisons n.condition

/-- All that the scanner finds in the conditions of the nodes within the limit, with or without a
    value. -/
def matchesWithin (root : TreeNode) (limit : Nat) : List Match :=
  (root.within limit).flatMap fun n => n.condition.elim [] fun s => matchesFrom 0 s.toList

/-- The defaults are the seeds of the comparisons within the limit. -/
theorem defaults_value (root : TreeNode) (limit : Nat) :
    (root.defaults limit).value = (root.compared limit).foldl Assignment.seedWith .empty := by
  rw [defaults, Walk.seeds, walk_visited, compared, within, List.flatMap_map]

/-- The first comparison of a variable within the limit decides its default. -/
theorem find?_defaults (root : TreeNode) (limit : Nat) (k : String) :
    (root.defaults limit).value.find? k
      = ((root.compared limit).find? fun c => c.name = k).map Comparison.seed := by
  rw [defaults_value, Assignment.find?_foldl_seedWith]
  rfl

/-- A comparison within the limit is a match that was not dropped: its literal has a value, and
    it was found in the condition of one of the nodes. -/
theorem exists_match_of_mem_compared {root : TreeNode} {limit : Nat} {c : Comparison}
    (hc : c ∈ root.compared limit) :
    ∃ m ∈ root.matchesWithin limit, String.ofList m.name = c.name ∧ ¬ m.literal.Valueless := by
  obtain ⟨n, hn, hcn⟩ := List.mem_flatMap.1 hc
  obtain ⟨s, hs, m, hm, hmc⟩ := mem_comparisons_iff.1 hcn
  refine ⟨m, List.mem_flatMap.2 ⟨n, hn, by rw [hs]; exact hm⟩, ?_⟩
  rw [Match.comparison?_eq] at hmc
  split at hmc
  · cases hmc
  · next hvalue =>
    obtain rfl := Option.some.inj hmc
    exact ⟨rfl, hvalue⟩

/-- The defaults of a tree at any limit, with `compared` the comparisons of the nodes within it in
    pre-order.  Exactly the variables compared have one.  The first comparison of a variable alone
    decides it: next to or at a whole literal, in unbounded integers but for the upper end; at a
    text.  What the scanner dropped gives no variable a default. -/
theorem defaults_eq_first_comparison (root : TreeNode) (limit : Nat) :
    (∀ k, k ∈ (root.defaults limit).value.keys ↔ ∃ c ∈ root.compared limit, c.name = k)
    ∧ (∀ k, (root.defaults limit).value.find? k
        = ((root.compared limit).find? fun c => c.name = k).map Comparison.seed)
    ∧ (∀ c ∈ root.compared limit,
        (∀ n, c.literal = .integer n → ∃ v, c.seed = .integer v ∧ v.toInt =
          if '>' ∈ c.operator.spelling.toList then min (n.toInt + 1) Int64.maxValue.toInt
          else if '<' ∈ c.operator.spelling.toList then n.toInt - 1
          else n.toInt)
        ∧ (∀ s, c.literal = .text s → c.seed = .text s))
    ∧ (∀ k, (∀ m ∈ root.matchesWithin limit, String.ofList m.name = k → m.literal.Valueless) →
        k ∉ (root.defaults limit).value.keys) := by
  have hkeys : ∀ k, k ∈ (root.defaults limit).value.keys ↔ ∃ c ∈ root.compared limit, c.name = k := by
    intro k
    rw [SortedMap.mem_keys_iff, find?_defaults, Option.isSome_map, List.find?_isSome]
    simp
  refine ⟨hkeys, root.find?_defaults limit, fun c hc => ⟨fun n hn => ?_, fun s hs => ?_⟩,
    fun k hdropped hk => ?_⟩
  · obtain ⟨node, -, hcn⟩ := List.mem_flatMap.1 hc
    exact Comparison.seed_integer hn (nonneg_of_mem_comparisons hcn hn)
  · exact Comparison.seed_text hs
  · obtain ⟨c, hc, rfl⟩ := (hkeys k).1 hk
    obtain ⟨m, hm, hname, hvalue⟩ := exists_match_of_mem_compared hc
    exact hvalue (hdropped m hm hname)

/-- `x` is compared twice in one condition, first with the greatest whole number, and once more in a
    later one; the only match of `n` is beyond 64 bits; `z` is compared below depth one. -/
def rival : TreeNode :=
  ⟨"a", "", some "input.x > 9223372036854775807 and input.x < 2",
    [⟨"b", "", some "input.n > 9223372036854775808", [⟨"d", "", some "input.z < 0", []⟩]⟩,
      ⟨"c", "", some "input.m == '7' or input.x == 1", []⟩]⟩

/-- `x` takes its value from the first of its comparisons, without wrapping around, and neither `n`
    nor `z` has one. -/
theorem rival_defaults :
    (∃ c ∈ rival.compared 1, c.name = "x" ∧ c.literal = .integer 9223372036854775807)
    ∧ (∀ m ∈ rival.matchesWithin 1, String.ofList m.name = "n" → m.literal.Valueless)
    ∧ (∃ v, (rival.defaults 1).value.find? "x" = some (.integer v)
        ∧ v.toInt = Int64.maxValue.toInt)
    ∧ (rival.defaults 1).value.find? "m" = some (.text "7")
    ∧ "n" ∉ (rival.defaults 1).value.keys ∧ "z" ∉ (rival.defaults 1).value.keys := by
  have hcompared : rival.compared 1 = [⟨"x", .greater, .integer 9223372036854775807⟩,
      ⟨"x", .less, .integer 2⟩, ⟨"m", .equal, .text "7"⟩, ⟨"x", .equal, .integer 1⟩] := rfl
  have hdropped : ∀ m ∈ rival.matchesWithin 1, String.ofList m.name = "n" → m.literal.Valueless := by
    have hall : (rival.matchesWithin 1).all (fun m =>
        String.ofList m.name != "n" || m.literal.value?.isNone) = true := by decide +kernel
    intro m hm hname
    have hnone := List.all_eq_true.1 hall m hm
    rw [hname, bne_self_eq_false, Bool.false_or, Literal.Spelling.value?_eq] at hnone
    by_contra hvalue
    rw [if_neg hvalue] at hnone
    cases hnone
  obtain ⟨hkeys, hfind, hseed, hnone⟩ := defaults_eq_first_comparison rival 1
  have hx : (⟨"x", .greater, .integer 9223372036854775807⟩ : Comparison) ∈ rival.compared 1 := by
    rw [hcompared]
    exact List.mem_cons_self
  refine ⟨⟨_, hx, rfl, rfl⟩, hdropped, ?_, ?_, hnone "n" hdropped, ?_⟩
  · obtain ⟨v, hv, hvalue⟩ := (hseed _ hx).1 _ rfl
    refine ⟨v, ?_, hvalue⟩
    rw [hfind, hcompared, ← hv]
    rfl
  · rw [hfind, hcompared]
    rfl
  · rw [hkeys, hcompared]
    simp

end TreeNode

end BranchProbe
