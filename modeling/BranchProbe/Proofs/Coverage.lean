/-
  The samples that cover an assignment, one after the other.

  1. `InputValue.Tries` says for each kind of value what is tried in its place, for whole numbers in
     unbounded integers.  The alternatives of a value are just that (`tries_alternatives`).
  2. `Assignment.CopyWith`: a copy has another value at one variable, and else the variables and the
     values of the assignment.  `Assignment.Block` is the step, the copies for one variable.
  3. `coverageSamples_exact` is the run: the samples are the assignment and then one block for each
     variable, in the order of the names.  Length, variables and kinds are read off the blocks.
-/
import BranchProbe.Proofs.Document.Kinds
import BranchProbe.Proofs.Variations

namespace BranchProbe

namespace InputValue

/-- What is tried in place of a value. -/
inductive Tries : InputValue → List InputValue → Prop
  /-- a step up, but not beyond 64 bits, and a step down, but not below zero -/
  | integer {n up down : Int64} (hup : up.toInt = min (n.toInt + 10) Int64.maxValue.toInt)
      (hdown : down.toInt = max 0 (n.toInt - 10)) : Tries (.integer n) [.integer up, .integer down]
  | float (x up down : Float) : Tries (.float x) [.float up, .float down]
  | emptyText : Tries (.text "") [.text "alternative"]
  | fullText {s : String} (h : s ≠ "") : Tries (.text s) [.text ""]
  | bool (b : Bool) : Tries (.bool b) []
  | other (value : Json) : Tries (.other value) []

/-- Is the value a text? -/
def isText : InputValue → Bool
  | .text _ => true
  | .bool _ | .integer _ | .float _ | .other _ => false

/-- The alternatives of a value are the ones that are to be tried, case by case. -/
theorem tries_alternatives (v : InputValue) : v.Tries v.alternatives := by
  cases v with
  | integer n =>
    obtain ⟨up, down, halternatives, hup, hdown⟩ := alternatives_integer n
    rw [halternatives]
    exact .integer hup hdown
  | float x => exact .float x _ _
  | text s =>
    rw [alternatives]
    split
    · next hempty =>
      obtain rfl : s = "" := String.isEmpty_iff.1 hempty
      exact .emptyText
    · next hfull => exact .fullText fun h => hfull (String.isEmpty_iff.2 h)
  | bool b => exact .bool b
  | other value => exact .other value

theorem SameKind.refl (v : InputValue) : v.SameKind v := by
  cases v <;> trivial

namespace Tries

variable {v : InputValue} {tried : List InputValue} (h : v.Tries tried)

include h

/-- Two values are tried for a number, one for a text, and none for anything else. -/
theorem length_eq :
    tried.length = 2 * (if v.isNumeric then 1 else 0) + if v.isText then 1 else 0 := by
  cases h <;> rfl

/-- What is tried is of the kind of the value: numbers move by steps and texts are filled or
    emptied, but neither becomes the other. -/
theorem sameKind {w : InputValue} (hw : w ∈ tried) : v.SameKind w := by
  cases h with
  | integer | float =>
    rcases List.mem_pair.1 hw with rfl | rfl <;> trivial
  | emptyText | fullText =>
    obtain rfl := List.mem_singleton.1 hw
    trivial
  | bool | other => cases hw

omit h in
/-- A whole number is not raised below itself, and not lowered below zero. -/
theorem bounds {n : Int64} {tried : List InputValue} (h : (InputValue.integer n).Tries tried) :
    ∃ up down, tried = [.integer up, .integer down] ∧ n.toInt ≤ up.toInt ∧ 0 ≤ down.toInt := by
  cases h with
  | @integer _ up down hup hdown =>
    have hle := Int64.toInt_le n
    have hmax : Int64.maxValue.toInt = 9223372036854775807 := rfl
    exact ⟨up, down, rfl, by omega, by omega⟩

end Tries

end InputValue

namespace Assignment

/-! ## Blocks of copies -/

/-- `a` is a copy of `base` with the value `v` at the variable `k`. -/
structure CopyWith (base : Assignment) (k : String) (v : InputValue) (a : Assignment) : Prop where
  keys : a.keys = base.keys
  changed : a.find? k = some v
  kept : ∀ j, j ≠ k → a.find? j = base.find? j

/-- One copy of `base` for each value that is tried at the variable of an entry. -/
def Block (base : Assignment) (e : String × InputValue) (block : List Assignment) : Prop :=
  ∃ tried, e.2.Tries tried ∧ List.Forall₂ (fun v a => base.CopyWith e.1 v a) tried block

/-- Putting a value in under a key that is there copies the rest, keys included. -/
theorem copyWith_insert {base : Assignment} {e : String × InputValue} (he : e ∈ base.entries)
    (v : InputValue) : base.CopyWith e.1 v (base.insert e.1 v) where
  keys := SortedMap.keys_insert_of_mem he v
  changed := find?_insert_self base e.1 v
  kept _ hj := find?_insert_ne hj v

/-- The samples for one key are a block: copies that differ at this key, one for each
    alternative. -/
theorem block_map {base : Assignment} {e : String × InputValue} (he : e ∈ base.entries) :
    base.Block e (e.2.alternatives.map fun v => base.insert e.1 v) := by
  refine ⟨_, e.2.tries_alternatives, ?_⟩
  rw [List.forall₂_map_right_iff, List.forall₂_same]
  intro v _
  exact copyWith_insert he v

/-- The copies of some blocks are two for each number and one for each text. -/
theorem length_flatten_blocks {base : Assignment} {es : List (String × InputValue)}
    {blocks : List (List Assignment)} (h : List.Forall₂ base.Block es blocks) :
    blocks.flatten.length
      = 2 * es.countP (fun e => e.2.isNumeric) + es.countP (fun e => e.2.isText) := by
  induction h with
  | nil => rfl
  | cons hblock _ ih =>
    obtain ⟨tried, htries, hcopies⟩ := hblock
    rw [List.flatten_cons, List.length_append, ih, ← hcopies.length_eq, htries.length_eq,
      List.countP_cons, List.countP_cons]
    omega

/-! ## The samples -/

/-- A sample is the assignment itself, or a copy with a value tried at one of its entries. -/
theorem forall_coverageSamples {base : Assignment} {P : Assignment → Prop} (hbase : P base)
    (hcopy : ∀ e ∈ base.entries, ∀ v, e.2.SameKind v → ∀ a, base.CopyWith e.1 v a → P a) :
    ∀ a ∈ base.coverageSamples, P a := by
  rw [coverageSamples, List.forall_mem_cons, forall_variations]
  refine ⟨hbase, ?_⟩
  intro e he v hv
  have hkind : e.2.SameKind v := e.2.tries_alternatives.sameKind hv
  exact hcopy e he v hkind _ (copyWith_insert he v)

/-- A copy with a value of the same kind at one variable has values of the same kinds at all. -/
theorem CopyWith.sameKind {base a : Assignment} {e : String × InputValue} (he : e ∈ base.entries)
    {v : InputValue} (hv : e.2.SameKind v) (h : base.CopyWith e.1 v a) {k : String}
    {x y : InputValue} (hx : base.find? k = some x) (hy : a.find? k = some y) : x.SameKind y := by
  by_cases hk : k = e.1
  · subst hk
    obtain rfl : e.2 = x := Option.some.inj ((SortedMap.find?_of_mem he).symm.trans hx)
    obtain rfl : v = y := Option.some.inj (h.changed.symm.trans hy)
    exact hv
  · rw [h.kept k hk, hx] at hy
    obtain rfl := Option.some.inj hy
    exact .refl x

/-- The samples for any assignment are the assignment and then, for one variable after the other in
    the order of the names, the copies with what is tried in place of its value, and nothing else
    changed.  So their number is known from the kinds of the values; all of them have the variables
    of the assignment, with values of the same kinds; and no whole number wraps around. -/
theorem coverageSamples_exact (base : Assignment) :
    base.keys.Pairwise (· < ·)
    ∧ (∃ blocks, base.coverageSamples = base :: blocks.flatten
      ∧ List.Forall₂ base.Block base.entries blocks)
    ∧ base.coverageSamples.length = 1 + 2 * base.entries.countP (fun e => e.2.isNumeric)
      + base.entries.countP (fun e => e.2.isText)
    ∧ (∀ a ∈ base.coverageSamples, a.keys = base.keys
      ∧ ∀ k v w, base.find? k = some v → a.find? k = some w → v.SameKind w)
    ∧ (∀ n tried, (InputValue.integer n).Tries tried →
      ∃ up down, tried = [.integer up, .integer down]
        ∧ n.toInt ≤ up.toInt ∧ 0 ≤ down.toInt) := by
  have hblocks : List.Forall₂ base.Block base.entries
      (base.entries.map fun e => e.2.alternatives.map fun v => base.insert e.1 v) := by
    rw [List.forall₂_map_right_iff, List.forall₂_same]
    intro e he
    exact block_map he
  have hsamples : base.coverageSamples = base
      :: (base.entries.map fun e => e.2.alternatives.map fun v => base.insert e.1 v).flatten := by
    rw [coverageSamples, variations, List.flatMap_def]
  refine ⟨base.keys_ascending, ⟨_, hsamples, hblocks⟩, ?_, ?_, fun n tried h => h.bounds⟩
  · rw [hsamples, List.length_cons, length_flatten_blocks hblocks]
    omega
  -- the base itself comes first, and then copies with one value changed
  · apply forall_coverageSamples
    · refine ⟨rfl, ?_⟩
      intro k v w hv hw
      obtain rfl := Option.some.inj (hv.symm.trans hw)
      exact .refl v
    · intro e he v hv a ha
      refine ⟨ha.keys, ?_⟩
      intro k x y hx hy
      exact ha.sameKind he hv hx hy

/-- The greatest number, a small one, an empty text and a flag. -/
def greatestAndSmall : Assignment :=
  .ofList [("y", .integer 3), ("x", .integer 9223372036854775807), ("z", .text ""),
    ("flag", .bool true)]

/-- Six samples, and in the one that lowers `y` that is zero, while `x` is as before. -/
theorem greatestAndSmall_coverage :
    greatestAndSmall.coverageSamples.length = 6
    ∧ (∃ a ∈ greatestAndSmall.coverageSamples,
      a.keys = greatestAndSmall.keys ∧ a.find? "y" = some (.integer 0)
      ∧ (InputValue.integer 3).SameKind (.integer 0)
      ∧ a.find? "x" = some (.integer 9223372036854775807))
    ∧ ∃ up down, [InputValue.integer 9223372036854775807, .integer 9223372036854775797]
        = [.integer up, .integer down]
      ∧ (9223372036854775807 : Int64).toInt ≤ up.toInt ∧ 0 ≤ down.toInt := by
  obtain ⟨-, -, hlength, hkinds, hbounds⟩ := coverageSamples_exact greatestAndSmall
  have hentry : ("y", InputValue.integer 3) ∈ greatestAndSmall.entries :=
    SortedMap.find?_eq_some_iff.1 rfl
  have hlowered : greatestAndSmall.insert "y" (.integer 0) ∈ greatestAndSmall.coverageSamples :=
    List.mem_cons_of_mem _ (mem_variations.2
      ⟨_, hentry, .integer 0, List.mem_cons_of_mem _ List.mem_cons_self, rfl⟩)
  obtain ⟨hkeys, hkind⟩ := hkinds _ hlowered
  refine ⟨hlength, ⟨_, hlowered, hkeys, rfl, hkind "y" _ _ rfl rfl, rfl⟩, ?_⟩
  exact hbounds _ _ (.integer (by decide) (by decide))

end Assignment

end BranchProbe
