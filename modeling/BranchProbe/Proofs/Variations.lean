/-
  What a variation changes.

  1. `mem_variations`: a variation is the assignment with an alternative at one of its variables.
  2. `changedAt_insert` is the step: another value at a variable changes that variable only, and
     only if it is not the same value.
  3. `variations_change` puts it together with the values that are moved by their alternatives.
-/
import BranchProbe.Proofs.Alternatives
import BranchProbe.Proofs.Lookup

namespace BranchProbe.Assignment

/-- The value of a variable is not the same in two assignments that both have it. -/
def ChangedAt (base a : Assignment) (k : String) : Prop :=
  ∃ v w, base.find? k = some v ∧ a.find? k = some w ∧ ¬ w.Same v

/-- A variation is the assignment with an alternative at one of its variables. -/
theorem mem_variations {base a : Assignment} :
    a ∈ base.variations ↔ ∃ e ∈ base.entries, ∃ v ∈ e.2.alternatives, base.insert e.1 v = a := by
  simp [variations]

/-- Something holds of all variations just if it holds for every key and every alternative of its
    value. -/
theorem forall_variations {base : Assignment} {P : Assignment → Prop} :
    (∀ a ∈ base.variations, P a)
      ↔ ∀ e ∈ base.entries, ∀ v ∈ e.2.alternatives, P (base.insert e.1 v) := by
  constructor
  · exact fun h e he v hv => h _ (mem_variations.2 ⟨e, he, v, hv, rfl⟩)
  · intro h a ha
    obtain ⟨e, he, v, hv, rfl⟩ := mem_variations.1 ha
    exact h e he v hv

theorem find?_insert_ne {base : Assignment} {j k : String} (h : j ≠ k) (v : InputValue) :
    (base.insert k v).find? j = base.find? j := by
  rw [SortedMap.find?_insert, if_neg]
  exact fun heq => h (Std.LawfulEqOrd.eq_of_compare heq)

theorem find?_insert_self (base : Assignment) (k : String) (v : InputValue) :
    (base.insert k v).find? k = some v := by
  rw [SortedMap.find?_insert, if_pos Std.ReflCmp.compare_self]

/-- Another value at a variable changes that variable only, and only if it is not the same. -/
theorem changedAt_insert {base : Assignment} {e : String × InputValue} (he : e ∈ base.entries)
    {v : InputValue} {k : String} :
    base.ChangedAt (base.insert e.1 v) k ↔ k = e.1 ∧ ¬ v.Same e.2 := by
  by_cases hk : k = e.1
  · subst hk
    rw [ChangedAt, find?_insert_self, SortedMap.find?_of_mem he]
    simp
  · rw [ChangedAt, find?_insert_ne hk]
    simp only [hk, false_and, iff_false]
    rintro ⟨v, w, hv, hw, hne⟩
    rw [hv] at hw
    exact hne (Option.some.inj hw ▸ v.same_refl)

/-- One key is changed just if the new value is not the same as the old one.  Otherwise no key
    is, since all others are copied. -/
theorem existsUnique_changedAt_insert {base : Assignment} {e : String × InputValue}
    (he : e ∈ base.entries) {v : InputValue} :
    (∃! k, base.ChangedAt (base.insert e.1 v) k) ↔ ¬ v.Same e.2 := by
  simp only [changedAt_insert he]
  constructor
  · rintro ⟨k, ⟨-, hne⟩, -⟩
    exact hne
  · exact fun hne => ⟨e.1, ⟨rfl, hne⟩, fun _ h => h.1⟩

/-- A variation has the variables of the assignment and the same values but for one variable.
    That one has changed in all variations just if every value is movable: no number is zero, no
    whole one is the greatest, and no float is so far from zero that a step is lost.  Just then no
    variation is the assignment again. -/
theorem variations_change (base : Assignment) :
    (∀ a ∈ base.variations, a.keys = base.keys
        ∧ ∃ k ∈ base.keys, ∀ j, j ≠ k → a.find? j = base.find? j)
      ∧ ((∀ a ∈ base.variations, ∃! k, base.ChangedAt a k) ↔ ∀ e ∈ base.entries, e.2.Movable)
      ∧ ((∀ a ∈ base.coverageSamples.tail, ∃ k, base.ChangedAt a k)
        ↔ ∀ e ∈ base.entries, e.2.Movable) := by
  simp only [← InputValue.moves_iff_movable]
  refine ⟨forall_variations.2 fun e he v _ => ⟨SortedMap.keys_insert_of_mem he v, e.1,
    List.mem_map_of_mem he, fun j hj => find?_insert_ne hj v⟩, forall_variations.trans ?_,
    forall_variations.trans ?_⟩
  · exact forall₂_congr fun e he => forall₂_congr fun v _ => existsUnique_changedAt_insert he
  · refine forall₂_congr fun e he => forall₂_congr fun v _ => ?_
    simp only [changedAt_insert he, exists_eq_left]

/-- A zero is lowered to itself: ten less is below zero and is cut off there.  So the second
    variation of this assignment is the assignment again, and it has no key that is changed. -/
theorem zero_is_repeated :
    let base : Assignment := .ofList [("x", .integer 0)]
    base.variations = [.ofList [("x", .integer 10)], base]
      ∧ ¬ ∀ a ∈ base.variations, ∃! k, base.ChangedAt a k := by
  intro base
  refine ⟨rfl, fun h => ?_⟩
  have hmovable := (variations_change base).2.1.1 h ("x", .integer 0) List.mem_cons_self
  exact hmovable.1 rfl

end BranchProbe.Assignment
