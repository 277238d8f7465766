/-
  What the check of a tree reports.

  1. `FirstRepeat ids x`: going through the ids, `x` is the first one that has stood there before.
     Some id is iff the ids are not distinct (`exists_firstRepeat_iff`).
  2. `IdCheck.Follows check ids` is the invariant of the check of the ids: it has met just these,
     and holds their first repeat.  `Follows.meet` is the step, `Follows.foldl_meet` the run.
  3. `validate_exact` reads the four results off the two halves of the verdict, the first repeat
     within the limit and the depth.

  The check is cut at the limit, and still a valid tree has no repeat anywhere: a tree that is cut
  is refused for its depth, and in any other one the nodes within the limit are all its nodes.
-/
import BranchProbe.Proofs.Tree.Limits
import Mathlib.Data.List.Induction

namespace BranchProbe

/-! ## The first repeat -/

/-- `x` is the first of the ids that has stood there before. -/
def FirstRepeat (ids : List String) (x : String) : Prop :=
  ∃ before after, ids = before ++ x :: after ∧ before.Nodup ∧ x ∈ before

theorem not_firstRepeat_nil (x : String) : ¬ FirstRepeat [] x := by
  rintro ⟨before, after, hids, -, -⟩
  simp at hids

/-- One more id is the first repeat only if there was none before: the first id that is met again
    does not change by what comes later. -/
theorem firstRepeat_concat {ids : List String} {id x : String} :
    FirstRepeat (ids ++ [id]) x ↔ FirstRepeat ids x ∨ ids.Nodup ∧ id ∈ ids ∧ id = x := by
  constructor
  · rintro ⟨before, after, hids, hnodup, hmem⟩
    rcases List.eq_nil_or_concat after with rfl | ⟨after, last, rfl⟩
    · obtain ⟨rfl, hid⟩ := List.append_inj' hids rfl
      obtain rfl := List.singleton_inj.1 hid
      exact .inr ⟨hnodup, hmem, rfl⟩
    · rw [List.concat_eq_append, ← List.cons_append, ← List.append_assoc] at hids
      exact .inl ⟨before, after, (List.append_inj' hids rfl).1, hnodup, hmem⟩
  · rintro (⟨before, after, rfl, hnodup, hmem⟩ | ⟨hnodup, hmem, rfl⟩)
    · exact ⟨before, after ++ [id], by simp, hnodup, hmem⟩
    · exact ⟨ids, [], rfl, hnodup, hmem⟩

/-- Some id is repeated first iff the ids are not distinct.  The induction adds ids at the end,
    as the check goes through them. -/
theorem exists_firstRepeat_iff {ids : List String} : (∃ x, FirstRepeat ids x) ↔ ¬ ids.Nodup := by
  induction ids using List.reverseRecOn with
  | nil =>
    constructor
    · rintro ⟨x, h⟩
      exact absurd h (not_firstRepeat_nil x)
    · intro h
      exact absurd List.nodup_nil h
  | append_singleton ids id ih =>
    simp only [firstRepeat_concat, exists_or, ih, exists_and_left, exists_eq', and_true]
    rw [← List.concat_eq_append, List.nodup_concat]
    tauto

/-! ## The check of the ids -/

namespace IdCheck

/-- The check has met these ids, and holds the first one that was repeated. -/
structure Follows (check : IdCheck) (ids : List String) : Prop where
  met : ∀ x, x ∈ check.met ↔ x ∈ ids
  repeated : ∀ x, check.repeated = some x ↔ FirstRepeat ids x

/-- An id that was met before is reported, unless an earlier one was already. -/
theorem meet_of_mem {check : IdCheck} {id : String} (h : id ∈ check.met) :
    check.meet id = { check with repeated := check.repeated.or (some id) } := by
  rw [meet, if_pos (List.contains_iff_mem.2 h)]

theorem meet_of_not_mem {check : IdCheck} {id : String} (h : id ∉ check.met) :
    check.meet id = { check with met := id :: check.met } := by
  rw [meet, if_neg fun hcontains => h (List.contains_iff_mem.1 hcontains)]

/-- Before the first id nothing was met and nothing is reported; this is where the invariant
    starts. -/
theorem follows_start : start.Follows [] where
  met _ := Iff.rfl
  repeated x := iff_of_false (by simp [start]) (not_firstRepeat_nil x)

namespace Follows

variable {check : IdCheck} {ids : List String} (h : check.Follows ids)

include h

/-- Nothing is reported just if the ids are distinct.  It is read off the invariant, for the list
    of all ids that were met. -/
theorem repeated_eq_none_iff : check.repeated = none ↔ ids.Nodup := by
  rw [← not_iff_not, ← exists_firstRepeat_iff, ← ne_eq, Option.ne_none_iff_exists']
  exact exists_congr h.repeated

/-- The step: one more id keeps the invariant.  If it was met before it is reported, unless one
    was reported already, and else it is added to those that were met. -/
theorem meet (id : String) : (check.meet id).Follows (ids ++ [id]) := by
  by_cases hmem : id ∈ ids
  · rw [meet_of_mem ((h.met id).2 hmem)]
    constructor
    · intro x
      show x ∈ check.met ↔ x ∈ ids ++ [id]
      rw [h.met, List.mem_append, List.mem_singleton]
      constructor
      · intro hx
        exact .inl hx
      · rintro (hx | rfl)
        · exact hx
        · exact hmem
    · -- it is the first repeat unless there was one before
      intro x
      show check.repeated.or (some id) = some x ↔ FirstRepeat (ids ++ [id]) x
      rw [firstRepeat_concat, ← h.repeated, ← h.repeated_eq_none_iff]
      cases check.repeated with
      | some first => simp
      | none => simp [hmem]
  · rw [meet_of_not_mem fun hmet => hmem ((h.met id).1 hmet)]
    constructor
    · intro x
      show x ∈ id :: check.met ↔ x ∈ ids ++ [id]
      rw [List.mem_cons, h.met, List.mem_append, List.mem_singleton, or_comm]
    · intro x
      show check.repeated = some x ↔ FirstRepeat (ids ++ [id]) x
      rw [firstRepeat_concat, ← h.repeated]
      simp [hmem]

/-- The run: some more ids keep the invariant, by induction on them.  What has been met are then
    all of these ids. -/
theorem foldl_meet (more : List String) : (more.foldl IdCheck.meet check).Follows (ids ++ more) := by
  induction more generalizing check ids with
  | nil => rwa [List.append_nil]
  | cons id rest ih =>
    have hrest := ih (h.meet id)
    rwa [List.append_assoc, List.singleton_append] at hrest

end Follows

end IdCheck

/-! ## The verdict -/

namespace TreeNode

/-- The ids of the nodes at depth `limit` or above, in pre-order. -/
def idsWithin (root : TreeNode) (limit : Nat) : List String := (root.within limit).map TreeNode.id

/-- The check follows the ids within the limit: it meets what the walk visits, in the same order,
    and the invariant holds at its end. -/
theorem exists_check (root : TreeNode) (limit : Nat) :
    ∃ check, root.checkFrom limit 0 .start = (check, (root.walk limit).complete)
      ∧ check.Follows (root.idsWithin limit) := by
  refine ⟨_, checkFrom_eq limit 0 root .start, ?_⟩
  have hrun := IdCheck.follows_start.foldl_meet (((root.walk limit).visited).map fun v => v.2.id)
  rw [walk_visited] at hrun
  rw [meetAll, ← walk, walk_visited, idsWithin, within, List.map_map]
  exact hrun

/-- In a tree that is not too deep the ids within the limit are all ids. -/
theorem nodup_idsWithin_iff {root : TreeNode} {limit : Nat} (h : root.depth ≤ limit + 1) :
    (root.idsWithin limit).Nodup ↔ root.DistinctIds := by
  rw [idsWithin, within, filter_preorder_of_depth_le h, List.map_map]
  exact Iff.rfl

end TreeNode

namespace DecisionTree

/-- The result of the check in terms of what the check of the ids has come to. -/
theorem validate_of_check {t : DecisionTree} {root : TreeNode} {limit : Nat} {check : IdCheck}
    {complete : Bool} (hroot : t.root = some root)
    (hcheck : root.checkFrom limit 0 .start = (check, complete)) :
    (t.validate limit = .ok () ↔ check.repeated = none ∧ complete = true)
    ∧ t.validate limit ≠ .error .missingRoot
    ∧ (∀ x, t.validate limit = .error (.duplicateId x) ↔ check.repeated = some x)
    ∧ (∀ m, t.validate limit = .error (.depthExceeded m)
      ↔ m = limit ∧ check.repeated = none ∧ complete = false) := by
  rw [validate, hroot]
  simp only [hcheck]
  cases check.repeated with
  | some id => simp
  | none => cases complete <;> simp [eq_comm]

/-- A tree is valid just if it has a root, lies within the limit and repeats no id.  A check that was
    stopped by the limit is no success, so the ids of the nodes that it has met are all ids of the
    tree. -/
theorem validate_eq_ok_iff {t : DecisionTree} {limit : Nat} :
    t.validate limit = .ok ()
      ↔ ∃ root, t.root = some root ∧ root.depth ≤ limit + 1 ∧ root.DistinctIds := by
  cases hroot : t.root with
  | none => simp [validate, hroot]
  | some root =>
    obtain ⟨check, hcheck, hfollows⟩ := root.exists_check limit
    obtain ⟨hok, -⟩ := validate_of_check hroot hcheck
    simp only [Option.some.injEq, exists_eq_left']
    rw [hok, hfollows.repeated_eq_none_iff, root.walk_complete_iff limit, and_comm]
    exact and_congr_right fun hle => TreeNode.nodup_idsWithin_iff hle

/-- The results of the check, for any tree and limit.  A tree is valid iff it has a root, at most
    `limit + 1` levels, and nowhere an id twice.  What is reported else is that there is no root; or
    the first id in pre-order that is met again within the limit, if there is one; or that the tree is
    too deep. -/
theorem validate_exact (t : DecisionTree) (limit : Nat) :
    (t.validate limit = .ok ()
      ↔ ∃ root, t.root = some root ∧ root.depth ≤ limit + 1 ∧ root.DistinctIds)
    ∧ (t.validate limit = .error .missingRoot ↔ t.root = none)
    ∧ ((∃ x, t.validate limit = .error (.duplicateId x))
      ↔ ∃ root, t.root = some root ∧ ¬ (root.idsWithin limit).Nodup)
    ∧ (∀ x, t.validate limit = .error (.duplicateId x)
      ↔ ∃ root, t.root = some root ∧ FirstRepeat (root.idsWithin limit) x)
    ∧ (∀ m, t.validate limit = .error (.depthExceeded m)
      ↔ m = limit ∧ ∃ root, t.root = some root
        ∧ (root.idsWithin limit).Nodup ∧ limit + 1 < root.depth) := by
  refine ⟨validate_eq_ok_iff, ?_⟩
  cases hroot : t.root with
  | none => simp [validate, hroot]
  | some root =>
    obtain ⟨check, hcheck, hfollows⟩ := root.exists_check limit
    obtain ⟨-, hmissing, hduplicate, hdeep⟩ := validate_of_check hroot hcheck
    have hfirst : ∀ x, t.validate limit = .error (.duplicateId x)
        ↔ FirstRepeat (root.idsWithin limit) x :=
      fun x => (hduplicate x).trans (hfollows.repeated x)
    simp only [Option.some.injEq, exists_eq_left', reduceCtorEq, iff_false]
    refine ⟨hmissing, ?_, hfirst, fun m => ?_⟩
    · rw [← exists_firstRepeat_iff]
      exact exists_congr hfirst
    · rw [hdeep, hfollows.repeated_eq_none_iff, ← Bool.not_eq_true, root.walk_complete_iff limit,
        Nat.not_le]

/-- An id that is repeated below the limit only is not reported, and still the tree is not valid. -/
example :
    DecisionTree.validate ⟨some ⟨"a", "", none, [⟨"b", "", none, [⟨"a", "", none, []⟩]⟩]⟩, []⟩ 1
      = .error (.depthExceeded 1) := by
  rfl

end DecisionTree

end BranchProbe
