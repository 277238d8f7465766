/-
  Derived values keep their kind in documents, but for those of an overflowing literal.

  1. `InputValue.reread_float`: a finite float is read back as a float, any other one as null.
  2. Moving a float by one does not make it finite or infinite, so it is the literal of the deciding
     comparison, and not what it is moved by, that decides how a derived value is read back.
  3. `defaults_on_wire` goes through the literals.  Whole numbers and texts come back as they are.  A
     whole number beyond 64 bits is dropped by the scanner; a decimal beyond the floats is not, and
     its variable comes back as null.
-/
import BranchProbe.Proofs.Defaults
import BranchProbe.Proofs.Document.RoundTrip
import BranchProbe.Proofs.Numeral.Finite

namespace BranchProbe

namespace InputValue

/-- The values are both flags, both whole numbers, both floats, both texts, or both neither. -/
def SameKind : InputValue → InputValue → Prop
  | .bool _, .bool _ | .integer _, .integer _ | .float _, .float _ | .text _, .text _
  | .other _, .other _ => True
  | _, _ => False

/-- A finite float is read back as a float, any other one as null. -/
theorem reread_float (x : Float) :
    (x.isFinite = true ∧ ∃ y, (float x).reread = .float y)
      ∨ (x.isFinite = false ∧ (float x).reread = .other .null) := by
  have hreread : (float x).reread = ofJson (Json.Number.float x).reread.toJson.sorted := rfl
  rw [hreread, ← Numeral.documentText?_isSome]
  have hread := (Json.Number.float x).reread_spec.1
  generalize (Json.Number.float x).reread = r at hread ⊢
  cases hread with
  | whole h => exact absurd rfl (h x)
  | float y htext => exact .inl ⟨by rw [htext]; rfl, y, rfl⟩
  | null htext => exact .inr ⟨by rw [htext]; rfl, rfl⟩

end InputValue

/-- The literal is a decimal beyond the floats. -/
def Literal.Overflows : Literal → Prop
  | .float x => x.isFinite = false
  | .integer _ | .text _ => False

instance : DecidablePred Literal.Overflows
  | .float x => inferInstanceAs (Decidable (x.isFinite = false))
  | .integer _ | .text _ => inferInstanceAs (Decidable False)

namespace Comparison

/-- A float literal asks for a float, finite just if the literal is. -/
theorem seed_float {c : Comparison} {x : Float} (hc : c.literal = .float x) :
    ∃ y, c.seed = .float y ∧ y.isFinite = x.isFinite := by
  rw [seed, hc]
  split
  · exact ⟨_, rfl, Numeral.isFinite_add_ofInt x (by decide)⟩
  · exact ⟨_, rfl, Numeral.isFinite_add_ofInt x (by decide)⟩
  · exact ⟨_, rfl, Numeral.isFinite_add_ofInt x (by decide)⟩

/-- What a comparison asks for is read back as it is, or as a value of its kind, unless the literal
    overflows. -/
theorem reread_seed (c : Comparison) :
    (c.seed.Exact → c.seed.reread = c.seed) ∧ (¬ c.literal.Overflows → c.seed.SameKind c.seed.reread)
      ∧ (c.literal.Overflows → (∃ x, c.seed = .float x) ∧ c.seed.reread = .other .null) := by
  refine ⟨InputValue.reread_eq_self, ?_⟩
  cases hc : c.literal with
  | integer n =>
    have hseed : ∃ v, c.seed = .integer v := by
      rw [seed, hc]
      split <;> exact ⟨_, rfl⟩
    obtain ⟨v, hv⟩ := hseed
    rw [hv, InputValue.reread_eq_self (v := .integer v) trivial]
    exact ⟨fun _ => trivial, False.elim⟩
  | text s =>
    rw [seed_text hc, InputValue.reread_eq_self (v := .text s) trivial]
    exact ⟨fun _ => trivial, False.elim⟩
  | float x =>
    obtain ⟨y, hy, hfinite⟩ := seed_float hc
    rw [hy, Literal.Overflows, ← hfinite]
    rcases InputValue.reread_float y with ⟨hfinite, z, hz⟩ | ⟨hinfinite, hnull⟩
    · rw [hz, hfinite]
      exact ⟨fun _ => trivial, fun h => Bool.noConfusion h⟩
    · rw [hnull]
      exact ⟨fun h => absurd hinfinite h, fun _ => ⟨⟨y, rfl⟩, rfl⟩⟩

theorem nesting_seed (c : Comparison) : c.seed.toJson.nesting = 0 := by
  rw [seed]
  cases c.literal <;> split <;> rfl

end Comparison

/-! ## Derived assignments -/

/-- The comparison that decides the default of a variable: the first one within the limit. -/
def DecisionTree.deciding? (t : DecisionTree) (limit : Nat) (k : String) : Option Comparison :=
  t.root.bind fun root => (root.compared limit).find? fun c => c.name = k

/-- The default of a variable comes from the comparison that decides it, and is missing where
    there is none. -/
theorem DecisionTree.find?_defaults (t : DecisionTree) (limit : Nat) (k : String) :
    (t.defaults limit).value.find? k = (t.deciding? limit k).map Comparison.seed := by
  rw [defaults, deciding?]
  cases t.root with
  | none => rfl
  | some root => exact root.find?_defaults limit k

/-- The derived values have no parts, so their document is an object of scalars. -/
theorem DecisionTree.nesting_defaults (t : DecisionTree) (limit : Nat) :
    (t.defaults limit).value.toJson.nesting ≤ 1 := by
  rw [Assignment.toJson, Json.nesting_object_le_iff]
  intro e he
  obtain ⟨e', he', rfl⟩ := List.mem_map.1 he
  have hfound := SortedMap.find?_eq_some_iff.2 he'
  rw [find?_defaults, Option.map_eq_some_iff] at hfound
  obtain ⟨c, -, hc⟩ := hfound
  exact Nat.le_of_eq (hc ▸ c.nesting_seed)

/-- The defaults of a tree at any limit, read back from their document.  They have the same keys.
    What is derived from a literal that does not overflow is of the same kind, and the same value if
    it is no float; what is derived from a decimal beyond the floats is a float before and null
    after. -/
theorem DecisionTree.defaults_on_wire (t : DecisionTree) (limit : Nat) :
    ∃ b : Assignment, (t.defaults limit).value.toJson.RoundTrips Assignment.decode b
      ∧ b.keys = (t.defaults limit).value.keys
      ∧ ∀ k v, (t.defaults limit).value.find? k = some v →
        ∃ c w, t.deciding? limit k = some c ∧ b.find? k = some w
          ∧ (v.Exact → w = v) ∧ (¬ c.literal.Overflows → v.SameKind w)
          ∧ (c.literal.Overflows → (∃ x, v = .float x) ∧ w = .other .null) := by
  have hroom : (t.defaults limit).value.toJson.nesting ≤ Json.depthLimit :=
    Nat.le_trans (t.nesting_defaults limit) (by decide)
  refine ⟨(t.defaults limit).value.reread, Json.roundTrips_reread (Assignment.reads_reread _ hroom),
    SortedMap.keys_mapValues _ _, ?_⟩
  intro k v hv
  have hseed := hv
  rw [find?_defaults, Option.map_eq_some_iff] at hseed
  obtain ⟨c, hc, rfl⟩ := hseed
  refine ⟨c, c.seed.reread, hc, ?_, c.reread_seed⟩
  rw [Assignment.reread, SortedMap.find?_mapValues, hv]
  rfl

/-- `x` is compared with the first power of ten beyond the floats, written out, and `y` with a decimal
    among them. -/
def overflowing : List Char :=
  "input.x > 1".toList ++ List.replicate 309 '0' ++ ".0 and input.y < 2.5".toList

/-- A tree of one node with that condition. -/
def DecisionTree.beyond : DecisionTree :=
  ⟨some ⟨"a", "", some (String.ofList overflowing), []⟩, []⟩

/-- The comparisons of the tree, without the way through the text of the condition. -/
theorem TreeNode.compared_overflowing :
    TreeNode.compared ⟨"a", "", some (String.ofList overflowing), []⟩ 0
      = (matchesFrom 0 overflowing).filterMap Match.comparison? := by
  have hwithin : TreeNode.within ⟨"a", "", some (String.ofList overflowing), []⟩ 0
      = [⟨"a", "", some (String.ofList overflowing), []⟩] := rfl
  rw [compared, hwithin, List.flatMap_singleton, comparisons, String.toList_ofList]

/-- What the deciding comparison of a variable of the tree is like. -/
theorem DecisionTree.exists_deciding_beyond (k : String) (p : Literal → Bool)
    (h : (((matchesFrom 0 overflowing).filterMap Match.comparison?).find?
      fun c => c.name = k).any (fun c => p c.literal) = true) :
    ∃ c, beyond.deciding? 0 k = some c ∧ p c.literal = true := by
  have hdeciding : beyond.deciding? 0 k = ((matchesFrom 0 overflowing).filterMap
      Match.comparison?).find? fun c => c.name = k := by
    rw [deciding?, beyond, Option.bind_some, TreeNode.compared_overflowing]
  rw [hdeciding]
  exact (Option.any_eq_true _ _).1 h

/-- Both values are floats; `y` is read back as a float and `x` as null. -/
theorem DecisionTree.beyond_on_wire :
    ∃ b : Assignment, (beyond.defaults 0).value.toJson.RoundTrips Assignment.decode b
      ∧ (∃ x, (beyond.defaults 0).value.find? "x" = some (.float x)
        ∧ b.find? "x" = some (.other .null))
      ∧ ∃ y z, (beyond.defaults 0).value.find? "y" = some (.float y)
        ∧ b.find? "y" = some (.float z) := by
  obtain ⟨cx, hcx, hx⟩ := exists_deciding_beyond "x"
    (fun l => decide l.Overflows) (by decide +kernel)
  obtain ⟨cy, hcy, hy⟩ := exists_deciding_beyond "y"
    (fun l => l matches .float _ && !decide l.Overflows) (by decide +kernel)
  obtain ⟨b, hb, -, hvalue⟩ := defaults_on_wire beyond 0
  have hfound : ∀ {k c}, beyond.deciding? 0 k = some c →
      (beyond.defaults 0).value.find? k = some c.seed := by
    intro k c hc
    rw [find?_defaults, hc]
    rfl
  refine ⟨b, hb, ?_, ?_⟩
  · obtain ⟨c, w, hc, hw, -, -, hnull⟩ := hvalue "x" cx.seed (hfound hcx)
    obtain rfl := Option.some.inj (hcx.symm.trans hc)
    obtain ⟨⟨x, hseed⟩, rfl⟩ := hnull (of_decide_eq_true hx)
    exact ⟨x, by rw [hfound hcx, hseed], hw⟩
  · obtain ⟨c, w, hc, hw, -, hkind, -⟩ := hvalue "y" cy.seed (hfound hcy)
    obtain rfl := Option.some.inj (hcy.symm.trans hc)
    obtain ⟨hfloat, hfinite⟩ := Bool.and_eq_true_iff.1 hy
    cases hl : cy.literal with
    | integer n =>
      rw [hl] at hfloat
      cases hfloat
    | text s =>
      rw [hl] at hfloat
      cases hfloat
    | float x =>
      obtain ⟨y, hseed, -⟩ := Comparison.seed_float hl
      have hsame := hkind (by simpa using hfinite)
      rw [hseed] at hsame
      cases w with
      | float z => exact ⟨y, z, by rw [hfound hcy, hseed], hw⟩
      | _ => exact absurd hsame id

end BranchProbe
