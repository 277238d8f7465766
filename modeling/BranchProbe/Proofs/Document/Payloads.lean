/-
  Requests carry the tree and the assignments that they are made from.

  1. `Payload.decode` reads a request: a tree and one more member, both of them required.  Read as
     any value, a request shows that there is no third (`reads_members`).
  2. Variations of an exact assignment are exact, so with a base without floats all samples come
     back as they are.
  3. `payloads_carry` is assembled from what trees and assignments are reread as.  The texts of
     floats are read by a division or a product of two floats, which may be one step off; so the
     samples that come with the tree are the one place where a request may not give back what was
     put in.
-/
import BranchProbe.Payload
import BranchProbe.Proofs.Document.Kinds

namespace BranchProbe

open Json (Syntax Reads Fault anyValue listOf field record reads_record reads_field room_of_object
  room_of_list)

/-! ## Reading requests -/

namespace Payload

/-- A request with a tree and one more member, both of them required. -/
def decode {β : Type} (name key : String) (blank : β) (read : (room : Nat) → Syntax → Except Fault β)
    (room : Nat) : Syntax → Except Fault (DecisionTree × β) :=
  record room name (.empty, blank)
    [field "tree" true (DecisionTree.decode (room - 1)) fun x r => (x, r.2),
     field key true (read (room - 1)) fun x r => (r.1, x)]

/-- The request for a simulation. -/
def decodeSimulation : (room : Nat) → Syntax → Except Fault (DecisionTree × Assignment) :=
  decode "SimulationRequest" "input_values" .empty Assignment.decode

/-- The request for the nodes that no sample reaches. -/
def decodeUnreachable : (room : Nat) → Syntax → Except Fault (DecisionTree × List Assignment) :=
  decode "UnreachableRequest" "sample_inputs" [] fun room =>
    listOf room (Assignment.decode (room - 1))

/-- A request is read from its two members, if there is room inside.  Both requests have a tree
    and one more member, so they share this lemma. -/
theorem reads_decode {β : Type} {name key : String} {blank : β}
    {read : (room : Nat) → Syntax → Except Fault β} {inside : Nat} {tree value : Json}
    {t : DecisionTree} {x : β} (hkey : key ≠ "tree")
    (htree : Reads (DecisionTree.decode inside) tree t) (hvalue : Reads (read inside) value x) :
    Reads (decode name key blank read (inside + 1)) (.object [("tree", tree), (key, value)])
      (t, x) := by
  refine reads_record (Nat.succ_pos _) ?_ (by simp [field])
  have hfind : [field "tree" true (DecisionTree.decode inside)
        fun x (r : DecisionTree × β) => (x, r.2),
      field key true (read inside) fun x r => (r.1, x)].find? (·.name == key)
      = some (field key true (read inside) fun x r => (r.1, x)) := by
    simp [field, hkey.symm]
  exact .cons _ rfl (by simp) (reads_field htree _ _ _ _)
    (.cons _ hfind (by simp [hkey]) (reads_field hvalue _ _ _ _) .nil)

/-- Read as any value, a request has its two members and no other, in ascending order. -/
theorem reads_members {room : Nat} {key : String} {tree value : Json}
    (hkey : compare key "tree" = .lt)
    (h : (Json.object [("tree", tree), (key, value)]).nesting ≤ room) :
    Reads (anyValue room) (.object [("tree", tree), (key, value)])
      (.object [(key, value.sorted), ("tree", tree.sorted)]) := by
  have hread := Json.reads_anyValue_sorted room _ h
  have hsorted : (Json.object [("tree", tree), (key, value)]).sorted
      = .object [(key, value.sorted), ("tree", tree.sorted)] := by
    simp [Json.sorted, Json.sortedMembers, SortedMap.ofList, SortedMap.insert, SortedMap.empty,
      SortedMap.insertEntry, hkey]
  rwa [hsorted] at hread

/-- The request for one simulation is read as the tree and the assignment, each as its text says. -/
theorem reads_simulation (t : DecisionTree) (b : Assignment) {room : Nat}
    (h : (simulation t b).nesting ≤ room) :
    Reads (decodeSimulation room) (simulation t b).reread (t.reread, b.reread) := by
  obtain ⟨inside, rfl, hvalue⟩ := room_of_object h
  have htree := t.reads_reread (hvalue ("tree", t.toJson) (by simp))
  have hinputs := b.reads_reread (hvalue ("input_values", b.toJson) (by simp))
  exact reads_decode (by decide) htree hinputs

/-- The request for unreachable nodes is read as the tree and the samples, each as its text says. -/
theorem reads_unreachable (t : DecisionTree) (samples : List Assignment) {room : Nat}
    (h : (unreachable t samples).nesting ≤ room) :
    Reads (decodeUnreachable room) (unreachable t samples).reread
      (t.reread, samples.map Assignment.reread) := by
  obtain ⟨_, rfl, hvalue⟩ := room_of_object h
  have htree := t.reads_reread (hvalue ("tree", t.toJson) (by simp))
  obtain ⟨inside, rfl, hsample⟩ :=
    room_of_list (hvalue ("sample_inputs", .list (samples.map Assignment.toJson)) (by simp))
  have hsamples := Json.reads_listOf_map (Nat.succ_pos inside) samples
    (fun a => a.toJson.reread) Assignment.reread fun a ha =>
      a.reads_reread (hsample _ (List.mem_map_of_mem ha))
  have hreread : (Json.list (samples.map Assignment.toJson)).reread
      = .list (samples.map fun a => a.toJson.reread) := by
    rw [Json.reread, Json.rereadAll_eq_map, List.map_map]
    rfl
  rw [← hreread] at hsamples
  exact reads_decode (by decide) htree hsamples

end Payload

/-! ## Variations -/

/-- The other values tried for a value are told apart by their JSON form if it is. -/
theorem InputValue.exact_of_mem_alternatives {v w : InputValue} (hv : v.Exact)
    (hw : w ∈ v.alternatives) : w.Exact := by
  cases v with
  | integer n =>
    simp only [alternatives, List.mem_cons, List.not_mem_nil, or_false] at hw
    rcases hw with rfl | rfl <;> trivial
  | text s =>
    rw [alternatives] at hw
    split at hw
    · rw [List.mem_singleton.1 hw]
      trivial
    · rw [List.mem_singleton.1 hw]
      trivial
  | float x => exact absurd hv id
  | bool b => cases hw
  | other value => cases hw

/-- Variations of an exact assignment are exact, as the alternatives of a value are of its kind. -/
theorem Assignment.exact_of_mem_variations {a b : Assignment} (ha : a.Exact)
    (hb : b ∈ a.variations) : b.Exact := by
  rw [variations, List.mem_flatMap] at hb
  obtain ⟨e, he, hb⟩ := hb
  obtain ⟨v, hv, rfl⟩ := List.mem_map.1 hb
  have hexact := InputValue.exact_of_mem_alternatives (ha e he) hv
  intro e' he'
  rcases SortedMap.mem_insertEntry he' with hold | rfl | ⟨-, -, hvalue, -⟩
  · exact ha e' hold
  · exact hexact
  · rw [hvalue]
    exact hexact

/-! ## What requests carry -/

/-- The assignment `a` is read as `a'`: the same variables, with values without floats as they are
    and finite floats as floats. -/
def Assignment.ReadAs (a a' : Assignment) : Prop :=
  a'.keys = a.keys ∧ ∀ k v, a.find? k = some v → ∃ w, a'.find? k = some w ∧ (v.Exact → w = v)
    ∧ ∀ x, v = .float x → x.isFinite = true → ∃ y, w = .float y

/-- An assignment is reread under the same keys, with values of which only floats can differ. -/
theorem Assignment.readAs_reread (a : Assignment) : a.ReadAs a.reread := by
  refine ⟨SortedMap.keys_mapValues _ _, fun k v hv => ⟨v.reread, ?_, InputValue.reread_eq_self, ?_⟩⟩
  · rw [reread, SortedMap.find?_mapValues, hv]
    rfl
  · rintro x rfl hx
    rcases InputValue.reread_float x with ⟨-, hy⟩ | ⟨hinfinite, -⟩
    · exact hy
    · rw [hx] at hinfinite
      cases hinfinite

/-- Both requests, made from any tree and any base assignment, as far as at most 127 lists and objects
    lie inside each other.  They have two members each and no other.  The tree that is read has the
    same root, and samples of the same names whose values may differ in floats only; so the tree
    comes back as it is if its samples have no floats.  The assignments are read in the same way,
    the base first and then its variations, and are the same if the base has no floats.  Without a
    base the samples are those of the defaults, also for a tree without root. -/
theorem DecisionTree.payloads_carry (t : DecisionTree) (b : Assignment) (limit : Nat) :
    (∃ t' b' bs', t'.root = t.root
      ∧ List.Forall₂ (fun s s' => s'.name = s.name ∧ s.values.ReadAs s'.values) t.samples t'.samples
      ∧ (t.Exact → t' = t)
      ∧ List.Forall₂ Assignment.ReadAs (b :: b.variations) (b' :: bs')
      ∧ (b.Exact → b' = b ∧ bs' = b.variations)
      ∧ ((Payload.simulation t b).nesting ≤ 127 →
        (∃ inputs tree, (Payload.simulation t b).RoundTrips anyValue
          (.object [("input_values", inputs), ("tree", tree)]))
        ∧ (Payload.simulation t b).RoundTrips Payload.decodeSimulation (t', b'))
      ∧ ((Payload.unreachable t (t.samplesFrom limit (some b)).value).nesting ≤ 127 →
        (∃ samples tree, (Payload.unreachable t (t.samplesFrom limit (some b)).value).RoundTrips
          anyValue (.object [("sample_inputs", samples), ("tree", tree)]))
        ∧ (Payload.unreachable t (t.samplesFrom limit (some b)).value).RoundTrips
          Payload.decodeUnreachable (t', b' :: bs')))
    ∧ (t.samplesFrom limit none).value
      = (t.samplesFrom limit (some (t.defaults limit).value)).value
    ∧ (t.root = none → (t.samplesFrom limit none).value = [.empty]) := by
  refine ⟨⟨t.reread, b.reread, b.variations.map Assignment.reread, rfl, ?_, reread_eq_self, ?_, ?_,
    fun h => ⟨?_, ?_⟩, fun h => ⟨?_, ?_⟩⟩, ?_, ?_⟩
  · rw [reread, List.forall₂_map_right_iff, List.forall₂_same]
    exact fun s _ => ⟨rfl, s.values.readAs_reread⟩
  · rw [← List.map_cons, List.forall₂_map_right_iff, List.forall₂_same]
    exact fun a _ => a.readAs_reread
  · intro hb
    refine ⟨Assignment.reread_eq_self hb, ?_⟩
    calc b.variations.map Assignment.reread
        = b.variations.map id := List.map_congr_left fun a ha =>
          Assignment.reread_eq_self (Assignment.exact_of_mem_variations hb ha)
      _ = b.variations := List.map_id _
  -- read as values of any kind first, and then as a tree with its inputs
  · rw [← Json.nesting_reread] at h
    exact ⟨_, _, Json.roundTrips_reread (Payload.reads_members (by decide) h)⟩
  · exact Json.roundTrips_reread (Payload.reads_simulation t b h)
  · rw [← Json.nesting_reread] at h
    exact ⟨_, _, Json.roundTrips_reread (Payload.reads_members (by decide) h)⟩
  · exact Json.roundTrips_reread (Payload.reads_unreachable t _ h)
  · rfl
  · intro hroot
    rw [samplesFrom, defaults, hroot]
    rfl

/-- A tree of one node, with a sample whose float is not the one that its own text is read as. -/
def DecisionTree.rounded : DecisionTree :=
  ⟨some ⟨"a", "", none, []⟩, [⟨some "s", ⟨[("x", .float 3e23)], by simp [Ascends]⟩⟩]⟩

/-- A whole number and an empty text. -/
def Assignment.plain : Assignment :=
  ⟨[("n", .integer 5), ("s", .text "")], by simp [Ascends]; decide⟩

/-- Both requests made from the tree and the assignment are read, the assignment and its three
    variations as they are. -/
theorem DecisionTree.rounded_payloads :
    ∃ t' : DecisionTree, t'.root = some ⟨"a", "", none, []⟩
      ∧ (Payload.simulation rounded .plain).RoundTrips Payload.decodeSimulation (t', .plain)
      ∧ (Payload.unreachable rounded Assignment.plain.coverageSamples).RoundTrips
        Payload.decodeUnreachable (t', .plain :: Assignment.plain.variations) := by
  have hplain : Assignment.plain.Exact := by
    simp [Assignment.Exact, Assignment.plain, InputValue.Exact]
  obtain ⟨⟨t', b', bs', hroot, -, -, -, hexact, hsimulation, hunreachable⟩, -⟩ :=
    payloads_carry rounded .plain 0
  obtain ⟨rfl, rfl⟩ := hexact hplain
  exact ⟨t', hroot, (hsimulation (by decide)).2, (hunreachable (by decide)).2⟩

/-- The float of the sample comes back as another one, so the tree does, too. -/
theorem DecisionTree.rounded_differs :
    (Payload.simulation rounded .empty).nesting ≤ 127 ∧ Assignment.Exact .empty
      ∧ ∃ t', Json.decode Payload.decodeSimulation (Payload.simulation rounded .empty).pretty
          = .ok (t', .empty) ∧ t' ≠ rounded := by
  have hroom : (Payload.simulation rounded .empty).nesting ≤ Json.depthLimit := by decide
  have hread := Json.roundTrips_reread (Payload.reads_simulation rounded .empty hroom)
  refine ⟨hroom, fun _ he => absurd he List.not_mem_nil, rounded.reread, hread.2, fun heq => ?_⟩
  have hvalue : (InputValue.float 3e23).reread = .float 3e23 := by
    have hentries : [[("x", (InputValue.float 3e23).reread)]] = [[("x", .float 3e23)]] :=
      congrArg (fun t => t.samples.map fun s => s.values.entries) heq
    simpa only [List.cons.injEq, Prod.mk.injEq, and_true, true_and] using hentries
  have htext := congrArg (fun v => v.toJson.write Json.compact 0) hvalue
  revert htext
  decide +kernel

end BranchProbe
