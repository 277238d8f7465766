/-
  Documents are read back from their text.

  1. An input value is `Exact` if its JSON form tells it apart: it is no float, and what is kept as
     it is is null, a list or an object, without floats and as a map holds its members.
  2. `reread` is what a value is read as from its own text.  Only floats, and what holds floats or
     members out of order, may differ: an exact value is reread as it is.
  3. Every decoder reads the JSON form of the value it is for, as far as there is room
     (`reads_reread`, and `reads_decode` for exact values).  For nodes the induction is on the room:
     a node takes two levels of it.
  4. `documents_roundTrip`: with at most 127 lists and objects inside each other, every document
     is read back from its compact and from its indented text.
-/
import BranchProbe.Document.Encode
import BranchProbe.Document.Decode
import BranchProbe.Proofs.Json.Read

namespace BranchProbe

open Json (Reads Everywhere Whole Ordered Fills Syntax textValue optional listOf whole_text
  whole_list whole_object room_of_list room_of_object reads_textValue reads_field reads_record)

/-! ## Input values -/

namespace InputValue

/-- Null, a list or an object: the values of a document that have no class of their own. -/
def Unclassed : Json → Prop
  | .null | .list _ | .object _ => True
  | _ => False

/-- The value is told apart by its JSON form. -/
def Exact : InputValue → Prop
  | .bool _ | .integer _ | .text _ => True
  | .float _ => False
  | .other value => Unclassed value ∧ value.Everywhere Whole ∧ value.Everywhere Ordered

/-- A whole number comes back, whether it is negative or not. -/
theorem ofNumber_ofInt64 (n : Int64) : ofNumber (.ofInt64 n) = .integer n := by
  unfold Json.Number.ofInt64
  split
  · rfl
  · next h =>
    have hnonneg : 0 ≤ n := Int64.not_lt.1 h
    have hlt : n.toNatClampNeg < Nat.pow 2 63 := Int64.toNatClampNeg_lt n
    have hnat : (UInt64.ofNat n.toInt.toNat).toNat = n.toNatClampNeg :=
      UInt64.toNat_ofNat_of_lt' (Nat.lt_trans hlt (by decide))
    rw [ofNumber, hnat, if_pos hlt, Int64.ofNat_toNatClampNeg n hnonneg]

/-- The class of an exact value is read off its JSON form again.  A float is left out because a
    whole float is written like a whole number. -/
theorem ofJson_toJson {v : InputValue} (h : v.Exact) : ofJson v.toJson = v := by
  cases v with
  | bool b => rfl
  | integer n => exact ofNumber_ofInt64 n
  | float x => exact absurd h id
  | text s => rfl
  | other value =>
    obtain ⟨hclass, -, -⟩ := h
    cases value with
    | null => rfl
    | list items => rfl
    | object members => rfl
    | _ => exact absurd hclass id

/-- An exact value is written without floats, so what is said of whole documents holds for it. -/
theorem whole_toJson {v : InputValue} (h : v.Exact) : v.toJson.Everywhere Whole := by
  cases v with
  | bool b => simp [toJson, Everywhere, Whole]
  | integer n =>
    simp only [toJson, Json.ofInt64, Everywhere, Whole, Json.Number.ofInt64]
    split <;> simp
  | float x => exact absurd h id
  | text s => exact whole_text s
  | other value => exact h.2.1

/-- The members of an exact value are in the order in which a map holds them, so reading them
    into a map moves none of them. -/
theorem ordered_toJson {v : InputValue} (h : v.Exact) : v.toJson.Everywhere Ordered := by
  cases v with
  | other value => exact h.2.2
  | _ => trivial

/-- What a value is read as from its own text. -/
def reread (v : InputValue) : InputValue := ofJson v.toJson.reread.sorted

/-- Writing and reading does nothing to an exact value.  The three facts above are the three
    steps on the way: numbers, order of members, class. -/
theorem reread_eq_self {v : InputValue} (h : v.Exact) : v.reread = v := by
  rw [reread, Json.reread_eq_self _ (whole_toJson h), Json.sorted_eq_self _ (ordered_toJson h),
    ofJson_toJson h]

/-- A value is read as its text says, if there is room for it. -/
theorem reads_reread (v : InputValue) {room : Nat} (h : v.toJson.nesting ≤ room) :
    Reads (decode room) v.toJson.reread v.reread := by
  rw [← Json.nesting_reread] at h
  exact (Json.reads_anyValue_sorted room v.toJson.reread h).map ofJson

end InputValue

/-! ## Members that may be left out -/

/-- The member is there just if there is a value for it. -/
theorem mem_optionalMember {key : String} {value : Option Json} {e : String × Json} :
    e ∈ Json.optionalMember key value ↔ ∃ j, value = some j ∧ e = (key, j) := by
  cases value <;> simp [Json.optionalMember]

/-- Rereading acts on the value of the member and not on whether it is there. -/
theorem rereadMembers_optionalMember (key : String) (value : Option Json) :
    Json.rereadMembers (Json.optionalMember key value)
      = Json.optionalMember key (value.map Json.reread) := by
  cases value <;> rfl

/-- A member that may be left out brings no float into a record if none of its values has one. -/
theorem whole_optionalMember {α : Type} {key : String} {x : Option α} {write : α → Json}
    (h : ∀ y, (write y).Everywhere Whole) :
    ∀ e ∈ Json.optionalMember key (x.map write), e.2.Everywhere Whole := by
  intro e he
  obtain ⟨j, hj, rfl⟩ := mem_optionalMember.1 he
  obtain ⟨y, -, rfl⟩ := Option.map_eq_some_iff.1 hj
  exact h y

/-- An optional value fills its field, whether it is given or left out, if its text is not null
    and the record starts without it. -/
theorem fills_optionalMember {α β : Type} {fields : List (Json.RecordField α)} {seen : List String}
    {key : String} {read : Syntax → Except Json.Fault β} {set : Option β → α → α} {x : Option β}
    {write : β → Json} {r r' : α} {ms : List (String × Json)}
    (hfind : fields.find? (·.name == key) = some (Json.field key false (optional read) set))
    (hseen : key ∉ seen) (hread : ∀ y, x = some y → Reads read (write y) y)
    (hnull : ∀ y, write y ≠ .null) (hblank : set none r = r)
    (hrest : Fills fields (key :: seen) (set x r) ms r') :
    Fills fields seen r (Json.optionalMember key (x.map write) ++ ms) r' := by
  cases x with
  | none =>
    rw [hblank] at hrest
    exact hrest.mono fun name hname => List.mem_cons_of_mem _ hname
  | some y =>
    have hgiven := Json.reads_optional (hread y rfl) (hnull y)
    exact .cons _ hfind hseen (reads_field hgiven _ _ _ _) hrest

/-! ## Assignments and samples -/

namespace Assignment

/-- All values of the assignment are told apart by their JSON form. -/
def Exact (a : Assignment) : Prop := ∀ e ∈ a.entries, e.2.Exact

/-- An exact assignment is written without floats, one value after the other. -/
theorem whole_toJson {a : Assignment} (h : a.Exact) : a.toJson.Everywhere Whole := by
  apply whole_object
  intro e he
  obtain ⟨e', he', rfl⟩ := List.mem_map.1 he
  exact InputValue.whole_toJson (h e' he')

/-- The assignment as it is read from its own text. -/
def reread (a : Assignment) : Assignment := a.mapValues InputValue.reread

/-- An exact assignment is reread as it is, since each of its values is. -/
theorem reread_eq_self {a : Assignment} (h : a.Exact) : a.reread = a :=
  SortedMap.mapValues_eq_self fun e he => InputValue.reread_eq_self (h e he)

/-- Rereading the JSON form of an assignment rereads each value under its own key. -/
theorem reread_toJson (a : Assignment) :
    a.toJson.reread = .object (a.entries.map fun e => (e.1, e.2.toJson.reread)) := by
  rw [toJson, Json.reread, Json.rereadMembers_eq_map, List.map_map]
  rfl

/-- An assignment is read with each value as its text says, if there is room. -/
theorem reads_reread (a : Assignment) {room : Nat} (h : a.toJson.nesting ≤ room) :
    Reads (decode room) a.toJson.reread a.reread := by
  obtain ⟨inside, rfl, hvalue⟩ := room_of_object h
  rw [reread_toJson]
  apply Json.reads_mapOf_map (Nat.succ_pos _) a (fun v => v.toJson.reread) InputValue.reread
  intro e he
  exact InputValue.reads_reread e.2 (hvalue _ (List.mem_map_of_mem he))

/-- An exact assignment is read back from its JSON form.  This is the general statement with
    nothing left to reread. -/
theorem reads_decode {a : Assignment} (ha : a.Exact) {room : Nat} (h : a.toJson.nesting ≤ room) :
    Reads (decode room) a.toJson a := by
  have hread := a.reads_reread h
  rwa [Json.reread_eq_self _ (whole_toJson ha), reread_eq_self ha] at hread

end Assignment

namespace Sample

/-- A sample with exact values is written without floats; its name is a text at most. -/
theorem whole_toJson {s : Sample} (h : s.values.Exact) : s.toJson.Everywhere Whole := by
  apply whole_object
  intro e he
  rcases List.mem_append.1 he with he | he
  · exact whole_optionalMember whole_text e he
  · obtain rfl := List.mem_singleton.1 he
    exact Assignment.whole_toJson h

/-- The sample as it is read from its own text. -/
def reread (s : Sample) : Sample := ⟨s.name, s.values.reread⟩

/-- A sample with exact values is reread as it is: the name does not change in any case. -/
theorem reread_eq_self {s : Sample} (h : s.values.Exact) : s.reread = s := by
  rw [reread, Assignment.reread_eq_self h]

/-- The JSON form of a sample keeps its two members when it is reread, and a missing name stays
    missing. -/
theorem reread_toJson (s : Sample) :
    s.toJson.reread = .object (Json.optionalMember "name" (s.name.map .text)
      ++ [("input_values", s.values.toJson.reread)]) := by
  obtain ⟨name, values⟩ := s
  cases name <;> rfl

/-- A sample is read with its name and with each value as its text says, if there is room for the
    values. -/
theorem reads_reread (s : Sample) {room : Nat} (h : s.toJson.nesting ≤ room) :
    Reads (decode room) s.toJson.reread s.reread := by
  obtain ⟨inside, rfl, hvalue⟩ := room_of_object h
  obtain ⟨name, values⟩ := s
  have hvalues := values.reads_reread (hvalue ("input_values", values.toJson) (by simp))
  rw [reread_toJson]
  refine reads_record (Nat.succ_pos _) ?_ (by simp [Json.field])
  refine fills_optionalMember rfl (by simp) (fun y _ => reads_textValue y) (by simp) rfl ?_
  exact .cons _ rfl (by simp) (reads_field hvalues _ _ _ _) .nil

/-- A sample with exact values is read back from its JSON form. -/
theorem reads_decode {s : Sample} (hs : s.values.Exact) {room : Nat} (h : s.toJson.nesting ≤ room) :
    Reads (decode room) s.toJson s := by
  have hread := s.reads_reread h
  rwa [Json.reread_eq_self _ (whole_toJson hs), reread_eq_self hs] at hread

end Sample

/-! ## Nodes and lists of texts -/

theorem whole_ofTexts (l : List String) : (Json.ofTexts l).Everywhere Whole := by
  apply whole_list
  intro j hj
  obtain ⟨s, -, rfl⟩ := List.mem_map.1 hj
  exact whole_text s

/-- A list of texts is read back wherever there is room for one list. -/
theorem reads_ofTexts {room : Nat} (hroom : 0 < room) (l : List String) :
    Reads (listOf room textValue) (.ofTexts l) l :=
  Json.reads_listOf hroom l Json.text fun s _ => reads_textValue s

/-- An absent text and an empty one are told apart: the absent one is written as null. -/
theorem reads_ofText? (s : Option String) : Reads (optional textValue) (.ofText? s) s := by
  cases s with
  | none => exact Json.reads_optional_null
  | some s => exact Json.reads_optional (reads_textValue s) (by simp [Json.ofText?])

namespace TreeNode

/-- The children of a node are written one by one, so lemmas about lists of documents apply to
    them. -/
theorem allToJson_eq_map (ns : List TreeNode) : allToJson ns = ns.map toJson := by
  induction ns with
  | nil => rfl
  | cons n rest ih => rw [allToJson, ih, List.map_cons]

mutual

/-- A node has no floats in its JSON form, whatever its texts are.  The induction is on the tree,
    with its list of children in the second lemma. -/
theorem whole_toJson : ∀ n : TreeNode, n.toJson.Everywhere Whole
  | ⟨id, text, condition, children⟩ => by
    have hchildren := whole_allToJson children
    have hcondition : (Json.ofText? condition).Everywhere Whole := by
      cases condition with
      | none => simp [Json.ofText?, Everywhere, Whole]
      | some s => exact whole_text s
    rw [toJson]
    apply whole_object
    intro e he
    simp only [List.mem_cons, List.not_mem_nil, or_false] at he
    rcases he with rfl | rfl | rfl | rfl
    · exact whole_text id
    · exact whole_text text
    · exact hcondition
    · show (Json.list (allToJson children)).Everywhere Whole
      exact whole_list hchildren

theorem whole_allToJson : ∀ ns : List TreeNode, ∀ j ∈ allToJson ns, j.Everywhere Whole
  | [], _, hj => by simp [allToJson] at hj
  | n :: rest, j, hj => by
    rw [allToJson, List.mem_cons] at hj
    rcases hj with rfl | hj
    · exact whole_toJson n
    · exact whole_allToJson rest j hj

end

theorem reads_allToJson (read : Syntax → Except Json.Fault TreeNode) (inside : Nat)
    (ns : List TreeNode) (h : ∀ n ∈ ns, Reads read n.toJson n) :
    Reads (listOf (inside + 1) read) (.list (allToJson ns)) ns := by
  rw [allToJson_eq_map]
  exact Json.reads_listOf (Nat.succ_pos _) ns toJson h

/-- The children of a node lie two levels further in than the node, the object and the list.  The
    room left is handed down to each of them in the induction over the tree. -/
theorem room_of_children {id text : String} {condition : Option String} {children : List TreeNode}
    {room : Nat} (h : (toJson ⟨id, text, condition, children⟩).nesting ≤ room) :
    ∃ inside, room = inside + 2 ∧ ∀ n ∈ children, n.toJson.nesting ≤ inside := by
  rw [toJson] at h
  obtain ⟨_, rfl, hvalue⟩ := room_of_object h
  obtain ⟨inside, rfl, hnode⟩ := room_of_list (hvalue ("children", .list (allToJson children))
    (by simp))
  rw [allToJson_eq_map] at hnode
  exact ⟨inside, rfl, fun n hn => hnode _ (List.mem_map_of_mem hn)⟩

/-- A node is read back with the nodes below it, if there is room. -/
theorem reads_decode : ∀ (room : Nat) (n : TreeNode), n.toJson.nesting ≤ room →
    Reads (decode room) n.toJson n
  | room, ⟨id, text, condition, children⟩, h => by
    obtain ⟨inside, rfl, hnode⟩ := room_of_children h
    have hchildren := reads_allToJson (decode inside) inside children fun n hn =>
      reads_decode inside n (hnode n hn)
    rw [toJson]
    -- the four members come in the order of the fields, none of them twice
    refine reads_record (Nat.succ_pos _) ?_ (by simp [fields, Json.field])
    exact .cons _ rfl (by simp) (reads_field (reads_textValue id) _ _ _ _)
      (.cons _ rfl (by simp) (reads_field (reads_textValue text) _ _ _ _)
        (.cons _ rfl (by simp) (reads_field (reads_ofText? condition) _ _ _ _)
          (.cons _ rfl (by simp) (reads_field hchildren _ _ _ _) .nil)))

/-- A node is not null, so a member that may be left out holds it. -/
theorem toJson_ne_null (n : TreeNode) : n.toJson ≠ .null := by
  cases n
  simp [toJson]

end TreeNode

/-! ## Trees, results and reports -/

namespace DecisionTree

/-- All samples of the tree are told apart by their JSON form. -/
def Exact (t : DecisionTree) : Prop := ∀ s ∈ t.samples, s.values.Exact

/-- A tree with exact samples is written without floats; only the samples could bring one in. -/
theorem whole_toJson {t : DecisionTree} (h : t.Exact) : t.toJson.Everywhere Whole := by
  apply whole_object
  intro e he
  rcases List.mem_append.1 he with he | he
  · exact whole_optionalMember TreeNode.whole_toJson e he
  · obtain ⟨j, hj, rfl⟩ := mem_optionalMember.1 he
    split at hj
    · nomatch hj
    · obtain rfl := Option.some.inj hj
      apply whole_list
      intro j hj
      obtain ⟨s, hs, rfl⟩ := List.mem_map.1 hj
      exact Sample.whole_toJson (h s hs)

/-- The tree as it is read from its own text: only its samples may differ. -/
def reread (t : DecisionTree) : DecisionTree := ⟨t.root, t.samples.map Sample.reread⟩

theorem reread_eq_self {t : DecisionTree} (h : t.Exact) : t.reread = t := by
  have hsamples : t.samples.map Sample.reread = t.samples.map id :=
    List.map_congr_left fun s hs => Sample.reread_eq_self (h s hs)
  rw [reread, hsamples, List.map_id]

/-- Of a tree only the samples are touched when its JSON form is reread, and members that are
    left out stay out. -/
theorem reread_toJson (t : DecisionTree) :
    t.toJson.reread = .object (Json.optionalMember "root" (t.root.map TreeNode.toJson)
      ++ Json.optionalMember "sample_inputs" (if t.samples.isEmpty then none
        else some (.list (t.samples.map fun s => s.toJson.reread)))) := by
  have hroot : (t.root.map TreeNode.toJson).map Json.reread = t.root.map TreeNode.toJson := by
    rw [Option.map_map]
    exact Option.map_congr fun n _ => Json.reread_eq_self _ n.whole_toJson
  rw [toJson, Json.reread, Json.rereadMembers_eq_map, List.map_append, ← Json.rereadMembers_eq_map,
    ← Json.rereadMembers_eq_map, rereadMembers_optionalMember, rereadMembers_optionalMember, hroot]
  cases t.samples with
  | nil => rfl
  | cons s rest => simp [Json.reread, Json.rereadAll_eq_map, Function.comp_def]

/-- A tree is read with its samples as their texts say, if there is room. -/
theorem reads_reread (t : DecisionTree) {room : Nat} (h : t.toJson.nesting ≤ room) :
    Reads (decode room) t.toJson.reread t.reread := by
  obtain ⟨inside, rfl, hvalue⟩ := room_of_object h
  obtain ⟨root, samples⟩ := t
  rw [reread_toJson]
  refine reads_record (Nat.succ_pos _) ?_ (by simp [Json.field])
  refine fills_optionalMember rfl (by simp) (fun n hn => ?_) TreeNode.toJson_ne_null rfl ?_
  · obtain rfl : root = some n := hn
    exact TreeNode.reads_decode inside n (hvalue ("root", n.toJson) (by simp [mem_optionalMember]))
  · -- the samples are left out where there are none, and a tree starts without samples
    cases samples with
    | nil => exact .nil
    | cons s rest =>
      obtain ⟨inside, rfl, hsample⟩ := room_of_list (hvalue
        ("sample_inputs", .list ((s :: rest).map Sample.toJson)) (by simp [mem_optionalMember]))
      have hsamples := Json.reads_listOf_map (Nat.succ_pos inside) (s :: rest)
        (fun s => s.toJson.reread) Sample.reread fun s hs =>
          s.reads_reread (hsample _ (List.mem_map_of_mem hs))
      exact .cons _ rfl (by simp) (reads_field hsamples _ _ _ _) .nil

/-- A tree with exact samples is read back from its JSON form, if there is room for it. -/
theorem reads_decode {t : DecisionTree} (ht : t.Exact) {room : Nat} (h : t.toJson.nesting ≤ room) :
    Reads (decode room) t.toJson t := by
  have hread := t.reads_reread h
  rwa [Json.reread_eq_self _ (whole_toJson ht), reread_eq_self ht] at hread

end DecisionTree

namespace Simulation

/-- A result consists of texts and nodes, so it is written without floats in any case. -/
theorem whole_toJson (s : Simulation) : s.toJson.Everywhere Whole := by
  apply whole_object
  intro e he
  simp only [List.mem_append, List.mem_singleton] at he
  rcases he with (rfl | he) | rfl
  · exact whole_ofTexts s.path
  · exact whole_optionalMember (fun ns => whole_list (TreeNode.whole_allToJson ns)) e he
  · exact s.final.whole_toJson

/-- A result is read back from its JSON form, if there is room for it.  It holds no values, so
    nothing needs to be exact. -/
theorem reads_decode {s : Simulation} {room : Nat} (h : s.toJson.nesting ≤ room) :
    Reads (decode room) s.toJson s := by
  obtain ⟨_, rfl, hvalue⟩ := room_of_object h
  obtain ⟨path, visited, final⟩ := s
  -- the path is a list, so there is room for one inside the result
  obtain ⟨inside, rfl, -⟩ := room_of_list (hvalue ("path", .ofTexts path) (by simp))
  have hpath := reads_ofTexts (Nat.succ_pos inside) path
  have hfinal := TreeNode.reads_decode (inside + 1) final
    (hvalue ("final_node", final.toJson) (by simp))
  refine reads_record (Nat.succ_pos _) ?_ (by simp [Json.field])
  refine .cons _ rfl (by simp) (reads_field hpath _ _ _ _) ?_
  refine fills_optionalMember rfl (by simp) (fun ns hns => ?_) (by simp) rfl ?_
  · obtain rfl : visited = some ns := hns
    have hroom := Json.nesting_list_le_iff.1 (hvalue
      ("visited_nodes", .list (TreeNode.allToJson ns)) (by simp [mem_optionalMember]))
    refine TreeNode.reads_allToJson _ inside ns fun n hn => TreeNode.reads_decode inside n ?_
    rw [TreeNode.allToJson_eq_map] at hroom
    exact hroom _ (List.mem_map_of_mem hn)
  · exact .cons _ rfl (by simp) (reads_field hfinal _ _ _ _) .nil

end Simulation

namespace UnreachableReport

/-- A report is a list of texts, so it is written without floats. -/
theorem whole_toJson (r : UnreachableReport) : r.toJson.Everywhere Whole := by
  apply whole_object
  intro e he
  obtain rfl := List.mem_singleton.1 he
  exact whole_ofTexts r.ids

/-- A report has a list of texts only, so it never runs out of room. -/
theorem reads_decode (r : UnreachableReport) (room : Nat) :
    Reads (decode (room + 2)) r.toJson r := by
  have hids := reads_ofTexts (Nat.succ_pos room) r.ids
  refine reads_record (Nat.succ_pos _) ?_ (by simp [Json.field])
  exact .cons _ rfl (by simp) (reads_field hids _ _ _ _) .nil

end UnreachableReport

/-! ## Round trip -/

/-- The value is read back from the compact and from the indented text of its JSON form. -/
def Json.RoundTrips {α : Type} (decode : (room : Nat) → Syntax → Except Fault α) (j : Json)
    (x : α) : Prop :=
  Json.decode decode j.print = .ok x ∧ Json.decode decode j.pretty = .ok x

/-- What a decoder reads from the reread document it also reads from both texts, since a text is
    scanned to that document. -/
theorem Json.roundTrips_reread {α : Type} {decode : (room : Nat) → Syntax → Except Fault α}
    {j : Json} {x : α} (h : Reads (decode depthLimit) j.reread x) : j.RoundTrips decode x :=
  ⟨decode_write_reread compact_blank h, decode_write_reread indented_blank h⟩

/-- For a document without floats the reread document is the document itself.  This is the form
    in which the round trip is used. -/
theorem Json.roundTrips {α : Type} {decode : (room : Nat) → Syntax → Except Fault α} {j : Json}
    {x : α} (hj : j.Everywhere Whole) (h : Reads (decode depthLimit) j x) :
    j.RoundTrips decode x := by
  rw [← reread_eq_self j hj] at h
  exact roundTrips_reread h

/-- Every document is read back from its compact and from its indented text, as far as its values
    are told apart by their JSON form and at most 127 lists and objects lie inside each other. -/
theorem documents_roundTrip :
    (∀ t : DecisionTree, t.Exact → t.toJson.nesting ≤ 127 →
      t.toJson.RoundTrips DecisionTree.decode t)
    ∧ (∀ s : Simulation, s.toJson.nesting ≤ 127 → s.toJson.RoundTrips Simulation.decode s)
    ∧ (∀ r : UnreachableReport, r.toJson.RoundTrips UnreachableReport.decode r)
    ∧ (∀ s : Sample, s.values.Exact → s.toJson.nesting ≤ 127 →
      s.toJson.RoundTrips Sample.decode s)
    ∧ (∀ a : Assignment, a.Exact → a.toJson.nesting ≤ 127 →
      a.toJson.RoundTrips Assignment.decode a) := by
  refine ⟨fun t ht h => ?_, fun s h => ?_, fun r => ?_, fun s hs h => ?_, fun a ha h => ?_⟩
  · exact Json.roundTrips (DecisionTree.whole_toJson ht) (DecisionTree.reads_decode ht h)
  · exact Json.roundTrips s.whole_toJson (Simulation.reads_decode h)
  · exact Json.roundTrips r.whole_toJson (r.reads_decode 125)
  · exact Json.roundTrips (Sample.whole_toJson hs) (Sample.reads_decode hs h)
  · exact Json.roundTrips (Assignment.whole_toJson ha) (Assignment.reads_decode ha h)

/-- A least whole number, a text with a quote and a control character, and an object. -/
def Assignment.leastAndNested : Assignment :=
  ⟨[("n", .integer (-9223372036854775808)), ("o", .other (.object [("k", .list [.null])])),
    ("t", .text "\"\x01")], by simp [Ascends]; decide⟩

/-- A node with an empty condition is read back in a tree and in a result with an empty list of
    visited nodes, and this assignment in a sample without name and by itself. -/
theorem leastAndNested_roundTrips :
    Assignment.leastAndNested.Exact ∧ Assignment.leastAndNested.toJson.nesting = 3
    ∧ Json.RoundTrips DecisionTree.decode
      (DecisionTree.toJson ⟨some ⟨"a", "", some "", []⟩, [⟨none, .leastAndNested⟩]⟩)
      ⟨some ⟨"a", "", some "", []⟩, [⟨none, .leastAndNested⟩]⟩
    ∧ Json.RoundTrips Simulation.decode
      (Simulation.toJson ⟨["a"], some [], ⟨"a", "", some "", []⟩⟩)
      ⟨["a"], some [], ⟨"a", "", some "", []⟩⟩
    ∧ Json.RoundTrips Sample.decode (Sample.toJson ⟨none, .leastAndNested⟩)
      ⟨none, .leastAndNested⟩
    ∧ Json.RoundTrips Assignment.decode (Assignment.toJson .leastAndNested) .leastAndNested := by
  have hexact : Assignment.leastAndNested.Exact := by
    simp [Assignment.Exact, Assignment.leastAndNested, InputValue.Exact, InputValue.Unclassed,
      Everywhere, Json.EverywhereIn, Json.EverywhereInMembers, Whole, Ordered, Ascends]
  obtain ⟨htree, hsimulation, -, hsample, hassignment⟩ := documents_roundTrip
  refine ⟨hexact, rfl, ?_, ?_, ?_, ?_⟩
  · exact htree ⟨some ⟨"a", "", some "", []⟩, [⟨none, .leastAndNested⟩]⟩
      (by simpa [DecisionTree.Exact] using hexact) (by decide)
  · exact hsimulation ⟨["a"], some [], ⟨"a", "", some "", []⟩⟩ (by decide)
  · exact hsample ⟨none, .leastAndNested⟩ hexact (by decide)
  · exact hassignment .leastAndNested hexact (by decide)

end BranchProbe
