/-
  Decoders read the trees of written values.

  1. `Reads read j x`: whatever tree represents the value `j`, the decoder `read` makes `x` of it.
     Every general shape has one lemma that says what it reads, given what its parts read.
  2. `nesting` counts the lists and objects that lie inside each other; a decoder has to have room
     for as many.  Any value is then read with its members `sorted`, as a map holds them.
  3. `Fills` is the course of a record: its members go into the fields one after the other, and no
     field is given twice.  `reads_record` asks besides that the required fields are among them.
  4. `decode_write_reread`: a text gives what the decoder makes of the value reread, in every layout
     that writes blanks only.
-/
import BranchProbe.Proofs.Json.Scan
import BranchProbe.Proofs.Lookup
import Mathlib.Data.List.Forall2

namespace BranchProbe.Json

/-! ## Trees by value -/

/-- Scalar values with the same document are the same, so a document tells which scalar was
    scanned. -/
theorem Scalar.toJson_injective {x y : Scalar} (h : x.toJson = y.toJson) : x = y := by
  cases x <;> cases y <;> simp_all [Scalar.toJson]

/-- A tree that represents a scalar is one, without a fault. -/
theorem Represents.of_scalar {s : Syntax} {x : Scalar} (h : Represents s x.toJson) :
    ∃ start stop, s = .scalar start (.ok x) none stop := by
  generalize hj : x.toJson = j at h
  cases h with
  | @scalar start stop y _ hy =>
    obtain rfl := Scalar.toJson_injective (hj.trans hy.symm)
    exact ⟨start, stop, rfl⟩
  | list => cases x <;> simp [Scalar.toJson] at hj
  | object => cases x <;> simp [Scalar.toJson] at hj

/-- A tree that represents a list is a closed list whose items represent those of the list, one
    by one. -/
theorem Represents.of_list {s : Syntax} {js : List Json} (h : Represents s (.list js)) :
    ∃ start stop items, s = .list start items (.closed stop) ∧ RepresentsAll items js := by
  cases h with
  | @scalar _ _ x _ hx => cases x <;> simp [Scalar.toJson] at hx
  | @list start stop items _ hitems => exact ⟨start, stop, items, rfl, hitems⟩

/-- A tree that represents an object is a closed object whose members represent those of the
    object, keys included. -/
theorem Represents.of_object {s : Syntax} {ms : List (String × Json)}
    (h : Represents s (.object ms)) :
    ∃ start stop members, s = .object start members (.closed stop)
      ∧ RepresentsMembers members ms := by
  cases h with
  | @scalar _ _ x _ hx => cases x <;> simp [Scalar.toJson] at hx
  | @object start stop members _ hmembers => exact ⟨start, stop, members, rfl, hmembers⟩

/-! ## General shapes -/

/-- The decoder makes `x` of every tree that represents the value `j`. -/
def Reads {α : Type} (read : Syntax → Except Fault α) (j : Json) (x : α) : Prop :=
  ∀ s, Represents s j → read s = .ok x

section Shapes

variable {α : Type} {read : Syntax → Except Fault α}

/-- The reader of texts reads a text from every tree that represents it. -/
theorem reads_textValue (s : String) : Reads textValue (.text s) s := by
  intro t ht
  obtain ⟨start, stop, rfl⟩ := Represents.of_scalar (x := .text s) ht
  rfl

theorem reads_optional_null : Reads (optional read) .null none := by
  intro t ht
  obtain ⟨start, stop, rfl⟩ := Represents.of_scalar (x := .null) ht
  rfl

/-- An optional value that is not null is read like the value itself; for null the two readers
    differ. -/
theorem reads_optional {j : Json} {x : α} (h : Reads read j x) (hj : j ≠ .null) :
    Reads (optional read) j (some x) := by
  intro s hs
  have hread := h s hs
  -- null is the only value that `optional` does not hand on
  unfold optional
  split
  · cases hs with
    | scalar hx => exact absurd hx.symm hj
  · rw [hread]
    rfl

/-- What is made of a value after reading it does not matter for whether it is read. -/
theorem Reads.map {β : Type} {j : Json} {x : α} (h : Reads read j x) (f : α → β) :
    Reads (fun s => (read s).map f) j (f x) := by
  intro s hs
  simp [h s hs, Except.map]

/-- The items of a list are read in turn: if each is read as it should be, from whatever tree
    represents it, then so are all. -/
theorem readEach_eq {items : List Syntax} {js : List Json} {xs : List α}
    (hitems : RepresentsAll items js) (h : List.Forall₂ (Reads read) js xs) :
    readEach read items = .ok xs := by
  induction h generalizing items with
  | nil =>
    cases hitems
    rfl
  | cons hx _ ih =>
    cases hitems with
    | cons hs hrest =>
      have hitem := hx _ hs
      have htail := ih hrest
      simp [readEach, hitem, htail, Except.map]

/-- The members of an object are read in turn, and each keeps its key.  This is for maps, where
    any name may be given. -/
theorem readMembers_eq {members : List (Key × Syntax)} {ms : List (String × Json)}
    {xs : List (String × α)} (hmembers : RepresentsMembers members ms)
    (h : List.Forall₂ (fun e x => e.1 = x.1 ∧ Reads read e.2 x.2) ms xs) :
    readMembers read members = .ok xs := by
  induction h generalizing members with
  | nil =>
    cases hmembers
    rfl
  | @cons e x _ _ hx _ ih =>
    obtain ⟨name, value⟩ := x
    obtain ⟨rfl, hvalue⟩ := hx
    cases hmembers with
    | cons hs hrest =>
      have hmember := hvalue _ hs
      have htail := ih hrest
      simp [readMembers, hmember, htail, Except.map]

theorem reads_listOf_map {β : Type} {room : Nat} (hroom : 0 < room) (ys : List β)
    (write : β → Json) (result : β → α) (h : ∀ y ∈ ys, Reads read (write y) (result y)) :
    Reads (listOf room read) (.list (ys.map write)) (ys.map result) := by
  intro s hs
  obtain ⟨start, stop, items, rfl, hitems⟩ := hs.of_list
  have hitems' : readEach read items = .ok (ys.map result) := by
    apply readEach_eq hitems
    rw [List.forall₂_map_left_iff, List.forall₂_map_right_iff, List.forall₂_same]
    exact h
  simp [listOf, Nat.ne_of_gt hroom, hitems', Ending.finish]

theorem reads_listOf {room : Nat} (hroom : 0 < room) (xs : List α) (write : α → Json)
    (h : ∀ x ∈ xs, Reads read (write x) x) :
    Reads (listOf room read) (.list (xs.map write)) xs := by
  have hread := reads_listOf_map hroom xs write id h
  rwa [List.map_id] at hread

/-- A map is read entry by entry.  Its keys ascend when it is written, so inserting them in that
    order rebuilds the list of its entries. -/
theorem reads_mapOf_map {β : Type} {room : Nat} (hroom : 0 < room) (m : SortedMap String β)
    (write : β → Json) (result : β → α) (h : ∀ e ∈ m.entries, Reads read (write e.2) (result e.2)) :
    Reads (mapOf room read) (.object (m.entries.map fun e => (e.1, write e.2)))
      (m.mapValues result) := by
  intro s hs
  obtain ⟨start, stop, members, rfl, hmembers⟩ := hs.of_object
  have hentries : readMembers read members = .ok (m.mapValues result).entries := by
    apply readMembers_eq hmembers
    rw [SortedMap.mapValues, List.forall₂_map_left_iff, List.forall₂_map_right_iff,
      List.forall₂_same]
    intro e he
    exact ⟨rfl, h e he⟩
  simp [mapOf, Nat.ne_of_gt hroom, hentries, Ending.finish, SortedMap.ofList_entries]

end Shapes

/-! ## Nesting and any values -/

mutual

/-- How many lists and objects lie inside each other. -/
def nesting : Json → Nat
  | .list items => nestingIn items + 1
  | .object members => nestingInMembers members + 1
  | _ => 0

/-- The deepest nesting among some values. -/
def nestingIn : List Json → Nat
  | [] => 0
  | j :: rest => max (nesting j) (nestingIn rest)

/-- The deepest nesting among the values of some members. -/
def nestingInMembers : List (String × Json) → Nat
  | [] => 0
  | (_, j) :: rest => max (nesting j) (nestingInMembers rest)

end

/-- The nesting of a list is bounded by that of its items.  A bound is all that is ever needed of
    it. -/
theorem nestingIn_le_iff {items : List Json} {n : Nat} :
    nestingIn items ≤ n ↔ ∀ j ∈ items, j.nesting ≤ n := by
  induction items with
  | nil => simp [nestingIn]
  | cons j rest ih => rw [nestingIn, Nat.max_le, ih, List.forall_mem_cons]

/-- The nesting of an object is bounded by that of the values of its members. -/
theorem nestingInMembers_le_iff {members : List (String × Json)} {n : Nat} :
    nestingInMembers members ≤ n ↔ ∀ e ∈ members, e.2.nesting ≤ n := by
  induction members with
  | nil => simp [nestingInMembers]
  | cons e rest ih => rw [nestingInMembers, Nat.max_le, ih, List.forall_mem_cons]

/-- A list needs room for itself and, inside it, for each of its items. -/
theorem nesting_list_le_iff {items : List Json} {n : Nat} :
    (Json.list items).nesting ≤ n + 1 ↔ ∀ j ∈ items, j.nesting ≤ n := by
  rw [nesting, Nat.add_le_add_iff_right, nestingIn_le_iff]

/-- An object needs room for itself and, inside it, for each of its values. -/
theorem nesting_object_le_iff {members : List (String × Json)} {n : Nat} :
    (Json.object members).nesting ≤ n + 1 ↔ ∀ e ∈ members, e.2.nesting ≤ n := by
  rw [nesting, Nat.add_le_add_iff_right, nestingInMembers_le_iff]

/-- Where there is room for an object, there is room inside it for its values. -/
theorem room_of_object {members : List (String × Json)} {room : Nat}
    (h : (Json.object members).nesting ≤ room) :
    ∃ inside, room = inside + 1 ∧ ∀ e ∈ members, e.2.nesting ≤ inside := by
  cases room with
  | zero => simp [nesting] at h
  | succ inside => exact ⟨inside, rfl, nesting_object_le_iff.1 h⟩

/-- Where there is room for a list, there is room inside it for its items. -/
theorem room_of_list {items : List Json} {room : Nat} (h : (Json.list items).nesting ≤ room) :
    ∃ inside, room = inside + 1 ∧ ∀ j ∈ items, j.nesting ≤ inside := by
  cases room with
  | zero => simp [nesting] at h
  | succ inside => exact ⟨inside, rfl, nesting_list_le_iff.1 h⟩

/-- A scalar takes no room, since there is no list or object in it. -/
theorem nesting_scalar (x : Scalar) : x.toJson.nesting = 0 := by
  cases x <;> rfl

mutual

/-- The numbers of a value have no part in its nesting. -/
theorem nesting_reread : ∀ j : Json, j.reread.nesting = j.nesting
  | .null | .bool _ | .text _ => rfl
  | .number n => nesting_scalar n.reread
  | .list items => by rw [reread, nesting, nestingIn_rereadAll items, nesting]
  | .object members => by rw [reread, nesting, nestingInMembers_rereadMembers members, nesting]

/-- Rereading changes no nesting, in one induction over items, members and documents. -/
theorem nestingIn_rereadAll : ∀ items : List Json, nestingIn (rereadAll items) = nestingIn items
  | [] => rfl
  | j :: rest => by
    rw [rereadAll, nestingIn, nesting_reread j, nestingIn_rereadAll rest, nestingIn]

theorem nestingInMembers_rereadMembers : ∀ members : List (String × Json),
    nestingInMembers (rereadMembers members) = nestingInMembers members
  | [] => rfl
  | (_, j) :: rest => by
    rw [rereadMembers, nestingInMembers, nesting_reread j, nestingInMembers_rereadMembers rest,
      nestingInMembers]

end

/-- The members of the value, if it is an object, are in ascending order. -/
def Ordered : Json → Prop
  | .object members => Ascends members
  | _ => True

/-- The reader of any value keeps a scalar as it is. -/
theorem reads_anyValue_scalar (room : Nat) (x : Scalar) :
    Reads (anyValue room) x.toJson x.toJson := by
  intro s hs
  obtain ⟨start, stop, rfl⟩ := Represents.of_scalar hs
  cases room <;> rfl

mutual

/-- A value with the members of every object in it as a map holds them. -/
def sorted : Json → Json
  | .list items => .list (sortedAll items)
  | .object members => .object (SortedMap.ofList (sortedMembers members)).entries
  | j => j

/-- Some values with the members of their objects sorted. -/
def sortedAll : List Json → List Json
  | [] => []
  | j :: rest => sorted j :: sortedAll rest

/-- Some members with the objects in their values sorted. -/
def sortedMembers : List (String × Json) → List (String × Json)
  | [] => []
  | (key, j) :: rest => (key, sorted j) :: sortedMembers rest

end

/-- Documents in a list are sorted one by one; their own order does not change. -/
theorem sortedAll_eq_map (items : List Json) : sortedAll items = items.map sorted := by
  induction items with
  | nil => rfl
  | cons j rest ih => rw [sortedAll, ih, List.map_cons]

/-- Before members are put in order, their values are sorted one by one under their keys. -/
theorem sortedMembers_eq_map (members : List (String × Json)) :
    sortedMembers members = members.map fun e => (e.1, e.2.sorted) := by
  induction members with
  | nil => rfl
  | cons e rest ih => rw [sortedMembers, ih, List.map_cons]

mutual

/-- A value whose members are in order stays as it is. -/
theorem sorted_eq_self : ∀ j : Json, j.Everywhere Ordered → j.sorted = j
  | .null, _ | .bool _, _ | .number _, _ | .text _, _ => rfl
  | .list items, h => by rw [sorted, sortedAll_eq_self items h.2]
  | .object members, h => by
    rw [sorted, sortedMembers_eq_self members h.2]
    -- the members are those of a map, so inserting them one by one keeps them
    exact congrArg (fun m => object m.entries) (SortedMap.ofList_entries ⟨members, h.1⟩)

/-- Documents that are in order everywhere are sorted as they are; this goes along with
    `sorted_eq_self` in one induction. -/
theorem sortedAll_eq_self : ∀ items : List Json, EverywhereIn Ordered items →
    sortedAll items = items
  | [], _ => rfl
  | j :: rest, h => by rw [sortedAll, sorted_eq_self j h.1, sortedAll_eq_self rest h.2]

theorem sortedMembers_eq_self : ∀ members : List (String × Json),
    EverywhereInMembers Ordered members → sortedMembers members = members
  | [], _ => rfl
  | (_, j) :: rest, h => by
    rw [sortedMembers, sorted_eq_self j h.1, sortedMembers_eq_self rest h.2]

end

/-- A value is read with its members sorted, if there is room for it. -/
theorem reads_anyValue_sorted : ∀ (room : Nat) (j : Json), j.nesting ≤ room →
    Reads (anyValue room) j j.sorted
  | room, .null, _ => reads_anyValue_scalar room .null
  | room, .bool b, _ => reads_anyValue_scalar room (.bool b)
  | room, .number n, _ => reads_anyValue_scalar room (.number n)
  | room, .text t, _ => reads_anyValue_scalar room (.text t)
  | _, .list js, hroom => by
    obtain ⟨room, rfl, hitem⟩ := room_of_list hroom
    intro s hs
    obtain ⟨start, stop, items, rfl, hitems⟩ := hs.of_list
    have hread : readEach (fun s => anyValue room s) items = .ok (sortedAll js) := by
      apply readEach_eq hitems
      rw [sortedAll_eq_map, List.forall₂_map_right_iff, List.forall₂_same]
      intro j hmem
      exact reads_anyValue_sorted room j (hitem j hmem)
    simp [anyValue, hread, Ending.finish, sorted]
  | _, .object ms, hroom => by
    obtain ⟨room, rfl, hvalue⟩ := room_of_object hroom
    intro s hs
    obtain ⟨start, stop, members, rfl, hmembers⟩ := hs.of_object
    have hread : readMembers (fun s => anyValue room s) members = .ok (sortedMembers ms) := by
      apply readMembers_eq hmembers
      rw [sortedMembers_eq_map, List.forall₂_map_right_iff, List.forall₂_same]
      intro e hmem
      exact ⟨rfl, reads_anyValue_sorted room e.2 (hvalue e hmem)⟩
    simp [anyValue, hread, Ending.finish, sorted]

/-! ## Records -/

/-- A field sets what its reader reads.  Every decoder of a record is built from such fields, so
    this is the step of all their proofs. -/
theorem reads_field {α β : Type} {read : Syntax → Except Fault β} {j : Json} {x : β}
    (h : Reads read j x) (name : String) (required : Bool) (set : β → α → α) (r : α) :
    Reads (fun s => (field name required read set).put s r) j (set x r) :=
  h.map fun x => set x r

section Records

variable {α : Type} (fields : List (RecordField α))

/-- The members turn the record `r` into another, field by field.  `seen` are the fields given
    before, and none of them is given again. -/
inductive Fills : (seen : List String) → (r : α) → List (String × Json) → α → Prop
  | nil {seen : List String} {r : α} : Fills seen r [] r
  | cons {seen : List String} {r r' r'' : α} {name : String} {j : Json}
      {ms : List (String × Json)} (f : RecordField α) :
      fields.find? (·.name == name) = some f → name ∉ seen → Reads (fun s => f.put s r) j r' →
      Fills (name :: seen) r' ms r'' → Fills seen r ((name, j) :: ms) r''

variable {fields}

/-- What goes with some fields given goes with fewer of them given.  A member that is left out
    does not add to the names that were seen, and this lemma bridges the difference. -/
theorem Fills.mono {seen seen' : List String} {r r' : α} {ms : List (String × Json)}
    (h : Fills fields seen r ms r') (hsub : ∀ name ∈ seen', name ∈ seen) :
    Fills fields seen' r ms r' := by
  induction h generalizing seen' with
  | nil => exact .nil
  | cons f hfind hseen hput _ ih =>
    refine .cons f hfind ?_ hput (ih ?_)
    · intro hmem
      exact hseen (hsub _ hmem)
    · intro n hn
      rcases List.mem_cons.1 hn with rfl | hn
      · exact List.mem_cons_self
      · exact List.mem_cons_of_mem _ (hsub n hn)

/-- What is filled is what is read, and each name is seen.  The induction is on the way in which
    the record is filled, member by member. -/
theorem Fills.putMembers_eq {seen : List String} {r r' : α} {ms : List (String × Json)}
    (h : Fills fields seen r ms r') :
    ∀ {members : List (Key × Syntax)}, RepresentsMembers members ms →
      ∃ seen', putMembers fields seen r members = .ok (seen', r')
        ∧ ∀ name, name ∈ seen ∨ name ∈ ms.map Prod.fst → name ∈ seen' := by
  induction h with
  | @nil seen r =>
    intro members hmembers
    cases hmembers
    exact ⟨seen, rfl, by simp⟩
  | @cons seen r r' r'' name j ms f hfind hseen hput _ ih =>
    intro members hmembers
    cases hmembers with
    | cons hs hrest =>
      obtain ⟨seen', hput', hnames⟩ := ih hrest
      refine ⟨seen', ?_, fun n hn => hnames n ?_⟩
      · simp [putMembers, hfind, hseen, hput _ hs, hput']
      · simp only [List.map_cons, List.mem_cons] at hn ⊢
        rcases hn with hn | hn | hn
        · exact .inl (.inr hn)
        · exact .inl (.inl hn)
        · exact .inr hn

/-- A record is read from members that fill it and give all that is required. -/
theorem reads_record {room : Nat} (hroom : 0 < room) {name : String} {blank r : α}
    {ms : List (String × Json)} (h : Fills fields [] blank ms r)
    (hrequired : ∀ f ∈ fields, f.required = true → f.name ∈ ms.map Prod.fst) :
    Reads (record room name blank fields) (.object ms) r := by
  intro s hs
  obtain ⟨start, stop, members, rfl, hmembers⟩ := hs.of_object
  obtain ⟨seen, hput, hnames⟩ := h.putMembers_eq hmembers
  have hmissing : fields.find? (fun f => f.required && !seen.contains f.name) = none := by
    rw [List.find?_eq_none]
    intro f hf hmissing
    obtain ⟨hreq, hunseen⟩ := Bool.and_eq_true_iff.1 hmissing
    simp [hnames f.name (.inr (hrequired f hf hreq))] at hunseen
  simp only [record, if_neg (Nat.ne_of_gt hroom), hput, hmissing]

end Records

/-! ## Documents -/

/-- What the decoder makes of the reread value is read from its text, in every layout that writes
    blanks only. -/
theorem decode_write_reread {α : Type} {read : (room : Nat) → Syntax → Except Fault α} {l : Layout}
    (hl : l.Blank) {j : Json} {x : α} (h : Reads (read depthLimit) j.reread x) :
    decode read (String.ofList (j.write l 0)) = .ok x := by
  obtain ⟨s, hs, hscan⟩ := Syntax.scan_write_reread hl j
  simp [decode, hscan, h s hs]

/-- Without floats a document is read back from its text.  This is what most documents need, and
    the general form `decode_write_reread` is left to samples. -/
theorem decode_write {α : Type} {read : (room : Nat) → Syntax → Except Fault α} {l : Layout}
    (hl : l.Blank) {j : Json} (hj : j.Everywhere Whole) {x : α}
    (h : Reads (read depthLimit) j x) : decode read (String.ofList (j.write l 0)) = .ok x := by
  rw [← reread_eq_self j hj] at h
  exact decode_write_reread hl h

end BranchProbe.Json
