/-
  What the export of a traversal result keeps of the document that was loaded.

  1. `Form` names the fields of a result and of its nodes, and which of them the export may supply
     or leave out.  `Kept part s j` compares a part of the document, `s`, with its value in the
     export, `j`: scalars are equal, lists agree item by item, and a record has the fields that are
     given, each with a kept value.  A record may be given as an object or as a list.
  2. What a decoder accepts is kept, as `TreeNode.kept_toJson` shows by induction on the room and
     `Simulation.kept_toJson` for a whole result.  Both rest on `record_given`: a field holds what
     was read from the value given for it.
  3. `export_keeps` puts loading, exporting and the printed text together, for any store of files.
-/
import BranchProbe.Document.Files
import BranchProbe.Files.MemoryStore
import BranchProbe.Proofs.Document.RoundTrip
import BranchProbe.Proofs.Json.Given

namespace BranchProbe

open Json (Syntax Fault RecordField Received Careful Represents textValue optional listOf
  record_given keeps_field leaves_field careful_record careful_field careful_optional
  careful_listOf careful_textValue)

/-! ## Kept values -/

/-- The records in the document of a traversal result. -/
inductive Form where
  | result
  | node
  deriving Repr, DecidableEq

/-- What is expected in a place of the document. -/
inductive Part where
  | scalar
  | list (item : Part)
  | record (form : Form)
  deriving Repr, DecidableEq

namespace Form

/-- The fields of a record, and what is expected in each. -/
def fields : Form → List (String × Part)
  | .result =>
    [("path", .list .scalar), ("visited_nodes", .list (.record .node)),
      ("final_node", .record .node)]
  | .node =>
    [("node_id", .scalar), ("text", .scalar), ("condition", .scalar),
      ("children", .list (.record .node))]

def names (form : Form) : List String := form.fields.map Prod.fst

/-- The fields that the export may have though they are not given. -/
def supplied : Form → List String
  | .result => []
  | .node => ["condition", "children"]

/-- The fields that the export does not have where they are given as null. -/
def withoutNull : Form → List String
  | .result => ["visited_nodes"]
  | .node => []

end Form

/-- The tree is that of a null. -/
def Json.Syntax.IsNull (s : Syntax) : Prop :=
  ∃ start pass stop, s = .scalar start (.ok .null) pass stop

mutual

/-- The part `s` of the document is kept as the value `j` of the export. -/
inductive Kept : Part → Syntax → Json → Prop
  | scalar {start stop : Json.Mark} {x : Json.Scalar} {pass : Option Fault} :
      Kept .scalar (.scalar start (.ok x) pass stop) x.toJson
  | list {part : Part} {start : Json.Mark} {items : List Syntax} {ending : Json.Ending}
      {js : List Json} :
      KeptItems part items js → Kept (.list part) (.list start items ending) (.list js)
  | record {form : Form} {s : Syntax} {members : List (String × Json)} :
      KeptMembers form s members → (members.map Prod.fst).Nodup →
      (∀ name ∈ form.names, name ∉ members.map Prod.fst →
        ∀ u, s.given? form.names name = some u → name ∈ form.withoutNull ∧ u.IsNull) →
      Kept (.record form) s (.object members)

/-- The items are kept one by one. -/
inductive KeptItems : Part → List Syntax → List Json → Prop
  | nil {part : Part} : KeptItems part [] []
  | cons {part : Part} {s : Syntax} {j : Json} {items : List Syntax} {js : List Json} :
      Kept part s j → KeptItems part items js → KeptItems part (s :: items) (j :: js)

/-- Each member of the export is a field of the record `s`: its value is kept, or it is one of the
    fields that may be supplied and are not given in `s`.  Of a supplied member the value is left open on
    purpose: this relation is about what was received and still is there, and the value of a member
    that was not received is no part of that.  What comes back from the supplied condition and
    children of a node is said by `Simulation.reload_after_export`: the same result, or a refusal. -/
inductive KeptMembers : Form → Syntax → List (String × Json) → Prop
  | nil {form : Form} {s : Syntax} : KeptMembers form s []
  | given {form : Form} {s u : Syntax} {name : String} {part : Part} {j : Json}
      {members : List (String × Json)} :
      (name, part) ∈ form.fields → s.given? form.names name = some u → Kept part u j →
      KeptMembers form s members → KeptMembers form s ((name, j) :: members)
  | supplied {form : Form} {s : Syntax} {name : String} {j : Json}
      {members : List (String × Json)} :
      name ∈ form.supplied → s.given? form.names name = none →
      KeptMembers form s members → KeptMembers form s ((name, j) :: members)

end

theorem kept_of_textValue {s : Syntax} {t : String} (h : textValue s = .ok t) :
    Kept .scalar s (.text t) := by
  obtain ⟨start, pass, stop, rfl⟩ := Json.textValue_eq_ok h
  exact .scalar

/-- So is one that may be missing, and null is kept as null. -/
theorem kept_of_optional {s : Syntax} {t : Option String} (h : optional textValue s = .ok t) :
    Kept .scalar s (.ofText? t) := by
  rcases Json.optional_eq_ok h with ⟨rfl, start, pass, stop, rfl⟩ | ⟨text, rfl, htext⟩
  · exact .scalar
  · exact kept_of_textValue htext

/-- A list is kept if its items are.  A list that was read was read item by item, so the
    induction is on that run. -/
theorem kept_of_listOf {α : Type} {part : Part} {room : Nat} {read : Syntax → Except Fault α}
    {write : α → Json} (hread : ∀ s x, s.Faultless → read s = .ok x → Kept part s (write x))
    {s : Syntax} {xs : List α} (hs : s.Faultless) (h : listOf room read s = .ok xs) :
    Kept (.list part) s (.list (xs.map write)) := by
  obtain ⟨start, items, ending, rfl, hitems⟩ := Json.exists_items_of_listOf h
  have hfaultless := hs.of_list.1
  refine .list ?_
  clear h hs
  induction hitems with
  | nil => exact .nil
  | cons hx _ ih =>
    obtain ⟨hitem, hrest⟩ := List.forall_mem_cons.1 hfaultless
    exact .cons (hread _ _ hitem hx) (ih hrest)

/-- A field that received its value is a kept member; a field that may be left out is supplied. -/
theorem KeptMembers.of_received {β : Type} {form : Form} {s : Syntax} {name : String} {part : Part}
    {read : Syntax → Except Fault β} {required : Bool} {before after : β} {j : Json}
    {members : List (String × Json)} (hpart : (name, part) ∈ form.fields)
    (h : Received read (s.given? form.names name) required before after)
    (hrequired : required = false → name ∈ form.supplied)
    (hkept : ∀ u, s.given? form.names name = some u → read u = .ok after → Kept part u j)
    (hrest : KeptMembers form s members) : KeptMembers form s ((name, j) :: members) := by
  cases hgiven : s.given? form.names name with
  | none => exact .supplied (hrequired (h.default hgiven).2) hgiven hrest
  | some u => exact .given hpart hgiven (hkept u hgiven (h.value u hgiven)) hrest

/-! ## Nodes -/

namespace TreeNode

/-- A list for which there is no room is not read. -/
theorem listOf_zero {α : Type} (read read' : Syntax → Except Fault α) :
    listOf 0 read = listOf 0 read' := by
  funext s
  cases s <;> rfl

/-- How a node is read where there is room for some lists and objects. -/
theorem decode_eq {room : Nat} (h : 0 < room) (s : Syntax) :
    decode room s
      = Json.record room "TreeNode" blank (fields (listOf (room - 1) (decode (room - 2)))) s := by
  match room with
  | 1 => rw [decode, listOf_zero]
  | room + 2 => rfl

/-- A node is read only where there is room for an object. -/
theorem decode_pos {room : Nat} {s : Syntax} {n : TreeNode} (h : decode room s = .ok n) :
    0 < room := by
  cases room with
  | zero => cases s <;> cases h
  | succ room => exact Nat.succ_pos room

/-- A node that is read can be passed over without a fault, also where its members are not looked
    at.  The induction is on the room, which gets less at every level. -/
theorem careful_decode (room : Nat) : Careful (decode room) := by
  induction room using Nat.strong_induction_on with
  | _ room ih =>
    intro s n hs h
    have hpos := decode_pos h
    rw [decode_eq hpos] at h
    refine careful_record (fun _ => ?_) s n hs h
    have hchildren : Careful (listOf (room - 1) (decode (room - 2))) :=
      careful_listOf fun hinside => ih (room - 2) (by omega)
    simp only [fields, List.forall_mem_cons, List.not_mem_nil, false_imp_iff, implies_true,
      and_true]
    exact ⟨careful_field careful_textValue _ _ _, careful_field careful_textValue _ _ _,
      careful_field (careful_optional careful_textValue) _ _ _, careful_field hchildren _ _ _⟩

/-- What the fields of a node were read from. -/
structure Given (room : Nat) (s : Syntax) (n : TreeNode) : Prop where
  id : Received textValue (s.given? Form.node.names "node_id") true "" n.id
  text : Received textValue (s.given? Form.node.names "text") true "" n.text
  condition : Received (optional textValue) (s.given? Form.node.names "condition") false none
    n.condition
  children : Received (listOf (room - 1) (decode (room - 2)))
    (s.given? Form.node.names "children") false [] n.children

/-- What a node was read from: each of its fields received its value from the member of that
    name, or its default where there is none. -/
theorem given_of_decode {room : Nat} {s : Syntax} {n : TreeNode} (hs : s.Faultless)
    (h : decode room s = .ok n) : Given room s n := by
  rw [decode_eq (decode_pos h)] at h
  have hnames : ((fields (listOf (room - 1) (decode (room - 2)))).map RecordField.name).Nodup := by
    simp [fields, Json.field]
  refine ⟨record_given TreeNode.id hnames List.mem_cons_self (keeps_field (fun _ _ => rfl) ?_) hs h,
    record_given TreeNode.text hnames (List.mem_cons_of_mem _ List.mem_cons_self)
      (keeps_field (fun _ _ => rfl) ?_) hs h,
    record_given TreeNode.condition hnames (List.mem_cons_of_mem _ (List.mem_cons_of_mem _
      List.mem_cons_self)) (keeps_field (fun _ _ => rfl) ?_) hs h,
    record_given TreeNode.children hnames (List.mem_cons_of_mem _ (List.mem_cons_of_mem _
      (List.mem_cons_of_mem _ List.mem_cons_self))) (keeps_field (fun _ _ => rfl) ?_) hs h⟩
  -- each field sets a part of its own
  all_goals
    simp only [fields, List.forall_mem_cons, List.not_mem_nil, false_imp_iff, implies_true,
      and_true]
    refine ⟨?_, ?_, ?_, ?_⟩
    all_goals
      intro hne
      first
        | exact absurd rfl hne
        | exact leaves_field fun _ _ => rfl

/-- A node that is read is kept as it is written, with the nodes below it. -/
theorem kept_toJson {room : Nat} : ∀ {s : Syntax} {n : TreeNode}, s.Faultless →
    decode room s = .ok n → Kept (.record .node) s n.toJson := by
  induction room using Nat.strong_induction_on with
  | _ room ih =>
    intro s n hs h
    obtain ⟨hid, htext, hcondition, hchildren⟩ := given_of_decode hs h
    obtain ⟨id, text, condition, children⟩ := n
    have hpos := decode_pos h
    -- the children are read with less room, so the induction is for them
    have hlist : ∀ u, s.given? Form.node.names "children" = some u →
        listOf (room - 1) (decode (room - 2)) u = .ok children →
        Kept (.list (.record .node)) u (.list (allToJson children)) := by
      intro u hu hread
      rw [allToJson_eq_map]
      exact kept_of_listOf (fun _ _ => ih (room - 2) (by omega)) (hs.of_given hu) hread
    rw [toJson]
    refine .record ?_ (by simp) (by simp [Form.names, Form.fields])
    exact .of_received (by simp [Form.fields]) hid (by simp) (fun _ _ => kept_of_textValue)
      (.of_received (by simp [Form.fields]) htext (by simp) (fun _ _ => kept_of_textValue)
        (.of_received (by simp [Form.fields]) hcondition (by simp [Form.supplied])
          (fun _ _ => kept_of_optional)
          (.of_received (by simp [Form.fields]) hchildren (by simp [Form.supplied]) hlist .nil)))

end TreeNode

/-! ## Results -/

namespace Simulation

/-- A result that is read can be passed over without a fault, as its fields can; a member without
    a field is passed anyway. -/
theorem careful_decode (room : Nat) : Careful (decode room) := by
  have hnode := TreeNode.careful_decode
  refine careful_record fun _ => ?_
  simp only [List.forall_mem_cons, List.not_mem_nil, false_imp_iff, implies_true, and_true]
  exact ⟨careful_field (careful_listOf fun _ => careful_textValue) _ _ _,
    careful_field (careful_optional (careful_listOf fun _ => hnode _)) _ _ _,
    careful_field (hnode _) _ _ _⟩

/-- What the fields of a result were read from. -/
structure Given (room : Nat) (s : Syntax) (x : Simulation) : Prop where
  path : Received (listOf (room - 1) textValue) (s.given? Form.result.names "path") true [] x.path
  visited : Received (optional (listOf (room - 1) (TreeNode.decode (room - 2))))
    (s.given? Form.result.names "visited_nodes") false none x.visited
  final : Received (TreeNode.decode (room - 1)) (s.given? Form.result.names "final_node") true
    .blank x.final

/-- The same for a result: its path and its final node must be given, and visited nodes may be
    missing, which is not the same as null. -/
theorem given_of_decode {room : Nat} {s : Syntax} {x : Simulation} (hs : s.Faultless)
    (h : decode room s = .ok x) : Given room s x := by
  rw [decode] at h
  refine ⟨record_given Simulation.path (by simp [Json.field]) List.mem_cons_self
      (keeps_field (fun _ _ => rfl) ?_) hs h,
    record_given Simulation.visited (by simp [Json.field])
      (List.mem_cons_of_mem _ List.mem_cons_self) (keeps_field (fun _ _ => rfl) ?_) hs h,
    record_given Simulation.final (by simp [Json.field])
      (List.mem_cons_of_mem _ (List.mem_cons_of_mem _ List.mem_cons_self))
      (keeps_field (fun _ _ => rfl) ?_) hs h⟩
  -- each field sets a part of its own
  all_goals
    simp only [List.forall_mem_cons, List.not_mem_nil, false_imp_iff, implies_true, and_true]
    refine ⟨?_, ?_, ?_⟩
    all_goals
      intro hne
      first
        | exact absurd rfl hne
        | exact leaves_field fun _ _ => rfl

/-- A result that is read is kept as it is written.  Each field is kept by its own lemma; what is
    left to show is that no name of the record is lost, and which two kinds of members may be
    added. -/
theorem kept_toJson {room : Nat} {s : Syntax} {x : Simulation} (hs : s.Faultless)
    (h : decode room s = .ok x) : Kept (.record .result) s x.toJson := by
  obtain ⟨hpath, hvisited, hfinal⟩ := given_of_decode hs h
  obtain ⟨path, visited, final⟩ := x
  have hkeptPath : ∀ u, s.given? Form.result.names "path" = some u →
      listOf (room - 1) textValue u = .ok path → Kept (.list .scalar) u (.ofTexts path) :=
    fun u hu => kept_of_listOf (fun _ _ _ => kept_of_textValue) (hs.of_given hu)
  have hkeptFinal : ∀ u, s.given? Form.result.names "final_node" = some u →
      TreeNode.decode (room - 1) u = .ok final → Kept (.record .node) u final.toJson :=
    fun u hu => TreeNode.kept_toJson (hs.of_given hu)
  have hlast : KeptMembers .result s [("final_node", final.toJson)] :=
    .of_received (by simp [Form.fields]) hfinal (by simp) hkeptFinal .nil
  cases visited with
  | none =>
    refine .record (.of_received (by simp [Form.fields]) hpath (by simp) hkeptPath hlast)
      (by simp [Json.optionalMember]) ?_
    intro name hname hout u hu
    simp only [Form.names, Form.fields, List.map_cons, List.map_nil, List.mem_cons,
      List.not_mem_nil, or_false, Json.optionalMember, Option.map_none, List.append_nil,
      List.cons_append, List.nil_append, not_or] at hname hout
    -- the one field that is left out was given as null
    obtain rfl : name = "visited_nodes" := (hname.resolve_left hout.1).resolve_right hout.2
    refine ⟨by simp [Form.withoutNull], ?_⟩
    rcases Json.optional_eq_ok (hvisited.value u hu) with ⟨-, hnull⟩ | ⟨y, hy, -⟩
    · exact hnull
    · cases hy
  | some ns =>
    have hgiven : ∃ u, s.given? Form.result.names "visited_nodes" = some u := by
      cases hgiven : s.given? Form.result.names "visited_nodes" with
      | none => cases (hvisited.default hgiven).1
      | some u => exact ⟨u, rfl⟩
    obtain ⟨u, hu⟩ := hgiven
    rcases Json.optional_eq_ok (hvisited.value u hu) with ⟨hnone, -⟩ | ⟨y, hy, hread⟩
    · cases hnone
    obtain rfl := Option.some.inj hy
    have hkept : Kept (.list (.record .node)) u (.list (TreeNode.allToJson ns)) := by
      rw [TreeNode.allToJson_eq_map]
      exact kept_of_listOf (fun _ _ => TreeNode.kept_toJson) (hs.of_given hu) hread
    refine .record (.of_received (by simp [Form.fields]) hpath (by simp) hkeptPath
      (.given (by simp [Form.fields]) hu hkept hlast)) (by simp [Json.optionalMember]) ?_
    simp [Form.names, Form.fields, Json.optionalMember]

end Simulation

/-! ## Exported files -/

section Files

variable {σ : Type} [FileStore σ] {store after : σ}

/-- Loading leaves the files as they are, and what is loaded is decoded from the text of the file. -/
theorem loadDocument_ok_iff {α : Type} {decode : Nat → Syntax → Except Fault α} {kind : String}
    {source : Path} {x : α} :
    (loadDocument decode kind source).run store = (.ok x, after) ↔ after = store
      ∧ ∃ text, FileStore.read store source = .ok text ∧ Json.decode decode text = .ok x := by
  simp only [loadDocument, FileTask.run]
  cases FileStore.read store source with
  | error f => simp [FileTask.run]
  | ok text =>
    dsimp only
    cases hdecode : Json.decode decode text with
    | error f => simp [FileTask.run, hdecode]
    | ok y => simp [FileTask.run, hdecode, and_comm, eq_comm]

/-- A text is written to a file, whose directories are made before. -/
def Writes (store : σ) (target : Path) (text : String) (saved : σ) : Prop :=
  ∃ made, FileStore.ensureParent store target = (.ok (), made)
    ∧ FileStore.write made target text = .ok saved

namespace Simulation

theorem exportTo_ok_iff {x : Simulation} {target : Path} :
    (x.exportTo target).run store = (.ok (), after)
      ↔ Writes store target x.toJson.pretty after := by
  unfold exportTo Writes
  simp only [FileTask.run]
  rcases FileStore.ensureParent store target with ⟨r, made⟩
  cases r with
  | error f => simp [FileTask.run]
  | ok _ =>
    dsimp only [FileTask.run]
    cases hwrite : FileStore.write made target x.toJson.pretty <;> simp [FileTask.run, hwrite]

/-- The export of a loaded result keeps what the document gives: a field of the result or of a node
    that is given is in the export with its value, and but for a condition and children no field is
    in the export that is not given.  A field without meaning is left out, and so are visited nodes
    that are null. -/
theorem export_keeps {saved : σ} {source target : Path} {x : Simulation}
    (hload : (load source).run store = (.ok x, after))
    (hexport : (x.exportTo target).run after = (.ok (), saved)) :
    ∃ text s written t value, FileStore.read store source = .ok text
      ∧ Syntax.scan text = (s, none) ∧ Writes after target written saved
      ∧ Syntax.scan written = (t, none) ∧ Represents t value ∧ Kept (.record .result) s value := by
  obtain ⟨rfl, text, hread, hdecode⟩ := loadDocument_ok_iff.1 hload
  obtain ⟨s, hscan, hfaultless, hs⟩ :=
    Json.exists_scan_of_decode (careful_decode Json.depthLimit) hdecode
  have hkept := kept_toJson hfaultless hs
  obtain ⟨t, ht, hscan'⟩ := Syntax.scan_write Json.indented_blank x.whole_toJson
  exact ⟨text, s, x.toJson.pretty, t, x.toJson, hread, hscan, exportTo_ok_iff.1 hexport, hscan',
    ht, hkept⟩

end Simulation

end Files

/-! ## Exports in memory -/

namespace MemoryStore

@[simp] theorem content?_write (m : MemoryStore) (p : Path) (text : String) :
    (m.write p text).content? p = some text := by
  rw [content?, write, SortedMap.find?_insert, if_pos Std.ReflCmp.compare_self]

/-- A result is loaded from a store that has its text, and the store is left as it was. -/
theorem load_run {m : MemoryStore} {p : Path} {text : String} {x : Simulation}
    (hread : m.content? p = some text) (h : Json.decode Simulation.decode text = .ok x) :
    (Simulation.load p).run m = (.ok x, m) :=
  loadDocument_ok_iff.2 ⟨rfl, text, by simp [FileStore.read, hread], h⟩

theorem exportTo_run (m : MemoryStore) (x : Simulation) (target : Path) :
    (x.exportTo target).run m = (.ok (), m.write target x.toJson.pretty) := rfl

end MemoryStore

namespace Simulation

/-- What is seen of the value of a document shows that there is one. -/
theorem exists_of_toOption_map {α β : Type} {r : Except Fault α} {f : α → β} {y : β}
    (h : r.toOption.map f = some y) : ∃ x, r = .ok x ∧ f x = y := by
  cases r with
  | error e => cases h
  | ok x => exact ⟨x, rfl, Option.some.inj h⟩

/-- A result with a field without meaning, visited nodes that are null, and a node that is written
    as a list. -/
def annotated : String :=
  "\x7b\"path\":[],\"visited_nodes\":null,\"final_node\":[\"a\",\"t\",null,[]],\"note\":1\x7d"

/-- The text of its export. -/
def annotatedExport : String :=
  "\x7b\n  \"path\": [],\n  \"final_node\": \x7b\n    \"node_id\": \"a\",\n    \"text\": \"t\",\n"
    ++ "    \"condition\": null,\n    \"children\": []\n  \x7d\n\x7d"

/-- A store with this document. -/
def annotatedStore : MemoryStore := MemoryStore.empty.write ⟨"in.json"⟩ annotated

theorem exists_load_annotated : ∃ x, (load ⟨"in.json"⟩).run annotatedStore = (.ok x, annotatedStore)
    ∧ x.toJson.pretty = annotatedExport := by
  have h : ((Json.decode decode annotated).toOption.map fun x => x.toJson.pretty)
      = some annotatedExport := by decide +kernel
  obtain ⟨x, hx, hpretty⟩ := exists_of_toOption_map h
  exact ⟨x, MemoryStore.load_run (MemoryStore.content?_write _ _ _) hx, hpretty⟩

/-- The fields that are given are in the export.  The document has an unknown field, which is
    not, and null for the visited nodes, which are left out then. -/
theorem annotated_keeps : ∃ x saved, (load ⟨"in.json"⟩).run annotatedStore = (.ok x, annotatedStore)
    ∧ (x.exportTo ⟨"out.json"⟩).run annotatedStore = (.ok (), saved)
    ∧ ∃ text s written t value, FileStore.read annotatedStore ⟨"in.json"⟩ = .ok text
      ∧ Syntax.scan text = (s, none) ∧ Writes annotatedStore ⟨"out.json"⟩ written saved
      ∧ Syntax.scan written = (t, none) ∧ Represents t value ∧ Kept (.record .result) s value := by
  obtain ⟨x, hload, -⟩ := exists_load_annotated
  have hexport := MemoryStore.exportTo_run annotatedStore x ⟨"out.json"⟩
  exact ⟨x, _, hload, hexport, export_keeps hload hexport⟩

/-- The keys of an object. -/
def keys : Json → List String
  | .object members => members.map Prod.fst
  | _ => []

/-- The value of the export is not the value of the document: visited nodes that are null, for one,
    are left out. -/
theorem annotated_differs : ∃ x saved written v w,
    (load ⟨"in.json"⟩).run annotatedStore = (.ok x, annotatedStore)
    ∧ (x.exportTo ⟨"out.json"⟩).run annotatedStore = (.ok (), saved)
    ∧ saved.content? ⟨"out.json"⟩ = some written
    ∧ Json.decode Json.anyValue annotated = .ok v ∧ Json.decode Json.anyValue written = .ok w
    ∧ v ≠ w := by
  obtain ⟨x, hload, hpretty⟩ := exists_load_annotated
  have hexport := MemoryStore.exportTo_run annotatedStore x ⟨"out.json"⟩
  have hv : ((Json.decode Json.anyValue annotated).toOption.map keys)
      = some ["final_node", "note", "path", "visited_nodes"] := by decide +kernel
  have hw : ((Json.decode Json.anyValue annotatedExport).toOption.map keys)
      = some ["final_node", "path"] := by decide +kernel
  obtain ⟨v, hdv, hv⟩ := exists_of_toOption_map hv
  obtain ⟨w, hdw, hw⟩ := exists_of_toOption_map hw
  refine ⟨x, _, annotatedExport, v, w, hload, hexport, ?_, hdv, hdw, ?_⟩
  · rw [MemoryStore.content?_write, hpretty]
  · rintro rfl
    simpa using congrArg List.length (hv.symm.trans hw)

end Simulation

end BranchProbe
