/-
  What the fields of a record were read from.

  1. `Syntax.given?` is the value that a tree gives for a field: the one under its name in an object,
     the one at its place in a list.
  2. `Keeps` is the law of a field: what it reads stays in the record, under `get`, whatever the
     other fields do.
  3. `record_given` is the main result.  In a record that is read from a tree without fault, a field
     that is given holds what was read from the value given, and any other one is not required and
     is as it was in the blank record.
  4. `record_preserves` needs no tree without fault: what each field keeps holds in the end.
-/
import BranchProbe.Proofs.Json.Accepted
import Mathlib.Data.List.Forall2
import Mathlib.Data.List.Nodup

namespace BranchProbe.Json

/-! ## Given values -/

/-- The key can be read, and is `name`. -/
def Key.names (key : Key) (name : String) : Bool :=
  match key.read with
  | .ok n => n == name
  | .error _ => false

/-- A key that could be read is for a field just if it reads as the name of this field. -/
theorem Key.names_of_read {key : Key} {n : String} (h : key.read = .ok n) (name : String) :
    key.names name = (n == name) := by
  rw [Key.names, h]

/-- The value under a name among the members of an object, the first one if there are more. -/
def memberGiven? (name : String) (members : List (Key × Syntax)) : Option Syntax :=
  (members.find? fun e => e.1.names name).map Prod.snd

/-- The first member with a name is the one that is given; later ones with the same name are
    faults elsewhere. -/
theorem memberGiven?_cons_of_names {name : String} {e : Key × Syntax} {rest : List (Key × Syntax)}
    (h : e.1.names name = true) : memberGiven? name (e :: rest) = some e.2 := by
  simp [memberGiven?, h]

theorem memberGiven?_cons_of_not_names {name : String} {e : Key × Syntax}
    {rest : List (Key × Syntax)} (h : e.1.names name = false) :
    memberGiven? name (e :: rest) = memberGiven? name rest := by
  simp [memberGiven?, h]

/-- The value that a tree gives for one of the fields with these names, if it gives one. -/
def Syntax.given? (names : List String) (name : String) : Syntax → Option Syntax
  | .object _ members _ => memberGiven? name members
  | .list _ items _ => items[names.idxOf name]?
  | _ => none

namespace Syntax

/-! ## Trees without fault -/

/-- Items are passed without a fault just if each one is. -/
theorem passItemsFault?_eq_none_iff {items : List Syntax} :
    passItemsFault? items = none ↔ ∀ s ∈ items, s.passFault? = none := by
  induction items with
  | nil => simp [passItemsFault?]
  | cons s rest ih => rw [passItemsFault?, Option.or_eq_none_iff, ih, List.forall_mem_cons]

/-- Members that are passed without a fault have no fault in their values, since a fault in one
    would be the one of the whole unless another comes before. -/
theorem passFault?_of_mem {members : List (Key × Syntax)} (h : passMembersFault? members = none) :
    ∀ e ∈ members, e.2.passFault? = none := by
  induction members with
  | nil => simp
  | cons e rest ih =>
    obtain ⟨key, value⟩ := e
    rw [passMembersFault?, Option.or_eq_none_iff, Option.or_eq_none_iff] at h
    exact List.forall_mem_cons.2 ⟨h.1.2, ih h.2⟩

section Faultless

variable {start : Mark} {ending : Ending}

/-- A list without fault is closed, and so are the lists and objects in it. -/
theorem Faultless.of_list {items : List Syntax} (h : (Syntax.list start items ending).Faultless) :
    (∀ s ∈ items, s.Faultless) ∧ ∃ stop, ending = .closed stop := by
  obtain ⟨hsound, hpass⟩ := h
  rw [passFault?, Option.or_eq_none_iff] at hpass
  obtain ⟨hitems, hending⟩ := hpass
  cases hsound with
  | list hsound hunreached =>
  refine ⟨fun s hs => ⟨hsound s hs, passItemsFault?_eq_none_iff.1 hitems s hs⟩, ?_⟩
  cases ending with
  | broken read pass => cases hending
  | closed stop => exact ⟨stop, rfl⟩
  | unreached => exact absurd hitems (hunreached rfl)

/-- An object without faults is closed and its values have none.  With this the absence of faults
    is handed down from a document to its parts. -/
theorem Faultless.of_object {members : List (Key × Syntax)}
    (h : (Syntax.object start members ending).Faultless) :
    (∀ e ∈ members, e.2.Faultless) ∧ ∃ stop, ending = .closed stop := by
  obtain ⟨hsound, hpass⟩ := h
  rw [passFault?, Option.or_eq_none_iff] at hpass
  obtain ⟨hmembers, hending⟩ := hpass
  cases hsound with
  | object _ hsound hunreached =>
  refine ⟨fun e he => ⟨hsound e he, passFault?_of_mem hmembers e he⟩, ?_⟩
  cases ending with
  | broken read pass => cases hending
  | closed stop => exact ⟨stop, rfl⟩
  | unreached => exact absurd hmembers (hunreached rfl)

end Faultless

/-- The values that a tree without fault gives are without fault, whether they are found by name
    among its members or by place among its items. -/
theorem Faultless.of_given {s u : Syntax} {names : List String} {name : String} (h : s.Faultless)
    (hu : s.given? names name = some u) : u.Faultless := by
  cases s with
  | missing => cases hu
  | scalar => cases hu
  | list start items ending => exact h.of_list.1 u (List.mem_of_getElem? hu)
  | object start members ending =>
    obtain ⟨e, he, rfl⟩ := Option.map_eq_some_iff.1 hu
    exact h.of_object.1 e (List.mem_of_find?_eq_some he)

end Syntax

/-! ## Fields -/

section Fields

variable {α β : Type}

/-- The field leaves alone what `get` finds in a record. -/
def RecordField.Leaves (f : RecordField α) (get : α → β) : Prop :=
  ∀ s r r', f.put s r = .ok r' → get r' = get r

/-- The field puts into a record what `read` makes of its value, to be found there by `get`, and the
    fields with other names leave it alone. -/
structure RecordField.Keeps (fields : List (RecordField α)) (f : RecordField α)
    (read : Syntax → Except Fault β) (get : α → β) : Prop where
  put : ∀ s r r', f.put s r = .ok r' → read s = .ok (get r')
  others : ∀ g ∈ fields, g.name ≠ f.name → g.Leaves get

/-- What a field holds after reading: what `read` makes of the value given, or what it held before,
    `before`, and then it is not `required`. -/
structure Received (read : Syntax → Except Fault β) (given : Option Syntax) (required : Bool)
    (before after : β) : Prop where
  value : ∀ u, given = some u → read u = .ok after
  default : given = none → after = before ∧ required = false

variable {fields : List (RecordField α)} {f : RecordField α} {read : Syntax → Except Fault β}
  {get : α → β}

/-- A field that is found by its name has this name. -/
theorem name_of_find? {name : String} (h : fields.find? (·.name == name) = some f) :
    f.name = name := by
  have hname := List.find?_some h
  exact eq_of_beq hname

/-- A field that sets one part of a record leaves every other part as it was. -/
theorem leaves_field {γ : Type} {read : Syntax → Except Fault γ} {name : String}
    {required : Bool} {set : γ → α → α} (h : ∀ x r, get (set x r) = get r) :
    (field name required read set).Leaves get := by
  intro s r r' hput
  obtain ⟨x, -, rfl⟩ := map_eq_ok_iff.1 hput
  exact h x r

/-- A field keeps what it has read, if no other field sets the same part of the record.  This is
    the frame condition with which records are read field by field. -/
theorem keeps_field {name : String} {required : Bool} {set : β → α → α}
    (hset : ∀ x r, get (set x r) = x) (hothers : ∀ g ∈ fields, g.name ≠ name → g.Leaves get) :
    (field name required read set).Keeps fields read get where
  put s r r' hput := by
    obtain ⟨x, hx, rfl⟩ := map_eq_ok_iff.1 hput
    rw [hx, hset]
  others := hothers

theorem eq_of_find? (hnames : (fields.map RecordField.name).Nodup) (hf : f ∈ fields)
    {g : RecordField α} (hg : fields.find? (·.name == f.name) = some g) : g = f :=
  List.inj_on_of_nodup_map hnames (List.mem_of_find?_eq_some hg) hf (name_of_find? hg)

/-! ## Objects -/

/-- The members of an object are put one after the other.  `seen` are the fields that were given
    before: they are not given again. -/
theorem putMembers_given (hnames : (fields.map RecordField.name).Nodup) (hf : f ∈ fields)
    (hkeeps : f.Keeps fields read get) {members : List (Key × Syntax)} {seen seen' : List String}
    {r r' : α} (h : putMembers fields seen r members = .ok (seen', r')) :
    (f.name ∈ seen → memberGiven? f.name members = none)
    ∧ (∀ u, memberGiven? f.name members = some u → read u = .ok (get r'))
    ∧ (memberGiven? f.name members = none → get r' = get r ∧ (f.name ∈ seen' → f.name ∈ seen)) := by
  induction members generalizing seen r with
  | nil =>
    rw [putMembers, Except.ok.injEq, Prod.mk.injEq] at h
    obtain ⟨rfl, rfl⟩ := h
    exact ⟨fun _ => rfl, by simp [memberGiven?], fun _ => ⟨rfl, id⟩⟩
  | cons e rest ih =>
    obtain ⟨key, value⟩ := e
    rw [putMembers] at h
    split at h
    · cases h
    next name hname =>
    have hkey : ∀ n, key.names n = (name == n) := key.names_of_read hname
    split at h
    · next hfind =>
      -- a member that no field is found for is not the member of the field `f`
      have hne : key.names f.name = false := by
        rw [hkey]
        have hnot := List.find?_eq_none.1 hfind f hf
        exact beq_eq_false_iff_ne.2 fun heq => hnot (beq_iff_eq.2 heq.symm)
      split at h
      · cases h
      rw [memberGiven?_cons_of_not_names hne]
      exact ih h
    next g hfind =>
    split at h
    · cases h
    next hunseen =>
    split at h
    · cases h
    split at h
    · cases h
    next r₁ hput =>
    obtain ⟨hagain, hvalue, hrest⟩ := ih h
    by_cases hname : name = f.name
    · subst hname
      obtain rfl := eq_of_find? hnames hf hfind
      rw [memberGiven?_cons_of_names (by rw [hkey]; exact beq_self_eq_true _)]
      obtain ⟨hget, -⟩ := hrest (hagain List.mem_cons_self)
      refine ⟨fun hseen => absurd (List.contains_iff_mem.2 hseen) hunseen, fun u hu => ?_,
        fun hnone => by cases hnone⟩
      obtain rfl := Option.some.inj hu
      rw [hget]
      exact hkeeps.put _ _ _ hput
    · have hgname := name_of_find? hfind
      have hother := hkeeps.others g (List.mem_of_find?_eq_some hfind) (hgname ▸ hname) _ _ _ hput
      rw [memberGiven?_cons_of_not_names (by rw [hkey]; exact beq_eq_false_iff_ne.2 hname)]
      refine ⟨fun hseen => hagain (List.mem_cons_of_mem _ hseen), hvalue, fun hnone => ?_⟩
      obtain ⟨hget, hseen⟩ := hrest hnone
      refine ⟨hget.trans hother, fun hmem => ?_⟩
      rcases List.mem_cons.1 (hseen hmem) with rfl | hmem
      · exact absurd rfl hname
      · exact hmem

/-! ## Lists -/

/-- Fields that leave something alone leave it alone one after the other, also where a record is
    written as a list and the fields are taken in their own order. -/
theorem putItems_others {wrongLength : Nat → Cause} {fields : List (RecordField α)} {count : Nat}
    {r r' : α} {items : List Syntax} {ending : Ending}
    (hothers : ∀ g ∈ fields, g.Leaves get)
    (h : putItems wrongLength fields count r items ending = .ok r') : get r' = get r := by
  induction fields generalizing count r items with
  | nil =>
    rw [putItems] at h
    split at h
    · cases h
    · rw [Except.ok.inj h]
  | cons g fields ih =>
    obtain ⟨hg, hothers⟩ := List.forall_mem_cons.1 hothers
    cases items with
    | nil =>
      cases ending with
      | broken read pass => cases h
      | unreached => rw [Except.ok.inj h]
      | closed stop =>
        rw [putItems] at h
        split at h
        · cases h
        · exact ih hothers h
    | cons s items =>
      rw [putItems] at h
      split at h
      · cases h
      next r₁ hput => exact (ih hothers h).trans (hg _ _ _ hput)

/-- The items of a closed list are put one after the other, each into the field at its place. -/
theorem putItems_given {wrongLength : Nat → Cause} {count : Nat} {r r' : α} {items : List Syntax}
    {stop : Mark} (hnames : (fields.map RecordField.name).Nodup) (hf : f ∈ fields)
    (hkeeps : f.Keeps fields read get)
    (h : putItems wrongLength fields count r items (.closed stop) = .ok r') :
    Received read items[(fields.map RecordField.name).idxOf f.name]? f.required (get r)
      (get r') := by
  induction fields generalizing count r items with
  | nil => cases hf
  | cons g fields ih =>
    rw [List.map_cons, List.nodup_cons] at hnames
    obtain ⟨hnew, hnames⟩ := hnames
    obtain ⟨hput, hothers⟩ := hkeeps
    obtain ⟨hg, hothers⟩ := List.forall_mem_cons.1 hothers
    rw [List.map_cons]
    by_cases hgf : g.name = f.name
    · -- the field itself; the ones after it have other names
      have hrest : ∀ g' ∈ fields, g'.Leaves get := fun g' hg' =>
        hothers g' hg' fun heq => hnew (hgf.trans heq.symm ▸ List.mem_map_of_mem hg')
      obtain rfl : f = g := by
        rcases List.mem_cons.1 hf with rfl | hf
        · rfl
        · exact absurd (hgf ▸ List.mem_map_of_mem hf) hnew
      rw [List.idxOf_cons_self]
      cases items with
      | nil =>
        rw [putItems] at h
        split at h
        · cases h
        next hrequired =>
        exact ⟨by simp, fun _ => ⟨putItems_others hrest h, Bool.not_eq_true _ ▸ hrequired⟩⟩
      | cons s items =>
        rw [putItems] at h
        split at h
        · cases h
        next r₁ hr₁ =>
        refine ⟨fun u hu => ?_, by simp⟩
        obtain rfl := Option.some.inj hu
        rw [putItems_others hrest h]
        exact hput _ _ _ hr₁
    · have hf : f ∈ fields := (List.mem_cons.1 hf).resolve_left fun heq => hgf (heq ▸ rfl)
      have hkeeps : f.Keeps fields read get := ⟨hput, hothers⟩
      rw [List.idxOf_cons_ne _ hgf]
      cases items with
      | nil =>
        rw [putItems] at h
        split at h
        · cases h
        · simpa using ih hnames hf hkeeps h
      | cons s items =>
        rw [putItems] at h
        split at h
        · cases h
        next r₁ hr₁ =>
        have hrest := ih hnames hf hkeeps h
        rw [hg hgf _ _ _ hr₁] at hrest
        exact hrest

/-! ## Records -/

/-- Members keep what each field keeps.  This is the invariant rule for reading an object: it
    holds before, and every field preserves it, whichever members are given. -/
theorem putMembers_preserves {P : α → Prop}
    (hput : ∀ f ∈ fields, ∀ s r r', P r → f.put s r = .ok r' → P r')
    {members : List (Key × Syntax)} {seen seen' : List String} {r r' : α} (hr : P r)
    (h : putMembers fields seen r members = .ok (seen', r')) : P r' := by
  induction members generalizing seen r with
  | nil =>
    obtain ⟨-, rfl⟩ := Prod.mk.inj (Except.ok.inj h)
    exact hr
  | cons e rest ih =>
    obtain ⟨key, value⟩ := e
    rw [putMembers] at h
    split at h
    · cases h
    split at h
    · split at h
      · cases h
      exact ih hr h
    next f hfind =>
    split at h
    · cases h
    split at h
    · cases h
    split at h
    · cases h
    next r₁ hr₁ => exact ih (hput f (List.mem_of_find?_eq_some hfind) _ _ _ hr hr₁) h

/-- Items keep what each field keeps, which is the same rule for a record that is written as a
    list. -/
theorem putItems_preserves {P : α → Prop} {wrongLength : Nat → Cause} {count : Nat}
    {items : List Syntax} {ending : Ending} {r r' : α}
    (hput : ∀ f ∈ fields, ∀ s r r', P r → f.put s r = .ok r' → P r') (hr : P r)
    (h : putItems wrongLength fields count r items ending = .ok r') : P r' := by
  induction fields generalizing count r items with
  | nil =>
    rw [putItems] at h
    split at h
    · cases h
    · exact Except.ok.inj h ▸ hr
  | cons f fields ih =>
    obtain ⟨hf, hrest⟩ := List.forall_mem_cons.1 hput
    cases items with
    | nil =>
      cases ending with
      | broken read pass => cases h
      | unreached => exact Except.ok.inj h ▸ hr
      | closed stop =>
        rw [putItems] at h
        split at h
        · cases h
        · exact ih hrest hr h
    | cons s items =>
      rw [putItems] at h
      split at h
      · cases h
      next r₁ hr₁ => exact ih hrest (hf _ _ _ hr hr₁) h

/-- In a record that is read from a tree without fault, each field holds what was read from the
    value given for it.  A field without such a value is not required and is left blank. -/
theorem record_given (get : α → β) {room : Nat} {name : String} {blank r : α} {s : Syntax}
    (hnames : (fields.map RecordField.name).Nodup) (hf : f ∈ fields)
    (hkeeps : f.Keeps fields read get) (hs : s.Faultless)
    (h : record room name blank fields s = .ok r) :
    Received read (s.given? (fields.map RecordField.name) f.name) f.required (get blank)
      (get r) := by
  unfold record at h
  split at h
  · split at h
    · cases h
    obtain ⟨-, stop, rfl⟩ := hs.of_object
    split at h
    · cases h
    next seen r₁ hmembers =>
    obtain ⟨-, hvalue, hdefault⟩ := putMembers_given hnames hf hkeeps hmembers
    dsimp only at h
    split at h
    · cases h
    next hmissing =>
    obtain rfl := Except.ok.inj h
    refine ⟨hvalue, fun hnone => ?_⟩
    obtain ⟨hget, hseen⟩ := hdefault hnone
    have hf' := List.find?_eq_none.1 hmissing f hf
    refine ⟨hget, ?_⟩
    -- a required field that was not seen would have been a fault
    by_contra hrequired
    refine hf' ?_
    simp only [Bool.not_eq_false] at hrequired
    rw [hrequired, Bool.true_and, Bool.not_eq_true', ← Bool.not_eq_true, List.contains_iff_mem]
    intro hmem
    cases hseen hmem
  · split at h
    · cases h
    obtain ⟨-, stop, rfl⟩ := hs.of_list
    exact putItems_given hnames hf hkeeps h
  · cases h

/-- What holds of the blank record and is kept by each field holds of the record that is read, with or
    without a fault after it. -/
theorem record_preserves {P : α → Prop} {room : Nat} {name : String} {blank r : α} {s : Syntax}
    (hblank : P blank) (hput : ∀ f ∈ fields, ∀ s r r', P r → f.put s r = .ok r' → P r')
    (h : record room name blank fields s = .ok r) : P r := by
  unfold record at h
  split at h
  · split at h
    · cases h
    split at h
    · cases h
    next seen r₁ hmembers =>
    have hr₁ := putMembers_preserves hput hblank hmembers
    split at h
    · cases h
    · exact Except.ok.inj h ▸ hr₁
    · split at h
      · cases h
      · exact Except.ok.inj h ▸ hr₁
  · split at h
    · cases h
    exact putItems_preserves hput hblank h
  · cases h

end Fields

/-! ## Lists and values that may be null -/

section Shapes

variable {α : Type} {read : Syntax → Except Fault α}

/-- The items were read in turn, each by itself, and the results stand in the order of the items. -/
theorem forall₂_of_readEach {items : List Syntax} {xs : List α} (h : readEach read items = .ok xs) :
    List.Forall₂ (fun s x => read s = .ok x) items xs := by
  induction items generalizing xs with
  | nil =>
    obtain rfl := Except.ok.inj h
    exact .nil
  | cons s rest ih =>
    rw [readEach] at h
    split at h
    · cases h
    next x hx =>
    obtain ⟨ys, hys, rfl⟩ := map_eq_ok_iff.1 h
    exact .cons hx (ih hys)

/-- A list was read from the items of a list, in turn.  Nothing else is accepted as a list, and
    no item is left out. -/
theorem exists_items_of_listOf {room : Nat} {s : Syntax} {xs : List α}
    (h : listOf room read s = .ok xs) :
    ∃ start items ending, s = .list start items ending
      ∧ List.Forall₂ (fun s x => read s = .ok x) items xs := by
  unfold listOf at h
  split at h
  · next start items ending =>
    split at h
    · cases h
    split at h
    · cases h
    next ys hys =>
    refine ⟨start, items, ending, rfl, ?_⟩
    cases ending with
    | broken read pass => cases h
    | closed stop =>
      obtain rfl := Except.ok.inj h
      exact forall₂_of_readEach hys
    | unreached =>
      obtain rfl := Except.ok.inj h
      exact forall₂_of_readEach hys
  · cases h

theorem exists_read_of_listOf {room : Nat} {s : Syntax} {xs : List α}
    (h : listOf room read s = .ok xs) : ∀ x ∈ xs, ∃ u : Syntax, read u = .ok x := by
  obtain ⟨start, items, ending, rfl, hitems⟩ := exists_items_of_listOf h
  clear h
  induction hitems with
  | nil => simp
  | cons hx _ ih => exact List.forall_mem_cons.2 ⟨⟨_, hx⟩, ih⟩

/-- A value that may be null is null or was read.  Nothing else is taken for null, and a fault of
    `read` stays one. -/
theorem optional_eq_ok {s : Syntax} {x : Option α} (h : optional read s = .ok x) :
    (x = none ∧ ∃ start pass stop, s = .scalar start (.ok .null) pass stop)
    ∨ ∃ y, x = some y ∧ read s = .ok y := by
  unfold optional at h
  split at h
  · next start pass stop =>
    obtain rfl := Except.ok.inj h
    exact .inl ⟨rfl, start, pass, stop, rfl⟩
  · obtain ⟨y, hy, rfl⟩ := map_eq_ok_iff.1 h
    exact .inr ⟨y, rfl, hy⟩

/-- A text is read only where the document has a text. -/
theorem textValue_eq_ok {s : Syntax} {t : String} (h : textValue s = .ok t) :
    ∃ start pass stop, s = .scalar start (.ok (.text t)) pass stop := by
  unfold textValue at h
  split at h
  · obtain rfl := Except.ok.inj h
    exact ⟨_, _, _, rfl⟩
  · cases h

end Shapes

end BranchProbe.Json
