/-
  Decoders that run out of room.

  `Overflows read j`: whatever tree represents the value `j`, the decoder `read` refuses it for being
  nested too deep.  A list overflows if one of its items does and the others before it are read; a
  record overflows at the first member for which there is no room, whatever comes after it.
-/
import BranchProbe.Proofs.Json.Read

namespace BranchProbe.Json

/-- The decoder refuses every tree that represents the value `j`, as nested too deep. -/
def Overflows {α : Type} (read : Syntax → Except Fault α) (j : Json) : Prop :=
  ∀ s, Represents s j → ∃ mark, read s = .error ⟨.tooDeep, mark⟩

section Shapes

variable {α : Type} {read : Syntax → Except Fault α}

/-- A value that is nested too deep is too deep as an optional one as well, since it is not null. -/
theorem overflows_optional {j : Json} (h : Overflows read j) (hj : j ≠ .null) :
    Overflows (optional read) j := by
  intro s hs
  obtain ⟨mark, hmark⟩ := h s hs
  refine ⟨mark, ?_⟩
  unfold optional
  split
  · cases hs with
    | scalar hx => exact absurd hx.symm hj
  · rw [hmark]
    rfl

theorem overflows_listOf_zero (js : List Json) : Overflows (listOf 0 read) (.list js) := by
  intro s hs
  obtain ⟨start, stop, items, rfl, -⟩ := hs.of_list
  exact ⟨_, rfl⟩

/-- The first item without room ends the list.  All items before it are read, so the fault that
    is reported is the one of this item. -/
theorem readEach_overflows {xs : List α} {write : α → Json}
    (h : ∀ x ∈ xs, Reads read (write x) x ∨ Overflows read (write x))
    (hx : ∃ x ∈ xs, Overflows read (write x)) {items : List Syntax}
    (hitems : RepresentsAll items (xs.map write)) :
    ∃ mark, readEach read items = .error ⟨.tooDeep, mark⟩ := by
  induction xs generalizing items with
  | nil => simp at hx
  | cons x xs ih =>
    obtain ⟨hhead, hrest⟩ := List.forall_mem_cons.1 h
    cases hitems with
    | @cons s _ items _ hs hitems =>
    -- the first item that is too deep decides; those before it are read
    rcases hhead with hread | hover
    · have hx' : ∃ x ∈ xs, Overflows read (write x) := by
        obtain ⟨y, hy, hover⟩ := hx
        rcases List.mem_cons.1 hy with rfl | hy
        · obtain ⟨mark, hmark⟩ := hover s hs
          rw [hread s hs] at hmark
          cases hmark
        · exact ⟨y, hy, hover⟩
      obtain ⟨mark, hmark⟩ := ih hrest hx' hitems
      refine ⟨mark, ?_⟩
      rw [readEach, hread s hs]
      dsimp only
      rw [hmark]
      rfl
    · obtain ⟨mark, hmark⟩ := hover s hs
      exact ⟨mark, by rw [readEach, hmark]⟩

/-- A list with an item that is nested too deep is refused at the first such item: those before
    it are read or are too deep themselves. -/
theorem overflows_listOf (room : Nat) {xs : List α} {write : α → Json}
    (h : ∀ x ∈ xs, Reads read (write x) x ∨ Overflows read (write x))
    (hx : ∃ x ∈ xs, Overflows read (write x)) :
    Overflows (listOf room read) (.list (xs.map write)) := by
  intro s hs
  obtain ⟨start, stop, items, rfl, hitems⟩ := hs.of_list
  obtain ⟨mark, hmark⟩ := readEach_overflows h hx hitems
  unfold listOf
  dsimp only
  split
  · exact ⟨_, rfl⟩
  · exact ⟨mark, by rw [hmark]⟩

/-- A field whose value is nested too deep cannot be set. -/
theorem overflows_field {β : Type} {j : Json} (h : Overflows read j) (name : String)
    (required : Bool) (set : α → β → β) (r : β) :
    Overflows (fun s => (field name required read set).put s r) j := by
  intro s hs
  obtain ⟨mark, hmark⟩ := h s hs
  exact ⟨mark, by simp [field, hmark, Except.map]⟩

end Shapes

section Records

variable {α : Type} {fields : List (RecordField α)}

theorem overflows_record_zero (name : String) (blank : α) (ms : List (String × Json)) :
    Overflows (record 0 name blank fields) (.object ms) := by
  intro s hs
  obtain ⟨start, stop, members, rfl, -⟩ := hs.of_object
  exact ⟨_, rfl⟩

/-- Members that fill a record come before the one without room.  They are read first, and then
    its fault ends the reading; a repeated name cannot come before it. -/
theorem Fills.putMembers_overflows {seen : List String} {r r' : α} {ms rest : List (String × Json)}
    {name : String} {j : Json} {f : RecordField α} (h : Fills fields seen r ms r')
    (hfind : fields.find? (·.name == name) = some f) (hseen : name ∉ seen)
    (hnew : name ∉ ms.map Prod.fst) (hover : Overflows (fun s => f.put s r') j) :
    ∀ {members : List (Key × Syntax)}, RepresentsMembers members (ms ++ (name, j) :: rest) →
      ∃ mark, putMembers fields seen r members = .error ⟨.tooDeep, mark⟩ := by
  induction h with
  | nil =>
    intro members hmembers
    cases hmembers with
    | cons hs _ =>
      obtain ⟨mark, hmark⟩ := hover _ hs
      exact ⟨mark, by simp [putMembers, hfind, hseen, hmark]⟩
  | @cons seen r r' r'' n k ms g hfind' hseen' hput _ ih =>
    intro members hmembers
    rw [List.map_cons, List.mem_cons, not_or] at hnew
    cases hmembers with
    | cons hs hrest =>
      have hseen'' : name ∉ n :: seen := by
        rw [List.mem_cons, not_or]
        exact ⟨hnew.1, hseen⟩
      obtain ⟨mark, hmark⟩ := ih hseen'' hnew.2 hover hrest
      exact ⟨mark, by simp [putMembers, hfind', hseen', hput _ hs, hmark]⟩

/-- A record is refused at a member that is nested too deep, if all members before it could be
    read.  What follows is not looked at. -/
theorem Fills.overflows_record {blank r : α} {ms rest : List (String × Json)} {name : String}
    {j : Json} {f : RecordField α} (h : Fills fields [] blank ms r)
    (hfind : fields.find? (·.name == name) = some f) (hnew : name ∉ ms.map Prod.fst)
    (hover : Overflows (fun s => f.put s r) j) (room : Nat) (title : String) :
    Overflows (record room title blank fields) (.object (ms ++ (name, j) :: rest)) := by
  intro s hs
  obtain ⟨start, stop, members, rfl, hmembers⟩ := hs.of_object
  obtain ⟨mark, hmark⟩ := h.putMembers_overflows hfind List.not_mem_nil hnew hover hmembers
  unfold record
  dsimp only
  split
  · exact ⟨_, rfl⟩
  · exact ⟨mark, by rw [hmark]⟩

end Records

/-- A document that is nested too deep is refused, in every layout that writes blanks only. -/
theorem decode_write_overflows {α : Type} {read : (room : Nat) → Syntax → Except Fault α}
    {l : Layout} (hl : l.Blank) {j : Json} (hj : j.Everywhere Whole)
    (h : Overflows (read depthLimit) j) :
    ∃ mark, decode read (String.ofList (j.write l 0)) = .error ⟨.tooDeep, mark⟩ := by
  obtain ⟨s, hs, hscan⟩ := Syntax.scan_write hl hj
  obtain ⟨mark, hmark⟩ := h s hs
  exact ⟨mark, by simp [decode, hscan, hmark]⟩

end BranchProbe.Json
