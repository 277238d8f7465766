/-
  Finite maps as lists of entries in ascending order of their keys.

  1. The order is part of the type: `ascending` says that each key stands strictly before the
     next, so a map has one list of entries and a key has one entry.
  2. `insert` puts a value at a key.  A key that compares equal to one of the map keeps the
     spelling that is already there and takes the new value.
  3. `find?` looks a key up; `ofList` inserts entries one after the other, so the last value given
     for a key counts.
-/

namespace BranchProbe

/-- Entries in strictly ascending order of their keys. -/
def Ascends {κ α : Type} [Ord κ] (entries : List (κ × α)) : Prop :=
  entries.Pairwise fun a b => compare a.1 b.1 = .lt

/-- A finite map from `κ` to `α`. -/
structure SortedMap (κ α : Type) [Ord κ] where
  entries : List (κ × α)
  ascending : Ascends entries

namespace SortedMap

variable {κ α : Type} [Ord κ]

/-- Put a value at a key of an ascending list of entries. -/
def insertEntry (key : κ) (value : α) : List (κ × α) → List (κ × α)
  | [] => [(key, value)]
  | (k, v) :: rest =>
    match compare key k with
    | .lt => (key, value) :: (k, v) :: rest
    | .eq => (k, value) :: rest
    | .gt => (k, v) :: insertEntry key value rest

/-- An entry after an insertion is an old one, the new one, or the new value at an equal key. -/
theorem mem_insertEntry {key : κ} {value : α} {e : κ × α} :
    ∀ {l : List (κ × α)}, e ∈ insertEntry key value l →
      e ∈ l ∨ e = (key, value) ∨ (∃ v, (e.1, v) ∈ l ∧ e.2 = value ∧ compare key e.1 = .eq)
  | [], h => by simp [insertEntry] at h; exact .inr (.inl h)
  | (k, v) :: rest, h => by
    unfold insertEntry at h
    split at h
    · rcases List.mem_cons.1 h with rfl | h
      · exact .inr (.inl rfl)
      · exact .inl h
    · next heq =>
      rcases List.mem_cons.1 h with rfl | h
      · exact .inr (.inr ⟨v, List.mem_cons_self, rfl, heq⟩)
      · exact .inl (List.mem_cons_of_mem _ h)
    · rcases List.mem_cons.1 h with rfl | h
      · exact .inl List.mem_cons_self
      · rcases mem_insertEntry h with h | h | ⟨w, hw, h⟩
        · exact .inl (List.mem_cons_of_mem _ h)
        · exact .inr (.inl h)
        · exact .inr (.inr ⟨w, List.mem_cons_of_mem _ hw, h⟩)

/-- Insertion keeps the order, so the maps that the program builds carry their own proof of it.
    The induction follows the insertion down the list, and the new key is compared once with each
    entry that stays before it. -/
theorem ascends_insertEntry [Std.TransOrd κ] {key : κ} {value : α} :
    ∀ {l : List (κ × α)}, Ascends l → Ascends (insertEntry key value l)
  | [], _ => by simp [insertEntry, Ascends]
  | (k, v) :: rest, h => by
    have hk := (List.pairwise_cons.1 h).1
    have hrest := (List.pairwise_cons.1 h).2
    unfold insertEntry
    split
    · next hlt =>
      refine List.pairwise_cons.2 ⟨fun e he => ?_, h⟩
      rcases List.mem_cons.1 he with rfl | he
      · exact hlt
      · exact Std.TransCmp.lt_trans hlt (hk e he)
    · exact List.pairwise_cons.2 ⟨hk, hrest⟩
    · next hgt =>
      refine List.pairwise_cons.2 ⟨fun e he => ?_, ascends_insertEntry hrest⟩
      rcases mem_insertEntry he with he | rfl | ⟨w, hw, _⟩
      · exact hk e he
      · exact Std.OrientedCmp.lt_of_gt hgt
      · exact hk (e.1, w) hw

/-- The map without entries. -/
def empty : SortedMap κ α := ⟨[], List.Pairwise.nil⟩

instance : EmptyCollection (SortedMap κ α) := ⟨empty⟩

instance : Inhabited (SortedMap κ α) := ⟨empty⟩

/-- The map with `value` at `key`. -/
def insert [Std.TransOrd κ] (m : SortedMap κ α) (key : κ) (value : α) : SortedMap κ α :=
  ⟨insertEntry key value m.entries, ascends_insertEntry m.ascending⟩

/-- The value at a key. -/
def find? (m : SortedMap κ α) (key : κ) : Option α :=
  (m.entries.find? fun e => compare key e.1 == .eq).map (·.2)

/-- Has the map a value at this key? -/
def contains (m : SortedMap κ α) (key : κ) : Bool := (m.find? key).isSome

/-- The keys, ascending. -/
def keys (m : SortedMap κ α) : List κ := m.entries.map (·.1)

/-- The map of a list of entries; the last one given for a key counts. -/
def ofList [Std.TransOrd κ] (entries : List (κ × α)) : SortedMap κ α :=
  entries.foldl (fun m e => m.insert e.1 e.2) empty

end SortedMap

end BranchProbe
