/-
  Looking up a key after insertions.

  1. `find?_insert`: an insertion changes what is found at its own key only.
  2. `insertAll` is a run of insertions; the last entry given for a key is the one that is found
     (`find?_insertAll_empty_iff_last`), and with distinct keys each of them.
  3. Of keys that compare equal a map has the one given first
     (`mem_keys_insertAll_empty_iff_first`).
  4. A map is rebuilt by inserting its own entries (`ofList_entries`).
  5. The keys of a map are distinct and ascending; an entry is found at its key, and no other entry
     has an equal one.
  6. `mapValues` changes the values of a map and leaves its keys.
-/
import BranchProbe.SortedMap
import Mathlib.Data.List.Induction
import Mathlib.Data.List.Nodup
import Mathlib.Data.List.Pairwise

namespace BranchProbe.SortedMap

variable {κ α : Type} [Ord κ] [Std.TransOrd κ]

/-- What is found in a list of entries after an insertion, in one equation for all keys.
    Insertion stops at the first key that is not less, so the induction has the three cases of a
    comparison. -/
theorem find?_insertEntry (key k : κ) (value : α) (l : List (κ × α)) :
    ((insertEntry key value l).find? fun e => compare k e.1 == .eq).map (·.2)
      = if compare k key = .eq then some value
        else (l.find? fun e => compare k e.1 == .eq).map (·.2) := by
  induction l with
  | nil => by_cases h : compare k key = .eq <;> simp [insertEntry, h]
  | cons e rest ih =>
    cases hcmp : compare key e.1 with
    | lt =>
      by_cases h : compare k key = .eq <;> simp [insertEntry, hcmp, List.find?_cons, h]
    | eq =>
      have hk : compare k e.1 = compare k key := (Std.TransCmp.congr_right hcmp).symm
      by_cases h : compare k key = .eq <;> simp [insertEntry, hcmp, hk, h]
    | gt =>
      by_cases h : compare k e.1 = .eq
      · -- found at the entry in front, so it is not the key of the insertion
        have hne : compare k key ≠ .eq := by
          intro hk
          rw [Std.TransCmp.congr_left (Std.OrientedCmp.eq_symm hk), h] at hcmp
          cases hcmp
        simp [insertEntry, hcmp, h, hne]
      · simp [insertEntry, hcmp, h, ih]

/-- An insertion changes what is found at its own key only. -/
theorem find?_insert (m : SortedMap κ α) (key k : κ) (value : α) :
    (m.insert key value).find? k = if compare k key = .eq then some value else m.find? k :=
  find?_insertEntry key k value m.entries

/-! ## Runs of insertions -/

/-- A map after some insertions, from left to right. -/
def insertAll (m : SortedMap κ α) (entries : List (κ × α)) : SortedMap κ α :=
  entries.foldl (fun m e => m.insert e.1 e.2) m

@[simp] theorem insertAll_nil (m : SortedMap κ α) : m.insertAll [] = m := rfl

@[simp] theorem insertAll_cons (m : SortedMap κ α) (e : κ × α) (rest : List (κ × α)) :
    m.insertAll (e :: rest) = (m.insert e.1 e.2).insertAll rest := rfl

/-- Insertions can be cut anywhere into earlier and later ones. -/
theorem insertAll_append (m : SortedMap κ α) (l l' : List (κ × α)) :
    m.insertAll (l ++ l') = (m.insertAll l).insertAll l' := List.foldl_append

/-- The last entry given for a key is found; without one, what was there before. -/
theorem find?_insertAll (m : SortedMap κ α) (l : List (κ × α)) (k : κ) :
    (m.insertAll l).find? k
      = ((l.reverse.find? fun e => compare k e.1 == .eq).map (·.2)).or (m.find? k) := by
  induction l generalizing m with
  | nil => simp
  | cons e rest ih =>
    rw [insertAll_cons, ih, find?_insert, List.reverse_cons, List.find?_append]
    cases rest.reverse.find? fun e => compare k e.1 == .eq with
    | some found => simp
    | none => by_cases h : compare k e.1 = .eq <;> simp [h]

omit [Std.TransOrd κ] in
@[simp] theorem find?_empty (k : κ) : (empty : SortedMap κ α).find? k = none := rfl

/-- The last entry given for an equal key is found, and nothing else.  The list is cut at that
    entry, so it is also said that no later one has an equal key. -/
theorem find?_insertAll_empty_iff {l : List (κ × α)} {k : κ} {v : α} :
    ((empty : SortedMap κ α).insertAll l).find? k = some v
      ↔ ∃ before key after, l = before ++ (key, v) :: after ∧ compare k key = .eq
        ∧ ∀ e ∈ after, compare k e.1 ≠ .eq := by
  rw [find?_insertAll, find?_empty, Option.or_none, Option.map_eq_some_iff]
  simp only [List.find?_eq_some_iff_append, List.reverse_eq_append_iff, List.reverse_cons,
    List.append_assoc, List.singleton_append, beq_iff_eq, Bool.not_eq_true', beq_eq_false_iff_ne,
    ne_eq]
  constructor
  · rintro ⟨e, ⟨heq, after, before, rfl, hafter⟩, rfl⟩
    exact ⟨before.reverse, e.1, after.reverse, rfl, heq,
      fun e' he' => hafter e' (List.mem_reverse.1 he')⟩
  · rintro ⟨before, key, after, rfl, heq, hafter⟩
    exact ⟨(key, v), ⟨heq, after.reverse, before.reverse, by simp,
      fun e he => hafter e (List.mem_reverse.1 he)⟩, rfl⟩

/-- The last entry given for a key is found, and nothing else, where keys that compare equal are
    equal.  So the order matters only between entries of one key. -/
theorem find?_insertAll_empty_iff_last [Std.LawfulEqOrd κ] {l : List (κ × α)} {k : κ} {v : α} :
    ((empty : SortedMap κ α).insertAll l).find? k = some v
      ↔ ∃ before after, l = before ++ (k, v) :: after ∧ ∀ e ∈ after, e.1 ≠ k := by
  rw [find?_insertAll_empty_iff]
  simp only [Std.compare_eq_iff_eq, ne_eq]
  constructor
  · rintro ⟨before, key, after, rfl, rfl, hafter⟩
    exact ⟨before, after, rfl, fun e he heq => hafter e he heq.symm⟩
  · rintro ⟨before, after, rfl, hafter⟩
    exact ⟨before, k, after, rfl, rfl, fun e he heq => hafter e he heq.symm⟩

/-- With distinct keys, just the given entries are found: none is after another of the same key,
    so each is the last one for its key. -/
theorem find?_insertAll_empty [Std.LawfulEqOrd κ] {l : List (κ × α)} (h : (l.map (·.1)).Nodup)
    (k : κ) (v : α) : ((empty : SortedMap κ α).insertAll l).find? k = some v ↔ (k, v) ∈ l := by
  rw [find?_insertAll_empty_iff_last]
  constructor
  · rintro ⟨before, after, rfl, -⟩
    exact List.mem_append_right before List.mem_cons_self
  · intro hmem
    obtain ⟨before, after, rfl⟩ := List.append_of_mem hmem
    rw [List.map_append, List.map_cons] at h
    have hafter := (List.nodup_cons.1 h.of_append_right).1
    exact ⟨before, after, rfl, fun e he heq => hafter (List.mem_map.2 ⟨e, he, heq⟩)⟩

omit [Std.TransOrd κ] in
/-- A key of the map is one at which something is found. -/
theorem mem_keys_iff [Std.LawfulEqOrd κ] {m : SortedMap κ α} {k : κ} :
    k ∈ m.keys ↔ (m.find? k).isSome = true := by
  simp only [keys, find?, List.mem_map, Option.isSome_map, List.find?_isSome,
    Std.LawfulEqOrd.compare_beq_iff_eq]
  exact exists_congr fun e => and_congr_right fun _ => eq_comm

theorem mem_keys_insertAll_empty [Std.LawfulEqOrd κ] {l : List (κ × α)} {k : κ} :
    k ∈ ((empty : SortedMap κ α).insertAll l).keys ↔ ∃ e ∈ l, e.1 = k := by
  rw [mem_keys_iff, find?_insertAll, find?_empty, Option.or_none, Option.isSome_map,
    List.find?_isSome]
  simp only [List.mem_reverse, Std.LawfulEqOrd.compare_beq_iff_eq]
  exact exists_congr fun e => and_congr_right fun _ => eq_comm

/-- The entries given last are looked at first, and then what was there before. -/
theorem find?_insertAll_or (m : SortedMap κ α) (l : List (κ × α)) (k : κ) :
    (m.insertAll l).find? k = (((empty : SortedMap κ α).insertAll l).find? k).or (m.find? k) := by
  rw [find?_insertAll, find?_insertAll, find?_empty, Option.or_none]

/-! ## Keys that compare equal -/

omit [Std.TransOrd κ] in
/-- Something is found just at keys that compare equal to one of the map. -/
theorem isSome_find?_iff {m : SortedMap κ α} {k : κ} :
    (m.find? k).isSome = true ↔ ∃ key ∈ m.keys, compare k key = .eq := by
  simp [find?, keys]

/-- The keys of a map after insertions are, up to spelling, those given. -/
theorem exists_key_insertAll_empty {l : List (κ × α)} {k : κ} :
    (∃ key ∈ ((empty : SortedMap κ α).insertAll l).keys, compare k key = .eq)
      ↔ ∃ e ∈ l, compare k e.1 = .eq := by
  rw [← isSome_find?_iff, find?_insertAll, find?_empty, Option.or_none, Option.isSome_map,
    List.find?_isSome]
  simp

/-- An insertion adds its key unless one that compares equal is there.  Then the old spelling of
    the key stays and only the value is replaced. -/
theorem mem_keys_insertEntry {key k : κ} {value : α} :
    ∀ {l : List (κ × α)}, Ascends l → (k ∈ (insertEntry key value l).map (·.1)
      ↔ k ∈ l.map (·.1) ∨ k = key ∧ ∀ e ∈ l, compare key e.1 ≠ .eq)
  | [], _ => by simp [insertEntry]
  | (k', v) :: rest, h => by
    obtain ⟨hfirst, hrest⟩ := List.pairwise_cons.1 h
    cases hcmp : compare key k' with
    | lt =>
      -- the entries behind the first one are greater still
      have hapart : ∀ e ∈ (k', v) :: rest, compare key e.1 ≠ .eq := by
        intro e he
        rcases List.mem_cons.1 he with rfl | he
        · rw [hcmp]
          decide
        · rw [Std.TransCmp.lt_trans hcmp (hfirst e he)]
          decide
      rw [insertEntry, hcmp, List.map_cons, List.mem_cons, or_comm, and_iff_left hapart]
    | eq => simp [insertEntry, hcmp]
    | gt =>
      have hne : compare key k' ≠ .eq := by
        rw [hcmp]
        decide
      rw [insertEntry, hcmp, List.map_cons, List.mem_cons, mem_keys_insertEntry hrest, List.map_cons,
        List.mem_cons, List.forall_mem_cons, and_iff_right hne, or_assoc]

/-- The keys after insertions are the first spellings of the keys given.  The induction takes the
    entries from the end, since whether a spelling is the first depends on those before it. -/
theorem mem_keys_insertAll_empty_iff_first {l : List (κ × α)} {k : κ} :
    k ∈ ((empty : SortedMap κ α).insertAll l).keys
      ↔ ∃ before v after, l = before ++ (k, v) :: after
        ∧ ∀ e ∈ before, compare k e.1 ≠ .eq := by
  induction l using List.reverseRecOn with
  | nil => simp [keys, empty]
  | append_singleton l e ih =>
    have hstep : k ∈ ((empty : SortedMap κ α).insertAll (l ++ [e])).keys
        ↔ k ∈ ((empty : SortedMap κ α).insertAll l).keys
          ∨ k = e.1 ∧ ∀ e' ∈ l, compare k e'.1 ≠ .eq := by
      have hapart := not_congr (exists_key_insertAll_empty (l := l) (k := e.1))
      simp only [not_exists, not_and] at hapart
      rw [insertAll_append, insertAll_cons, insertAll_nil]
      refine (mem_keys_insertEntry (SortedMap.ascending _)).trans (or_congr Iff.rfl ?_)
      refine and_congr_right fun hk => ?_
      rw [hk, ← hapart]
      simp [keys]
    rw [hstep, ih]
    constructor
    · rintro (⟨before, v, after, rfl, hbefore⟩ | ⟨rfl, hbefore⟩)
      · exact ⟨before, v, after ++ [e], by simp, hbefore⟩
      · exact ⟨l, e.2, [], rfl, hbefore⟩
    · rintro ⟨before, v, after, hl, hbefore⟩
      rcases List.eq_nil_or_concat' after with rfl | ⟨after, last, rfl⟩
      · obtain ⟨rfl, he⟩ := List.append_inj' hl rfl
        obtain rfl := List.singleton_inj.1 he
        exact .inr ⟨rfl, hbefore⟩
      · rw [← List.cons_append, ← List.append_assoc] at hl
        exact .inl ⟨before, v, after, (List.append_inj' hl rfl).1, hbefore⟩

/-! ## Rebuilding a map -/

omit [Std.TransOrd κ] in
theorem ext_entries {m m' : SortedMap κ α} (h : m.entries = m'.entries) : m = m' := by
  cases m
  cases m'
  cases h
  rfl

/-- A key after all others goes to the end.  What is written in order is therefore read back
    without any reordering. -/
theorem insertEntry_last {key : κ} {value : α} :
    ∀ {l : List (κ × α)}, (∀ e ∈ l, compare e.1 key = .lt) →
      insertEntry key value l = l ++ [(key, value)]
  | [], _ => rfl
  | (k, v) :: rest, h => by
    have hk : compare key k = .gt := Std.OrientedCmp.gt_of_lt (h (k, v) List.mem_cons_self)
    have ih : insertEntry key value rest = rest ++ [(key, value)] :=
      insertEntry_last fun e he => h e (List.mem_cons_of_mem _ he)
    simp [insertEntry, hk, ih]

/-- Entries after all those of a map are added at its end, if they ascend themselves.  Each is
    inserted last, and the rest ascend after it. -/
theorem entries_insertAll {m : SortedMap κ α} {l : List (κ × α)} (h : Ascends (m.entries ++ l)) :
    (m.insertAll l).entries = m.entries ++ l := by
  induction l generalizing m with
  | nil => simp
  | cons e rest ih =>
    have hlast : (m.insert e.1 e.2).entries = m.entries ++ [e] :=
      insertEntry_last fun e' he' => (List.pairwise_append.1 h).2.2 e' he' e List.mem_cons_self
    rw [insertAll_cons, ih (by rwa [hlast, List.append_assoc]), hlast, List.append_assoc]
    rfl

/-- Inserting the entries of a map one after the other gives the map. -/
theorem ofList_entries (m : SortedMap κ α) : ofList m.entries = m :=
  ext_entries (entries_insertAll (m := (empty : SortedMap κ α)) m.ascending)

/-! ## Entries -/

theorem nodup_keys (m : SortedMap κ α) : m.keys.Nodup := by
  rw [keys, List.nodup_iff_pairwise_ne, List.pairwise_map]
  refine m.ascending.imp fun {a b} hlt heq => ?_
  have hself : compare b.1 b.1 = .eq := Std.ReflCmp.compare_self
  rw [heq, hself] at hlt
  cases hlt

theorem keys_ascending (m : SortedMap String α) : m.keys.Pairwise (· < ·) := by
  rw [keys, List.pairwise_map]
  exact m.ascending.imp compareOfLessAndEq_eq_lt.1

/-- Each entry is found at its key, even if other keys compare equal to it. -/
theorem find?_of_mem {m : SortedMap κ α} {e : κ × α} (h : e ∈ m.entries) :
    m.find? e.1 = some e.2 := by
  obtain ⟨l, hl⟩ := m
  rw [find?]
  induction l with
  | nil => cases h
  | cons e' rest ih =>
    obtain ⟨hfirst, hrest⟩ := List.pairwise_cons.1 hl
    rcases List.mem_cons.1 h with rfl | h
    · simp [Std.ReflCmp.compare_self]
    · -- the entry in front has a smaller key
      have hne : compare e.1 e'.1 ≠ .eq := by
        rw [Std.OrientedCmp.gt_of_lt (hfirst e h)]
        decide
      simpa [List.find?_cons, hne] using ih hrest h

/-- Another value at a key of the map leaves the keys as they are. -/
theorem keys_insert_of_mem {m : SortedMap κ α} {e : κ × α} (h : e ∈ m.entries) (value : α) :
    (m.insert e.1 value).keys = m.keys := by
  obtain ⟨l, hl⟩ := m
  show (insertEntry e.1 value l).map (·.1) = l.map (·.1)
  induction l with
  | nil => cases h
  | cons e' rest ih =>
    obtain ⟨hfirst, hrest⟩ := List.pairwise_cons.1 hl
    rcases List.mem_cons.1 h with rfl | h
    · simp [insertEntry, Std.ReflCmp.compare_self]
    · have hgt : compare e.1 e'.1 = .gt := Std.OrientedCmp.gt_of_lt (hfirst e h)
      simp [insertEntry, hgt, ih hrest h]

/-- Entries whose keys compare equal are one entry, for the keys of two different ones ascend
    strictly, in one order or the other. -/
theorem entry_unique {m : SortedMap κ α} {e e' : κ × α} (h : e ∈ m.entries) (h' : e' ∈ m.entries)
    (heq : compare e.1 e'.1 = .eq) : e = e' := by
  have hsymm : Std.Symm fun e e' : κ × α => compare e.1 e'.1 ≠ .eq :=
    ⟨fun _ _ hne heq => hne (Std.OrientedCmp.eq_symm heq)⟩
  have hapart : m.entries.Pairwise fun e e' => compare e.1 e'.1 ≠ .eq := by
    refine m.ascending.imp ?_
    intro a b hlt
    rw [hlt]
    decide
  by_contra hne
  exact hapart.forall h h' hne heq

/-- What is found at a key is its entry.  Keys that compare equal count as one, so the entry may
    have another spelling of the key. -/
theorem find?_eq_some_iff [Std.LawfulEqOrd κ] {m : SortedMap κ α} {k : κ} {v : α} :
    m.find? k = some v ↔ (k, v) ∈ m.entries := by
  refine ⟨fun h => ?_, find?_of_mem⟩
  obtain ⟨e, he, rfl⟩ := Option.map_eq_some_iff.1 h
  have hkey := List.find?_some he
  obtain rfl : k = e.1 := Std.LawfulEqOrd.compare_beq_iff_eq.1 hkey
  exact List.mem_of_find?_eq_some he

/-! ## Changing the values of a map -/

section MapValues

variable {β : Type}

omit [Std.TransOrd κ]

/-- The map with `f` applied to each of its values. -/
def mapValues (f : α → β) (m : SortedMap κ α) : SortedMap κ β :=
  ⟨m.entries.map fun e => (e.1, f e.2), by
    rw [Ascends, List.pairwise_map]
    exact m.ascending⟩

/-- Changing the values of a map leaves its keys as they are. -/
@[simp] theorem keys_mapValues (f : α → β) (m : SortedMap κ α) : (m.mapValues f).keys = m.keys := by
  simp [mapValues, keys]

/-- What is found after changing the values is the changed value. -/
theorem find?_mapValues (f : α → β) (m : SortedMap κ α) (k : κ) :
    (m.mapValues f).find? k = (m.find? k).map f := by
  simp [mapValues, find?, List.find?_map, Function.comp_def]

theorem mapValues_eq_self {f : α → α} {m : SortedMap κ α} (h : ∀ e ∈ m.entries, f e.2 = e.2) :
    m.mapValues f = m := by
  refine ext_entries ?_
  calc m.entries.map (fun e => (e.1, f e.2))
      = m.entries.map id := List.map_congr_left fun e he => Prod.ext rfl (h e he)
    _ = m.entries := List.map_id _

end MapValues

end BranchProbe.SortedMap
