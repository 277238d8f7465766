/-
  A store in memory after any number of writes.

  1. `LastWritten` and `FirstSpelled` read the list of the writes alone: what was written last to a
     path, and under which of its spellings a path was written first.
  2. `FileTask.writes` lists what a computation writes.  Whatever else it asks for leaves the store as
     it is (`run_eq_writeAll`), so a run of computations is a run of writes.
  3. The crux is that paths compare equal just if they have the same components
     (`compare_eq_iff`), and that parent and extension of a path are a matter of its components.  So
     the laws of sorted maps, which speak of keys that compare equal, become laws of files
     (`files_of_writes`), whatever spellings the writes and the questions use.
-/
import BranchProbe.Document.Files
import BranchProbe.Proofs.Files.Components
import BranchProbe.Proofs.Lookup

namespace BranchProbe

/-! ## Paths with the same components -/

instance : Std.LawfulEqOrd Component where
  eq_of_compare {a b} h := by
    have hlex : compareLex (compareOn Component.rank) (compareOn Component.text) a b = .eq := h
    rw [compareLex_eq_eq] at hlex
    obtain ⟨hrank, htext⟩ := hlex
    have hrank : a.rank = b.rank := Std.LawfulEqOrd.eq_of_compare hrank
    have htext : a.text = b.text := Std.LawfulEqOrd.eq_of_compare htext
    cases a <;> cases b <;> simp_all [Component.rank, Component.text]

namespace Path

/-- Paths are compared by their components alone, so spellings with the same components are one
    key of the store. -/
theorem compare_eq_iff {p q : Path} : compare p q = .eq ↔ q.components = p.components := by
  show compare p.components q.components = .eq ↔ _
  rw [Std.compare_eq_iff_eq, eq_comm]

/-- The parent of the path has the components of the directory. -/
def LiesIn (d p : Path) : Prop :=
  ∃ parent, p.parent? = some parent ∧ parent.components = d.components

/-- The store's test for a file below a directory, said of the components. -/
theorem inside_iff_liesIn {d p : Path} : MemoryStore.inside d p = true ↔ d.LiesIn p := by
  simp [MemoryStore.inside, LiesIn, same, Option.any_eq_true]

/-- Whether a path lies in a directory does not depend on its spelling. -/
theorem LiesIn.congr {d p q : Path} (h : p.components = q.components) : d.LiesIn p ↔ d.LiesIn q := by
  rw [← inside_iff_liesIn, ← inside_iff_liesIn, inside_iff, inside_iff, IsIn, IsIn, h]

/-- Neither does its extension, which is read off the last component. -/
theorem extension?_congr {p q : Path} (h : p.components = q.components) :
    p.extension? = q.extension? := by
  rw [extension?, extension?, fileName?, fileName?, h]

end Path

/-! ## Runs of writes -/

/-- The text of the last write to a path, of those under all its spellings. -/
def LastWritten (writes : List (Path × String)) (p : Path) (text : String) : Prop :=
  ∃ before spelled after, writes = before ++ (spelled, text) :: after
    ∧ spelled.components = p.components ∧ ∀ w ∈ after, w.1.components ≠ p.components

/-- The path is spelled as in the first write to a path with its components. -/
def FirstSpelled (writes : List (Path × String)) (p : Path) : Prop :=
  ∃ before text after, writes = before ++ (p, text) :: after
    ∧ ∀ w ∈ before, w.1.components ≠ p.components

namespace MemoryStore

/-- The store after some writes, from the first to the last. -/
def writeAll (m : MemoryStore) (writes : List (Path × String)) : MemoryStore :=
  writes.foldl (fun m w => m.write w.1 w.2) m

/-- Writing goes on from where it was, so a run of writes can be cut anywhere. -/
theorem writeAll_append (m : MemoryStore) (ws ws' : List (Path × String)) :
    m.writeAll (ws ++ ws') = (m.writeAll ws).writeAll ws' := List.foldl_append

/-- The files after a run of writes are those of the map after as many insertions.  With this the
    facts about insertions carry over to the store. -/
theorem files_writeAll (m : MemoryStore) (writes : List (Path × String)) :
    (m.writeAll writes).files = m.files.insertAll writes := by
  induction writes generalizing m with
  | nil => rfl
  | cons w rest ih => exact ih (m.write w.1 w.2)

end MemoryStore

/-- What a computation writes on a store in memory, from the first to the last. -/
def FileTask.writes {α : Type} (t : FileTask α) (m : MemoryStore) : List (Path × String) :=
  match t with
  | .done _ => []
  | .read p next => (next (FileStore.read m p)).writes m
  | .write p text next => (p, text) :: (next (.ok ())).writes (m.write p text)
  | .fileExists p next => (next (FileStore.fileExists m p)).writes m
  | .isDirectory p next => (next (FileStore.isDirectory m p)).writes m
  | .list dir extension next => (next (FileStore.list m dir extension)).writes m
  | .ensureParent _ next => (next (.ok ())).writes m

namespace MemoryStore

/-- A computation changes the store by its writes only, and in their order.  So a property of
    stores needs to be checked for single writes alone. -/
theorem run_eq_writeAll {α : Type} (t : FileTask α) (m : MemoryStore) :
    (t.run m).2 = m.writeAll (t.writes m) := by
  induction t generalizing m with
  | done x => rfl
  | read p next ih => exact ih _ m
  | write p text next ih => exact ih _ (m.write p text)
  | fileExists p next ih => exact ih _ m
  | isDirectory p next ih => exact ih _ m
  | list dir extension next ih => exact ih _ m
  | ensureParent p next ih => exact ih _ m

/-! ## The files of a store -/

section Files

variable {writes : List (Path × String)}

/-- What is read after all writes is what was written last to the same components. -/
theorem content?_writeAll {p : Path} {text : String} :
    (empty.writeAll writes).content? p = some text ↔ LastWritten writes p text := by
  rw [content?, files_writeAll]
  refine SortedMap.find?_insertAll_empty_iff.trans ?_
  simp only [Path.compare_eq_iff, LastWritten, ne_eq]

/-- Each file is listed in the spelling in which it was written first: writing it again replaces
    its text and not its key. -/
theorem mem_keys_writeAll {p : Path} :
    p ∈ (empty.writeAll writes).files.keys ↔ FirstSpelled writes p := by
  rw [files_writeAll]
  refine SortedMap.mem_keys_insertAll_empty_iff_first.trans ?_
  simp only [Path.compare_eq_iff, FirstSpelled, ne_eq]

/-- The store has a file just where something was written, however it is spelled. -/
theorem exists_key_writeAll {p : Path} :
    (∃ q ∈ (empty.writeAll writes).files.keys, q.components = p.components)
      ↔ ∃ w ∈ writes, w.1.components = p.components := by
  have hkeys := SortedMap.exists_key_insertAll_empty (l := writes) (k := p)
  simp only [Path.compare_eq_iff] at hkeys
  rw [files_writeAll]
  exact hkeys

/-- A file is there just if something was written to its components in some spelling. -/
theorem contains_writeAll {p : Path} : (empty.writeAll writes).files.contains p = true
    ↔ ∃ w ∈ writes, w.1.components = p.components := by
  rw [SortedMap.contains, SortedMap.isSome_find?_iff, ← exists_key_writeAll]
  simp only [Path.compare_eq_iff]

/-- The store has a file for what holds of a written path, if it is a matter of components. -/
theorem exists_key_iff {P : Path → Prop}
    (hP : ∀ {p q : Path}, p.components = q.components → (P p ↔ P q)) :
    (∃ q ∈ (empty.writeAll writes).files.keys, P q) ↔ ∃ w ∈ writes, P w.1 := by
  constructor
  · rintro ⟨q, hq, h⟩
    obtain ⟨before, text, after, rfl, -⟩ := mem_keys_writeAll.1 hq
    exact ⟨(q, text), List.mem_append_right _ List.mem_cons_self, h⟩
  · rintro ⟨w, hw, h⟩
    obtain ⟨q, hq, hsame⟩ := exists_key_writeAll.2 ⟨w, hw, rfl⟩
    exact ⟨q, hq, (hP hsame).2 h⟩

/-- A directory is there just if something was written below it.  No directory is there by
    itself. -/
theorem isDirectory_writeAll {d : Path} :
    (empty.writeAll writes).isDirectory d = true ↔ ∃ w ∈ writes, d.LiesIn w.1 := by
  rw [isDirectory, List.any_eq_true, ← exists_key_iff Path.LiesIn.congr]
  simp only [Path.inside_iff_liesIn]

/-- A file is listed for a directory just if it is there, lies below it, and has the extension. -/
theorem mem_list {m : MemoryStore} {d p : Path} {extension : String} :
    p ∈ m.list d extension ↔ p ∈ m.files.keys ∧ d.LiesIn p ∧ p.extension? = some extension := by
  rw [list, List.mem_filter, Bool.and_eq_true, Path.inside_iff_liesIn, beq_iff_eq]

theorem list_ascending (m : MemoryStore) (d : Path) (extension : String) :
    (m.list d extension).Pairwise fun p q => compare p.components q.components = .lt := by
  refine List.Pairwise.filter _ ?_
  rw [SortedMap.keys, List.pairwise_map]
  exact m.files.ascending

/-- Reading succeeds with what the store has at a path. -/
theorem read_ok_iff {m : MemoryStore} {p : Path} {text : String} :
    FileStore.read m p = .ok text ↔ m.content? p = some text := by
  cases hcontent : m.content? p <;> simp [FileStore.read, hcontent]

/-- Reading fails in one way only: there is nothing at the path. -/
theorem read_error_iff {m : MemoryStore} {p : Path} {f : FileFault} :
    FileStore.read m p = .error f ↔ f = .notFound ∧ m.files.contains p = false := by
  have hcontains : m.files.contains p = (m.content? p).isSome := rfl
  rw [hcontains]
  cases hcontent : m.content? p <;> simp [FileStore.read, hcontent, eq_comm]

end Files

/-- A store in memory after any writes, those of computations such as exports included.  A path reads
    as the text written last to a path with its components, and is not found if there is none, so a
    write does not change what a path with other components reads as.  The files listed for a
    directory and an extension stand in strictly ascending order of their components; they are the
    written paths whose parent has the components of the directory and which have the extension,
    each once and as it was spelled first.  A directory is there just if it is the parent of a written
    path, and a path is there just if it was written or is a directory.  In a spelling a slash after
    a slash, a part `.` after a slash and a slash at the end do not count, but a part `.` at the start
    does. -/
theorem files_of_writes (writes : List (Path × String)) :
    let m := empty.writeAll writes
    (∀ p text, FileStore.read m p = .ok text ↔ LastWritten writes p text)
    ∧ (∀ p f, FileStore.read m p = .error f
      ↔ f = .notFound ∧ ∀ w ∈ writes, w.1.components ≠ p.components)
    ∧ (∀ q text p, q.components ≠ p.components →
      FileStore.read (m.write q text) p = FileStore.read m p)
    ∧ (∀ d extension, ∃ files, FileStore.list m d extension = .ok files
      ∧ (files.Pairwise fun p q => compare p.components q.components = .lt)
      ∧ (files.Pairwise fun p q => p.components ≠ q.components)
      ∧ (∀ p, p ∈ files
        ↔ FirstSpelled writes p ∧ d.LiesIn p ∧ p.extension? = some extension)
      ∧ (∀ w ∈ writes, d.LiesIn w.1 → w.1.extension? = some extension →
        ∃ p ∈ files, p.components = w.1.components))
    ∧ (∀ d, FileStore.isDirectory m d = true ↔ ∃ w ∈ writes, d.LiesIn w.1)
    ∧ (∀ p, FileStore.fileExists m p = true
      ↔ (∃ w ∈ writes, w.1.components = p.components) ∨ FileStore.isDirectory m p = true)
    ∧ (∀ (α : Type) (t : FileTask α), (t.run m).2 = empty.writeAll (writes ++ t.writes m))
    ∧ (∀ (x : Simulation) (target : Path), (x.exportTo target).run m
      = (.ok (), empty.writeAll (writes ++ [(target, x.toJson.pretty)])))
    ∧ (∀ a b : String,
      Path.components ⟨a ++ "//" ++ b⟩ = Path.components ⟨a ++ "/" ++ b⟩
      ∧ Path.components ⟨a ++ "/./" ++ b⟩ = Path.components ⟨a ++ "/" ++ b⟩
      ∧ (a ≠ "" → Path.components ⟨a ++ "/"⟩ = Path.components ⟨a⟩)
      ∧ ((Path.components ⟨a⟩).head? ≠ some .here →
        Path.components ⟨"./" ++ a⟩ ≠ Path.components ⟨a⟩)) := by
  intro m
  have hlist : ∀ {d : Path} {extension : String} {p : Path}, p ∈ m.list d extension
      ↔ FirstSpelled writes p ∧ d.LiesIn p ∧ p.extension? = some extension :=
    mem_list.trans (and_congr_left fun _ => mem_keys_writeAll)
  refine ⟨fun p text => read_ok_iff.trans content?_writeAll, fun p f => ?_, fun q text p hne => ?_,
    fun d extension => ⟨m.list d extension, rfl, m.list_ascending d extension, ?_,
      fun p => hlist, fun w hw hdir hext => ?_⟩,
    fun d => isDirectory_writeAll, fun p => ?_, fun α t => ?_, fun x target => ?_, fun a b => ?_⟩
  · rw [read_error_iff, ← Bool.not_eq_true, contains_writeAll]
    simp
  · have hfind : (m.write q text).content? p = m.content? p := by
      rw [content?, write, SortedMap.find?_insert, if_neg, content?]
      rwa [Path.compare_eq_iff]
    simp only [FileStore.read, hfind]
  -- a file is listed once, for equal components do not ascend
  · refine (m.list_ascending d extension).imp fun {p q} hlt heq => ?_
    have hself : compare q.components q.components = .eq := Std.ReflCmp.compare_self
    rw [heq, hself] at hlt
    cases hlt
  -- it may be listed under another spelling, the first one that was written
  · obtain ⟨q, hq, hsame⟩ := exists_key_writeAll.2 ⟨w, hw, rfl⟩
    refine ⟨q, mem_list.2 ⟨hq, (Path.LiesIn.congr hsame).2 hdir, ?_⟩, hsame⟩
    rw [Path.extension?_congr hsame, hext]
  · show (m.files.contains p || m.isDirectory p) = true ↔ _
    rw [Bool.or_eq_true, contains_writeAll]
    exact Iff.rfl
  · rw [run_eq_writeAll, writeAll_append]
  · rw [writeAll_append]
    rfl
  · obtain ⟨hslash, hdot, hend⟩ := Path.components_spelling a b
    refine ⟨hslash, hdot, hend, fun hhere heq => hhere ?_⟩
    rw [← heq, Path.components_dot_slash]

/-- Three writes to two files of one directory, one of them under two spellings. -/
def seededWrites : List (Path × String) :=
  [(⟨"/trees/./a.json"⟩, "1"), (⟨"/trees//b.txt"⟩, ""), (⟨"/trees/a.json"⟩, "2")]

/-- The file is read as written last, and listed as spelled first.  A write to `a.json` without the
    directory leaves it alone. -/
theorem seeded_files :
    FileStore.read (empty.writeAll seededWrites) (⟨"//trees/a.json/"⟩ : Path) = .ok "2"
    ∧ (⟨"a.json"⟩ : Path).components ≠ (⟨"/trees/a.json"⟩ : Path).components
    ∧ FileStore.read ((empty.writeAll seededWrites).write ⟨"a.json"⟩ "3") (⟨"/trees/a.json"⟩ : Path)
      = .ok "2"
    ∧ ∃ files, FileStore.list (empty.writeAll seededWrites) (⟨"/trees/"⟩ : Path) "json" = .ok files
      ∧ ⟨"/trees/./a.json"⟩ ∈ files := by
  obtain ⟨hread, -, hframe, hlist, -⟩ := files_of_writes seededWrites
  have hne : (⟨"a.json"⟩ : Path).components ≠ (⟨"/trees/a.json"⟩ : Path).components := by decide
  have hlast : ∀ p : Path, (⟨"/trees/a.json"⟩ : Path).components = p.components →
      LastWritten seededWrites p "2" :=
    fun p hp => ⟨[(⟨"/trees/./a.json"⟩, "1"), (⟨"/trees//b.txt"⟩, "")], ⟨"/trees/a.json"⟩, [], rfl,
      hp, by simp⟩
  refine ⟨(hread _ _).2 (hlast _ (by decide)), hne, ?_, ?_⟩
  · rw [hframe _ _ _ hne]
    exact (hread _ _).2 (hlast _ rfl)
  · obtain ⟨files, hfiles, -, -, hmem, -⟩ := hlist ⟨"/trees/"⟩ "json"
    have hfirst : FirstSpelled seededWrites ⟨"/trees/./a.json"⟩ :=
      ⟨[], "1", [(⟨"/trees//b.txt"⟩, ""), (⟨"/trees/a.json"⟩, "2")], rfl, by simp⟩
    exact ⟨files, hfiles, (hmem _).2 ⟨hfirst, ⟨⟨"/trees"⟩, by decide, by decide⟩, by decide⟩⟩

end MemoryStore

end BranchProbe
