/-
  The catalog of a directory in memory overlays the bundled examples.

  1. `IsExample d name p`: the path `p` is the file of an example in `d`.  It is stated on
     components, so it does not depend on the spelling of either path.
  2. `withFile_eq` is the step: a file that holds a tree adds it and one that does not adds a
     warning.  `foldl_withFile` is the run: trees and warnings are gathered apart, in the order of
     the paths.
  3. Two files of one example would have the same components, and so be one file of the store.  So
     the trees that are added have distinct names, and `load_overlay` can say where each one is
     found.
-/
import BranchProbe.Catalog.Basic
import BranchProbe.Proofs.Files.Components
import BranchProbe.Proofs.Lookup

namespace BranchProbe

open BranchProbe.Path (IsIn inside_iff stem_extension_iff)

/-! ## Files of examples -/

namespace Catalog

/-- The path is the file of an example, directly in the directory. -/
def IsExample (d : Path) (name : String) (p : Path) : Prop :=
  name ≠ "" ∧ p.components = d.components ++ [.name (name ++ ".json")]

/-- What makes a file an example, as the listing of the store tests it. -/
theorem isExample_iff {d p : Path} {name : String} :
    IsExample d name p ↔
      MemoryStore.inside d p = true ∧ p.extension? = some "json" ∧ p.stem? = some name := by
  have hpoint : '.' ∉ "json".toList := by decide
  have hfile : name ++ ".json" = name ++ "." ++ "json" := by
    rw [String.append_assoc]
    rfl
  rw [inside_iff, and_comm (a := p.extension? = _), stem_extension_iff]
  constructor
  · rintro ⟨hne, hp⟩
    refine ⟨⟨_, by simp, hp⟩, hne, hpoint, ?_⟩
    rw [Path.fileName?, hp, List.getLast?_concat, hfile]
  · rintro ⟨⟨c, -, hp⟩, hne, -, hname⟩
    rw [Path.fileName?, hp, List.getLast?_concat] at hname
    cases c with
    | name s =>
      obtain rfl := Option.some.inj hname
      exact ⟨hne, by rw [hp, hfile]⟩
    | _ => cases hname

/-- The files of examples are those directly in the directory with the extension `json`. -/
theorem exists_isExample_iff {d p : Path} :
    (∃ name, IsExample d name p) ↔
      MemoryStore.inside d p = true ∧ p.extension? = some "json" := by
  simp only [isExample_iff]
  constructor
  · rintro ⟨name, hinside, hext, -⟩
    exact ⟨hinside, hext⟩
  · rintro ⟨hinside, hext⟩
    obtain ⟨file, hfile, -⟩ := Option.bind_eq_some_iff.1 hext
    exact ⟨_, hinside, hext, by rw [Path.stem?, hfile]; rfl⟩

instance (d p : Path) : Decidable (∃ name, IsExample d name p) :=
  decidable_of_iff _ exists_isExample_iff.symm

/-- The file of an example is one, however it is spelled. -/
theorem IsExample.compare_eq {d p q : Path} {name : String} (hp : IsExample d name p)
    (hq : IsExample d name q) : compare p q = .eq := by
  have hsame : p.components = q.components := hp.2.trans hq.2.symm
  show compare p.components q.components = .eq
  rw [hsame]
  exact Std.ReflCmp.compare_self

/-! ## Adding files -/

/-- The example that a file adds. -/
def added? (e : Path × String) : Option (String × Example) :=
  match e.1.stem?, Json.decode DecisionTree.decode e.2 with
  | some name, .ok tree => some (name, ⟨tree, .user e.1⟩)
  | _, _ => none

/-- The warning about a file that holds no tree. -/
def skipped? (e : Path × String) : Option String :=
  match Json.decode DecisionTree.decode e.2 with
  | .error f => some ("skipping " ++ e.1.text ++ ": " ++ f.message)
  | .ok _ => none

/-- A file that holds a tree adds it, and one that does not adds a warning. -/
theorem withFile_eq (c : Warned Catalog) {e : Path × String} {name : String}
    (hname : e.1.stem? = some name) :
    withFile c e.1 (.ok e.2)
      = ⟨c.value.insertAll (added? e).toList, c.warnings ++ (skipped? e).toList⟩ := by
  cases hread : Json.decode DecisionTree.decode e.2 with
  | error f => simp [withFile, added?, skipped?, hname, hread]
  | ok tree => simp [withFile, added?, skipped?, hname, hread]

/-- Some files add their trees and their warnings, each in turn.  A file does one or the other,
    so the two lists are what `added?` and `skipped?` keep of the files, each in its order. -/
theorem foldl_withFile {es : List (Path × String)} (h : ∀ e ∈ es, ∃ name, e.1.stem? = some name)
    (c : Warned Catalog) :
    es.foldl (fun c e => withFile c e.1 (.ok e.2)) c
      = ⟨c.value.insertAll (es.filterMap added?), c.warnings ++ es.filterMap skipped?⟩ := by
  induction es generalizing c with
  | nil => simp
  | cons e rest ih =>
    obtain ⟨name, hname⟩ := h e List.mem_cons_self
    rw [List.foldl_cons, withFile_eq c hname, ih fun e he => h e (List.mem_cons_of_mem _ he)]
    rw [← SortedMap.insertAll_append, List.append_assoc, List.filterMap_cons, List.filterMap_cons]
    cases added? e <;> cases skipped? e <;> rfl

/-- Files are added with the texts that the store has for them, and the store stays as it is. -/
theorem run_addFiles {σ : Type} [FileStore σ] (s : σ) (files : List Path) (c : Warned Catalog) :
    (addFiles c files).run s
      = (files.foldl (fun c p => withFile c p (FileStore.read s p)) c, s) := by
  induction files generalizing c with
  | nil => rfl
  | cons p rest ih => exact ih _

/-- The files of examples in a directory, with their texts. -/
def filesIn (m : MemoryStore) (d : Path) : List (Path × String) :=
  m.files.entries.filter fun e => decide (∃ name, IsExample d name e.1)

/-- The files in a directory are the entries of the store that are examples of some name. -/
theorem mem_filesIn_iff {m : MemoryStore} {d : Path} {e : Path × String} :
    e ∈ filesIn m d ↔ e ∈ m.files.entries ∧ ∃ name, IsExample d name e.1 := by
  simp [filesIn]

/-- The store lists just these, in the order of its keys. -/
theorem list_eq (m : MemoryStore) (d : Path) : m.list d "json" = (filesIn m d).map Prod.fst := by
  rw [MemoryStore.list, SortedMap.keys, List.filter_map, filesIn]
  congr 2
  funext e
  rw [Function.comp_apply, Bool.eq_iff_iff, decide_eq_true_iff, exists_isExample_iff]
  simp

/-- A directory has a file directly in it, or it is not there. -/
theorem isDirectory_iff {m : MemoryStore} {d : Path} :
    m.isDirectory d = true ↔ ∃ e ∈ m.files.entries, IsIn d e.1 := by
  simp [MemoryStore.isDirectory, SortedMap.keys, inside_iff]

/-- What is loaded from a directory that is there: all files that can be used are added to the
    bundled trees, in the order of their paths, and the warnings name the others in the same
    order. -/
theorem run_load {m : MemoryStore} {d : Path} (h : m.isDirectory d = true) :
    (load (some d)).run m = (.ok ⟨bundled.insertAll ((filesIn m d).filterMap added?),
      (filesIn m d).filterMap skipped?⟩, m) := by
  have hread : ∀ c : Warned Catalog, ∀ e ∈ filesIn m d,
      withFile c e.1 (FileStore.read m e.1) = withFile c e.1 (.ok e.2) := by
    intro c e he
    have hcontent : m.content? e.1 = some e.2 := SortedMap.find?_of_mem (mem_filesIn_iff.1 he).1
    have hstore : FileStore.read m e.1 = .ok e.2 := by simp [FileStore.read, hcontent]
    rw [hstore]
  have hnamed : ∀ e ∈ filesIn m d, ∃ name, e.1.stem? = some name := by
    intro e he
    obtain ⟨name, hname⟩ := (mem_filesIn_iff.1 he).2
    exact ⟨name, (isExample_iff.1 hname).2.2⟩
  have hfiles : FileStore.list m d "json" = .ok ((filesIn m d).map Prod.fst) := by
    rw [← list_eq]
    rfl
  have hthere : FileStore.isDirectory m d = true := h
  rw [load, FileTask.run, hthere, if_pos rfl, FileTask.run, hfiles]
  dsimp only
  rw [FileTask.run_bind, run_addFiles, List.foldl_map, List.foldl_ext _ _ _ hread,
    foldl_withFile hnamed]
  rfl

/-- Without a file directly in it, a directory gives the bundled examples and a warning. -/
theorem run_load_of_missing {m : MemoryStore} {d : Path} (h : m.isDirectory d = false) :
    (load (some d)).run m = (.ok ⟨bundled,
      ["examples directory " ++ d.text ++ " not found, using bundled examples"]⟩, m) := by
  have hmissing : FileStore.isDirectory m d = false := h
  rw [load, FileTask.run, hmissing]
  rfl

/-! ## The overlay -/

/-- An added example comes from a file of its name that holds its tree. -/
theorem added?_eq_some_iff {e : Path × String} {name : String} {x : Example} :
    added? e = some (name, x) ↔ e.1.stem? = some name
      ∧ ∃ tree, Json.decode DecisionTree.decode e.2 = .ok tree ∧ x = ⟨tree, .user e.1⟩ := by
  rw [added?]
  cases e.1.stem? with
  | none => simp
  | some stem =>
    cases Json.decode DecisionTree.decode e.2 with
    | error f => simp
    | ok tree => simp [eq_comm]

/-- A file that adds a tree is an example of the name under which it is added. -/
theorem isExample_of_added {m : MemoryStore} {d : Path} {e : Path × String} {name : String}
    {x : Example} (he : e ∈ filesIn m d) (h : added? e = some (name, x)) :
    IsExample d name e.1 := by
  obtain ⟨name', hfile⟩ := (mem_filesIn_iff.1 he).2
  have hname := (isExample_iff.1 hfile).2.2
  rw [(added?_eq_some_iff.1 h).1] at hname
  obtain rfl := Option.some.inj hname
  exact hfile

/-- The store has the tree of an example in a directory, in a file with that path. -/
def Holds (m : MemoryStore) (d : Path) (name : String) (p : Path) (tree : DecisionTree) : Prop :=
  ∃ text, (p, text) ∈ m.files.entries ∧ IsExample d name p
    ∧ Json.decode DecisionTree.decode text = .ok tree

/-- The examples that are added are those that the store has. -/
theorem mem_added_iff {m : MemoryStore} {d : Path} {name : String} {x : Example} :
    (name, x) ∈ (filesIn m d).filterMap added?
      ↔ ∃ p tree, Holds m d name p tree ∧ x = ⟨tree, .user p⟩ := by
  rw [List.mem_filterMap]
  constructor
  · rintro ⟨e, he, hadded⟩
    obtain ⟨-, tree, htree, hx⟩ := added?_eq_some_iff.1 hadded
    exact ⟨e.1, tree, ⟨e.2, (mem_filesIn_iff.1 he).1, isExample_of_added he hadded, htree⟩, hx⟩
  · rintro ⟨p, tree, ⟨text, hmem, hfile, htree⟩, hx⟩
    exact ⟨(p, text), mem_filesIn_iff.2 ⟨hmem, name, hfile⟩,
      added?_eq_some_iff.2 ⟨(isExample_iff.1 hfile).2.2, tree, htree, hx⟩⟩

/-- The files of a directory add examples of distinct names: files of one name would compare
    equal. -/
theorem nodup_added (m : MemoryStore) (d : Path) :
    (((filesIn m d).filterMap added?).map Prod.fst).Nodup := by
  have hascending : (filesIn m d).Pairwise fun e e' => compare e.1 e'.1 = .lt :=
    m.files.ascending.filter _
  rw [List.nodup_iff_pairwise_ne, List.pairwise_map, List.pairwise_filterMap]
  refine hascending.imp_of_mem ?_
  rintro e e' he he' hlt ⟨name, x⟩ hx ⟨name', x'⟩ hx' heq
  obtain rfl : name = name' := heq
  have hequal := (isExample_of_added he hx).compare_eq (isExample_of_added he' hx')
  rw [hlt] at hequal
  cases hequal

/-- An example of the store is found, and otherwise what was there before.  The names of the
    files that are added are distinct, so no file hides another one. -/
theorem find?_overlay (c : Catalog) (m : MemoryStore) (d : Path) (name : String) :
    (∀ p tree, Holds m d name p tree →
        (c.insertAll ((filesIn m d).filterMap added?)).find? name = some ⟨tree, .user p⟩)
      ∧ ((∀ p tree, ¬ Holds m d name p tree) →
        (c.insertAll ((filesIn m d).filterMap added?)).find? name = c.find? name) := by
  have hfound := SortedMap.find?_insertAll_empty (nodup_added m d) name
  rw [SortedMap.find?_insertAll_or]
  constructor
  · intro p tree h
    rw [(hfound _).2 (mem_added_iff.2 ⟨p, tree, h, rfl⟩)]
    rfl
  · intro h
    cases hadded : (SortedMap.empty.insertAll ((filesIn m d).filterMap added?)).find? name with
    | none => rfl
    | some x =>
      obtain ⟨p, tree, hholds, -⟩ := mem_added_iff.1 ((hfound x).1 hadded)
      exact absurd hholds (h p tree)

/-- The bundled examples are the bundled trees, each under its own name.  Their names are
    distinct, which is one computation over the list. -/
theorem find?_bundled {name : String} {x : Example} :
    bundled.find? name = some x ↔ ∃ tree, (name, tree) ∈ Bundled.trees ∧ x = ⟨tree, .bundled⟩ := by
  have hnames : ((Bundled.trees.map fun e =>
      (e.1, (⟨e.2, .bundled⟩ : Example))).map Prod.fst).Nodup := by
    rw [List.map_map]
    decide
  have hinsert : bundled
      = SortedMap.empty.insertAll (Bundled.trees.map fun e => (e.1, ⟨e.2, .bundled⟩)) := rfl
  rw [hinsert, SortedMap.find?_insertAll_empty hnames, List.mem_map]
  constructor
  · rintro ⟨⟨name, tree⟩, hmem, heq⟩
    obtain ⟨rfl, rfl⟩ := Prod.mk.inj heq
    exact ⟨tree, hmem, rfl⟩
  · rintro ⟨tree, hmem, rfl⟩
    exact ⟨(name, tree), hmem, rfl⟩

/-- The names of the catalog are those of the bundled trees and those of the usable files in the
    directory; a file that cannot be used adds none. -/
theorem mem_keys_overlay {m : MemoryStore} {d : Path} {name : String} :
    name ∈ (bundled.insertAll ((filesIn m d).filterMap added?)).keys
      ↔ name ∈ Bundled.trees.map Prod.fst ∨ ∃ p tree, Holds m d name p tree := by
  have hoverlay := find?_overlay bundled m d name
  rw [SortedMap.mem_keys_iff]
  by_cases h : ∃ p tree, Holds m d name p tree
  · obtain ⟨p, tree, hholds⟩ := h
    rw [hoverlay.1 p tree hholds]
    exact iff_of_true rfl (.inr ⟨p, tree, hholds⟩)
  · rw [hoverlay.2 fun p tree hholds => h ⟨p, tree, hholds⟩, or_iff_left h,
      Option.isSome_iff_exists]
    constructor
    · rintro ⟨x, hx⟩
      obtain ⟨tree, hmem, -⟩ := find?_bundled.1 hx
      exact List.mem_map.2 ⟨(name, tree), hmem, rfl⟩
    · intro hmem
      obtain ⟨⟨_, tree⟩, htree, rfl⟩ := List.mem_map.1 hmem
      exact ⟨_, find?_bundled.2 ⟨tree, htree, rfl⟩⟩

/-- The catalog of a directory `d` of a store, with any files and any spellings of their paths. -/
theorem load_overlay (m : MemoryStore) (d : Path) :
    ((∃ e ∈ m.files.entries, IsIn d e.1) →
      ∃ catalog : Warned Catalog, (load (some d)).run m = (.ok catalog, m)
        ∧ catalog.value.keys.Pairwise (· < ·)
        ∧ (∀ name, name ∈ catalog.value.keys ↔
            name ∈ Bundled.trees.map Prod.fst ∨ ∃ p tree, Holds m d name p tree)
        ∧ (∀ name p tree, Holds m d name p tree →
            catalog.value.find? name = some ⟨tree, .user p⟩)
        ∧ (∀ name tree, (name, tree) ∈ Bundled.trees → (∀ p tree, ¬ Holds m d name p tree) →
            catalog.value.find? name = some ⟨tree, .bundled⟩)
        ∧ catalog.warnings = (filesIn m d).filterMap skipped?)
    ∧ (∀ name, ∀ e ∈ m.files.entries, ∀ e' ∈ m.files.entries,
        IsExample d name e.1 → IsExample d name e'.1 → e = e')
    ∧ ((¬ ∃ e ∈ m.files.entries, IsIn d e.1) →
      (load (some d)).run m = (.ok ⟨bundled,
        ["examples directory " ++ d.text ++ " not found, using bundled examples"]⟩, m)) := by
  refine ⟨fun h => ?_, ?_, fun h => ?_⟩
  · have hoverlay := find?_overlay bundled m d
    refine ⟨_, run_load (isDirectory_iff.2 h), SortedMap.keys_ascending _, fun _ => mem_keys_overlay,
      fun name => (hoverlay name).1, fun name tree hmem hnone => ?_, rfl⟩
    exact ((hoverlay name).2 hnone).trans (find?_bundled.2 ⟨tree, hmem, rfl⟩)
  · intro name e he e' he' hfile hfile'
    exact SortedMap.entry_unique he he' (hfile.compare_eq hfile')
  · apply run_load_of_missing
    rw [← isDirectory_iff] at h
    exact Bool.eq_false_iff.2 h

/-- A file whose name is nothing but the extension, one that replaces a bundled tree, one that would
    but holds no tree, and one with two points in its name. -/
def mixed : MemoryStore :=
  ⟨⟨[(⟨"ex/.json"⟩, "{}"), (⟨"ex/age_check.json"⟩, "{}"),
    (⟨"ex//loan_application.json"⟩, "nope"), (⟨"ex/./zoo.v2.json"⟩, "{}")], by
      rw [Ascends]
      decide +kernel⟩⟩

/-- Two files add a tree, one gives a warning, and the one without a name is no example.  A
    directory without files is not there. -/
theorem mixed_overlay :
    (∃ catalog : Warned Catalog, (load (some ⟨"ex/"⟩)).run mixed = (.ok catalog, mixed)
      ∧ catalog.value.find? "age_check" = some ⟨.empty, .user ⟨"ex/age_check.json"⟩⟩
      ∧ catalog.value.find? "loan_application" = some ⟨Bundled.loanApplication, .bundled⟩
      ∧ "zoo.v2" ∈ catalog.value.keys ∧ "" ∉ catalog.value.keys
      ∧ catalog.warnings
        = ["skipping ex//loan_application.json: expected ident at line 1 column 2"])
    ∧ (load (some ⟨"none"⟩)).run mixed = (.ok ⟨bundled,
      ["examples directory none not found, using bundled examples"]⟩, mixed) := by
  have hmissing : ¬ ∃ e ∈ mixed.files.entries, IsIn ⟨"none"⟩ e.1 := by
    rw [← isDirectory_iff]
    decide +kernel
  have hempty : Json.decode DecisionTree.decode "{}" = .ok .empty := by rfl
  obtain ⟨hload, hunique, -⟩ := load_overlay mixed ⟨"ex/"⟩
  obtain ⟨catalog, hrun, -, hkeys, huser, hbundled, hwarnings⟩ :=
    hload ⟨_, List.mem_cons_self, .name ".json", by decide, by decide⟩
  refine ⟨⟨catalog, hrun, ?_, ?_, ?_, ?_, ?_⟩, (load_overlay mixed ⟨"none"⟩).2.2 hmissing⟩
  · exact huser _ _ _ ⟨"{}", by simp [mixed], ⟨by decide, by decide⟩, hempty⟩
  · refine hbundled _ _ (by simp [Bundled.trees]) ?_
    rintro p tree ⟨text, hmem, hfile, htree⟩
    -- it could only be in the file that holds no tree
    have hentry := hunique "loan_application" (p, text) hmem
      (⟨"ex//loan_application.json"⟩, "nope") (by simp [mixed]) hfile ⟨by decide, by decide⟩
    have hbroken : (Json.decode DecisionTree.decode "nope").isOk = false := by decide +kernel
    obtain ⟨-, rfl⟩ := Prod.mk.inj hentry
    rw [htree] at hbroken
    cases hbroken
  · exact (hkeys _).2 (.inr
      ⟨⟨"ex/./zoo.v2.json"⟩, _, "{}", by simp [mixed], ⟨by decide, by decide⟩, hempty⟩)
  · rw [hkeys]
    rintro (hbundled | ⟨p, tree, text, -, hfile, -⟩)
    · exact absurd hbundled (by decide)
    · exact hfile.1 rfl
  · rw [hwarnings]
    decide +kernel

end Catalog

end BranchProbe
