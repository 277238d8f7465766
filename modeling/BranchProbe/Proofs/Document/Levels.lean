/-
  Trees that are loaded have at most 63 levels.

  1. A document may nest 127 lists and objects.  The tree takes one of them, and each of its levels
     takes two but for the innermost, which may do without its list of children
     (`TreeNode.depth_of_decode`).  So there is room for 63 levels and not for 64, in whichever
     form the nodes are written (`DecisionTree.shallow_of_decode`).
  2. The bundled trees are far from that, and adding a file keeps the bound of a catalog
     (`Catalog.Shallow.withFile`), so every catalog has it (`Catalog.shallow_of_load`).
  3. `loaded_tree_is_whole`: with a limit of 62 or more nothing of a loaded tree is left out, neither
     by the check, nor by the defaults, nor by the model.  `deepest_is_whole` is about a tree of 63 levels.
-/
import BranchProbe.Defaults
import BranchProbe.Proofs.Catalog.Overlay
import BranchProbe.Proofs.DefaultVariables
import BranchProbe.Proofs.Document.Reload
import BranchProbe.Proofs.Render.Agreement
import BranchProbe.Render.Model

namespace BranchProbe

open Json (Syntax Reads Fills optional reads_record reads_field)

/-! ## Decoded trees -/

namespace Json

/-- What is decoded from a document was read from the tree of its text. -/
theorem exists_read_of_decode {α : Type} {read : (room : Nat) → Syntax → Except Fault α}
    {text : String} {x : α} (h : decode read text = .ok x) : ∃ s, read depthLimit s = .ok x := by
  unfold decode at h
  dsimp only at h
  split at h
  · cases h
  next y hy =>
  split at h
  · cases h
  · exact ⟨_, Except.ok.inj h ▸ hy⟩

end Json

namespace DecisionTree

/-- The tree has at most 63 levels. -/
def Shallow (t : DecisionTree) : Prop := ∀ root, t.root = some root → root.depth ≤ 63

/-- A tree that was decoded has at most 63 levels: it lies one object deep in its document, so
    its root is read with room for 126 more. -/
theorem shallow_of_decode {text : String} {t : DecisionTree}
    (h : Json.decode decode text = .ok t) : t.Shallow := by
  obtain ⟨s, hs⟩ := Json.exists_read_of_decode h
  refine Json.record_preserves (P := Shallow) (by simp [Shallow, empty]) ?_ hs
  simp only [List.forall_mem_cons, List.not_mem_nil, false_imp_iff, implies_true, and_true]
  constructor
  · -- the root is read with a room of 126
    intro u t t' ht hput root hroot
    obtain ⟨x, hx, rfl⟩ := Json.map_eq_ok_iff.1 hput
    obtain rfl : x = some root := hroot
    rcases Json.optional_eq_ok hx with ⟨hnone, -⟩ | ⟨y, hy, hread⟩
    · cases hnone
    · obtain rfl := Option.some.inj hy
      have hdepth : 2 * root.depth ≤ 126 + 1 := TreeNode.depth_of_decode hread
      omega
  · intro u t t' ht hput
    obtain ⟨x, -, rfl⟩ := Json.map_eq_ok_iff.1 hput
    exact ht

end DecisionTree

/-! ## Catalogs -/

namespace Catalog

/-- Every tree of the catalog has at most 63 levels. -/
def Shallow (c : Catalog) : Prop := ∀ name e, c.find? name = some e → e.tree.Shallow

/-- The bundled trees have few levels, which is one computation over all of them. -/
theorem shallow_bundled : Shallow bundled := by
  intro name e he root hroot
  obtain ⟨tree, hmem, rfl⟩ := find?_bundled.1 he
  have hall : Bundled.trees.all fun e => e.2.root.all fun root => root.depth ≤ 63 := by decide
  have htree := List.all_eq_true.1 hall (name, tree) hmem
  rw [hroot] at htree
  simpa using htree

/-- A file adds a shallow tree or none: it is skipped, or its tree was decoded and is shallow for
    that reason.  So a run over all files keeps the bound. -/
theorem Shallow.withFile {c : Warned Catalog} (hc : Shallow c.value) (p : Path)
    (content : Except FileFault String) : Shallow (withFile c p content).value := by
  unfold Catalog.withFile
  split
  · exact hc
  next name _ =>
  split
  · exact hc
  dsimp only
  split
  · exact hc
  next tree htree =>
  intro k e he
  rw [SortedMap.find?_insert] at he
  split at he
  · obtain rfl := Option.some.inj he
    exact DecisionTree.shallow_of_decode htree
  · exact hc k e he

/-- A catalog that is loaded, from a directory of any store or from none, is shallow. -/
theorem shallow_of_load {σ : Type} [FileStore σ] {store after : σ} {dir : Option Path}
    {c : Warned Catalog} (h : (load dir).run store = (.ok c, after)) : Shallow c.value := by
  cases dir with
  | none =>
    obtain ⟨rfl, -⟩ : c = .quiet bundled ∧ store = after := by
      simpa [load, FileTask.run, eq_comm] using h
    exact shallow_bundled
  | some dir =>
    rw [load, FileTask.run] at h
    split at h
    · rw [FileTask.run] at h
      cases hlist : FileStore.list store dir "json" with
      | error f => simp [hlist, FileTask.run] at h
      | ok files =>
        rw [hlist] at h
        dsimp only at h
        rw [FileTask.run_bind, run_addFiles] at h
        obtain ⟨rfl, -⟩ : _ = c ∧ _ := by simpa [FileTask.run] using h
        -- the files are added one after the other
        have hfiles : ∀ (files : List Path) (c : Warned Catalog), Shallow c.value →
            Shallow (files.foldl
              (fun c p => Catalog.withFile c p (FileStore.read store p)) c).value := by
          intro files
          induction files with
          | nil => exact fun c hc => hc
          | cons p rest ih => exact fun c hc => ih _ (hc.withFile p _)
        exact hfiles files _ shallow_bundled
    · obtain ⟨rfl, -⟩ : _ = c ∧ _ := by simpa [FileTask.run] using h
      exact shallow_bundled

end Catalog

/-! ## Loaded trees -/

namespace DecisionTree

/-- A tree that is loaded, from a file of any store or from a shallow catalog, is shallow. -/
theorem shallow_of_load {σ : Type} [FileStore σ] {store after : σ} {source : String}
    {c : Catalog} {t : DecisionTree} (hc : c.Shallow)
    (h : (load source c).run store = (.ok t, after)) : t.Shallow := by
  unfold load at h
  dsimp only at h
  split at h
  · rw [FileTask.run, Catalog.tree] at h
    split at h
    · cases h
    next e he =>
    obtain ⟨htree, -⟩ := Prod.mk.inj h
    exact Except.ok.inj htree ▸ hc _ _ he
  · obtain ⟨-, text, -, hdecode⟩ := loadDocument_ok_iff.1 h
    exact shallow_of_decode hdecode

/-- The check of a tree with few levels for the limit does not stop at it. -/
theorem validate_ne_depthExceeded {t : DecisionTree} {limit : Nat}
    (h : ∀ root, t.root = some root → root.depth ≤ limit + 1) (k : Nat) :
    t.validate limit ≠ .error (.depthExceeded k) := by
  unfold validate
  split
  · exact fun h => by cases h
  next root hroot =>
  have hcomplete := (TreeNode.walk_complete_iff limit root).2 (h root hroot)
  rw [TreeNode.walk] at hcomplete
  rw [TreeNode.checkFrom_eq, hcomplete]
  dsimp only
  split
  · exact fun h => by cases h
  · exact fun h => by cases h

/-- A tree that is loaded has at most 63 levels.  So with a limit of 62 or more it is never refused as
    too deep, its defaults and its models come without warnings, and a model shows all of its nodes.
    The defaults are the seeds of all of its nodes: just the variables that are compared at any node
    have one, and the first comparison in the whole pre-order decides it.  This is the place where
    the bound on the nesting of documents meets the bound on the depth of walks. -/
theorem loaded_tree_is_whole {σ τ : Type} [FileStore σ] [FileStore τ] {disk disk' : σ}
    {files files' : τ} {dir : Option Path} {catalog : Warned Catalog} {source : String}
    {t : DecisionTree} (hcatalog : (Catalog.load dir).run disk = (.ok catalog, disk'))
    (hload : (load source catalog.value).run files = (.ok t, files')) :
    (∀ root, t.root = some root → root.depth ≤ 63)
    ∧ ∀ limit, 62 ≤ limit →
      (∀ k, t.validate limit ≠ .error (.depthExceeded k))
      ∧ (t.defaults limit).warnings = []
      ∧ (∀ path, (t.renderModel path limit).warnings = [])
      ∧ ∀ root, t.root = some root →
        (t.defaults limit).value = TreeNode.Walk.seeds ⟨root.preorder, true⟩
        ∧ (∀ k, k ∈ (t.defaults limit).value.keys
          ↔ ∃ v ∈ root.preorder, ∃ c ∈ comparisons v.2.condition, c.name = k)
        ∧ (∀ k, (t.defaults limit).value.find? k
          = ((root.preorder.flatMap fun v => comparisons v.2.condition).find?
            fun c => c.name = k).map Comparison.seed)
        ∧ ∀ path, ∃ model, (t.renderModel path limit).value = some model
          ∧ List.Forall₂ (fun v r => v.1 = r.1 ∧ RenderNode.Shows path v.2 r.2)
            root.preorder model.root.preorder := by
  have hshallow : t.Shallow := shallow_of_load (Catalog.shallow_of_load hcatalog) hload
  refine ⟨hshallow, fun limit hlimit => ?_⟩
  have hdepth : ∀ root, t.root = some root → root.depth ≤ limit + 1 := by
    intro root hroot
    have := hshallow root hroot
    omega
  refine ⟨validate_ne_depthExceeded hdepth, ?_, fun path => ?_, fun root hroot => ?_⟩
  · rw [defaults]
    split
    · rfl
    next root hroot =>
    rw [TreeNode.defaults_warnings_eq_nil_iff, TreeNode.walk_complete_iff]
    exact hdepth root hroot
  · rw [renderModel]
    split
    · rfl
    next root hroot =>
    exact (TreeNode.render_warnings_eq_nil_iff ⟨path, limit⟩ root).2 (hdepth root hroot)
  · -- all nodes lie within the limit, so the walk sees them all
    have hwalk := TreeNode.walk_eq_of_depth_le (hdepth root hroot)
    have hdefaults : t.defaults limit = root.defaults limit := by rw [defaults, hroot]
    rw [hdefaults]
    refine ⟨?_, fun k => TreeNode.mem_keys_defaults_of_depth_le (hdepth root hroot), fun k => ?_,
      fun path => ⟨_, renderModel_eq_some path limit hroot, ?_⟩⟩
    · rw [TreeNode.defaults, hwalk]
    · rw [TreeNode.find?_defaults, TreeNode.compared_of_depth_le (hdepth root hroot)]
    · have hshows := TreeNode.forall₂_shows ⟨path, limit⟩ root
      rwa [hwalk] at hshows

/-- A tree of 63 levels. -/
def deepest : DecisionTree := ⟨some (.chain 62), []⟩

/-- A document of it, in which the innermost node is given without its children. -/
def deepestDocument : Json := .object [("root", TreeNode.chainDocument 62)]

/-- The document is decoded as the tree of 63 levels, since its innermost node takes one level of
    nesting only. -/
theorem decode_deepestDocument : Json.decode decode deepestDocument.print = .ok deepest := by
  have hnull : TreeNode.chainDocument 62 ≠ .null := fun h => Json.noConfusion h
  have hroot : Reads (optional (TreeNode.decode 126)) (TreeNode.chainDocument 62)
      (some (.chain 62)) :=
    Json.reads_optional (TreeNode.reads_chainDocument 62 (by decide)) hnull
  refine Json.decode_write Json.compact_blank ?_ (reads_record (Nat.succ_pos _)
    (.cons _ rfl (by simp) (reads_field hroot _ _ _ _) .nil) (by simp [Json.field]))
  simp [deepestDocument, Json.Everywhere, Json.EverywhereInMembers, Json.Whole,
    TreeNode.whole_chainDocument]

/-- A store with this document. -/
def deepestStore : MemoryStore := MemoryStore.empty.write ⟨"deep.json"⟩ deepestDocument.print

/-- The tree of 63 levels is loaded, and with a limit of 62 it is accepted as far as its depth goes
    and all of it is drawn. -/
theorem deepest_is_whole : (Catalog.load none).run MemoryStore.empty
      = (.ok (.quiet Catalog.bundled), MemoryStore.empty)
    ∧ (load "deep.json" Catalog.bundled).run deepestStore = (.ok deepest, deepestStore)
    ∧ (TreeNode.chain 62).depth = 63
    ∧ (∀ k, deepest.validate 62 ≠ .error (.depthExceeded k))
    ∧ (deepest.defaults 62).warnings = []
    ∧ ∃ model, (deepest.renderModel [] 62).value = some model
      ∧ List.Forall₂ (fun v r => v.1 = r.1 ∧ RenderNode.Shows [] v.2 r.2)
        (TreeNode.chain 62).preorder model.root.preorder := by
  have hcatalog : (Catalog.load none).run MemoryStore.empty
      = (.ok (.quiet Catalog.bundled), MemoryStore.empty) := rfl
  have hload : (load "deep.json" Catalog.bundled).run deepestStore = (.ok deepest, deepestStore) := by
    have hfile : exampleMark.isPrefixOf "deep.json".toList = false := by decide
    have hcontent := MemoryStore.content?_write MemoryStore.empty ⟨"deep.json"⟩ deepestDocument.print
    rw [load, hfile]
    exact loadDocument_ok_iff.2 ⟨rfl, _, by simp [FileStore.read, deepestStore, hcontent],
      decode_deepestDocument⟩
  obtain ⟨-, hwhole⟩ := loaded_tree_is_whole hcatalog hload
  obtain ⟨hvalidate, hdefaults, -, hroot⟩ := hwhole 62 (Nat.le_refl 62)
  obtain ⟨-, -, -, hmodels⟩ := hroot _ rfl
  exact ⟨hcatalog, hload, TreeNode.depth_chain 62, hvalidate, hdefaults, hmodels []⟩

end DecisionTree

end BranchProbe
