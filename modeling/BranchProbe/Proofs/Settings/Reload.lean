/-
  Settings that are shown are loaded again as they are.

  1. `toToml_eq`: a choice is written as a document of lines that can be read back.
  2. `ofToml?_toToml`: the layer that is read from it specifies each field, and a directory only if
     there is one.
  3. `choose_asLayer`: above the built-in choice and below nothing, such a layer decides everything,
     so expansion is all that could change it.
  4. `toToml_reloads` puts the file in the place of the local one.
-/
import BranchProbe.Proofs.Settings.Layers
import BranchProbe.Proofs.Toml.Lines

namespace BranchProbe

open Toml (Line isBareKey)

namespace Settings

/-! ## Writing -/

section Lines

variable (s : Settings)

/-- The lines above the section for rendering. -/
def topLines (h : s.maxDepth < Nat.pow 2 63) : List Line :=
  (s.examplesDir.elim [] fun dir => [.ofText "examples_dir" (by decide) dir])
    ++ [.ofNat "max_depth" (by decide) s.maxDepth h,
      .ofText "export_file" (by decide) s.exportFile]

def renderLines : List Line :=
  [.ofBool "color" (by decide) s.color, .ofBool "show_layout" (by decide) s.showLayout]

/-- What is written of a choice is a document. -/
theorem toToml_eq (h : s.maxDepth < Nat.pow 2 63) :
    s.toToml = .ok (String.ofList (Toml.documentOf (s.topLines h) "render" s.renderLines)) := by
  rw [toToml, if_pos h, Toml.documentOf, topLines, renderLines]
  cases s.examplesDir <;> simp [Line.text, Line.ofText, Line.ofNat, Line.ofBool]

/-! ## Reading -/

/-- The table that is written. -/
def asTable : Toml.Table :=
  (s.examplesDir.elim [] fun dir => [("examples_dir", .text dir)])
    ++ [("max_depth", .integer s.maxDepth), ("export_file", .text s.exportFile),
      ("render", .table .section [("color", .bool s.color), ("show_layout", .bool s.showLayout)])]

/-- No key is written twice, so all of them are entered. -/
theorem read?_document (h : s.maxDepth < Nat.pow 2 63) :
    Toml.read? (String.ofList (Toml.documentOf (s.topLines h) "render" s.renderLines))
      = some s.asTable := by
  rw [Toml.read?, Toml.sections?_document _ (by decide), topLines, renderLines, asTable]
  cases s.examplesDir <;>
    simp [Line.entry, Line.ofText, Line.ofNat, Line.ofBool, Toml.enterAll, Toml.Section.enter,
      Toml.Table.putAll, Toml.Table.put, Toml.Table.openSection, Toml.Table.under,
      Toml.Table.find?]

/-- The layer that specifies a whole choice. -/
def asLayer : PartialSettings :=
  ⟨s.examplesDir, some s.maxDepth, some s.exportFile, some s.color, some s.showLayout⟩

/-- The table that is written is read as the layer that specifies every field of the settings. -/
theorem ofTable?_asTable : PartialSettings.ofTable? s.asTable = some s.asLayer := by
  rw [asTable, asLayer]
  cases s.examplesDir <;>
    simp [PartialSettings.ofTable?, PartialSettings.field?, PartialSettings.textOf?,
      PartialSettings.natOf?, PartialSettings.boolOf?, PartialSettings.renderOf?, Toml.Table.find?]

/-- The layer of what is shown specifies the whole choice. -/
theorem exists_toToml (h : s.maxDepth < Nat.pow 2 63) :
    ∃ text, s.toToml = .ok text ∧ PartialSettings.ofToml? text = some s.asLayer := by
  refine ⟨_, s.toToml_eq h, ?_⟩
  rw [PartialSettings.ofToml?, s.read?_document h, Option.bind_some, s.ofTable?_asTable]

end Lines

/-! ## Choosing -/

/-- Nothing above and below it, such a layer decides every field: the result is the settings
    themselves, as their paths have nothing left to expand. -/
theorem choose_asLayer {env : Environment} {s : Settings} (hdepth : 1 ≤ s.maxDepth)
    (hdir : ∀ dir ∈ s.examplesDir, expandPath env dir = dir)
    (hfile : expandPath env s.exportFile = s.exportFile) :
    choose env [.nothing, s.asLayer, .nothing] = .ok s := by
  obtain ⟨examplesDir, maxDepth, exportFile, color, showLayout⟩ := s
  refine choose_ok_iff.2 ⟨hdepth, ?_⟩
  have hdirs : examplesDir.map (expandPath env) = examplesDir := by
    cases examplesDir with
    | none => rfl
    | some dir => exact congrArg some (hdir dir rfl)
  change _ = (⟨(Field.examplesDir.decided [.nothing, _, .nothing]).map (expandPath env), maxDepth,
    expandPath env exportFile, color, showLayout⟩ : Settings)
  have hdecided : Field.examplesDir.decided [.nothing,
      asLayer ⟨examplesDir, maxDepth, exportFile, color, showLayout⟩, .nothing] = examplesDir := by
    cases examplesDir <;> rfl
  rw [hdecided, hdirs, show expandPath env exportFile = exportFile from hfile]

/-- Without a variable for a setting the environment specifies nothing. -/
theorem isOf_nothing {env : Environment} (h : ∀ name ∈ env.keys, Environment.settingOf? name = none) :
    PartialSettings.IsOf env .nothing := by
  have hnone : ∀ key, env.setting? key = none := by
    intro key
    have hfilter : (env.entries.filter fun e => Environment.settingOf? e.1 == some key) = [] := by
      refine List.filter_eq_nil_iff.2 fun e he => ?_
      rw [h e.1 (List.mem_map_of_mem he)]
      exact Bool.false_ne_true
    rw [Environment.setting?, hfilter]
    rfl
  exact ⟨(hnone _).symm, by rw [hnone]; rfl, (hnone _).symm, by rw [hnone]; rfl, by rw [hnone]; rfl⟩

/-- A choice whose depth limit fits 64 signed bits is shown, and loading what is shown gives the
    choice again, if expansion leaves its paths alone and nothing else is specified.  A choice with
    a larger limit is not shown. -/
theorem shown_settings_reload {σ : Type} [FileStore σ] (s : Settings) :
    (Int64.maxValue.toInt < s.maxDepth → ∃ message, s.toToml = .error (.config message))
    ∧ (1 ≤ s.maxDepth → s.maxDepth ≤ Int64.maxValue.toInt → ∃ text, s.toToml = .ok text
      ∧ ∀ (store : σ) (env : Environment) (global named : Option Path),
        (∀ dir ∈ s.examplesDir, expandPath env dir = dir) →
        expandPath env s.exportFile = s.exportFile →
        (∀ name ∈ env.keys, Environment.settingOf? name = none) →
        (∀ path ∈ global, FileStore.fileExists store path = false) →
        (named = none → FileStore.fileExists store localSettingsFile = true) →
        FileStore.read store (named.getD localSettingsFile) = .ok text →
        (load env global named).run store = (.ok s, store)) := by
  have hmax : Int64.maxValue.toInt = 9223372036854775807 := rfl
  have hlimit : Nat.pow 2 63 = 9223372036854775808 := rfl
  constructor
  · intro hlarge
    have hnot : ¬ s.maxDepth < Nat.pow 2 63 := by omega
    exact ⟨_, by rw [toToml, if_neg hnot]⟩
  · intro hpos hle
    obtain ⟨text, htext, hlayer⟩ := s.exists_toToml (by omega)
    refine ⟨text, htext, fun store env global named hdir hfile henv hglobal hthere hread => ?_⟩
    -- the file that is shown is the one layer that says something
    have hlowest : IsLowest store global .nothing := by
      cases global with
      | none => rfl
      | some path => rw [IsLowest, PartialSettings.IsInIfThere, hglobal path rfl]; rfl
    have hmiddle : IsMiddle store named s.asLayer := by
      cases named with
      | none =>
        rw [IsMiddle, PartialSettings.IsInIfThere, if_pos (hthere rfl)]
        exact ⟨text, hread, hlayer⟩
      | some path => exact ⟨text, hread, hlayer⟩
    obtain ⟨r, hrun, hok, -⟩ := gives_load store env global named
    have hr : r = .ok s := (hok s).2 ⟨_, _, _, ⟨hlowest, hmiddle, isOf_nothing henv⟩,
      choose_asLayer hpos hdir hfile⟩
    rw [hrun, hr]

/-- Quotes of both kinds, a backslash, a line end and a tab in the paths do no harm. -/
theorem awkward_paths_reload :
    let s : Settings := ⟨some "it's \"a\"\\\nb", 9, "\x27\x27\x27\t.json", true, false⟩
    (∃ message, toToml ⟨none, 9223372036854775808, "a.json", true, true⟩ = .error (.config message))
      ∧ ∃ text, s.toToml = .ok text
        ∧ let store : MemoryStore := ⟨.ofList [(localSettingsFile, text)]⟩
          (load (.ofList [("HOME", "/home")]) none none).run store = (.ok s, store) := by
  intro s
  obtain ⟨text, htext, hload⟩ := (shown_settings_reload (σ := MemoryStore) s).2
    (by decide) (by decide)
  refine ⟨(shown_settings_reload (σ := MemoryStore) _).1 (by decide), text, htext, ?_⟩
  have hfind : (SortedMap.ofList [(localSettingsFile, text)]).find? localSettingsFile = some text := by
    simp [SortedMap.ofList, SortedMap.insert, SortedMap.insertEntry, SortedMap.empty,
      SortedMap.find?]
  refine hload _ _ none none (by decide +kernel) (by decide +kernel) (by decide +kernel)
    (fun path hpath => by cases hpath) (fun _ => ?_) ?_
  · simp [FileStore.fileExists, SortedMap.contains, hfind]
  · simp [FileStore.read, MemoryStore.content?, hfind]

end Settings

end BranchProbe
