/-
  Choosing the settings from their layers.

  From the lowest to the highest: the built-in choice, the settings file for all working
  directories if it is there, the settings file of the working directory if it is there or the
  one that is named, which must be there, and the environment.

  A layer decides single fields.  Only what results is checked and expanded, so a value that a
  higher layer replaces does no harm.
-/
import BranchProbe.Settings.Basic
import BranchProbe.Settings.Expansion
import BranchProbe.Files.Task

namespace BranchProbe

/-- The settings file looked for in the working directory. -/
def localSettingsFile : Path := ⟨".treejack.toml"⟩

namespace PartialSettings

/-- The layer that the environment specifies. -/
def ofEnvironment (env : Environment) : Except Failure PartialSettings := do
  let maxDepth ← match env.setting? "max_depth" with
    | none => pure none
    | some value =>
      match Numeral.size? value with
      | .ok n => pure (some n)
      | .error f => .error (.config ("TREEJACK_MAX_DEPTH: " ++ f.message))
  return {
    examplesDir := env.setting? "examples_dir"
    maxDepth
    exportFile := env.setting? "export_file"
    color := env.flag? "render.color"
    showLayout := env.flag? "render.show_layout" }

/-- The layer of the text of a settings file. -/
def ofFile (path : Path) : Except FileFault String → Except Failure PartialSettings
  | .error f => .error (.config ("read " ++ path.text ++ ": " ++ f.message))
  | .ok text =>
    match ofToml? text with
    | none => .error (.config ("parse " ++ path.text ++ ": TOML parse error"))
    | some layer => .ok layer

/-- The layer of a settings file that must be there. -/
def loadNamed (path : Path) : FileTask (Except Failure PartialSettings) :=
  .read path fun r => .done (ofFile path r)

/-- The layer of a settings file, if it is there. -/
def loadOptional (path : Path) : FileTask (Except Failure PartialSettings) :=
  .fileExists path fun there =>
    if there then loadNamed path else .done (.ok .nothing)

end PartialSettings

namespace Settings

/-- The settings with their paths expanded. -/
def expand (env : Environment) (s : Settings) : Settings :=
  { s with
    examplesDir := s.examplesDir.map (expandPath env)
    exportFile := expandPath env s.exportFile }

/-- The choice that layers from the lowest to the highest make. -/
def choose (env : Environment) (layers : List PartialSettings) : Except Failure Settings :=
  let s := layers.foldl overlay default
  if s.maxDepth = 0 then .error (.config "max_depth must be at least 1") else .ok (s.expand env)

/-- The settings of a working directory.  `global` and `named` are the places of the settings file
    for all working directories and of a file named in place of the local one. -/
def load (env : Environment) (global named : Option Path) : FileTask (Except Failure Settings) := do
  let layer ← match global with
    | some path => PartialSettings.loadOptional path
    | none => pure (.ok .nothing)
  match layer with
  | .error f => return .error f
  | .ok first =>
    let layer ← match named with
      | some path => PartialSettings.loadNamed path
      | none => PartialSettings.loadOptional localSettingsFile
    match layer with
    | .error f => return .error f
    | .ok second =>
      match PartialSettings.ofEnvironment env with
      | .error f => return .error f
      | .ok third => return choose env [first, second, third]

end Settings

end BranchProbe
