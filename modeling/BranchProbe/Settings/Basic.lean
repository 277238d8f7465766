/-
  Settings of the program.

  1. `Settings` is a complete choice; `PartialSettings` is what one layer says, field by field.
  2. `Settings.overlay` lets a layer win for every field that it specifies.
  3. `Settings.toToml` writes a choice as a settings file, `PartialSettings.ofToml?` reads one.
     A file may say more than is known; what is known must be of the right kind.
-/
import BranchProbe.Failure
import BranchProbe.Toml.Reader
import BranchProbe.Toml.Printer
import BranchProbe.Numeral.Text

namespace BranchProbe

/-- A complete choice of settings. -/
structure Settings where
  /-- directory of more example trees -/
  examplesDir : Option String
  /-- depth below which no walk goes -/
  maxDepth : Nat
  /-- where results are exported to if no other file is named -/
  exportFile : String
  /-- is the active path shown in color? -/
  color : Bool
  /-- is the layout shown below a tree? -/
  showLayout : Bool
  deriving Repr, DecidableEq

/-- What one layer of settings specifies. -/
structure PartialSettings where
  examplesDir : Option String
  maxDepth : Option Nat
  exportFile : Option String
  color : Option Bool
  showLayout : Option Bool
  deriving Repr, DecidableEq

/-- A layer that specifies nothing. -/
def PartialSettings.nothing : PartialSettings := ⟨none, none, none, none, none⟩

namespace Settings

/-- The choice made where no layer says otherwise. -/
def default : Settings := ⟨none, 128, "path-results.json", true, true⟩

/-- The layer wins for every field that it specifies. -/
def overlay (s : Settings) (layer : PartialSettings) : Settings :=
  { examplesDir := layer.examplesDir.or s.examplesDir
    maxDepth := layer.maxDepth.getD s.maxDepth
    exportFile := layer.exportFile.getD s.exportFile
    color := layer.color.getD s.color
    showLayout := layer.showLayout.getD s.showLayout }

/-- The settings as the text of a settings file.  Whole numbers of such a file have 64 signed
    bits. -/
def toToml (s : Settings) : Except Failure String :=
  if s.maxDepth < Nat.pow 2 63 then
    .ok (String.ofList
      ((s.examplesDir.elim [] fun dir => Toml.writeLine "examples_dir" (Toml.writeText dir))
        ++ Toml.writeLine "max_depth" (Numeral.digitsOf s.maxDepth)
        ++ Toml.writeLine "export_file" (Toml.writeText s.exportFile)
        ++ "\n[render]\n".toList
        ++ Toml.writeLine "color" (Toml.writeBool s.color)
        ++ Toml.writeLine "show_layout" (Toml.writeBool s.showLayout)))
  else .error (.config "serialize config: out-of-range value for u64 type")

end Settings

namespace PartialSettings

open Toml (Value Table)

/-- A field of a table, if it is there; it must be of the right kind. -/
def field? {α : Type} (t : Table) (key : String) (read : Value → Option α) : Option (Option α) :=
  match t.find? key with
  | none => some none
  | some v => (read v).map some

/-- A text. -/
def textOf? : Value → Option String
  | .text s => some s
  | _ => none

/-- A whole number that is not negative. -/
def natOf? : Value → Option Nat
  | .integer n => if 0 ≤ n then some n.toNat else none
  | _ => none

/-- A flag. -/
def boolOf? : Value → Option Bool
  | .bool b => some b
  | _ => none

/-- The settings for rendering: a table, or a list of its fields in order.  A date has no fields
    that are known. -/
def renderOf? : Value → Option (Option Bool × Option Bool)
  | .table _ t =>
    (field? t "color" boolOf?).bind fun color =>
      (field? t "show_layout" boolOf?).map fun showLayout => (color, showLayout)
  | .list [] => some (none, none)
  | .list [color] => (boolOf? color).map fun color => (some color, none)
  | .list (color :: showLayout :: _) =>
    (boolOf? color).bind fun color =>
      (boolOf? showLayout).map fun showLayout => (some color, some showLayout)
  | .date => some (none, none)
  | _ => none

/-- The layer that a settings file specifies. -/
def ofTable? (t : Table) : Option PartialSettings := do
  let examplesDir ← field? t "examples_dir" textOf?
  let maxDepth ← field? t "max_depth" natOf?
  let exportFile ← field? t "export_file" textOf?
  let render ← field? t "render" renderOf?
  let (color, showLayout) := render.getD (none, none)
  return ⟨examplesDir, maxDepth, exportFile, color, showLayout⟩

/-- The layer that the text of a settings file specifies, if it is well formed. -/
def ofToml? (text : String) : Option PartialSettings := (Toml.read? text).bind ofTable?

end PartialSettings

end BranchProbe
