/-
  Carrying out commands.

  1. `Workspace.load` chooses the settings and loads the catalog.
  2. `TreeCommand.run` carries out a command in a workspace.
  3. `Invocation.run` carries out what a command line asks for.  It ends with an exit status and
     with all that was written; a failure is written to the standard error.
-/
import BranchProbe.Command.Help
import BranchProbe.Command.Output
import BranchProbe.Condition.Scanner
import BranchProbe.Document.Files
import BranchProbe.Job
import BranchProbe.Payload
import BranchProbe.Render.Outline
import BranchProbe.Settings.Load
import BranchProbe.Settings.Template
import BranchProbe.Tree.Validation

namespace BranchProbe

/-- What commands on trees work with. -/
structure Workspace where
  environment : Environment
  /-- the settings file that was named, if one was -/
  config : Option Path
  settings : Settings
  catalog : Catalog
  /-- are styles wanted on the terminal? -/
  color : Bool

namespace Workspace

/-- The workspace for an environment and a named settings file. -/
def load (env : Environment) (config : Option Path) (color : Bool) : Job Workspace := do
  let settings ← Job.ofTask (Settings.load env (env.globalSettingsPath?.map Path.mk) config)
  let catalog ← Job.ofWarnedTask (Catalog.load (settings.examplesDir.map Path.mk))
  return ⟨env, config, settings, catalog, color⟩

/-- The tree with a name. -/
def tree (w : Workspace) (source : String) : Job DecisionTree :=
  .ofTask (DecisionTree.load source w.catalog)

/-- The assignment in a file, or the defaults of a tree. -/
def inputs (w : Workspace) (t : DecisionTree) (file : Option Path) : Job Assignment :=
  match file with
  | some p => .ofTask (Assignment.load p)
  | none => .ofWarned (t.defaults w.settings.maxDepth)

/-- The samples for a tree, from an assignment in a file or from the defaults of the tree. -/
def samples (w : Workspace) (t : DecisionTree) (file : Option Path) : Job (List Assignment) := do
  let base ← w.inputs t file
  .ofWarned (t.samplesFrom w.settings.maxDepth (some base))

/-- The samples of an example on the terminal. -/
def listSamples (w : Workspace) (name : String) (samples : List Sample) : Output :=
  if samples.isEmpty then .warning w.color (name ++ " has no sample inputs")
  else
    .all (samples.mapIdx fun i s =>
      .header w.color (s.displayName i) ++ .detail s.values.display)

/-- The model of a tree on the terminal: the outline, the active links if there are any, and the
    layout if it is wanted. -/
def showModel (w : Workspace) (m : RenderModel) (unreachable : List String) : Output :=
  .line (m.outline ⟨w.settings.color && w.color, unreachable⟩).print
    ++ (if m.activeLinks.isEmpty then .nothing
        else
          .header w.color "Active links"
            ++ .all (m.activeLinks.map fun l => .detail (l.source ++ " -> " ++ l.target)))
    ++ (if w.settings.showLayout then .header w.color "Layout" ++ .detail m.layout.summary
        else .nothing)

/-- A path, and whether there is anything. -/
def describe (p : Path) : Job String := do
  let there ← Job.ask (.fileExists p .done)
  return p.text ++ (if there then " (exists)" else " (not found)")

/-- The places of the settings files on the terminal. -/
def showPaths (w : Workspace) : Job Output := do
  let globalPlace ← match w.environment.globalSettingsPath? with
    | some path => describe ⟨path⟩
    | none => pure "no config directory on this platform"
  let localPlace ← describe (w.config.getD localSettingsFile)
  return .labelled w.color "Global" globalPlace ++ .labelled w.color "Local" localPlace

end Workspace

/-- A document on the terminal. -/
def Output.document (j : Json) : Output := .line j.pretty

/-- Some assignments on the terminal. -/
def Output.assignments (l : List Assignment) : Output := .document (.list (l.map Assignment.toJson))

namespace TreeCommand

/-- Draws a tree. -/
def runRender (w : Workspace) (source : String) (result unreachable : Option Path) (json : Bool) :
    Job Output := do
  let tree ← w.tree source
  let path ← match result with
    | some p => do
      let simulation ← Job.ofTask (Simulation.load p)
      pure simulation.path
    | none => pure []
  let unreachable ← match unreachable with
    | some p => do
      let report ← Job.ofTask (UnreachableReport.load p)
      pure report.ids
    | none => pure []
  let model ← Job.ofWarned (tree.renderModel path w.settings.maxDepth)
  match model with
  | none => .ofExcept (.error .missingRoot)
  | some m => return if json then .document m.toJson else w.showModel m unreachable

/-- Carries out a command in a workspace. -/
def run (w : Workspace) : TreeCommand → Job Output
  | .defaults source => do
    let tree ← w.tree source
    let inputs ← w.inputs tree none
    return .document inputs.toJson
  | .variations source file => do
    let tree ← w.tree source
    let base ← w.inputs tree file
    return .assignments base.variations
  | .samples source file => do
    let tree ← w.tree source
    let samples ← w.samples tree file
    return .assignments samples
  | .render source result unreachable json => runRender w source result unreachable json
  | .validate source => do
    let tree ← w.tree source
    Job.ofExcept (tree.validate w.settings.maxDepth)
    let nodes := tree.root.elim 0 TreeNode.count
    return .success w.color (source ++ ": " ++ toString nodes ++ " nodes, ids unique")
  | .payloadSimulate source file => do
    let tree ← w.tree source
    let inputs ← w.inputs tree file
    return .document (Payload.simulation tree inputs)
  | .payloadUnreachable source file => do
    let tree ← w.tree source
    let samples ← w.samples tree file
    return .document (Payload.unreachable tree samples)
  | .exportResult result output => do
    let simulation ← Job.ofTask (Simulation.load result)
    let target : Path := output.getD ⟨w.settings.exportFile⟩
    Job.ofTask (simulation.exportTo target)
    return .labelled w.color "Exported" target.text
  | .examplesList =>
    return .all (w.catalog.entries.map fun e => .detail (e.1 ++ " (" ++ e.2.origin.display ++ ")"))
  | .examplesShow name => do
    let tree ← Job.ofExcept (w.catalog.tree name)
    return .document tree.toJson
  | .examplesSamples name => do
    let tree ← Job.ofExcept (w.catalog.tree name)
    return w.listSamples name tree.samples
  | .configShow => do
    let text ← Job.ofExcept w.settings.toToml
    return .line text
  | .configPath => w.showPaths

end TreeCommand

/-- The comparisons of a condition on the terminal. -/
def Output.comparisons (color : Bool) (condition : String) : Output :=
  match BranchProbe.comparisons (some condition) with
  | [] => .warning color "no literal comparisons against input.<name> found"
  | found =>
    .all (found.map fun c => .detail (c.display ++ "  (" ++ c.operator.bound.name ++ ")"))

/-- Carries out a command. -/
def Command.run (env : Environment) (config : Option Path) (color : Bool) : Command → Job Output
  | .parse condition => pure (.comparisons color condition)
  | .completion shell => pure ⟨Help.completion shell, ""⟩
  | .configTemplate => pure (.line Settings.template)
  | .onTrees c => do
    let w ← Workspace.load env config color
    c.run w

/-- What an invocation comes to. -/
structure Outcome where
  exitCode : Nat
  output : Output
  warnings : List String

/-- Carries out what a command line asks for; without a command that is help. -/
def Invocation.run (i : Invocation) (env : Environment) (color : Bool) : FileTask Outcome :=
  match i.command with
  | none => .done ⟨0, ⟨Help.text, ""⟩, []⟩
  | some c =>
    (c.run env i.config color).task.bind fun r =>
      .done (match r.value with
        | .ok output => ⟨0, output, r.warnings⟩
        | .error f => ⟨f.exitCode, .error color f.message, r.warnings⟩)

end BranchProbe
