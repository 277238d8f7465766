import BranchProbe.Files.Disk
import BranchProbe.Files.MemoryStore
import BranchProbe.Main
import BranchProbe.Proofs.Catalog.Overlay
import BranchProbe.Proofs.Condition.Printed
import BranchProbe.Proofs.Condition.Scan
import BranchProbe.Proofs.Coverage
import BranchProbe.Proofs.DefaultVariables
import BranchProbe.Proofs.Defaults
import BranchProbe.Proofs.Document.Levels
import BranchProbe.Proofs.Document.Payloads
import BranchProbe.Proofs.Document.Reload
import BranchProbe.Proofs.Files.Writes
import BranchProbe.Proofs.Render.Agreement
import BranchProbe.Proofs.Render.Colors
import BranchProbe.Proofs.Render.Conditions
import BranchProbe.Proofs.Render.Figures
import BranchProbe.Proofs.Render.Marks
import BranchProbe.Proofs.Render.Parents
import BranchProbe.Proofs.Satisfaction
import BranchProbe.Proofs.Settings.Expanded
import BranchProbe.Proofs.Settings.Reload
import BranchProbe.Proofs.Tree.Queries
import BranchProbe.Proofs.Variations
