import Rulebook.Document.Test
import Rulebook.Format.Settings
import Rulebook.Inspect
import Rulebook.Proofs.Compile
import Rulebook.Proofs.Grouping
import Rulebook.Proofs.Segments
import Rulebook.Text.Basic
import Rulebook.Proofs.Evaluation
import Rulebook.Proofs.WalkEvaluation
import Rulebook.Proofs.Findings
import Rulebook.Proofs.Report
import Rulebook.Proofs.Validation
import Rulebook.Proofs.Visits
import Rulebook.Proofs.Branch
import Rulebook.Proofs.Coverage
import Rulebook.Proofs.Termination
import Rulebook.Proofs.StaticMap
import Rulebook.Proofs.Origin
import Rulebook.Proofs.Acceptance
import Rulebook.Proofs.Safety
import Rulebook.Proofs.FirstError
import Rulebook.Proofs.Assembling
import Rulebook.Proofs.Session
import Rulebook.Proofs.Obligations
import Rulebook.Proofs.Recursion
import Rulebook.Proofs.Calls
import Rulebook.Proofs.LoopGuard
import Rulebook.Proofs.Nodes
import Rulebook.Proofs.Tightness
import Rulebook.Proofs.Views
import Rulebook.Proofs.Equality
import Rulebook.Proofs.Registering
import Rulebook.Proofs.Renaming
import Rulebook.Proofs.Script
import Rulebook.Proofs.Reordering
import Rulebook.Proofs.ReadyMessages
import Rulebook.Proofs.Mounting
import Rulebook.Proofs.Expansion
import Rulebook.Proofs.Progress
import Rulebook.Proofs.Alignment
import Rulebook.Proofs.Shapes
import Rulebook.Proofs.SurveyProgress
import Rulebook.Proofs.ReadyPaths
import Rulebook.Proofs.Numbering
import Rulebook.Proofs.Merges
import Rulebook.Proofs.Rendering
import Rulebook.Proofs.PathSlots
import Rulebook.Proofs.SoundSettings
import Rulebook.Proofs.Rereading
import Rulebook.Proofs.Definitions
import Rulebook.Proofs.Balance
import Rulebook.Proofs.Chains
