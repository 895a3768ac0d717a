import Transcode.Main
import Transcode.Program.Run
import Transcode.Proofs.Batch.Outputs
import Transcode.Proofs.Batch.Uniform
import Transcode.Proofs.Editor.Ending
import Transcode.Proofs.Editor.Omission
import Transcode.Proofs.Editor.Plannable
import Transcode.Proofs.Editor.Refusal
import Transcode.Proofs.Editor.Validity
import Transcode.Proofs.Editor.Visits
import Transcode.Proofs.Inputs
import Transcode.Proofs.Options.Separation
import Transcode.Proofs.Plan.Analysis
import Transcode.Proofs.Plan.BitRate
import Transcode.Proofs.Plan.EvenFix
import Transcode.Proofs.Plan.Layout
import Transcode.Proofs.Plan.Literal
import Transcode.Proofs.Plan.TwoPass
import Transcode.Proofs.Plan.Visible
import Transcode.Proofs.Profile.Accepted
import Transcode.Proofs.Profile.Consistent
import Transcode.Proofs.Profile.Selected
import Transcode.Proofs.Program.Prediction
import Transcode.Proofs.Program.SavedDefaults
import Transcode.Proofs.Program.SavedEdits
import Transcode.Proofs.Program.Selection
import Transcode.Proofs.Settings.Stability
import Transcode.Proofs.Command
import Transcode.Proofs.Editor.Sizes
import Transcode.Proofs.Plan.Carried
import Transcode.Proofs.Editor.Integers
