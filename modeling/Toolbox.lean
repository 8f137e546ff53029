import Toolbox.Main
import Toolbox.Proofs.Completion.Grammar
import Toolbox.Proofs.Completion.Picks
import Toolbox.Proofs.Completion.Decoding
import Toolbox.Proofs.Completion.Columns
import Toolbox.Proofs.Completion.Shapes
import Toolbox.Proofs.Completion.Values
import Toolbox.Proofs.Completion.TypedValues
import Toolbox.Proofs.Completion.Reaching
import Toolbox.Proofs.Completion.Requests
import Toolbox.Proofs.Completion.Unknown
import Toolbox.Proofs.Completion.Distinct
import Toolbox.Proofs.Completion.Listing
import Toolbox.Proofs.Completion.Locality
import Toolbox.Proofs.Completion.Narrowing
import Toolbox.Proofs.Tree.Assembly
import Toolbox.Proofs.Tree.Faults
import Toolbox.Proofs.Tree.Spellings
import Toolbox.Proofs.Surface.Mirror
import Toolbox.Proofs.Surface.Skipping
import Toolbox.Proofs.Report.Recording
import Toolbox.Proofs.Report.Records
import Toolbox.Proofs.Settings.Fields
import Toolbox.Proofs.Settings.Loading
import Toolbox.Proofs.Program.Completing
