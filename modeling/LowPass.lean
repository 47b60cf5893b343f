import LowPass.Binary32.Bits
import LowPass.FileTree.Survey
import LowPass.Main
import LowPass.Text.Utf8.RoundTrip
import LowPass.Proofs.Delivery
import LowPass.Proofs.Reading
import LowPass.Proofs.Pouring
import LowPass.Proofs.Smoothing
import LowPass.Proofs.LimitedSink
import LowPass.Proofs.LimitedPrintout
import LowPass.Proofs.CutInput
import LowPass.Proofs.Portions
import LowPass.Proofs.Printouts
import LowPass.Proofs.Binary32.Nearest
import LowPass.Proofs.Binary32.Spacing
import LowPass.Proofs.Smoother.Approach
import LowPass.Proofs.Smoother.Drift
import LowPass.Proofs.Smoother.Settling
import LowPass.Proofs.Smoother.Serving
import LowPass.Proofs.Smoother.Breaking
import LowPass.Proofs.Smoother.Mirror
import LowPass.Proofs.Decimal.Millionths
import LowPass.Proofs.Decimal.Spelling
import LowPass.Proofs.FileTree.Resolve
import LowPass.Proofs.FileRun
import LowPass.Proofs.FileTree.Open
import LowPass.Proofs.Resuming
import LowPass.Proofs.WholeText
import LowPass.Proofs.Closing
import LowPass.Proofs.Zeros
import LowPass.Proofs.Report
import LowPass.Proofs.CommandLine.Isolation
import LowPass.Proofs.Text.Quoted
import LowPass.Proofs.MalformedSample
import LowPass.Proofs.CommandLine.Operands
import LowPass.Proofs.Log.Level
import LowPass.Proofs.Smoother.History
import LowPass.Proofs.Smoother.Order
import LowPass.Proofs.Log.Failure
